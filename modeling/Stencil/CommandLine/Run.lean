import Stencil.CommandLine.Request
import Stencil.Data.Conversion
import Stencil.Data.JsonReader
import Stencil.Storage.Loader

/-! # Answering requests

The template is read first, then the context, then the layout; the first of them that is broken
decides what is reported. How files are read is left to the caller. -/
namespace Stencil.CommandLine

/-- Where files and the standard input come from. -/
structure Source (m : Type → Type) where
  file : String → m (Except ReadFault String)
  input : m (Except ReadFault String)

inductive Fault where
  | template (path : String) (error : Error)
  | unreadableContext (path : String) (fault : ReadFault)
  | unreadableInput (fault : ReadFault)
  | brokenContext (path : String)
deriving DecidableEq

namespace Fault

def message : Fault → String
  | template path _ => "unable to load template '" ++ path ++ "'"
  | unreadableContext path _ => "unable to read context file '" ++ path ++ "'"
  | unreadableInput _ => "unable to read context from stdin"
  | brokenContext path => "unable to parse context file '" ++ path ++ "'"

/-- What caused it, the nearest cause first. -/
def causes : Fault → List String
  | template _ error => error.message :: error.source.toList
  | unreadableContext _ fault | unreadableInput fault => [fault.message]
  | brokenContext _ => ["invalid JSON"]

def report (f : Fault) : String :=
  "error: " ++ f.message ++ "\n" ++
    String.join (f.causes.map fun cause => "\ncaused by: " ++ cause ++ "\n")

end Fault

/-- Whether a path stands for the standard input. -/
def isInput (path : String) : Bool := Path.components path.toList == [.normal ['-']]

variable {m : Type → Type} [Monad m]

def loadTemplate (source : Source m) (path : String) : ExceptT Fault m Template := do
  match Template.ofContent path (← source.file path) with
  | .ok t => return t
  | .error e => throw (.template path e)

def loadContext (source : Source m) (path : String) : ExceptT Fault m Value := do
  let content ← if isInput path then source.input else source.file path
  match content with
  | .error fault =>
    throw (if isInput path then .unreadableInput fault else .unreadableContext path fault)
  | .ok text => match Json.read? text with
    | some document => return document.toDatum.toValue
    | none => throw (.brokenContext path)

def Job.text (job : Job) (source : Source m) : ExceptT Fault m String := do
  let t ← loadTemplate source job.template
  let v ← loadContext source job.context
  let rendered ← match job.layout with
    | some path => do
      return Environment.standard.renderInLayout t (← loadTemplate source path) [v]
    | none => pure (Environment.standard.render t [v])
  return if job.newline then rendered ++ "\n" else rendered

def versionText : String := "mandira 0.4.0\n"

def helpText : String :=
  "mandira renders a mandira template against a JSON context.\n\n" ++
    "Usage: mandira [OPTIONS] <TEMPLATE> <CONTEXT>\n\n" ++
    "Arguments:\n" ++
    "  <TEMPLATE>  path to the template file\n" ++
    "  <CONTEXT>   path to the JSON context file or - for stdin\n\n" ++
    "Options:\n" ++
    "      --layout <FILE>  render the template inside of this layout template\n" ++
    "      --no-newline     Do not output a trailing newline\n" ++
    "  -h, --help           Print help\n" ++
    "  -V, --version        Print version\n"

/-- What a run leaves behind. -/
structure Outcome where
  code : UInt32
  output : String
  report : String
deriving DecidableEq, Repr

def run (source : Source m) (words : List String) : m Outcome := do
  match Request.ofWords words with
  | .error fault => return ⟨2, "", "error: " ++ fault.message ++ "\n"⟩
  | .ok .version => return ⟨0, versionText, ""⟩
  | .ok .help => return ⟨0, helpText, ""⟩
  | .ok (.render job) => match ← (job.text source).run with
    | .ok text => return ⟨0, text, ""⟩
    | .error fault => return ⟨1, "", fault.report⟩

end Stencil.CommandLine

import Stencil.Text.Quoted

/-! # Errors

What is reported to the caller: a kind, an optional detail, and where it happened. The faults of
the single stages are types of their own; each says which error it is.
-/
namespace Stencil

inductive ErrorKind where
  | syntaxError
  | parseError
  | templateNotFound
  | unknownFilter
  | unknownMethod
  | missingArgument
  | invalidArguments
  | invalidOperation
  | badSerialization
  | writeFailure
deriving DecidableEq, Repr, Inhabited

namespace ErrorKind

def description : ErrorKind → String
  | syntaxError => "syntax error"
  | parseError => "parse error"
  | templateNotFound => "template not found"
  | unknownFilter => "unknown filter"
  | unknownMethod => "unknown method"
  | missingArgument => "missing argument"
  | invalidArguments => "invalid arguments"
  | invalidOperation => "invalid operation"
  | badSerialization => "could not serialize to internal format"
  | writeFailure => "failed to write output"

def name : ErrorKind → String
  | syntaxError => "SyntaxError"
  | parseError => "ParseError"
  | templateNotFound => "TemplateNotFound"
  | unknownFilter => "UnknownFilter"
  | unknownMethod => "UnknownMethod"
  | missingArgument => "MissingArgument"
  | invalidArguments => "InvalidArguments"
  | invalidOperation => "InvalidOperation"
  | badSerialization => "BadSerialization"
  | writeFailure => "WriteFailure"

def all : List ErrorKind :=
  [syntaxError, parseError, templateNotFound, unknownFilter, unknownMethod, missingArgument,
    invalidArguments, invalidOperation, badSerialization, writeFailure]

def ofName? (name : String) : Option ErrorKind := all.find? (·.name == name)

end ErrorKind

/-- A failure: its kind, what exactly went wrong, the template and the line it concerns, and the
text of the input or output failure that caused it. -/
structure Error where
  kind : ErrorKind
  detail : Option String
  name : Option String
  line : Option Nat
  source : Option String
deriving DecidableEq, Repr, Inhabited

namespace Error

def ofKind (kind : ErrorKind) : Error := ⟨kind, none, none, none, none⟩

def new (kind : ErrorKind) (detail : String) : Error := ⟨kind, some detail, none, none, none⟩

/-- Places the error on a line; lines count from one. -/
def atLine (e : Error) (line : Nat) : Error :=
  ⟨e.kind, e.detail, e.name, if line = 0 then none else some line, e.source⟩

def inTemplate (e : Error) (name : String) : Error :=
  ⟨e.kind, e.detail, some name, e.line, e.source⟩

def causedBy (e : Error) (source : String) : Error :=
  ⟨e.kind, e.detail, e.name, e.line, some source⟩

/-- Errors are compared by their kinds alone. -/
def alike (e other : Error) : Bool := e.kind == other.kind

/-- A part that refuses to be converted into a value. -/
def unserializable (message : String) : Error := new .badSerialization message

/-- An output that refuses text for no stated reason. -/
def unwritable : Error := new .writeFailure "formatting failed"

def message (e : Error) : String :=
  let what := match e.detail with
    | some detail => e.kind.description ++ ": " ++ detail
    | none => e.kind.description
  match e.name, e.line with
  | some name, some line => what ++ " (in " ++ name ++ ":" ++ toString line ++ ")"
  | some name, none => what ++ " (in " ++ name ++ ")"
  | none, some line => what ++ " (line " ++ toString line ++ ")"
  | none, none => what

private def debugOption (show? : Option String) : String :=
  match show? with
  | some s => "Some(" ++ s ++ ")"
  | none => "None"

/-- All parts of the error, for a person who looks for its cause. -/
def debugText (e : Error) : String :=
  let source := e.source.map fun s => "Custom \x7b kind: Other, error: " ++ Text.quote s ++ " \x7d"
  "Error \x7b kind: " ++ e.kind.name ++
    ", detail: " ++ debugOption (e.detail.map Text.quote) ++
    ", name: " ++ debugOption (e.name.map Text.quote) ++
    ", lineno: " ++ toString (e.line.getD 0) ++
    ", source: " ++ debugOption source ++ " \x7d"

end Error

end Stencil

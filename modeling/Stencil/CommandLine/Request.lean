/-! # Requests

What the words of a command line ask for. Words are taken from left to right, and the first
one that is out of place decides; so does the first that asks for the version or for help. -/
namespace Stencil.CommandLine

/-- A template to render against a context, perhaps inside a layout. -/
structure Job where
  template : String
  context : String
  layout : Option String
  /-- Whether a line end follows the text. -/
  newline : Bool
deriving DecidableEq, Repr

inductive Request where
  | render (job : Job)
  | version
  | help
deriving DecidableEq, Repr

inductive UsageFault where
  | unknownOption (word : String)
  | missingValue (option : String)
  | unwantedValue (option : String)
  | repeated (option : String)
  | tooManyPaths (word : String)
  | tooFewPaths
deriving DecidableEq, Repr

def UsageFault.message : UsageFault → String
  | unknownOption word => "unexpected argument '" ++ word ++ "' found"
  | missingValue option => "a value is required for '" ++ option ++ "' but none was supplied"
  | unwantedValue option => "unexpected value for '" ++ option ++ "' found; no more were expected"
  | repeated option => "the argument '" ++ option ++ "' cannot be used multiple times"
  | tooManyPaths word => "unexpected argument '" ++ word ++ "' found"
  | tooFewPaths => "the template and its context are required"

/-- What one word is, by its dashes. A single dash is a path. -/
inductive Word where
  | path
  /-- The word after which all others are paths. -/
  | separator
  | short (first : Char)
  | long (name : List Char) (value : Option (List Char))
deriving DecidableEq, Repr

def Word.of : List Char → Word
  | ['-', '-'] => .separator
  | '-' :: '-' :: rest =>
    let name := rest.takeWhile (· != '=')
    .long name ((rest.dropWhile (· != '=')).tail?)
  | '-' :: c :: _ => .short c
  | _ => .path

structure Given where
  paths : List String
  layout : Option String
  newline : Bool
deriving DecidableEq, Repr

namespace Given

def nothing : Given := ⟨[], none, true⟩

/-- Takes a path; there are two, and neither is empty. -/
def addPath (g : Given) (path : String) : Except UsageFault Given :=
  if g.paths.length = 2 then .error (.tooManyPaths path)
  else if path = "" then .error (.missingValue "path")
  else .ok ⟨g.paths ++ [path], g.layout, g.newline⟩

def setLayout (g : Given) (path : String) : Except UsageFault Given :=
  if g.layout ≠ none then .error (.repeated "--layout")
  else if path = "" then .error (.missingValue "--layout")
  else .ok ⟨g.paths, some path, g.newline⟩

def dropNewline (g : Given) : Except UsageFault Given :=
  if g.newline then .ok ⟨g.paths, g.layout, false⟩ else .error (.repeated "--no-newline")

def finish (g : Given) : Except UsageFault Request :=
  match g.paths with
  | [template, context] => .ok (.render ⟨template, context, g.layout, g.newline⟩)
  | _ => .error .tooFewPaths

/-- Takes words that are paths whatever they look like. -/
def takePaths (g : Given) : List String → Except UsageFault Request
  | [] => g.finish
  | path :: rest => do takePaths (← g.addPath path) rest

def take (g : Given) : List String → Except UsageFault Request
  | [] => g.finish
  | word :: rest => match Word.of word.toList with
    | .path => do take (← g.addPath word) rest
    | .separator => g.takePaths rest
    | .short c =>
      if c = 'V' then .ok .version
      else if c = 'h' then .ok .help
      else .error (.unknownOption word)
    | .long name value =>
      if name = "layout".toList then
        match value, rest with
        | some path, rest => do take (← g.setLayout (String.ofList path)) rest
        | none, path :: rest => match Word.of path.toList with
          | .path => do take (← g.setLayout path) rest
          | _ => .error (.missingValue "--layout")
        | none, [] => .error (.missingValue "--layout")
      else if name ∉ ["no-newline".toList, "version".toList, "help".toList] then
        .error (.unknownOption word)
      else if value ≠ none then .error (.unwantedValue word)
      else if name = "version".toList then .ok .version
      else if name = "help".toList then .ok .help
      else do take (← g.dropNewline) rest

end Given

def Request.ofWords (words : List String) : Except UsageFault Request := Given.nothing.take words

end Stencil.CommandLine

/-! # Paths

Texts that name files: segments between slashes. A template path is joined onto a base only if
none of its segments could lead out of the base or to something hidden. -/
namespace Stencil.Path

/-- What stands between the slashes of a text; always one segment more than slashes. -/
def segments : List Char → List (List Char)
  | [] => [[]]
  | c :: rest =>
    if c = '/' then [] :: segments rest
    else match segments rest with
      | s :: more => (c :: s) :: more
      | [] => [[c]]

inductive Component where
  | root
  | current
  | parent
  | normal (name : List Char)
deriving DecidableEq, Repr

/-- The step of a segment. Empty segments and single dots are no steps. -/
def component? (segment : List Char) : Option Component :=
  if segment = [] ∨ segment = ['.'] then none
  else if segment = ['.', '.'] then some .parent
  else some (.normal segment)

/-- The steps of a path. Only in front does a slash or a single dot count. -/
def components (path : List Char) : List Component :=
  let steps := (segments path).filterMap component?
  match segments path with
  | [] :: _ :: _ => .root :: steps
  | ['.'] :: _ => .current :: steps
  | _ => steps

/-- Appends a path behind a slash, unless there is one already or nothing in front of it. A path
from the root of all files takes the place of what was there. -/
def push (path more : List Char) : List Char :=
  if more.head? = some '/' then more
  else if path = [] ∨ path.getLast? = some '/' then path ++ more
  else path ++ '/' :: more

def join (path more : String) : String := String.ofList (push path.toList more.toList)

/-- Whether a segment is refused: hidden ones, the two that are steps of their own, and those that
other systems would split. -/
def isRefused (segment : List Char) : Bool :=
  segment.head? == some '.' || segment.contains '\\'

def safeJoin? (base template : String) : Option String :=
  let parts := segments template.toList
  if parts.any isRefused then none else some (String.ofList (parts.foldl push base.toList))

/-- What follows the last point of a name, if something stands in front of that point. -/
def nameExtension? (name : List Char) : Option (List Char) :=
  let tail := name.reverse.takeWhile (· != '.')
  let front := name.take (name.length - tail.length - 1)
  if tail.length = name.length ∨ front = [] then none else some tail.reverse

def extension? (path : List Char) : Option (List Char) :=
  match (components path).getLast? with
  | some (.normal name) => nameExtension? name
  | _ => none

def templateExtensions : List (List Char) :=
  [['m', 'n', 'd'], ['m', 'a', 'n', 'd', 'i', 'r', 'a'], ['m', 'd', 'a']]

def isTemplate (path : String) : Bool :=
  match extension? path.toList with
  | some e => templateExtensions.contains e
  | none => false

end Stencil.Path

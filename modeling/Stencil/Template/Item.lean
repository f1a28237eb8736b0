import Stencil.Text.Blank

/-! # The flat list of texts and tags

A source is cut at its tags before anything is matched. A tag begins with two braces and ends
with the next two; with a third brace in front it ends with the next three. The line end behind
the opening tag of a section belongs to the tag.
-/
namespace Stencil

inductive Item where
  /-- A text between tags, not empty. -/
  | text (s : List Char)
  /-- What stands between the braces of a tag, which starts on the given line. -/
  | tag (line : Nat) (raw : Bool) (inner : List Char)
  /-- A tag without an end, which is the last item. -/
  | unclosed (line : Nat)
deriving DecidableEq

namespace Item

inductive Mode where
  /-- In a text, collected in reverse. -/
  | text (pending : List Char)
  /-- In a tag that started on the given line, collected in reverse. -/
  | tag (line : Nat) (raw : Bool) (pending : List Char)

def flush (pending : List Char) (rest : List Item) : List Item :=
  if pending = [] then rest else .text pending.reverse :: rest

def opensSection (inner : List Char) : Bool := (Text.trimStart inner).head? == some '#'

def nextLine (line : Nat) (c : Char) : Nat := if c = '\n' then line + 1 else line

/-- The items of the rest of a source, which starts on the given line. -/
def scan : Mode → Nat → List Char → List Item
  | .text pending, _, [] => flush pending []
  | .text pending, line, '\x7b' :: '\x7b' :: '\x7b' :: rest =>
    flush pending (scan (.tag line true []) line rest)
  | .text pending, line, '\x7b' :: '\x7b' :: rest =>
    flush pending (scan (.tag line false []) line rest)
  | .text pending, line, c :: rest => scan (.text (c :: pending)) (nextLine line c) rest
  | .tag start _ _, _, [] => [.unclosed start]
  | .tag start true pending, line, '\x7d' :: '\x7d' :: '\x7d' :: rest =>
    .tag start true pending.reverse :: scan (.text []) line rest
  | .tag start false pending, line, '\x7d' :: '\x7d' :: rest =>
    .tag start false pending.reverse ::
      if opensSection pending.reverse then
        match rest with
        | '\n' :: rest => scan (.text []) (line + 1) rest
        | '\r' :: '\n' :: rest => scan (.text []) (line + 1) rest
        | rest => scan (.text []) line rest
      else scan (.text []) line rest
  | .tag start raw pending, line, c :: rest =>
    scan (.tag start raw (c :: pending)) (nextLine line c) rest

end Item

def itemsOf (source : List Char) : List Item := Item.scan (.text []) 1 source

end Stencil

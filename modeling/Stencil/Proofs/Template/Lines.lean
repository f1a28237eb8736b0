import Stencil.Template.Nesting
import Stencil.Render.Meaning

/-! # Lines in trees

Sections remember the line of their opening tag, and faults that of the tag they concern. Lines
are passed on and never looked at: the matching of tags does the same on other lines, and what a
tree means does not depend on them.
-/
namespace Stencil

/-- An item on another line. -/
def Item.mapLine (f : Nat → Nat) : Item → Item
  | .text s => .text s
  | .tag line raw inner => .tag (f line) raw inner
  | .unclosed line => .unclosed (f line)

/-- A fault on another line. -/
def PlacedFault.mapLine (f : Nat → Nat) (p : PlacedFault) : PlacedFault := ⟨f p.line, p.fault⟩

mutual

/-- A node with other lines in it. -/
def Node.mapLines (f : Nat → Nat) : Node → Node
  | .text s => .text s
  | .variable p raw => .variable p raw
  | .scope name body orElse line =>
    .scope name (Node.mapLinesAll f body) (Node.mapLinesAll f orElse) (f line)
  | .choice test body orElse line =>
    .choice test (Node.mapLinesAll f body) (Node.mapLinesAll f orElse) (f line)

def Node.mapLinesAll (f : Nat → Nat) : List Node → List Node
  | [] => []
  | n :: rest => n.mapLines f :: Node.mapLinesAll f rest

end

def Block.mapLines (f : Nat → Nat) (b : Block) : Block :=
  ⟨Node.mapLinesAll f b.body, Node.mapLinesAll f b.orElse, b.inElse⟩

def Opened.mapLines (f : Nat → Nat) (o : Opened) : Opened :=
  ⟨o.name, f o.line, o.test, o.block.mapLines f⟩

def Nesting.mapLines (f : Nat → Nat) (s : Nesting) : Nesting :=
  ⟨s.opened.map (Opened.mapLines f), Node.mapLinesAll f s.root⟩

variable (f : Nat → Nat)

theorem Node.mapLinesAll_eq_map (tree : List Node) :
    Node.mapLinesAll f tree = tree.map (Node.mapLines f) := by
  induction tree with
  | nil => rw [Node.mapLinesAll, List.map_nil]
  | cons n rest ih => rw [Node.mapLinesAll, List.map_cons, ih]

theorem Node.mapLinesAll_reverse (tree : List Node) :
    Node.mapLinesAll f tree.reverse = (Node.mapLinesAll f tree).reverse := by
  rw [Node.mapLinesAll_eq_map, Node.mapLinesAll_eq_map, List.map_reverse]

namespace Nesting

theorem takeTag_closing (o : Opened) (outer : List Opened) (root : List Node) (line : Nat)
    (name : String) : takeTag ⟨o :: outer, root⟩ line (.closing name) =
      if o.name = name then .ok ((⟨outer, root⟩ : Nesting).push o.node)
      else .error (.crossedClose name) := rfl

/-- A change of states that matching keeps up with, on changed lines. -/
structure Preserves (f : Nat → Nat) (change : Nesting → Nesting)
    (result : List Node → List Node) : Prop where
  text : ∀ s w, change (s.push (.text w)) = (change s).push (.text w)
  tag : ∀ s line t, (change s).takeTag (f line) t = (s.takeTag line t).map change
  finish : ∀ s, (change s).finish = (s.finish.map result).mapError (PlacedFault.mapLine f)

namespace Preserves

variable {f} {change : Nesting → Nesting} {result : List Node → List Node}

theorem take (h : Preserves f change result) (s : Nesting) (i : Item) :
    (change s).take (i.mapLine f) =
      ((s.take i).map change).mapError (PlacedFault.mapLine f) := by
  cases i with
  | text w => exact congrArg Except.ok (h.text s (String.ofList w)).symm
  | unclosed line => rfl
  | tag line raw inner =>
    have htake (s : Nesting) (line : Nat) : s.take (.tag line raw inner) =
        ((Tag.ofInner raw inner).bind (s.takeTag line)).mapError (PlacedFault.mk line) := by
      rw [Nesting.take]
      cases (Tag.ofInner raw inner).bind (s.takeTag line) <;> rfl
    rw [Item.mapLine, htake, htake]
    cases Tag.ofInner raw inner with
    | error fault => rfl
    | ok t =>
      show Except.mapError _ ((change s).takeTag (f line) t) =
        Except.mapError _ (Except.map _ (Except.mapError _ (s.takeTag line t)))
      rw [h.tag]
      cases s.takeTag line t <;> rfl

theorem takeAll (h : Preserves f change result) (s : Nesting) (items : List Item) :
    (change s).takeAll (items.map (Item.mapLine f)) =
      ((s.takeAll items).map result).mapError (PlacedFault.mapLine f) := by
  induction items generalizing s with
  | nil => exact h.finish s
  | cons i rest ih =>
    rw [List.map_cons, Nesting.takeAll, Nesting.takeAll, h.take]
    cases s.take i with
    | error fault => rfl
    | ok u => exact ih u

end Preserves

end Nesting

theorem Block.mapLines_push (b : Block) (n : Node) :
    (b.push n).mapLines f = (b.mapLines f).push (n.mapLines f) := by
  obtain ⟨body, orElse, inElse⟩ := b
  cases inElse with
  | true => simp [push, mapLines, Node.mapLinesAll]
  | false => simp [push, mapLines, Node.mapLinesAll]

theorem Opened.mapLines_node (o : Opened) : o.node.mapLines f = (o.mapLines f).node := by
  obtain ⟨name, line, test, body, orElse, inElse⟩ := o
  cases test with
  | none => simp [node, mapLines, Block.mapLines, Node.mapLines, Node.mapLinesAll_reverse]
  | some c => simp [node, mapLines, Block.mapLines, Node.mapLines, Node.mapLinesAll_reverse]

namespace Nesting

theorem mapLines_push (s : Nesting) (n : Node) :
    (s.push n).mapLines f = (s.mapLines f).push (n.mapLines f) := by
  obtain ⟨opened, root⟩ := s
  cases opened with
  | nil => simp [push, mapLines, Node.mapLinesAll]
  | cons o outer => simp [push, mapLines, Opened.mapLines, Block.mapLines_push]

theorem takeTag_mapLines (s : Nesting) (line : Nat) (t : Tag) :
    (s.mapLines f).takeTag (f line) t = (s.takeTag line t).map (mapLines f) := by
  obtain ⟨opened, root⟩ := s
  rcases t with _ | name | c | _ | name | ⟨p, raw⟩
  · rfl
  · simp [takeTag, mapLines, Opened.mapLines, Block.mapLines, Block.empty, Node.mapLinesAll,
      Except.map]
  · simp [takeTag, mapLines, Opened.mapLines, Block.mapLines, Block.empty, Node.mapLinesAll,
      Except.map]
  · cases opened with
    | nil => rfl
    | cons o outer => rfl
  · cases opened with
    | nil => rfl
    | cons o outer =>
      by_cases hname : o.name = name
      · have hmapped : (o.mapLines f).name = name := hname
        rw [mapLines, List.map_cons, takeTag_closing, takeTag_closing, if_pos hname, if_pos hmapped,
          ← Opened.mapLines_node]
        exact congrArg Except.ok (mapLines_push f ⟨outer, root⟩ o.node).symm
      · have hmapped : ¬ (o.mapLines f).name = name := hname
        rw [mapLines, List.map_cons, takeTag_closing, takeTag_closing, if_neg hname, if_neg hmapped]
        rfl
  · exact congrArg Except.ok (mapLines_push f ⟨opened, root⟩ (.variable p raw)).symm

theorem finish_mapLines (s : Nesting) :
    (s.mapLines f).finish =
      (s.finish.map (Node.mapLinesAll f)).mapError (PlacedFault.mapLine f) := by
  obtain ⟨opened, root⟩ := s
  cases opened with
  | nil => exact congrArg Except.ok (Node.mapLinesAll_reverse f root).symm
  | cons o outer => rfl

theorem preserves_mapLines : Preserves f (mapLines f) (Node.mapLinesAll f) :=
  ⟨fun s w => mapLines_push f s (.text w), takeTag_mapLines f, finish_mapLines f⟩

end Nesting

/-- The tree of items on other lines. -/
theorem nest_mapLine (items : List Item) :
    nest (items.map (Item.mapLine f)) =
      ((nest items).map (Node.mapLinesAll f)).mapError (PlacedFault.mapLine f) :=
  (Nesting.preserves_mapLines f).takeAll .start items

namespace Meaning

variable (env : Environment)

mutual

theorem node_mapLines : ∀ (n : Node) (context : Context),
    node env (n.mapLines f) context = node env n context
  | .text s, _ => by rw [Node.mapLines]
  | .variable p raw, _ => by rw [Node.mapLines]
  | .scope name body orElse line, context => by
    have hbody : nodes env (Node.mapLinesAll f body) = nodes env body :=
      funext (nodes_mapLinesAll body)
    rw [Node.mapLines, node, node, hbody]
  | .choice test body orElse line, context => by
    rw [Node.mapLines, node, node, nodes_mapLinesAll body, nodes_mapLinesAll orElse]

theorem nodes_mapLinesAll : ∀ (tree : List Node) (context : Context),
    nodes env (Node.mapLinesAll f tree) context = nodes env tree context
  | [], _ => by rw [Node.mapLinesAll]
  | n :: rest, context => by
    rw [Node.mapLinesAll, nodes, nodes, node_mapLines n, nodes_mapLinesAll rest]

end

end Meaning

end Stencil

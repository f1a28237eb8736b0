import Mathlib.Data.List.ReduceOption
import Stencil.Proofs.Template.TagClass
import Stencil.Template.Nesting

/-! # Tags as brackets

The grammar of nested sections over texts and tags, and the trees that it gives. Opening and
closing tags are the brackets; what stands between two of them is a level.
-/
namespace Stencil

/-- A text of the flat list, or a tag of it that is read. -/
inductive Piece where
  | text (s : List Char)
  | tag (line : Nat) (t : Tag)

/-- The piece that an item is read as. -/
inductive Item.Reads : Item → Piece → Prop
  | text {s} : Item.Reads (.text s) (.text s)
  | tag {line raw inner t} : Tag.Spells raw inner t → Item.Reads (.tag line raw inner) (.tag line t)

structure Heading where
  name : String
  test : Option Condition
  line : Nat

def Heading.node (h : Heading) (body orElse : List Node) : Node :=
  match h.test with
  | some c => .choice c body orElse h.line
  | none => .scope h.name body orElse h.line

def Piece.heading : Piece → Option Heading
  | .tag line (.opening name) => some ⟨name, none, line⟩
  | .tag line (.test c) => some ⟨Tag.testName, some c, line⟩
  | _ => none

/-- Whether a piece is no bracket and begins no other body. -/
def Piece.isPlain : Piece → Bool
  | .text _ => true
  | .tag _ .comment => true
  | .tag _ (.variable _ _) => true
  | _ => false

def Piece.node : Piece → Option Node
  | .text s => some (.text (String.ofList s))
  | .tag _ (.variable p raw) => some (.variable p raw)
  | _ => none

/-- Pieces whose brackets match, inside of a section or not. -/
inductive Balanced : Bool → List Piece → Prop
  | nil {inside} : Balanced inside []
  | plain {inside p ps} : p.isPlain = true → Balanced inside ps → Balanced inside (p :: ps)
  | otherwise {line ps} : Balanced true ps → Balanced true (.tag line .otherwise :: ps)
  | nested {inside p h inner line ps} : p.heading = some h → Balanced true inner →
      Balanced inside ps → Balanced inside (p :: inner ++ .tag line (.closing h.name) :: ps)

/-- The nodes of a level before its first mark, where a mark is `none`. -/
def bodyOf (entries : List (Option Node)) : List Node :=
  (entries.takeWhile Option.isSome).reduceOption

/-- The nodes of a level after its first mark. -/
def orElseOf (entries : List (Option Node)) : List Node :=
  (entries.dropWhile Option.isSome).reduceOption

/-- The nodes that the pieces of one level give, with a mark for each tag that begins the other
body. -/
inductive Level : Bool → List Piece → List (Option Node) → Prop
  | nil {inside} : Level inside [] []
  | plain {inside p ps entries} : p.isPlain = true → Level inside ps entries →
      Level inside (p :: ps) ((p.node.map some).toList ++ entries)
  | otherwise {line ps entries} : Level true ps entries →
      Level true (.tag line .otherwise :: ps) (none :: entries)
  | nested {inside p h inner line ps body entries} : p.heading = some h → Level true inner body →
      Level inside ps entries →
      Level inside (p :: inner ++ .tag line (.closing h.name) :: ps)
        (some (h.node (bodyOf body) (orElseOf body)) :: entries)

/-- What pieces open and do not close, the innermost first. -/
inductive Unclosed : List Piece → List Heading → Prop
  | root {ps} : Balanced false ps → Unclosed ps []
  | inside {ps opens p h inner} : Unclosed ps opens → p.heading = some h → Balanced true inner →
      Unclosed (ps ++ p :: inner) (h :: opens)

variable {inside : Bool} {ps qs : List Piece} {entries more : List (Option Node)}

theorem bodyOf_append_orElseOf (entries : List (Option Node)) :
    bodyOf entries ++ orElseOf entries = entries.reduceOption := by
  rw [bodyOf, orElseOf, ← List.reduceOption_append, List.takeWhile_append_dropWhile]

namespace Level

theorem append (hp : Level inside ps entries) (hq : Level inside qs more) :
    Level inside (ps ++ qs) (entries ++ more) := by
  induction hp with
  | nil => exact hq
  | plain h _ ih => rw [List.append_assoc]; exact .plain h (ih hq)
  | otherwise _ ih => exact .otherwise (ih hq)
  | nested hh hinner _ _ ih =>
    rw [List.append_assoc]
    exact .nested hh hinner (ih hq)

theorem to_inside (h : Level inside ps entries) : Level true ps entries := by
  induction h with
  | nil => exact .nil
  | plain h _ ih => exact .plain h ih
  | otherwise _ ih => exact .otherwise ih
  | nested hh _ _ ihinner ih => exact .nested hh ihinner ih

theorem balanced (h : Level inside ps entries) : Balanced inside ps := by
  induction h with
  | nil => exact .nil
  | plain h _ ih => exact .plain h ih
  | otherwise _ ih => exact .otherwise ih
  | nested hh _ _ ihinner ih => exact .nested hh ihinner ih

/-- Outside of every section no other body begins. -/
theorem eq_map_some (h : Level false ps entries) : entries = entries.reduceOption.map some := by
  generalize hb : false = b at h
  induction h with
  | nil => rfl
  | @plain _ p _ entries _ _ ih =>
    cases hn : p.node with
    | none => simpa using ih hb
    | some n => simpa [List.reduceOption_cons_of_some] using ih hb
  | otherwise => exact absurd hb (by simp)
  | nested _ _ _ _ ih => simpa [List.reduceOption_cons_of_some] using ih hb

end Level

theorem Balanced.exists_level (h : Balanced inside ps) : ∃ entries, Level inside ps entries := by
  induction h with
  | nil => exact ⟨[], .nil⟩
  | plain h _ ih =>
    obtain ⟨entries, hl⟩ := ih
    exact ⟨_, .plain h hl⟩
  | otherwise _ ih =>
    obtain ⟨entries, hl⟩ := ih
    exact ⟨_, .otherwise hl⟩
  | nested hh _ _ ihinner ih =>
    obtain ⟨body, hb⟩ := ihinner
    obtain ⟨entries, hl⟩ := ih
    exact ⟨_, .nested hh hb hl⟩

/-- A piece is no bracket, opens something, begins the other body or closes something. -/
theorem Piece.kind_cases (p : Piece) :
    p.isPlain = true ∨ (∃ h, p.heading = some h) ∨ (∃ line, p = .tag line .otherwise) ∨
    ∃ line name, p = .tag line (.closing name) := by
  rcases p with s | ⟨line, _ | name | c | _ | name | ⟨p, raw⟩⟩
  · exact Or.inl rfl
  · exact Or.inl rfl
  · exact Or.inr (Or.inl ⟨_, rfl⟩)
  · exact Or.inr (Or.inl ⟨_, rfl⟩)
  · exact Or.inr (Or.inr (Or.inl ⟨line, rfl⟩))
  · exact Or.inr (Or.inr (Or.inr ⟨line, name, rfl⟩))
  · exact Or.inl rfl

/-- What a tree shows of the source that it is read from. -/
inductive Mark where
  | text (s : String)
  | variable (p : Pipeline) (raw : Bool)
  | opening (h : Heading)
  | closing (name : String)

/-- The mark of a piece; comments and the tags between two bodies leave none. -/
def Piece.mark : Piece → Option Mark
  | .text s => some (.text (String.ofList s))
  | .tag _ (.variable p raw) => some (.variable p raw)
  | .tag line (.opening name) => some (.opening ⟨name, none, line⟩)
  | .tag line (.test c) => some (.opening ⟨Tag.testName, some c, line⟩)
  | .tag _ (.closing name) => some (.closing name)
  | .tag _ .comment => none
  | .tag _ .otherwise => none

mutual

def Node.marks : Node → List Mark
  | .text s => [.text s]
  | .variable p raw => [.variable p raw]
  | .scope name body orElse line =>
    .opening ⟨name, none, line⟩ :: Node.marksAll body ++ Node.marksAll orElse ++ [.closing name]
  | .choice c body orElse line =>
    .opening ⟨Tag.testName, some c, line⟩ :: Node.marksAll body ++ Node.marksAll orElse ++
      [.closing Tag.testName]

def Node.marksAll : List Node → List Mark
  | [] => []
  | n :: rest => n.marks ++ Node.marksAll rest

end

theorem Node.marksAll_append (ns ms : List Node) :
    Node.marksAll (ns ++ ms) = Node.marksAll ns ++ Node.marksAll ms := by
  induction ns with
  | nil => rw [Node.marksAll]; rfl
  | cons n ns ih => rw [List.cons_append, Node.marksAll, Node.marksAll, ih, List.append_assoc]

theorem Piece.mark_of_heading {p : Piece} {h : Heading} (hh : p.heading = some h) :
    p.mark = some (.opening h) := by
  unfold Piece.heading at hh
  split at hh
  · cases hh; rfl
  · cases hh; rfl
  · cases hh

theorem Heading.marks_node {p : Piece} {h : Heading} (hh : p.heading = some h)
    (body orElse : List Node) : (h.node body orElse).marks =
      .opening h :: Node.marksAll (body ++ orElse) ++ [.closing h.name] := by
  unfold Piece.heading at hh
  split at hh
  · cases hh
    rw [Heading.node, Node.marks, Node.marksAll_append, List.cons_append]
  · cases hh
    rw [Heading.node, Node.marks, Node.marksAll_append, List.cons_append]
  · cases hh

theorem Piece.marksAll_node {p : Piece} (h : p.isPlain = true) :
    Node.marksAll p.node.toList = p.mark.toList := by
  unfold Piece.isPlain at h
  split at h
  · rfl
  · rfl
  · rfl
  · cases h

/-- The nodes of a level show its pieces in their order, each one once. -/
theorem Level.marks (h : Level inside ps entries) :
    Node.marksAll entries.reduceOption = ps.filterMap Piece.mark := by
  induction h with
  | nil => rfl
  | @plain _ p ps entries hplain _ ih =>
    have hnode : ((p.node.map some).toList ++ entries).reduceOption =
        p.node.toList ++ entries.reduceOption := by
      rw [List.reduceOption_append]
      cases p.node <;> rfl
    have hmark : (p :: ps).filterMap Piece.mark = p.mark.toList ++ ps.filterMap Piece.mark := by
      cases hm : p.mark <;> simp [hm]
    rw [hnode, hmark, Node.marksAll_append, Piece.marksAll_node hplain, ih]
  | otherwise _ ih => exact ih
  | @nested _ p h inner line ps body entries hh _ _ ihinner ih =>
    rw [List.reduceOption_cons_of_some, Node.marksAll, Heading.marks_node hh,
      bodyOf_append_orElseOf, ihinner, ih, List.cons_append (a := p),
      List.filterMap_cons_some (Piece.mark_of_heading hh), List.filterMap_append]
    simp [Piece.mark]

/-- The tree of a level shows its pieces in their order. -/
theorem Level.marksAll_tree {tree : List Node} (h : Level inside ps (tree.map some)) :
    Node.marksAll tree = ps.filterMap Piece.mark := by
  have hmarks := h.marks
  rw [List.reduceOption, List.filterMap_map] at hmarks
  simpa using hmarks

end Stencil

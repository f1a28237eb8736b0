import Stencil.Proofs.Template.Brackets
import Stencil.Proofs.Template.FlatList

/-! # The matching of tags

Taking items one by one with a stack of what is open reads exactly the grammar of nested levels:
a level moves its nodes to the innermost block and leaves the stack as it was, and whatever state
is reached holds one level for each opening tag that has no closing one yet.
-/
namespace Stencil

/-- Adds an entry of a level: a node, or the mark behind which the other body is filled. -/
def Block.enter (b : Block) : Option Node → Block
  | some n => b.push n
  | none => ⟨b.body, b.orElse, true⟩

/-- The heading of what is open. -/
def Opened.heading (o : Opened) : Heading := ⟨o.name, o.test, o.line⟩

namespace Nesting

/-- Opens what a heading says. -/
def enclose (s : Nesting) (h : Heading) : Nesting :=
  ⟨⟨h.name, h.line, h.test, .empty⟩ :: s.opened, s.root⟩

/-- Adds an entry to the innermost level. -/
def enter (s : Nesting) : Option Node → Nesting
  | some n => s.push n
  | none => match s.opened with
    | [] => s
    | o :: outer => ⟨⟨o.name, o.line, o.test, o.block.enter none⟩ :: outer, s.root⟩

/-- Takes a tag that is read, or a text. -/
def takePiece (s : Nesting) : Piece → Except PlacedFault Nesting
  | .text text => .ok (s.push (.text (String.ofList text)))
  | .tag line t => match s.takeTag line t with
    | .ok s => .ok s
    | .error fault => .error ⟨line, fault⟩

end Nesting

theorem Block.foldl_enter_orElse (entries : List (Option Node)) (body orElse : List Node) :
    entries.foldl Block.enter ⟨body, orElse, true⟩ =
      ⟨body, entries.reduceOption.reverse ++ orElse, true⟩ := by
  induction entries generalizing orElse with
  | nil => rfl
  | cons e entries ih =>
    cases e with
    | none => exact ih orElse
    | some n =>
      have hstep := ih (n :: orElse)
      rw [List.reduceOption_cons_of_some, List.reverse_cons, List.append_assoc]
      exact hstep

theorem Block.foldl_enter (entries : List (Option Node)) (body orElse : List Node) :
    (entries.foldl Block.enter ⟨body, orElse, false⟩).body = (bodyOf entries).reverse ++ body ∧
    (entries.foldl Block.enter ⟨body, orElse, false⟩).orElse =
      (orElseOf entries).reverse ++ orElse := by
  induction entries generalizing body with
  | nil => exact ⟨rfl, rfl⟩
  | cons e entries ih =>
    cases e with
    | none =>
      have hrest := Block.foldl_enter_orElse entries body orElse
      constructor
      · exact congrArg Block.body hrest
      · exact congrArg Block.orElse hrest
    | some n =>
      obtain ⟨hbody, horElse⟩ := ih (n :: body)
      refine ⟨hbody.trans ?_, horElse⟩
      rw [bodyOf, bodyOf, List.takeWhile_cons_of_pos rfl, List.reduceOption_cons_of_some,
        List.reverse_cons, List.append_assoc]
      rfl

/-- What is open becomes the node of its heading and its two bodies. -/
theorem Opened.node_enclose (h : Heading) (entries : List (Option Node)) :
    Opened.node ⟨h.name, h.line, h.test, entries.foldl Block.enter .empty⟩ =
      h.node (bodyOf entries) (orElseOf entries) := by
  obtain ⟨hb, he⟩ := Block.foldl_enter entries [] []
  have hbody : (entries.foldl Block.enter .empty).body.reverse = bodyOf entries := by
    rw [Block.empty, hb, List.append_nil, List.reverse_reverse]
  have horElse : (entries.foldl Block.enter .empty).orElse.reverse = orElseOf entries := by
    rw [Block.empty, he, List.append_nil, List.reverse_reverse]
  obtain ⟨name, test, line⟩ := h
  cases test with
  | none => exact congrArg₂ (fun body orElse => Node.scope name body orElse line) hbody horElse
  | some c => exact congrArg₂ (fun body orElse => Node.choice c body orElse line) hbody horElse

namespace Nesting

theorem foldl_enter_opened (entries : List (Option Node)) (o : Opened) (outer : List Opened)
    (root : List Node) : entries.foldl enter ⟨o :: outer, root⟩ =
      ⟨⟨o.name, o.line, o.test, entries.foldl Block.enter o.block⟩ :: outer, root⟩ := by
  induction entries generalizing o with
  | nil => rfl
  | cons e entries ih => cases e <;> exact ih _

theorem foldl_enter_root (entries : List (Option Node)) (root : List Node) :
    entries.foldl enter ⟨[], root⟩ = ⟨[], entries.reduceOption.reverse ++ root⟩ := by
  induction entries generalizing root with
  | nil => rfl
  | cons e entries ih =>
    cases e with
    | none => exact ih root
    | some n =>
      have hstep := ih (n :: root)
      rw [List.reduceOption_cons_of_some, List.reverse_cons, List.append_assoc]
      exact hstep

/-- A level opens nothing that it does not close, and closes nothing else. -/
theorem headings_foldl_enter (entries : List (Option Node)) (s : Nesting) :
    (entries.foldl enter s).opened.map Opened.heading = s.opened.map Opened.heading := by
  obtain ⟨opened, root⟩ := s
  cases opened with
  | nil => rw [foldl_enter_root]
  | cons o outer =>
    rw [foldl_enter_opened]
    rfl

theorem opened_foldl_enter (entries : List (Option Node)) {s : Nesting} (hs : s.opened ≠ []) :
    (entries.foldl enter s).opened ≠ [] := by
  intro hnil
  have hsame := headings_foldl_enter entries s
  rw [hnil] at hsame
  exact hs (List.map_eq_nil_iff.mp hsame.symm)

theorem takePiece_plain {p : Piece} (h : p.isPlain = true) (s : Nesting) :
    s.takePiece p = .ok ((p.node.map some).toList.foldl enter s) := by
  unfold Piece.isPlain at h
  split at h
  · rfl
  · rfl
  · rfl
  · cases h

theorem takePiece_heading {p : Piece} {h : Heading} (hh : p.heading = some h) (s : Nesting) :
    s.takePiece p = .ok (s.enclose h) := by
  unfold Piece.heading at hh
  split at hh
  · cases hh; rfl
  · cases hh; rfl
  · cases hh

theorem takePiece_otherwise {s : Nesting} (hs : s.opened ≠ []) (line : Nat) :
    s.takePiece (.tag line .otherwise) = .ok (s.enter none) := by
  obtain ⟨opened, root⟩ := s
  cases opened with
  | nil => exact absurd rfl hs
  | cons o outer => rfl

theorem takePiece_closing (s : Nesting) (h : Heading) (entries : List (Option Node))
    (line : Nat) : (entries.foldl enter (s.enclose h)).takePiece (.tag line (.closing h.name)) =
      .ok (s.push (h.node (bodyOf entries) (orElseOf entries))) := by
  rw [enclose, foldl_enter_opened]
  unfold takePiece takeTag
  dsimp only
  rw [if_pos rfl, Opened.node_enclose]

end Nesting

/-- Taking the pieces of a level adds its entries to the innermost level of the stack. -/
theorem Level.foldlM_takePiece {inside : Bool} {ps : List Piece} {entries : List (Option Node)}
    (h : Level inside ps entries) (s : Nesting) (hs : inside = true → s.opened ≠ []) :
    ps.foldlM Nesting.takePiece s = .ok (entries.foldl Nesting.enter s) := by
  induction h generalizing s with
  | nil => rfl
  | @plain _ p ps entries hplain _ ih =>
    rw [List.foldlM_cons, Nesting.takePiece_plain hplain, List.foldl_append]
    exact ih _ fun hin => Nesting.opened_foldl_enter _ (hs hin)
  | otherwise _ ih =>
    rw [List.foldlM_cons, Nesting.takePiece_otherwise (hs rfl)]
    exact ih _ fun _ => Nesting.opened_foldl_enter [none] (hs rfl)
  | @nested _ p h inner line ps body entries hh _ _ ihinner ih =>
    rw [List.cons_append, List.foldlM_cons, Nesting.takePiece_heading hh]
    show (inner ++ .tag line (.closing h.name) :: ps).foldlM Nesting.takePiece _ = _
    rw [List.foldlM_append, ihinner _ fun _ => by simp [Nesting.enclose]]
    show (Piece.tag line (.closing h.name) :: ps).foldlM Nesting.takePiece _ = _
    rw [List.foldlM_cons, Nesting.takePiece_closing]
    exact ih _ fun hin => Nesting.opened_foldl_enter [some _] (hs hin)

/-- The state after some pieces: one level outside, and one more for each heading still open. -/
inductive Holds : List Piece → Nesting → Prop
  | root {ps entries} : Level false ps entries →
      Holds ps (entries.foldl Nesting.enter Nesting.start)
  | inside {ps s p h inner entries} : Holds ps s → p.heading = some h →
      Level true inner entries →
      Holds (ps ++ p :: inner) (entries.foldl Nesting.enter (s.enclose h))

namespace Holds

variable {ps qs : List Piece} {s u : Nesting} {entries : List (Option Node)}

theorem append (h : Holds ps s) (hq : Level false qs entries) :
    Holds (ps ++ qs) (entries.foldl Nesting.enter s) := by
  cases h with
  | root hl =>
    rw [← List.foldl_append]
    exact .root (hl.append hq)
  | inside hs hh hl =>
    rw [← List.foldl_append, List.append_assoc, List.cons_append]
    exact .inside hs hh (hl.append hq.to_inside)

theorem opened_root (entries : List (Option Node)) :
    (entries.foldl Nesting.enter Nesting.start).opened = [] := by
  rw [Nesting.start, Nesting.foldl_enter_root]

theorem otherwise {line : Nat} (h : Holds ps s)
    (hu : s.takePiece (.tag line .otherwise) = .ok u) :
    Holds (ps ++ [.tag line .otherwise]) u := by
  cases h with
  | @root _ entries hl =>
    simp [Nesting.takePiece, Nesting.takeTag, opened_root] at hu
  | @inside ps s p hd inner entries hs hh hl =>
    have hopen : (s.enclose hd).opened ≠ [] := by simp [Nesting.enclose]
    rw [Nesting.takePiece_otherwise (Nesting.opened_foldl_enter entries hopen)] at hu
    have hlast := Level.append hl (.otherwise (.nil) : Level true [.tag line .otherwise] [none])
    rw [List.append_assoc, List.cons_append, ← Except.ok.inj hu]
    have hheld := Holds.inside hs hh hlast
    rwa [List.foldl_append] at hheld

theorem closing {line : Nat} {name : String} (h : Holds ps s)
    (hu : s.takePiece (.tag line (.closing name)) = .ok u) :
    Holds (ps ++ [.tag line (.closing name)]) u := by
  cases h with
  | @root _ entries hl =>
    simp [Nesting.takePiece, Nesting.takeTag, opened_root] at hu
  | @inside ps s p hd inner entries hs hh hl =>
    by_cases hname : hd.name = name
    · subst hname
      rw [Nesting.takePiece_closing] at hu
      rw [← Except.ok.inj hu, List.append_assoc]
      exact hs.append (.nested hh hl .nil)
    · rw [Nesting.enclose, Nesting.foldl_enter_opened] at hu
      simp [Nesting.takePiece, Nesting.takeTag, hname] at hu

/-- One more piece. -/
theorem takePiece {p : Piece} (h : Holds ps s) (hu : s.takePiece p = .ok u) :
    Holds (ps ++ [p]) u := by
  rcases p.kind_cases with hplain | ⟨hd, hh⟩ | ⟨line, rfl⟩ | ⟨line, name, rfl⟩
  · rw [Nesting.takePiece_plain hplain] at hu
    have hlast := h.append (.plain hplain .nil)
    rwa [List.append_nil, Except.ok.inj hu] at hlast
  · rw [Nesting.takePiece_heading hh] at hu
    rw [← Except.ok.inj hu]
    exact .inside h hh .nil
  · exact h.otherwise hu
  · exact h.closing hu

/-- Whatever the matching reaches is held by levels of the grammar. -/
theorem of_run (h : ps.foldlM Nesting.takePiece Nesting.start = .ok s) : Holds ps s := by
  -- from the back, since the last piece adds to what those before it have opened
  induction ps using List.reverseRecOn generalizing s with
  | nil =>
    rw [← Except.ok.inj h]
    exact Holds.root (.nil : Level false [] [])
  | append_singleton ps p ih =>
    rw [List.foldlM_append] at h
    cases hr : ps.foldlM Nesting.takePiece Nesting.start with
    | error fault =>
      rw [hr] at h
      cases h
    | ok t =>
      rw [hr] at h
      have hlast : (t.takePiece p >>= pure) = .ok s := h
      rw [bind_pure] at hlast
      exact (ih hr).takePiece hlast

theorem unclosed (h : Holds ps s) : Unclosed ps (s.opened.map Opened.heading) := by
  induction h with
  | root hl =>
    rw [opened_root]
    exact .root hl.balanced
  | inside _ hh hl ih =>
    rw [Nesting.headings_foldl_enter]
    exact .inside ih hh hl.balanced

end Holds

end Stencil

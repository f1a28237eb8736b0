import Stencil.Proofs.Template.Matching

/-! # Trees and first faults

A source has a tree exactly if its flat list can be read and its brackets match; otherwise it has
one fault, that of the first item that cannot be taken or else of what is still open at the end.
-/
namespace Stencil

/-- An item that cannot follow while the given headings are open. -/
inductive Item.Fails (opens : List Heading) : Item → PlacedFault → Prop
  | unclosed {line} : Item.Fails opens (.unclosed line) ⟨line, .unclosedTag⟩
  | tag {line raw inner fault} : Tag.Fails raw inner fault →
      Item.Fails opens (.tag line raw inner) ⟨line, fault⟩
  | otherwise {line raw inner} : Tag.Spells raw inner .otherwise → opens = [] →
      Item.Fails opens (.tag line raw inner) ⟨line, .elseOutside⟩
  | unopened {line raw inner name} : Tag.Spells raw inner (.closing name) → opens = [] →
      Item.Fails opens (.tag line raw inner) ⟨line, .unopenedClose⟩
  | crossed {line raw inner name h outer} : Tag.Spells raw inner (.closing name) →
      opens = h :: outer → h.name ≠ name →
      Item.Fails opens (.tag line raw inner) ⟨line, .crossedClose name⟩

/-- The fault of a list of items: the items before it can all be taken. -/
inductive FirstFault : List Item → PlacedFault → Prop
  | item {before i after ps opens fault} : List.Forall₂ Item.Reads before ps →
      Unclosed ps opens → Item.Fails opens i fault → FirstFault (before ++ i :: after) fault
  | unclosed {items ps h opens} : List.Forall₂ Item.Reads items ps → Unclosed ps (h :: opens) →
      FirstFault items ⟨h.line, .unclosedSection h.name⟩

namespace Nesting

variable {s u : Nesting} {items : List Item} {ps : List Piece}

theorem take_tag_ok {raw : Bool} {inner : List Char} {t : Tag} (h : Tag.Spells raw inner t)
    (s : Nesting) (line : Nat) : s.take (.tag line raw inner) = s.takePiece (.tag line t) := by
  rw [take, Tag.ofInner_of_spells h]
  rfl

theorem take_of_reads {i : Item} {p : Piece} (h : i.Reads p) (s : Nesting) :
    s.take i = s.takePiece p := by
  cases h with
  | text => rfl
  | tag ht => exact take_tag_ok ht s _

theorem reads_of_take {i : Item} (h : s.take i = .ok u) :
    ∃ p, i.Reads p ∧ s.takePiece p = .ok u := by
  cases i with
  | text w => exact ⟨.text w, .text, h⟩
  | tag line raw inner =>
    rcases Tag.spells_or_fails raw inner with ⟨t, ht⟩ | ⟨fault, hf⟩
    · exact ⟨.tag line t, .tag ht, (take_tag_ok ht s line).symm.trans h⟩
    · rw [take, Tag.ofInner_of_fails hf] at h
      cases h
  | unclosed line => cases h

/-- The only pieces that are ever refused. -/
theorem takePiece_error {p : Piece} {fault : PlacedFault} (h : s.takePiece p = .error fault) :
    (∃ line, p = .tag line .otherwise ∧ s.opened = [] ∧ fault = ⟨line, .elseOutside⟩) ∨
    ∃ line name, p = .tag line (.closing name) ∧
      ((s.opened = [] ∧ fault = ⟨line, .unopenedClose⟩) ∨
        ∃ o outer, s.opened = o :: outer ∧ o.name ≠ name ∧ fault = ⟨line, .crossedClose name⟩) := by
  rcases p.kind_cases with hplain | ⟨hd, hh⟩ | ⟨line, rfl⟩ | ⟨line, name, rfl⟩
  · rw [takePiece_plain hplain] at h
    cases h
  · rw [takePiece_heading hh] at h
    cases h
  · cases ho : s.opened with
    | nil =>
      simp only [takePiece, takeTag, ho] at h
      exact Or.inl ⟨line, rfl, rfl, (Except.error.inj h).symm⟩
    | cons o outer => simp [takePiece, takeTag, ho] at h
  · refine Or.inr ⟨line, name, rfl, ?_⟩
    cases ho : s.opened with
    | nil =>
      simp only [takePiece, takeTag, ho] at h
      exact Or.inl ⟨rfl, (Except.error.inj h).symm⟩
    | cons o outer =>
      by_cases hname : o.name = name
      · simp [takePiece, takeTag, ho, hname] at h
      · simp only [takePiece, takeTag, ho, if_neg hname] at h
        exact Or.inr ⟨o, outer, rfl, hname, (Except.error.inj h).symm⟩

/-- An item is refused for the faults of the grammar and no other ones. -/
theorem take_error_iff {i : Item} {fault : PlacedFault} :
    s.take i = .error fault ↔ i.Fails (s.opened.map Opened.heading) fault := by
  constructor
  · intro h
    cases i with
    | text w => cases h
    | unclosed line =>
      cases h
      exact .unclosed
    | tag line raw inner =>
      rcases Tag.spells_or_fails raw inner with ⟨t, ht⟩ | ⟨f, hf⟩
      · rw [take_tag_ok ht] at h
        rcases takePiece_error h with
          ⟨_, hp, ho, rfl⟩ | ⟨_, name, hp, ⟨ho, rfl⟩ | ⟨o, outer, ho, hne, rfl⟩⟩
        · cases hp
          exact .otherwise ht (by rw [ho]; rfl)
        · cases hp
          exact .unopened ht (by rw [ho]; rfl)
        · cases hp
          exact .crossed ht (by rw [ho]; rfl) hne
      · rw [take, Tag.ofInner_of_fails hf] at h
        cases h
        exact .tag hf
  · intro h
    cases h with
    | unclosed => rfl
    | tag hf => rw [take, Tag.ofInner_of_fails hf]; rfl
    | otherwise ht ho =>
      rw [take_tag_ok ht, takePiece, takeTag, List.map_eq_nil_iff.mp ho]
    | unopened ht ho =>
      rw [take_tag_ok ht, takePiece, takeTag, List.map_eq_nil_iff.mp ho]
    | @crossed _ _ _ name _ _ ht ho hne =>
      obtain ⟨o, outer, hso, rfl, -⟩ := List.map_eq_cons_iff.mp ho
      have hname : ¬ o.name = name := hne
      rw [take_tag_ok ht, takePiece, takeTag, hso]
      dsimp only
      rw [if_neg hname]

theorem takeAll_append {before : List Item} (h : List.Forall₂ Item.Reads before ps)
    (hr : ps.foldlM takePiece s = .ok u) (after : List Item) :
    s.takeAll (before ++ after) = u.takeAll after := by
  induction h generalizing s with
  | nil =>
    rw [Except.ok.inj hr]
    rfl
  | @cons i p before ps hread _ ih =>
    rw [List.foldlM_cons, ← take_of_reads hread] at hr
    rw [List.cons_append, takeAll]
    cases ht : s.take i with
    | error fault =>
      rw [ht] at hr
      cases hr
    | ok t =>
      rw [ht] at hr
      exact ih hr

theorem takeAll_of_reads (h : List.Forall₂ Item.Reads items ps)
    (hr : ps.foldlM takePiece s = .ok u) : s.takeAll items = u.finish := by
  have hall := takeAll_append h hr []
  rwa [List.append_nil] at hall

theorem takeAll_of_refused {before : List Item} {i : Item} {fault : PlacedFault}
    (h : List.Forall₂ Item.Reads before ps) (hr : ps.foldlM takePiece s = .ok u)
    (hi : u.take i = .error fault) (after : List Item) :
    s.takeAll (before ++ i :: after) = .error fault := by
  rw [takeAll_append h hr, takeAll, hi]
  rfl

/-- Either all items are taken, or some of them up to the first that is refused. -/
theorem takeAll_cases (s : Nesting) (items : List Item) :
    (∃ ps u, List.Forall₂ Item.Reads items ps ∧ ps.foldlM takePiece s = .ok u) ∨
    ∃ before i after ps u fault, items = before ++ i :: after ∧
      List.Forall₂ Item.Reads before ps ∧ ps.foldlM takePiece s = .ok u ∧
      u.take i = .error fault := by
  induction items generalizing s with
  | nil => exact Or.inl ⟨[], s, .nil, rfl⟩
  | cons i items ih =>
    cases ht : s.take i with
    | error fault => exact Or.inr ⟨[], i, items, [], s, fault, rfl, .nil, rfl, ht⟩
    | ok t =>
      obtain ⟨p, hread, hp⟩ := reads_of_take ht
      have hrun (ps : List Piece) : (p :: ps).foldlM takePiece s = ps.foldlM takePiece t := by
        rw [List.foldlM_cons, hp]
        rfl
      rcases ih t with ⟨ps, u, hps, hu⟩ | ⟨before, j, after, ps, u, fault, rfl, hps, hu, hj⟩
      · exact Or.inl ⟨p :: ps, u, .cons hread hps, (hrun ps).trans hu⟩
      · exact Or.inr ⟨i :: before, j, after, p :: ps, u, fault, rfl, .cons hread hps,
          (hrun ps).trans hu, hj⟩

theorem finish_error_iff {fault : PlacedFault} :
    s.finish = .error fault ↔
      ∃ h opens, s.opened.map Opened.heading = h :: opens ∧
        fault = ⟨h.line, .unclosedSection h.name⟩ := by
  unfold finish
  cases ho : s.opened with
  | nil => simp
  | cons o outer =>
    constructor
    · intro h
      exact ⟨o.heading, outer.map Opened.heading, rfl, (Except.error.inj h).symm⟩
    · rintro ⟨h, opens, hmap, rfl⟩
      obtain ⟨rfl, -⟩ := List.cons.inj hmap
      rfl

end Nesting

/-- The matching comes through pieces exactly if they close nothing that they do not open. -/
theorem unclosed_iff {ps : List Piece} {opens : List Heading} :
    Unclosed ps opens ↔ ∃ s, ps.foldlM Nesting.takePiece Nesting.start = .ok s ∧
      s.opened.map Opened.heading = opens := by
  constructor
  · intro h
    induction h with
    | root hb =>
      obtain ⟨entries, hl⟩ := hb.exists_level
      refine ⟨_, hl.foldlM_takePiece _ (by simp), ?_⟩
      rw [Nesting.headings_foldl_enter]
      rfl
    | @inside ps opens p h inner _ hh hb ih =>
      obtain ⟨s, hs, rfl⟩ := ih
      obtain ⟨entries, hl⟩ := hb.exists_level
      refine ⟨entries.foldl Nesting.enter (s.enclose h), ?_, ?_⟩
      · rw [List.foldlM_append, hs]
        show (p :: inner).foldlM Nesting.takePiece s = _
        rw [List.foldlM_cons, Nesting.takePiece_heading hh]
        exact hl.foldlM_takePiece _ fun _ => by simp [Nesting.enclose]
      · rw [Nesting.headings_foldl_enter]
        rfl
  · rintro ⟨s, hs, rfl⟩
    exact (Holds.of_run hs).unclosed

theorem level_iff {ps : List Piece} {tree : List Node} :
    Level false ps (tree.map some) ↔ ∃ s, ps.foldlM Nesting.takePiece Nesting.start = .ok s ∧
      s.finish = .ok tree := by
  constructor
  · intro h
    refine ⟨_, h.foldlM_takePiece _ (by simp), ?_⟩
    rw [Nesting.start, Nesting.foldl_enter_root, List.append_nil]
    simp [Nesting.finish, List.reduceOption]
  · rintro ⟨s, hs, hfinish⟩
    cases Holds.of_run hs with
    | @root _ entries hl =>
      rw [Nesting.start, Nesting.foldl_enter_root, List.append_nil, Nesting.finish,
        List.reverse_reverse] at hfinish
      rw [← Except.ok.inj hfinish, ← hl.eq_map_some]
      exact hl
    | inside _ _ _ =>
      rw [Nesting.enclose, Nesting.foldl_enter_opened] at hfinish
      cases hfinish

theorem nest_eq_ok_iff {items : List Item} {tree : List Node} :
    nest items = .ok tree ↔
      ∃ ps, List.Forall₂ Item.Reads items ps ∧ Level false ps (tree.map some) := by
  constructor
  · intro h
    rcases Nesting.takeAll_cases Nesting.start items with
      ⟨ps, u, hps, hu⟩ | ⟨before, i, after, ps, u, fault, rfl, hps, hu, hi⟩
    · exact ⟨ps, hps, level_iff.mpr ⟨u, hu, (Nesting.takeAll_of_reads hps hu).symm.trans h⟩⟩
    · cases (Nesting.takeAll_of_refused hps hu hi after).symm.trans h
  · rintro ⟨ps, hps, hl⟩
    obtain ⟨u, hu, hfinish⟩ := level_iff.mp hl
    exact (Nesting.takeAll_of_reads hps hu).trans hfinish

theorem nest_eq_error_iff {items : List Item} {fault : PlacedFault} :
    nest items = .error fault ↔ FirstFault items fault := by
  constructor
  · intro h
    rcases Nesting.takeAll_cases Nesting.start items with
      ⟨ps, u, hps, hu⟩ | ⟨before, i, after, ps, u, other, rfl, hps, hu, hi⟩
    · obtain ⟨hd, opens, hopens, rfl⟩ :=
        Nesting.finish_error_iff.mp ((Nesting.takeAll_of_reads hps hu).symm.trans h)
      exact .unclosed hps (unclosed_iff.mpr ⟨u, hu, hopens⟩)
    · cases (Nesting.takeAll_of_refused hps hu hi after).symm.trans h
      exact .item hps (unclosed_iff.mpr ⟨u, hu, rfl⟩) (Nesting.take_error_iff.mp hi)
  · intro h
    cases h with
    | @item before i after ps opens _ hps ho hi =>
      obtain ⟨u, hu, rfl⟩ := unclosed_iff.mp ho
      exact Nesting.takeAll_of_refused hps hu (Nesting.take_error_iff.mpr hi) after
    | unclosed hps ho =>
      obtain ⟨u, hu, hopens⟩ := unclosed_iff.mp ho
      exact (Nesting.takeAll_of_reads hps hu).trans
        (Nesting.finish_error_iff.mpr ⟨_, _, hopens, rfl⟩)

/-- Pieces whose brackets match have exactly one tree. -/
theorem balanced_iff {ps : List Piece} :
    Balanced false ps ↔ ∃ tree : List Node, Level false ps (tree.map some) := by
  constructor
  · intro h
    obtain ⟨entries, hl⟩ := h.exists_level
    exact ⟨entries.reduceOption, hl.eq_map_some ▸ hl⟩
  · rintro ⟨tree, hl⟩
    exact hl.balanced

/-- A source is parsed as its flat list, of which there is only one, with tags as brackets. A tree
is found exactly if every item can be read and the brackets match; its levels are those of the
grammar, and in document order it shows the flat list. Any other source has the fault of the first
item that cannot follow those before it, or else of the innermost section that is still open. -/
theorem parseNodes_matches_brackets (source : List Char) :
    ∃ items, (∀ other, Item.Flat [] source other ↔ other = items) ∧
      ((∃ tree, parseNodes source = .ok tree) ↔
        ∃ ps, List.Forall₂ Item.Reads items ps ∧ Balanced false ps) ∧
      (∀ tree, parseNodes source = .ok tree ↔
        ∃ ps, List.Forall₂ Item.Reads items ps ∧ Level false ps (tree.map some) ∧
          Node.marksAll tree = ps.filterMap Piece.mark) ∧
      ∀ fault, parseNodes source = .error fault ↔ FirstFault items fault := by
  refine ⟨itemsOf source, fun _ => Item.flat_iff, ?_, fun tree => ?_, fun _ => nest_eq_error_iff⟩
  · constructor
    · rintro ⟨tree, h⟩
      obtain ⟨ps, hps, hl⟩ := nest_eq_ok_iff.mp h
      exact ⟨ps, hps, balanced_iff.mpr ⟨tree, hl⟩⟩
    · rintro ⟨ps, hps, hb⟩
      obtain ⟨tree, hl⟩ := balanced_iff.mp hb
      exact ⟨tree, nest_eq_ok_iff.mpr ⟨ps, hps, hl⟩⟩
  · constructor
    · intro h
      obtain ⟨ps, hps, hl⟩ := nest_eq_ok_iff.mp h
      have hmarks := hl.marks
      rw [List.reduceOption, List.filterMap_map] at hmarks
      exact ⟨ps, hps, hl, by simpa using hmarks⟩
    · rintro ⟨ps, hps, hl, -⟩
      exact nest_eq_ok_iff.mpr ⟨ps, hps, hl⟩

theorem Template.read_eq_ok_iff {source : String} {t : Template} :
    read source = .ok t ↔ parseNodes source.toList = .ok t.nodes ∧ t = ⟨none, source, t.nodes⟩ := by
  unfold read
  cases h : parseNodes source.toList with
  | ok nodes =>
    constructor
    · intro heq
      rw [← Except.ok.inj heq]
      exact ⟨rfl, rfl⟩
    · rintro ⟨hnodes, ht⟩
      rw [ht, ← Except.ok.inj hnodes]
  | error fault =>
    constructor
    · intro heq
      cases heq
    · rintro ⟨hnodes, -⟩
      cases hnodes

/-- A template that cannot be read is refused with the error of its first fault. -/
theorem Template.read_eq_error_iff {source : String} {e : Error} :
    read source = .error e ↔
      ∃ fault, FirstFault (itemsOf source.toList) fault ∧ e = fault.error := by
  unfold read
  cases h : parseNodes source.toList with
  | ok tree =>
    constructor
    · intro he
      cases he
    · rintro ⟨fault, hf, -⟩
      cases h.symm.trans (nest_eq_error_iff.mpr hf)
  | error fault =>
    constructor
    · intro he
      exact ⟨fault, nest_eq_error_iff.mp h, (Except.error.inj he).symm⟩
    · rintro ⟨other, hf, rfl⟩
      cases h.symm.trans (nest_eq_error_iff.mpr hf)
      rfl

end Stencil

import Mathlib.Data.List.Forall2
import Stencil.Proofs.Template.Parsing

/-! # Where tags stand

The place of a tag is what its source has in front of the opening braces. Places are found from
the source alone, without counting lines; the line of a tag, wherever it is reported, counts the
line feeds in front of its place.
-/
namespace Stencil

open Item (opener brace closer behind Opens lineAfter)

/-- A part of a source: a text, or a tag with or without an end. -/
inductive Part where
  | text (s : List Char)
  | tag (raw : Bool) (inner : List Char)
  | unclosed
deriving DecidableEq

/-- A part of a source, and all that the source has in front of it. -/
structure Place where
  before : List Char
  part : Part
deriving DecidableEq

namespace Place

def ofText (before text : List Char) : List Place :=
  if text = [] then [] else [⟨before, .text text⟩]

/-- The item of the flat list that stands at a place. -/
def item (p : Place) : Item :=
  match p.part with
  | .text s => .text s
  | .tag raw inner => .tag (lineAfter p.before) raw inner
  | .unclosed => .unclosed (lineAfter p.before)

/-- The source up to the end of a part, or behind its opening braces if it has none. -/
def written (p : Place) : List Char :=
  match p.part with
  | .text s => p.before ++ s
  | .tag raw inner => p.before ++ opener ++ brace raw ++ inner ++ closer raw
  | .unclosed => p.before ++ opener

def heading (p : Place) : Option Heading :=
  match p.part with
  | .tag raw inner => match Tag.ofInner raw inner with
    | .ok t => (Piece.tag (1 + p.before.count '\n') t).heading
    | .error _ => none
  | _ => none

end Place

/-- The places of a source, part of which is read before: a text goes up to the first opening
braces, a tag up to the first closing braces of its kind. -/
inductive Places : List Char → List Char → List Place → Prop
  | done {before source} : ¬ opener <:+: source →
      Places before source (Place.ofText before source)
  | unclosed {before source text raw rest} : Opens source text raw rest →
      ¬ closer raw <:+: rest →
      Places before source (Place.ofText before text ++ [⟨before ++ text, .unclosed⟩])
  | tag {before source text raw rest inner after read places} : Opens source text raw rest →
      Cut (closer raw) rest inner after → source = read ++ behind raw inner after →
      Places (before ++ read) (behind raw inner after) places →
      Places before source
        (Place.ofText before text ++ ⟨before ++ text, .tag raw inner⟩ :: places)

/-- The place that a fault concerns. Either the parts before it can be read and its own cannot
follow them, or it opens the innermost section that is never closed. -/
inductive Blamed : List Place → Place → TagFault → Prop
  | refused {front p rest ps opens line fault} :
      List.Forall₂ Item.Reads (front.map Place.item) ps → Unclosed ps opens →
      Item.Fails opens p.item ⟨line, fault⟩ → Blamed (front ++ p :: rest) p fault
  | unclosed {front p inside ps opens q h qs} :
      List.Forall₂ Item.Reads (front.map Place.item) ps → Unclosed ps opens →
      p.item.Reads q → q.heading = some h →
      List.Forall₂ Item.Reads (inside.map Place.item) qs → Balanced true qs →
      Blamed (front ++ p :: inside) p (.unclosedSection h.name)

def Mark.heading : Mark → Option Heading
  | .opening h => some h
  | _ => none

namespace Place

theorem map_item_ofText (before text : List Char) :
    (ofText before text).map item = Item.ofText text := by
  unfold ofText Item.ofText
  split
  · rfl
  · rfl

theorem eq_of_mem_ofText {before text : List Char} {p : Place} (h : p ∈ ofText before text) :
    p = ⟨before, .text text⟩ := by
  unfold ofText at h
  split at h
  · exact absurd h List.not_mem_nil
  · exact List.mem_singleton.mp h

end Place

namespace Places

variable {before source : List Char} {places : List Place}

theorem flat (h : Places before source places) :
    Item.Flat before source (places.map Place.item) := by
  induction h with
  | done hnone =>
    rw [Place.map_item_ofText]
    exact .done hnone
  | unclosed hopens hnone =>
    rw [List.map_append, Place.map_item_ofText]
    exact .unclosed hopens hnone
  | tag hopens hcut hread _ ih =>
    rw [List.map_append, List.map_cons, Place.map_item_ofText]
    exact .tag hopens hcut hread ih

theorem exists_of_flat {items : List Item} (h : Item.Flat before source items) :
    ∃ places, Places before source places := by
  induction h with
  | done hnone => exact ⟨_, .done hnone⟩
  | unclosed hopens hnone => exact ⟨_, .unclosed hopens hnone⟩
  | tag hopens hcut hread _ ih =>
    obtain ⟨places, hp⟩ := ih
    exact ⟨_, .tag hopens hcut hread hp⟩

theorem map_item (h : Places [] source places) : places.map Place.item = itemsOf source :=
  Item.flat_iff.mp h.flat

/-- Every part stands in the source at its place. -/
theorem written_prefix (h : Places before source places) {p : Place} (hp : p ∈ places) :
    p.written <+: before ++ source := by
  induction h with
  | @done before source hnone =>
    rw [Place.eq_of_mem_ofText hp]
    exact List.prefix_rfl
  | @unclosed before source text raw rest ho _ =>
    have hfront := (List.prefix_append_right_inj before).mpr ho.front_prefix
    rw [← List.append_assoc] at hfront
    rcases List.mem_append.mp hp with hp | hp
    · rw [Place.eq_of_mem_ofText hp]
      exact (List.prefix_append _ _).trans hfront
    · rw [List.mem_singleton.mp hp]
      exact hfront
  | @tag before source text raw rest inner after read places ho hcut hread _ ih =>
    have hfront := (List.prefix_append_right_inj before).mpr ho.front_prefix
    rw [← List.append_assoc] at hfront
    rcases List.mem_append.mp hp with hp | hp
    · rw [Place.eq_of_mem_ofText hp]
      exact (List.prefix_append _ _).trans hfront
    · rcases List.mem_cons.mp hp with rfl | hp
      · refine ⟨after, ?_⟩
        rw [ho.source_eq hcut]
        simp only [Place.written, List.append_assoc]
      · have hrest := ih hp
        rwa [List.append_assoc, ← hread] at hrest

theorem unique (h : Places before source places) {other : List Place}
    (ho : Places before source other) : other = places := by
  induction h generalizing other with
  | done hnone =>
    cases ho with
    | done _ => rfl
    | unclosed hopens _ => exact absurd hopens.isInfix hnone
    | tag hopens _ _ _ => exact absurd hopens.isInfix hnone
  | unclosed hopens hnone =>
    cases ho with
    | done hno => exact absurd hopens.isInfix hno
    | unclosed hopens' _ =>
      obtain ⟨rfl, rfl, rfl⟩ := hopens.unique hopens'
      rfl
    | tag hopens' hcut _ _ =>
      obtain ⟨rfl, rfl, rfl⟩ := hopens.unique hopens'
      exact absurd hcut.isInfix hnone
  | tag hopens hcut hread _ ih =>
    cases ho with
    | done hno => exact absurd hopens.isInfix hno
    | unclosed hopens' hnone =>
      obtain ⟨rfl, rfl, rfl⟩ := hopens.unique hopens'
      exact absurd hcut.isInfix hnone
    | tag hopens' hcut' hread' hrest =>
      obtain ⟨rfl, rfl, rfl⟩ := hopens.unique hopens'
      obtain ⟨rfl, rfl⟩ := hcut.unique hcut'
      obtain rfl := List.append_cancel_right (hread.symm.trans hread')
      rw [ih hrest]

end Places

namespace Place

theorem line_of_fails {p : Place} {opens : List Heading} {line : Nat} {fault : TagFault}
    (h : Item.Fails opens p.item ⟨line, fault⟩) : line = lineAfter p.before := by
  obtain ⟨before, part⟩ := p
  cases part <;> cases h <;> rfl

theorem line_of_heading {p : Place} {q : Piece} {h : Heading} (hr : p.item.Reads q)
    (hq : q.heading = some h) : h.line = lineAfter p.before := by
  obtain ⟨before, part⟩ := p
  cases part with
  | text s => cases hr; cases hq
  | unclosed => cases hr
  | tag raw inner =>
    cases hr with
    | @tag _ _ _ t _ =>
      cases t <;> cases hq <;> rfl

/-- Lines count from one, so that none of them is left out of an error. -/
theorem line_atLine (p : Place) (e : Error) :
    (e.atLine (lineAfter p.before)).line = some (lineAfter p.before) := by
  have hne : ¬ lineAfter p.before = 0 := by
    rw [lineAfter]
    omega
  rw [Error.atLine, if_neg hne]

end Place

theorem firstFault_iff {places : List Place} {f : PlacedFault} :
    FirstFault (places.map Place.item) f ↔
      ∃ p, Blamed places p f.fault ∧ f.line = lineAfter p.before := by
  constructor
  · intro h
    generalize hitems : places.map Place.item = items at h
    cases h with
    | item hps hopens hfails =>
      obtain ⟨front, more, rfl, rfl, hmore⟩ := List.map_eq_append_iff.mp hitems
      obtain ⟨p, rest, rfl, rfl, -⟩ := List.map_eq_cons_iff.mp hmore
      exact ⟨p, .refused hps hopens hfails, Place.line_of_fails hfails⟩
    | @unclosed _ ps h opens hps hopens =>
      subst hitems
      cases hopens with
      | @inside ps _ q _ qs hbefore hq hqs =>
        rw [List.forall₂_map_left_iff] at hps
        have hfront := List.forall₂_take_append places ps (q :: qs) hps
        have hrest := List.forall₂_drop_append places ps (q :: qs) hps
        obtain ⟨p, inside, hr, hinside, hdrop⟩ := List.forall₂_cons_right_iff.mp hrest
        refine ⟨p, ?_, Place.line_of_heading hr hq⟩
        rw [← List.take_append_drop ps.length places, hdrop]
        exact .unclosed (List.forall₂_map_left_iff.mpr hfront) hbefore hr hq
          (List.forall₂_map_left_iff.mpr hinside) hqs
  · rintro ⟨p, h, hline⟩
    obtain ⟨line, fault⟩ := f
    subst hline
    cases h with
    | refused hps hopens hfails =>
      rw [List.map_append, List.map_cons]
      obtain rfl := Place.line_of_fails hfails
      exact .item hps hopens hfails
    | unclosed hps hopens hr hq hqs hinside =>
      rw [← Place.line_of_heading hr hq, List.map_append, List.map_cons]
      exact .unclosed (List.rel_append hps (.cons hr hqs)) (.inside hopens hq hinside)

theorem Piece.mark_bind_heading (q : Piece) : q.mark.bind Mark.heading = q.heading := by
  rcases q with s | ⟨line, _ | name | c | _ | name | ⟨p, raw⟩⟩ <;> rfl

theorem Place.heading_of_reads {p : Place} {q : Piece} (h : p.item.Reads q) :
    p.heading = q.heading := by
  obtain ⟨before, part⟩ := p
  cases part with
  | text s => cases h; rfl
  | unclosed => cases h
  | tag raw inner =>
    cases h with
    | tag ht =>
      rw [heading]
      dsimp only
      rw [Tag.ofInner_of_spells ht]
      rfl

theorem filterMap_heading_of_reads {places : List Place} {ps : List Piece}
    (h : List.Forall₂ Item.Reads (places.map Place.item) ps) :
    ps.filterMap Piece.heading = places.filterMap Place.heading := by
  rw [List.forall₂_map_left_iff] at h
  induction h with
  | nil => rfl
  | cons hp _ ih => rw [List.filterMap_cons, List.filterMap_cons, ih, Place.heading_of_reads hp]

theorem headings_of_nest {places : List Place} {tree : List Node}
    (h : nest (places.map Place.item) = .ok tree) :
    (Node.marksAll tree).filterMap Mark.heading = places.filterMap Place.heading := by
  obtain ⟨ps, hps, hl⟩ := nest_eq_ok_iff.mp h
  rw [hl.marksAll_tree, List.filterMap_filterMap, ← filterMap_heading_of_reads hps]
  exact congrArg (List.filterMap · ps) (funext Piece.mark_bind_heading)

/-- Lines count line feeds. Every part of a source stands at one place. A source is refused with
the fault of the place that is to blame, on the line of that place; and the sections of a tree, in
the order of the source, carry the lines of the places that open them. -/
theorem Template.lines_count_line_feeds (source : String) :
    ∃ places, (∀ other, Places [] source.toList other ↔ other = places) ∧
      (∀ p ∈ places, p.written <+: source.toList) ∧
      (∀ e, read source = .error e ↔ ∃ p fault, Blamed places p fault ∧
        e = fault.error.atLine (1 + p.before.count '\n') ∧
        e.line = some (1 + p.before.count '\n')) ∧
      ∀ t, read source = .ok t →
        (Node.marksAll t.nodes).filterMap Mark.heading = places.filterMap Place.heading := by
  have hflat : Item.Flat [] source.toList (itemsOf source.toList) := Item.flat_iff.mpr rfl
  obtain ⟨places, hp⟩ := Places.exists_of_flat hflat
  have hitems := hp.map_item
  refine ⟨places, fun other => ⟨hp.unique, fun h => h ▸ hp⟩, fun p => hp.written_prefix,
    fun e => ?_, fun t ht => ?_⟩
  · rw [read_eq_error_iff, ← hitems]
    constructor
    · rintro ⟨fault, hf, rfl⟩
      obtain ⟨p, hblamed, hline⟩ := firstFault_iff.mp hf
      rw [PlacedFault.error, hline]
      exact ⟨p, fault.fault, hblamed, rfl, p.line_atLine _⟩
    · rintro ⟨p, fault, hblamed, rfl, -⟩
      exact ⟨⟨lineAfter p.before, fault⟩, firstFault_iff.mpr ⟨p, hblamed, rfl⟩, rfl⟩
  · have hnodes := (read_eq_ok_iff.mp ht).1
    rw [parseNodes, ← hitems] at hnodes
    exact headings_of_nest hnodes

-- line ends behind a comment, in the comment, behind an opening tag and in a literal
example :
    let opening := "\x7b\x7b!\n\x7d\x7d\n\x7b\x7b#s\x7d\x7d\r\n"
    (match Template.read (opening ++ "\x7b\x7ba|f(\"\n\")\x7d\x7d\x7b\x7b/t\x7d\x7d") with
      | .error e => e.line
      | .ok _ => none) = some 5 := by decide +kernel

end Stencil

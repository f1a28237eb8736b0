import Stencil.Proofs.Text.Trimming
import Stencil.Template.Item

/-! # Where a source is cut

The flat list of a source, told without a scan: a text goes up to the first two opening braces,
a tag up to the first closing braces of its kind. The scan makes these cuts and no other ones.
-/
namespace Stencil

/-- The text before the first delimiter of a source, and the rest behind that delimiter. -/
structure Cut (delim source text rest : List Char) : Prop where
  eq : source = text ++ delim ++ rest
  first : ∀ before after, source = before ++ delim ++ after → text.length ≤ before.length

namespace Cut

variable {delim source text rest : List Char} {c : Char}

theorem nil (delim rest : List Char) : Cut delim (delim ++ rest) [] rest :=
  ⟨rfl, fun _ _ _ => Nat.zero_le _⟩

theorem cons (hc : ¬ delim <+: c :: source) (h : Cut delim source text rest) :
    Cut delim (c :: source) (c :: text) rest := by
  refine ⟨by rw [h.eq]; rfl, fun before after heq => ?_⟩
  cases before with
  | nil => exact absurd ⟨after, heq.symm⟩ hc
  | cons d before =>
    obtain ⟨-, htail⟩ := List.cons.inj heq
    exact Nat.succ_le_succ (h.first before after htail)

theorem cons_inv (h : Cut delim source (c :: text) rest) :
    ∃ tail, source = c :: tail ∧ ¬ delim <+: c :: tail ∧ Cut delim tail text rest := by
  refine ⟨text ++ delim ++ rest, h.eq, ?_, rfl, fun before after heq => ?_⟩
  · rintro ⟨after, hafter⟩
    exact absurd (h.first [] after (h.eq.trans hafter.symm)) (by simp)
  · have hle := h.first (c :: before) after (h.eq.trans (congrArg (List.cons c) heq))
    exact Nat.le_of_succ_le_succ hle

theorem exists_of_infix (h : delim <:+: source) : ∃ text rest, Cut delim source text rest := by
  induction source with
  | nil =>
    obtain rfl := List.infix_nil.mp h
    exact ⟨[], [], nil [] []⟩
  | cons c source ih =>
    by_cases hc : delim <+: c :: source
    · obtain ⟨rest, hrest⟩ := hc
      exact ⟨[], rest, hrest ▸ nil delim rest⟩
    · obtain ⟨text, rest, hcut⟩ := ih ((List.infix_cons_iff.mp h).resolve_left hc)
      exact ⟨c :: text, rest, cons hc hcut⟩

theorem isInfix (h : Cut delim source text rest) : delim <:+: source := ⟨text, rest, h.eq.symm⟩

/-- The first delimiter of a source stands in one place only. -/
theorem unique {text' rest' : List Char} (h : Cut delim source text rest)
    (h' : Cut delim source text' rest') : text' = text ∧ rest' = rest := by
  have hlen : text'.length = text.length :=
    Nat.le_antisymm (h'.first _ _ h.eq) (h.first _ _ h'.eq)
  have heq : text' ++ (delim ++ rest') = text ++ (delim ++ rest) := by
    rw [← List.append_assoc, ← h'.eq, h.eq, List.append_assoc]
  obtain ⟨htext, hrest⟩ := List.append_inj heq hlen
  exact ⟨htext, List.append_cancel_left hrest⟩

end Cut

/-- No delimiter made of one character goes over the end of the first text. -/
def Apart (d : Char) (front source : List Char) : Prop :=
  front.getLast? ≠ some d ∨ source.head? ≠ some d

section

variable {delim front source text rest : List Char} {d : Char}

theorem Apart.absurd_split (h : Apart d front source) (hd : ∀ c ∈ delim, c = d)
    {left right : List Char} (hdelim : delim = left ++ right) (hleft : left ≠ [])
    (hright : right ≠ []) (hend : left <:+ front) (hstart : right <+: source) : False := by
  obtain ⟨before, rfl⟩ := hend
  obtain ⟨after, rfl⟩ := hstart
  have hlast : left.getLast hleft = d :=
    hd _ (hdelim ▸ List.mem_append_left right (List.getLast_mem hleft))
  have hhead : right.head hright = d :=
    hd _ (hdelim ▸ List.mem_append_right left (List.head_mem hright))
  rcases h with h | h
  · exact h (by rw [List.getLast?_append, List.getLast?_eq_some_getLast hleft, hlast,
      Option.some_or])
  · exact h (by rw [List.head?_append, List.head?_eq_some_head hright, hhead, Option.some_or])

theorem Apart.not_infix (h : Apart d front source) (hd : ∀ c ∈ delim, c = d)
    (hfront : ¬ delim <:+: front) (hsource : ¬ delim <:+: source) :
    ¬ delim <:+: front ++ source := by
  intro hin
  rcases List.infix_append_iff_ne_nil.mp hin with
    hin | hin | ⟨left, right, hleft, hright, hdelim, hend, hstart⟩
  · exact hfront hin
  · exact hsource hin
  · exact h.absurd_split hd hdelim hleft hright hend hstart

theorem Apart.of_append {before : List Char} (h : Apart d (before ++ front) source) :
    Apart d front source := by
  refine h.imp_left fun hlast hl => hlast ?_
  rw [List.getLast?_append, hl, Option.some_or]

/-- A text in front of a source puts its first cut off. -/
theorem Apart.cut (h : Apart d front source) (hd : ∀ c ∈ delim, c = d)
    (hfront : ¬ delim <:+: front) (hcut : Cut delim source text rest) :
    Cut delim (front ++ source) (front ++ text) rest := by
  induction front with
  | nil => exact hcut
  | cons c front ih =>
    have htail : Apart d front source := Apart.of_append (show Apart d ([c] ++ front) source from h)
    refine .cons ?_ (ih htail fun hin => hfront (List.infix_cons_iff.mpr (Or.inr hin)))
    rintro ⟨after, hafter⟩
    rcases List.append_eq_append_iff.mp (show delim ++ after = (c :: front) ++ source from hafter)
      with ⟨more, hmore, -⟩ | ⟨more, hmore, hrest⟩
    · exact hfront (hmore ▸ (List.prefix_append delim more).isInfix)
    · by_cases hne : more = []
      · subst hne
        rw [List.append_nil] at hmore
        exact hfront (hmore ▸ List.infix_rfl)
      · exact h.absurd_split hd hmore (List.cons_ne_nil c front) hne List.suffix_rfl
          ⟨after, hrest.symm⟩

end

namespace Item

def opener : List Char := "\x7b\x7b".toList

/-- The third opening brace of a raw tag. -/
def brace (raw : Bool) : List Char := if raw then ['\x7b'] else []

/-- The braces with which a tag ends. -/
def closer (raw : Bool) : List Char := if raw then "\x7d\x7d\x7d".toList else "\x7d\x7d".toList

/-- The line that a source has come to after a text. -/
def lineAfter (before : List Char) : Nat := 1 + before.count '\n'

def ofText (text : List Char) : List Item := if text = [] then [] else [.text text]

/-- A source without the line end in front. -/
def dropLineEnd : List Char → List Char
  | '\n' :: rest => rest
  | '\r' :: '\n' :: rest => rest
  | rest => rest

/-- What is left behind a tag: the opening tag of a section takes a line end with it. -/
def behind (raw : Bool) (inner after : List Char) : List Char :=
  if raw = false ∧ (Text.trim inner).head? = some '#' then dropLineEnd after else after

/-- The text in front of the first tag of a source, and the rest behind its opening braces. -/
structure Opens (source text : List Char) (raw : Bool) (rest : List Char) : Prop where
  cut : Cut opener source text (brace raw ++ rest)
  plain : raw = false → rest.head? ≠ some '\x7b'

namespace Opens

variable {source text rest text' rest' : List Char} {raw raw' : Bool}

theorem front_prefix (h : Opens source text raw rest) : text ++ opener <+: source :=
  ⟨brace raw ++ rest, h.cut.eq.symm⟩

theorem isInfix (h : Opens source text raw rest) : opener <:+: source := h.cut.isInfix

theorem unique (h : Opens source text raw rest) (h' : Opens source text' raw' rest') :
    text' = text ∧ raw' = raw ∧ rest' = rest := by
  obtain ⟨htext, hmore⟩ := h.cut.unique h'.cut
  refine ⟨htext, ?_⟩
  -- a third brace stands behind the opening ones, or it does not
  cases raw with
  | true => cases raw' with
    | true => exact ⟨rfl, List.append_cancel_left hmore⟩
    | false => exact absurd (congrArg List.head? hmore) (h'.plain rfl)
  | false => cases raw' with
    | true => exact absurd (congrArg List.head? hmore).symm (h.plain rfl)
    | false => exact ⟨rfl, hmore⟩

end Opens

/-- The flat list of a source, part of which is read before. -/
inductive Flat : List Char → List Char → List Item → Prop
  | done {before source} : ¬ opener <:+: source → Flat before source (ofText source)
  | unclosed {before source text raw rest} : Opens source text raw rest →
      ¬ closer raw <:+: rest →
      Flat before source (ofText text ++ [.unclosed (lineAfter (before ++ text))])
  | tag {before source text raw rest inner after read items} : Opens source text raw rest →
      Cut (closer raw) rest inner after → source = read ++ behind raw inner after →
      Flat (before ++ read) (behind raw inner after) items →
      Flat before source
        (ofText text ++ .tag (lineAfter (before ++ text)) raw inner :: items)

theorem flush_eq (text : List Char) (rest : List Item) :
    flush text.reverse rest = ofText text ++ rest := by
  unfold flush ofText
  by_cases h : text = []
  · simp [h]
  · simp [h]

theorem nextLine_add (line n : Nat) (c : Char) :
    nextLine line c + n = line + (n + if c = '\n' then 1 else 0) := by
  unfold nextLine
  split <;> omega

theorem scan_text_cons {c : Char} {source : List Char} (h : ¬ opener <+: c :: source)
    (pending : List Char) (line : Nat) :
    scan (.text pending) line (c :: source) =
      scan (.text (c :: pending)) (nextLine line c) source := by
  rw [scan]
  · rintro rest rfl rfl
    exact h ⟨_, rfl⟩
  · rintro rest rfl rfl
    exact h ⟨_, rfl⟩

theorem scan_tag_cons {raw : Bool} {c : Char} {source : List Char}
    (h : ¬ closer raw <+: c :: source) (start line : Nat) (pending : List Char) :
    scan (.tag start raw pending) line (c :: source) =
      scan (.tag start raw (c :: pending)) (nextLine line c) source := by
  rw [scan]
  · rintro rest rfl rfl rfl
    exact h ⟨_, rfl⟩
  · rintro rest rfl rfl rfl
    exact h ⟨_, rfl⟩

theorem scan_text_opener {raw : Bool} {rest : List Char}
    (h : raw = false → rest.head? ≠ some '\x7b') (pending : List Char) (line : Nat) :
    scan (.text pending) line (opener ++ (brace raw ++ rest)) =
      flush pending (scan (.tag line raw []) line rest) := by
  cases raw with
  | true => rfl
  | false =>
    show scan (.text pending) line ('\x7b' :: '\x7b' :: rest) = _
    rw [scan]
    rintro more rfl
    exact h rfl rfl

/-- What follows two opening braces: a third one, or not. -/
theorem exists_brace (more : List Char) :
    ∃ raw rest, more = brace raw ++ rest ∧ (raw = false → rest.head? ≠ some '\x7b') := by
  by_cases h : more.head? = some '\x7b'
  · obtain ⟨rest, rfl⟩ := List.head?_eq_some_iff.mp h
    exact ⟨true, rest, rfl, by simp⟩
  · exact ⟨false, more, rfl, fun _ => h⟩

/-- A text ends where a tag begins. -/
theorem scan_text_end (pending : List Char) (line : Nat) (more : List Char) :
    scan (.text pending) line (opener ++ more) =
      flush pending (scan (.text []) line (opener ++ more)) := by
  obtain ⟨raw, rest, rfl, hplain⟩ := exists_brace more
  rw [scan_text_opener hplain, scan_text_opener hplain]
  rfl

theorem opensSection_iff (inner : List Char) :
    opensSection inner = true ↔ (Text.trim inner).head? = some '#' := by
  rw [opensSection, beq_iff_eq, Text.head?_trim]

theorem scan_tag_closer (start line : Nat) (raw : Bool) (pending after : List Char) :
    ∃ taken, after = taken ++ behind raw pending.reverse after ∧
      scan (.tag start raw pending) line (closer raw ++ after) =
        .tag start raw pending.reverse ::
          scan (.text []) (line + taken.count '\n') (behind raw pending.reverse after) := by
  cases raw with
  | true => exact ⟨[], by simp [behind], by simp [closer, scan, behind]⟩
  | false =>
    show ∃ taken, _ ∧ scan _ line ('\x7d' :: '\x7d' :: after) = _
    by_cases h : opensSection pending.reverse = true
    · have hbehind : behind false pending.reverse after = dropLineEnd after :=
        if_pos ⟨rfl, (opensSection_iff _).mp h⟩
      rw [hbehind]
      unfold dropLineEnd
      split
      · exact ⟨['\n'], rfl, by rw [scan, if_pos h]; rfl⟩
      · exact ⟨['\r', '\n'], rfl, by rw [scan, if_pos h]; rfl⟩
      · rename_i hlf hcrlf
        exact ⟨[], rfl, by rw [scan, if_pos h] <;> [rfl; exact hlf; exact hcrlf]⟩
    · have hbehind : behind false pending.reverse after = after :=
        if_neg fun hs => h ((opensSection_iff _).mpr hs.2)
      rw [hbehind]
      refine ⟨[], rfl, ?_⟩
      rw [scan.eq_def]
      simp only [if_neg h]
      rfl

theorem scan_text_rest {source : List Char} (h : ¬ opener <:+: source) (pending : List Char)
    (line : Nat) : scan (.text pending) line source = flush (source.reverse ++ pending) [] := by
  induction source generalizing pending line with
  | nil => rw [scan, List.reverse_nil, List.nil_append]
  | cons c source ih =>
    rw [List.infix_cons_iff, not_or] at h
    rw [scan_text_cons h.1, ih h.2, List.reverse_cons, List.append_assoc]
    rfl

theorem scan_tag_rest {raw : Bool} {source : List Char} (h : ¬ closer raw <:+: source)
    (start line : Nat) (pending : List Char) :
    scan (.tag start raw pending) line source = [.unclosed start] := by
  induction source generalizing pending line with
  | nil => rw [scan]
  | cons c source ih =>
    rw [List.infix_cons_iff, not_or] at h
    rw [scan_tag_cons h.1, ih h.2]

theorem scan_text_cut {source text rest : List Char} (h : Cut opener source text rest)
    (pending : List Char) (line : Nat) :
    scan (.text pending) line source =
      scan (.text (text.reverse ++ pending)) (line + text.count '\n') (opener ++ rest) := by
  induction text generalizing source pending line with
  | nil => rw [h.eq]; rfl
  | cons c text ih =>
    obtain ⟨tail, rfl, hc, htail⟩ := h.cons_inv
    rw [scan_text_cons hc, ih htail, nextLine_add, List.count_cons, List.reverse_cons,
      List.append_assoc]
    simp

theorem scan_tag_cut {raw : Bool} {source inner rest : List Char}
    (h : Cut (closer raw) source inner rest) (start line : Nat) (pending : List Char) :
    scan (.tag start raw pending) line source =
      scan (.tag start raw (inner.reverse ++ pending)) (line + inner.count '\n')
        (closer raw ++ rest) := by
  induction inner generalizing source pending line with
  | nil => rw [h.eq]; rfl
  | cons c inner ih =>
    obtain ⟨tail, rfl, hc, htail⟩ := h.cons_inv
    rw [scan_tag_cons hc, ih htail, nextLine_add, List.count_cons, List.reverse_cons,
      List.append_assoc]
    simp

theorem Opens.scan_eq {source text rest : List Char} {raw : Bool}
    (h : Opens source text raw rest) (line : Nat) :
    scan (.text []) line source = ofText text ++
      scan (.tag (line + text.count '\n') raw []) (line + text.count '\n') rest := by
  rw [scan_text_cut h.cut, scan_text_opener h.plain, List.append_nil, flush_eq]

/-- A source from its first tag: nothing of it is left out between the cuts. -/
theorem Opens.source_eq {source text rest inner after : List Char} {raw : Bool}
    (h : Opens source text raw rest) (hcut : Cut (closer raw) rest inner after) :
    source = text ++ opener ++ brace raw ++ inner ++ closer raw ++ after := by
  rw [h.cut.eq, hcut.eq]
  simp only [List.append_assoc]

theorem Opens.count_read {source text rest inner after taken read : List Char} {raw : Bool}
    (h : Opens source text raw rest) (hcut : Cut (closer raw) rest inner after)
    (htaken : after = taken ++ behind raw inner after)
    (hread : source = read ++ behind raw inner after) :
    read.count '\n' = text.count '\n' + inner.count '\n' + taken.count '\n' := by
  have heq : read = text ++ opener ++ brace raw ++ inner ++ closer raw ++ taken := by
    refine List.append_cancel_right (?_ : _ ++ behind raw inner after = _)
    rw [← hread, h.source_eq hcut, List.append_assoc _ taken, ← htaken]
  rw [heq]
  cases raw <;> simp [opener, brace, closer] <;> omega

theorem lineAfter_append (before text : List Char) :
    lineAfter (before ++ text) = lineAfter before + text.count '\n' := by
  rw [lineAfter, lineAfter, List.count_append, Nat.add_assoc]

theorem Opens.scan_cut {source text rest inner after : List Char} {raw : Bool}
    (h : Opens source text raw rest) (hcut : Cut (closer raw) rest inner after) (line : Nat) :
    ∃ taken, after = taken ++ behind raw inner after ∧
      scan (.text []) line source = ofText text ++ .tag (line + text.count '\n') raw inner ::
        scan (.text []) (line + text.count '\n' + inner.count '\n' + taken.count '\n')
          (behind raw inner after) := by
  obtain ⟨taken, htaken, hscan⟩ := scan_tag_closer (line + text.count '\n')
    (line + text.count '\n' + inner.count '\n') raw (inner.reverse ++ []) after
  rw [List.append_nil, List.reverse_reverse] at htaken hscan
  refine ⟨taken, htaken, ?_⟩
  rw [h.scan_eq, scan_tag_cut hcut, List.append_nil, hscan]

theorem scan_of_flat {before source : List Char} {items : List Item}
    (h : Flat before source items) : scan (.text []) (lineAfter before) source = items := by
  induction h with
  | done hnone =>
    rw [scan_text_rest hnone, List.append_nil, flush_eq, List.append_nil]
  | unclosed hopens hnone =>
    rw [hopens.scan_eq, scan_tag_rest hnone, lineAfter_append]
  | @tag before source text raw rest inner after read items hopens hcut hread _ ih =>
    obtain ⟨taken, htaken, hscan⟩ := hopens.scan_cut hcut (lineAfter before)
    rw [hscan, ← ih, lineAfter_append, lineAfter_append, hopens.count_read hcut htaken hread]
    simp only [Nat.add_assoc]

theorem Opens.exists_of_infix {source : List Char} (h : opener <:+: source) :
    ∃ text raw rest, Opens source text raw rest := by
  obtain ⟨text, more, hcut⟩ := Cut.exists_of_infix h
  obtain ⟨raw, rest, rfl, hplain⟩ := exists_brace more
  exact ⟨text, raw, rest, hcut, hplain⟩

theorem behind_suffix (raw : Bool) (inner after : List Char) :
    behind raw inner after <:+ after := by
  obtain ⟨taken, htaken, -⟩ := scan_tag_closer 0 0 raw inner.reverse after
  rw [List.reverse_reverse] at htaken
  exact ⟨taken, htaken.symm⟩

theorem Opens.exists_read {source text rest inner after : List Char} {raw : Bool}
    (h : Opens source text raw rest) (hcut : Cut (closer raw) rest inner after) :
    ∃ read, source = read ++ behind raw inner after ∧ read ≠ [] := by
  obtain ⟨taken, htaken⟩ := behind_suffix raw inner after
  refine ⟨text ++ opener ++ brace raw ++ inner ++ closer raw ++ taken, ?_, by simp [opener]⟩
  rw [List.append_assoc _ taken, htaken]
  exact h.source_eq hcut

/-- What is left behind a tag is shorter, because the opening braces are read. -/
theorem Opens.length_behind_lt {source text rest inner after : List Char} {raw : Bool}
    (h : Opens source text raw rest) (hcut : Cut (closer raw) rest inner after) :
    (behind raw inner after).length < source.length := by
  obtain ⟨read, hread, hne⟩ := h.exists_read hcut
  have hpos := List.length_pos_of_ne_nil hne
  have hlength := congrArg List.length hread
  rw [List.length_append] at hlength
  omega

theorem exists_flat (before source : List Char) : ∃ items, Flat before source items := by
  induction hn : source.length using Nat.strong_induction_on generalizing before source with
  | _ n ih =>
    by_cases hopen : opener <:+: source
    · obtain ⟨text, raw, rest, hopens⟩ := Opens.exists_of_infix hopen
      by_cases hclose : closer raw <:+: rest
      · obtain ⟨inner, after, hcut⟩ := Cut.exists_of_infix hclose
        obtain ⟨read, hread, -⟩ := hopens.exists_read hcut
        have hlen : (behind raw inner after).length < n := hn ▸ hopens.length_behind_lt hcut
        obtain ⟨items, hitems⟩ := ih _ hlen (before ++ read) _ rfl
        exact ⟨_, .tag hopens hcut hread hitems⟩
      · exact ⟨_, .unclosed hopens hclose⟩
    · exact ⟨_, .done hopen⟩

/-- The items of a source are its flat list, and that is the only one it has. -/
theorem flat_iff {source : List Char} {items : List Item} :
    Flat [] source items ↔ items = itemsOf source := by
  constructor
  · intro h
    exact (scan_of_flat h).symm
  · rintro rfl
    obtain ⟨items, h⟩ := exists_flat [] source
    have heq : itemsOf source = items := scan_of_flat h
    rwa [heq]

example : itemsOf "\x7b\x7b#a\x7d\x7d\nb\x7b\x7b?else\x7d\x7dc\x7b\x7b/a\x7d\x7d".toList =
    [.tag 1 false "#a".toList, .text "b".toList, .tag 2 false "?else".toList, .text "c".toList,
      .tag 2 false "/a".toList] := by decide +kernel

end Item

end Stencil

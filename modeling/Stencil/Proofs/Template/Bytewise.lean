import Stencil.Proofs.Expr.Bytewise
import Stencil.Proofs.Template.Seam
import Stencil.Proofs.Template.TagClass

/-! # Sources read byte by byte

A source is cut at delimiters that are searched for among its bytes, and the inside of a tag is cut
by the first and the last of its bytes. All the slices that this asks for can be made, and the tree
is the same.
-/
namespace Stencil

open Text

namespace Text

/-- The place of the first occurrence of some bytes among others. -/
def find? (delim : List UInt8) : List UInt8 → Option Nat
  | [] => if delim = [] then some 0 else none
  | b :: rest => if delim <+: b :: rest then some 0 else (find? delim rest).map (· + 1)

variable {delim text rest : List Char}

theorem encode_prefix_iff (hdelim : ∀ c ∈ delim, c.toNat < 0x80) :
    encode delim <+: encode text ↔ delim <+: text := by
  induction delim generalizing text with
  | nil => simp [encode]
  | cons d delim ih =>
    obtain ⟨hd, htail⟩ := List.forall_mem_cons.mp hdelim
    obtain ⟨b, hb, halone⟩ := encodeChar_of_lt hd
    rw [encode_cons, hb, List.singleton_append]
    cases text with
    | nil => simp [encode]
    | cons c rest =>
      by_cases hc : c = d
      · subst hc
        rw [encode_cons, hb, List.singleton_append, List.prefix_cons_iff, List.prefix_cons_iff]
        simp [ih htail]
      · refine iff_of_false (fun h => ?_) (fun h => ?_)
        · obtain ⟨after, hafter⟩ := h
          have hhead : (encode (c :: rest)).head?.map alone = some d := by
            rw [← hafter, List.cons_append, List.head?_cons, Option.map_some, halone]
          exact hc (Option.some.inj ((head?_encode_iff hd).mp hhead))
        · obtain ⟨after, hafter⟩ := h
          exact hc (List.cons.inj hafter).1.symm

/-- No occurrence begins at a byte with which the delimiter does not. -/
theorem find?_skip {delim bytes after : List UInt8} (hne : delim ≠ [])
    (h : ∀ b ∈ bytes, delim.head? ≠ some b) :
    find? delim (bytes ++ after) = (find? delim after).map (· + bytes.length) := by
  induction bytes with
  | nil => simp
  | cons b bytes ih =>
    obtain ⟨hb, hbytes⟩ := List.forall_mem_cons.mp h
    have hprefix : ¬ delim <+: b :: (bytes ++ after) := by
      rintro ⟨more, hmore⟩
      cases delim with
      | nil => exact hne rfl
      | cons d delim => exact hb (congrArg some (List.cons.inj hmore).1)
    rw [List.cons_append, find?, if_neg hprefix, ih hbytes, Option.map_map]
    rfl

/-- The bytes of one character are passed over at once. -/
theorem find?_cons (hne : delim ≠ []) (hdelim : ∀ c ∈ delim, c.toNat < 0x80) {c : Char}
    (h : ¬ delim <+: c :: text) :
    find? (encode delim) (encode (c :: text)) =
      (find? (encode delim) (encode text)).map (· + (encodeChar c).length) := by
  obtain ⟨b, more, hc, hmore⟩ := encodeChar_eq_cons c
  have hprefix : ¬ encode delim <+: b :: (more ++ encode text) := by
    have hbytes := mt (encode_prefix_iff hdelim).mp h
    rwa [encode_cons, hc] at hbytes
  have hskip : ∀ d ∈ more, (encode delim).head? ≠ some d := by
    intro d hd hhead
    cases delim with
    | nil => exact hne rfl
    | cons e delim =>
      obtain ⟨f, hf, rfl⟩ := head?_encode_of_lt (hdelim e List.mem_cons_self) delim
      rw [hf] at hhead
      have hsmall := hdelim _ List.mem_cons_self
      have hlarge := hmore d hd
      rw [Option.some.inj hhead] at hsmall
      omega
  rw [encode_cons, hc, List.cons_append, find?, if_neg hprefix,
    find?_skip (mt encode_eq_nil_iff.mp hne) hskip, Option.map_map]
  rfl

theorem find?_of_cut (hne : delim ≠ []) (hdelim : ∀ c ∈ delim, c.toNat < 0x80) {source : List Char}
    (h : Cut delim source text rest) :
    find? (encode delim) (encode source) = some (encode text).length := by
  induction text generalizing source with
  | nil =>
    have hprefix : encode delim <+: encode source := (encode_prefix_iff hdelim).mpr ⟨rest, h.eq.symm⟩
    cases hsource : encode source with
    | nil =>
      rw [hsource, List.prefix_nil] at hprefix
      exact absurd (encode_eq_nil_iff.mp hprefix) hne
    | cons b more =>
      rw [hsource] at hprefix
      rw [find?, if_pos hprefix]
      rfl
  | cons c text ih =>
    obtain ⟨tail, rfl, hc, htail⟩ := h.cons_inv
    rw [find?_cons hne hdelim hc, ih htail, encode_cons, List.length_append, Nat.add_comm]
    rfl

theorem find?_eq_none (hne : delim ≠ []) (hdelim : ∀ c ∈ delim, c.toNat < 0x80) {source : List Char}
    (h : ¬ delim <:+: source) : find? (encode delim) (encode source) = none := by
  induction source with
  | nil => exact if_neg (mt encode_eq_nil_iff.mp hne)
  | cons c source ih =>
    rw [List.infix_cons_iff, not_or] at h
    rw [find?_cons hne hdelim h.1, ih h.2]
    rfl

/-- Line feeds are counted among the bytes. -/
theorem count_encode (text : List Char) : (encode text).count 10 = text.count '\n' := by
  induction text with
  | nil => rfl
  | cons c rest ih =>
    rw [encode_cons, List.count_append, ih, List.count_cons, Nat.add_comm]
    congr 1
    by_cases hc : c = '\n'
    · subst hc
      rfl
    · have hnone : 10 ∉ encodeChar c := by
        intro hmem
        rcases alone_of_mem_encodeChar hmem with h | h
        · exact hc (h.symm.trans (by decide))
        · exact absurd h (by decide)
      rw [List.count_eq_zero_of_not_mem hnone, if_neg (by simpa using hc)]

end Text

namespace Tag

def variableOf? (raw : Bool) (text : List Char) : Option (Except TagFault Tag) := do
  match (← Lexer.tokens? (Text.trim text)) >>= Parser.pipelineOfTokens with
  | .ok p => return .ok (.variable p raw)
  | .error fault => return .error (.expression fault)

def testOf? (text : List Char) : Option (Except TagFault Tag) := do
  match (← Lexer.tokens? (Text.trim text)) >>= Parser.conditionOfTokens with
  | .ok c => return .ok (.test c)
  | .error fault => return .error (.expression fault)

def questionOf? (tag : List Char) : Option (Except TagFault Tag) :=
  if tag = "?else".toList then some (.ok .otherwise)
  else if "?if".toList <+: tag ∧ (tag.drop 3).head?.all Text.isBlank then testOf? (tag.drop 3)
  else some (.error (.badConditional (String.ofList tag)))

/-- The tag between two braces, given without the white space at its ends. Its first byte says what
it is. -/
def ofTrimmed? (tag : List Char) : Option (Except TagFault Tag) :=
  let stop := (encode tag).length
  match (encode tag).head?.map alone with
  | none => some (.error .empty)
  | some c =>
    if c = '!' then some (.ok .comment)
    else if c = '#' then do
      let name := Text.trim (← slice? tag 1 stop)
      return if name = [] then .error .unnamedSection else .ok (.opening (String.ofList name))
    else if c = '?' then questionOf? tag
    else if c = '/' then do
      return .ok (.closing (String.ofList (Text.trim (← slice? tag 1 stop))))
    else if c = '\x7b' ∧ 1 < stop ∧ tag.getLast? = some '\x7d' then do
      variableOf? true (← slice? tag 1 (stop - 1))
    else variableOf? false tag

/-- The tag with the given inside, in front of which a raw one has its third brace. -/
def ofInner? (raw : Bool) (inner : List Char) : Option (Except TagFault Tag) :=
  if raw then do variableOf? true (← slice? inner 1 (encode inner).length)
  else ofTrimmed? (Text.trim inner)

theorem variableOf?_eq (raw : Bool) (text : List Char) :
    variableOf? raw text = some (variableOf raw text) := by
  rw [variableOf?, Lexer.tokens?_eq, variableOf, Pipeline.ofText]
  simp only [Option.bind_eq_bind, Option.bind_some]
  cases Lexer.tokens (Text.trim text) >>= Parser.pipelineOfTokens <;> rfl

theorem testOf?_eq (text : List Char) : testOf? text = some (testOf text) := by
  rw [testOf?, Lexer.tokens?_eq, testOf, Condition.ofText]
  simp only [Option.bind_eq_bind, Option.bind_some]
  cases Lexer.tokens (Text.trim text) >>= Parser.conditionOfTokens <;> rfl

theorem questionOf?_eq (rest : List Char) : questionOf? ('?' :: rest) = some (questionOf rest) := by
  rcases questionOf_cases rest with ⟨rfl, h⟩ | ⟨more, rfl, hends, h⟩ | ⟨helse, hif, h⟩
  · rw [h]
    rfl
  · have hblank : more.head?.all Text.isBlank = true := by
      cases hmore : more.head? with
      | none => rfl
      | some c => exact hends c hmore
    rw [h, ← testOf?_eq, questionOf?, if_neg (by simp), if_pos ⟨⟨more, rfl⟩, hblank⟩]
    rfl
  · have hne : '?' :: rest ≠ "?else".toList := fun heq => helse (List.cons.inj heq).2
    have hno : ¬ ("?if".toList <+: '?' :: rest ∧
        (('?' :: rest).drop 3).head?.all Text.isBlank = true) := by
      rintro ⟨⟨more, hmore⟩, hblank⟩
      obtain rfl : "if".toList ++ more = rest := (List.cons.inj hmore).2
      refine hif more rfl fun c hc => ?_
      have hdrop : ('?' :: ("if".toList ++ more)).drop 3 = more := rfl
      rw [hdrop, Option.mem_def.mp hc] at hblank
      exact hblank
    rw [h, questionOf?, if_neg hne, if_neg hno]

/-- Behind a first character of one byte there is a slice. -/
theorem slice?_one {c : Char} (hc : c.toNat < 0x80) (rest : List Char) :
    slice? (c :: rest) 1 (encode (c :: rest)).length = some rest := by
  have htext : c :: rest = [c] ++ (rest ++ []) := by simp
  exact slice?_eq htext (length_encode_of_lt hc).symm rfl

theorem slice?_braced (middle : List Char) :
    slice? ('\x7b' :: middle ++ ['\x7d']) 1 ((encode ('\x7b' :: middle ++ ['\x7d'])).length - 1) =
      some middle := by
  have htext : '\x7b' :: middle ++ ['\x7d'] = ['\x7b'] ++ (middle ++ ['\x7d']) := rfl
  refine slice?_eq htext (length_encode_of_lt (by decide)).symm ?_
  rw [length_encode_append _ ['\x7d'], length_encode_of_lt (c := '\x7d') (by decide), Nat.add_sub_cancel]
  rfl

theorem ofTrimmed?_plain {text : List Char} (h : IsPlain text) :
    ofTrimmed? text = variableOf? false text := by
  obtain ⟨c, rest, rfl⟩ := List.exists_cons_of_ne_nil h.nonempty
  obtain ⟨b, more, hb, -⟩ := encodeChar_eq_cons c
  have hhead : (encode (c :: rest)).head?.map alone = some (alone b) := by
    rw [encode_cons, hb]
    rfl
  have hmarks : alone b ∉ ['!', '#', '?', '/'] :=
    alone_notMem (by decide) (h.unmarked c rfl) (hb ▸ List.mem_cons_self)
  simp only [List.mem_cons, List.not_mem_nil, or_false, not_or] at hmarks
  obtain ⟨hcomment, hopening, hquestion, hclosing⟩ := hmarks
  have hbraced : ¬ (alone b = '\x7b' ∧ 1 < (encode (c :: rest)).length ∧
      (c :: rest).getLast? = some '\x7d') := by
    rintro ⟨hbrace, hlong, hlast⟩
    rw [hbrace] at hhead
    obtain rfl := Option.some.inj ((head?_encode_iff (by decide)).mp hhead)
    obtain ⟨front, hfront⟩ := List.getLast?_eq_some_iff.mp hlast
    cases front with
    | nil =>
      rw [hfront, List.nil_append, length_encode_of_lt (by decide)] at hlong
      omega
    | cons d middle =>
      obtain ⟨rfl, rfl⟩ := List.cons.inj hfront
      exact h.unbraced middle rfl
  rw [ofTrimmed?, hhead]
  simp only [hcomment, hopening, hquestion, hclosing, hbraced, if_false]

theorem ofTrimmed?_eq (text : List Char) : ofTrimmed? text = some (ofTrimmed text) := by
  have hfirst {c : Char} (hc : c.toNat < 0x80) (rest : List Char) :
      (encode (c :: rest)).head?.map alone = some c := (head?_encode_iff hc).mpr rfl
  rcases class_cases text with
    rfl | ⟨rest, rfl⟩ | ⟨rest, rfl⟩ | ⟨rest, rfl⟩ | ⟨rest, rfl⟩ | ⟨middle, rfl⟩ | hplain
  · rfl
  · rw [ofTrimmed?, hfirst (by decide)]
    rfl
  · rw [ofTrimmed?, hfirst (by decide), slice?_one (by decide)]
    rfl
  · rw [ofTrimmed?, hfirst (by decide)]
    exact questionOf?_eq rest
  · rw [ofTrimmed?, hfirst (by decide), slice?_one (by decide)]
    rfl
  · have hlong : 1 < (encode ('\x7b' :: middle ++ ['\x7d'])).length := by
      rw [length_encode_append _ ['\x7d'], length_encode_cons, length_encode_of_lt (by decide)]
      have hpos := '\x7b'.utf8Size_pos
      omega
    have hlast : ('\x7b' :: middle ++ ['\x7d']).getLast? = some '\x7d' :=
      List.getLast?_eq_some_iff.mpr ⟨'\x7b' :: middle, rfl⟩
    rw [ofTrimmed_braced, ← variableOf?_eq, ofTrimmed?, List.cons_append, hfirst (by decide)]
    simp only [← List.cons_append, hlong, hlast, slice?_braced]
    rfl
  · rw [ofTrimmed_plain hplain, ofTrimmed?_plain hplain, variableOf?_eq]

theorem ofInner?_eq (raw : Bool) (inner : List Char) :
    ofInner? raw (Item.brace raw ++ inner) = some (ofInner raw inner) := by
  cases raw with
  | true =>
    have hslice : slice? (Item.brace true ++ inner) 1 (encode (Item.brace true ++ inner)).length =
        some inner := slice?_one (by decide) inner
    rw [ofInner?, hslice]
    exact variableOf?_eq true inner
  | false => exact ofTrimmed?_eq (Text.trim inner)

end Tag

/-- Where in a source the scan stands: the place, counted in bytes, and the line. -/
structure Cursor where
  place : Nat
  line : Nat

namespace Cursor

def rest? (source : List Char) (cursor : Cursor) : Option (List Char) :=
  slice? source cursor.place (encode source).length

/-- What stands in front of the next delimiter, and the cursor behind that, if there is one. -/
def readUntil? (source delim : List Char) (cursor : Cursor) :
    Option (Option (List Char × Cursor)) := do
  let rest ← cursor.rest? source
  match find? (encode delim) (encode rest) with
  | none => return none
  | some stop =>
    let consumed ← slice? rest 0 (stop + (encode delim).length)
    let text ← slice? rest 0 stop
    return some (text, ⟨cursor.place + (encode consumed).length,
      cursor.line + (encode consumed).count 10⟩)

/-- Behind a line end, if there is one. -/
def skipLineEnd? (source : List Char) (cursor : Cursor) : Option Cursor := do
  let rest ← cursor.rest? source
  if ['\n'] <+: rest then return ⟨cursor.place + 1, cursor.line + 1⟩
  else if ['\r', '\n'] <+: rest then return ⟨cursor.place + 2, cursor.line + 1⟩
  else return cursor

/-- Behind a tag: the opening tag of a section takes a line end with it. -/
def behind? (source : List Char) (cursor : Cursor) : Tag → Option Cursor
  | .opening _ => cursor.skipLineEnd? source
  | _ => return cursor

end Cursor

/-- Reads on at a cursor, where this much is open, up to a tag in each round. There is no result if a
slice cannot be made, or if the rounds do not suffice. -/
def readNodes? (source : List Char) :
    Nat → Nesting → Cursor → Option (Except PlacedFault (List Node))
  | 0, _, _ => none
  | rounds + 1, s, cursor => do
    match ← cursor.readUntil? source Item.opener with
    | none => return (s.pushText (← cursor.rest? source)).finish
    | some (text, cursor) =>
      let raw := (← cursor.rest? source).head? = some '\x7b'
      match ← cursor.readUntil? source (Item.closer raw) with
      | none => return .error ⟨cursor.line, .unclosedTag⟩
      | some (inner, next) =>
        match ← Tag.ofInner? raw inner with
        | .error fault => return .error ⟨cursor.line, fault⟩
        | .ok tag =>
          match (s.pushText text).takeTag cursor.line tag with
          | .error fault => return .error ⟨cursor.line, fault⟩
          | .ok s => readNodes? source rounds s (← next.behind? source tag)

/-- The tree of a source, which is read byte by byte. -/
def parseNodes? (source : List Char) : Option (Except PlacedFault (List Node)) :=
  readNodes? source (source.length + 1) .start ⟨0, 1⟩

namespace Cursor

variable {source front rest text more delim : List Char} {line : Nat}

theorem rest?_eq (h : source = front ++ rest) (line : Nat) :
    rest? source ⟨(encode front).length, line⟩ = some rest := by
  have hsource : source = front ++ (rest ++ []) := by rw [List.append_nil, h]
  exact slice?_eq hsource rfl (by rw [h])

theorem readUntil?_cut (hne : delim ≠ []) (hdelim : ∀ c ∈ delim, c.toNat < 0x80)
    (h : source = front ++ rest) (hcut : Cut delim rest text more) (line : Nat) :
    readUntil? source delim ⟨(encode front).length, line⟩ = some (some (text,
      ⟨(encode (front ++ text ++ delim)).length, line + (text ++ delim).count '\n'⟩)) := by
  have htext : rest = [] ++ (text ++ (delim ++ more)) := by simp [hcut.eq]
  have hconsumed : rest = [] ++ ((text ++ delim) ++ more) := hcut.eq
  have hstop : (encode text).length + (encode delim).length = (encode (text ++ delim)).length :=
    (length_encode_append text delim).symm
  have hfirst : slice? rest 0 (encode text).length = some text := slice?_eq htext rfl rfl
  have hsecond : slice? rest 0 ((encode text).length + (encode delim).length) =
      some (text ++ delim) := slice?_eq hconsumed rfl hstop
  rw [readUntil?, rest?_eq h]
  simp only [Option.bind_eq_bind, Option.bind_some, find?_of_cut hne hdelim hcut, hfirst, hsecond,
    count_encode]
  rw [List.append_assoc, length_encode_append front]
  rfl

theorem readUntil?_none (hne : delim ≠ []) (hdelim : ∀ c ∈ delim, c.toNat < 0x80)
    (h : source = front ++ rest) (hnone : ¬ delim <:+: rest) (line : Nat) :
    readUntil? source delim ⟨(encode front).length, line⟩ = some none := by
  rw [readUntil?, rest?_eq h]
  simp only [Option.bind_eq_bind, Option.bind_some, find?_eq_none hne hdelim hnone]
  rfl

theorem skipLineEnd?_eq (h : source = front ++ rest) (line : Nat) :
    ∃ taken, rest = taken ++ Item.dropLineEnd rest ∧
      skipLineEnd? source ⟨(encode front).length, line⟩ =
        some ⟨(encode (front ++ taken)).length, line + taken.count '\n'⟩ := by
  simp only [skipLineEnd?, rest?_eq h, Option.bind_eq_bind, Option.bind_some]
  unfold Item.dropLineEnd
  split
  · rename_i more
    have hprefix : ['\n'] <+: '\n' :: more := ⟨more, rfl⟩
    refine ⟨['\n'], rfl, ?_⟩
    rw [if_pos hprefix, length_encode_append]
    rfl
  · rename_i more
    have hprefix : ['\r', '\n'] <+: '\r' :: '\n' :: more := ⟨more, rfl⟩
    refine ⟨['\r', '\n'], rfl, ?_⟩
    rw [if_neg (by simp), if_pos hprefix, length_encode_append]
    rfl
  · rename_i hlf hcrlf
    have hfeed : ¬ ['\n'] <+: rest := fun ⟨more, hmore⟩ => hlf more hmore.symm
    have hreturn : ¬ ['\r', '\n'] <+: rest := fun ⟨more, hmore⟩ => hcrlf more hmore.symm
    refine ⟨[], rfl, ?_⟩
    rw [if_neg hfeed, if_neg hreturn, List.append_nil]
    rfl

theorem behind?_eq {raw : Bool} {inner : List Char} {t : Tag} (ht : Tag.Spells raw inner t)
    (h : source = front ++ rest) (line : Nat) :
    ∃ taken, rest = taken ++ Item.behind raw inner rest ∧
      behind? source ⟨(encode front).length, line⟩ t =
        some ⟨(encode (front ++ taken)).length, line + taken.count '\n'⟩ := by
  unfold Item.behind
  split
  · rename_i hopens
    obtain ⟨name, rfl⟩ := ht.opens_iff.mp hopens
    exact skipLineEnd?_eq h line
  · rename_i hopens
    refine ⟨[], rfl, ?_⟩
    rw [List.append_nil]
    cases t with
    | opening name => exact absurd (ht.opens_iff.mpr ⟨name, rfl⟩) hopens
    | _ => rfl

end Cursor

namespace Item

variable {rest inner after : List Char} {raw : Bool}

theorem head?_brace (h : raw = false → rest.head? ≠ some '\x7b') :
    decide ((brace raw ++ rest).head? = some '\x7b') = raw := by
  cases raw with
  | true => rfl
  | false => exact decide_eq_false (h rfl)

theorem not_closer_prefix_brace (rest : List Char) : ¬ closer true <+: '\x7b' :: rest := by
  simp [closer]

/-- The third brace of a raw tag is no part of what closes it. -/
theorem cut_brace (h : Cut (closer raw) rest inner after) :
    Cut (closer raw) (brace raw ++ rest) (brace raw ++ inner) after := by
  cases raw with
  | true => exact h.cons (not_closer_prefix_brace rest)
  | false => exact h

theorem not_infix_brace (h : ¬ closer raw <:+: rest) : ¬ closer raw <:+: brace raw ++ rest := by
  cases raw with
  | true => exact fun hin =>
      (List.infix_cons_iff.mp hin).elim (not_closer_prefix_brace rest) h
  | false => exact h

theorem closer_ne_nil (raw : Bool) : closer raw ≠ [] := by cases raw <;> decide

theorem toNat_lt_of_mem_closer : ∀ raw, ∀ c ∈ closer raw, c.toNat < 0x80 := by decide

theorem count_brace (raw : Bool) (inner : List Char) :
    (brace raw ++ inner ++ closer raw).count '\n' = inner.count '\n' := by
  cases raw <;> simp [brace, closer]

end Item

theorem readNodes?_done {source front rest : List Char} (h : source = front ++ rest)
    (hno : ¬ Item.opener <:+: rest) (rounds : Nat) (s : Nesting) (line : Nat) :
    readNodes? source (rounds + 1) s ⟨(encode front).length, line⟩ =
      some (s.pushText rest).finish := by
  have htext := Cursor.readUntil?_none (by decide) (by decide) h hno line
  rw [readNodes?, htext]
  simp only [Option.bind_eq_bind, Option.bind_some, Cursor.rest?_eq h]
  rfl

section

variable {source front rest text more inner after : List Char} {raw : Bool}
  (h : source = front ++ rest) (hopens : Item.Opens rest text raw more) (line : Nat)
include h hopens

theorem Cursor.readUntil?_opener : readUntil? source Item.opener ⟨(encode front).length, line⟩ =
    some (some (text, ⟨(encode (front ++ text ++ Item.opener)).length,
      line + text.count '\n'⟩)) := by
  have hlines : (text ++ Item.opener).count '\n' = text.count '\n' := by simp [Item.opener]
  rw [readUntil?_cut (by decide) (by decide) h hopens.cut, hlines]

theorem Item.Opens.source_eq_behind :
    source = front ++ text ++ opener ++ (brace raw ++ more) := by
  simp [h, hopens.cut.eq]

theorem Cursor.readUntil?_closer (hcut : Cut (Item.closer raw) more inner after) :
    readUntil? source (Item.closer raw) ⟨(encode (front ++ text ++ Item.opener)).length, line⟩ =
      some (some (Item.brace raw ++ inner,
        ⟨(encode (front ++ text ++ Item.opener ++ (Item.brace raw ++ inner) ++
          Item.closer raw)).length, line + inner.count '\n'⟩)) := by
  rw [readUntil?_cut (Item.closer_ne_nil raw) (Item.toNat_lt_of_mem_closer raw)
    (hopens.source_eq_behind h) (Item.cut_brace hcut), Item.count_brace]

theorem readNodes?_unclosed (hno : ¬ Item.closer raw <:+: more) (rounds : Nat) (s : Nesting) :
    readNodes? source (rounds + 1) s ⟨(encode front).length, line⟩ =
      some (.error ⟨line + text.count '\n', .unclosedTag⟩) := by
  have hbehind := hopens.source_eq_behind h
  have hinner := Cursor.readUntil?_none (Item.closer_ne_nil raw) (Item.toNat_lt_of_mem_closer raw)
    hbehind (Item.not_infix_brace hno) (line + text.count '\n')
  rw [readNodes?, Cursor.readUntil?_opener h hopens]
  simp only [Option.bind_eq_bind, Option.bind_some, Cursor.rest?_eq hbehind,
    Item.head?_brace hopens.plain, hinner]
  rfl

theorem readNodes?_refused (hcut : Cut (Item.closer raw) more inner after) {s : Nesting}
    {fault : TagFault} (hfault : (Tag.ofInner raw inner).bind
      ((s.pushText text).takeTag (line + text.count '\n')) = .error fault) (rounds : Nat) :
    readNodes? source (rounds + 1) s ⟨(encode front).length, line⟩ =
      some (.error ⟨line + text.count '\n', fault⟩) := by
  rw [readNodes?, Cursor.readUntil?_opener h hopens]
  simp only [Option.bind_eq_bind, Option.bind_some, Cursor.rest?_eq (hopens.source_eq_behind h),
    Item.head?_brace hopens.plain, Cursor.readUntil?_closer h hopens _ hcut, Tag.ofInner?_eq]
  cases ht : Tag.ofInner raw inner with
  | error other =>
    rw [ht] at hfault
    cases hfault
    rfl
  | ok t =>
    rw [ht] at hfault
    have htake : (s.pushText text).takeTag (line + text.count '\n') t = .error fault := hfault
    simp only [htake]
    rfl

theorem readNodes?_taken (hcut : Cut (Item.closer raw) more inner after) {s u : Nesting} {t : Tag}
    (ht : Tag.ofInner raw inner = .ok t)
    (hu : (s.pushText text).takeTag (line + text.count '\n') t = .ok u) (rounds : Nat) :
    ∃ taken, after = taken ++ Item.behind raw inner after ∧
      readNodes? source (rounds + 1) s ⟨(encode front).length, line⟩ = readNodes? source rounds u
        ⟨(encode (front ++ text ++ Item.opener ++ (Item.brace raw ++ inner) ++ Item.closer raw ++
          taken)).length, line + text.count '\n' + inner.count '\n' + taken.count '\n'⟩ := by
  have hafter : source = front ++ text ++ Item.opener ++ (Item.brace raw ++ inner) ++
      Item.closer raw ++ after := by
    rw [hopens.source_eq_behind h, hcut.eq]
    simp
  obtain ⟨taken, htaken, hnext⟩ := Cursor.behind?_eq (Tag.ofInner_eq_ok_iff.mp ht) hafter
    (line + text.count '\n' + inner.count '\n')
  refine ⟨taken, htaken, ?_⟩
  rw [readNodes?, Cursor.readUntil?_opener h hopens]
  simp only [Option.bind_eq_bind, Option.bind_some, Cursor.rest?_eq (hopens.source_eq_behind h),
    Item.head?_brace hopens.plain, Cursor.readUntil?_closer h hopens _ hcut, Tag.ofInner?_eq, ht, hu,
    hnext]

end

/-- What is read on at a place is what the items of the rest make of what is open. -/
theorem readNodes?_eq {source front rest : List Char} (h : source = front ++ rest) {rounds : Nat}
    (hrounds : rest.length < rounds) (s : Nesting) (line : Nat) :
    readNodes? source rounds s ⟨(encode front).length, line⟩ =
      some (s.takeAll (Item.scan (.text []) line rest)) := by
  induction rounds generalizing front rest s line with
  | zero => omega
  | succ rounds ih =>
    by_cases hopen : Item.opener <:+: rest
    · obtain ⟨text, raw, more, hopens⟩ := Item.Opens.exists_of_infix hopen
      by_cases hclose : Item.closer raw <:+: more
      · obtain ⟨inner, after, hcut⟩ := Cut.exists_of_infix hclose
        obtain ⟨taken, htaken, hscan⟩ := hopens.scan_cut hcut line
        rw [hscan, Nesting.takeAll_ofText, Nesting.takeAll, Nesting.take]
        cases hstep : (Tag.ofInner raw inner).bind
            ((s.pushText text).takeTag (line + text.count '\n')) with
        | error fault => exact readNodes?_refused h hopens line hcut hstep rounds
        | ok u =>
          obtain ⟨t, ht, hu⟩ : ∃ t, Tag.ofInner raw inner = .ok t ∧
              (s.pushText text).takeTag (line + text.count '\n') t = .ok u := by
            cases ht : Tag.ofInner raw inner with
            | error fault =>
              rw [ht] at hstep
              cases hstep
            | ok t =>
              rw [ht] at hstep
              exact ⟨t, rfl, hstep⟩
          obtain ⟨skipped, hskipped, hread⟩ := readNodes?_taken h hopens line hcut ht hu rounds
          obtain rfl := List.append_cancel_right (hskipped.symm.trans htaken)
          have hshorter := hopens.length_behind_lt hcut
          rw [hread]
          refine ih ?_ (by omega) u _
          rw [hopens.source_eq_behind h, hcut.eq, List.append_assoc _ skipped, ← htaken]
          simp
      · rw [hopens.scan_eq, Item.scan_tag_rest hclose, Nesting.takeAll_ofText]
        exact readNodes?_unclosed h hopens line hclose rounds s
    · rw [readNodes?_done h hopen, Item.scan_text_rest hopen, List.append_nil, Item.flush_eq,
        Nesting.takeAll_ofText]
      rfl

/-- Every slice that the reading of a source asks for can be made, and the tree is the same. -/
theorem parseNodes?_eq (source : List Char) : parseNodes? source = some (parseNodes source) := by
  have hsource : source = [] ++ source := rfl
  exact readNodes?_eq hsource (Nat.lt_succ_self _) .start 1

/-- Slices can be made only inside a text and between its characters. All those that the readers of
expressions and sources and the writer of markup ask for are such slices, although what they look at
is bytes, and they always come to a result or an error. -/
theorem readers_slice_between_characters (source : List Char) :
    (∀ start stop middle, slice? source start stop = some middle ↔
      start ≤ stop ∧ stop ≤ (encode source).length ∧
        IsBoundary source start ∧ IsBoundary source stop ∧
        encode middle = ((encode source).take stop).drop start) ∧
    Lexer.tokens? source = some (Lexer.tokens source) ∧
    parseNodes? source = some (parseNodes source) ∧
    escapePieces? (String.ofList source) = some (escapePieces (String.ofList source)) :=
  ⟨fun _ _ _ => slice?_eq_some_iff, Lexer.tokens?_eq source, parseNodes?_eq source,
    escapePieces?_eq (String.ofList source)⟩

end Stencil

import Stencil.Proofs.Expr.Cutting
import Stencil.Proofs.Text.Slices

/-! # Tokens read byte by byte

Words and literals are slices of an expression, and what ends them is found by looking at single
bytes. All these slices can be made, and the tokens are those that the automaton finds by looking at
characters.
-/
namespace Stencil.Lexer

open Text

/-- The token of the word between two places, unless the word is empty. -/
def wordAt? (text : List Char) (start stop : Nat) : Option (List Token) :=
  if start < stop then (slice? text start stop).map fun w => [.ofWord w] else some []

/-- The token of the literal between two places. -/
def literalAt? (text : List Char) (start stop : Nat) : Option Token :=
  (slice? text start stop).map fun body => .text (String.ofList (Token.unescape body))

/-- Reads on in a literal that begins at `start`: its token, and the place behind it. -/
def readLiteral? (text : List Char) (start place : Nat) (escaped : Bool) : Option (Token × Nat) :=
  if h : place < (encode text).length then
    if alone (encode text)[place] = '\\' ∧ escaped = false then
      readLiteral? text start (place + 1) true
    else if alone (encode text)[place] = '"' ∧ escaped = false then do
      return (← literalAt? text start place, place + 1)
    else readLiteral? text start (place + 1) false
  else do return (← literalAt? text start (encode text).length, (encode text).length)
termination_by (encode text).length - place

/-- What begins at a byte that no word goes on with: its tokens, and the place behind it. -/
def separatorAt? (text : List Char) (place : Nat) (c : Char) :
    ExceptT SyntaxFault Option (Option (List Token × Nat)) :=
  if c = ' ' ∨ c = '\t' then return some ([], place + 1)
  else if beginsOperator c then
    if (encode text)[place + 1]?.map alone = some '=' then
      return some ([.symbol (double c)], place + 2)
    else match single? c with
      | some s => return some ([.symbol s], place + 1)
      | none => throw (.stray c place)
  else if c = '"' then do
    let (literal, next) ← readLiteral? text (place + 1) (place + 1) false
    return some ([literal], next)
  else return (mark? c).map fun s => ([.symbol s], place + 1)

/-- Reads on at a place, where the word that is not cut off yet begins at `start`. There is no result
if a slice cannot be made. -/
def readTokens? (text : List Char) (start place : Nat) : ExceptT SyntaxFault Option (List Token) :=
  if h : place < (encode text).length then do
    match ← separatorAt? text place (alone (encode text)[place]) with
    | none => readTokens? text start (place + 1)
    | some (said, next) =>
      let word ← wordAt? text start place
      return word ++ said ++ (← readTokens? text next (max next (place + 1)))
  else wordAt? text start (encode text).length
termination_by (encode text).length - place

/-- The tokens of an expression, which is read byte by byte. -/
def tokens? (text : List Char) : Option (Except SyntaxFault (List Token)) :=
  (readTokens? text 0 0).run

variable {text front rest body w : List Char} {start stop : Nat}

theorem wordAt?_eq (htext : text = front ++ (w ++ rest)) (hstart : start = (encode front).length)
    (hstop : stop = (encode (front ++ w)).length) :
    wordAt? text start stop = some ((flush w.reverse).filterMap Lexeme.token?) := by
  have hslice := slice?_eq htext hstart hstop
  rw [length_encode_append] at hstop
  by_cases hw : w = []
  · subst hw
    have hzero : (encode []).length = 0 := rfl
    rw [wordAt?, if_neg (by omega)]
    rfl
  · have hpos := length_encode_pos hw
    rw [wordAt?, if_pos (by omega), hslice, flush, if_neg (by simpa using hw), List.reverse_reverse]
    rfl

theorem literalAt?_eq (htext : text = front ++ (body ++ rest))
    (hstart : start = (encode front).length) (hstop : stop = (encode (front ++ body)).length) :
    literalAt? text start stop = some (.text (String.ofList (Token.unescape body))) := by
  rw [literalAt?, slice?_eq htext hstart hstop]
  rfl

/-- The characters that a literal is searched for. -/
def literalMarks : List Char := ['"', '\\']

theorem toNat_lt_of_literalMark : ∀ c ∈ literalMarks, c.toNat < 0x80 := by simp [literalMarks]

/-- The other bytes of a literal are passed over. -/
theorem readLiteral?_plain {before bytes after : List UInt8}
    (h : ∀ b ∈ bytes, alone b ∉ literalMarks) (htext : encode text = before ++ (bytes ++ after))
    (start : Nat) : readLiteral? text start before.length false =
      readLiteral? text start (before.length + bytes.length) false := by
  induction bytes generalizing before with
  | nil => rfl
  | cons b bytes ih =>
    obtain ⟨hb, hbytes⟩ := List.forall_mem_cons.mp h
    have hlt : before.length < (encode text).length := by simp [htext]
    have hbyte : (encode text)[before.length] = b := by simp [htext]
    have hbefore : encode text = before ++ [b] ++ (bytes ++ after) := by simp [htext]
    have hnext := ih hbytes hbefore
    rw [List.length_append, List.length_singleton] at hnext
    simp only [literalMarks, List.mem_cons, List.not_mem_nil, or_false, not_or] at hb
    rw [readLiteral?, dif_pos hlt, hbyte]
    simp only [hb.1, hb.2, false_and, if_false]
    rw [hnext, List.length_cons, Nat.add_right_comm, Nat.add_assoc]

/-- Of a character that is hidden only the first byte is passed over as such. -/
theorem readLiteral?_hidden {c : Char} (htext : text = front ++ (c :: rest)) (start : Nat) :
    readLiteral? text start (encode front).length true =
      readLiteral? text start (encode (front ++ [c])).length false := by
  obtain ⟨b, more, hc, hmore⟩ := encodeChar_eq_cons c
  have hbytes : encode text = encode front ++ [b] ++ (more ++ encode rest) := by
    simp [htext, encode_append, encode_cons, hc]
  have hlt : (encode front).length < (encode text).length := by simp [hbytes]
  have hplain := readLiteral?_plain
    (fun d hd => alone_notMem_of_le toNat_lt_of_literalMark (hmore d hd)) hbytes start
  have hsize : (encode (front ++ [c])).length = (encode front ++ [b]).length + more.length := by
    simp [encode, hc]
    omega
  rw [readLiteral?, dif_pos hlt, hsize, ← hplain]
  simp

theorem readLiteral?_backslash (htext : text = front ++ ('\\' :: rest)) (start : Nat) :
    readLiteral? text start (encode front).length false =
      readLiteral? text start (encode (front ++ ['\\'])).length true := by
  obtain ⟨b, hb, hc⟩ := head?_encode_of_lt (toNat_lt_of_literalMark '\\' (by decide)) rest
  obtain ⟨hlt, hbyte⟩ := List.getElem?_eq_some_iff.mp ((getElem?_encode htext).trans hb)
  rw [readLiteral?, dif_pos hlt, hbyte, length_encode_append, length_encode_of_lt (by decide)]
  simp [hc]

theorem readLiteral?_body (h : Body body) (htext : text = front ++ (body ++ rest)) (start : Nat) :
    readLiteral? text start (encode front).length false =
      readLiteral? text start (encode (front ++ body)).length false := by
  induction h generalizing front with
  | nil => rw [List.append_nil]
  | @plain c s hquote hslash _ ih =>
    have hplain : c ∉ literalMarks := by simp [literalMarks, hquote, hslash]
    have hbytes : encode text = encode front ++ (encodeChar c ++ encode (s ++ rest)) := by
      rw [htext, encode_append, List.cons_append, encode_cons]
    have hsize : (encode front).length + (encodeChar c).length = (encode (front ++ [c])).length := by
      simp [encode]
    have hnext : text = front ++ [c] ++ (s ++ rest) := by simp [htext]
    rw [readLiteral?_plain (fun b => alone_notMem toNat_lt_of_literalMark hplain) hbytes, hsize,
      ih hnext, List.append_assoc, List.singleton_append]
  | @hidden c s _ ih =>
    have hslash : text = front ++ ('\\' :: c :: (s ++ rest)) := htext
    have hchar : text = front ++ ['\\'] ++ (c :: (s ++ rest)) := by simp [htext]
    have hnext : text = front ++ ['\\'] ++ [c] ++ (s ++ rest) := by simp [htext]
    have hwhole : front ++ ['\\'] ++ [c] ++ s = front ++ '\\' :: c :: s := by simp
    rw [readLiteral?_backslash hslash, readLiteral?_hidden hchar, ih hnext, hwhole]

/-- A literal ends behind the first quote that is not hidden. -/
theorem readLiteral?_closed (h : Body body) (htext : text = front ++ (body ++ '"' :: rest)) :
    readLiteral? text (encode front).length (encode front).length false =
      some (.text (String.ofList (Token.unescape body)), (encode (front ++ body)).length + 1) := by
  obtain ⟨b, hb, hc⟩ := head?_encode_of_lt (toNat_lt_of_literalMark '"' (by decide)) rest
  have hquote : text = front ++ body ++ '"' :: rest := by simp [htext]
  obtain ⟨hlt, hbyte⟩ := List.getElem?_eq_some_iff.mp ((getElem?_encode hquote).trans hb)
  rw [readLiteral?_body h htext, readLiteral?, dif_pos hlt, hbyte]
  simp [hc, literalAt?_eq htext rfl rfl]

/-- Without such a quote it ends with the text. -/
theorem readLiteral?_open (h : OpenBody body) (htext : text = front ++ body) :
    readLiteral? text (encode front).length (encode front).length false =
      some (.text (String.ofList (Token.unescape body)), (encode text).length) := by
  have hwhole : text = front ++ (body ++ []) := by simp [htext]
  have hend : ∀ escaped, readLiteral? text (encode front).length (encode text).length escaped =
      some (.text (String.ofList (Token.unescape body)), (encode text).length) := by
    intro escaped
    have hliteral := literalAt?_eq hwhole rfl (congrArg (fun s => (encode s).length) htext)
    rw [readLiteral?, dif_neg (Nat.lt_irrefl _), hliteral]
    rfl
  rcases h with hbody | ⟨inner, hinner, rfl⟩
  · rw [readLiteral?_body hbody hwhole, ← htext, hend]
  · have hslash : text = front ++ inner ++ '\\' :: [] := by simp [htext]
    rw [readLiteral?_body hinner htext, readLiteral?_backslash hslash, ← hslash, hend]

theorem toNat_lt_of_separator : ∀ c ∈ separators, c.toNat < 0x80 := by simp [separators]

theorem separatorAt?_plain {c : Char} (h : c ∉ separators) (place : Nat) :
    separatorAt? text place c = pure none := by
  simp only [separators, List.mem_cons, List.not_mem_nil, or_false, not_or] at h
  obtain ⟨hspace, htab, hlt, hgt, heq, hbang, hpipe, hopen, hclose, hcomma, hquote⟩ := h
  simp [separatorAt?, beginsOperator, mark?, hspace, htab, hlt, hgt, heq, hbang, hpipe, hopen,
    hclose, hcomma, hquote]

section

variable {c : Char} {place : Nat} {s : Symbol}

theorem separatorAt?_mark (h : mark? c = some s) :
    separatorAt? text place c = pure (some ([.symbol s], place + 1)) := by
  unfold mark? at h
  split_ifs at h with hpipe hopen hclose hcomma <;> cases h <;> subst c <;> rfl

theorem separatorAt?_single (h : single? c = some s)
    (hnext : (encode text)[place + 1]?.map alone ≠ some '=') :
    separatorAt? text place c = pure (some ([.symbol s], place + 1)) := by
  unfold single? at h
  split_ifs at h with hlt hgt <;> cases h <;> subst c <;>
    simp [separatorAt?, beginsOperator, single?, hnext]

theorem separatorAt?_double (h : beginsOperator c = true)
    (hnext : (encode text)[place + 1]?.map alone = some '=') :
    separatorAt? text place c = pure (some ([.symbol (double c)], place + 2)) := by
  have hblank : ¬ (c = ' ' ∨ c = '\t') := by
    rintro (rfl | rfl) <;> cases h
  rw [separatorAt?, if_neg hblank, if_pos h, if_pos hnext]

theorem separatorAt?_stray (h : c = '=' ∨ c = '!')
    (hnext : (encode text)[place + 1]?.map alone ≠ some '=') :
    separatorAt? text place c = throw (.stray c place) := by
  rcases h with rfl | rfl <;> simp [separatorAt?, beginsOperator, single?, hnext]

end

theorem equals_follows_iff {c : Char} (hc : c.toNat < 0x80) (htext : text = front ++ (c :: rest)) :
    (encode text)[(encode front).length + 1]?.map alone = some '=' ↔ rest.head? = some '=' := by
  rw [getElem?_encode_succ hc htext]
  exact head?_encode_iff (by decide)

theorem separatorAt?_symbol {s : Symbol} (htext : text = front ++ (s.spelling.toList ++ rest))
    (hlonger : s = .comparator .lt ∨ s = .comparator .gt → rest.head? ≠ some '=') :
    ∃ c more, s.spelling.toList = c :: more ∧ separatorAt? text (encode front).length c =
      pure (some ([.symbol s], (encode (front ++ s.spelling.toList)).length)) := by
  have hsize : (encode (front ++ s.spelling.toList)).length =
      (encode front).length + s.spelling.toList.length := by
    rw [length_encode_append]
    rcases s with (_ | _ | _ | _ | _ | _) | _ | _ | _ | _ <;> rfl
  have hfollows {c : Char} {more : List Char} (hs : s.spelling.toList = c :: more)
      (hc : c.toNat < 0x80) : (encode text)[(encode front).length + 1]?.map alone = some '=' ↔
        (more ++ rest).head? = some '=' := by
    rw [hs] at htext
    exact equals_follows_iff hc htext
  rw [hsize]
  cases s with
  | comparator op =>
    cases op with
    | lt =>
      have hshort := mt (hfollows rfl (by decide)).mp (hlonger (Or.inl rfl))
      exact ⟨'<', [], rfl, separatorAt?_single rfl hshort⟩
    | gt =>
      have hshort := mt (hfollows rfl (by decide)).mp (hlonger (Or.inr rfl))
      exact ⟨'>', [], rfl, separatorAt?_single rfl hshort⟩
    | le => exact ⟨'<', ['='], rfl, separatorAt?_double rfl ((hfollows rfl (by decide)).mpr rfl)⟩
    | ge => exact ⟨'>', ['='], rfl, separatorAt?_double rfl ((hfollows rfl (by decide)).mpr rfl)⟩
    | eq => exact ⟨'=', ['='], rfl, separatorAt?_double rfl ((hfollows rfl (by decide)).mpr rfl)⟩
    | ne => exact ⟨'!', ['='], rfl, separatorAt?_double rfl ((hfollows rfl (by decide)).mpr rfl)⟩
  | pipe => exact ⟨'|', [], rfl, separatorAt?_mark rfl⟩
  | opening => exact ⟨'(', [], rfl, separatorAt?_mark rfl⟩
  | closing => exact ⟨')', [], rfl, separatorAt?_mark rfl⟩
  | comma => exact ⟨',', [], rfl, separatorAt?_mark rfl⟩

/-- The piece that begins with a separator is read off its bytes. -/
theorem separatorAt?_cut {c : Char} {p : Lexeme} {more : List Char} (hc : c ∈ separators)
    (htext : text = front ++ (c :: rest)) (hcut : Cut (c :: rest) p more) :
    separatorAt? text (encode front).length c =
      pure (some (p.token?.toList, (encode (front ++ p.text)).length)) := by
  have hsize : (encode (front ++ [c])).length = (encode front).length + 1 := by
    rw [length_encode_append, length_encode_of_lt (toNat_lt_of_separator c hc)]
  generalize hwhole : c :: rest = whole at hcut htext
  cases hcut with
  | blank hblank =>
    obtain ⟨rfl, rfl⟩ := List.cons.inj hwhole
    rw [separatorAt?, if_pos hblank, Lexeme.text, hsize]
    rfl
  | @word w more hne hplain _ =>
    cases w with
    | nil => exact absurd rfl hne
    | cons d w =>
      obtain ⟨rfl, -⟩ := List.cons.inj hwhole
      exact absurd hc (hplain c List.mem_cons_self)
  | symbol s hlonger =>
    obtain ⟨d, tail, hs, hseparator⟩ := separatorAt?_symbol htext hlonger
    rw [hs] at hwhole
    obtain ⟨rfl, -⟩ := List.cons.inj hwhole
    exact hseparator
  | @quoted body more hbody =>
    obtain ⟨rfl, rfl⟩ := List.cons.inj hwhole
    have hbehind : text = front ++ ['"'] ++ (body ++ '"' :: more) := by simp [htext]
    have hread := readLiteral?_closed hbody hbehind
    have hend : (encode (front ++ (Lexeme.quoted body true).text)).length =
        (encode (front ++ ['"'] ++ body)).length + 1 := by
      have htail : front ++ (Lexeme.quoted body true).text = front ++ ['"'] ++ body ++ ['"'] := by
        simp [Lexeme.text]
      rw [htail, length_encode_append _ ['"'], length_encode_of_lt (by decide)]
    rw [hsize] at hread
    rw [hend, separatorAt?, if_neg (by decide), if_neg (by decide), if_pos rfl, hread]
    rfl
  | @unclosed body hbody =>
    obtain ⟨rfl, rfl⟩ := List.cons.inj hwhole
    have hbehind : text = front ++ ['"'] ++ rest := by simp [htext]
    have hread := readLiteral?_open hbody hbehind
    have hend : front ++ (Lexeme.quoted rest false).text = text := by simp [Lexeme.text, htext]
    rw [hsize] at hread
    rw [hend, separatorAt?, if_neg (by decide), if_neg (by decide), if_pos rfl, hread]
    rfl

/-- The bytes of a word are passed over, whatever characters they are part of. -/
theorem readTokens?_plain {before bytes after : List UInt8} (h : ∀ b ∈ bytes, alone b ∉ separators)
    (htext : encode text = before ++ (bytes ++ after)) (start : Nat) :
    readTokens? text start before.length = readTokens? text start (before.length + bytes.length) := by
  induction bytes generalizing before with
  | nil => rfl
  | cons b bytes ih =>
    obtain ⟨hb, hbytes⟩ := List.forall_mem_cons.mp h
    have hlt : before.length < (encode text).length := by simp [htext]
    have hbyte : (encode text)[before.length] = b := by simp [htext]
    have hbefore : encode text = before ++ [b] ++ (bytes ++ after) := by simp [htext]
    have hnext := ih hbytes hbefore
    rw [List.length_append, List.length_singleton] at hnext
    rw [readTokens?, dif_pos hlt, hbyte]
    simp only [separatorAt?_plain hb, pure_bind]
    rw [hnext, List.length_cons, Nat.add_right_comm, Nat.add_assoc]

theorem readTokens?_char {c : Char} (hc : c ∉ separators) (htext : text = front ++ (c :: rest))
    (start : Nat) : readTokens? text start (encode front).length =
      readTokens? text start (encode (front ++ [c])).length := by
  have hbytes : encode text = encode front ++ (encodeChar c ++ encode rest) := by
    rw [htext, encode_append, encode_cons]
  have hsize : (encode (front ++ [c])).length = (encode front).length + (encodeChar c).length := by
    simp [encode]
  rw [readTokens?_plain (fun b => alone_notMem toNat_lt_of_separator hc) hbytes, hsize]

theorem readTokens?_end (htext : text = front ++ w) :
    (readTokens? text (encode front).length (encode text).length).run =
      some (.ok ((flush w.reverse).filterMap Lexeme.token?)) := by
  have hwhole : text = front ++ (w ++ []) := by simp [htext]
  have hword := wordAt?_eq hwhole rfl (congrArg (fun s => (encode s).length) htext)
  rw [readTokens?, dif_neg (Nat.lt_irrefl _), hword]
  rfl

section

variable {c : Char} (hc : c ∈ separators) (htext : text = front ++ (w ++ (c :: rest)))
include hc htext

/-- At a separator. -/
theorem readTokens?_separator : readTokens? text (encode front).length (encode (front ++ w)).length =
    (do
      match ← separatorAt? text (encode (front ++ w)).length c with
      | none => readTokens? text (encode front).length ((encode (front ++ w)).length + 1)
      | some (said, next) =>
        return (flush w.reverse).filterMap Lexeme.token? ++ said ++
          (← readTokens? text next (max next ((encode (front ++ w)).length + 1)))) := by
  have hat : text = front ++ w ++ (c :: rest) := by simp [htext]
  obtain ⟨b, hb, rfl⟩ := head?_encode_of_lt (toNat_lt_of_separator c hc) rest
  obtain ⟨hlt, hbyte⟩ := List.getElem?_eq_some_iff.mp ((getElem?_encode hat).trans hb)
  rw [readTokens?, dif_pos hlt, hbyte, wordAt?_eq htext rfl rfl]
  rfl

theorem readTokens?_strays (hstray : Strays c rest) :
    (readTokens? text (encode front).length (encode (front ++ w)).length).run =
      some (.error (.stray c (encode (front ++ w)).length)) := by
  have hat : text = front ++ w ++ (c :: rest) := by simp [htext]
  have hnext := mt (equals_follows_iff (toNat_lt_of_separator c hc) hat).mp hstray.2
  rw [readTokens?_separator hc htext, separatorAt?_stray hstray.1 hnext]
  rfl

theorem readTokens?_cut {p : Lexeme} {more : List Char} {r : Except SyntaxFault (List Token)}
    (hcut : Cut (c :: rest) p more)
    (hmore : (readTokens? text (encode (front ++ w ++ p.text)).length
      (encode (front ++ w ++ p.text)).length).run = some r) :
    (readTokens? text (encode front).length (encode (front ++ w)).length).run =
      some ((r.map (p.token?.toList ++ ·)).map ((flush w.reverse).filterMap Lexeme.token? ++ ·)) := by
  have hat : text = front ++ w ++ (c :: rest) := by simp [htext]
  have hfurther : (encode (front ++ w)).length + 1 ≤ (encode (front ++ w ++ p.text)).length := by
    have hpos := length_encode_pos hcut.text_ne_nil
    rw [length_encode_append _ p.text]
    omega
  have hread : readTokens? text (encode (front ++ w ++ p.text)).length
      (encode (front ++ w ++ p.text)).length = some r := hmore
  rw [readTokens?_separator hc htext, separatorAt?_cut hc hat hcut, pure_bind]
  dsimp only
  rw [Nat.max_eq_left hfurther, hread]
  cases r with
  | ok ts => exact congrArg (fun ts => some (Except.ok ts)) (List.append_assoc _ _ ts)
  | error fault => rfl

end

/-- The tokens among pieces. -/
def tokensOf (pieces : Except SyntaxFault (List Lexeme)) : Except SyntaxFault (List Token) :=
  pieces.map (·.filterMap Lexeme.token?)

theorem tokensOf_append (ps : List Lexeme) (r : Except SyntaxFault (List Lexeme)) :
    tokensOf (r.map (ps ++ ·)) = (tokensOf r).map (ps.filterMap Lexeme.token? ++ ·) := by
  cases r <;> simp [tokensOf, Except.map]

theorem tokensOf_cons (p : Lexeme) (r : Except SyntaxFault (List Lexeme)) :
    tokensOf (r.map (p :: ·)) = (tokensOf r).map (p.token?.toList ++ ·) := by
  have h : [p].filterMap Lexeme.token? = p.token?.toList := by
    cases hp : p.token? <;> simp [hp]
  rw [← h]
  exact tokensOf_append [p] r

/-- What is read behind a part of a word is what the automaton reads there. -/
theorem readTokens?_eq_run (front w rest : List Char) (htext : text = front ++ (w ++ rest)) :
    (readTokens? text (encode front).length (encode (front ++ w)).length).run =
      some (tokensOf (run (.word w.reverse) (encode (front ++ w)).length rest)) := by
  -- a piece may have any number of characters, so the induction is on how many are left
  induction hn : rest.length using Nat.strong_induction_on generalizing front w rest with
  | _ n ih =>
    cases rest with
    | nil =>
      rw [List.append_nil] at htext
      rw [← htext, readTokens?_end htext]
      rfl
    | cons c rest =>
      by_cases hc : c ∈ separators
      · rw [run_flush hc, tokensOf_append]
        rcases exists_cut c rest with hstray | ⟨p, more, hcut⟩
        · rw [readTokens?_strays hc htext hstray, run_strays hstray]
          rfl
        · have hmore : text = front ++ w ++ p.text ++ ([] ++ more) := by
            rw [htext, hcut.text_eq]
            simp
          have hnext := ih more.length (hn ▸ hcut.length_lt) (front ++ w ++ p.text) [] more hmore rfl
          rw [List.append_nil] at hnext
          rw [readTokens?_cut hc htext hcut hnext, run_cut hcut, tokensOf_cons,
            ← length_encode_append]
          rfl
      · have hat : text = front ++ w ++ (c :: rest) := by simp [htext]
        have hnext := ih rest.length (by simp [← hn]) front (w ++ [c]) rest (by simp [htext]) rfl
        have hstep : step (.word w.reverse) (encode (front ++ w)).length c =
            .ok ([], .word (c :: w.reverse)) := congrArg Except.ok (stepWord_plain hc _)
        have hoffset : (encode (front ++ w)).length + c.utf8Size =
            (encode (front ++ w ++ [c])).length := by
          rw [length_encode_append _ [c], length_encode_cons]
          rfl
        rw [← List.append_assoc, List.reverse_append] at hnext
        rw [readTokens?_char hc hat, run_cons_nil hstep, hoffset]
        exact hnext

/-- Every slice that the reading asks for can be made, and the tokens are the same. -/
theorem tokens?_eq (text : List Char) : tokens? text = some (tokens text) := by
  have h := readTokens?_eq_run [] [] text rfl
  refine h.trans (congrArg some ?_)
  show tokensOf (lexemes text) = _
  rw [tokens]
  cases lexemes text <;> rfl

end Stencil.Lexer

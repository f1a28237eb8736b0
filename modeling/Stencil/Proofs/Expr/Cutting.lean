import Mathlib.Data.Nat.Init
import Stencil.Expr.Lexer
import Stencil.Proofs.Expr.Pieces
import Stencil.Proofs.Text.Encoding

/-! # How an expression is cut

Which piece stands in front of a text is said here without the automaton: a word runs as far as it
can, an operator takes an equals sign that follows it, and a literal runs to its quote or to the
end. The automaton cuts a text just so, up to its end or to the first half of an operator that
lacks its other half.
-/
namespace Stencil

open Text (encode)

namespace Lexer

/-- The characters that end a word. -/
def separators : List Char := [' ', '\t', '<', '>', '=', '!', '|', '(', ')', ',', '"']

/-- What stands between the quotes of a literal: no quote but behind a backslash, and no backslash
at the end but behind another one. -/
inductive Body : List Char → Prop
  | nil : Body []
  | plain {c s} : c ≠ '"' → c ≠ '\\' → Body s → Body (c :: s)
  | hidden {c s} : Body s → Body ('\\' :: c :: s)

/-- What stands behind a quote that is not closed. -/
def OpenBody (s : List Char) : Prop := Body s ∨ ∃ front, Body front ∧ s = front ++ ['\\']

/-- The piece in front of a text, and what is behind it. -/
inductive Cut : List Char → Lexeme → List Char → Prop
  | blank {c rest} : c = ' ' ∨ c = '\t' → Cut (c :: rest) (.blank c) rest
  | word {w rest} : w ≠ [] → (∀ c ∈ w, c ∉ separators) → (∀ c ∈ rest.head?, c ∈ separators) →
      Cut (w ++ rest) (.word w) rest
  | symbol (s) {rest} : (s = .comparator .lt ∨ s = .comparator .gt → rest.head? ≠ some '=') →
      Cut (s.spelling.toList ++ rest) (.symbol s) rest
  | quoted {body rest} : Body body → Cut ('"' :: body ++ '"' :: rest) (.quoted body true) rest
  | unclosed {body} : OpenBody body → Cut ('"' :: body) (.quoted body false) []

/-- The pieces in front of a text, and what is behind them. -/
inductive Cuts : List Char → List Lexeme → List Char → Prop
  | nil {text} : Cuts text [] text
  | cons {text p rest ps last} : Cut text p rest → Cuts rest ps last → Cuts text (p :: ps) last

/-- A character in front of a text with which no piece begins. -/
def Strays (c : Char) (rest : List Char) : Prop := (c = '=' ∨ c = '!') ∧ rest.head? ≠ some '='

variable {text rest last : List Char} {p : Lexeme} {ps : List Lexeme}

theorem Cut.text_eq (h : Cut text p rest) : text = p.text ++ rest := by
  cases h with
  | blank => rfl
  | word => rfl
  | symbol => rfl
  | quoted => simp [Lexeme.text]
  | unclosed => simp [Lexeme.text]

theorem Cuts.text_eq (h : Cuts text ps rest) : text = ps.flatMap Lexeme.text ++ rest := by
  induction h with
  | nil => rfl
  | cons hcut _ ih => rw [hcut.text_eq, ih, List.flatMap_cons, List.append_assoc]

/-- A piece stays a piece when the text behind it breaks off. -/
theorem Cut.front {front back : List Char} (h : Cut text p (front ++ back)) :
    Cut (p.text ++ front) p front := by
  have hhead : ∀ c ∈ front.head?, c ∈ (front ++ back).head? := by
    intro c hc
    obtain ⟨more, rfl⟩ := List.head?_eq_some_iff.mp hc
    rfl
  generalize hrest : front ++ back = rest at h hhead
  cases h with
  | blank hc => exact .blank hc
  | word hne hplain hends => exact .word hne hplain fun c hc => hends c (hhead c hc)
  | symbol s hlonger => exact .symbol s fun hs hc => hlonger hs (hhead '=' hc)
  | quoted hbody =>
    have hcut : Cut _ (.quoted _ true) front := .quoted hbody
    simpa [Lexeme.text] using hcut
  | unclosed hbody =>
    obtain ⟨rfl, -⟩ := List.append_eq_nil_iff.mp hrest
    have hcut := Cut.unclosed hbody
    simpa [Lexeme.text] using hcut

theorem Cuts.front {front back : List Char} (h : Cuts text ps (front ++ back)) :
    Cuts (ps.flatMap Lexeme.text ++ front) ps front := by
  induction ps generalizing text with
  | nil => exact .nil
  | cons p ps ih =>
    obtain _ | ⟨hcut, hcuts⟩ := h
    rw [hcuts.text_eq, ← List.append_assoc] at hcut
    rw [List.flatMap_cons, List.append_assoc]
    exact .cons hcut.front (ih hcuts)

theorem Cuts.exists_cut (h : Cuts text ps last) (hp : p ∈ ps) :
    ∃ before behind, Cut before p behind := by
  induction h with
  | nil => exact absurd hp List.not_mem_nil
  | cons hcut _ ih =>
    rcases List.mem_cons.mp hp with rfl | hp
    · exact ⟨_, _, hcut⟩
    · exact ih hp

/-- What stands behind a quote is closed by a first quote that is not hidden, or by none. -/
theorem exists_body : ∀ s : List Char,
    OpenBody s ∨ ∃ body rest, Body body ∧ s = body ++ '"' :: rest
  | [] => Or.inl (Or.inl .nil)
  | [c] => by
    by_cases hquote : c = '"'
    · exact Or.inr ⟨[], [], .nil, by rw [hquote]; rfl⟩
    · by_cases hslash : c = '\\'
      · exact Or.inl (Or.inr ⟨[], .nil, by rw [hslash]; rfl⟩)
      · exact Or.inl (Or.inl (.plain hquote hslash .nil))
  | c :: d :: s => by
    by_cases hquote : c = '"'
    · exact Or.inr ⟨[], d :: s, .nil, by rw [hquote]; rfl⟩
    · by_cases hslash : c = '\\'
      · subst hslash
        rcases exists_body s with (hs | ⟨front, hfront, rfl⟩) | ⟨body, rest, hbody, rfl⟩
        · exact Or.inl (Or.inl hs.hidden)
        · exact Or.inl (Or.inr ⟨_, hfront.hidden, rfl⟩)
        · exact Or.inr ⟨_, rest, hbody.hidden, rfl⟩
      · rcases exists_body (d :: s) with (hs | ⟨front, hfront, heq⟩) | ⟨body, rest, hbody, heq⟩
        · exact Or.inl (Or.inl (hs.plain hquote hslash))
        · exact Or.inl (Or.inr ⟨_, hfront.plain hquote hslash, by rw [heq]; rfl⟩)
        · exact Or.inr ⟨_, rest, hbody.plain hquote hslash, by rw [heq]; rfl⟩

theorem exists_cut_word {c : Char} (hc : c ∉ separators) (rest : List Char) :
    ∃ p more, Cut (c :: rest) p more := by
  let inWord : Char → Bool := fun d => d ∉ separators
  have hin : inWord c = true := by simpa [inWord] using hc
  have hcut : Cut ((c :: rest).takeWhile inWord ++ (c :: rest).dropWhile inWord)
      (.word ((c :: rest).takeWhile inWord)) ((c :: rest).dropWhile inWord) := by
    refine .word ?_ ?_ ?_
    · rw [List.takeWhile_cons_of_pos hin]
      exact List.cons_ne_nil _ _
    · intro d hd
      have hd := List.all_eq_true.mp (List.all_takeWhile (l := c :: rest)) d hd
      simpa [inWord] using hd
    · intro d hd
      have hout := List.head?_dropWhile_not inWord (c :: rest)
      rw [hd] at hout
      simpa [inWord] using hout
  rw [List.takeWhile_append_dropWhile] at hcut
  exact ⟨_, _, hcut⟩

theorem exists_cut_mark (s : Symbol) (hs : s ≠ .comparator .lt ∧ s ≠ .comparator .gt)
    (rest : List Char) : ∃ p more, Cut (s.spelling.toList ++ rest) p more :=
  ⟨_, _, .symbol s fun h => (h.elim hs.1 hs.2).elim⟩

theorem exists_cut_operator {c : Char} (hc : c ∈ ['<', '>', '=', '!']) (rest : List Char) :
    Strays c rest ∨ ∃ p more, Cut (c :: rest) p more := by
  simp only [List.mem_cons, List.not_mem_nil, or_false] at hc
  by_cases hequals : rest.head? = some '='
  · obtain ⟨more, rfl⟩ := List.head?_eq_some_iff.mp hequals
    refine Or.inr ?_
    rcases hc with rfl | rfl | rfl | rfl
    · exact exists_cut_mark (.comparator .le) (by decide) more
    · exact exists_cut_mark (.comparator .ge) (by decide) more
    · exact exists_cut_mark (.comparator .eq) (by decide) more
    · exact exists_cut_mark (.comparator .ne) (by decide) more
  · rcases hc with rfl | rfl | hc
    · exact Or.inr ⟨_, rest, .symbol (.comparator .lt) fun _ => hequals⟩
    · exact Or.inr ⟨_, rest, .symbol (.comparator .gt) fun _ => hequals⟩
    · exact Or.inl ⟨hc, hequals⟩

theorem exists_cut_literal (rest : List Char) : ∃ p more, Cut ('"' :: rest) p more := by
  rcases exists_body rest with hopen | ⟨body, more, hbody, rfl⟩
  · exact ⟨_, _, .unclosed hopen⟩
  · exact ⟨_, _, .quoted hbody⟩

/-- A piece begins with every character but for a stray one. -/
theorem exists_cut (c : Char) (rest : List Char) :
    Strays c rest ∨ ∃ p more, Cut (c :: rest) p more := by
  by_cases hc : c ∈ separators
  · by_cases hoperator : c ∈ ['<', '>', '=', '!']
    · exact exists_cut_operator hoperator rest
    · simp only [separators, List.mem_cons, List.not_mem_nil, or_false, not_or] at hc hoperator
      refine Or.inr ?_
      rcases hc with rfl | rfl | hc | hc | hc | hc | rfl | rfl | rfl | rfl | rfl
      · exact ⟨_, _, .blank (Or.inl rfl)⟩
      · exact ⟨_, _, .blank (Or.inr rfl)⟩
      · exact absurd hc hoperator.1
      · exact absurd hc hoperator.2.1
      · exact absurd hc hoperator.2.2.1
      · exact absurd hc hoperator.2.2.2
      · exact exists_cut_mark .pipe (by decide) rest
      · exact exists_cut_mark .opening (by decide) rest
      · exact exists_cut_mark .closing (by decide) rest
      · exact exists_cut_mark .comma (by decide) rest
      · exact exists_cut_literal rest
  · exact Or.inr (exists_cut_word hc rest)

theorem Cut.length_lt (h : Cut text p rest) : rest.length < text.length := by
  cases h with
  | blank => exact Nat.lt_succ_self _
  | word hne =>
    have hpos := List.length_pos_iff.mpr hne
    rw [List.length_append]
    omega
  | symbol s =>
    have hpos : 0 < s.spelling.toList.length := by
      cases s with
      | comparator op => cases op <;> decide
      | pipe | opening | closing | comma => decide
    rw [List.length_append]
    omega
  | quoted =>
    simp only [List.length_cons, List.length_append]
    omega
  | unclosed => exact Nat.succ_pos _

theorem Cut.text_ne_nil (h : Cut text p rest) : p.text ≠ [] := by
  intro hnil
  have htext := h.text_eq
  have hlength := h.length_lt
  rw [htext, hnil, List.nil_append] at hlength
  omega

/-- A text is cut up to its end, or up to a stray character. -/
theorem exists_cuts (text : List Char) :
    (∃ ps, Cuts text ps []) ∨ ∃ ps c rest, Cuts text ps (c :: rest) ∧ Strays c rest := by
  induction hn : text.length using Nat.strong_induction_on generalizing text with
  | _ n ih =>
    cases text with
    | nil => exact Or.inl ⟨[], .nil⟩
    | cons c rest =>
      rcases exists_cut c rest with hstray | ⟨p, more, hcut⟩
      · exact Or.inr ⟨[], c, rest, .nil, hstray⟩
      · rcases ih more.length (hn ▸ hcut.length_lt) more rfl with
          ⟨ps, hps⟩ | ⟨ps, d, last, hps, hstray⟩
        · exact Or.inl ⟨p :: ps, .cons hcut hps⟩
        · exact Or.inr ⟨p :: ps, d, last, .cons hcut hps, hstray⟩

theorem stepWord_plain {c : Char} (h : c ∉ separators) (pending : List Char) :
    stepWord pending c = ([], .word (c :: pending)) := by
  simp only [separators, List.mem_cons, List.not_mem_nil, or_false, not_or] at h
  obtain ⟨hspace, htab, hlt, hgt, heq, hbang, hpipe, hopen, hclose, hcomma, hquote⟩ := h
  simp [stepWord, beginsOperator, mark?, hspace, htab, hlt, hgt, heq, hbang, hpipe, hopen, hclose,
    hcomma, hquote]

/-- A separator ends the word in front of it and counts as if it stood in front. -/
theorem stepWord_separator {c : Char} (h : c ∈ separators) (pending : List Char) :
    stepWord pending c = (flush pending ++ (stepWord [] c).1, (stepWord [] c).2) := by
  simp only [separators, List.mem_cons, List.not_mem_nil, or_false] at h
  rcases h with rfl | rfl | rfl | rfl | rfl | rfl | rfl | rfl | rfl | rfl | rfl <;>
    simp [stepWord, beginsOperator, mark?, flush]

theorem run_cons {mode next : Mode} {pieces : List Lexeme} {offset : Nat} {c : Char}
    (h : step mode offset c = .ok (pieces, next)) (rest : List Char) :
    run mode offset (c :: rest) = (run next (offset + c.utf8Size) rest).map (pieces ++ ·) := by
  rw [run, h]
  rfl

theorem run_cons_nil {mode next : Mode} {offset : Nat} {c : Char}
    (h : step mode offset c = .ok ([], next)) (rest : List Char) :
    run mode offset (c :: rest) = run next (offset + c.utf8Size) rest := by
  rw [run_cons h]
  cases run next (offset + c.utf8Size) rest <;> rfl

theorem run_word {w : List Char} (h : ∀ c ∈ w, c ∉ separators) (pending rest : List Char)
    (offset : Nat) : run (.word pending) offset (w ++ rest) =
      run (.word (w.reverse ++ pending)) (offset + (encode w).length) rest := by
  induction w generalizing pending offset with
  | nil => rfl
  | cons c w ih =>
    have hstep : step (.word pending) offset c = .ok ([], .word (c :: pending)) :=
      congrArg Except.ok (stepWord_plain (h c List.mem_cons_self) pending)
    have hw := ih (fun d hd => h d (List.mem_cons_of_mem c hd)) (c :: pending)
      (offset + c.utf8Size)
    rw [List.cons_append, run_cons_nil hstep, hw, List.reverse_cons, List.append_assoc,
      Text.length_encode_cons, Nat.add_assoc]
    rfl

theorem run_flush {c : Char} (hc : c ∈ separators) (pending : List Char) (offset : Nat) :
    run (.word pending) offset (c :: rest) =
      (run (.word []) offset (c :: rest)).map (flush pending ++ ·) := by
  have hpending : step (.word pending) offset c =
      .ok (flush pending ++ (stepWord [] c).1, (stepWord [] c).2) :=
    congrArg Except.ok (stepWord_separator hc pending)
  have hempty : step (.word []) offset c = .ok ((stepWord [] c).1, (stepWord [] c).2) := rfl
  rw [run_cons hpending, run_cons hempty]
  cases run (stepWord [] c).2 (offset + c.utf8Size) rest <;> simp [Except.map]

/-- At the end of a word nothing of it is left over. -/
theorem run_word_end {pending : List Char} (hne : pending ≠ [])
    (hrest : ∀ c ∈ rest.head?, c ∈ separators) (offset : Nat) :
    run (.word pending) offset rest =
      (run (.word []) offset rest).map (.word pending.reverse :: ·) := by
  have hflush : flush pending = [.word pending.reverse] := if_neg hne
  cases rest with
  | nil =>
    rw [run, run, finish, hflush]
    rfl
  | cons c rest =>
    rw [run_flush (hrest c rfl), hflush]
    rfl

/-- An operator of one character ends where no equals sign follows. -/
theorem run_operator {first : Char} {s : Symbol} (hsingle : single? first = some s)
    (hrest : rest.head? ≠ some '=') (offset : Nat) :
    run (.operator first) offset rest = (run (.word []) offset rest).map (.symbol s :: ·) := by
  cases rest with
  | nil =>
    have hfinish : finish (.operator first) offset = .ok [.symbol s] := by rw [finish, hsingle]
    rw [run, hfinish]
    rfl
  | cons c rest =>
    have hc : c ≠ '=' := fun h => hrest (by rw [h]; rfl)
    have hoperator : step (.operator first) offset c =
        .ok (.symbol s :: (stepWord [] c).1, (stepWord [] c).2) := by
      rw [step, if_neg hc, hsingle]
    have hempty : step (.word []) offset c = .ok ((stepWord [] c).1, (stepWord [] c).2) := rfl
    rw [run_cons hoperator, run_cons hempty]
    cases run (stepWord [] c).2 (offset + c.utf8Size) rest <;> rfl

theorem run_symbol {s : Symbol}
    (hlonger : s = .comparator .lt ∨ s = .comparator .gt → rest.head? ≠ some '=') (offset : Nat) :
    run (.word []) offset (s.spelling.toList ++ rest) =
      (run (.word []) (offset + (encode s.spelling.toList).length) rest).map (.symbol s :: ·) := by
  have hmark : ∀ {c : Char}, step (.word []) offset c = .ok ([.symbol s], .word []) →
      run (.word []) offset (c :: rest) =
        (run (.word []) (offset + c.utf8Size) rest).map (.symbol s :: ·) :=
    fun hstep => run_cons hstep rest
  have hsingle : ∀ {c : Char}, step (.word []) offset c = .ok ([], .operator c) →
      single? c = some s → rest.head? ≠ some '=' →
      run (.word []) offset (c :: rest) =
        (run (.word []) (offset + c.utf8Size) rest).map (.symbol s :: ·) :=
    fun hstep hs hrest => (run_cons_nil hstep rest).trans (run_operator hs hrest _)
  have hdouble : ∀ {c : Char}, step (.word []) offset c = .ok ([], .operator c) → double c = s →
      run (.word []) offset (c :: '=' :: rest) =
        (run (.word []) (offset + c.utf8Size + '='.utf8Size) rest).map (.symbol s :: ·) := by
    rintro c hstep rfl
    have hequals : step (.operator c) (offset + c.utf8Size) '=' =
        .ok ([.symbol (double c)], .word []) := by rw [step, if_pos rfl]
    exact (run_cons_nil hstep _).trans (run_cons hequals rest)
  cases s with
  | comparator op =>
    cases op with
    | lt => exact hsingle rfl rfl (hlonger (Or.inl rfl))
    | gt => exact hsingle rfl rfl (hlonger (Or.inr rfl))
    | le | ge | eq | ne => exact hdouble rfl rfl
  | pipe | opening | closing | comma => exact hmark rfl

theorem run_body {body : List Char} (h : Body body) (before rest : List Char) (offset : Nat) :
    run (.literal before false) offset (body ++ rest) =
      run (.literal (body.reverse ++ before) false) (offset + (encode body).length) rest := by
  induction h generalizing before offset with
  | nil => rfl
  | @plain c s hquote hslash _ ih =>
    have hstep : step (.literal before false) offset c =
        .ok ([], .literal (c :: before) false) := by
      rw [step, if_neg (by simp), if_neg hslash, if_neg hquote]
    rw [List.cons_append, run_cons_nil hstep, ih]
    simp only [List.reverse_cons, List.append_assoc, List.cons_append, List.nil_append,
      Text.length_encode_cons, Nat.add_assoc]
  | @hidden c s _ ih =>
    have hslash : step (.literal before false) offset '\\' =
        .ok ([], .literal ('\\' :: before) true) := rfl
    have hhidden : step (.literal ('\\' :: before) true) (offset + '\\'.utf8Size) c =
        .ok ([], .literal (c :: '\\' :: before) false) := rfl
    rw [List.cons_append, List.cons_append, run_cons_nil hslash, run_cons_nil hhidden, ih]
    simp only [List.reverse_cons, List.append_assoc, List.cons_append, List.nil_append,
      Text.length_encode_cons, Nat.add_assoc]

theorem run_unclosed {body : List Char} (h : OpenBody body) (offset : Nat) :
    run (.literal [] false) offset body = .ok [.quoted body false] := by
  rcases h with hbody | ⟨front, hfront, rfl⟩
  · have hrun := run_body hbody [] [] offset
    rw [List.append_nil, List.append_nil] at hrun
    rw [hrun, run, finish, List.reverse_reverse]
  · have hslash : ∀ offset, step (.literal front.reverse false) offset '\\' =
        .ok ([], .literal ('\\' :: front.reverse) true) := fun _ => rfl
    have hrun := run_body hfront [] ['\\'] offset
    rw [List.append_nil] at hrun
    rw [hrun, run_cons_nil (hslash _), run, finish, List.reverse_cons, List.reverse_reverse]

/-- The automaton cuts off the piece in front. -/
theorem run_cut (h : Cut text p rest) (offset : Nat) :
    run (.word []) offset text =
      (run (.word []) (offset + (encode p.text).length) rest).map (p :: ·) := by
  cases h with
  | @blank c rest hc =>
    have hstep : step (.word []) offset c = .ok ([.blank c], .word []) := by
      rw [step, stepWord, if_pos hc]
      rfl
    have hsize : (encode (Lexeme.blank c).text).length = c.utf8Size := Text.length_encode_cons c []
    rw [run_cons hstep, hsize]
    rfl
  | @word w rest hne hplain hends =>
    have hrun := run_word hplain [] rest offset
    rw [List.append_nil] at hrun
    rw [hrun, run_word_end (by simpa using hne) hends, List.reverse_reverse]
    rfl
  | symbol s hlonger => exact run_symbol hlonger offset
  | @quoted body rest hbody =>
    have hquote : step (.word []) offset '"' = .ok ([], .literal [] false) := rfl
    have hclose : ∀ offset, step (.literal body.reverse false) offset '"' =
        .ok ([.quoted body true], .word []) := by
      intro offset
      rw [step, if_neg (by simp), if_neg (by decide), if_pos rfl, List.reverse_reverse]
    have hsize : (encode (Lexeme.quoted body true).text).length =
        '"'.utf8Size + ((encode body).length + '"'.utf8Size) := by
      have hend : (encode ['"']).length = '"'.utf8Size := Text.length_encode_cons '"' []
      rw [Lexeme.text, if_pos rfl, List.cons_append, Text.length_encode_cons, Text.encode_append,
        List.length_append, hend]
    rw [List.cons_append, run_cons_nil hquote, run_body hbody, List.append_nil,
      run_cons (hclose _), hsize, Nat.add_assoc, Nat.add_assoc]
    rfl
  | unclosed hbody =>
    have hquote : step (.word []) offset '"' = .ok ([], .literal [] false) := rfl
    rw [run_cons_nil hquote, run_unclosed hbody]
    rfl

theorem run_strays {c : Char} (h : Strays c rest) (offset : Nat) :
    run (.word []) offset (c :: rest) = .error (.stray c offset) := by
  obtain ⟨hc, hrest⟩ := h
  have hstep : step (.word []) offset c = .ok ([], .operator c) := by
    rcases hc with rfl | rfl <;> rfl
  have hsize : c.utf8Size = 1 := by
    rcases hc with rfl | rfl <;> rfl
  have hsingle : single? c = none := by
    rcases hc with rfl | rfl <;> rfl
  rw [run_cons_nil hstep, hsize]
  cases rest with
  | nil => rw [run, finish, hsingle, Nat.add_sub_cancel]
  | cons d rest =>
    have hd : d ≠ '=' := fun h => hrest (by rw [h]; rfl)
    rw [run, step, if_neg hd, hsingle, Nat.add_sub_cancel]
    rfl

theorem run_cuts (h : Cuts text ps rest) (offset : Nat) :
    run (.word []) offset text =
      (run (.word []) (offset + (encode (ps.flatMap Lexeme.text)).length) rest).map (ps ++ ·) := by
  induction h generalizing offset with
  | @nil text =>
    show _ = (run (.word []) offset text).map fun more => more
    cases run (.word []) offset text <;> rfl
  | @cons text p rest ps last hcut _ ih =>
    rw [run_cut hcut, ih, List.flatMap_cons, Text.encode_append, List.length_append, Nat.add_assoc]
    cases run (.word []) (offset + ((encode p.text).length +
      (encode (ps.flatMap Lexeme.text)).length)) last <;> rfl

theorem lexemes_cuts (h : Cuts text ps []) : lexemes text = .ok ps := by
  rw [lexemes, run_cuts h, run, finish, flush, if_pos rfl]
  exact congrArg Except.ok (List.append_nil ps)

theorem lexemes_strays {c : Char} (h : Cuts text ps (c :: rest)) (hstray : Strays c rest) :
    lexemes text = .error (.stray c (encode (ps.flatMap Lexeme.text)).length) := by
  rw [lexemes, run_cuts h, run_strays hstray, Nat.zero_add]
  rfl

/-- The automaton succeeds where the text is cut up to its end, with these pieces. -/
theorem lexemes_eq_ok_iff : lexemes text = .ok ps ↔ Cuts text ps [] := by
  refine ⟨fun h => ?_, lexemes_cuts⟩
  rcases exists_cuts text with ⟨qs, hqs⟩ | ⟨qs, c, rest, hqs, hstray⟩
  · obtain rfl := Except.ok.inj (h.symm.trans (lexemes_cuts hqs))
    exact hqs
  · cases h.symm.trans (lexemes_strays hqs hstray)

/-- It fails where the text is cut up to a stray character, and says where that stands. -/
theorem lexemes_eq_error_iff {fault : SyntaxFault} : lexemes text = .error fault ↔
    ∃ ps c rest, Cuts text ps (c :: rest) ∧ Strays c rest ∧
      fault = .stray c (encode (ps.flatMap Lexeme.text)).length := by
  constructor
  · intro h
    rcases exists_cuts text with ⟨qs, hqs⟩ | ⟨qs, c, rest, hqs, hstray⟩
    · cases h.symm.trans (lexemes_cuts hqs)
    · have hfault := Except.error.inj (h.symm.trans (lexemes_strays hqs hstray))
      exact ⟨qs, c, rest, hqs, hstray, hfault⟩
  · rintro ⟨ps, c, rest, hcuts, hstray, rfl⟩
    exact lexemes_strays hcuts hstray

theorem tokens_eq_ok_iff {ts : List Token} :
    tokens text = .ok ts ↔ ∃ ps, Cuts text ps [] ∧ ps.filterMap Lexeme.token? = ts := by
  rw [tokens]
  cases hlexemes : lexemes text with
  | ok ps =>
    have hcuts := lexemes_eq_ok_iff.mp hlexemes
    constructor
    · intro h
      exact ⟨ps, hcuts, Except.ok.inj h⟩
    · rintro ⟨qs, hqs, rfl⟩
      obtain rfl := Except.ok.inj (hlexemes.symm.trans (lexemes_eq_ok_iff.mpr hqs))
      rfl
  | error fault =>
    constructor
    · intro h
      cases h
    · rintro ⟨qs, hqs, -⟩
      cases hlexemes.symm.trans (lexemes_eq_ok_iff.mpr hqs)

theorem tokens_eq_error_iff {fault : SyntaxFault} :
    tokens text = .error fault ↔ lexemes text = .error fault := by
  rw [tokens]
  cases lexemes text with
  | ok ps =>
    constructor
    · intro h
      cases h
    · intro h
      cases h
  | error found =>
    constructor
    · intro h
      exact congrArg Except.error (Except.error.inj h)
    · intro h
      exact congrArg Except.error (Except.error.inj h)

/-- An expression is cut into tokens if pieces make it up to its end: they are the text, and they
spell the tokens one after another, with nothing but spaces and tabs between them. It is refused if
pieces make it up to the first half of an operator without its other half, with the number of bytes
in front of it, which are an expression by themselves. -/
theorem tokens_cut_exactly (text : List Char) :
    (∀ ts, tokens text = .ok ts ↔ ∃ pieces, Cuts text pieces [] ∧
      pieces.flatMap Lexeme.text = text ∧ Lexeme.SpellAll pieces ts) ∧
    ∀ fault, tokens text = .error fault ↔ ∃ pieces before c rest,
      Cuts text pieces (c :: rest) ∧ pieces.flatMap Lexeme.text = before ∧
      text = before ++ c :: rest ∧ (c = '=' ∨ c = '!') ∧ rest.head? ≠ some '=' ∧
      fault = .stray c (encode before).length ∧
      ∃ ts, Lexeme.SpellAll pieces ts ∧ tokens before = .ok ts := by
  constructor
  · intro ts
    rw [tokens_eq_ok_iff]
    constructor
    · rintro ⟨pieces, hcuts, hts⟩
      have htext := hcuts.text_eq
      rw [List.append_nil] at htext
      exact ⟨pieces, hcuts, htext.symm, Lexeme.spellAll_iff.mpr hts⟩
    · rintro ⟨pieces, hcuts, -, hts⟩
      exact ⟨pieces, hcuts, Lexeme.spellAll_iff.mp hts⟩
  · intro fault
    rw [tokens_eq_error_iff, lexemes_eq_error_iff]
    constructor
    · rintro ⟨pieces, c, rest, hcuts, ⟨hc, hrest⟩, hfault⟩
      have hbefore : Cuts (pieces.flatMap Lexeme.text ++ []) pieces [] := hcuts.front
      rw [List.append_nil] at hbefore
      exact ⟨pieces, _, c, rest, hcuts, rfl, hcuts.text_eq, hc, hrest, hfault, _,
        Lexeme.spellAll_iff.mpr rfl, tokens_eq_ok_iff.mpr ⟨pieces, hbefore, rfl⟩⟩
    · rintro ⟨pieces, before, c, rest, hcuts, rfl, -, hc, hrest, hfault, -⟩
      exact ⟨pieces, c, rest, hcuts, ⟨hc, hrest⟩, hfault⟩

-- the first equals sign belongs to the operator, the second one to none
example : tokens "é<==".toList = .error (.stray '=' 4) := by rfl

end Lexer

end Stencil

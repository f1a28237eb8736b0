import Mathlib.Data.List.Basic
import Stencil.Proofs.Expr.Inversion

/-! # Negations next to a comparison

A comparison is refused if negations stand in front of its right operand, or in front of its left
one in odd number. An even number of them in front of the left operand is overlooked.
-/
namespace Stencil

theorem exists_of_append {α : Type} {a b before after : List α} {x : α}
    (h : a ++ b = before ++ x :: after) :
    (∃ m, a = before ++ x :: m ∧ after = m ++ b) ∨ ∃ m, before = a ++ m ∧ b = m ++ x :: after := by
  rcases List.append_eq_append_iff.mp h with ⟨m, hbefore, hb⟩ | ⟨m, ha, hafter⟩
  · exact Or.inr ⟨m, hbefore, hb⟩
  · cases m with
    | nil => exact Or.inr ⟨[], by simpa using ha.symm, hafter.symm⟩
    | cons y m =>
      obtain ⟨rfl, rfl⟩ := List.cons.inj hafter
      exact Or.inl ⟨m, ha, rfl⟩

theorem exists_of_append_left {α : Type} {a b before after : List α} {x : α} (ha : x ∉ a)
    (h : a ++ b = before ++ x :: after) : ∃ m, before = a ++ m ∧ b = m ++ x :: after := by
  rcases exists_of_append h with ⟨m, hm, -⟩ | hm
  · exact absurd (by simp [hm]) ha
  · exact hm

theorem exists_of_append_right {α : Type} {a b before after : List α} {x : α} (hb : x ∉ b)
    (h : a ++ b = before ++ x :: after) : ∃ m, a = before ++ x :: m ∧ after = m ++ b := by
  rcases exists_of_append h with hm | ⟨m, -, hm⟩
  · exact hm
  · exact absurd (by simp [hm]) hb

theorem eq_nil_of_append_replicate {α : Type} {t : α} {front middle : List α} {k m : Nat}
    (hlast : (front ++ middle).getLast? ≠ some t)
    (h : middle ++ List.replicate k t = List.replicate m t) : middle = [] := by
  obtain ⟨-, hmiddle, -⟩ := List.append_eq_replicate_iff.mp h
  cases hlength : middle.length with
  | zero => exact List.length_eq_zero_iff.mp hlength
  | succ n =>
    rw [hlength, List.replicate_succ'] at hmiddle
    exact absurd (by rw [hmiddle, ← List.append_assoc, List.getLast?_concat]) hlast

/-- How many times a token stands at the end of a list is determined. -/
theorem append_replicate_inj {α : Type} {t : α} {front back : List α} {k m : Nat}
    (hfront : front.getLast? ≠ some t) (hback : back.getLast? ≠ some t)
    (h : front ++ List.replicate k t = back ++ List.replicate m t) : front = back ∧ k = m := by
  have heq : front = back := by
    rcases List.append_eq_append_iff.mp h with ⟨middle, rfl, hm⟩ | ⟨middle, rfl, hm⟩
    · rw [eq_nil_of_append_replicate hback hm.symm, List.append_nil]
    · rw [eq_nil_of_append_replicate hfront hm.symm, List.append_nil]
  subst heq
  have hlength := congrArg List.length (List.append_cancel_left h)
  rw [List.length_replicate, List.length_replicate] at hlength
  exact ⟨rfl, hlength⟩

/-- Whether a token can be a part of an operand. -/
def Token.isOfOperand : Token → Bool
  | word _ | text _ | int _ | float _ => true
  | symbol (.comparator _) => false
  | symbol _ => true
  | connective _ | negation => false

theorem Argument.isOfOperand_token (a : Argument) : a.token.isOfOperand = true := by
  cases a with
  | lookup name => rfl
  | constant l => cases l <;> rfl

theorem Argument.mem_intersperse {args : List Argument} {t : Token}
    (h : t ∈ (args.map Argument.token).intersperse (.symbol .comma)) :
    t = .symbol .comma ∨ ∃ a, t = Argument.token a := by
  induction args with
  | nil => cases h
  | cons a args ih =>
    cases args with
    | nil => exact Or.inr ⟨a, List.mem_singleton.mp h⟩
    | cons b args =>
      rcases List.mem_cons.mp h with rfl | h
      · exact Or.inr ⟨a, rfl⟩
      rcases List.mem_cons.mp h with rfl | h
      · exact Or.inl rfl
      · exact ih h

namespace FilterCall.Spells

variable {ts : List Token} {call : FilterCall}

theorem cases_eq (h : call.Spells ts) : ∃ name, ts = [.symbol .pipe, .word name] ∨
    ∃ args : List Argument, ts = .symbol .pipe :: .word name :: .symbol .opening ::
      ((args.map Argument.token).intersperse (.symbol .comma) ++ [.symbol .closing]) := by
  cases h with
  | tokens =>
    obtain ⟨name, args⟩ := call
    by_cases hargs : args = []
    · exact ⟨name, Or.inl (by rw [FilterCall.tokens, if_pos hargs])⟩
    · exact ⟨name, Or.inr ⟨args, by rw [FilterCall.tokens, if_neg hargs]; rfl⟩⟩
  | empty name => exact ⟨name, Or.inr ⟨[], rfl⟩⟩

theorem isOfOperand (h : call.Spells ts) : ∀ t ∈ ts, t.isOfOperand = true := by
  intro t ht
  obtain ⟨name, rfl | ⟨args, rfl⟩⟩ := h.cases_eq
  · simp only [List.mem_cons, List.not_mem_nil, or_false] at ht
    rcases ht with rfl | rfl <;> rfl
  · simp only [List.mem_cons, List.mem_append, List.not_mem_nil, or_false] at ht
    rcases ht with rfl | rfl | rfl | ht | rfl
    · rfl
    · rfl
    · rfl
    · rcases Argument.mem_intersperse ht with rfl | ⟨a, rfl⟩
      · rfl
      · exact a.isOfOperand_token
    · rfl

end FilterCall.Spells

theorem FilterCall.SpellsAll.isOfOperand {ts : List Token} {calls : List FilterCall}
    (h : SpellsAll ts calls) : ∀ t ∈ ts, t.isOfOperand = true := by
  induction h with
  | nil => intro t ht; cases ht
  | cons hcall _ ih =>
    intro t ht
    rcases List.mem_append.mp ht with ht | ht
    · exact hcall.isOfOperand t ht
    · exact ih t ht

theorem Operand.Spells.isOfOperand {ts : List Token} {x : Operand} (h : Spells ts x) :
    ∀ t ∈ ts, t.isOfOperand = true := by
  cases h with
  | @constant l =>
    intro t ht
    obtain rfl := List.mem_singleton.mp ht
    cases l <;> rfl
  | pipeline hp =>
    obtain ⟨name, hcalls⟩ := hp
    intro t ht
    rcases List.mem_cons.mp ht with rfl | ht
    · rfl
    · exact hcalls.isOfOperand t ht

/-- Behind its first token an operand has filters only. -/
theorem Operand.Spells.head?_tail {ts : List Token} {x : Operand} (h : Spells ts x) :
    ∀ t ∈ ts.tail.head?, t = .symbol .pipe := by
  intro t ht
  cases h with
  | constant => cases ht
  | pipeline hp =>
    obtain ⟨name, hcalls⟩ := hp
    cases hcalls with
    | nil => cases ht
    | cons hcall _ =>
      obtain ⟨us, rfl⟩ := hcall.exists_cons
      exact (Option.some.inj ht).symm

theorem FilterCall.Spells.not_spells {ts front back : List Token} {call : FilterCall}
    (h : call.Spells ts) (hts : ts = front ++ .symbol .opening :: back) (rest : List Token)
    (x : Operand) : ¬ x.Spells (back ++ rest) := by
  intro hx
  obtain ⟨name, rfl | ⟨args, rfl⟩⟩ := h.cases_eq
  · have hmem : Token.symbol .opening ∈ [.symbol .pipe, .word name] := by simp [hts]
    simp at hmem
  · have hinner : Token.symbol .opening ∉
        (args.map Argument.token).intersperse (.symbol .comma) ++ [.symbol .closing] := by
      intro hmem
      rcases List.mem_append.mp hmem with hmem | hmem
      · rcases Argument.mem_intersperse hmem with h | ⟨a, h⟩
        · cases h
        · exact a.token_ne_symbol .opening h.symm
      · simp at hmem
    have hname : Token.symbol .opening ∉ [.symbol .pipe, .word name] := by simp
    obtain ⟨-, -, rfl⟩ := (List.append_cons_inj_of_notMem hname hinner).mp hts
    cases args with
    | nil =>
      obtain ⟨t, us, heq, -, hsymbol⟩ := hx.exists_cons
      exact hsymbol .closing (List.cons.inj heq).1.symm
    | cons a args =>
      have htail := hx.head?_tail
      cases args with
      | nil => exact absurd (htail _ rfl) (by simp)
      | cons b args => exact absurd (htail _ rfl) (by simp)

/-- No operand stands behind the parenthesis of a filter and reaches to the end of the filters. -/
theorem FilterCall.SpellsAll.not_spells {ts front back : List Token} {calls : List FilterCall}
    (h : SpellsAll ts calls) (hts : ts = front ++ .symbol .opening :: back) (x : Operand) :
    ¬ x.Spells back := by
  induction h generalizing front with
  | nil => simp at hts
  | cons hcall _ ih =>
    rcases exists_of_append hts with ⟨m, hfront, rfl⟩ | ⟨m, -, hback⟩
    · exact hcall.not_spells hfront _ x
    · exact ih hback

theorem Operand.Spells.not_spells {ts front back : List Token} {x : Operand} (h : x.Spells ts)
    (hts : ts = front ++ .symbol .opening :: back) (y : Operand) : ¬ y.Spells back := by
  cases h with
  | @constant l =>
    have hmem : Token.symbol .opening ∈ [l.token] := by simp [hts]
    cases l <;> simp [Literal.token] at hmem
  | pipeline hp =>
    obtain ⟨name, hcalls⟩ := hp
    cases front with
    | nil => simp at hts
    | cons t front => exact hcalls.not_spells (List.cons.inj hts).2 y

/-- Nothing, or a token that is behind the operands in front of it. -/
def EndsOutside (front : List Token) : Prop :=
  ∀ t ∈ front.getLast?, t = .negation ∨ t = .symbol .opening ∨ ∃ op, t = .connective op

/-- Nothing, or a token that a term can follow. -/
def BeginsTerm (front : List Token) : Prop :=
  ∀ t ∈ front.getLast?, t = .symbol .opening ∨ ∃ op, t = .connective op

theorem BeginsTerm.endsOutside {front : List Token} (h : BeginsTerm front) : EndsOutside front :=
  fun t ht => Or.inr (h t ht)

theorem beginsTerm_nil : BeginsTerm [] := fun _ ht => nomatch ht

theorem BeginsTerm.append {back : List Token} (h : BeginsTerm back) (hne : back ≠ [])
    (front : List Token) : BeginsTerm (front ++ back) := by
  intro t ht
  rw [List.getLast?_append_of_ne_nil front hne] at ht
  exact h t ht

/-- A term can follow a parenthesis or a connective, and where it can behind more tokens. -/
theorem BeginsTerm.cons {t : Token} {back : List Token} (h : BeginsTerm back)
    (ht : t = .symbol .opening ∨ ∃ op, t = .connective op) : BeginsTerm (t :: back) := by
  cases back with
  | nil =>
    intro u hu
    obtain rfl := Option.some.inj hu
    exact ht
  | cons u back => exact h.append (List.cons_ne_nil u back) [t]

theorem endsOutside_negations (front : List Token) {k : Nat} (hk : 0 < k) :
    EndsOutside (front ++ List.replicate k .negation) := by
  cases k with
  | zero => exact absurd hk (Nat.lt_irrefl 0)
  | succ k =>
    intro t ht
    rw [List.replicate_succ', ← List.append_assoc, List.getLast?_concat] at ht
    exact Or.inl (Option.some.inj ht).symm

theorem BeginsTerm.endsOutside_negations {front : List Token} (h : BeginsTerm front) (k : Nat) :
    EndsOutside (front ++ List.replicate k .negation) := by
  rcases Nat.eq_zero_or_pos k with rfl | hk
  · rw [List.replicate_zero, List.append_nil]
    exact h.endsOutside
  · exact Stencil.endsOutside_negations front hk

theorem eq_nil_of_endsOutside {front middle ts us : List Token} {x y : Operand}
    (hts : x.Spells ts) (hus : y.Spells us) (heq : us = middle ++ ts)
    (h : EndsOutside (front ++ middle)) : middle = [] := by
  rcases List.eq_nil_or_concat middle with hnil | ⟨init, t, rfl⟩
  · exact hnil
  · exfalso
    have ht : t = .negation ∨ t = .symbol .opening ∨ ∃ op, t = .connective op :=
      h t (by simp)
    have hof : t.isOfOperand = true := hus.isOfOperand t (by simp [heq])
    rcases ht with rfl | rfl | ⟨op, rfl⟩
    · cases hof
    · exact hus.not_spells (by simpa using heq) x hts
    · cases hof

/-- The last operand of a list of tokens is where it is. -/
theorem eq_of_append_operand {front back ts us : List Token} {x y : Operand} (hts : x.Spells ts)
    (hus : y.Spells us) (hfront : EndsOutside front) (hback : EndsOutside back)
    (h : front ++ ts = back ++ us) : front = back ∧ ts = us := by
  rcases List.append_eq_append_iff.mp h with ⟨m, rfl, rfl⟩ | ⟨m, rfl, rfl⟩
  · obtain rfl := eq_nil_of_endsOutside hus hts rfl hback
    exact ⟨(List.append_nil front).symm, rfl⟩
  · obtain rfl := eq_nil_of_endsOutside hts hus rfl hfront
    exact ⟨List.append_nil back, rfl⟩

/-- A comparator with `before` in front of it and `after` behind it, in tokens of which `P` holds:
`front` ends where the term with the comparison begins. -/
def ComparedAt (P : List Token → Prop) (op : Comparator) (front before after : List Token) :
    Prop :=
  BeginsTerm front ∧
  (∃ (y : Operand) (rs rest : List Token), y.Spells rs ∧ after = rs ++ rest) ∧
  ∃ (j : Nat) (x : Operand) (ls : List Token), x.Spells ls ∧
    before = front ++ (List.replicate (2 * j) .negation ++ ls) ∧
    ∀ i, P (front ++ (List.replicate (2 * i) .negation ++ ls) ++ .symbol (.comparator op) :: after)

theorem ComparedAt.inside {P Q : List Token → Prop} {op : Comparator}
    {front before after : List Token} (h : ComparedAt P op front before after)
    (opened closed : List Token) (hbegins : BeginsTerm (opened ++ front))
    (hPQ : ∀ ts, P ts → Q (opened ++ (ts ++ closed))) :
    ComparedAt Q op (opened ++ front) (opened ++ before) (after ++ closed) := by
  obtain ⟨-, ⟨y, rs, rest, hy, rfl⟩, j, x, ls, hx, rfl, hP⟩ := h
  refine ⟨hbegins, ⟨y, rs, rest ++ closed, hy, List.append_assoc ..⟩, j, x, ls, hx,
    (List.append_assoc ..).symm, ?_⟩
  intro i
  have hQ := hPQ _ (hP i)
  simpa using hQ

theorem Operand.Spells.comparator_notMem {ts : List Token} {x : Operand} (h : x.Spells ts)
    (op : Comparator) : Token.symbol (.comparator op) ∉ ts :=
  fun hmem => nomatch h.isOfOperand _ hmem

theorem comparator_notMem_negations (op : Comparator) (k : Nat) :
    Token.symbol (.comparator op) ∉ List.replicate k .negation :=
  fun hmem => nomatch List.eq_of_mem_replicate hmem

mutual

theorem Term.Spells.comparedAt : ∀ {t : Term} {ts : List Token}, Term.Spells ts t →
    ∀ {op : Comparator} {before after : List Token},
      ts = before ++ .symbol (.comparator op) :: after →
      ∃ front, ComparedAt (Term.Spells · t) op front before after
  | .operand negated x, _, h, op, before, after, hts => by
    cases h with
    | operand k hx =>
      exfalso
      obtain ⟨m, -, hm⟩ := exists_of_append_left (comparator_notMem_negations op k) hts
      exact hx.comparator_notMem op (by simp [hm])
  | .comparison op' left right, _, h, op, before, after, hts => by
    cases h with
    | @comparison j _ ls _ rs _ hleft hright =>
      obtain ⟨_, rfl, hunnegated⟩ :=
        exists_of_append_left (comparator_notMem_negations op _) hts
      obtain ⟨m, rfl, hbehind⟩ := exists_of_append_left (hleft.comparator_notMem op) hunnegated
      cases m with
      | nil =>
        obtain ⟨hop, rfl⟩ := List.cons.inj hbehind
        obtain rfl : op' = op := by simpa using hop
        refine ⟨[], beginsTerm_nil, ⟨right, rs, [], hright, (List.append_nil rs).symm⟩, j, left,
          ls, hleft, by rw [List.append_nil, List.nil_append], ?_⟩
        intro i
        have hspells := Term.Spells.comparison i op' hleft hright
        simpa using hspells
      | cons u m =>
        obtain ⟨-, rfl⟩ := List.cons.inj hbehind
        exact absurd (by simp) (hright.comparator_notMem op)
  | .group negated first more, _, h, op, before, after, hts => by
    cases h with
    | @group k fs _ us _ hfirst hmore =>
      obtain ⟨_, rfl, hgroup⟩ := exists_of_append_left (comparator_notMem_negations op k) hts
      rw [← List.singleton_append] at hgroup
      obtain ⟨_, rfl, hopened⟩ := exists_of_append_left (by simp) hgroup
      obtain ⟨_, hinner, rfl⟩ := exists_of_append_right (by simp) hopened
      rw [← List.append_assoc]
      rcases exists_of_append hinner with ⟨_, hfs, rfl⟩ | ⟨_, rfl, hus⟩
      · obtain ⟨front, hcompared⟩ := hfirst.comparedAt hfs
        have hbegins := hcompared.1.cons (Or.inl rfl)
        refine ⟨List.replicate k .negation ++ [.symbol .opening] ++ front, ?_⟩
        rw [List.append_assoc _ us]
        refine hcompared.inside _ _ ?_ ?_
        · rw [List.append_assoc]
          exact hbegins.append (List.cons_ne_nil _ front) _
        · intro ts hspells
          have hgroup := Term.Spells.group k hspells hmore
          simpa using hgroup
      · obtain ⟨front, hne, hcompared⟩ := hmore.comparedAt hus
        refine ⟨List.replicate k .negation ++ [.symbol .opening] ++ fs ++ front, ?_⟩
        rw [← List.append_assoc]
        refine hcompared.inside _ _ (hcompared.1.append hne _) ?_
        intro ts hspells
        have hgroup := Term.Spells.group k hfirst hspells
        simpa using hgroup

theorem Term.SpellsAfter.comparedAt : ∀ {more : List (Connective × Term)} {ts : List Token},
    Term.SpellsAfter ts more → ∀ {op : Comparator} {before after : List Token},
      ts = before ++ .symbol (.comparator op) :: after →
      ∃ front, front ≠ [] ∧ ComparedAt (Term.SpellsAfter · more) op front before after
  | [], _, h, op, before, after, hts => by
    cases h
    simp at hts
  | (joined, t) :: more, _, h, op, before, after, hts => by
    cases h with
    | @cons _ ts _ us _ ht hmore =>
      rcases exists_of_append hts with ⟨_, hfs, rfl⟩ | ⟨_, rfl, hus⟩
      · rw [← List.singleton_append] at hfs
        obtain ⟨_, rfl, hterm⟩ := exists_of_append_left (by simp) hfs
        obtain ⟨front, hcompared⟩ := ht.comparedAt hterm
        refine ⟨[.connective joined] ++ front, by simp, ?_⟩
        refine hcompared.inside _ _ (hcompared.1.cons (Or.inr ⟨joined, rfl⟩)) ?_
        intro ts hspells
        have hafter := Term.SpellsAfter.cons joined hspells hmore
        simpa using hafter
      · obtain ⟨front, hne, hcompared⟩ := hmore.comparedAt hus
        refine ⟨.connective joined :: ts ++ front, by simp, ?_⟩
        rw [← List.append_nil after]
        refine hcompared.inside _ _ (hcompared.1.append hne _) ?_
        intro us hspells
        rw [List.append_nil]
        exact .cons joined ht hspells

end

theorem Condition.Spells.comparedAt {c : Condition} {op : Comparator} {before after : List Token}
    (h : c.Spells (before ++ .symbol (.comparator op) :: after)) :
    ∃ front, ComparedAt (Condition.Spells · c) op front before after := by
  generalize hts : before ++ .symbol (.comparator op) :: after = ts at h
  obtain @⟨fs, first, us, more, hfirst, hmore⟩ := h
  rcases exists_of_append hts.symm with ⟨_, hfs, rfl⟩ | ⟨_, rfl, hus⟩
  · obtain ⟨front, hcompared⟩ := hfirst.comparedAt hfs
    refine ⟨front, hcompared.inside [] us hcompared.1 ?_⟩
    intro ts hspells
    have hchain := Condition.Spells.chain hspells hmore
    exact hchain
  · obtain ⟨front, hne, hcompared⟩ := hmore.comparedAt hus
    refine ⟨fs ++ front, ?_⟩
    rw [← List.append_nil after]
    refine hcompared.inside _ _ (hcompared.1.append hne fs) ?_
    intro us hspells
    rw [List.append_nil]
    exact .chain hfirst hspells

theorem BeginsTerm.getLast?_ne {front : List Token} (h : BeginsTerm front) :
    front.getLast? ≠ some .negation := by
  intro hlast
  rcases h _ hlast with ht | ⟨op, ht⟩
  · cases ht
  · cases ht

/-- What stands in front of a comparator is cut into its left operand, the negations in front of
that and the tokens in front of these in one way only. -/
theorem ComparedAt.exists_even {P : List Token → Prop} {op : Comparator}
    {front before left after : List Token} {k : Nat} {x : Operand}
    (h : ComparedAt P op front (before ++ (List.replicate k .negation ++ left)) after)
    (hx : x.Spells left) (hends : EndsOutside (before ++ List.replicate k .negation))
    (hlast : before.getLast? ≠ some .negation) :
    BeginsTerm before ∧ k % 2 = 0 ∧ ∀ i, P (before ++
      (List.replicate (2 * i) .negation ++ left) ++ .symbol (.comparator op) :: after) := by
  obtain ⟨hbegins, -, j, y, ls, hy, heq, hP⟩ := h
  rw [← List.append_assoc, ← List.append_assoc] at heq
  obtain ⟨hfront, rfl⟩ :=
    eq_of_append_operand hx hy hends (hbegins.endsOutside_negations (2 * j)) heq
  obtain ⟨rfl, rfl⟩ := append_replicate_inj hlast hbegins.getLast?_ne hfront
  exact ⟨hbegins, Nat.mul_mod_right 2 j, hP⟩

/-- An even number of negations in front of a comparison can stand in the place of any other. -/
theorem Condition.Spells.negations_even {c : Condition} {op : Comparator}
    {before left after : List Token} {m : Nat} {x : Operand}
    (hc : c.Spells (before ++ (List.replicate m .negation ++ left) ++
      .symbol (.comparator op) :: after))
    (hx : x.Spells left) (hbegins : BeginsTerm before) {n : Nat} (hn : n % 2 = 0) :
    c.Spells (before ++ (List.replicate n .negation ++ left) ++
      .symbol (.comparator op) :: after) := by
  obtain ⟨front, hcompared⟩ := hc.comparedAt
  obtain ⟨-, -, hall⟩ :=
    hcompared.exists_even hx (hbegins.endsOutside_negations m) hbegins.getLast?_ne
  obtain ⟨i, rfl⟩ : ∃ i, n = 2 * i := ⟨n / 2, by omega⟩
  exact hall i

/-- No negation follows a comparator. -/
theorem ComparedAt.head?_ne {P : List Token → Prop} {op : Comparator}
    {front before after : List Token} (h : ComparedAt P op front before after) :
    after.head? ≠ some .negation := by
  obtain ⟨-, ⟨y, rs, rest, hy, rfl⟩, -⟩ := h
  obtain ⟨t, us, rfl, ht, -⟩ := hy.exists_cons
  exact fun hhead => ht (Option.some.inj hhead)

namespace Parser

/-- The tokens, and all texts that are cut into them, are refused with a syntax error. -/
def Refuses (ts : List Token) : Prop :=
  ∃ fault : SyntaxFault, fault.error.kind = .syntaxError ∧ conditionOfTokens ts = .error fault ∧
    ∀ text, Lexer.tokens text = .ok ts → Condition.ofText text = .error fault

theorem refuses_of_not_spells {ts : List Token} (h : ∀ c : Condition, ¬ c.Spells ts) :
    Refuses ts := by
  cases hread : conditionOfTokens ts with
  | ok c => exact absurd (conditionOfTokens_eq_ok_iff.mp hread).1 (h c)
  | error fault =>
    refine ⟨fault, rfl, hread, ?_⟩
    intro text htext
    rw [Condition.ofText_of_tokens htext, hread]

/-- Tokens with negations directly in front of the right operand of a comparator are refused. So
are those with negations in front of its left operand if their number is odd, or if no term can
begin in front of them; in even number they change nothing. -/
theorem negated_comparison_refused (before after : List Token) (op : Comparator) (k : Nat) :
    (0 < k → Refuses (before ++
      .symbol (.comparator op) :: (List.replicate k .negation ++ after))) ∧
    ∀ (left : List Token) (x : Operand), x.Spells left → before.getLast? ≠ some .negation →
      (0 < k → k % 2 = 1 ∨ ¬ BeginsTerm before → Refuses (before ++
        (List.replicate k .negation ++ left) ++ .symbol (.comparator op) :: after)) ∧
      (BeginsTerm before → k % 2 = 0 → ∀ c,
        conditionOfTokens (before ++ (List.replicate k .negation ++ left) ++
            .symbol (.comparator op) :: after) = .ok c ↔
          c.Spells (before ++ left ++ .symbol (.comparator op) :: after) ∧
            c.depth ≤ maxDepth) := by
  refine ⟨?_, ?_⟩
  · intro hk
    refine refuses_of_not_spells ?_
    intro c hc
    obtain ⟨front, hcompared⟩ := hc.comparedAt
    obtain ⟨k, rfl⟩ := Nat.exists_eq_add_of_lt hk
    exact hcompared.head?_ne (by rw [Nat.zero_add, List.replicate_succ]; rfl)
  · intro left x hx hlast
    refine ⟨?_, ?_⟩
    · intro hk hodd
      refine refuses_of_not_spells ?_
      intro c hc
      obtain ⟨front, hcompared⟩ := hc.comparedAt
      obtain ⟨hbegins, heven, -⟩ :=
        hcompared.exists_even hx (endsOutside_negations before hk) hlast
      rcases hodd with hodd | hodd
      · omega
      · exact hodd hbegins
    · intro hbegins heven c
      rw [conditionOfTokens_eq_ok_iff]
      refine and_congr_left' ⟨?_, ?_⟩
      · exact fun hc => hc.negations_even hx hbegins (n := 0) rfl
      · exact fun hc => Condition.Spells.negations_even (m := 0) hc hx hbegins heven

/-- Inside of a group, behind other terms. -/
theorem negated_comparison_refused_nested :
    let before : List Token := [.word "x", .connective .and, .symbol .opening]
    let left : List Token := [.word "a", .symbol .pipe, .word "f"]
    let after : List Token := [.word "b", .symbol .closing]
    Refuses (before ++ left ++ .symbol (.comparator .eq) :: .negation :: .negation :: after) ∧
      Refuses (before ++ .negation :: left ++ .symbol (.comparator .eq) :: after) ∧
      ∃ c, conditionOfTokens (before ++ .negation :: .negation :: left ++
        .symbol (.comparator .eq) :: after) = .ok c := by
  intro before left after
  have hleft : Operand.Spells left (.pipeline ⟨"a", [⟨"f", []⟩]⟩) :=
    .pipeline (.named "a" (.cons (@FilterCall.Spells.tokens ⟨"f", []⟩ rfl) .nil))
  have hlast : before.getLast? ≠ some .negation := by decide
  have hbegins : BeginsTerm before := fun t ht => Or.inl (Option.some.inj ht).symm
  refine ⟨?_, ?_, ?_⟩
  · exact (negated_comparison_refused (before ++ left) after .eq 2).1 (by decide)
  · exact ((negated_comparison_refused before after .eq 1).2 left _ hleft hlast).1 (by decide)
      (Or.inl rfl)
  · exact ⟨_, (((negated_comparison_refused before after .eq 2).2 left _ hleft hlast).2 hbegins
      rfl _).mpr (conditionOfTokens_eq_ok_iff.mp rfl)⟩

/-- Two negations are accepted on the left and refused on the right. -/
theorem negated_twice_on_left :
    Condition.ofText "not not a == b".toList =
        .ok ⟨.comparison .eq (.pipeline ⟨"a", []⟩) (.pipeline ⟨"b", []⟩), []⟩ ∧
      Condition.ofText "a == not not b".toList = .error .negatedComparison :=
  ⟨rfl, rfl⟩

end Parser

end Stencil

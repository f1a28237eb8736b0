import Mathlib.Data.Nat.Init
import Stencil.Proofs.Expr.Reading

/-! # What is read was spelled

Whatever a reader takes from the front of the tokens spells what it gives for them. So the readers
accept the tokens that spell an expression and no others.
-/
namespace Stencil

/-- From `x >>= f` that succeeds, both parts. -/
theorem exists_of_bind_ok {ε α β : Type} {x : Except ε α} {f : α → Except ε β} {b : β}
    (h : (x >>= f) = .ok b) : ∃ a, x = .ok a ∧ f a = .ok b := by
  cases x with
  | error e => cases h
  | ok a => exact ⟨a, rfl, h⟩

theorem Term.Spells.operand_inv {ts : List Token} {negated : Bool} {x : Operand}
    (h : Term.Spells ts (.operand negated x)) :
    ∃ k us, ts = List.replicate k .negation ++ us ∧ x.Spells us ∧ (k % 2 == 1) = negated := by
  cases h with
  | operand k hx => exact ⟨k, _, rfl, hx, rfl⟩

namespace Parser

theorem negations_inv (negated : Bool) (ts : List Token) :
    ∃ k, ts = List.replicate k .negation ++ (negations negated ts).2 ∧
      (negations negated ts).1 = (negated ^^ (k % 2 == 1)) := by
  fun_induction negations negated ts with
  | case1 negated rest ih =>
    obtain ⟨k, hts, hnegated⟩ := ih
    refine ⟨k + 1, ?_, ?_⟩
    · rw [List.replicate_succ, List.cons_append, ← hts]
    · rw [hnegated, parity_succ]
      cases negated <;> simp
  | case2 negated rest _ => exact ⟨0, rfl, by simp⟩

theorem argument_inv {t : Token} {a : Argument} (h : argument t = .ok a) :
    a.isSpellable = true ∧ a.token = t := by
  cases t with
  | word | text | int | float =>
    rw [← Except.ok.inj h]
    exact ⟨rfl, rfl⟩
  | symbol | connective | negation => cases h

/-- The arguments that are read, up to the closing parenthesis, and the filters behind it. -/
theorem arguments_inv (name : String) : ∀ (ts : List Token) (given : List Argument)
    (calls : List FilterCall) (rest : List Token), arguments name given ts = .ok (calls, rest) →
    ∃ args more tail, args ≠ [] ∧ args.all Argument.isSpellable = true ∧
      calls = ⟨name, given ++ args⟩ :: tail ∧ filters more = .ok (tail, rest) ∧
      ts = (args.map Argument.token).intersperse (.symbol .comma) ++ .symbol .closing :: more
  | [], _, _, _, h => by cases h
  | t :: ts, given, calls, rest, h => by
    rw [arguments] at h
    obtain ⟨a, ha, hbehind⟩ := exists_of_bind_ok h
    obtain ⟨hspell, hta⟩ := argument_inv ha
    split at hbehind
    · rename_i more
      obtain ⟨args, behind, tail, hne, hall, rfl, hfilters, rfl⟩ :=
        arguments_inv name more (given ++ [a]) calls rest hbehind
      refine ⟨a :: args, behind, tail, List.cons_ne_nil a args, ?_, ?_, hfilters, ?_⟩
      · rw [List.all_cons, hspell, hall]
        rfl
      · rw [List.append_assoc]
        rfl
      · obtain ⟨b, args, rfl⟩ := List.exists_cons_of_ne_nil hne
        rw [← hta]
        rfl
    · rename_i more
      obtain ⟨⟨tail, behind⟩, hfilters, hdone⟩ := exists_of_bind_ok hbehind
      obtain ⟨rfl, rfl⟩ := Prod.mk.inj (Except.ok.inj hdone)
      refine ⟨[a], more, tail, List.cons_ne_nil a [], ?_, rfl, hfilters, ?_⟩
      · rw [List.all_cons, hspell]
        rfl
      · rw [← hta]
        rfl
    · cases hbehind
    · cases hbehind
termination_by ts => ts.length

/-- A filter in front, and the filters behind it. -/
theorem filters_cases {ts rest : List Token} {calls : List FilterCall}
    (h : filters ts = .ok (calls, rest)) :
    (calls = [] ∧ rest = ts) ∨
    ∃ call front more tail, calls = call :: tail ∧ call.Spells front ∧ ts = front ++ more ∧
      filters more = .ok (tail, rest) := by
  unfold filters at h
  split at h
  · rename_i name more
    obtain ⟨⟨tail, behind⟩, hfilters, h⟩ := exists_of_bind_ok h
    obtain ⟨rfl, rfl⟩ := Prod.mk.inj (Except.ok.inj h)
    exact Or.inr ⟨⟨name, []⟩, _, more, tail, rfl, .empty name, rfl, hfilters⟩
  · rename_i name more _
    obtain ⟨args, behind, tail, hne, hall, rfl, hfilters, rfl⟩ :=
      arguments_inv name more [] calls rest h
    refine Or.inr ⟨⟨name, args⟩, _, behind, tail, rfl, .tokens hall, ?_, hfilters⟩
    rw [FilterCall.tokens, if_neg hne]
    simp
  · rename_i name more _ _
    obtain ⟨⟨tail, behind⟩, hfilters, h⟩ := exists_of_bind_ok h
    obtain ⟨rfl, rfl⟩ := Prod.mk.inj (Except.ok.inj h)
    exact Or.inr ⟨⟨name, []⟩, _, more, tail, rfl, .tokens rfl, rfl, hfilters⟩
  · cases h
  · obtain ⟨rfl, rfl⟩ := Prod.mk.inj (Except.ok.inj h)
    exact Or.inl ⟨rfl, rfl⟩

theorem filters_inv {ts rest : List Token} {calls : List FilterCall}
    (h : filters ts = .ok (calls, rest)) :
    ∃ front, FilterCall.SpellsAll front calls ∧ ts = front ++ rest := by
  induction hn : ts.length using Nat.strong_induction_on generalizing ts calls with
  | _ n ih =>
    rcases filters_cases h with ⟨rfl, rfl⟩ | ⟨call, front, more, tail, rfl, hcall, rfl, hmore⟩
    · exact ⟨[], .nil, rfl⟩
    · have hlength : more.length < n := by
        obtain ⟨us, rfl⟩ := hcall.exists_cons
        simp only [List.length_append, List.length_cons] at hn
        omega
      obtain ⟨behind, hbehind, rfl⟩ := ih more.length hlength hmore rfl
      exact ⟨front ++ behind, .cons hcall hbehind, (List.append_assoc ..).symm⟩

theorem pipeline_inv {ts rest : List Token} {p : Pipeline} (h : pipeline ts = .ok (p, rest)) :
    ∃ front, p.Spells front ∧ ts = front ++ rest := by
  unfold pipeline at h
  split at h
  · rename_i name more
    obtain ⟨⟨calls, behind⟩, hfilters, h⟩ := exists_of_bind_ok h
    obtain ⟨rfl, rfl⟩ := Prod.mk.inj (Except.ok.inj h)
    obtain ⟨front, hcalls, rfl⟩ := filters_inv hfilters
    exact ⟨.word name :: front, .named name hcalls, rfl⟩
  · cases h
  · cases h

theorem operand_inv {ts rest : List Token} {x : Operand} (h : operand ts = .ok (x, rest)) :
    ∃ front, x.Spells front ∧ ts = front ++ rest := by
  unfold operand at h
  split at h
  · obtain ⟨rfl, rfl⟩ := Prod.mk.inj (Except.ok.inj h)
    exact ⟨_, .constant rfl, rfl⟩
  · obtain ⟨rfl, rfl⟩ := Prod.mk.inj (Except.ok.inj h)
    exact ⟨_, .constant rfl, rfl⟩
  · obtain ⟨rfl, rfl⟩ := Prod.mk.inj (Except.ok.inj h)
    exact ⟨_, .constant rfl, rfl⟩
  · obtain ⟨⟨p, behind⟩, hp, h⟩ := exists_of_bind_ok h
    obtain ⟨rfl, rfl⟩ := Prod.mk.inj (Except.ok.inj h)
    obtain ⟨front, hfront, hts⟩ := pipeline_inv hp
    exact ⟨front, .pipeline hfront, hts⟩
  · cases h
  · cases h

/-- What a reader of groups gives: conditions that the tokens it took spell, and whose groups nest
less deeply than a bound. -/
def ReadsGroups (group : List Token → Except SyntaxFault (Condition × List Token))
    (bound : Nat) : Prop :=
  ∀ ts c rest, group ts = .ok (c, rest) →
    ∃ front, c.Spells front ∧ c.depth < bound ∧ ts = front ++ rest

variable {group : List Token → Except SyntaxFault (Condition × List Token)} {bound : Nat}

theorem unary_inv (hgroup : ReadsGroups group bound) {ts rest : List Token} {u : Unary}
    (h : unary group ts = .ok (u, rest)) :
    ∃ front, Term.Spells front u.term ∧ u.term.depth ≤ bound ∧ ts = front ++ rest := by
  obtain ⟨k, hts, hnegated⟩ := negations_inv false ts
  rw [unary] at h
  split at h
  · rename_i negated more hmore
    rw [hmore] at hts hnegated
    rw [Bool.false_xor] at hnegated
    obtain ⟨⟨c, behind⟩, hc, hclosing⟩ := exists_of_bind_ok h
    obtain ⟨front, ⟨hfirst, hafter⟩, hdepth, hmore⟩ := hgroup more c behind hc
    dsimp only at hclosing hts hnegated
    split at hclosing
    · rename_i behind
      obtain ⟨rfl, rfl⟩ := Prod.mk.inj (Except.ok.inj hclosing)
      refine ⟨_, hnegated ▸ Term.Spells.group k hfirst hafter, hdepth, ?_⟩
      rw [hts, hmore]
      simp
    · cases hclosing
  · rename_i negated more _ hmore
    rw [hmore] at hts hnegated
    rw [Bool.false_xor] at hnegated
    obtain ⟨⟨x, behind⟩, hx, hdone⟩ := exists_of_bind_ok h
    obtain ⟨rfl, rfl⟩ := Prod.mk.inj (Except.ok.inj hdone)
    obtain ⟨front, hfront, hmore⟩ := operand_inv hx
    dsimp only at hts hnegated
    refine ⟨_, hnegated ▸ Term.Spells.operand k hfront, Nat.zero_le bound, ?_⟩
    rw [hts, hmore, List.append_assoc]

theorem comparable_inv {u : Unary} {x : Operand} (h : comparable u = .ok x) :
    u = .operand false x := by
  unfold comparable at h
  split at h
  · rw [Except.ok.inj h]
  · cases h
  · cases h

theorem term_inv (hgroup : ReadsGroups group bound) {ts rest : List Token} {t : Term}
    (h : term group ts = .ok (t, rest)) :
    ∃ front, Term.Spells front t ∧ t.depth ≤ bound ∧ ts = front ++ rest := by
  unfold term at h
  obtain ⟨⟨left, more⟩, hleft, hterm⟩ := exists_of_bind_ok h
  obtain ⟨front, hfront, hdepth, rfl⟩ := unary_inv hgroup hleft
  dsimp only at hterm
  split at hterm
  · rename_i op more
    obtain ⟨x, hx, hcompared⟩ := exists_of_bind_ok hterm
    obtain rfl := comparable_inv hx
    obtain ⟨k, ls, rfl, hls, heven⟩ := hfront.operand_inv
    split at hcompared
    · cases hcompared
    · rename_i hunnegated
      obtain ⟨⟨right, behind⟩, hright, hpair⟩ := exists_of_bind_ok hcompared
      obtain ⟨back, hback, -, rfl⟩ := unary_inv hgroup hright
      obtain ⟨y, hy, hresult⟩ := exists_of_bind_ok hpair
      obtain rfl := comparable_inv hy
      obtain ⟨rfl, rfl⟩ := Prod.mk.inj (Except.ok.inj hresult)
      obtain ⟨j, rs, rfl, hrs, -⟩ := hback.operand_inv
      obtain rfl : j = 0 := by
        cases j with
        | zero => rfl
        | succ j => exact absurd rfl (hunnegated _)
      obtain ⟨i, rfl⟩ : ∃ i, k = 2 * i := ⟨k / 2, by simp at heven; omega⟩
      refine ⟨_, .comparison i op hls hrs, Nat.zero_le bound, ?_⟩
      simp
  · cases left with
    | operand negated x =>
      obtain ⟨rfl, rfl⟩ := Prod.mk.inj (Except.ok.inj hterm)
      exact ⟨front, hfront, hdepth, rfl⟩
    | group negated c =>
      obtain ⟨rfl, rfl⟩ := Prod.mk.inj (Except.ok.inj hterm)
      exact ⟨front, hfront, hdepth, rfl⟩

theorem continuation_inv (hgroup : ReadsGroups group bound) {fuel : Nat} {ts rest : List Token}
    {more : List (Connective × Term)}
    (h : continuation (term group) fuel ts = .ok (more, rest)) :
    ∃ front, Term.SpellsAfter front more ∧ Term.depthAfter more ≤ bound ∧ ts = front ++ rest := by
  fun_induction continuation (term group) fuel ts generalizing more with
  | case1 fuel op ts ih =>
    obtain ⟨⟨t, behind⟩, ht, hmore⟩ := exists_of_bind_ok h
    obtain ⟨⟨terms, last⟩, hterms, hdone⟩ := exists_of_bind_ok hmore
    obtain ⟨rfl, rfl⟩ := Prod.mk.inj (Except.ok.inj hdone)
    obtain ⟨front, hfront, hdepth, hts⟩ := term_inv hgroup ht
    obtain ⟨back, hback, hdepths, hbehind⟩ := ih behind hterms
    refine ⟨_, .cons op hfront hback, Nat.max_le.mpr ⟨hdepth, hdepths⟩, ?_⟩
    rw [hts, hbehind]
    simp
  | case2 fuel ts =>
    obtain ⟨rfl, rfl⟩ := Prod.mk.inj (Except.ok.inj h)
    exact ⟨[], .nil, Nat.zero_le bound, rfl⟩

theorem chain_inv (hgroup : ReadsGroups group bound) {ts rest : List Token} {c : Condition}
    (h : chain (term group) ts = .ok (c, rest)) :
    ∃ front, c.Spells front ∧ c.depth ≤ bound ∧ ts = front ++ rest := by
  unfold chain at h
  obtain ⟨⟨first, behind⟩, hfirst, hafter⟩ := exists_of_bind_ok h
  obtain ⟨⟨more, last⟩, hmore, hdone⟩ := exists_of_bind_ok hafter
  obtain ⟨rfl, rfl⟩ := Prod.mk.inj (Except.ok.inj hdone)
  obtain ⟨front, hfront, hdepth, hts⟩ := term_inv hgroup hfirst
  obtain ⟨back, hback, hdepths, hbehind⟩ := continuation_inv hgroup hmore
  refine ⟨_, .chain hfront hback, Nat.max_le.mpr ⟨hdepth, hdepths⟩, ?_⟩
  rw [hts, hbehind, List.append_assoc]

/-- Reading is sound at every depth: inside of a group one level less is left. -/
theorem readsGroups_conditionWithin (bound : Nat) : ReadsGroups (conditionWithin bound) bound := by
  induction bound with
  | zero =>
    intro ts c rest h
    cases h
  | succ bound ih =>
    intro ts c rest h
    obtain ⟨front, hfront, hdepth, hts⟩ := chain_inv ih h
    exact ⟨front, hfront, Nat.lt_succ_of_le hdepth, hts⟩

theorem finish_inv {α : Type} {expected : Expectation} {a b : α} {rest : List Token}
    (h : finish expected (a, rest) = .ok b) : a = b ∧ rest = [] := by
  unfold finish at h
  split at h
  · rename_i heq
    obtain ⟨rfl, rfl⟩ := Prod.mk.inj heq
    exact ⟨Except.ok.inj h, rfl⟩
  · cases h
  · cases h

/-- The tokens that spell a condition are read as that condition, and no others, if its groups do
not nest too deeply. -/
theorem conditionOfTokens_eq_ok_iff {ts : List Token} {c : Condition} :
    conditionOfTokens ts = .ok c ↔ c.Spells ts ∧ c.depth ≤ maxDepth := by
  constructor
  · intro h
    obtain ⟨⟨d, rest⟩, hread, h⟩ := exists_of_bind_ok h
    obtain ⟨rfl, rfl⟩ := finish_inv h
    obtain ⟨front, hfront, hdepth, rfl⟩ := readsGroups_conditionWithin (maxDepth + 1) ts d [] hread
    rw [List.append_nil]
    exact ⟨hfront, Nat.le_of_lt_succ hdepth⟩
  · rintro ⟨hspells, hdepth⟩
    exact (conditionOfTokens_of_spells hspells).trans (if_pos hdepth)

theorem spells_of_pipelineOfTokens {ts : List Token} {p : Pipeline}
    (h : pipelineOfTokens ts = .ok p) : p.Spells ts := by
  obtain ⟨⟨q, rest⟩, hread, h⟩ := exists_of_bind_ok h
  obtain ⟨rfl, rfl⟩ := finish_inv h
  obtain ⟨front, hfront, rfl⟩ := pipeline_inv hread
  rwa [List.append_nil]

end Parser

end Stencil

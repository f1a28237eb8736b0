import Stencil.Proofs.Expr.Inversion

/-! # What tokens are read as

Two negations in a row say nothing, and neither does an empty list of arguments. But for these,
whatever is read is exactly what was written: the tokens of the expression, in their order.
-/
namespace Stencil

/-- Tokens without two negations in a row and without empty parentheses. -/
def Token.condense : List Token → List Token
  | .negation :: .negation :: rest => condense rest
  | .symbol .opening :: .symbol .closing :: rest => condense rest
  | t :: rest => t :: condense rest
  | [] => []

namespace Token

theorem condense_cons {t : Token} {rest : List Token}
    (hneg : t = .negation → rest.head? ≠ some .negation)
    (hopen : t = .symbol .opening → rest.head? ≠ some (.symbol .closing)) :
    condense (t :: rest) = t :: condense rest := by
  rw [condense]
  · rintro more rfl rfl
    exact hneg rfl rfl
  · rintro more rfl rfl
    exact hopen rfl rfl

theorem condense_plain {t : Token} (hneg : t ≠ .negation) (hopen : t ≠ .symbol .opening)
    (rest : List Token) : condense (t :: rest) = t :: condense rest :=
  condense_cons (fun h => absurd h hneg) (fun h => absurd h hopen)

/-- Of negations in a row at most one is left. -/
theorem condense_replicate (t : Token) (ht : t ≠ .negation) (ts : List Token) : ∀ k,
    condense (List.replicate k .negation ++ t :: ts) =
      negationTokens (k % 2 == 1) ++ condense (t :: ts)
  | 0 => rfl
  | 1 => condense_cons (fun _ hhead => ht (Option.some.inj hhead)) (fun h => by cases h)
  | k + 2 => by
    have hparity : ((k + 2) % 2 == 1) = (k % 2 == 1) := by rw [Nat.add_mod_right]
    rw [hparity, ← condense_replicate t ht ts k]
    exact condense.eq_1 _

theorem condense_arguments (args : List Argument) (rest : List Token) :
    condense ((args.map Argument.token).intersperse (.symbol .comma) ++
      .symbol .closing :: rest) = (args.map Argument.token).intersperse (.symbol .comma) ++
        .symbol .closing :: condense rest := by
  have hplain (a : Argument) (ts : List Token) :
      condense (a.token :: ts) = a.token :: condense ts := by
    refine condense_plain ?_ (a.token_ne_symbol .opening) ts
    cases a with
    | lookup name => simp [Argument.token]
    | constant l => cases l <;> simp [Argument.token, Literal.token]
  induction args with
  | nil => exact condense_plain (by simp) (by simp) rest
  | cons a args ih =>
    cases args with
    | nil => exact (hplain a _).trans (congrArg _ (condense_plain (by simp) (by simp) rest))
    | cons b args =>
      rw [List.map_cons, List.map_cons, List.intersperse_cons_cons, ← List.map_cons,
        List.cons_append, List.cons_append, hplain, condense_plain (by simp) (by simp), ih]
      rfl

end Token

open Token

theorem FilterCall.Spells.condense {ts : List Token} {call : FilterCall} (h : call.Spells ts)
    (rest : List Token) :
    call.isSpellable = true ∧ Token.condense (ts ++ rest) = call.tokens ++ Token.condense rest := by
  cases h with
  | tokens hcall =>
    refine ⟨hcall, ?_⟩
    obtain ⟨name, args⟩ := call
    unfold FilterCall.tokens
    cases args with
    | nil =>
      exact (condense_plain (by simp) (by simp) _).trans
        (congrArg _ (condense_plain (by simp) (by simp) rest))
    | cons a args =>
      have hhead : ((((a :: args).map Argument.token).intersperse (.symbol .comma)) ++
          .symbol .closing :: rest).head? ≠ some (.symbol .closing) := by
        cases args <;> simpa using a.token_ne_symbol .closing
      rw [if_neg (List.cons_ne_nil a args)]
      simp only [List.cons_append, List.append_assoc, List.nil_append]
      rw [condense_plain (by simp) (by simp), condense_plain (by simp) (by simp),
        condense_cons (by simp) (fun _ => hhead), condense_arguments]
  | empty name =>
    refine ⟨rfl, ?_⟩
    show Token.condense (.symbol .pipe :: .word name :: .symbol .opening :: .symbol .closing ::
      rest) = _
    rw [condense_plain (by simp) (by simp), condense_plain (by simp) (by simp), Token.condense]
    rfl

theorem FilterCall.SpellsAll.condense {ts : List Token} {calls : List FilterCall}
    (h : FilterCall.SpellsAll ts calls) (rest : List Token) :
    calls.all FilterCall.isSpellable = true ∧
      Token.condense (ts ++ rest) = calls.flatMap FilterCall.tokens ++ Token.condense rest := by
  induction h with
  | nil => exact ⟨rfl, rfl⟩
  | @cons ts call us calls hcall _ ih =>
    obtain ⟨hspell, heq⟩ := hcall.condense (us ++ rest)
    refine ⟨?_, ?_⟩
    · rw [List.all_cons, hspell, ih.1]
      rfl
    · rw [List.append_assoc, heq, ih.2, List.flatMap_cons, List.append_assoc]

theorem Pipeline.Spells.condense {ts : List Token} {p : Pipeline} (h : p.Spells ts)
    (rest : List Token) :
    p.isSpellable = true ∧ Token.condense (ts ++ rest) = p.tokens ++ Token.condense rest := by
  obtain ⟨name, hcalls⟩ := h
  obtain ⟨hspell, heq⟩ := hcalls.condense rest
  refine ⟨hspell, ?_⟩
  rw [List.cons_append, condense_plain (by simp) (by simp), heq]
  rfl

theorem Operand.Spells.condense {ts : List Token} {x : Operand} (h : x.Spells ts)
    (rest : List Token) :
    x.isSpellable = true ∧ Token.condense (ts ++ rest) = x.tokens ++ Token.condense rest := by
  cases h with
  | pipeline hp => exact hp.condense rest
  | @constant l hl =>
    cases l with
    | bool b => cases hl
    | text | int | float => exact ⟨rfl, condense_plain (by simp [Literal.token])
        (by simp [Literal.token]) rest⟩

mutual

theorem Term.Spells.condense : ∀ {t : Term} {ts : List Token}, Term.Spells ts t →
    ∀ rest, t.isSpellable = true ∧
      Token.condense (ts ++ rest) = t.tokens ++ Token.condense rest
  | .operand negated x, ts, h, rest => by
    cases h with
    | operand k hx =>
      obtain ⟨hspell, heq⟩ := hx.condense rest
      obtain ⟨u, us, rfl, hneg, -⟩ := hx.exists_cons
      rw [List.cons_append] at heq
      refine ⟨hspell, ?_⟩
      rw [List.append_assoc, List.cons_append, condense_replicate u hneg, heq, Term.tokens,
        List.append_assoc]
  | .comparison op left right, ts, h, rest => by
    cases h with
    | @comparison k _ ls _ rs _ hleft hright =>
      obtain ⟨hspell, heq⟩ := hleft.condense (.symbol (.comparator op) :: (rs ++ rest))
      obtain ⟨hspellr, heqr⟩ := hright.condense rest
      have heven : (2 * k % 2 == 1) = false := by simp
      obtain ⟨u, us, rfl, hneg, -⟩ := hleft.exists_cons
      rw [List.cons_append] at heq
      refine ⟨?_, ?_⟩
      · rw [isSpellable, hspell, hspellr]
        rfl
      · rw [List.append_assoc, List.append_assoc, List.cons_append, List.cons_append,
          condense_replicate u hneg, heven, heq, condense_plain (by simp) (by simp), heqr]
        simp [Term.tokens, negationTokens]
  | .group negated first more, ts, h, rest => by
    cases h with
    | @group k fs _ us _ hfirst hmore =>
      obtain ⟨hspell, heq⟩ := hfirst.condense (us ++ .symbol .closing :: rest)
      obtain ⟨hspells, heqs⟩ := hmore.condense (.symbol .closing :: rest)
      have hhead : (fs ++ (us ++ .symbol .closing :: rest)).head? ≠ some (.symbol .closing) := by
        obtain ⟨v, vs, rfl, hclosing⟩ := hfirst.exists_cons
        simpa using hclosing
      refine ⟨?_, ?_⟩
      · rw [isSpellable, hspell, hspells]
        rfl
      · rw [List.append_assoc, List.cons_append, List.append_assoc, List.append_assoc,
          List.singleton_append, condense_replicate _ (by simp),
          condense_cons (by simp) (fun _ => hhead), heq, heqs,
          condense_plain (by simp) (by simp), Term.tokens]
        simp

theorem Term.SpellsAfter.condense : ∀ {more : List (Connective × Term)} {ts : List Token},
    Term.SpellsAfter ts more → ∀ rest, Term.allSpellable more = true ∧
      Token.condense (ts ++ rest) = Term.tokensAfter more ++ Token.condense rest
  | [], _, .nil, _ => ⟨rfl, rfl⟩
  | _ :: _, _, h, rest => by
    cases h with
    | @cons op ts t us more ht hmore =>
      obtain ⟨hspell, heq⟩ := ht.condense (us ++ rest)
      obtain ⟨hspells, heqs⟩ := hmore.condense rest
      refine ⟨?_, ?_⟩
      · rw [Term.allSpellable, hspell, hspells]
        rfl
      · rw [List.append_assoc, List.cons_append, condense_plain (by simp) (by simp), heq, heqs,
          Term.tokensAfter]
        simp

end

theorem Condition.Spells.condense {ts : List Token} {c : Condition} (h : c.Spells ts) :
    c.isSpellable = true ∧ Token.condense ts = c.tokens := by
  obtain @⟨ts, first, us, more, hfirst, hmore⟩ := h
  obtain ⟨hspell, heq⟩ := hfirst.condense us
  obtain ⟨hspells, heqs⟩ := hmore.condense []
  rw [List.append_nil, Token.condense, List.append_nil] at heqs
  refine ⟨?_, ?_⟩
  · rw [isSpellable, hspell, hspells]
    rfl
  · rw [heq, heqs, Condition.tokens]

namespace Parser

theorem conditionOfTokens_inv {ts : List Token} {c : Condition}
    (h : conditionOfTokens ts = .ok c) :
    c.isSpellable = true ∧ c.depth ≤ maxDepth ∧ condense ts = c.tokens := by
  obtain ⟨hspells, hdepth⟩ := conditionOfTokens_eq_ok_iff.mp h
  exact ⟨hspells.condense.1, hdepth, hspells.condense.2⟩

theorem pipelineOfTokens_inv {ts : List Token} {p : Pipeline}
    (h : pipelineOfTokens ts = .ok p) : p.isSpellable = true ∧ condense ts = p.tokens := by
  have hcondense := (spells_of_pipelineOfTokens h).condense []
  rwa [List.append_nil, condense, List.append_nil] at hcondense

end Parser

/-- The tokens of a condition are read back, unless its groups nest too deeply, and whatever is read
as a condition has its tokens, but for negations in pairs and empty lists of arguments. The same
holds of pipelines, which have no groups. -/
theorem expressions_read_exactly :
    (∀ c : Condition, c.isSpellable = true →
      (c.depth ≤ 150 → Parser.conditionOfTokens c.tokens = .ok c) ∧
      (150 < c.depth → ∃ fault, Parser.conditionOfTokens c.tokens = .error fault ∧
        fault.message = "condition is nested too deeply")) ∧
    (∀ ts c, Parser.conditionOfTokens ts = .ok c →
      c.isSpellable = true ∧ c.depth ≤ 150 ∧ Token.condense ts = c.tokens) ∧
    (∀ c d : Condition, c.isSpellable = true → d.isSpellable = true → c.tokens = d.tokens →
      c = d) ∧
    (∀ p : Pipeline, p.isSpellable = true → Parser.pipelineOfTokens p.tokens = .ok p) ∧
    ∀ ts p, Parser.pipelineOfTokens ts = .ok p →
      p.isSpellable = true ∧ Token.condense ts = p.tokens := by
  refine ⟨fun c hc => ⟨?_, ?_⟩, fun _ _ => Parser.conditionOfTokens_inv,
    fun _ _ => Condition.tokens_inj, fun _ => Parser.pipelineOfTokens_tokens,
    fun _ _ => Parser.pipelineOfTokens_inv⟩
  · intro hdepth
    exact (Parser.conditionOfTokens_tokens hc).trans (if_pos hdepth)
  · intro hdepth
    have hdeep : ¬ c.depth ≤ Parser.maxDepth := Nat.not_le_of_gt hdepth
    exact ⟨.tooDeep, (Parser.conditionOfTokens_tokens hc).trans (if_neg hdeep), rfl⟩

/-- A negated group that is written with three negations, and a filter with empty parentheses. -/
theorem expressions_read_exactly_group :
    let a : Term := .operand false (.pipeline ⟨"a", [⟨"f", []⟩]⟩)
    let b : Term := .comparison .lt (.pipeline ⟨"b", []⟩) (.constant (.int 1))
    let c : Condition := ⟨.group true a [(.or, b)], []⟩
    let ts : List Token := [.negation, .negation, .negation, .symbol .opening, .word "a",
      .symbol .pipe, .word "f", .symbol .opening, .symbol .closing, .connective .or, .word "b",
      .symbol (.comparator .lt), .int 1, .symbol .closing]
    c.isSpellable = true ∧ c.depth ≤ 150 ∧ Parser.conditionOfTokens c.tokens = .ok c ∧
    Parser.conditionOfTokens ts = .ok c ∧ Token.condense ts = c.tokens := by
  intro a b c ts
  have hspell : c.isSpellable = true := by decide
  have hdepth : c.depth ≤ 150 := by decide
  have hread : Parser.conditionOfTokens ts = .ok c := by rfl
  exact ⟨hspell, hdepth, (expressions_read_exactly.1 c hspell).1 hdepth, hread,
    (expressions_read_exactly.2.1 ts c hread).2.2⟩

end Stencil

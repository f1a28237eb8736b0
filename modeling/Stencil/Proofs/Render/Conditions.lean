import Stencil.Proofs.Expr.Inversion
import Stencil.Render.Evaluate

/-! # Conditions from left to right

A condition joins the truth values of its terms from left to right, whatever connectives stand
between them. So parentheses around the terms in front say nothing, and those around a whole
condition make it a term that can be negated.
-/
namespace Stencil

theorem Term.SpellsAfter.append : ∀ {more others : List (Connective × Term)} {us vs : List Token},
    Term.SpellsAfter us more → Term.SpellsAfter vs others →
      Term.SpellsAfter (us ++ vs) (more ++ others)
  | [], _, _, _, h, hothers => by
    cases h
    exact hothers
  | (op, t) :: more, _, _, vs, h, hothers => by
    cases h with
    | cons op ht hmore =>
      rw [List.append_assoc]
      exact .cons op ht (hmore.append hothers)

/-- A condition in parentheses is a term, which is negated by what stands in front. -/
theorem Condition.Spells.group (k : Nat) {ts : List Token} {c : Condition} (h : c.Spells ts) :
    Term.Spells (List.replicate k .negation ++ .symbol .opening :: (ts ++ [.symbol .closing]))
      (.group (k % 2 == 1) c.first c.rest) := by
  obtain ⟨hfirst, hmore⟩ := h
  exact .group k hfirst hmore

section

variable (env : Environment) (context : Context)

/-- The truth values of terms, each with the connective in front of it. -/
def Term.truths (more : List (Connective × Term)) : List (Connective × Bool) :=
  more.map fun e => (e.1, e.2.holds env context)

/-- Conjunctions and disjunctions from left to right, neither before the other. -/
def Connective.fold (joined : Bool) : List (Connective × Bool) → Bool
  | [] => joined
  | (and, b) :: more => fold (joined && b) more
  | (or, b) :: more => fold (joined || b) more

theorem Connective.fold_append (joined : Bool) (more others : List (Connective × Bool)) :
    fold joined (more ++ others) = fold (fold joined more) others := by
  induction more generalizing joined with
  | nil => rfl
  | cons e more ih => obtain ⟨_ | _, b⟩ := e <;> exact ih _

theorem Term.holdsAfter_eq_fold (joined : Bool) (more : List (Connective × Term)) :
    Term.holdsAfter env context joined more =
      Connective.fold joined (Term.truths env context more) := by
  induction more generalizing joined with
  | nil => rfl
  | cons e more ih =>
    obtain ⟨op, t⟩ := e
    rw [Term.holdsAfter, ih]
    cases op with
    | and => rfl
    | or => rfl

theorem Condition.holds_eq_fold (c : Condition) :
    c.holds env context =
      Connective.fold (c.first.holds env context) (Term.truths env context c.rest) :=
  Term.holdsAfter_eq_fold env context _ c.rest

/-- No connective binds more tightly than the other one. -/
example : (Condition.ofText "1 or 2 and missing".toList).map (Condition.holds .empty []) =
    .ok false := rfl

theorem Term.holds_group (negated : Bool) (first : Term) (more : List (Connective × Term)) :
    (Term.group negated first more).holds env context =
      (Condition.holds env context ⟨first, more⟩ != negated) := by
  rw [Term.holds, Condition.holds]

/-- Terms in parentheses are joined as they are without. -/
theorem Condition.holds_grouped (first : Term) (more others : List (Connective × Term)) :
    Condition.holds env context ⟨.group false first more, others⟩ =
      Condition.holds env context ⟨first, more ++ others⟩ := by
  rw [holds_eq_fold, holds_eq_fold, Term.holds_group, holds_eq_fold, Bool.bne_false]
  simp only [Term.truths, List.map_append, Connective.fold_append]

/-- A name that does not resolve, or a filter that fails on what the filters in front of it give. -/
inductive Pipeline.Fails (p : Pipeline) : Prop
  | unresolved : context.load? p.name = none → Fails p
  | filter {front back : List FilterCall} {call : FilterCall} {v w : Value} {e : Error} :
      p.filters = front ++ call :: back → context.load? p.name = some v →
      throughFilters env context v front = some w → call.apply env context w = .error e → Fails p

/-- Constants do not fail. -/
def Operand.Fails (x : Operand) : Prop := ∃ p, x = .pipeline p ∧ p.Fails env context

theorem throughFilters_append (v : Value) (front back : List FilterCall) :
    throughFilters env context v (front ++ back) =
      (throughFilters env context v front).bind fun w => throughFilters env context w back := by
  induction front generalizing v with
  | nil => rfl
  | cons call front ih =>
    rw [List.cons_append, throughFilters, throughFilters]
    cases call.apply env context v with
    | ok w => exact ih w
    | error e => rfl

theorem throughFilters_eq_none_iff {v : Value} {calls : List FilterCall} :
    throughFilters env context v calls = none ↔
      ∃ front call back w e, calls = front ++ call :: back ∧
        throughFilters env context v front = some w ∧ call.apply env context w = .error e := by
  constructor
  · intro h
    induction calls generalizing v with
    | nil => cases h
    | cons call calls ih =>
      rw [throughFilters] at h
      cases hcall : call.apply env context v with
      | ok w =>
        rw [hcall] at h
        obtain ⟨front, failing, back, u, e, rfl, hfront, hfails⟩ := ih h
        refine ⟨call :: front, failing, back, u, e, rfl, ?_, hfails⟩
        rw [throughFilters, hcall]
        exact hfront
      | error e => exact ⟨[], call, calls, v, e, rfl, rfl, hcall⟩
  · rintro ⟨front, call, back, w, e, rfl, hfront, hfails⟩
    rw [throughFilters_append, hfront, Option.bind_some, throughFilters, hfails]

theorem Pipeline.value?_eq_none_iff {p : Pipeline} :
    p.value? env context = none ↔ p.Fails env context := by
  constructor
  · intro h
    cases hload : context.load? p.name with
    | none => exact .unresolved hload
    | some v =>
      rw [Pipeline.value?, hload, Option.bind_some, throughFilters_eq_none_iff] at h
      obtain ⟨front, call, back, w, e, hfilters, hfront, hfails⟩ := h
      exact .filter hfilters hload hfront hfails
  · intro h
    cases h with
    | unresolved hload => rw [Pipeline.value?, hload, Option.bind_none]
    | filter hfilters hload hfront hfails =>
      rw [Pipeline.value?, hload, Option.bind_some, throughFilters_eq_none_iff]
      exact ⟨_, _, _, _, _, hfilters, hfront, hfails⟩

theorem Operand.value?_eq_none_iff {x : Operand} :
    x.value? env context = none ↔ x.Fails env context := by
  cases x with
  | pipeline p =>
    rw [Operand.value?, Pipeline.value?_eq_none_iff]
    constructor
    · exact fun h => ⟨p, rfl, h⟩
    · rintro ⟨q, hq, h⟩
      exact Operand.pipeline.inj hq ▸ h
  | constant l =>
    constructor
    · exact fun h => nomatch h
    · rintro ⟨q, hq, -⟩
      cases hq

variable {env context}

theorem Operand.Fails.holds_operand {x : Operand} (h : x.Fails env context) (negated : Bool) :
    (Term.operand negated x).holds env context = negated := by
  have hvalue := (Operand.value?_eq_none_iff env context).mpr h
  rw [Term.holds, Operand.holds, hvalue]
  exact Bool.false_bne negated

theorem Operand.Fails.comparison_left {x : Operand} (h : x.Fails env context) (op : Comparator)
    (y : Operand) : (Term.comparison op x y).holds env context = false := by
  have hvalue := (Operand.value?_eq_none_iff env context).mpr h
  rw [Term.holds, comparisonHolds, hvalue]

theorem Operand.Fails.comparison_right {x : Operand} (h : x.Fails env context) (op : Comparator)
    (y : Operand) : (Term.comparison op y x).holds env context = false := by
  have hvalue := (Operand.value?_eq_none_iff env context).mpr h
  rw [Term.holds, comparisonHolds, hvalue]
  cases y.value? env context <;> rfl

end

/-- The tokens, and all texts that are cut into them, are read as a condition that holds or not. -/
def HoldsAs (env : Environment) (context : Context) (ts : List Token) (b : Bool) : Prop :=
  ∃ c : Condition, Parser.conditionOfTokens ts = .ok c ∧
    (∀ text, Lexer.tokens text = .ok ts → Condition.ofText text = .ok c) ∧
    c.holds env context = b

theorem Condition.Spells.holdsAs {ts : List Token} {c : Condition} (h : c.Spells ts)
    (hdepth : c.depth ≤ Parser.maxDepth) (env : Environment) (context : Context) :
    HoldsAs env context ts (c.holds env context) := by
  have hread : Parser.conditionOfTokens ts = .ok c :=
    Parser.conditionOfTokens_eq_ok_iff.mpr ⟨h, hdepth⟩
  refine ⟨c, hread, ?_, rfl⟩
  intro text htext
  rw [Condition.ofText_of_tokens htext, hread]

/-- Terms joined by connectives hold as the fold of their own truth values from left to right, with
or without parentheses around the first of them. A negated group holds if its condition does not.
An operand without a value is false, and so are all comparisons with it. -/
theorem holds_left_to_right (env : Environment) (context : Context) :
    (∀ (fs us vs : List Token) (first : Term) (more others : List (Connective × Term)),
      Term.Spells fs first → Term.SpellsAfter us more → Term.SpellsAfter vs others →
      let b := Connective.fold (first.holds env context) (Term.truths env context (more ++ others))
      (Condition.depth ⟨first, more ++ others⟩ ≤ Parser.maxDepth →
        HoldsAs env context (fs ++ us ++ vs) b) ∧
      (Condition.depth ⟨.group false first more, others⟩ ≤ Parser.maxDepth →
        HoldsAs env context (.symbol .opening :: (fs ++ us) ++ .symbol .closing :: vs) b)) ∧
    (∀ (cs : List Token) (c : Condition), c.Spells cs → c.depth + 1 ≤ Parser.maxDepth →
      HoldsAs env context cs (c.holds env context) ∧
      HoldsAs env context (.negation :: .symbol .opening :: (cs ++ [.symbol .closing]))
        (!c.holds env context)) ∧
    ∀ x : Operand, x.Fails env context →
      (∀ negated, (Term.operand negated x).holds env context = negated) ∧
      ∀ (op : Comparator) (y : Operand), (Term.comparison op x y).holds env context = false ∧
        (Term.comparison op y x).holds env context = false := by
  refine ⟨?_, ?_, ?_⟩
  · intro fs us vs first more others hfirst hmore hothers b
    refine ⟨?_, ?_⟩
    · intro hdepth
      have hflat := Condition.Spells.chain hfirst (hmore.append hothers)
      have hholds := hflat.holdsAs hdepth env context
      rwa [Condition.holds_eq_fold, ← List.append_assoc] at hholds
    · intro hdepth
      have hgroup := (Condition.Spells.chain hfirst hmore).group 0
      have hholds := (Condition.Spells.chain hgroup hothers).holdsAs hdepth env context
      have hsame : Condition.holds env context ⟨.group (0 % 2 == 1) first more, others⟩ = b :=
        (Condition.holds_grouped env context first more others).trans
          (Condition.holds_eq_fold env context ⟨first, more ++ others⟩)
      rw [hsame] at hholds
      simpa using hholds
  · intro cs c hc hdepth
    refine ⟨hc.holdsAs (Nat.le_of_succ_le hdepth) env context, ?_⟩
    have hgroup : Condition.depth ⟨.group (1 % 2 == 1) c.first c.rest, []⟩ ≤ Parser.maxDepth := by
      rw [Condition.depth, Term.depth, Term.depthAfter, Nat.max_zero]
      exact hdepth
    have hholds := (Condition.Spells.chain (hc.group 1) .nil).holdsAs hgroup env context
    rw [Condition.holds, Term.holdsAfter, Term.holds_group] at hholds
    simpa using hholds
  · intro x hx
    refine ⟨hx.holds_operand, ?_⟩
    exact fun op y => ⟨hx.comparison_left op y, hx.comparison_right op y⟩

/-- An operand behind an unknown filter in front of one that resolves and at the end, where it is not
the value of the whole, and the negation of an operand that does not resolve. -/
theorem holds_left_to_right_failing :
    let context : Context := .ofChain [.record [("x", .int 1), ("y", .text "t")]]
    let x : Operand := .pipeline ⟨"x", [⟨"f", []⟩]⟩
    let xs : List Token := [.word "x", .symbol .pipe, .word "f"]
    let ys : List Token := [.connective .or, .word "y"]
    let zs : List Token := [.connective .and, .negation, .word "z"] ++ (.connective .or :: xs)
    HoldsAs .empty context (xs ++ ys ++ zs) true ∧
      HoldsAs .empty context (.symbol .opening :: (xs ++ ys) ++ .symbol .closing :: zs) true ∧
      HoldsAs .empty context (.negation :: .symbol .opening :: ([.word "y"] ++ [.symbol .closing]))
        false ∧
      (Term.operand false x).holds .empty context = false ∧
      (Term.comparison .ne x x).holds .empty context = false := by
  intro context x xs ys zs
  have hname (name : String) : Operand.Spells [.word name] (.pipeline ⟨name, []⟩) :=
    .pipeline (.named name .nil)
  have hx : Term.Spells xs (.operand false x) :=
    .operand 0 (.pipeline (.named "x" (.cons (@FilterCall.Spells.tokens ⟨"f", []⟩ rfl) .nil)))
  have hy : Term.Spells [.word "y"] (.operand false (.pipeline ⟨"y", []⟩)) :=
    .operand 0 (hname "y")
  have hz : Term.Spells [.negation, .word "z"] (.operand true (.pipeline ⟨"z", []⟩)) :=
    .operand 1 (hname "z")
  have hfails : x.Fails .empty context := (Operand.value?_eq_none_iff .empty context).mp rfl
  have hterms := (holds_left_to_right .empty context).1 xs ys zs _ _ _ hx (.cons .or hy .nil)
    (.cons .and hz (.cons .or hx .nil))
  have hgroups := (holds_left_to_right .empty context).2.1 [.word "y"] _ (.chain hy .nil) (by decide)
  have hfailing := (holds_left_to_right .empty context).2.2 x hfails
  exact ⟨hterms.1 (by decide), hterms.2 (by decide), hgroups.2, hfailing.1 false,
    (hfailing.2 .ne x).1⟩

end Stencil

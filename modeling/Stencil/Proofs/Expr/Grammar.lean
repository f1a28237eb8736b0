import Stencil.Expr.Printer

/-! # What tokens spell

An expression can be written with more tokens than it is printed with: an empty list of arguments
may stand behind the name of a filter, and any number of negations in front of an operand or a
group, of which two in a row say nothing. In front of a comparison their number has to be even.
-/
namespace Stencil

/-- Whether a constant has a token of its own. -/
def Literal.isSpellable : Literal → Bool
  | bool _ => false
  | text _ | int _ | float _ => true

def Argument.isSpellable : Argument → Bool
  | constant l => l.isSpellable
  | lookup _ => true

def FilterCall.isSpellable (call : FilterCall) : Bool := call.arguments.all Argument.isSpellable

def Pipeline.isSpellable (p : Pipeline) : Bool := p.filters.all FilterCall.isSpellable

def Operand.isSpellable : Operand → Bool
  | pipeline p => p.isSpellable
  | constant l => l.isSpellable

mutual

/-- Whether all constants of a term have tokens. -/
def Term.isSpellable : Term → Bool
  | operand _ x => x.isSpellable
  | comparison _ left right => left.isSpellable && right.isSpellable
  | group _ first rest => first.isSpellable && Term.allSpellable rest

def Term.allSpellable : List (Connective × Term) → Bool
  | [] => true
  | (_, t) :: rest => t.isSpellable && Term.allSpellable rest

end

def Condition.isSpellable (c : Condition) : Bool :=
  c.first.isSpellable && Term.allSpellable c.rest

mutual

/-- How many groups of a term nest one inside the other. -/
def Term.depth : Term → Nat
  | operand .. => 0
  | comparison .. => 0
  | group _ first rest => max first.depth (Term.depthAfter rest) + 1

/-- The depth of the deepest of several terms. -/
def Term.depthAfter : List (Connective × Term) → Nat
  | [] => 0
  | (_, t) :: rest => max t.depth (Term.depthAfter rest)

end

def Condition.depth (c : Condition) : Nat := max c.first.depth (Term.depthAfter c.rest)

inductive FilterCall.Spells : List Token → FilterCall → Prop
  | tokens {call} : call.isSpellable = true → Spells call.tokens call
  | empty (name) :
      Spells [.symbol .pipe, .word name, .symbol .opening, .symbol .closing] ⟨name, []⟩

inductive FilterCall.SpellsAll : List Token → List FilterCall → Prop
  | nil : SpellsAll [] []
  | cons {ts call us calls} : Spells ts call → SpellsAll us calls →
      SpellsAll (ts ++ us) (call :: calls)

inductive Pipeline.Spells : List Token → Pipeline → Prop
  | named (name) {ts calls} : FilterCall.SpellsAll ts calls → Spells (.word name :: ts) ⟨name, calls⟩

inductive Operand.Spells : List Token → Operand → Prop
  | constant {l} : l.isSpellable = true → Spells [l.token] (.constant l)
  | pipeline {ts p} : Pipeline.Spells ts p → Spells ts (.pipeline p)

mutual

inductive Term.Spells : List Token → Term → Prop
  | operand (k : Nat) {ts x} : Operand.Spells ts x →
      Term.Spells (List.replicate k .negation ++ ts) (.operand (k % 2 == 1) x)
  | comparison (k : Nat) (op) {ls left rs right} : Operand.Spells ls left →
      Operand.Spells rs right →
      Term.Spells (List.replicate (2 * k) .negation ++ (ls ++ .symbol (.comparator op) :: rs))
        (.comparison op left right)
  | group (k : Nat) {ts first us more} : Term.Spells ts first → Term.SpellsAfter us more →
      Term.Spells
        (List.replicate k .negation ++ .symbol .opening :: (ts ++ us ++ [.symbol .closing]))
        (.group (k % 2 == 1) first more)

/-- What spells further terms, each behind a connective. -/
inductive Term.SpellsAfter : List Token → List (Connective × Term) → Prop
  | nil : Term.SpellsAfter [] []
  | cons (op) {ts t us more} : Term.Spells ts t → Term.SpellsAfter us more →
      Term.SpellsAfter (.connective op :: ts ++ us) ((op, t) :: more)

end

inductive Condition.Spells : List Token → Condition → Prop
  | chain {ts first us more} : Term.Spells ts first → Term.SpellsAfter us more →
      Spells (ts ++ us) ⟨first, more⟩

theorem FilterCall.spellsAll_tokens {calls : List FilterCall}
    (h : calls.all FilterCall.isSpellable = true) :
    SpellsAll (calls.flatMap FilterCall.tokens) calls := by
  induction calls with
  | nil => exact .nil
  | cons call calls ih =>
    rw [List.all_cons, Bool.and_eq_true] at h
    rw [List.flatMap_cons]
    exact .cons (.tokens h.1) (ih h.2)

theorem Pipeline.spells_tokens {p : Pipeline} (h : p.isSpellable = true) : Spells p.tokens p :=
  .named p.name (FilterCall.spellsAll_tokens h)

theorem Operand.spells_tokens {x : Operand} (h : x.isSpellable = true) : Spells x.tokens x := by
  cases x with
  | pipeline p => exact .pipeline (Pipeline.spells_tokens h)
  | constant l => exact .constant h

mutual

theorem Term.spells_tokens : ∀ t : Term, t.isSpellable = true → Spells t.tokens t
  | .operand negated x, h => by
    have hx := Operand.spells_tokens h
    cases negated with
    | false => exact .operand 0 hx
    | true => exact .operand 1 hx
  | .comparison op left right, h => by
    rw [isSpellable, Bool.and_eq_true] at h
    exact .comparison 0 op (Operand.spells_tokens h.1) (Operand.spells_tokens h.2)
  | .group negated first more, h => by
    rw [isSpellable, Bool.and_eq_true] at h
    have hfirst := Term.spells_tokens first h.1
    have hmore := Term.spellsAfter_tokens more h.2
    rw [tokens, List.append_assoc, List.cons_append]
    cases negated with
    | false => exact .group 0 hfirst hmore
    | true => exact .group 1 hfirst hmore

theorem Term.spellsAfter_tokens : ∀ more : List (Connective × Term), allSpellable more = true →
    SpellsAfter (tokensAfter more) more
  | [], _ => .nil
  | (op, t) :: more, h => by
    rw [allSpellable, Bool.and_eq_true] at h
    exact .cons op (Term.spells_tokens t h.1) (Term.spellsAfter_tokens more h.2)

end

theorem Condition.spells_tokens {c : Condition} (h : c.isSpellable = true) :
    Spells c.tokens c := by
  rw [isSpellable, Bool.and_eq_true] at h
  exact .chain (Term.spells_tokens c.first h.1) (Term.spellsAfter_tokens c.rest h.2)

theorem Argument.token_ne_symbol (a : Argument) (s : Symbol) : a.token ≠ .symbol s := by
  cases a with
  | lookup name => simp [token]
  | constant l => cases l <;> simp [token, Literal.token]

theorem FilterCall.Spells.exists_cons {ts : List Token} {call : FilterCall} (h : Spells ts call) :
    ∃ us, ts = .symbol .pipe :: us := by
  cases h with
  | tokens => exact ⟨_, rfl⟩
  | empty => exact ⟨_, rfl⟩

/-- Neither a negation nor a symbol begins an operand. -/
theorem Operand.Spells.exists_cons {ts : List Token} {x : Operand} (h : Spells ts x) :
    ∃ t us, ts = t :: us ∧ t ≠ .negation ∧ ∀ s, t ≠ .symbol s := by
  cases h with
  | @constant l => cases l <;> exact ⟨_, _, rfl, by simp [Literal.token], by simp [Literal.token]⟩
  | pipeline hp =>
    cases hp
    exact ⟨_, _, rfl, by simp, by simp⟩

/-- No term begins with a closing parenthesis. -/
theorem Term.Spells.exists_cons {ts : List Token} {t : Term} (h : Term.Spells ts t) :
    ∃ u us, ts = u :: us ∧ u ≠ .symbol .closing := by
  have hnegated (k : Nat) {u : Token} (us : List Token) (hu : u ≠ .symbol .closing) :
      ∃ v vs, List.replicate k Token.negation ++ u :: us = v :: vs ∧ v ≠ .symbol .closing := by
    cases k with
    | zero => exact ⟨u, us, rfl, hu⟩
    | succ k => exact ⟨.negation, _, rfl, by simp⟩
  cases h with
  | operand k hx =>
    obtain ⟨u, us, rfl, -, hsymbol⟩ := hx.exists_cons
    exact hnegated k us (hsymbol .closing)
  | comparison k op hleft _ =>
    obtain ⟨u, us, rfl, -, hsymbol⟩ := hleft.exists_cons
    exact hnegated (2 * k) _ (hsymbol .closing)
  | group k _ _ => exact hnegated k _ (by simp)

end Stencil

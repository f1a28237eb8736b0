import Stencil.Expr.Parser
import Stencil.Proofs.Expr.Grammar

/-! # What spells an expression is read

Tokens that spell an expression are read as that expression, whatever stands behind them that
cannot be a part of it. A condition is refused instead if its groups nest too deeply: that is the
only thing its tokens can be refused for.
-/
namespace Stencil

namespace Parser

variable {rest : List Token}

/-- What cannot be taken for a part of the filters in front of it. -/
def EndsPipeline (rest : List Token) : Prop :=
  ∀ t ∈ rest.head?, t ≠ .symbol .pipe ∧ t ≠ .symbol .opening

/-- What can stand behind a term of a condition. -/
def EndsTerm (rest : List Token) : Prop :=
  ∀ t ∈ rest.head?, t = .symbol .closing ∨ ∃ op, t = .connective op

/-- What can stand behind a condition. -/
def EndsCondition (rest : List Token) : Prop := ∀ t ∈ rest.head?, t = .symbol .closing

theorem EndsCondition.endsTerm (h : EndsCondition rest) : EndsTerm rest :=
  fun t ht => Or.inl (h t ht)

theorem EndsTerm.endsPipeline (h : EndsTerm rest) : EndsPipeline rest := by
  intro t ht
  rcases h t ht with rfl | ⟨op, rfl⟩
  · exact ⟨by simp, by simp⟩
  · exact ⟨by simp, by simp⟩

theorem endsPipeline_comparator (op : Comparator) (rest : List Token) :
    EndsPipeline (.symbol (.comparator op) :: rest) := by
  intro t ht
  obtain rfl : .symbol (.comparator op) = t := by simpa using ht
  exact ⟨by simp, by simp⟩

theorem endsTerm_after {ts : List Token} {more : List (Connective × Term)}
    (hmore : Term.SpellsAfter ts more) (h : EndsCondition rest) : EndsTerm (ts ++ rest) := by
  cases hmore with
  | nil => exact h.endsTerm
  | cons op _ _ =>
    intro t ht
    obtain rfl : Token.connective op = t := by simpa using ht
    exact Or.inr ⟨_, rfl⟩

theorem argument_token {a : Argument} (h : a.isSpellable = true) : argument a.token = .ok a := by
  cases a with
  | lookup name => rfl
  | constant l =>
    cases l with
    | bool b => cases h
    | text | int | float => rfl

theorem arguments_last {a : Argument} (h : a.isSpellable = true) {calls : List FilterCall}
    {more : List Token} (hmore : filters more = .ok (calls, rest)) (name : String)
    (given : List Argument) :
    arguments name given (a.token :: .symbol .closing :: more) =
      .ok (⟨name, given ++ [a]⟩ :: calls, rest) := by
  rw [arguments, argument_token h]
  show (filters more >>= fun r => pure (⟨name, given ++ [a]⟩ :: r.1, r.2)) = _
  rw [hmore]
  rfl

/-- The arguments of a filter up to the closing parenthesis, and the filters behind it. -/
theorem arguments_tokens {calls : List FilterCall} {more : List Token}
    (hmore : filters more = .ok (calls, rest)) (name : String) (given args : List Argument)
    (hne : args ≠ []) (h : args.all Argument.isSpellable = true) :
    arguments name given ((args.map Argument.token).intersperse (.symbol .comma) ++
        .symbol .closing :: more) = .ok (⟨name, given ++ args⟩ :: calls, rest) := by
  induction args generalizing given with
  | nil => exact absurd rfl hne
  | cons a args ih =>
    rw [List.all_cons, Bool.and_eq_true] at h
    cases args with
    | nil => exact arguments_last h.1 hmore name given
    | cons b args =>
      have hstep : arguments name given (a.token :: .symbol .comma ::
          ((b :: args).map Argument.token).intersperse (.symbol .comma) ++
            .symbol .closing :: more) =
          arguments name (given ++ [a]) (((b :: args).map Argument.token).intersperse
            (.symbol .comma) ++ .symbol .closing :: more) := by
        rw [List.cons_append, List.cons_append, arguments, argument_token h.1]
        rfl
      rw [List.map_cons, List.map_cons, List.intersperse_cons_cons, ← List.map_cons]
      rw [hstep, ih (given ++ [a]) (List.cons_ne_nil b args) h.2, List.append_assoc]
      rfl

theorem filters_call {call : FilterCall} (h : call.isSpellable = true) {calls : List FilterCall}
    {more : List Token} (hmore : filters more = .ok (calls, rest))
    (hopen : more.head? ≠ some (.symbol .opening)) :
    filters (call.tokens ++ more) = .ok (call :: calls, rest) := by
  obtain ⟨name, args⟩ := call
  unfold FilterCall.tokens
  cases args with
  | nil =>
    show filters (.symbol .pipe :: .word name :: more) = _
    rw [filters, hmore]
    · rfl
    · rintro tail rfl
      exact hopen rfl
    · rintro tail rfl
      exact hopen rfl
  | cons a args =>
    have hall := arguments_tokens hmore name [] (a :: args) (List.cons_ne_nil a args) h
    rw [if_neg (List.cons_ne_nil a args)]
    simp only [List.cons_append, List.append_assoc, List.nil_append]
    rw [filters]
    · exact hall
    · -- a closing parenthesis in front would be an empty list of arguments
      intro tail htail
      have hhead := congrArg List.head? htail
      cases args with
      | nil => exact Argument.token_ne_symbol a .closing (Option.some.inj hhead)
      | cons b args => exact Argument.token_ne_symbol a .closing (Option.some.inj hhead)

theorem filters_cons {ts : List Token} {call : FilterCall} (h : call.Spells ts)
    {calls : List FilterCall} {more : List Token} (hmore : filters more = .ok (calls, rest))
    (hopen : more.head? ≠ some (.symbol .opening)) :
    filters (ts ++ more) = .ok (call :: calls, rest) := by
  cases h with
  | tokens hcall => exact filters_call hcall hmore hopen
  | empty name =>
    show filters (.symbol .pipe :: .word name :: .symbol .opening :: .symbol .closing :: more) = _
    rw [filters, hmore]
    rfl

theorem head?_filters {ts : List Token} {calls : List FilterCall}
    (hcalls : FilterCall.SpellsAll ts calls) (h : EndsPipeline rest) :
    (ts ++ rest).head? ≠ some (.symbol .opening) := by
  cases hcalls with
  | nil => exact fun hhead => (h _ hhead).2 rfl
  | cons hcall _ =>
    obtain ⟨us, rfl⟩ := hcall.exists_cons
    simp

theorem filters_of_spells {ts : List Token} {calls : List FilterCall}
    (hcalls : FilterCall.SpellsAll ts calls) (h : EndsPipeline rest) :
    filters (ts ++ rest) = .ok (calls, rest) := by
  induction hcalls with
  | nil =>
    have hpipe : ∀ tail, rest ≠ .symbol .pipe :: tail := by
      rintro tail rfl
      exact (h _ rfl).1 rfl
    rw [List.nil_append, filters]
    · exact fun name tail => hpipe _
    · exact fun name tail => hpipe _
    · exact fun name tail => hpipe _
    · exact fun tail => hpipe _
  | cons hcall hcalls ih =>
    rw [List.append_assoc]
    exact filters_cons hcall ih (head?_filters hcalls h)

theorem pipeline_of_spells {ts : List Token} {p : Pipeline} (hp : p.Spells ts)
    (h : EndsPipeline rest) : pipeline (ts ++ rest) = .ok (p, rest) := by
  obtain ⟨name, hcalls⟩ := hp
  rw [List.cons_append, pipeline, filters_of_spells hcalls h]
  rfl

theorem operand_of_spells {ts : List Token} {x : Operand} (hx : x.Spells ts)
    (h : EndsPipeline rest) : operand (ts ++ rest) = .ok (x, rest) := by
  cases hx with
  | pipeline hp =>
    have hread := pipeline_of_spells hp h
    obtain ⟨name, hcalls⟩ := hp
    rw [List.cons_append] at hread
    rw [List.cons_append, operand, hread]
    rfl
  | @constant l hl =>
    cases l with
    | bool b => cases hl
    | text | int | float => rfl

theorem parity_succ (k : Nat) : ((k + 1) % 2 == 1) = !(k % 2 == 1) := by
  rcases Nat.mod_two_eq_zero_or_one k with hk | hk
  · simp [Nat.add_mod, hk]
  · simp [Nat.add_mod, hk]

/-- Negations in a row are read as one, or as none if their number is even. -/
theorem negations_replicate {t : Token} (ht : t ≠ .negation) (ts : List Token) (k : Nat)
    (negated : Bool) : negations negated (List.replicate k .negation ++ t :: ts) =
      (negated ^^ (k % 2 == 1), t :: ts) := by
  induction k generalizing negated with
  | zero =>
    rw [List.replicate_zero, List.nil_append, negations]
    · simp
    · rintro tail htail
      exact ht (List.cons.inj htail).1
  | succ k ih =>
    rw [List.replicate_succ, List.cons_append, negations, ih, parity_succ]
    cases negated <;> simp

theorem unary_operand (group : List Token → Except SyntaxFault (Condition × List Token))
    (k : Nat) {ts : List Token} {x : Operand} (hx : x.Spells ts) (h : EndsPipeline rest) :
    unary group (List.replicate k .negation ++ (ts ++ rest)) =
      .ok (.operand (k % 2 == 1) x, rest) := by
  have hread := operand_of_spells hx h
  obtain ⟨t, us, rfl, hneg, hsymbol⟩ := hx.exists_cons
  rw [List.cons_append] at hread
  rw [List.cons_append, unary, negations_replicate hneg, Bool.false_xor]
  split
  · rename_i hopen
    obtain ⟨-, hopen⟩ := Prod.mk.inj hopen
    exact absurd (List.cons.inj hopen).1 (hsymbol .opening)
  · rename_i heq
    obtain ⟨rfl, rfl⟩ := Prod.mk.inj heq
    rw [hread]
    rfl

theorem unary_group {group : List Token → Except SyntaxFault (Condition × List Token)}
    {ts : List Token} {c : Condition} (h : group ts = .ok (c, .symbol .closing :: rest))
    (k : Nat) :
    unary group (List.replicate k .negation ++ .symbol .opening :: ts) =
      .ok (.group (k % 2 == 1) c, rest) := by
  rw [unary, negations_replicate (by simp), Bool.false_xor]
  dsimp only
  rw [h]
  rfl

theorem unary_group_error {group : List Token → Except SyntaxFault (Condition × List Token)}
    {ts : List Token} {fault : SyntaxFault} (h : group ts = .error fault) (k : Nat) :
    unary group (List.replicate k .negation ++ .symbol .opening :: ts) = .error fault := by
  rw [unary, negations_replicate (by simp)]
  dsimp only
  rw [h]
  rfl

/-- What reading gives where groups may nest to a limit. -/
def within {α : Type} (limit depth : Nat) (a : α) : Except SyntaxFault α :=
  if depth ≤ limit then .ok a else .error .tooDeep

theorem within_bind {α β : Type} {limit m n : Nat} {a : α} {b : β} {f : α → Except SyntaxFault β}
    (hf : f a = within limit n b) : (within limit m a >>= f) = within limit (max m n) b := by
  unfold within at hf ⊢
  by_cases hm : m ≤ limit
  · rw [if_pos hm]
    refine hf.trans ?_
    by_cases hn : n ≤ limit
    · rw [if_pos hn, if_pos (by omega)]
    · rw [if_neg hn, if_neg (by omega)]
  · rw [if_neg hm, if_neg (by omega)]
    rfl

theorem within_map {α β : Type} {limit m : Nat} {a : α} {b : β} {f : α → Except SyntaxFault β}
    (hf : f a = .ok b) : (within limit m a >>= f) = within limit m b := by
  unfold within
  by_cases hm : m ≤ limit
  · rw [if_pos hm, if_pos hm]
    exact hf
  · rw [if_neg hm, if_neg hm]
    rfl

theorem ok_bind {α β : Type} (a : α) (f : α → Except SyntaxFault β) : (.ok a >>= f) = f a := rfl

/-- What is not compared, as a term. -/
def Unary.term : Unary → Term
  | operand negated x => .operand negated x
  | group negated c => .group negated c.first c.rest

variable (group : List Token → Except SyntaxFault (Condition × List Token))

variable {group} in
/-- Where a term ends, nothing is compared. -/
theorem term_of_unary {ts : List Token} {u : Unary} (hu : unary group ts = .ok (u, rest))
    (h : EndsTerm rest) : term group ts = .ok (u.term, rest) := by
  rw [term, hu, ok_bind]
  dsimp only
  split
  · exact absurd (h _ rfl) (by simp)
  · cases u <;> rfl

theorem term_operand (k : Nat) {ts : List Token} {x : Operand} (hx : x.Spells ts)
    (h : EndsTerm rest) : term group (List.replicate k .negation ++ (ts ++ rest)) =
      .ok (.operand (k % 2 == 1) x, rest) :=
  term_of_unary (unary_operand group k hx h.endsPipeline) h

theorem term_comparison (k : Nat) (op : Comparator) {ls rs : List Token} {left right : Operand}
    (hleft : left.Spells ls) (hright : right.Spells rs) (h : EndsTerm rest) :
    term group (List.replicate (2 * k) .negation ++
        (ls ++ .symbol (.comparator op) :: (rs ++ rest))) =
      .ok (.comparison op left right, rest) := by
  have hl := unary_operand group (2 * k) hleft (endsPipeline_comparator op (rs ++ rest))
  have hr := unary_operand group 0 hright h.endsPipeline
  have heven : (2 * k % 2 == 1) = false := by simp
  obtain ⟨t, us, rfl, hneg, -⟩ := hright.exists_cons
  rw [List.replicate_zero, List.nil_append, List.cons_append] at hr
  rw [heven, List.cons_append] at hl
  rw [List.cons_append, term, hl, ok_bind]
  dsimp only [comparable]
  rw [ok_bind]
  split
  · rename_i heq
    exact absurd (List.cons.inj heq).1 hneg
  · rw [hr]
    rfl

/-- A term whose group is read up to its closing parenthesis, or refused for its depth. -/
theorem term_group {limit : Nat} (k : Nat) {ts : List Token} {first : Term}
    {more : List (Connective × Term)}
    (hgroup : group (ts ++ .symbol .closing :: rest) =
      if max first.depth (Term.depthAfter more) < limit then
        .ok (⟨first, more⟩, .symbol .closing :: rest) else .error .tooDeep)
    (h : EndsTerm rest) :
    term group (List.replicate k .negation ++ .symbol .opening ::
        (ts ++ .symbol .closing :: rest)) =
      within limit (max first.depth (Term.depthAfter more) + 1)
        (.group (k % 2 == 1) first more, rest) := by
  rw [within]
  by_cases hdepth : max first.depth (Term.depthAfter more) < limit
  · rw [if_pos hdepth] at hgroup
    have hunary := unary_group hgroup k
    rw [term_of_unary hunary h, if_pos (Nat.succ_le_of_lt hdepth)]
    rfl
  · rw [if_neg hdepth] at hgroup
    rw [if_neg (Nat.not_le_of_gt (Nat.lt_succ_of_le (Nat.le_of_not_lt hdepth))), term,
      unary_group_error hgroup]
    rfl

theorem length_le_of_spellsAfter : ∀ {more : List (Connective × Term)} {ts : List Token},
    Term.SpellsAfter ts more → more.length ≤ ts.length
  | [], _, _ => Nat.zero_le _
  | _ :: more, _, h => by
    cases h with
    | cons op _ hmore =>
      have hlength := length_le_of_spellsAfter hmore
      simp only [List.cons_append, List.length_cons, List.length_append]
      omega

/-- Terms and those behind them are read, or refused for their depth, if each of them is. -/
theorem chain_of_spells {limit : Nat} {ts us : List Token} {first : Term}
    {more : List (Connective × Term)} (hafter : Term.SpellsAfter us more)
    (hfirst : ∀ rest, EndsTerm rest → term group (ts ++ rest) =
      within limit first.depth (first, rest))
    (hmore : ∀ fuel, more.length ≤ fuel →
      continuation (term group) fuel (us ++ rest) =
        within limit (Term.depthAfter more) (more, rest))
    (h : EndsCondition rest) :
    chain (term group) (ts ++ us ++ rest) =
      within limit (max first.depth (Term.depthAfter more)) (⟨first, more⟩, rest) := by
  have hlength : more.length ≤ (us ++ rest).length := by
    rw [List.length_append]
    exact Nat.le_add_right_of_le (length_le_of_spellsAfter hafter)
  rw [List.append_assoc, chain, hfirst _ (endsTerm_after hafter h)]
  refine within_bind ?_
  dsimp only
  rw [hmore _ hlength]
  exact within_map rfl

mutual

theorem term_of_spells : ∀ {t : Term} {ts : List Token}, Term.Spells ts t →
    ∀ (limit : Nat) (rest : List Token), EndsTerm rest →
      term (conditionWithin limit) (ts ++ rest) = within limit t.depth (t, rest)
  | .operand negated x, ts, h, limit, rest, hrest => by
    cases h with
    | operand k hx =>
      rw [Term.depth, within, if_pos (Nat.zero_le limit), List.append_assoc]
      exact term_operand _ k hx hrest
  | .comparison op left right, ts, h, limit, rest, hrest => by
    cases h with
    | comparison k op hleft hright =>
      rw [Term.depth, within, if_pos (Nat.zero_le limit), List.append_assoc, List.append_assoc,
        List.cons_append]
      exact term_comparison _ k op hleft hright hrest
  | .group negated first more, ts, h, limit, rest, hrest => by
    cases h with
    | group k hfirst hmore =>
      have hclosing : EndsCondition (.symbol .closing :: rest) := by simp [EndsCondition]
      rw [List.append_assoc, List.cons_append, List.append_assoc, List.singleton_append,
        Term.depth]
      refine term_group _ k ?_ hrest
      cases limit with
      | zero => rfl
      | succ limit =>
        have hchain := chain_of_spells _ hmore (term_of_spells hfirst limit)
          (fun fuel hfuel => continuation_of_spells hmore limit fuel _ hfuel hclosing) hclosing
        rw [conditionWithin, hchain, within]
        simp only [Nat.lt_succ_iff]

theorem continuation_of_spells : ∀ {more : List (Connective × Term)} {ts : List Token},
    Term.SpellsAfter ts more → ∀ (limit fuel : Nat) (rest : List Token), more.length ≤ fuel →
      EndsCondition rest → continuation (term (conditionWithin limit)) fuel (ts ++ rest) =
        within limit (Term.depthAfter more) (more, rest)
  | [], ts, h, limit, fuel, rest, _, hrest => by
    cases h
    rw [List.nil_append, continuation]
    · rfl
    · rintro fuel op tail rfl rfl
      exact absurd (hrest _ rfl) (by simp)
  | _ :: _, _, _, _, 0, _, hfuel, _ => absurd hfuel (Nat.not_succ_le_zero _)
  | (op, t) :: more, ts, h, limit, fuel + 1, rest, hfuel, hrest => by
    cases h with
    | cons op ht hmore =>
      rw [List.cons_append, List.cons_append, List.append_assoc, continuation,
        term_of_spells ht limit _ (endsTerm_after hmore hrest), Term.depthAfter]
      refine within_bind ?_
      dsimp only
      rw [continuation_of_spells hmore limit fuel rest (Nat.le_of_succ_le_succ hfuel) hrest]
      exact within_map rfl

end

theorem conditionWithin_of_spells {ts : List Token} {c : Condition} (h : c.Spells ts)
    (limit : Nat) (hrest : EndsCondition rest) :
    conditionWithin (limit + 1) (ts ++ rest) = within limit c.depth (c, rest) := by
  obtain ⟨hfirst, hmore⟩ := h
  exact chain_of_spells _ hmore (term_of_spells hfirst limit)
    (fun fuel hfuel => continuation_of_spells hmore limit fuel rest hfuel hrest) hrest

theorem conditionOfTokens_of_spells {ts : List Token} {c : Condition} (h : c.Spells ts) :
    conditionOfTokens ts = within maxDepth c.depth c := by
  have hends : EndsCondition [] := by simp [EndsCondition]
  have hread := conditionWithin_of_spells h maxDepth hends
  rw [List.append_nil] at hread
  rw [conditionOfTokens, condition, hread]
  exact within_map rfl

theorem conditionOfTokens_tokens {c : Condition} (h : c.isSpellable = true) :
    conditionOfTokens c.tokens = within maxDepth c.depth c :=
  conditionOfTokens_of_spells (Condition.spells_tokens h)

theorem pipelineOfTokens_tokens {p : Pipeline} (h : p.isSpellable = true) :
    pipelineOfTokens p.tokens = .ok p := by
  have hends : EndsPipeline [] := by simp [EndsPipeline]
  have hread := pipeline_of_spells (Pipeline.spells_tokens h) hends
  rw [List.append_nil] at hread
  rw [pipelineOfTokens, hread]
  rfl

end Parser

theorem Condition.ofText_of_tokens {text : List Char} {ts : List Token}
    (h : Lexer.tokens text = .ok ts) : ofText text = Parser.conditionOfTokens ts := by
  rw [ofText, h]
  rfl

/-- Tokens spell one condition, however deep its groups are. -/
theorem Condition.Spells.unique {ts : List Token} {c d : Condition} (hc : c.Spells ts)
    (hd : d.Spells ts) : c = d := by
  have hends : Parser.EndsCondition [] := by simp [Parser.EndsCondition]
  have hreadc := Parser.conditionWithin_of_spells hc (max c.depth d.depth) hends
  have hreadd := Parser.conditionWithin_of_spells hd (max c.depth d.depth) hends
  rw [Parser.within, if_pos (Nat.le_max_left _ _)] at hreadc
  rw [Parser.within, if_pos (Nat.le_max_right _ _), hreadc] at hreadd
  exact (Prod.mk.inj (Except.ok.inj hreadd)).1

/-- Different conditions are written differently. -/
theorem Condition.tokens_inj {c d : Condition} (hc : c.isSpellable = true)
    (hd : d.isSpellable = true) (h : c.tokens = d.tokens) : c = d :=
  (Condition.spells_tokens hc).unique (h ▸ Condition.spells_tokens hd)

end Stencil

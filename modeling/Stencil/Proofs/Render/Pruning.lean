import Stencil.Proofs.Render.Conditions
import Stencil.Proofs.Render.Names

/-! # Failures stay local

A tree that names filters which are not registered can be pruned of them: variables behind such a
filter go, operands behind one give way to the constant false, and so do whole comparisons with
one. The pruned tree names registered filters only and takes the same steps into every sink, so
an unknown filter shows nothing, decides nothing and disturbs nothing behind it.
-/
namespace Stencil

section

variable (env : Environment)

/-- Whether all filters behind a name are registered. -/
def Pipeline.known (p : Pipeline) : Bool := p.filters.all fun call => env.has call.name

def Operand.known : Operand → Bool
  | pipeline p => p.known env
  | constant _ => true

/-- The constant false. -/
def Operand.never : Operand := .constant (.bool false)

def Operand.pruned (x : Operand) : Operand := if x.known env then x else .never

mutual

/-- A term without operands behind unknown filters. What stands in front of an operand or a group
stays, so the negation of an operand that went is true. -/
def Term.pruned : Term → Term
  | operand negated x => operand negated (x.pruned env)
  | comparison op left right =>
    if left.known env && right.known env then comparison op left right else operand false .never
  | group negated first rest => group negated (Term.pruned first) (Term.prunedAfter rest)

def Term.prunedAfter : List (Connective × Term) → List (Connective × Term)
  | [] => []
  | (op, t) :: rest => (op, t.pruned) :: Term.prunedAfter rest

end

def Condition.pruned (c : Condition) : Condition :=
  ⟨c.first.pruned env, Term.prunedAfter env c.rest⟩

mutual

/-- What is left of a node: nothing, or the node with pruned conditions and bodies. -/
def Node.pruned : Node → List Node
  | .text s => [.text s]
  | .variable p raw => if p.known env then [.variable p raw] else []
  | .scope name body orElse line =>
    [.scope name (Node.prunedAll body) (Node.prunedAll orElse) line]
  | .choice test body orElse line =>
    [.choice (test.pruned env) (Node.prunedAll body) (Node.prunedAll orElse) line]

def Node.prunedAll : List Node → List Node
  | [] => []
  | n :: rest => n.pruned ++ Node.prunedAll rest

end

end

variable {env : Environment} {context : Context}

theorem FilterCall.apply_unknown {call : FilterCall} (h : env.has call.name = false) (v : Value) :
    call.apply env context v = .error (unknown call.name) := by
  have hnone := Option.isSome_eq_false_iff.mp h
  rw [apply, Option.isNone_iff_eq_none.mp hnone]

/-- It does not matter where in the chain the unknown filter stands: the filters in front of it
give a value that is dropped, or fail themselves. -/
theorem throughFilters_unknown {calls : List FilterCall}
    (h : (calls.all fun call => env.has call.name) = false) (v : Value) :
    throughFilters env context v calls = none := by
  induction calls generalizing v with
  | nil => cases h
  | cons call rest ih =>
    rw [throughFilters]
    cases hcall : env.has call.name with
    | false => rw [FilterCall.apply_unknown hcall]
    | true =>
      -- the unknown one stands further behind, if this one gives anything to go on with
      rw [List.all_cons, hcall, Bool.true_and] at h
      cases call.apply env context v with
      | ok w => exact ih h w
      | error e => rfl

theorem Pipeline.value?_unknown {p : Pipeline} (h : p.known env = false) :
    p.value? env context = none := by
  rw [value?]
  cases context.load? p.name with
  | none => rfl
  | some v => exact throughFilters_unknown h v

theorem Operand.fails_unknown {x : Operand} (h : x.known env = false) : x.Fails env context := by
  cases x with
  | pipeline p => exact ⟨p, rfl, (Pipeline.value?_eq_none_iff env context).mp (p.value?_unknown h)⟩
  | constant l => cases h

theorem Term.holds_never (negated : Bool) :
    (Term.operand negated .never).holds env context = negated := by
  rw [Term.holds]
  exact Bool.false_bne negated

theorem Term.holds_operand_pruned (negated : Bool) (x : Operand) :
    (Term.operand negated (x.pruned env)).holds env context =
      (Term.operand negated x).holds env context := by
  rw [Operand.pruned]
  cases hx : x.known env with
  | true => rfl
  | false =>
    have hfails : x.Fails env context := Operand.fails_unknown hx
    exact (Term.holds_never negated).trans (hfails.holds_operand negated).symm

theorem Operand.comparison_unknown {left right : Operand}
    (h : (left.known env && right.known env) = false) (op : Comparator) :
    (Term.comparison op left right).holds env context = false := by
  cases Bool.and_eq_false_iff.mp h with
  | inl hleft => exact (fails_unknown hleft).comparison_left op right
  | inr hright => exact (fails_unknown hright).comparison_right op left

mutual

theorem Term.holds_pruned : ∀ t : Term, (t.pruned env).holds env context = t.holds env context
  | .operand negated x => by
    rw [Term.pruned]
    exact Term.holds_operand_pruned negated x
  | .comparison op left right => by
    rw [Term.pruned]
    cases h : left.known env && right.known env with
    | true => rfl
    | false => exact (Term.holds_never false).trans (Operand.comparison_unknown h op).symm
  | .group negated first rest => by
    rw [Term.pruned, Term.holds, Term.holds, Term.holds_pruned first, Term.holdsAfter_pruned rest]

theorem Term.holdsAfter_pruned : ∀ (rest : List (Connective × Term)) (joined : Bool),
    Term.holdsAfter env context joined (Term.prunedAfter env rest) =
      Term.holdsAfter env context joined rest
  | [], _ => rfl
  | (op, t) :: rest, joined => by
    rw [Term.prunedAfter, Term.holdsAfter, Term.holdsAfter, Term.holds_pruned t,
      Term.holdsAfter_pruned rest]

end

theorem Condition.holds_pruned (c : Condition) :
    (c.pruned env).holds env context = c.holds env context := by
  rw [Condition.holds, Condition.holds, Condition.pruned, Term.holds_pruned, Term.holdsAfter_pruned]

namespace Render

variable {σ : Type} {out : Sink σ}

theorem node_unknown {p : Pipeline} (h : p.known env = false) (raw : Bool) :
    node env out (.variable p raw) = skip := by
  funext s
  unfold node
  rw [p.value?_unknown h]
  rfl

mutual

/-- What is left of a node takes the steps of the node, whatever comes behind. -/
theorem nodes_pruned : ∀ (n : Node) (rest : List Node),
    nodes env out (n.pruned env ++ rest) = andThen (node env out n) (nodes env out rest)
  | .text s, rest => by rw [Node.pruned, List.singleton_append, nodes]
  | .variable p raw, rest => by
    rw [Node.pruned]
    cases hp : p.known env with
    | true => exact nodes.eq_2 env out _ rest
    | false =>
      rw [node_unknown hp]
      rfl
  | .scope name body orElse line, rest => by
    rw [Node.pruned, List.singleton_append, nodes, node, node, nodes_prunedAll body]
  | .choice test body orElse line, rest => by
    rw [Node.pruned, List.singleton_append, nodes, node, node, nodes_prunedAll body,
      nodes_prunedAll orElse]
    simp only [Condition.holds_pruned]

theorem nodes_prunedAll : ∀ tree : List Node,
    nodes env out (Node.prunedAll env tree) = nodes env out tree
  | [] => by rw [Node.prunedAll]
  | n :: rest => by rw [Node.prunedAll, nodes_pruned n, nodes_prunedAll rest, nodes]

end

end Render

theorem Node.pipelinesAll_append (front back : List Node) :
    Node.pipelinesAll (front ++ back) = Node.pipelinesAll front ++ Node.pipelinesAll back := by
  induction front with
  | nil => rfl
  | cons n front ih =>
    rw [List.cons_append, Node.pipelinesAll, Node.pipelinesAll, ih, List.append_assoc]

theorem Operand.known_of_pruned (x : Operand) : ∀ p ∈ (x.pruned env).pipelines, p.known env := by
  rw [Operand.pruned]
  cases hx : x.known env with
  | false => exact fun p hp => nomatch hp
  | true =>
    cases x with
    | constant l => exact fun p hp => nomatch hp
    | pipeline q =>
      intro p hp
      cases List.mem_singleton.mp hp
      exact hx

/-- Operands that are known stay as they are. -/
theorem Operand.pruned_of_known {x : Operand} (h : x.known env = true) : x.pruned env = x := by
  rw [Operand.pruned, if_pos h]

mutual

theorem Term.known_of_pruned : ∀ t : Term, ∀ p ∈ (t.pruned env).pipelines, p.known env
  | .operand negated x => by
    rw [Term.pruned, Term.pipelines]
    exact x.known_of_pruned
  | .comparison op left right => by
    rw [Term.pruned]
    cases h : left.known env && right.known env with
    | false => exact fun p hp => nomatch hp
    | true =>
      obtain ⟨hleft, hright⟩ := Bool.and_eq_true_iff.mp h
      rw [if_pos rfl, Term.pipelines, ← Operand.pruned_of_known hleft,
        ← Operand.pruned_of_known hright, List.forall_mem_append]
      exact ⟨left.known_of_pruned, right.known_of_pruned⟩
  | .group negated first rest => by
    rw [Term.pruned, Term.pipelines, List.forall_mem_append]
    exact ⟨first.known_of_pruned, Term.known_of_prunedAfter rest⟩

theorem Term.known_of_prunedAfter : ∀ rest : List (Connective × Term),
    ∀ p ∈ Term.pipelinesAfter (Term.prunedAfter env rest), p.known env
  | [] => fun p hp => nomatch hp
  | (op, t) :: rest => by
    rw [Term.prunedAfter, Term.pipelinesAfter, List.forall_mem_append]
    exact ⟨t.known_of_pruned, Term.known_of_prunedAfter rest⟩

end

theorem Condition.known_of_pruned (c : Condition) :
    ∀ p ∈ (c.pruned env).pipelines, p.known env := by
  rw [Condition.pipelines, List.forall_mem_append]
  exact ⟨c.first.known_of_pruned, Term.known_of_prunedAfter c.rest⟩

mutual

theorem Node.known_of_pruned : ∀ n : Node, ∀ p ∈ Node.pipelinesAll (n.pruned env), p.known env
  | .text s => fun p hp => nomatch hp
  | .variable q raw => by
    rw [Node.pruned]
    cases hq : q.known env with
    | false => exact fun p hp => nomatch hp
    | true =>
      intro p hp
      cases List.mem_singleton.mp hp
      exact hq
  | .scope name body orElse line => by
    rw [Node.pruned, Node.pipelinesAll, Node.pipelinesAll, List.append_nil, Node.pipelines,
      List.cons_append, List.forall_mem_cons, List.forall_mem_append]
    exact ⟨rfl, Node.known_of_prunedAll body, Node.known_of_prunedAll orElse⟩
  | .choice test body orElse line => by
    rw [Node.pruned, Node.pipelinesAll, Node.pipelinesAll, List.append_nil, Node.pipelines,
      List.forall_mem_append, List.forall_mem_append]
    exact ⟨⟨test.known_of_pruned, Node.known_of_prunedAll body⟩, Node.known_of_prunedAll orElse⟩

theorem Node.known_of_prunedAll : ∀ tree : List Node,
    ∀ p ∈ Node.pipelinesAll (Node.prunedAll env tree), p.known env
  | [] => fun p hp => nomatch hp
  | n :: rest => by
    rw [Node.prunedAll, Node.pipelinesAll_append, List.forall_mem_append]
    exact ⟨n.known_of_pruned, Node.known_of_prunedAll rest⟩

end

theorem has_of_mem_filtersOf_pruned {tree : List Node} {name : String}
    (h : name ∈ filtersOf (Node.prunedAll env tree)) : env.has name = true := by
  obtain ⟨p, hp, hname⟩ := List.mem_flatMap.mp h
  obtain ⟨call, hcall, rfl⟩ := List.mem_map.mp hname
  exact List.all_eq_true.mp (Node.known_of_prunedAll tree p hp) call hcall

namespace Environment

/-- A template without its uses of unknown filters. -/
def prune (env : Environment) (t : Template) : Template :=
  { t with nodes := Node.prunedAll env t.nodes }

theorem render_prune (env : Environment) (t : Template) (chain : List Value) :
    env.render (env.prune t) chain = env.render t chain := by
  rw [render, render, Render.run, Render.run, prune, Render.nodes_prunedAll]

/-- Where a filter is removed, templates show what they show without their uses of it. -/
theorem render_remove (env : Environment) (name : String) (t : Template) (chain : List Value) :
    (env.remove name).render t chain = env.render ((env.remove name).prune t) chain := by
  rw [← render_prune]
  -- the pruned tree does not name the filter, so it shows the same with and without it
  refine Render.sink_congr (fun _ _ => rfl) fun k hk => find?_remove env fun hname => ?_
  have hhas := has_of_mem_filtersOf_pruned hk
  rw [hname, has, find?, remove, NameTable.lookup_erase, if_pos rfl] at hhas
  cases hhas

/-- Pruning a tree of unknown filters changes no step of a walk, so neither what a sink takes nor
where it refuses, and no text. The tree that is left names registered filters only. -/
theorem unknown_filters_stay_local (env : Environment) (tree : List Node) :
    (∀ {σ : Type} (out : Sink σ),
      Render.nodes env out (Node.prunedAll env tree) = Render.nodes env out tree) ∧
    (∀ (name : Option String) (source : String) (chain : List Value),
      env.render ⟨name, source, Node.prunedAll env tree⟩ chain =
        env.render ⟨name, source, tree⟩ chain) ∧
    ∀ name ∈ filtersOf (Node.prunedAll env tree), env.has name = true :=
  ⟨fun _ => Render.nodes_prunedAll tree, fun name source => env.render_prune ⟨name, source, tree⟩,
    fun _ => has_of_mem_filtersOf_pruned⟩

/-- In a loop: an unknown filter between others, one behind a filter that fails, under a negation
and on one side of a negated comparison. -/
theorem unknown_filters_stay_local_loop :
    let env : Environment :=
      ⟨[("fail", fun _ => .error .unwritable), ("same", fun vs => .ok (vs.headD .absent))]⟩
    let item : Pipeline := ⟨".", [⟨"same", []⟩]⟩
    let late : Pipeline := ⟨".", [⟨"same", []⟩, ⟨"lost", []⟩, ⟨"same", []⟩]⟩
    let hidden : Pipeline := ⟨".", [⟨"fail", []⟩, ⟨"lost", []⟩]⟩
    let unequal : Term := .comparison .ne (.pipeline item) (.pipeline late)
    let test : Condition := ⟨.operand true (.pipeline hidden), [(.and, .group true unequal [])]⟩
    let tree : List Node :=
      [.scope "items" [.variable late false,
        .choice test [.variable item false] [.variable hidden true] 1] [] 1, .text "."]
    let decided : Condition :=
      ⟨.operand true .never, [(.and, .group true (.operand false .never) [])]⟩
    let left : List Node :=
      [.scope "items" [.choice decided [.variable item false] [] 1] [] 1, .text "."]
    let data : Value := .record [("items", .seq [.bool true, .text "<"])]
    env.has "lost" = false ∧ Node.prunedAll env tree = left ∧
      Render.nodes env .text left = Render.nodes env .text tree ∧
      env.render ⟨none, "", left⟩ [data] = env.render ⟨none, "", tree⟩ [data] ∧
      env.render ⟨none, "", left⟩ [data] = "true&lt;." ∧
      ∀ name ∈ filtersOf left, env.has name = true := by
  intro env item late hidden unequal test tree decided left data
  obtain ⟨hnodes, hrender, hknown⟩ := unknown_filters_stay_local env tree
  exact ⟨rfl, rfl, hnodes .text, hrender none "" [data], by decide +kernel, hknown⟩

end Environment

end Stencil

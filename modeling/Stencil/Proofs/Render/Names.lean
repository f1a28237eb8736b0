import Stencil.Proofs.Render.Writes

/-! # Rendering depends on names alone

A tree mentions names of values and names of filters. Contexts that answer alike to the first, with
environments that answer alike to the second, give the same text. Sections push frames on both
sides; a frame pushed on two contexts that answer alike leaves them so, whatever names it captures.
-/
namespace Stencil

def Argument.lookup? : Argument → Option String
  | constant _ => none
  | lookup name => some name

/-- The names that a pipeline looks up: its own, and those among the arguments of its filters. -/
def Pipeline.lookups (p : Pipeline) : List String :=
  p.name :: p.filters.flatMap fun call => call.arguments.filterMap Argument.lookup?

def Pipeline.filterNames (p : Pipeline) : List String := p.filters.map FilterCall.name

def Operand.pipelines : Operand → List Pipeline
  | pipeline p => [p]
  | constant _ => []

mutual

def Term.pipelines : Term → List Pipeline
  | operand _ x => x.pipelines
  | comparison _ left right => left.pipelines ++ right.pipelines
  | group _ first rest => first.pipelines ++ Term.pipelinesAfter rest

def Term.pipelinesAfter : List (Connective × Term) → List Pipeline
  | [] => []
  | (_, t) :: rest => t.pipelines ++ Term.pipelinesAfter rest

end

def Condition.pipelines (c : Condition) : List Pipeline :=
  c.first.pipelines ++ Term.pipelinesAfter c.rest

mutual

/-- The pipelines in a node. The name of a section counts as one without filters. -/
def Node.pipelines : Node → List Pipeline
  | .text _ => []
  | .variable p _ => [p]
  | .scope name body orElse _ =>
    ⟨name, []⟩ :: Node.pipelinesAll body ++ Node.pipelinesAll orElse
  | .choice test body orElse _ =>
    test.pipelines ++ Node.pipelinesAll body ++ Node.pipelinesAll orElse

def Node.pipelinesAll : List Node → List Pipeline
  | [] => []
  | n :: rest => n.pipelines ++ Node.pipelinesAll rest

end

/-- The names that a tree looks up. -/
def lookupsOf (tree : List Node) : List String :=
  (Node.pipelinesAll tree).flatMap Pipeline.lookups

def filtersOf (tree : List Node) : List String :=
  (Node.pipelinesAll tree).flatMap Pipeline.filterNames

/-- Whether two environments in two contexts answer alike to all names in some pipelines. -/
structure AnswerAlike (env other : Environment) (context altered : Context) (ps : List Pipeline) :
    Prop where
  lookup : ∀ p ∈ ps, ∀ name ∈ p.lookups, context.load? name = altered.load? name
  filter : ∀ p ∈ ps, ∀ name ∈ p.filterNames, env.find? name = other.find? name

theorem Context.load?_cons (f : Frame) (context : Context) (name : String) :
    Context.load? (f :: context) name = (f.load? name).or (context.load? name) := by
  rw [load?, List.findSome?_cons]
  cases f.load? name <;> rfl

theorem Context.load?_append (inner outer : Context) (name : String) :
    Context.load? (inner ++ outer) name = (inner.load? name).or (outer.load? name) :=
  List.findSome?_append

variable {env other : Environment} {context altered : Context} {ps qs : List Pipeline}

namespace AnswerAlike

theorem mono (h : AnswerAlike env other context altered ps) (hsub : qs ⊆ ps) :
    AnswerAlike env other context altered qs :=
  ⟨fun p hp => h.lookup p (hsub hp), fun p hp => h.filter p (hsub hp)⟩

theorem left (h : AnswerAlike env other context altered (ps ++ qs)) :
    AnswerAlike env other context altered ps := h.mono (List.subset_append_left ps qs)

theorem right (h : AnswerAlike env other context altered (ps ++ qs)) :
    AnswerAlike env other context altered qs := h.mono (List.subset_append_right ps qs)

/-- The same frame pushed on both sides answers for both. -/
theorem push (h : AnswerAlike env other context altered ps) (f : Frame) :
    AnswerAlike env other (f :: context) (f :: altered) ps := by
  refine ⟨fun p hp name hname => ?_, h.filter⟩
  rw [Context.load?_cons, Context.load?_cons, h.lookup p hp name hname]

end AnswerAlike

theorem Argument.value_congr {a : Argument}
    (h : ∀ name ∈ a.lookup?, context.load? name = altered.load? name) :
    a.value context = a.value altered := by
  cases a with
  | constant l => rfl
  | lookup name => rw [value, value, h name rfl]

theorem FilterCall.apply_congr {call : FilterCall}
    (hargs : ∀ name ∈ call.arguments.filterMap Argument.lookup?,
      context.load? name = altered.load? name)
    (hfind : env.find? call.name = other.find? call.name) (v : Value) :
    call.apply env context v = call.apply other altered v := by
  have hvalues : call.arguments.map (Argument.value context) =
      call.arguments.map (Argument.value altered) := by
    refine List.map_congr_left fun a ha => Argument.value_congr fun name hname => ?_
    exact hargs name (List.mem_filterMap.mpr ⟨a, ha, hname⟩)
  rw [apply, apply, hfind, hvalues]

theorem throughFilters_congr {calls : List FilterCall}
    (h : ∀ call ∈ calls, ∀ v, call.apply env context v = call.apply other altered v) (v : Value) :
    throughFilters env context v calls = throughFilters other altered v calls := by
  induction calls generalizing v with
  | nil => rfl
  | cons call rest ih =>
    rw [throughFilters, throughFilters, h call List.mem_cons_self]
    cases call.apply other altered v with
    | error e => rfl
    | ok w => exact ih (fun c hc => h c (List.mem_cons_of_mem call hc)) w

namespace AnswerAlike

theorem pipeline {p : Pipeline} (h : AnswerAlike env other context altered [p]) :
    p.value? env context = p.value? other altered := by
  have hname := h.lookup p List.mem_cons_self p.name List.mem_cons_self
  have hcalls : ∀ call ∈ p.filters, ∀ v,
      call.apply env context v = call.apply other altered v := by
    refine fun call hcall => FilterCall.apply_congr (fun name hn => ?_) ?_
    · exact h.lookup p List.mem_cons_self name
        (List.mem_cons_of_mem _ (List.mem_flatMap.mpr ⟨call, hcall, hn⟩))
    · exact h.filter p List.mem_cons_self call.name (List.mem_map_of_mem hcall)
  rw [Pipeline.value?, Pipeline.value?, hname]
  exact congrArg _ (funext fun v => throughFilters_congr hcalls v)

theorem operand {x : Operand} (h : AnswerAlike env other context altered x.pipelines) :
    x.value? env context = x.value? other altered := by
  cases x with
  | pipeline p => exact h.pipeline
  | constant l => rfl

mutual

theorem term : ∀ (t : Term), AnswerAlike env other context altered t.pipelines →
    t.holds env context = t.holds other altered
  | .operand negated x, h => by
    rw [Term.pipelines] at h
    rw [Term.holds, Term.holds, Operand.holds, Operand.holds, h.operand]
  | .comparison op left right, h => by
    rw [Term.pipelines] at h
    rw [Term.holds, Term.holds, comparisonHolds, comparisonHolds, h.left.operand, h.right.operand]
  | .group negated first rest, h => by
    rw [Term.pipelines] at h
    rw [Term.holds, Term.holds, term first h.left, termsAfter rest h.right]

theorem termsAfter : ∀ (rest : List (Connective × Term)),
    AnswerAlike env other context altered (Term.pipelinesAfter rest) →
    ∀ joined, Term.holdsAfter env context joined rest = Term.holdsAfter other altered joined rest
  | [], _, _ => rfl
  | (op, t) :: rest, h, joined => by
    rw [Term.pipelinesAfter] at h
    rw [Term.holdsAfter, Term.holdsAfter, term t h.left, termsAfter rest h.right]

end

theorem condition {c : Condition} (h : AnswerAlike env other context altered c.pipelines) :
    c.holds env context = c.holds other altered := by
  rw [Condition.holds, Condition.holds, term c.first h.left, termsAfter c.rest h.right]

end AnswerAlike

namespace Meaning

variable {body changed : Context → String}

theorem items_congr (h : ∀ f, body (f :: context) = changed (f :: altered)) (vs : List Value)
    (position : Nat) : items body context position vs = items changed altered position vs := by
  induction vs generalizing position with
  | nil => rfl
  | cons v rest ih => rw [items, items, h, ih]

/-- A section takes its body in a frame of its own or where it stands itself. -/
theorem scope_congr {name : String} (hname : context.load? name = altered.load? name)
    (hbody : body context = changed altered)
    (hpush : ∀ f, body (f :: context) = changed (f :: altered)) :
    scope name body context = scope name changed altered := by
  rw [scope, scope, hname]
  cases altered.load? name with
  | none => rfl
  | some v =>
    dsimp only
    by_cases hf : v.isFalsy
    · rw [if_pos hf, if_pos hf]
    · rw [if_neg hf, if_neg hf]
      cases v with
      | seq vs => exact items_congr hpush vs 0
      | record | object => exact hpush _
      | absent | bool | int | float | text | callable => exact hbody

mutual

theorem node_congr : ∀ (n : Node) (context altered : Context),
    AnswerAlike env other context altered n.pipelines →
    node env n context = node other n altered
  | .text s, _, _, _ => by rw [node, node]
  | .variable p raw, _, _, h => by
    rw [Node.pipelines] at h
    rw [node, node, h.pipeline]
  | .scope name body orElse line, context, altered, h => by
    rw [Node.pipelines] at h
    have hname := h.lookup ⟨name, []⟩ List.mem_cons_self name List.mem_cons_self
    have hbody := h.left.mono (List.subset_cons_self _ _)
    rw [node, node]
    exact scope_congr hname (nodes_congr body context altered hbody)
      fun f => nodes_congr body (f :: context) (f :: altered) (hbody.push f)
  | .choice test body orElse line, context, altered, h => by
    rw [Node.pipelines] at h
    rw [node, node, h.left.left.condition, nodes_congr body context altered h.left.right,
      nodes_congr orElse context altered h.right]

theorem nodes_congr : ∀ (tree : List Node) (context altered : Context),
    AnswerAlike env other context altered (Node.pipelinesAll tree) →
    nodes env tree context = nodes other tree altered
  | [], _, _, _ => by rw [nodes, nodes]
  | n :: rest, context, altered, h => by
    rw [Node.pipelinesAll] at h
    rw [nodes, nodes, node_congr n context altered h.left, nodes_congr rest context altered h.right]

end

end Meaning

/-- Trees that are rendered in contexts and environments that answer alike give the same text. -/
theorem Render.sink_congr {tree : List Node}
    (hlookup : ∀ name ∈ lookupsOf tree, context.load? name = altered.load? name)
    (hfilter : ∀ name ∈ filtersOf tree, env.find? name = other.find? name) :
    (nodes env .text tree ⟨context, ""⟩).1.sink =
      (nodes other .text tree ⟨altered, ""⟩).1.sink := by
  have halike : AnswerAlike env other context altered (Node.pipelinesAll tree) :=
    ⟨fun p hp name hname => hlookup name (List.mem_flatMap.mpr ⟨p, hp, hname⟩),
      fun p hp name hname => hfilter name (List.mem_flatMap.mpr ⟨p, hp, hname⟩)⟩
  rw [sink_eq_meaning, sink_eq_meaning, Meaning.nodes_congr tree context altered halike]

theorem Context.load?_insert {name : String} (inner outer : Context) {added : Context}
    (h : ∀ f ∈ added, f.load? name = none) :
    Context.load? (inner ++ added ++ outer) name = Context.load? (inner ++ outer) name := by
  have hadded : Context.load? added name = none := List.findSome?_eq_none_iff.mpr h
  rw [load?_append, load?_append, load?_append, hadded, Option.or_none]

namespace Environment

/-- A layout sees two names more than the chain that it is rendered against. -/
theorem load?_content {name : String} (hname : name ≠ contentName) (hself : name ≠ Frame.selfName)
    (text : String) : Frame.load? ⟨.record [(contentName, .text text)], none⟩ name = none := by
  have hbeq : (name == contentName) = false := by simpa using hname
  rw [Frame.load?, if_neg hself]
  show (List.lookup name [(contentName, Value.text text)]).map Value.invoke = none
  rw [List.lookup_cons, hbeq]
  rfl

theorem find?_add (env : Environment) {name k : String} (h : k ≠ name) (f : Filter) :
    (env.add name f).find? k = env.find? k := by
  rw [find?, add, NameTable.lookup_insert, if_neg h, find?]

theorem find?_remove (env : Environment) {name k : String} (h : k ≠ name) :
    (env.remove name).find? k = env.find? k := by
  rw [find?, remove, NameTable.lookup_erase, if_neg h, find?]

/-- A text depends on the context and the environment only through the names in the tree. So a
layout that names neither the content nor itself shows what it shows alone, filters that are not
named can be registered, replaced and removed, and values that answer to none of the names can be
added to the chain or taken from it. -/
theorem render_depends_on_names :
    (∀ (tree : List Node) (env other : Environment) (context altered : Context),
      (∀ name ∈ lookupsOf tree, context.load? name = altered.load? name) →
      (∀ name ∈ filtersOf tree, env.find? name = other.find? name) →
      (Render.nodes env .text tree ⟨context, ""⟩).1.sink =
        (Render.nodes other .text tree ⟨altered, ""⟩).1.sink) ∧
    (∀ (env : Environment) (t layout : Template) (chain : List Value),
      contentName ∉ lookupsOf layout.nodes → Frame.selfName ∉ lookupsOf layout.nodes →
      env.renderInLayout t layout chain = env.render layout chain) ∧
    (∀ (env : Environment) (t : Template) (chain : List Value) (name : String),
      name ∉ filtersOf t.nodes →
      (∀ f, (env.add name f).render t chain = env.render t chain) ∧
      (env.remove name).render t chain = env.render t chain) ∧
    ∀ (env : Environment) (t : Template) (inner added outer : List Value),
      (∀ v ∈ added, ∀ name ∈ lookupsOf t.nodes, Frame.load? ⟨v, none⟩ name = none) →
      env.render t (inner ++ added ++ outer) = env.render t (inner ++ outer) := by
  refine ⟨fun tree env other context altered => Render.sink_congr, ?_, ?_, ?_⟩
  · intro env t layout chain hcontent hself
    refine Render.sink_congr (fun name hname => ?_) fun _ _ => rfl
    have hframe := load?_content (fun h => hcontent (h ▸ hname)) (fun h => hself (h ▸ hname))
      (env.render t chain)
    have hcons := Context.load?_cons ⟨.record [(contentName, .text (env.render t chain))], none⟩
      (.ofChain chain) name
    rwa [hframe, Option.none_or] at hcons
  · intro env t chain name hname
    have hother : ∀ k ∈ filtersOf t.nodes, k ≠ name := fun k hk heq => hname (heq ▸ hk)
    exact ⟨fun f => Render.sink_congr (fun _ _ => rfl) fun k hk => env.find?_add (hother k hk) f,
      Render.sink_congr (fun _ _ => rfl) fun k hk => env.find?_remove (hother k hk)⟩
  · intro env t inner added outer hadded
    refine Render.sink_congr (fun name hname => ?_) fun _ _ => rfl
    simp only [Context.ofChain, List.map_append]
    refine Context.load?_insert _ _ fun f hf => ?_
    obtain ⟨v, hv, rfl⟩ := List.mem_map.mp hf
    exact hadded v hv name hname

/-- A loop that shows positions, and a name from outside behind a filter: against data with a
secret in it and with one more filter, in place of a layout, and inside of other data. -/
theorem render_depends_on_names_loop :
    let title : Pipeline := ⟨"title", [⟨"show", [.lookup "mode"]⟩]⟩
    let tree : List Node :=
      [.scope "items" [.variable ⟨".index1", []⟩ false, .variable title true] [] 1]
    let env : Environment := ⟨[("show", fun vs => .ok (vs.headD .absent))]⟩
    let other := env.add "hide" fun _ => .ok .absent
    let data : List (String × Value) := [("items", .seq [.int 5, .int 7]), ("title", .text "<")]
    let secret : Value := .record [("secret", .text "s")]
    (∀ name ∈ lookupsOf tree, Context.load? (.ofChain [.record data]) name =
      Context.load? (.ofChain [.record (("secret", .text "s") :: data)]) name) ∧
    (∀ name ∈ filtersOf tree, env.find? name = other.find? name) ∧
    (Render.nodes env .text tree ⟨.ofChain [.record data], ""⟩).1.sink =
      (Render.nodes other .text tree
        ⟨.ofChain [.record (("secret", .text "s") :: data)], ""⟩).1.sink ∧
    (contentName ∉ lookupsOf tree ∧ Frame.selfName ∉ lookupsOf tree) ∧
    env.renderInLayout ⟨none, "", []⟩ ⟨none, "", tree⟩ [.record data] =
      env.render ⟨none, "", tree⟩ [.record data] ∧
    "hide" ∉ filtersOf tree ∧
    (env.remove "hide").render ⟨none, "", tree⟩ [.record data] =
      env.render ⟨none, "", tree⟩ [.record data] ∧
    (∀ v ∈ [secret], ∀ name ∈ lookupsOf tree, Frame.load? ⟨v, none⟩ name = none) ∧
    env.render ⟨none, "", tree⟩ ([.record data] ++ [secret] ++ []) =
      env.render ⟨none, "", tree⟩ ([.record data] ++ []) := by
  intro title tree env other data secret
  obtain ⟨hall, hlayout, hfilters, hframes⟩ := render_depends_on_names
  have hlookups : ∀ name ∈ lookupsOf tree, Context.load? (.ofChain [.record data]) name =
      Context.load? (.ofChain [.record (("secret", .text "s") :: data)]) name := by
    have hnames : lookupsOf tree = ["items", ".index1", "title", "mode"] := by decide
    rw [hnames]
    simp only [List.forall_mem_cons]
    exact ⟨rfl, rfl, rfl, rfl, by simp⟩
  have hfind : ∀ name ∈ filtersOf tree, env.find? name = other.find? name := by
    have hnames : filtersOf tree = ["show"] := by decide
    rw [hnames]
    simp only [List.forall_mem_cons]
    exact ⟨rfl, by simp⟩
  have hsecret : ∀ v ∈ [secret], ∀ name ∈ lookupsOf tree, Frame.load? ⟨v, none⟩ name = none := by
    have hnames : lookupsOf tree = ["items", ".index1", "title", "mode"] := by decide
    rw [hnames]
    simp only [List.forall_mem_cons]
    exact ⟨⟨rfl, rfl, rfl, rfl, by simp⟩, by simp⟩
  have hcontent : contentName ∉ lookupsOf tree := by decide
  have hself : Frame.selfName ∉ lookupsOf tree := by decide
  have hhide : "hide" ∉ filtersOf tree := by decide
  exact ⟨hlookups, hfind, hall tree env other _ _ hlookups hfind, ⟨hcontent, hself⟩,
    hlayout env _ ⟨none, "", tree⟩ _ hcontent hself, hhide,
    (hfilters env ⟨none, "", tree⟩ _ "hide" hhide).2, hsecret,
    hframes env ⟨none, "", tree⟩ [.record data] [secret] [] hsecret⟩

end Environment

end Stencil

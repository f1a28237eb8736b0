import Stencil.Render.Meaning

/-! # Rendering writes the meaning

A program of the machine that leaves the frames alone is described by the texts that it hands to
its sink: the sink decides how many of them are taken, and nothing else happens. Every node is
such a program, and its texts make up its meaning. The frames that a section pushes are the
frames under which the meaning of its body is taken, so that they are gone again afterwards, also
when a text was refused in between.
-/
namespace Stencil

variable {σ : Type}

namespace Sink

def NeverRefuses (out : Sink σ) : Prop := ∀ sink text, (out.write sink text).2 = true

/-- Hands over texts one after another, until one is refused. -/
def writeAll (out : Sink σ) : List String → σ → σ × Bool
  | [], sink => (sink, true)
  | text :: rest, sink => match out.write sink text with
    | (sink, true) => writeAll out rest sink
    | (sink, false) => (sink, false)

theorem writeAll_append (out : Sink σ) (a b : List String) (sink : σ) :
    out.writeAll (a ++ b) sink =
      if (out.writeAll a sink).2 then out.writeAll b (out.writeAll a sink).1
      else ((out.writeAll a sink).1, false) := by
  induction a generalizing sink with
  | nil => simp [writeAll]
  | cons text rest ih =>
    rw [List.cons_append, writeAll, writeAll]
    rcases out.write sink text with ⟨sink, _ | _⟩
    · simp
    · exact ih sink

theorem NeverRefuses.writeAll {out : Sink σ} (h : out.NeverRefuses) (texts : List String)
    (sink : σ) :
    out.writeAll texts sink = (texts.foldl (fun sink text => (out.write sink text).1) sink, true) := by
  induction texts generalizing sink with
  | nil => rfl
  | cons text rest ih =>
    have ht := h sink text
    rw [Sink.writeAll, List.foldl_cons, ← ih]
    rcases he : out.write sink text with ⟨taken, more⟩
    rw [he] at ht
    subst ht
    rfl

theorem writeAll_text (texts : List String) (taken : String) :
    text.writeAll texts taken = (taken ++ String.join texts, true) := by
  induction texts generalizing taken with
  | nil => simp [writeAll]
  | cons s rest ih =>
    rw [String.join_cons, ← String.append_assoc]
    exact ih (taken ++ s)

end Sink

namespace Render

/-- In a context, a program hands over texts that make up the given one, whatever the sink is, and
leaves the frames as they were. -/
def Writes (program : ∀ σ : Type, Sink σ → Run σ) (context : Context) (text : String) : Prop :=
  ∃ pieces : List String, String.join pieces = text ∧
    ∀ (σ : Type) (out : Sink σ) (sink : σ), program σ out ⟨context, sink⟩ =
      (⟨context, (out.writeAll pieces sink).1⟩, (out.writeAll pieces sink).2)

variable {context : Context} {p q : ∀ σ : Type, Sink σ → Run σ} {text a b : String}

/-- Only what a program does in the given context matters. -/
theorem Writes.congr (hq : Writes q context text)
    (h : ∀ (σ : Type) (out : Sink σ) (sink : σ), p σ out ⟨context, sink⟩ = q σ out ⟨context, sink⟩) :
    Writes p context text := by
  obtain ⟨pieces, hj, hq⟩ := hq
  exact ⟨pieces, hj, fun σ out sink => (h σ out sink).trans (hq σ out sink)⟩

theorem writes_skip : Writes (fun _ _ => skip) context "" := ⟨[], rfl, fun _ _ _ => rfl⟩

theorem Writes.andThen (hp : Writes p context a) (hq : Writes q context b) :
    Writes (fun σ out => andThen (p σ out) (q σ out)) context (a ++ b) := by
  obtain ⟨first, rfl, hp⟩ := hp
  obtain ⟨second, rfl, hq⟩ := hq
  refine ⟨first ++ second, String.join_append, ?_⟩
  intro σ out sink
  simp only [Render.andThen, hp, Sink.writeAll_append]
  rcases out.writeAll first sink with ⟨sink, _ | _⟩
  · rfl
  · exact hq σ out sink

theorem writes_emit (text : String) : Writes (fun _ out => emit out text) context text := by
  refine ⟨[text], by simp, ?_⟩
  intro σ out sink
  rcases he : out.write sink text with ⟨taken, _ | _⟩ <;> simp only [emit, Sink.writeAll, he]

theorem writes_emitAll (pieces : List String) :
    Writes (fun _ out => emitAll out pieces) context (String.join pieces) := by
  induction pieces with
  | nil => exact writes_skip
  | cons text rest ih =>
    rw [String.join_cons]
    exact (writes_emit text).andThen ih

/-- The frame of a step is gone after the step, however it ended. -/
theorem Writes.within {frame : Frame} (h : Writes p (frame :: context) text) :
    Writes (fun σ out => within frame (p σ out)) context text := by
  obtain ⟨pieces, rfl, h⟩ := h
  refine ⟨pieces, rfl, ?_⟩
  intro σ out sink
  simp only [Render.within, h, List.tail_cons]

variable {body : Context → String}

theorem writes_eachItem (h : ∀ context, Writes p context (body context)) (position : Nat)
    (items : List Value) :
    Writes (fun σ out => eachItem (p σ out) position items) context
      (Meaning.items body context position items) := by
  induction items generalizing position with
  | nil => exact writes_skip
  | cons v rest ih => exact (h (⟨v, some position⟩ :: context)).within.andThen (ih (position + 1))

theorem writes_section (name : String) (h : ∀ context, Writes p context (body context)) :
    Writes (fun σ out => section? name (p σ out)) context (Meaning.scope name body context) := by
  unfold Meaning.scope
  cases hv : context.load? name with
  | none => exact writes_skip.congr fun _ _ _ => by simp only [section?, hv]; rfl
  | some v =>
    dsimp only
    by_cases hf : v.isFalsy
    · rw [if_pos hf]
      exact writes_skip.congr fun _ _ _ => by simp only [section?, hv, if_pos hf]; rfl
    · rw [if_neg hf]
      -- what is left of the section is the step that the sort of the value asks for
      cases v with
      | seq items =>
        exact (writes_eachItem h 0 items).congr fun _ _ _ => by simp only [section?, hv, if_neg hf]
      | record entries =>
        exact (h _).within.congr fun _ _ _ => by simp only [section?, hv, if_neg hf]
      | object identity display debug field method =>
        exact (h _).within.congr fun _ _ _ => by simp only [section?, hv, if_neg hf]
      | absent | bool | int | float | text | callable =>
        exact (h context).congr fun _ _ _ => by simp only [section?, hv, if_neg hf]

theorem writes_variable (env : Environment) (pipeline : Pipeline) (raw : Bool) :
    Writes (fun _ out => node env out (.variable pipeline raw)) context
      (Meaning.node env (.variable pipeline raw) context) := by
  unfold Meaning.node
  cases hv : pipeline.value? env context with
  | none => exact writes_skip.congr fun _ _ _ => by simp only [node, hv]; rfl
  | some v =>
    cases raw with
    | true => exact (writes_emit v.display).congr fun _ _ _ => by simp only [node, hv]; rfl
    | false =>
      exact (writes_emitAll (Text.escapePieces v.display)).congr fun _ _ _ => by
        simp only [node, hv]; rfl

mutual

/-- A node writes its meaning. -/
theorem writes_node (env : Environment) : ∀ (n : Node) (context : Context),
    Writes (fun _ out => node env out n) context (Meaning.node env n context)
  | .text text, _ => by
    unfold node Meaning.node
    exact writes_emit text
  | .variable pipeline raw, _ => writes_variable env pipeline raw
  | .scope name body _ _, _ => by
    unfold node Meaning.node
    exact writes_section name (writes_nodes env body)
  | .choice test body orElse _, context => by
    unfold node Meaning.node
    by_cases ht : test.holds env context
    · rw [if_pos ht]
      exact (writes_nodes env body context).congr fun _ _ _ => if_pos ht
    · rw [if_neg ht]
      exact (writes_nodes env orElse context).congr fun _ _ _ => if_neg ht

/-- Nodes one after another write their meanings one after another. -/
theorem writes_nodes (env : Environment) : ∀ (tree : List Node) (context : Context),
    Writes (fun _ out => nodes env out tree) context (Meaning.nodes env tree context)
  | [], _ => by
    unfold nodes Meaning.nodes
    exact writes_skip
  | n :: rest, context => by
    unfold nodes Meaning.nodes
    exact (writes_node env n context).andThen (writes_nodes env rest context)

end

/-- The meaning of a tree is that of its nodes, each of them by itself. -/
theorem meaning_eq_join (env : Environment) (tree : List Node) (context : Context) :
    Meaning.nodes env tree context = String.join (tree.map fun n => Meaning.node env n context) := by
  induction tree with
  | nil => simp [Meaning.nodes]
  | cons n rest ih => rw [Meaning.nodes, ih, List.map_cons, String.join_cons]

/-- The texts that a tree hands over in a context, and what becomes of the sink. -/
theorem exists_pieces (env : Environment) (tree : List Node) (context : Context) :
    ∃ pieces : List String, String.join pieces = Meaning.nodes env tree context ∧
      ∀ (σ : Type) (out : Sink σ) (sink : σ), nodes env out tree ⟨context, sink⟩ =
        (⟨context, (out.writeAll pieces sink).1⟩, (out.writeAll pieces sink).2) :=
  writes_nodes env tree context

/-- Whatever the sink is, rendering gives back the frames that it found. It hands over texts that
make up the meanings of the nodes, each of them by itself, and a sink that refuses no text has all
of them in the end. -/
theorem nodes_restore_and_write (env : Environment) (tree : List Node) (context : Context) :
    ∃ pieces : List String,
      String.join pieces = String.join (tree.map fun n => Meaning.node env n context) ∧
      ∀ (σ : Type) (out : Sink σ) (sink : σ),
        (nodes env out tree ⟨context, sink⟩).1.context = context ∧
        (out.NeverRefuses → nodes env out tree ⟨context, sink⟩ =
          (⟨context, pieces.foldl (fun sink text => (out.write sink text).1) sink⟩, true)) := by
  obtain ⟨pieces, hj, hw⟩ := exists_pieces env tree context
  refine ⟨pieces, hj.trans (meaning_eq_join env tree context), ?_⟩
  intro σ out sink
  constructor
  · rw [hw]
  · intro hout
    rw [hw, hout.writeAll]

theorem nodes_restore_and_write_loop :
    Sink.text.NeverRefuses ∧
    nodes .empty .text
        [.text "<", .scope "." [.variable ⟨".", []⟩ false, .text ","] [] 1, .text ">"]
        ⟨.ofChain [.seq [.text "a&b", .text "c"]], ""⟩ =
      (⟨.ofChain [.seq [.text "a&b", .text "c"]], "<a&amp;b,c,>"⟩, true) := by
  have htext : Sink.text.NeverRefuses := fun _ _ => rfl
  refine ⟨htext, ?_⟩
  obtain ⟨pieces, hj, hw⟩ := nodes_restore_and_write .empty
    [.text "<", .scope "." [.variable ⟨".", []⟩ false, .text ","] [] 1, .text ">"]
    (.ofChain [.seq [.text "a&b", .text "c"]])
  have hm : String.join pieces = "<a&amp;b,c,>" := by
    rw [hj]
    decide
  rw [(hw String .text "").2 htext, ← hm]
  rfl

/-- What is collected in a context is the meaning there. -/
theorem sink_eq_meaning (env : Environment) (tree : List Node) (context : Context) :
    (nodes env .text tree ⟨context, ""⟩).1.sink = Meaning.nodes env tree context := by
  obtain ⟨pieces, hj, hw⟩ := exists_pieces env tree context
  rw [hw, Sink.writeAll_text, String.empty_append, hj]

end Render

/-- A rendered text is the meaning of the tree. -/
theorem Environment.render_eq_meaning (env : Environment) (t : Template) (chain : List Value) :
    env.render t chain = Meaning.nodes env t.nodes (.ofChain chain) :=
  Render.sink_eq_meaning env t.nodes (.ofChain chain)

end Stencil

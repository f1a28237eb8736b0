import Stencil.Proofs.Render.Writes

/-! # The nodes that a walk comes to

A walk over a tree takes the bodies of sections, each of them in the state that the machine has when
it gets there. Which nodes it comes to, in which states and inside of which sections, is followed
here from state to state. Whatever is written is written at such nodes; and the frames there are
those of the sections around the node, the innermost first, in front of those at the start.
-/
namespace Stencil.Render

/-- What a section that is being rendered does to the frames. -/
inductive Enclosure where
  /-- It pushes an item of the sequence that it goes through, with its position. -/
  | item (v : Value) (position : Nat)
  | record (v : Value)
  /-- It pushes nothing: its value is neither of both, or it is a conditional. -/
  | plain

namespace Enclosure

def frame? : Enclosure → Option Frame
  | item v position => some ⟨v, some position⟩
  | record v => some ⟨v, none⟩
  | plain => none

def value? : Enclosure → Option Value
  | item v _ | record v => some v
  | plain => none

end Enclosure

variable {σ : Type} {env : Environment} {out : Sink σ}

/-- Rendering a section in the first state, the machine takes the body in the second one. -/
inductive Enters (env : Environment) (out : Sink σ) :
    Node → State σ → Enclosure → List Node → State σ → Prop
  /-- The items in front of the given one are done. -/
  | item {name : String} {body orElse : List Node} {line : Nat} {front back : List Value}
      {v : Value} {s t : State σ} : s.context.load? name = some (.seq (front ++ v :: back)) →
      eachItem (nodes env out body) 0 front s = (t, true) →
      Enters env out (.scope name body orElse line) s (.item v front.length) body
        ⟨⟨v, some front.length⟩ :: t.context, t.sink⟩
  | record {name : String} {body orElse : List Node} {line : Nat} {v : Value} {s : State σ} :
      s.context.load? name = some v → v.kind = .record →
      Enters env out (.scope name body orElse line) s (.record v) body
        ⟨⟨v, none⟩ :: s.context, s.sink⟩
  | scalar {name : String} {body orElse : List Node} {line : Nat} {v : Value} {s : State σ} :
      s.context.load? name = some v → v.isFalsy = false → v.kind ≠ .sequence → v.kind ≠ .record →
      Enters env out (.scope name body orElse line) s .plain body s
  | holds {test : Condition} {body orElse : List Node} {line : Nat} {s : State σ} :
      test.holds env s.context = true →
      Enters env out (.choice test body orElse line) s .plain body s
  | fails {test : Condition} {body orElse : List Node} {line : Nat} {s : State σ} :
      test.holds env s.context = false →
      Enters env out (.choice test body orElse line) s .plain orElse s

/-- Rendering a tree in the first state, the machine comes to a node in the second one, inside of
the given sections, the innermost first. -/
inductive Reaches (env : Environment) (out : Sink σ) :
    List Node → State σ → List Enclosure → Node → State σ → Prop
  | here {n : Node} {rest : List Node} {s : State σ} : Reaches env out (n :: rest) s [] n s
  /-- The walk went on behind the first node. -/
  | later {m n : Node} {rest : List Node} {path : List Enclosure} {s s' t : State σ} :
      node env out m s = (s', true) → Reaches env out rest s' path n t →
      Reaches env out (m :: rest) s path n t
  | inside {m n : Node} {rest body : List Node} {e : Enclosure} {path : List Enclosure}
      {s s' t : State σ} : Enters env out m s e body s' → Reaches env out body s' path n t →
      Reaches env out (m :: rest) s (path ++ [e]) n t

variable {P : σ → Prop} {a b body : Run σ} {s t : State σ}

theorem andThen_of_more (h : a s = (t, true)) : andThen a b s = b t := by rw [andThen, h]

theorem sink_andThen (ha : P (a s).1.sink) (hb : ∀ t, a s = (t, true) → P t.sink → P (b t).1.sink) :
    P (andThen a b s).1.sink := by
  unfold andThen
  rcases hrun : a s with ⟨t, _ | _⟩
  · rwa [hrun] at ha
  · rw [hrun] at ha
    exact hb t hrun ha

theorem eachItem_append (position : Nat) (front back : List Value)
    (h : eachItem body position front s = (t, true)) :
    eachItem body position (front ++ back) s = eachItem body (position + front.length) back t := by
  induction front generalizing position s with
  | nil =>
    cases h
    rfl
  | cons v rest ih =>
    rw [eachItem, andThen] at h
    rcases hrun : within ⟨v, some position⟩ body s with ⟨s', _ | _⟩ <;> rw [hrun] at h
    · cases h
    · rw [List.cons_append, eachItem, andThen_of_more hrun, ih (position + 1) h, List.length_cons,
        Nat.add_right_comm, Nat.add_assoc]

/-- What the body keeps for every item, behind those in front of it, the whole loop keeps. -/
theorem sink_eachItem (front : List Value) {items : List Value}
    (hfront : eachItem body 0 front s = (t, true)) (ht : P t.sink)
    (hbody : ∀ done v left u, front ++ items = done ++ v :: left →
      eachItem body 0 done s = (u, true) → P u.sink →
      P (body ⟨⟨v, some done.length⟩ :: u.context, u.sink⟩).1.sink) :
    P (eachItem body front.length items t).1.sink := by
  induction items generalizing front t with
  | nil => exact ht
  | cons v rest ih =>
    refine sink_andThen (hbody front v rest t rfl hfront ht) fun u hu hP => ?_
    -- the item is done now, and stands in front of the rest
    have hmore : eachItem body 0 (front ++ [v]) s = (u, true) := by
      rw [eachItem_append 0 front [v] hfront, Nat.zero_add, eachItem, andThen_of_more hu]
      rfl
    have hrest := ih (front ++ [v]) hmore hP fun done w left u' hsplit =>
      hbody done w left u' (by simpa using hsplit)
    rwa [List.length_append] at hrest

def isLeaf : Node → Bool
  | .text _ | .variable .. => true
  | .scope .. | .choice .. => false

mutual

theorem sink_node : ∀ (n : Node) (rest : List Node) (s : State σ),
    (∀ path m t, Reaches env out (n :: rest) s path m t → isLeaf m = true → P t.sink →
      P (node env out m t).1.sink) →
    P s.sink → P (node env out n s).1.sink
  | .text text, _, s, h, hs => h [] _ s .here rfl hs
  | .variable p raw, _, s, h, hs => h [] _ s .here rfl hs
  | .choice test body orElse line, rest, s, h, hs => by
    unfold node
    by_cases htest : test.holds env s.context = true
    · rw [if_pos htest]
      exact sink_nodes body s (fun path m t hm => h _ m t (.inside (.holds htest) hm)) hs
    · rw [if_neg htest]
      have hfails := Bool.eq_false_iff.mpr htest
      exact sink_nodes orElse s (fun path m t hm => h _ m t (.inside (.fails hfails) hm)) hs
  | .scope name body orElse line, rest, s, h, hs => by
    unfold node section?
    cases hv : s.context.load? name with
    | none => exact hs
    | some v =>
      dsimp only
      by_cases hf : v.isFalsy = true
      · rw [if_pos hf]
        exact hs
      · rw [if_neg hf]
        have hbody {e : Enclosure} {u : State σ}
            (henters : Enters env out (.scope name body orElse line) s e body u) (hu : P u.sink) :
            P (nodes env out body u).1.sink :=
          sink_nodes body u (fun path m t hm => h _ m t (.inside henters hm)) hu
        cases v with
        | seq items =>
          refine sink_eachItem [] rfl hs fun done v left u hsplit hdone hu => ?_
          rw [List.nil_append] at hsplit
          exact hbody (.item (hsplit ▸ hv) hdone) hu
        | record entries => exact hbody (.record hv rfl) hs
        | object => exact hbody (.record hv rfl) hs
        | absent | bool | int | float | text | callable =>
          exact hbody (.scalar hv (Bool.eq_false_iff.mpr hf) nofun nofun) hs

/-- Nothing is written but at the texts and variables that the walk comes to, in the states in which
it does: what all of them keep is kept. -/
theorem sink_nodes : ∀ (tree : List Node) (s : State σ),
    (∀ path n t, Reaches env out tree s path n t → isLeaf n = true → P t.sink →
      P (node env out n t).1.sink) →
    P s.sink → P (nodes env out tree s).1.sink
  | [], _, _, hs => hs
  | n :: rest, s, h, hs =>
    sink_andThen (sink_node n rest s h hs) fun t ht =>
      sink_nodes rest t fun path m u hm => h path m u (.later ht hm)

end

end Stencil.Render

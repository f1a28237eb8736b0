import Stencil.Proofs.Render.Names
import Stencil.Proofs.Render.Reaching

/-! # The names of positions

At every node the names of positions are answered by the innermost section that goes through a
sequence, whatever other sections stand in between and whatever was rendered before; the frame's own
name is answered by the section that pushed something last. Records must not answer to the names of
positions themselves, since a frame without a position asks its value.
-/
namespace Stencil

/-- The names that a frame of an item answers to with its position. -/
def Frame.positionNames : List String := [Frame.indexName, Frame.index1Name]

namespace Value

/-- No record within a value, found directly or as what a method or a callable gives, has a field or
knows a method under a name of positions. -/
inductive Unnumbered : Value → Prop
  | absent : Unnumbered .absent
  | bool (b : Bool) : Unnumbered (.bool b)
  | int (n : Int64) : Unnumbered (.int n)
  | float (x : Binary64) : Unnumbered (.float x)
  | text (s : String) : Unnumbered (.text s)
  | seq {items : List Value} : (∀ v ∈ items, Unnumbered v) → Unnumbered (.seq items)
  | record {entries : List (String × Value)} :
      (∀ name ∈ Frame.positionNames, entries.lookup name = none) →
      (∀ entry ∈ entries, Unnumbered entry.2) → Unnumbered (.record entries)
  | object {identity : Nat} {display debug : String} {field : String → Option Value}
      {method : String → Except Error Value} :
      (∀ name ∈ Frame.positionNames, field name = none ∧
        ∃ e, method name = .error e ∧ e.kind = .unknownMethod) →
      (∀ name v, field name = some v → Unnumbered v) →
      (∀ name v, method name = .ok v → Unnumbered v) →
      Unnumbered (.object identity display debug field method)
  | callable {identity : Nat} {result : Value} : Unnumbered result →
      Unnumbered (.callable identity result)

namespace Unnumbered

variable {v w : Value} {name : String}

theorem ofNat (n : Nat) : (Value.ofNat n).Unnumbered := by
  unfold Value.ofNat
  split
  · exact .int _
  · exact .float _

theorem invoke (h : v.Unnumbered) : v.invoke.Unnumbered := by
  cases h with
  | callable hresult => exact hresult
  | absent => exact .absent
  | bool b => exact .bool b
  | int n => exact .int n
  | float x => exact .float x
  | text s => exact .text s
  | seq hitems => exact .seq hitems
  | record hnames hentries => exact .record hnames hentries
  | object hnames hfields hmethods => exact .object hnames hfields hmethods

theorem field? (h : v.Unnumbered) (hw : v.field? name = some w) : w.Unnumbered := by
  cases h with
  | record _ hentries =>
    obtain ⟨u, hu, rfl⟩ := Option.map_eq_some_iff.mp hw
    obtain ⟨front, back, hsplit, -⟩ := List.lookup_eq_some_iff.mp hu
    exact (hentries (name, u) (hsplit ▸ List.mem_append_right front List.mem_cons_self)).invoke
  | object _ hfields _ =>
    obtain ⟨u, hu, rfl⟩ := Option.map_eq_some_iff.mp hw
    exact (hfields name u hu).invoke
  | absent | bool | int | float | text | seq | callable => cases hw

theorem result (h : v.Unnumbered) (hw : v.method name = .ok w) : w.Unnumbered := by
  cases h with
  | object _ _ hmethods => exact hmethods name w hw
  | absent | bool | int | float | text | seq | record | callable => cases hw

theorem member? (h : v.Unnumbered) (hw : Frame.member? v name = some w) : w.Unnumbered := by
  unfold Frame.member? at hw
  cases hm : v.method name with
  | ok u =>
    rw [hm] at hw
    cases hw
    exact h.result hm
  | error e =>
    rw [hm] at hw
    dsimp only at hw
    split at hw
    · exact h.field? hw
    · cases hw
      exact .absent

end Unnumbered

end Value

namespace Context

/-- No value in the context is a record that answers to the names of positions. -/
def Unnumbered (context : Context) : Prop := ∀ f ∈ context, f.value.Unnumbered

variable {context : Context} {v w : Value} {name : String}

theorem Unnumbered.load? (h : context.Unnumbered) (hw : context.load? name = some w) :
    w.Unnumbered := by
  obtain ⟨f, hf, hload⟩ := List.exists_of_findSome?_eq_some hw
  unfold Frame.load? at hload
  split at hload
  · cases hload
    exact h f hf
  · split at hload
    · split at hload
      · cases hload
        exact .ofNat _
      · split at hload
        · cases hload
          exact .ofNat _
        · exact (h f hf).member? hload
    · exact (h f hf).member? hload

end Context

namespace Render

variable {σ : Type} {env : Environment} {out : Sink σ} {s t : State σ}

theorem Writes.context_eq {p : ∀ σ : Type, Sink σ → Run σ} {text : String}
    (h : Writes p s.context text) (out : Sink σ) : (p σ out s).1.context = s.context := by
  obtain ⟨pieces, -, hruns⟩ := h
  exact congrArg (fun result => result.1.context) (hruns σ out s.sink)

theorem context_of_node {n : Node} {more : Bool} (h : node env out n s = (t, more)) :
    t.context = s.context := by
  have hsame := (writes_node env n s.context).context_eq out
  rwa [h] at hsame

theorem context_of_eachItem {body : List Node} {items : List Value} {more : Bool}
    (h : eachItem (nodes env out body) 0 items s = (t, more)) : t.context = s.context := by
  have hsame :=
    Writes.context_eq (s := s) (writes_eachItem (writes_nodes env body) 0 items) out
  rwa [h] at hsame

/-- A section puts its frame, if it has one, in front of those that it found. -/
theorem Enters.context_eq {n : Node} {e : Enclosure} {body : List Node}
    (h : Enters env out n s e body t) : t.context = e.frame?.toList ++ s.context := by
  cases h with
  | item hload hfront => exact congrArg (List.cons _) (context_of_eachItem hfront)
  | record hload hkind => rfl
  | scalar | holds | fails => rfl

/-- Where a walk comes to a node, there stand the frames of the sections around it. -/
theorem Reaches.context_eq {tree : List Node} {path : List Enclosure} {n : Node}
    (h : Reaches env out tree s path n t) :
    t.context = path.filterMap Enclosure.frame? ++ s.context := by
  induction h with
  | here => rfl
  | later hnode _ ih => rw [ih, context_of_node hnode]
  | @inside _ _ _ _ e _ _ _ _ henters _ ih =>
    rw [ih, henters.context_eq, List.filterMap_append, List.append_assoc]
    cases e <;> rfl

end Render

end Stencil

import Mathlib.Data.List.Perm.Subperm
import Stencil.Proofs.Storage.Tables
import Stencil.Value.Compare

/-! # The shape of a value

The parts of a value stand at places: items at their indices, entries under their names. What
stands at a place, apart from its own parts, is what the value shows there; and values without
repeated names are equal exactly if at every place they show what is equal. Equality at one place
knows no nesting, so that its laws have to be seen there only.
-/
namespace Stencil.Value

/-- A step from a value to one of its parts. -/
inductive Step where
  | item (index : Nat)
  | entry (name : String)

def child? (v : Value) (s : Step) : Option Value :=
  match v, s with
  | seq items, .item index => items[index]?
  | record entries, .entry name => entries.lookup name
  | _, _ => none

/-- A value without its parts. -/
def top : Value → Value
  | seq _ => seq []
  | record _ => record []
  | v => v

/-- What a value shows at a place. -/
def shape (v : Value) : List Step → Option Value
  | [] => some v.top
  | s :: place => (v.child? s).bind fun w => w.shape place

/-- No record within the value has a name twice. -/
inductive Distinct : Value → Prop
  | flat {v : Value} : v.top = v → Distinct v
  | seq {items : List Value} : (∀ v ∈ items, Distinct v) → Distinct (seq items)
  | record {entries : List (String × Value)} : (entries.map Prod.fst).Nodup →
      (∀ entry ∈ entries, Distinct entry.2) → Distinct (record entries)

/-- Two places show equal things, or both nothing. -/
def Agree : Option Value → Option Value → Prop := Option.Rel fun v w => v.equal w = true

variable {a b v w : Value} {as bs : List Value} {s : Step}

@[simp]
theorem agree_some_iff : Agree (some v) (some w) ↔ v.equal w = true :=
  ⟨fun h => by cases h; assumption, fun h => Option.Rel.some h⟩

@[simp]
theorem agree_none_some : ¬ Agree none (some w) := nofun

@[simp]
theorem agree_some_none : ¬ Agree (some v) none := nofun

@[simp]
theorem agree_none : Agree none none := .none

theorem agree_none_left_iff {o : Option Value} : Agree none o ↔ o = none := by
  cases o <;> simp

theorem agree_none_right_iff {o : Option Value} : Agree o none ↔ o = none := by
  cases o <;> simp

theorem agree_some_left_iff {o : Option Value} :
    Agree (some v) o ↔ ∃ w, o = some w ∧ v.equal w = true := by
  cases o <;> simp

theorem agree_some_right_iff {o : Option Value} :
    Agree o (some w) ↔ ∃ v, o = some v ∧ v.equal w = true := by
  cases o <;> simp

theorem child?_of_top_eq (h : v.top = v) (s : Step) : v.child? s = none := by
  cases v with
  | seq items =>
    cases h
    cases s <;> rfl
  | record entries =>
    cases h
    cases s <;> rfl
  | absent | bool | int | float | text | object | callable => rfl

theorem distinct_seq_iff {items : List Value} :
    (seq items).Distinct ↔ ∀ v ∈ items, v.Distinct := by
  refine ⟨fun h => ?_, .seq⟩
  cases h with
  | flat htop =>
    cases htop
    exact nofun
  | seq hitems => exact hitems

theorem distinct_record_iff {entries : List (String × Value)} :
    (record entries).Distinct ↔
      (entries.map Prod.fst).Nodup ∧ ∀ entry ∈ entries, entry.2.Distinct := by
  refine ⟨fun h => ?_, fun h => .record h.1 h.2⟩
  cases h with
  | flat htop =>
    cases htop
    exact ⟨List.nodup_nil, nofun⟩
  | record hnodup hentries => exact ⟨hnodup, hentries⟩

theorem mem_of_child?_seq {items : List Value} (h : (seq items).child? s = some w) :
    w ∈ items := by
  cases s with
  | item index => exact List.mem_of_getElem? h
  | entry name => cases h

theorem mem_of_child?_record {entries : List (String × Value)}
    (hnodup : (entries.map Prod.fst).Nodup) (h : (record entries).child? s = some w) :
    ∃ name, (name, w) ∈ entries := by
  cases s with
  | item index => cases h
  | entry name => exact ⟨name, (NameTable.mem_iff_lookup hnodup).mpr h⟩

theorem Distinct.child? (h : v.Distinct) (hs : v.child? s = some w) : w.Distinct := by
  cases h with
  | flat htop =>
    rw [child?_of_top_eq htop] at hs
    cases hs
  | seq hitems => exact hitems w (mem_of_child?_seq hs)
  | record hnodup hentries =>
    obtain ⟨name, hmem⟩ := mem_of_child?_record hnodup hs
    exact hentries (name, w) hmem

/-- What holds of a value if it holds of its parts holds of all values without repeated names. -/
theorem Distinct.induction {motive : ∀ v : Value, v.Distinct → Prop}
    (step : ∀ v (h : v.Distinct),
      (∀ s w (hs : v.child? s = some w), motive w (h.child? hs)) → motive v h) (h : v.Distinct) :
    motive v h := by
  induction h with
  | @flat v htop =>
    refine step v (.flat htop) fun s w hs => ?_
    rw [child?_of_top_eq htop] at hs
    cases hs
  | seq hitems ih =>
    exact step _ (.seq hitems) fun s w hs => ih w (mem_of_child?_seq hs)
  | record hnodup hentries ih =>
    refine step _ (.record hnodup hentries) fun s w hs => ?_
    obtain ⟨name, hmem⟩ := mem_of_child?_record hnodup hs
    exact ih (name, w) hmem

theorem equalItems_iff : equalItems as bs = true ↔ ∀ i : Nat, Agree as[i]? bs[i]? := by
  induction as generalizing bs with
  | nil =>
    cases bs with
    | nil => simp [equalItems]
    | cons b bs =>
      refine iff_of_false (by simp [equalItems]) fun h => ?_
      exact agree_none_some (h 0)
  | cons a as ih =>
    cases bs with
    | nil =>
      refine iff_of_false (by simp [equalItems]) fun h => ?_
      exact agree_some_none (h 0)
    | cons b bs =>
      rw [equalItems, Bool.and_eq_true, ih, ← agree_some_iff]
      constructor
      · rintro ⟨hfirst, hrest⟩ i
        cases i with
        | zero => exact hfirst
        | succ i => exact hrest i
      · exact fun h => ⟨h 0, fun i => h (i + 1)⟩

section Records

variable {as bs : List (String × Value)}

theorem entriesWithin_iff :
    entriesWithin as bs = true ↔ ∀ k v, (k, v) ∈ as → Agree (some v) (bs.lookup k) := by
  induction as with
  | nil => simp [entriesWithin]
  | cons first rest ih =>
    obtain ⟨key, value⟩ := first
    have hfirst : entriesWithin ((key, value) :: rest) bs = true ↔
        Agree (some value) (bs.lookup key) ∧ entriesWithin rest bs = true := by
      rw [entriesWithin]
      cases bs.lookup key <;> simp
    rw [hfirst, ih]
    constructor
    · rintro ⟨hkey, hrest⟩ k v hmem
      rcases List.mem_cons.mp hmem with hmem | hmem
      · cases hmem
        exact hkey
      · exact hrest k v hmem
    · intro h
      exact ⟨h key value List.mem_cons_self, fun k v hmem => h k v (List.mem_cons_of_mem _ hmem)⟩

/-- Records are equal if under each name they have equal values or neither has one. -/
theorem equal_record_iff (has : (as.map Prod.fst).Nodup) (hbs : (bs.map Prod.fst).Nodup) :
    (record as).equal (record bs) = true ↔ ∀ k, Agree (as.lookup k) (bs.lookup k) := by
  rw [equal, Bool.and_eq_true, beq_iff_eq, entriesWithin_iff]
  constructor
  · rintro ⟨hlength, hwithin⟩ k
    have hsub : as.map Prod.fst ⊆ bs.map Prod.fst := by
      intro k hk
      obtain ⟨⟨k, v⟩, hmem, rfl⟩ := List.mem_map.mp hk
      by_contra hnot
      have hagree := hwithin k v hmem
      rw [NameTable.lookup_eq_none_iff.mpr hnot] at hagree
      exact agree_some_none hagree
    -- as many names as there are behind them leave no name over
    have hperm := (has.subperm hsub).perm_of_length_le (by simp [hlength])
    cases hv : as.lookup k with
    | some v => exact hwithin k v ((NameTable.mem_iff_lookup has).mpr hv)
    | none =>
      have hnot := NameTable.lookup_eq_none_iff.mp hv
      rw [hperm.mem_iff] at hnot
      rw [NameTable.lookup_eq_none_iff.mpr hnot]
      exact agree_none
  · intro h
    have hkeys (k : String) : k ∈ as.map Prod.fst ↔ k ∈ bs.map Prod.fst := by
      rw [← not_iff_not, ← NameTable.lookup_eq_none_iff, ← NameTable.lookup_eq_none_iff]
      have hk := h k
      cases ha : as.lookup k <;> cases hb : bs.lookup k <;> simp_all
    constructor
    · have hperm := (List.perm_ext_iff_of_nodup has hbs).mpr hkeys
      simpa using hperm.length_eq
    · intro k v hmem
      rw [← (NameTable.mem_iff_lookup has).mp hmem]
      exact h k

end Records

/-- Values are equal if they are apart from their parts and if their parts are. -/
theorem equal_iff_child? (ha : a.Distinct) (hb : b.Distinct) :
    a.equal b = true ↔ a.top.equal b.top = true ∧ ∀ s, Agree (a.child? s) (b.child? s) := by
  cases a with
  | seq as =>
    cases b with
    | seq bs =>
      rw [equal, equalItems_iff]
      constructor
      · intro h
        refine ⟨rfl, fun s => ?_⟩
        cases s with
        | item index => exact h index
        | entry name => exact agree_none
      · exact fun h index => h.2 (.item index)
    | _ => exact iff_of_false (by simp [equal, order]) (by simp [top, equal, order])
  | record as =>
    cases b with
    | record bs =>
      rw [equal_record_iff (distinct_record_iff.mp ha).1 (distinct_record_iff.mp hb).1]
      constructor
      · intro h
        refine ⟨rfl, fun s => ?_⟩
        cases s with
        | item index => exact agree_none
        | entry name => exact h name
      · exact fun h name => h.2 (.entry name)
    | _ => exact iff_of_false (by simp [equal, order]) (by simp [top, equal, order])
  | _ =>
    cases b with
    | seq bs => exact iff_of_false (by simp [equal, order]) (by simp [top, equal, order])
    | record bs => exact iff_of_false (by simp [equal, order]) (by simp [top, equal, order])
    | _ => simp [top, child?]

theorem shape_cons (v : Value) (s : Step) (place : List Step) :
    v.shape (s :: place) = (v.child? s).bind fun w => w.shape place := rfl

/-- Values are equal if at every place they show what is equal. -/
theorem equal_iff_shape (ha : a.Distinct) (hb : b.Distinct) :
    a.equal b = true ↔ ∀ place, Agree (a.shape place) (b.shape place) := by
  -- the parts of the first value come one step closer to the end; the second one just follows
  induction ha using Distinct.induction generalizing b with
  | step a ha ih =>
    have hparts (s : Step) : Agree (a.child? s) (b.child? s) ↔
        ∀ place, Agree (a.shape (s :: place)) (b.shape (s :: place)) := by
      simp only [shape_cons]
      cases hv : a.child? s with
      | none =>
        cases hw : b.child? s with
        | none => exact iff_of_true agree_none fun _ => agree_none
        | some w => exact iff_of_false agree_none_some fun h => agree_none_some (h [])
      | some v =>
        cases hw : b.child? s with
        | none => exact iff_of_false agree_some_none fun h => agree_some_none (h [])
        | some w => exact agree_some_iff.trans (ih s v hv (hb.child? hw))
    rw [equal_iff_child? ha hb]
    constructor
    · rintro ⟨htop, hall⟩ place
      cases place with
      | nil => exact agree_some_iff.mpr htop
      | cons s place => exact (hparts s).mp (hall s) place
    · intro h
      exact ⟨agree_some_iff.mp (h []), fun s => (hparts s).mpr fun place => h (s :: place)⟩

end Stencil.Value

import Stencil.Data.Embedding
import Stencil.Proofs.Value.Insertion

/-! # Conversion arrives at the meaning

A conversion touches the handles only where a finished value is handed over. What these steps keep,
the whole conversion keeps, and its result is the meaning of the data.
-/
namespace Stencil.Datum

mutual

/-- The finished values among the parts of data, also among its keys. -/
def values : Datum → List Value
  | wrapped content | caseOf _ content | failingAfter content _ => values content
  | seq items | caseSeq _ items => valuesOfItems items
  | map entries => valuesOfEntries entries
  | fields entries | caseFields _ entries => valuesOfFields entries
  | value v => [v]
  | unit | bool _ | int _ | float _ | text _ | bytes _ | case _ | failing _ => []

def valuesOfItems : List Datum → List Value
  | [] => []
  | d :: rest => values d ++ valuesOfItems rest

def valuesOfEntries : List (Datum × Datum) → List Value
  | [] => []
  | (key, d) :: rest => values key ++ values d ++ valuesOfEntries rest

def valuesOfFields : List (String × Datum) → List Value
  | [] => []
  | (_, d) :: rest => values d ++ valuesOfFields rest

end

variable {α β : Type} {I : Handles → Prop} {a : α} {b : β} {m : StateM Handles α}

/-- From every state that satisfies the invariant the program comes to such a state again, with the
given result. -/
def Gives (I : Handles → Prop) (program : StateM Handles α) (result : α) : Prop :=
  ∀ h, I h → ∃ h', program.run h = (result, h') ∧ I h'

theorem gives_pure (a : α) : Gives I (pure a) a := fun h hI => ⟨h, rfl, hI⟩

theorem run_bind_of_run {h h' : Handles} (hm : m.run h = (a, h')) (f : α → StateM Handles β) :
    (m >>= f).run h = (f a).run h' := by
  rw [StateT.run_bind, hm]
  rfl

theorem Gives.bind {f : α → StateM Handles β} (hm : Gives I m a) (hf : Gives I (f a) b) :
    Gives I (m >>= f) b := by
  intro h hI
  obtain ⟨h', hrun, hI'⟩ := hm h hI
  obtain ⟨h'', hrun', hI''⟩ := hf h' hI'
  exact ⟨h'', (run_bind_of_run hrun f).trans hrun', hI''⟩

theorem orAbsent_eq (result : Except Error Value) :
    orAbsent result = result.toOption.getD .absent := by
  cases result <;> rfl

mutual

theorem gives_convert : ∀ d : Datum, (∀ v ∈ d.values, Gives I (handOver v) (.ok v)) →
    Gives I (convert d) (embed d)
  | wrapped content, h => by
    rw [convert, embed, ← orAbsent_eq]
    exact (gives_convert content h).bind (gives_pure _)
  | seq items, h => by
    rw [convert, embed]
    exact (gives_convertItems items h).bind (gives_pure _)
  | map entries, h => by
    obtain ⟨draft, hdraft, hentries⟩ := gives_convertEntries entries .empty h
    have hrecord : draft.entries = Record.ofList (embedEntries entries) :=
      hentries.trans (Record.insertAll_nil _)
    rw [convert, embed, ← hrecord]
    exact hdraft.bind (gives_pure _)
  | fields entries, h => by
    rw [convert, embed, ← Record.insertAll_nil]
    exact (gives_convertFields entries [] h).bind (gives_pure _)
  | caseOf name content, h => by
    rw [convert, embed, ← orAbsent_eq]
    exact (gives_convert content h).bind (gives_pure _)
  | caseSeq name items, h => by
    rw [convert, embed]
    exact (gives_convertItems items h).bind (gives_pure _)
  | caseFields name entries, h => by
    rw [convert, embed, ← Record.insertAll_nil]
    exact (gives_convertFields entries [] h).bind (gives_pure _)
  | failingAfter described message, h => by
    rw [convert, embed]
    exact (gives_convert described h).bind (gives_pure _)
  | value v, h => by
    rw [convert, embed]
    exact h v (List.mem_singleton_self v)
  | unit, _ | bool _, _ | int _, _ | float _, _ | text _, _ | bytes _, _ | case _, _
  | failing _, _ => gives_pure _

theorem gives_convertItems : ∀ items : List Datum,
    (∀ v ∈ valuesOfItems items, Gives I (handOver v) (.ok v)) →
    Gives I (convertItems items) (embedItems items)
  | [], _ => gives_pure _
  | d :: rest, h => by
    rw [valuesOfItems, List.forall_mem_append] at h
    rw [convertItems, embedItems, ← orAbsent_eq]
    exact (gives_convert d h.1).bind ((gives_convertItems rest h.2).bind (gives_pure _))

/-- The entries of a record come out as they are bound one after another. Behind a key that failed
no key waits, so that the next one finds the record as it was. -/
theorem gives_convertEntries : ∀ (entries : List (Datum × Datum)) (draft : Draft),
    (∀ v ∈ valuesOfEntries entries, Gives I (handOver v) (.ok v)) →
    ∃ result, Gives I (convertEntries draft entries) result ∧
      result.entries = Record.insertAll draft.entries (embedEntries entries)
  | [], draft, _ => ⟨draft, gives_pure _, rfl⟩
  | (key, d) :: rest, draft, h => by
    rw [valuesOfEntries, List.forall_mem_append, List.forall_mem_append] at h
    obtain ⟨⟨hkey, hd⟩, hrest⟩ := h
    rw [convertEntries, embedEntries]
    have hkey := gives_convert key hkey
    cases hk : embed key with
    | ok k =>
      rw [hk] at hkey
      obtain ⟨result, hresult, hentries⟩ := gives_convertEntries rest
        (draft.takeValue (keyText k) (orAbsent (embed d))) hrest
      rw [← orAbsent_eq]
      exact ⟨result, hkey.bind ((gives_convert d hd).bind hresult), hentries⟩
    | error e =>
      rw [hk] at hkey
      -- the value is not looked at, so it hands nothing over either
      obtain ⟨result, hresult, hentries⟩ := gives_convertEntries rest ⟨draft.entries, none⟩ hrest
      exact ⟨result, hkey.bind hresult, hentries⟩

theorem gives_convertFields : ∀ (entries : List (String × Datum)) (built : List (String × Value)),
    (∀ v ∈ valuesOfFields entries, Gives I (handOver v) (.ok v)) →
    Gives I (convertFields built entries) (Record.insertAll built (embedFields entries))
  | [], built, _ => gives_pure _
  | (name, d) :: rest, built, h => by
    rw [valuesOfFields, List.forall_mem_append] at h
    rw [convertFields, embedFields, ← orAbsent_eq]
    exact (gives_convert d h.1).bind (gives_convertFields rest _ h.2)

end

theorem run_get (h : Handles) : (get : StateM Handles Handles).run h = (h, h) := rfl

theorem run_modify (f : Handles → Handles) (h : Handles) :
    (modify f : StateM Handles PUnit).run h = ((), f h) := rfl

theorem run_put (v : Value) (h : Handles) : (Handles.put v).run h =
    (h.last + 1,
      ⟨h.marking, h.last + 1, (h.last + 1, v) :: h.registry.filter (·.1 != h.last + 1)⟩) := rfl

theorem run_take? (number : UInt32) (h : Handles) : (Handles.take? number).run h =
    (h.registry.lookup number, ⟨h.marking, h.last, h.registry.filter (·.1 != number)⟩) := rfl

theorem run_receiveCase {h : Handles} {number : UInt32} {v : Value}
    (hv : h.registry.lookup number = some v) :
    (receiveCase handleName number handleName).run h =
      (.ok v, ⟨h.marking, h.last, h.registry.filter (·.1 != number)⟩) := by
  rw [receiveCase, if_pos ⟨rfl, rfl⟩, run_bind_of_run (run_take? number h), hv]
  rfl

/-- A conversion is under way, and nothing was put down that is not in the given registry. -/
def UnderWay (registry : List (UInt32 × Value)) (h : Handles) : Prop :=
  h.marking = true ∧ h.registry ⊆ registry

/-- A value that is handed over is taken again at once, whatever its number. -/
theorem gives_handOver (registry : List (UInt32 × Value)) (v : Value) :
    Gives (UnderWay registry) (handOver v) (.ok v) := by
  intro h ⟨hmarking, hsub⟩
  have htaken : ((h.last + 1, v) :: h.registry.filter (·.1 != h.last + 1)).filter
      (·.1 != h.last + 1) = h.registry.filter (·.1 != h.last + 1) := by simp
  have hrun : (handOver v).run h =
      (.ok v, ⟨h.marking, h.last + 1, h.registry.filter (·.1 != h.last + 1)⟩) := by
    unfold handOver
    rw [run_bind_of_run (run_get h), if_pos hmarking, run_bind_of_run (run_put v h),
      run_receiveCase List.lookup_cons_self, htaken]
  exact ⟨_, hrun, hmarking, fun entry hentry => hsub (List.mem_of_mem_filter hentry)⟩

/-- A conversion that is under way arrives at the meaning of the data. -/
theorem run_convert {h : Handles} (hmarking : h.marking = true) (d : Datum) :
    ∃ h', (convert d).run h = (embed d, h') ∧ UnderWay h.registry h' :=
  gives_convert d (fun v _ => gives_handOver h.registry v) h ⟨hmarking, List.Subset.refl _⟩

/-- A conversion from the beginning gives the meaning, restores the marking, and leaves nothing
behind. -/
theorem run_toValueWith (d : Datum) (h : Handles) :
    ∃ h', d.toValueWith.run h = ((embed d).toOption.getD .absent, h') ∧ h'.marking = h.marking ∧
      h'.registry ⊆ h.registry := by
  obtain ⟨h', hrun, -, hsub⟩ := run_convert (h := ⟨true, h.last, h.registry⟩) rfl d
  refine ⟨⟨h.marking, h'.last, h'.registry⟩, ?_, rfl, hsub⟩
  unfold toValueWith
  rw [← orAbsent_eq, run_bind_of_run (run_get h)]
  dsimp only
  rw [run_bind_of_run (run_modify _ h), run_bind_of_run hrun]
  rfl

/-- Finished values come through a conversion as what they are, wherever they stand in the data and
whatever number was given out last. Nothing stays in the registry, and the marking is as before, also
if it was on. -/
theorem values_handed_over_whole (d : Datum) (marking : Bool) (last : UInt32) :
    ∃ last', d.toValueWith.run ⟨marking, last, []⟩ =
      ((embed d).toOption.getD .absent, ⟨marking, last', []⟩) := by
  obtain ⟨⟨marking', last', registry⟩, hrun, hmarking, hsub⟩ :=
    run_toValueWith d ⟨marking, last, []⟩
  obtain rfl : marking' = marking := hmarking
  obtain rfl : registry = [] := List.subset_nil.mp hsub
  exact ⟨last', hrun⟩

-- the numbers wrap around, and the first of the callables is lost with the part around it
example (f : Value) :
    (seq [failingAfter (seq [value (.callable 0 f)]) "no", value (.callable 1 f)]).toValueWith.run
      ⟨true, 0xFFFFFFFF, []⟩ = (.seq [.absent, .callable 1 f], ⟨true, 1, []⟩) := rfl

/-- Where no value is handed over, a conversion does not look at the handles. -/
theorem run_convert_of_values {d : Datum} (hd : d.values = []) (h : Handles) :
    (convert d).run h = (embed d, h) := by
  have hnone : ∀ v ∈ d.values, Gives (· = h) (handOver v) (.ok v) := by simp [hd]
  obtain ⟨h', hrun, rfl⟩ := gives_convert d hnone h rfl
  exact hrun

end Stencil.Datum

import Stencil.Proofs.Data.Records

/-! # Values described and converted again

What a value says of itself to the outside is converted into the value again, part by part, but for
objects, of which the text is left, and callables, of which nothing is left. Describing it once more
changes nothing.
-/
namespace Stencil

namespace Value

/-- Neither the value nor a part of it is an object or a callable. -/
inductive IsPlain : Value → Prop
  | absent : IsPlain .absent
  | bool (b : Bool) : IsPlain (.bool b)
  | int (n : Int64) : IsPlain (.int n)
  | float (x : Binary64) : IsPlain (.float x)
  | text (s : String) : IsPlain (.text s)
  | seq {items : List Value} : (∀ v ∈ items, IsPlain v) → IsPlain (.seq items)
  | record {entries : List (String × Value)} : (∀ entry ∈ entries, IsPlain entry.2) →
      IsPlain (.record entries)

variable {v : Value}

theorem ofInt_toInt (n : Int64) : Value.ofInt n.toInt = .int n := by
  have hlow := n.le_toInt
  have hhigh := n.toInt_lt
  rw [Value.ofInt, if_pos ⟨by omega, hhigh⟩, Int64.ofInt_toInt]

theorem plainItems_eq_map (items : List Value) : plainItems items = items.map plain := by
  induction items with
  | nil => rfl
  | cons v rest ih => rw [plainItems, ih, List.map_cons]

theorem plainEntries_eq_map (entries : List (String × Value)) :
    plainEntries entries = entries.map fun entry => (entry.1, entry.2.plain) := by
  induction entries with
  | nil => rfl
  | cons entry rest ih => rw [plainEntries, ih, List.map_cons]

theorem emitItems_eq_map (items : List Value) : emitItems items = items.map emit := by
  induction items with
  | nil => rfl
  | cons v rest ih => rw [emitItems, ih, List.map_cons]

theorem emitEntries_eq_map (entries : List (String × Value)) :
    emitEntries entries = entries.map fun entry => (.text entry.1, entry.2.emit) := by
  induction entries with
  | nil => rfl
  | cons entry rest ih => rw [emitEntries, ih, List.map_cons]

theorem IsPlain.plain_eq (h : v.IsPlain) : v.plain = v := by
  induction h with
  | seq _ ih => rw [plain, plainItems_eq_map, List.map_congr_left ih, List.map_id']
  | @record entries _ ih =>
    have hentries : entries.map (fun entry => (entry.1, entry.2.plain)) = entries := by
      refine (List.map_congr_left fun entry hentry => ?_).trans (List.map_id' entries)
      rw [ih entry hentry]
    rw [plain, plainEntries_eq_map, hentries]
  | absent | bool | int | float | text => rfl

mutual

/-- A description holds no finished values. -/
theorem values_emit : ∀ v : Value, v.emit.values = []
  | .seq items => values_emitItems items
  | .record entries => values_emitEntries entries
  | .absent | .bool _ | .int _ | .float _ | .text _ | .object .. | .callable .. => rfl

theorem values_emitItems : ∀ items : List Value, Datum.valuesOfItems (emitItems items) = []
  | [] => rfl
  | v :: rest => by rw [emitItems, Datum.valuesOfItems, values_emit v, values_emitItems rest,
      List.append_nil]

theorem values_emitEntries : ∀ entries : List (String × Value),
    Datum.valuesOfEntries (emitEntries entries) = []
  | [] => rfl
  | (k, v) :: rest => by
    rw [emitEntries, Datum.valuesOfEntries, values_emit v, values_emitEntries rest]
    rfl

end

theorem BuiltFrom.isPlain {given : Value → Prop} (h : BuiltFrom given v) (hgiven : ∀ w, ¬ given w) :
    v.IsPlain := by
  induction h with
  | given hv => exact absurd hv (hgiven _)
  | seq _ ih => exact .seq ih
  | record _ _ ih => exact .record ih
  | absent => exact .absent
  | bool b => exact .bool b
  | int n => exact .int n
  | float x => exact .float x
  | text s => exact .text s

end Value

namespace Datum

open Value

theorem embedItems_eq_map (items : List Datum) :
    embedItems items = items.map fun d => (embed d).toOption.getD .absent := by
  induction items with
  | nil => rfl
  | cons d rest ih => rw [embedItems, ih, List.map_cons]

theorem embedEntries_text (entries : List (String × Datum)) :
    embedEntries (entries.map fun entry => (.text entry.1, entry.2)) =
      entries.map fun entry => (entry.1, (embed entry.2).toOption.getD .absent) := by
  induction entries with
  | nil => rfl
  | cons entry rest ih =>
    rw [List.map_cons, List.map_cons, ← ih]
    rfl

theorem embed_emit {v : Value} (h : v.Distinct) : embed v.emit = .ok v.plain := by
  induction h with
  | @flat v htop =>
    cases v with
    | int n => exact congrArg Except.ok (ofInt_toInt n)
    | seq items =>
      cases htop
      rfl
    | record entries =>
      cases htop
      rfl
    | absent | bool | float | text | object | callable => rfl
  | @seq items _ ih =>
    have hitems : embedItems (emitItems items) = plainItems items := by
      rw [emitItems_eq_map, embedItems_eq_map, List.map_map, plainItems_eq_map]
      refine List.map_congr_left fun v hv => ?_
      rw [Function.comp_apply, ih v hv]
      rfl
    rw [emit, embed, plain, hitems]
  | @record entries hnodup _ ih =>
    have hentries : embedEntries (emitEntries entries) = plainEntries entries := by
      have htexts := embedEntries_text (entries.map fun entry => (entry.1, entry.2.emit))
      rw [List.map_map, List.map_map] at htexts
      rw [emitEntries_eq_map, plainEntries_eq_map]
      refine htexts.trans (List.map_congr_left fun entry hentry => ?_)
      simp only [Function.comp_apply, ih entry hentry]
      rfl
    have hkeys : ((plainEntries entries).map Prod.fst).Nodup := by
      rw [plainEntries_eq_map, List.map_map]
      exact hnodup
    rw [emit, embed, plain, hentries, Record.ofList_of_nodup hkeys]

/-- A description does not look at the handles. -/
theorem run_convert_emit (v : Value) (h : Handles) :
    (convert v.emit).run h = (embed v.emit, h) :=
  run_convert_of_values (values_emit v) h

/-- Every description is converted, into a value that can be described and converted again. -/
theorem exists_embed_emit (v : Value) :
    ∃ w, embed v.emit = .ok w ∧ w.Distinct ∧ w.IsPlain := by
  obtain ⟨w, hw⟩ : ∃ w, embed v.emit = .ok w := by
    cases v <;> exact ⟨_, rfl⟩
  have hvalues : ∀ u ∈ v.emit.values, False := by simp [values_emit]
  have hbuilt := builtFrom_embed v.emit hvalues
  rw [hw] at hbuilt
  exact ⟨w, hw, hbuilt.distinct fun _ hu => hu.elim, hbuilt.isPlain fun _ hu => hu⟩

/-- A value without repeated names that is described and converted becomes itself but for objects,
of which the text stays, and callables, which become absent; this is also what becomes of a finished
value that is met while no conversion is under way. Without objects and callables it becomes itself.
What any value becomes is not changed if this is done again. -/
theorem emit_convert_plain :
    (∀ (v : Value) (h : Handles), v.Distinct →
      (convert v.emit).run h = (.ok v.plain, h) ∧
      (h.marking = false → (convert (value v)).run h = (convert v.emit).run h) ∧
      (v.IsPlain → (convert v.emit).run h = (.ok v, h))) ∧
    ∀ (v : Value) (h : Handles), ∃ w, (convert v.emit).run h = (.ok w, h) ∧
      (convert w.emit).run h = (.ok w, h) := by
  have hplain (v : Value) (h : Handles) (hv : v.Distinct) :
      (convert v.emit).run h = (.ok v.plain, h) := by rw [run_convert_emit, embed_emit hv]
  constructor
  · intro v h hv
    refine ⟨hplain v h hv, fun hmarking => ?_, fun hparts => ?_⟩
    · rw [hplain v h hv, convert, handOver, run_bind_of_run (run_get h), hmarking]
      rfl
    · rw [hplain v h hv, hparts.plain_eq]
  · intro v h
    obtain ⟨w, hw, hdistinct, hparts⟩ := exists_embed_emit v
    refine ⟨w, by rw [run_convert_emit, hw], ?_⟩
    rw [hplain w h hdistinct, hparts.plain_eq]

/-- A record that holds, in a sequence, an object whose fields are lost and a callable; and a part
of it that has neither, with a negative zero and an integer that stay apart. -/
theorem emit_convert_plain_nested :
    let numbers : Value := .seq [.float (.finite true .zero), .int 0]
    let thing : Value := .object 7 "thing" "Thing" (fun _ => some (.int 2)) fun _ => .ok .absent
    let v : Value := .record [("b", .seq [thing, .callable 8 (.text "called")]), ("a", numbers)]
    v.Distinct ∧ Handles.initial.marking = false ∧
    (convert v.emit).run .initial =
      (.ok (.record [("b", .seq [.text "thing", .absent]), ("a", numbers)]), .initial) ∧
    (convert (value v)).run .initial = (convert v.emit).run .initial ∧
    numbers.Distinct ∧ numbers.IsPlain ∧
    (convert numbers.emit).run .initial = (.ok numbers, .initial) := by
  intro numbers thing v
  have hnumbers : numbers.Distinct := by
    simp only [numbers, distinct_seq_iff, List.forall_mem_cons]
    exact ⟨.flat rfl, .flat rfl, nofun⟩
  have hplain : numbers.IsPlain := by
    refine .seq ?_
    simp only [List.forall_mem_cons]
    exact ⟨.float _, .int 0, nofun⟩
  have hv : v.Distinct := by
    simp only [v, distinct_record_iff, List.forall_mem_cons, distinct_seq_iff]
    exact ⟨by simp, ⟨.flat rfl, .flat rfl, nofun⟩, hnumbers, nofun⟩
  obtain ⟨hconvert, hunmarked, -⟩ := emit_convert_plain.1 v .initial hv
  exact ⟨hv, rfl, hconvert, hunmarked rfl, hnumbers, hplain,
    (emit_convert_plain.1 numbers .initial hnumbers).2.2 hplain⟩

end Datum

end Stencil

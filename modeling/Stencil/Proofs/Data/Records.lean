import Stencil.Proofs.Data.Embedding
import Stencil.Proofs.Value.Shape

/-! # Records of converted data

The record of a map has the texts of its keys, each where it came first and with the value that came
last. A key that fails takes nothing but its own value along. So no record that a conversion builds,
at whatever depth, has a name twice.
-/
namespace Stencil

/-- Values put together, in sequences and in records of distinct names, from given ones and from
those that have no parts and can be described. -/
inductive Value.BuiltFrom (given : Value → Prop) : Value → Prop
  | given {v : Value} : given v → BuiltFrom given v
  | absent : BuiltFrom given .absent
  | bool (b : Bool) : BuiltFrom given (.bool b)
  | int (n : Int64) : BuiltFrom given (.int n)
  | float (x : Binary64) : BuiltFrom given (.float x)
  | text (s : String) : BuiltFrom given (.text s)
  | seq {items : List Value} : (∀ v ∈ items, BuiltFrom given v) → BuiltFrom given (.seq items)
  | record {entries : List (String × Value)} : (entries.map Prod.fst).Nodup →
      (∀ entry ∈ entries, BuiltFrom given entry.2) → BuiltFrom given (.record entries)

namespace Value.BuiltFrom

variable {given : Value → Prop} {v : Value}

theorem ofNat (n : Nat) : BuiltFrom given (.ofNat n) := by
  unfold Value.ofNat
  split
  · exact .int _
  · exact .float _

theorem ofInt (n : Int) : BuiltFrom given (.ofInt n) := by
  unfold Value.ofInt
  split
  · exact .int _
  · exact .float _

theorem ofList {bindings : List (String × Value)}
    (h : ∀ entry ∈ bindings, BuiltFrom given entry.2) :
    BuiltFrom given (.record (Record.ofList bindings)) :=
  .record (Record.nodup_keys_ofList bindings) fun entry hentry =>
    h entry (Record.mem_of_mem_ofList hentry)

theorem single (name : String) (h : BuiltFrom given v) : BuiltFrom given (.record [(name, v)]) :=
  .record (List.pairwise_singleton _ _) fun entry hentry => by
    obtain rfl := List.mem_singleton.mp hentry
    exact h

theorem distinct (h : BuiltFrom given v) (hgiven : ∀ w, given w → w.Distinct) : v.Distinct := by
  induction h with
  | given hv => exact hgiven _ hv
  | seq _ ih => exact .seq ih
  | record hnodup _ ih => exact .record hnodup ih
  | absent | bool | int | float | text => exact .flat rfl

end Value.BuiltFrom

namespace Datum

open Value (BuiltFrom)

section

variable {given : Value → Prop}

mutual

/-- A meaning is put together from the finished values among the data. -/
theorem builtFrom_embed : ∀ d : Datum, (∀ v ∈ d.values, given v) →
    BuiltFrom given ((embed d).toOption.getD .absent)
  | unit, _ | failing _, _ | failingAfter .., _ => .absent
  | bool b, _ => .bool b
  | int n, _ => .ofInt n
  | float x, _ => .float x
  | text s, _ | case s, _ => .text s
  | bytes content, _ => by
    refine .seq fun v hv => ?_
    obtain ⟨b, -, rfl⟩ := List.mem_map.mp hv
    exact .ofNat b.toNat
  | wrapped content, h => builtFrom_embed content h
  | seq items, h => .seq (builtFrom_embedItems items h)
  | map entries, h => .ofList (builtFrom_embedEntries entries h)
  | fields entries, h => .ofList (builtFrom_embedFields entries h)
  | caseOf name content, h => .single name (builtFrom_embed content h)
  | caseSeq name items, h => .single name (.seq (builtFrom_embedItems items h))
  | caseFields name entries, h => .single name (.ofList (builtFrom_embedFields entries h))
  | value v, h => .given (h v (List.mem_singleton_self v))

theorem builtFrom_embedItems : ∀ items : List Datum, (∀ v ∈ valuesOfItems items, given v) →
    ∀ v ∈ embedItems items, BuiltFrom given v
  | [], _ => nofun
  | d :: rest, h => by
    rw [valuesOfItems, List.forall_mem_append] at h
    rw [embedItems, List.forall_mem_cons]
    exact ⟨builtFrom_embed d h.1, builtFrom_embedItems rest h.2⟩

theorem builtFrom_embedEntries : ∀ entries : List (Datum × Datum),
    (∀ v ∈ valuesOfEntries entries, given v) →
    ∀ entry ∈ embedEntries entries, BuiltFrom given entry.2
  | [], _ => nofun
  | (key, d) :: rest, h => by
    rw [valuesOfEntries, List.forall_mem_append, List.forall_mem_append] at h
    have hrest := builtFrom_embedEntries rest h.2
    rw [embedEntries]
    cases embed key with
    | ok k => exact List.forall_mem_cons.mpr ⟨builtFrom_embed d h.1.2, hrest⟩
    | error e => exact hrest

theorem builtFrom_embedFields : ∀ entries : List (String × Datum),
    (∀ v ∈ valuesOfFields entries, given v) →
    ∀ entry ∈ embedFields entries, BuiltFrom given entry.2
  | [], _ => nofun
  | (name, d) :: rest, h => by
    rw [valuesOfFields, List.forall_mem_append] at h
    rw [embedFields, List.forall_mem_cons]
    exact ⟨builtFrom_embed d h.1, builtFrom_embedFields rest h.2⟩

end

end

/-- What the conversion of a part gives, or how it fails, when nothing was handed over before. -/
def attempt (d : Datum) : Except Error Value := ((convert d).run ⟨true, 0, []⟩).1

/-- The bindings that pairs of a key and a value stand for, each pair by itself. One whose key fails
binds nothing; a value that fails is bound as absence. -/
def bindings (entries : List (Datum × Datum)) : List (String × Value) :=
  entries.filterMap fun entry => match attempt entry.1 with
    | .ok key => some (keyText key, (attempt entry.2).toOption.getD .absent)
    | .error _ => none

theorem attempt_eq_embed (d : Datum) : attempt d = embed d := by
  obtain ⟨h, hrun, -⟩ := run_convert (h := ⟨true, 0, []⟩) rfl d
  exact congrArg Prod.fst hrun

theorem bindings_eq_embedEntries (entries : List (Datum × Datum)) :
    bindings entries = embedEntries entries := by
  induction entries with
  | nil => rfl
  | cons entry rest ih =>
    obtain ⟨key, d⟩ := entry
    unfold bindings at ih ⊢
    rw [List.filterMap_cons, attempt_eq_embed, attempt_eq_embed, embedEntries, ih]
    cases embed key <;> rfl

/-- The value of a map is the record of its bindings: it has the texts of the keys that do not fail,
each once and where it came first, and answers to each with the value given for it last, and to no
other name. All records in values of data have distinct names, if those have that stand in the data
as finished values. -/
theorem entries_bind_last :
    (∀ (entries : List (Datum × Datum)) (h : Handles), ∃ r : List (String × Value),
      ((map entries).toValueWith.run h).1 = .record r ∧
      (r.map Prod.fst).Nodup ∧
      r.map Prod.fst = ((bindings entries).map Prod.fst).eraseDups ∧
      ∀ k, r.lookup k = (bindings entries).reverse.lookup k ∧
        (Value.record r).field? k = ((bindings entries).reverse.lookup k).map Value.invoke) ∧
    ∀ (d : Datum) (h : Handles), (∀ v ∈ d.values, v.Distinct) →
      (d.toValueWith.run h).1.Distinct := by
  constructor
  · intro entries h
    obtain ⟨h', hrun, -⟩ := run_toValueWith (map entries) h
    refine ⟨Record.ofList (bindings entries), ?_, Record.nodup_keys_ofList _,
      Record.keys_ofList _, fun k => ?_⟩
    · rw [hrun, embed, bindings_eq_embedEntries]
      rfl
    · have hlast := Record.lookup_ofList (bindings entries) k
      exact ⟨hlast, congrArg (Option.map Value.invoke) hlast⟩
  · intro d h hvalues
    obtain ⟨h', hrun, -⟩ := run_toValueWith d h
    rw [hrun]
    exact (builtFrom_embed d hvalues).distinct fun _ hv => hv

/-- An integer and a text with the same digits, a key that fails between them, absence and the empty
text, and a finished record as one of the values. -/
theorem entries_bind_last_collision :
    let entries : List (Datum × Datum) :=
      [(int 1, text "a"), (failing "no", text "b"), (unit, value (.record [("x", .int 2)])),
        (text "1", failing "no"), (text "", value (.callable 0 (.text "c")))]
    let r : List (String × Value) := [("1", .absent), ("", .callable 0 (.text "c"))]
    (map entries).toValue = .record r ∧
    r.map Prod.fst = ((bindings entries).map Prod.fst).eraseDups ∧
    (Value.record r).field? "" = some (.text "c") ∧ (Value.record r).field? "2" = none ∧
    (∀ v ∈ (map entries).values, v.Distinct) ∧
    ((map entries).toValueWith.run .initial).1.Distinct := by
  intro entries r
  have hvalues : ∀ v ∈ (map entries).values, v.Distinct := by
    have hparts : (map entries).values = [.record [("x", .int 2)], .callable 0 (.text "c")] := rfl
    rw [hparts]
    simp only [List.forall_mem_cons]
    refine ⟨.record (List.pairwise_singleton _ _) ?_, .flat rfl, nofun⟩
    exact List.forall_mem_singleton.mpr (.flat rfl)
  have hrecord : (map entries).toValue = .record r := rfl
  obtain ⟨built, hbuilt, -, hkeys, hlast⟩ := entries_bind_last.1 entries .initial
  obtain rfl : r = built := by injection hrecord.symm.trans hbuilt
  refine ⟨hrecord, hkeys, ?_, ?_, hvalues, entries_bind_last.2 (map entries) .initial hvalues⟩
  · rw [(hlast "").2]
    rfl
  · rw [(hlast "2").2]
    rfl

end Datum

end Stencil

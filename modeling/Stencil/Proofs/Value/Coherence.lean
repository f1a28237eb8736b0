import Stencil.Proofs.Value.Order
import Stencil.Proofs.Value.Shape

/-! # The comparison operators together

Equality and the four operators of order agree with one another on all pairs of values: equality
is symmetric, and reflexive but for not-a-number, it does not see the order of entries, and with
the other operators it makes up one order of the texts and one of the numbers.
-/
namespace Stencil.Value

variable {a b u v w : Value} {place : List Step}

theorem top_eq_of_shape (h : v.shape place = some w) : w.top = w := by
  induction place generalizing v with
  | nil =>
    cases h
    cases v <;> rfl
  | cons s place ih =>
    obtain ⟨u, -, hu⟩ := Option.bind_eq_some_iff.mp h
    exact ih hu

/-- Not-a-number stands nowhere in the value. -/
def NaNFree (v : Value) : Prop := ∀ place, v.shape place ≠ some (float .nan)

theorem NaNFree.of_child? (htop : v.top ≠ float .nan)
    (h : ∀ s w, v.child? s = some w → w.NaNFree) : v.NaNFree := by
  intro place hplace
  cases place with
  | nil => exact htop (Option.some.inj hplace)
  | cons s place =>
    obtain ⟨w, hw, hshape⟩ := Option.bind_eq_some_iff.mp hplace
    exact h s w hw place hshape

theorem NaNFree.of_top_eq (htop : v.top = v) (h : v ≠ float .nan) : v.NaNFree := by
  refine .of_child? (by rwa [htop]) fun s w hw => ?_
  rw [child?_of_top_eq htop] at hw
  cases hw

theorem agree_comm :
    Agree (a.shape place) (b.shape place) ↔ Agree (b.shape place) (a.shape place) := by
  cases hv : a.shape place with
  | none => cases b.shape place <;> simp
  | some v =>
    cases hw : b.shape place with
    | none => simp
    | some w =>
      have hvtop := top_eq_of_shape hv
      have hwtop := top_eq_of_shape hw
      rw [agree_some_iff, agree_some_iff, equal_iff_of_top_eq hvtop hwtop,
        equal_iff_of_top_eq hwtop hvtop, order_swap v w]
      refine or_congr ?_ (exists_congr fun _ => and_comm)
      rcases order v w with _ | (_ | _ | _) <;> decide

theorem equal_comm (ha : a.Distinct) (hb : b.Distinct) : a.equal b = b.equal a := by
  rw [Bool.eq_iff_iff, equal_iff_shape ha hb, equal_iff_shape hb ha]
  exact forall_congr' fun _ => agree_comm

/-- Without parts, only not-a-number differs from itself. -/
theorem equal_self_of_top_eq (htop : v.top = v) (hnan : v ≠ float .nan) : v.equal v = true := by
  rw [equal_iff_of_top_eq htop htop]
  cases v with
  | int n => exact Or.inl (order_self (Or.inr ⟨.int n, .int n⟩))
  | float x =>
    have hx : (float x).IsNumber := by
      cases x with
      | nan => exact absurd rfl hnan
      | _ => exact .float rfl
    exact Or.inl (order_self (Or.inr ⟨hx, hx⟩))
  | text s => exact Or.inl (order_self (Or.inl ⟨⟨s, rfl⟩, s, rfl⟩))
  | _ => exact Or.inr ⟨_, rfl, rfl⟩

theorem equal_self (ha : a.Distinct) (hnan : a.NaNFree) : a.equal a = true := by
  rw [equal_iff_shape ha ha]
  intro place
  cases hv : a.shape place with
  | none => exact agree_none
  | some v =>
    have hne : v ≠ float .nan := by
      rintro rfl
      exact hnan place hv
    exact agree_some_iff.mpr (equal_self_of_top_eq (top_eq_of_shape hv) hne)

/-- The second value is the first one with the entries of records in another order. -/
inductive Reordered : Value → Value → Prop
  | refl (v : Value) : Reordered v v
  | trans {u v w : Value} : Reordered u v → Reordered v w → Reordered u w
  | entries {as bs : List (String × Value)} : as.Perm bs → Reordered (record as) (record bs)
  | item {v w : Value} (front rest : List Value) : Reordered v w →
      Reordered (seq (front ++ v :: rest)) (seq (front ++ w :: rest))
  | entry {v w : Value} (front : List (String × Value)) (k : String)
      (rest : List (String × Value)) : Reordered v w →
      Reordered (record (front ++ (k, v) :: rest)) (record (front ++ (k, w) :: rest))

theorem shape_eq_of_child? (htop : a.top = b.top)
    (h : ∀ s, (a.child? s).map shape = (b.child? s).map shape) : a.shape = b.shape := by
  funext place
  cases place with
  | nil => exact congrArg some htop
  | cons s place =>
    have hpart := congrArg (fun o => o.bind fun f => f place) (h s)
    simp only [Option.bind_map] at hpart
    exact hpart

theorem lookup_eq_of_perm {as bs : List (String × Value)} (has : (as.map Prod.fst).Nodup)
    (h : as.Perm bs) (name : String) : as.lookup name = bs.lookup name := by
  have hbs := (h.map Prod.fst).nodup_iff.mp has
  refine Option.ext fun v => ?_
  rw [← NameTable.mem_iff_lookup has, ← NameTable.mem_iff_lookup hbs, h.mem_iff]

theorem map_lookup_append_cons {front rest : List (String × Value)} (h : v.shape = w.shape)
    (k name : String) :
    ((front ++ (k, v) :: rest).lookup name).map shape =
      ((front ++ (k, w) :: rest).lookup name).map shape := by
  rw [List.lookup_append, List.lookup_append, NameTable.lookup_cons, NameTable.lookup_cons]
  cases front.lookup name with
  | some u => rfl
  | none =>
    by_cases hk : name = k
    · simp [hk, h]
    · simp [hk]

/-- The order of entries is not to be seen at any place. -/
theorem Reordered.shape_eq (h : Reordered a b) (ha : a.Distinct) :
    b.Distinct ∧ a.shape = b.shape := by
  induction h with
  | refl v => exact ⟨ha, rfl⟩
  | trans _ _ ih ih' =>
    obtain ⟨hv, hshape⟩ := ih ha
    obtain ⟨hw, hshape'⟩ := ih' hv
    exact ⟨hw, hshape.trans hshape'⟩
  | @entries as bs hperm =>
    obtain ⟨hnodup, hentries⟩ := distinct_record_iff.mp ha
    have hnodup' := (hperm.map Prod.fst).nodup_iff.mp hnodup
    refine ⟨.record hnodup' fun entry hentry => hentries entry (hperm.mem_iff.mpr hentry), ?_⟩
    refine shape_eq_of_child? rfl fun s => ?_
    cases s with
    | item index => rfl
    | entry name => exact congrArg _ (lookup_eq_of_perm hnodup hperm name)
  | @item v w front rest _ ih =>
    rw [distinct_seq_iff, List.forall_mem_append, List.forall_mem_cons] at ha ⊢
    obtain ⟨hfront, hv, hrest⟩ := ha
    obtain ⟨hw, hshape⟩ := ih hv
    refine ⟨⟨hfront, hw, hrest⟩, shape_eq_of_child? rfl fun s => ?_⟩
    cases s with
    | item index => simp only [child?, ← List.getElem?_map, List.map_append, List.map_cons, hshape]
    | entry name => rfl
  | @entry v w front k rest _ ih =>
    rw [distinct_record_iff, List.forall_mem_append, List.forall_mem_cons] at ha ⊢
    obtain ⟨hnodup, hfront, hv, hrest⟩ := ha
    obtain ⟨hw, hshape⟩ := ih hv
    refine ⟨⟨by simpa using hnodup, hfront, hw, hrest⟩, shape_eq_of_child? rfl fun s => ?_⟩
    cases s with
    | item index => rfl
    | entry name => exact map_lookup_append_cons hshape k name

theorem Reordered.equal_eq {a' b' : Value} (ha : Reordered a a') (hb : Reordered b b')
    (hda : a.Distinct) (hdb : b.Distinct) : a'.equal b' = a.equal b := by
  obtain ⟨hda', hshape⟩ := ha.shape_eq hda
  obtain ⟨hdb', hshape'⟩ := hb.shape_eq hdb
  rw [Bool.eq_iff_iff, equal_iff_shape hda hdb, equal_iff_shape hda' hdb', hshape, hshape']

/-- Whether an order satisfies an operator. -/
def holdsFor (o : Ordering) : Comparator → Bool
  | .lt => o == .lt
  | .le => o != .gt
  | .gt => o == .gt
  | .ge => o != .lt
  | .eq => o == .eq
  | .ne => o != .eq

theorem compares_of_order {o : Ordering} (h : order a b = some o) (op : Comparator) :
    compares op a b = holdsFor o op := by
  cases op with
  | eq | ne => simp only [compares, equal_of_order h, holdsFor, bne]
  | _ =>
    rw [compares, h]
    cases o <;> rfl

/-- The one of the three operators that an order satisfies. -/
def strict : Ordering → Comparator
  | .lt => .lt
  | .eq => .eq
  | .gt => .gt

theorem strict_mem (o : Ordering) : strict o ∈ [Comparator.lt, .eq, .gt] := by
  cases o <;> decide

theorem holdsFor_iff_strict {o : Ordering} {op : Comparator}
    (hop : op ∈ [Comparator.lt, .eq, .gt]) : holdsFor o op = true ↔ op = strict o := by
  revert hop
  cases o <;> cases op <;> decide

theorem compares_of_not_comparable (h : ¬ Comparable a b) {op : Comparator}
    (hop : op ∈ [Comparator.lt, .le, .gt, .ge]) : compares op a b = false := by
  have hnone : order a b = none := by
    rw [← exists_order_iff, not_exists] at h
    exact Option.eq_none_iff_forall_ne_some.mpr h
  cases op with
  | eq | ne => exact absurd hop (by decide)
  | _ => simp [compares, hnone]

theorem compares_swap (a b : Value) :
    compares .gt b a = compares .lt a b ∧ compares .ge b a = compares .le a b := by
  simp only [compares, order_swap a b]
  rcases order a b with _ | (_ | _ | _) <;> decide

/-- The comparison operators cohere. Equality is symmetric; a value without not-a-number equals
itself, and objects and callables just themselves; how entries are ordered plays no part. The
other operators are the converses of one another, and of two texts or two numbers one is less or
they are equal; anything else has no order. -/
theorem compares_coherent :
    (∀ a b, a.Distinct → b.Distinct → compares .eq b a = compares .eq a b) ∧
    (∀ a, a.Distinct → a.NaNFree → compares .eq a a = true) ∧
    (∀ i j d d' g g' f f' m m',
      compares .eq (object i d g f m) (object j d' g' f' m') = decide (i = j)) ∧
    (∀ i j r r', compares .eq (callable i r) (callable j r') = decide (i = j)) ∧
    (∀ a a' b b', a.Distinct → b.Distinct → Reordered a a' → Reordered b b' →
      compares .eq a' b' = compares .eq a b) ∧
    (∀ a b, compares .ne a b = !compares .eq a b) ∧
    (∀ a b, compares .gt b a = compares .lt a b ∧ compares .ge b a = compares .le a b) ∧
    (∀ a b, Comparable a b →
      (∃! op, op ∈ [Comparator.lt, .eq, .gt] ∧ compares op a b = true) ∧
      compares .le a b = (compares .lt a b || compares .eq a b) ∧
      compares .ge a b = (compares .gt a b || compares .eq a b)) ∧
    ∀ a b, ¬ Comparable a b → ∀ op ∈ [Comparator.lt, .le, .gt, .ge], compares op a b = false := by
  refine ⟨fun a b ha hb => equal_comm hb ha, fun a => equal_self, fun i j _ _ _ _ _ _ _ _ => ?_,
    fun i j _ _ => ?_, fun a a' b b' hda hdb ha hb => ha.equal_eq hb hda hdb, fun a b => rfl,
    compares_swap, fun a b h => ?_, fun a b h op => compares_of_not_comparable h⟩
  · rw [compares, equal, Bool.beq_eq_decide_eq]
  · rw [compares, equal, Bool.beq_eq_decide_eq]
  · obtain ⟨o, ho⟩ := exists_order_iff.mpr h
    simp only [compares_of_order ho]
    refine ⟨⟨strict o, ⟨strict_mem o, (holdsFor_iff_strict (strict_mem o)).mpr rfl⟩, ?_⟩, ?_, ?_⟩
    · rintro op ⟨hop, hholds⟩
      exact (holdsFor_iff_strict hop).mp hholds
    · cases o <;> rfl
    · cases o <;> rfl

theorem compares_coherent_nested :
    (seq [record [("x", int 1), ("y", text "b")]]).Distinct ∧
    (seq [record [("x", int 1), ("y", text "b")]]).NaNFree ∧
    Reordered (seq [record [("x", int 1), ("y", text "b")]])
      (seq [record [("y", text "b"), ("x", int 1)]]) ∧
    compares .eq (seq [record [("y", text "b"), ("x", int 1)]])
      (seq [record [("x", int 1), ("y", text "b")]]) = true := by
  have hparts : (int 1).Distinct ∧ (text "b").Distinct := ⟨.flat rfl, .flat rfl⟩
  have hdistinct : (seq [record [("x", int 1), ("y", text "b")]]).Distinct := by
    simpa [distinct_seq_iff, distinct_record_iff] using hparts
  have hentries : (record [("x", int 1), ("y", text "b")]).NaNFree := by
    refine .of_child? nofun fun s w hw => ?_
    obtain ⟨name, hmem⟩ := mem_of_child?_record (by decide) hw
    simp only [List.mem_cons, Prod.mk.injEq, List.not_mem_nil, or_false] at hmem
    rcases hmem with ⟨-, rfl⟩ | ⟨-, rfl⟩
    · exact .of_top_eq rfl nofun
    · exact .of_top_eq rfl nofun
  have hnan : (seq [record [("x", int 1), ("y", text "b")]]).NaNFree := by
    refine .of_child? nofun fun s w hw => ?_
    rw [List.mem_singleton.mp (mem_of_child?_seq hw)]
    exact hentries
  have hreordered : Reordered (seq [record [("x", int 1), ("y", text "b")]])
      (seq [record [("y", text "b"), ("x", int 1)]]) :=
    .item [] [] (.entries (.swap _ _ _))
  refine ⟨hdistinct, hnan, hreordered, ?_⟩
  rw [compares_coherent.2.2.2.2.1 _ _ _ _ hdistinct hdistinct hreordered (.refl _)]
  exact compares_coherent.2.1 _ hdistinct hnan

end Stencil.Value

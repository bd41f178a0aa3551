/-
  Maps of the modelled language, as finite maps.

  A map is a `Finmap`: two maps with the same entries are equal, whatever the order in
  which they were filled. Reading a missing key with a default is `getD`; `sum f m` adds
  up `f` over the entries, which is what the size accounts of a store keep.

  * `sum_insert_new`, `sum_insert`, `sum_erase`: what one update does to such a sum.
  * `lookup_insertAll`, `lookup_eraseWhere`: what a loop that puts or deletes entries leaves.
  * `sortedKeys`: the keys in byte order, as a directory listing or an encoder visits
    them.
-/
import Mathlib.Algebra.BigOperators.Group.Finset.Basic
import Mathlib.Algebra.Order.BigOperators.Group.Finset
import Mathlib.Data.Finmap
import Mathlib.Data.Finset.Sort
import Mathlib.Data.List.Lex
import Veilmesh.Lib.Bytes

namespace Veilmesh.Lib

open Finmap

/-- A finite map from `K` to `V`. -/
abbrev GoMap (K V : Type) := Finmap fun _ : K => V

namespace GoMap

variable {K V : Type} [DecidableEq K]

/-- The entry of `k`, or `d` when there is none. -/
def getD (m : GoMap K V) (k : K) (d : V) : V := (m.lookup k).getD d

/-- The number of entries. -/
def size (m : GoMap K V) : Nat := m.keys.card

/-- The sum of `f` over the entries. -/
def sum (f : V → Int) (m : GoMap K V) : Int := ∑ k ∈ m.keys, ((m.lookup k).map f).getD 0

variable (m : GoMap K V)

theorem lookup_insert_eq (k k' : K) (v : V) :
    (m.insert k v).lookup k' = if k' = k then some v else m.lookup k' := by
  split
  · rename_i h
    rw [h, lookup_insert]
  · rename_i h
    rw [lookup_insert_of_ne _ h]

theorem lookup_erase_eq (k k' : K) :
    (m.erase k).lookup k' = if k' = k then none else m.lookup k' := by
  split
  · rename_i h
    rw [h, lookup_erase]
  · rename_i h
    rw [lookup_erase_ne h]

theorem getD_insert (k k' : K) (v d : V) :
    getD (m.insert k v) k' d = if k' = k then v else m.getD k' d := by
  rw [getD, lookup_insert_eq]
  split <;> rfl

theorem getD_erase (k k' : K) (d : V) :
    getD (m.erase k) k' d = if k' = k then d else m.getD k' d := by
  rw [getD, lookup_erase_eq]
  split <;> rfl

theorem keys_insert (k : K) (v : V) : (m.insert k v).keys = insert k m.keys := by
  ext k'
  rw [mem_keys, mem_insert, Finset.mem_insert, mem_keys]

variable {m : GoMap K V} {k : K} {v : V} {f : V → Int}

theorem mem_keys_iff : k ∈ m.keys ↔ ∃ v, m.lookup k = some v := by
  rw [mem_keys, mem_iff]

theorem mem_keys_of_lookup (h : m.lookup k = some v) : k ∈ m.keys := mem_keys_iff.mpr ⟨v, h⟩

theorem notMem_keys_of_lookup (h : m.lookup k = none) : k ∉ m.keys := by
  rw [mem_keys]
  exact lookup_eq_none.mp h

omit [DecidableEq K] in
@[simp] theorem size_empty : size (∅ : GoMap K V) = 0 := rfl

theorem size_insert_new (v : V) (h : m.lookup k = none) : (size (m.insert k v)) = size m + 1 := by
  rw [size, keys_insert, Finset.card_insert_of_notMem (notMem_keys_of_lookup h), size]

theorem size_insert_of_mem (v : V) (h : k ∈ m.keys) : (size (m.insert k v)) = size m := by
  rw [size, keys_insert, Finset.insert_eq_of_mem h, size]

theorem size_insert_le (m : GoMap K V) (k : K) (v : V) : size (m.insert k v) ≤ size m + 1 := by
  rw [size, keys_insert, size]
  exact Finset.card_insert_le _ _

theorem size_erase (h : m.lookup k = some v) : size (m.erase k) + 1 = size m := by
  rw [size, keys_erase, size]
  exact Finset.card_erase_add_one (mem_keys_of_lookup h)

theorem sum_insert_new (f : V → Int) (v : V) (h : m.lookup k = none) :
    sum f (m.insert k v) = sum f m + f v := by
  have hk := notMem_keys_of_lookup h
  rw [sum, keys_insert, Finset.sum_insert hk, lookup_insert, sum, add_comm]
  congr 1
  refine Finset.sum_congr rfl fun k' hk' => ?_
  rw [lookup_insert_of_ne]
  rintro rfl
  exact hk hk'

theorem sum_erase (f : V → Int) (h : m.lookup k = some v) : sum f (m.erase k) = sum f m - f v := by
  have hk := mem_keys_of_lookup h
  rw [sum, sum, keys_erase, ← Finset.add_sum_erase _ _ hk, h]
  simp only [Option.map_some, Option.getD_some, add_sub_cancel_left]
  refine Finset.sum_congr rfl fun k' hk' => ?_
  rw [lookup_erase_ne (Finset.ne_of_mem_erase hk')]

theorem insert_erase (m : GoMap K V) (k : K) (v : V) : (m.erase k).insert k v = m.insert k v := by
  refine ext_lookup fun k' => ?_
  rw [lookup_insert_eq, lookup_insert_eq, lookup_erase_eq]
  split <;> rfl

theorem sum_insert (f : V → Int) (w : V) (h : m.lookup k = some v) :
    sum f (m.insert k w) = sum f m - f v + f w := by
  rw [← insert_erase, sum_insert_new f w (lookup_erase k m), sum_erase f h]

theorem sum_nonneg (h : ∀ k v, m.lookup k = some v → 0 ≤ f v) : 0 ≤ sum f m := by
  refine Finset.sum_nonneg fun k hk => ?_
  obtain ⟨v, hv⟩ := mem_keys_iff.mp hk
  simpa [hv] using h k v hv

/-- A bound on each entry bounds the sum. -/
theorem sum_le {b : Int} (h : ∀ k v, m.lookup k = some v → f v ≤ b) : sum f m ≤ size m * b := by
  have := Finset.sum_le_card_nsmul m.keys (fun k => ((m.lookup k).map f).getD 0) b fun k hk => by
    obtain ⟨v, hv⟩ := mem_keys_iff.mp hk
    simpa [hv] using h k v hv
  simpa [sum, size, nsmul_eq_mul] using this

/-- A map whose entries are bounded by those of another has the smaller sum. -/
theorem sum_mono {W : Type} {g : W → Int} {m' : GoMap K W}
    (h0 : ∀ k w, m'.lookup k = some w → 0 ≤ g w)
    (h : ∀ k v, m.lookup k = some v → ∃ w, m'.lookup k = some w ∧ f v ≤ g w) :
    sum f m ≤ sum g m' := by
  have hsub : m.keys ⊆ m'.keys := fun k hk => by
    obtain ⟨v, hv⟩ := mem_keys_iff.mp hk
    obtain ⟨w, hw, -⟩ := h k v hv
    exact mem_keys_of_lookup hw
  calc sum f m ≤ ∑ k ∈ m.keys, ((m'.lookup k).map g).getD 0 := by
        refine Finset.sum_le_sum fun k hk => ?_
        obtain ⟨v, hv⟩ := mem_keys_iff.mp hk
        obtain ⟨w, hw, hle⟩ := h k v hv
        simpa [hv, hw] using hle
    _ ≤ sum g m' := by
        refine Finset.sum_le_sum_of_subset_of_nonneg hsub fun k hk _ => ?_
        obtain ⟨w, hw⟩ := mem_keys_iff.mp hk
        simpa [hw] using h0 k w hw

/-- A map whose entries are among those of another has the smaller sum. -/
theorem sum_le_sum {m' : GoMap K V} (h0 : ∀ k v, m'.lookup k = some v → 0 ≤ f v)
    (h : ∀ k v, m.lookup k = some v → m'.lookup k = some v) : sum f m ≤ sum f m' :=
  sum_mono h0 fun k v hv => ⟨v, h k v hv, le_rfl⟩

/-! ### Filling in a loop -/

/-- Put an entry for each element of a list, in its order. -/
def insertAll {α : Type} (key : α → K) (val : α → V) (l : List α) (m : GoMap K V) : GoMap K V :=
  l.foldl (fun m x => m.insert (key x) (val x)) m

section

variable {α : Type} {key : α → K} {val : α → V} {l : List α} {m : GoMap K V}

theorem lookup_insertAll_of_notMem {k : K} (h : k ∉ l.map key) :
    (insertAll key val l m).lookup k = m.lookup k := by
  induction l generalizing m with
  | nil => rfl
  | cons x l ih =>
    rw [List.map_cons, List.mem_cons, not_or] at h
    change (insertAll key val l (m.insert (key x) (val x))).lookup k = _
    rw [ih h.2, lookup_insert_of_ne _ h.1]

/-- With different keys every element keeps its entry. -/
theorem lookup_insertAll (hnodup : (l.map key).Nodup) {x : α} (hx : x ∈ l) :
    (insertAll key val l m).lookup (key x) = some (val x) := by
  induction l generalizing m with
  | nil => cases hx
  | cons y l ih =>
    rw [List.map_cons, List.nodup_cons] at hnodup
    change (insertAll key val l (m.insert (key y) (val y))).lookup (key x) = _
    rcases List.mem_cons.mp hx with rfl | hx
    · rw [lookup_insertAll_of_notMem hnodup.1, lookup_insert]
    · exact ih hnodup.2 hx

/-- Every entry was there or comes from an element. -/
theorem lookup_insertAll_some {k : K} {v : V} (h : (insertAll key val l m).lookup k = some v) :
    (∃ x ∈ l, key x = k ∧ val x = v) ∨ m.lookup k = some v := by
  induction l generalizing m with
  | nil => exact .inr h
  | cons y l ih =>
    rcases ih h with ⟨x, hx, hxk⟩ | hold
    · exact .inl ⟨x, List.mem_cons_of_mem _ hx, hxk⟩
    · rw [lookup_insert_eq] at hold
      split at hold
      · rename_i heq
        exact .inl ⟨y, List.mem_cons_self, heq.symm, Option.some.inj hold⟩
      · exact .inr hold

theorem size_insertAll (hnodup : (l.map key).Nodup) (hnew : ∀ x ∈ l, m.lookup (key x) = none) :
    size (insertAll key val l m) = size m + l.length := by
  induction l generalizing m with
  | nil => rfl
  | cons y l ih =>
    rw [List.map_cons, List.nodup_cons] at hnodup
    change size (insertAll key val l (m.insert (key y) (val y))) = _
    rw [ih hnodup.2, size_insert_new _ (hnew y List.mem_cons_self), List.length_cons, Nat.add_assoc,
      Nat.add_comm 1]
    intro x hx
    have hne : key x ≠ key y := fun heq => hnodup.1 (heq ▸ List.mem_map_of_mem hx)
    rw [lookup_insert_of_ne _ hne]
    exact hnew x (List.mem_cons_of_mem _ hx)

end

/-! ### Deleting in a loop -/

/-- Delete the entries that satisfy `p`, visiting the keys in the given order. -/
def eraseWhere (p : V → Bool) (m : GoMap K V) (order : List K) : GoMap K V :=
  order.foldl (fun m k =>
    match m.lookup k with
    | some v => if p v then m.erase k else m
    | none => m) m

theorem lookup_eraseWhere (p : V → Bool) (m : GoMap K V) (order : List K) (k : K) :
    (m.eraseWhere p order).lookup k =
      (m.lookup k).filter fun v => !(p v && decide (k ∈ order)) := by
  induction order generalizing m with
  | nil => cases h : m.lookup k <;> simp [eraseWhere, h, Option.filter]
  | cons k' order ih =>
    have hstep : m.eraseWhere p (k' :: order) = eraseWhere p (match m.lookup k' with
      | some v => if p v then m.erase k' else m
      | none => m) order := rfl
    rw [hstep, ih]
    by_cases hk : k = k'
    · subst hk
      cases hm : m.lookup k with
      | none => simp [hm]
      | some v =>
        cases hp : p v
        · simp [hm, hp, Option.filter]
        · simp [hp, lookup_erase, Option.filter]
    · have hlookup : (match m.lookup k' with
          | some v => if p v then m.erase k' else m
          | none => m).lookup k = m.lookup k := by
        split
        · split
          · exact lookup_erase_ne hk
          · rfl
        · rfl
      rw [hlookup]
      simp [hk]

theorem size_le_of_lookup {W : Type} {m' : GoMap K W}
    (h : ∀ k v, m.lookup k = some v → ∃ w, m'.lookup k = some w) : size m ≤ size m' := by
  refine Finset.card_le_card fun k hk => ?_
  obtain ⟨v, hv⟩ := mem_keys_iff.mp hk
  exact mem_keys_iff.mpr (h k v hv)

end GoMap

/-! ## Byte order -/

/-- The order of byte strings, byte by byte. -/
def bytesLE (a b : Bytes) : Prop := a.map UInt8.toNat ≤ b.map UInt8.toNat

instance : DecidableRel bytesLE := fun a b =>
  inferInstanceAs (Decidable (a.map UInt8.toNat ≤ b.map UInt8.toNat))

theorem map_toNat_injective : Function.Injective (List.map UInt8.toNat) :=
  List.map_injective_iff.mpr fun _ _ h => UInt8.toNat_inj.mp h

instance : IsTrans Bytes bytesLE := ⟨fun _ _ _ hab hbc => le_trans (α := List Nat) hab hbc⟩

instance : Std.Antisymm bytesLE :=
  ⟨fun _ _ hab hba => map_toNat_injective (le_antisymm (α := List Nat) hab hba)⟩

instance : Std.Total bytesLE := ⟨fun _ _ => le_total (α := List Nat) _ _⟩

theorem not_bytesLE_nil {a : Bytes} (h : a ≠ []) : ¬ bytesLE a [] := by
  obtain ⟨b, bs, rfl⟩ := List.exists_cons_of_ne_nil h
  simp [bytesLE]

/-- Sorting by a key puts the keys in byte order. -/
theorem pairwise_mergeSort_key {α : Type} (key : α → Bytes) (l : List α) :
    (l.mergeSort fun a b => decide (bytesLE (key a) (key b))).Pairwise fun a b =>
      bytesLE (key a) (key b) := by
  have hsorted := @List.pairwise_mergeSort α (fun a b => decide (bytesLE (key a) (key b)))
    (fun a b d hab hbd => decide_eq_true
      (IsTrans.trans _ _ _ (of_decide_eq_true hab) (of_decide_eq_true hbd)))
    (fun a b => by simpa using Std.Total.total (r := bytesLE) (key a) (key b)) l
  exact hsorted.imp of_decide_eq_true

/-- The keys of a map in byte order. -/
def GoMap.sortedKeys {V : Type} (m : GoMap Bytes V) : List Bytes := m.keys.sort bytesLE

theorem GoMap.mem_sortedKeys {V : Type} {m : GoMap Bytes V} {k : Bytes} :
    k ∈ m.sortedKeys ↔ k ∈ m.keys := Finset.mem_sort _

theorem GoMap.sortedKeys_nodup {V : Type} (m : GoMap Bytes V) : m.sortedKeys.Nodup :=
  Finset.sort_nodup _ _

end Veilmesh.Lib

/-
  The representation invariant of the node store.

  `StoreInv` says how the five indexes and the directory fit together. It is split by
  what the parts look at: `IndexInv` (the maps among themselves), `LimitInv` (the bounds)
  and the files. Two lemmas carry the development: `IndexInv.index` and
  `IndexInv.unindex` say what one added and one removed item do to the maps. Everything
  else follows from them along the operations.

  * `put_cases`, `removeItem_ok`, `sweepLoop_inv`: the operations, one spec each.
  * `put_inv`, `delete_inv`, `sweep_inv`: each keeps the invariant, and leaves the state
    alone when it fails.
-/
import Veilmesh.Node.Store

namespace Veilmesh.Node

open Lib Protocol DiskStore GoMap Finmap Finset
open GoMap (getD)

/-- The largest charge of an item. -/
def maxCharge : Int := maxStoredItemEncodingBytes + perItemAccountingOverhead

/-- The maps of a store agree with one another. -/
structure IndexInv (s : DiskStore) : Prop where
  /-- The same items are charged as are held. -/
  charged : s.charges.keys = s.items.keys
  /-- A route lists exactly its items. -/
  routed : ∀ r id, id ∈ s.routeIDs r ↔ ∃ item, s.items.lookup id = some item ∧ item.routeTag = r
  /-- A route has an entry exactly when it has an item. -/
  routeKeys : ∀ r, r ∈ s.byRoute.keys ↔ (s.routeIDs r).Nonempty
  routeUsedKeys : s.routeUsed.keys = s.byRoute.keys
  used : s.used = GoMap.sum (fun c => c) s.charges
  routeUsed : ∀ r, s.routeCharge r = ∑ id ∈ s.routeIDs r, s.charges.getD id 0
  keyed : ∀ id item, s.items.lookup id = some item → item.itemID = id ∧ validItemID id = true
  chargeBound : ∀ id c, s.charges.lookup id = some c → 0 ≤ c ∧ c ≤ maxCharge

/-- The store keeps within its limits. -/
structure LimitInv (s : DiskStore) : Prop where
  positive : 0 < s.capacity ∧ 0 < s.routeQuota
  capacity : s.used ≤ s.capacity
  quota : ∀ r, s.routeCharge r ≤ s.routeQuota
  count : s.items.size ≤ maxStoredItems
  routeCount : ∀ r, (s.routeIDs r).card ≤ maxItemsPerRoute

/-- A file is an encoding of an item: the one the encoder writes, or one the decoder
    reads as the item. -/
def Encodes (data : Bytes) (item : StoredItem) : Prop :=
  marshal storedItemCodec item = some data ∨
    unmarshal storedItemCodec StoredItem.zero data = some item

/-- Every item has its file, with the charge that belongs to it. -/
def HasFiles (s : DiskStore) : Prop :=
  ∀ id item, s.items.lookup id = some item → ∃ f, s.dir.files.lookup (itemFile id) = some f ∧
    DiskStore.acceptableFile f = true ∧ Encodes f.data item ∧
    s.charges.lookup id = some (storedItemCharge f.data.length)

/-- A file the start-up loop would look at. -/
def IsItemFile (d : Disk) (name : Bytes) : Prop :=
  ∃ f, d.files.lookup name = some f ∧ f.kind ≠ .directory ∧ ext name = jsonExt

/-- The representation invariant. -/
structure StoreInv (s : DiskStore) : Prop extends IndexInv s, LimitInv s where
  files : HasFiles s
  /-- There is no other `.json` file. -/
  noOther : ∀ name, IsItemFile s.dir name → ∃ id ∈ s.items.keys, name = itemFile id

/-! ## Names -/

theorem itemFile_inj {a b : Bytes} (h : itemFile a = itemFile b) : a = b :=
  List.append_cancel_right h

theorem ext_itemFile (id : Bytes) : ext (itemFile id) = jsonExt := by
  have hrev : (itemFile id).reverse = [110, 111, 115, 106, 46] ++ id.reverse := by
    rw [itemFile, List.reverse_append]
    rfl
  unfold ext
  rw [hrev]
  simp [itemFile, jsonExt]
  rfl

theorem storedItemCharge_bounds {n : Nat} (h : n ≤ maxStoredItemEncodingBytes) :
    0 ≤ storedItemCharge n ∧ storedItemCharge n ≤ maxCharge := by
  unfold storedItemCharge maxCharge perItemAccountingOverhead
  split <;> constructor <;> omega

/-! ## What one index update does -/

namespace DiskStore

theorem routeIDs_index (s : DiskStore) (item : StoredItem) (c : Int) (r : Bytes) :
    (s.index item c).routeIDs r =
      if r = item.routeTag then insert item.itemID (s.routeIDs r) else s.routeIDs r := by
  unfold routeIDs index
  dsimp only
  rw [getD_insert]
  split
  · rename_i h; rw [h]; rfl
  · rfl

theorem routeCharge_index (s : DiskStore) (item : StoredItem) (c : Int) (r : Bytes) :
    (s.index item c).routeCharge r =
      if r = item.routeTag then wrap64 (s.routeCharge r + c) else s.routeCharge r := by
  unfold routeCharge index
  dsimp only
  rw [getD_insert]
  split
  · rename_i h; rw [h]; rfl
  · rfl

theorem routeIDs_unindex (s : DiskStore) (id : Bytes) (item : StoredItem) (r : Bytes) :
    (s.unindex id item).routeIDs r =
      if r = item.routeTag then (s.routeIDs r).erase id else s.routeIDs r := by
  have hdef : (s.unindex id item).routeIDs r =
      getD (if (s.routeIDs item.routeTag).erase id = ∅ then s.byRoute.erase item.routeTag
        else s.byRoute.insert item.routeTag ((s.routeIDs item.routeTag).erase id)) r ∅ := rfl
  rw [hdef]
  by_cases he : (s.routeIDs item.routeTag).erase id = ∅
  · rw [if_pos he, getD_erase]
    split
    · rename_i h; rw [h, he]
    · rfl
  · rw [if_neg he, getD_insert]
    split
    · rename_i h; rw [h]
    · rfl

theorem routeCharge_unindex (s : DiskStore) (id : Bytes) (item : StoredItem) (r : Bytes) :
    (s.unindex id item).routeCharge r =
      if r = item.routeTag then
        if (s.routeIDs r).erase id = ∅ then 0
        else wrap64 (s.routeCharge r - s.charges.getD id 0)
      else s.routeCharge r := by
  have hdef : (s.unindex id item).routeCharge r =
      getD (if (s.routeIDs item.routeTag).erase id = ∅ then s.routeUsed.erase item.routeTag
        else s.routeUsed.insert item.routeTag
          (wrap64 (s.routeCharge item.routeTag - s.charges.getD id 0))) r 0 := rfl
  rw [hdef]
  by_cases he : (s.routeIDs item.routeTag).erase id = ∅
  · rw [if_pos he, getD_erase]
    split
    · rename_i h; rw [h, if_pos he]
    · rfl
  · rw [if_neg he, getD_insert]
    split
    · rename_i h; rw [h, if_neg he]
    · rfl

end DiskStore

/-! ## Bounds: no account can overflow -/

variable {s : DiskStore} {c : Int} {id data : Bytes} {item : StoredItem} (h : IndexInv s)

include h

theorem chargeOf_bounds (id : Bytes) :
    0 ≤ s.charges.getD id 0 ∧ s.charges.getD id 0 ≤ maxCharge := by
  unfold getD
  cases hc : s.charges.lookup id with
  | none => exact ⟨le_refl _, by decide⟩
  | some c => exact h.chargeBound id c hc

theorem size_charges : s.charges.size = s.items.size := by
  rw [size, size, h.charged]

theorem used_bounds : 0 ≤ s.used ∧ s.used ≤ s.items.size * maxCharge := by
  rw [h.used, ← size_charges h]
  exact ⟨sum_nonneg fun k c hc => (h.chargeBound k c hc).1,
    sum_le fun k c hc => (h.chargeBound k c hc).2⟩

/-- A route's account is part of the whole. -/
theorem routeCharge_le_used (r : Bytes) : 0 ≤ s.routeCharge r ∧ s.routeCharge r ≤ s.used := by
  rw [h.routeUsed, h.used]
  have hsub : s.routeIDs r ⊆ s.charges.keys := by
    intro id hid
    obtain ⟨item, hitem, -⟩ := (h.routed r id).mp hid
    rw [h.charged]
    exact mem_keys_of_lookup hitem
  refine ⟨sum_nonneg fun id _ => (chargeOf_bounds h id).1, ?_⟩
  calc ∑ id ∈ s.routeIDs r, s.charges.getD id 0
      ≤ ∑ id ∈ s.charges.keys, s.charges.getD id 0 :=
        sum_le_sum_of_subset_of_nonneg hsub fun id _ _ => (chargeOf_bounds h id).1
    _ = sum (fun c => c) s.charges := by
        refine sum_congr rfl fun id _ => ?_
        simp [getD]

variable (hn : s.items.size ≤ maxStoredItems)

include hn

/-- The whole account stays far below the 64-bit range. -/
theorem used_le : s.used ≤ 1000000 * 724992 := by
  have hm : maxCharge = 724992 := by decide
  have hu := (used_bounds h).2
  rw [hm] at hu
  refine hu.trans (Int.mul_le_mul_of_nonneg_right ?_ (by decide))
  exact_mod_cast hn

/-- A part of the account plus one more charge does not wrap. -/
theorem account_add_range {a : Int}
    (ha : 0 ≤ a ∧ a ≤ s.used) (hc : 0 ≤ c ∧ c ≤ maxCharge) : wrap64 (a + c) = a + c := by
  have hu := used_le h hn
  have hm : maxCharge = 724992 := by decide
  rw [hm] at hc
  apply wrap64_of_range
  · omega
  · unfold maxInt64; omega

/-- Nor does a part of the account less a part of itself. -/
theorem account_sub_range {a : Int}
    (ha : a ≤ s.used) (hc : 0 ≤ c) (hca : c ≤ a) : wrap64 (a - c) = a - c := by
  have hu := used_le h hn
  apply wrap64_of_range
  · omega
  · unfold maxInt64; omega

omit hn

/-! ## One more item, one item less -/

theorem charges_lookup_none (hnew : s.items.lookup id = none) : s.charges.lookup id = none := by
  have hk := notMem_keys_of_lookup hnew
  rw [← h.charged, mem_keys] at hk
  exact lookup_eq_none.mpr hk

theorem charges_lookup_some (hitem : s.items.lookup id = some item) :
    ∃ c, s.charges.lookup id = some c := by
  have hk := mem_keys_of_lookup hitem
  rw [← h.charged] at hk
  exact mem_keys_iff.mp hk

omit h

/-- Charges of other items are not touched by an insertion. -/
theorem sum_charges_insert {charges : GoMap Bytes Int} {ids : Finset Bytes} (c : Int) (h : id ∉ ids)
    : ∑ k ∈ ids, getD (charges.insert id c) k 0 = ∑ k ∈ ids, charges.getD k 0 := by
  refine sum_congr rfl fun k hk => ?_
  rw [getD_insert, if_neg]
  rintro rfl
  exact h hk

theorem sum_charges_erase {charges : GoMap Bytes Int} {ids : Finset Bytes} (h : id ∉ ids) :
    ∑ k ∈ ids, getD (charges.erase id) k 0 = ∑ k ∈ ids, charges.getD k 0 := by
  refine sum_congr rfl fun k hk => ?_
  rw [getD_erase, if_neg]
  rintro rfl
  exact h hk

theorem IndexInv.index (h : IndexInv s) (hn : s.items.size ≤ maxStoredItems)
    (hnew : s.items.lookup item.itemID = none) (hvalid : validItemID item.itemID = true)
    (hc : 0 ≤ c ∧ c ≤ maxCharge) : IndexInv (s.index item c) := by
  have hused := account_add_range h hn ⟨(used_bounds h).1, le_refl _⟩ hc
  have hroute := account_add_range h hn (routeCharge_le_used h item.routeTag) hc
  have hcnone := charges_lookup_none h hnew
  have hnot : ∀ r, item.itemID ∉ s.routeIDs r := by
    intro r hr
    obtain ⟨i, hi, -⟩ := (h.routed r _).mp hr
    rw [hnew] at hi
    cases hi
  constructor
  case charged =>
    change (s.charges.insert _ _).keys = (s.items.insert _ _).keys
    rw [keys_insert, keys_insert, h.charged]
  case routed =>
    intro r id
    rw [routeIDs_index]
    change _ ↔ ∃ i, (s.items.insert item.itemID item).lookup id = some i ∧ _
    rw [lookup_insert_eq]
    by_cases hid : id = item.itemID
    · subst hid
      by_cases hr : r = item.routeTag
      · simp [hr]
      · have hr' : ¬ item.routeTag = r := fun e => hr e.symm
        simp [hr, hr', hnot r]
    · by_cases hr : r = item.routeTag
      · simp [hr, hid, h.routed]
      · simp [hr, hid, h.routed]
  case routeKeys =>
    intro r
    rw [routeIDs_index]
    change r ∈ (s.byRoute.insert _ _).keys ↔ _
    rw [keys_insert, Finset.mem_insert]
    by_cases hr : r = item.routeTag
    · simp [hr]
    · simp [hr, h.routeKeys]
  case routeUsedKeys =>
    change (s.routeUsed.insert _ _).keys = (s.byRoute.insert _ _).keys
    rw [keys_insert, keys_insert, h.routeUsedKeys]
  case used =>
    change wrap64 (s.used + c) = sum (fun c => c) (s.charges.insert _ _)
    rw [hused, sum_insert_new _ c hcnone, h.used]
  case routeUsed =>
    intro r
    rw [routeCharge_index, routeIDs_index]
    change _ = ∑ k ∈ _, getD (s.charges.insert item.itemID c) k 0
    by_cases hr : r = item.routeTag
    · subst hr
      rw [if_pos rfl, if_pos rfl, hroute, Finset.sum_insert (hnot _), sum_charges_insert c (hnot _),
        getD_insert, if_pos rfl, h.routeUsed, add_comm]
    · rw [if_neg hr, if_neg hr, sum_charges_insert c (hnot _), h.routeUsed]
  case keyed =>
    intro id i hi
    change (s.items.insert item.itemID item).lookup id = some i at hi
    rw [lookup_insert_eq] at hi
    split at hi
    · rename_i hid
      obtain rfl := Option.some.inj hi
      exact ⟨hid.symm, hid ▸ hvalid⟩
    · exact h.keyed id i hi
  case chargeBound =>
    intro id d hd
    change (s.charges.insert item.itemID c).lookup id = some d at hd
    rw [lookup_insert_eq] at hd
    split at hd
    · exact Option.some.inj hd ▸ hc
    · exact h.chargeBound id d hd

section

variable {s : DiskStore} {id : Bytes} {item : StoredItem}

/-- The route's account is the charge of one of its items plus that of the others. -/
theorem routeCharge_split (h : IndexInv s) (hitem : s.items.lookup id = some item) :
    s.routeCharge item.routeTag = s.charges.getD id 0 +
      ∑ k ∈ (s.routeIDs item.routeTag).erase id, s.charges.getD k 0 := by
  have hmem : id ∈ s.routeIDs item.routeTag := (h.routed _ _).mpr ⟨item, hitem, rfl⟩
  rw [h.routeUsed, ← add_sum_erase _ _ hmem]

theorem charge_le_routeCharge (h : IndexInv s) (hitem : s.items.lookup id = some item) :
    s.charges.getD id 0 ≤ s.routeCharge item.routeTag := by
  rw [routeCharge_split h hitem]
  have : 0 ≤ ∑ k ∈ (s.routeIDs item.routeTag).erase id, s.charges.getD k 0 :=
    sum_nonneg fun k _ => (chargeOf_bounds h k).1
  omega

theorem routeCharge_unindex_eq (h : IndexInv s) (hn : s.items.size ≤ maxStoredItems)
    (hitem : s.items.lookup id = some item) (r : Bytes) :
    (s.unindex id item).routeCharge r =
      if r = item.routeTag then s.routeCharge r - s.charges.getD id 0 else s.routeCharge r := by
  rw [routeCharge_unindex]
  split
  · rename_i hr
    subst hr
    have hsplit := routeCharge_split h hitem
    split
    · rename_i he
      rw [hsplit, he, sum_empty]
      omega
    · exact account_sub_range h hn (routeCharge_le_used h _).2 (chargeOf_bounds h id).1
        (charge_le_routeCharge h hitem)
  · rfl

theorem used_unindex_eq (h : IndexInv s) (hn : s.items.size ≤ maxStoredItems)
    (hitem : s.items.lookup id = some item) :
    (s.unindex id item).used = s.used - s.charges.getD id 0 :=
  account_sub_range h hn (le_refl _) (chargeOf_bounds h id).1
    ((charge_le_routeCharge h hitem).trans (routeCharge_le_used h _).2)

theorem IndexInv.unindex (h : IndexInv s) (hn : s.items.size ≤ maxStoredItems)
    (hitem : s.items.lookup id = some item) : IndexInv (s.unindex id item) := by
  obtain ⟨c, hcl⟩ := charges_lookup_some h hitem
  have hcd : s.charges.getD id 0 = c := by rw [getD, hcl]; rfl
  have hother : ∀ r, r ≠ item.routeTag → id ∉ s.routeIDs r := by
    intro r hr hin
    obtain ⟨i, hi, hir⟩ := (h.routed r id).mp hin
    rw [hitem] at hi
    exact hr (by rw [← hir, Option.some.inj hi])
  constructor
  case charged =>
    change (s.charges.erase _).keys = (s.items.erase _).keys
    rw [keys_erase, keys_erase, h.charged]
  case routed =>
    intro r k
    rw [routeIDs_unindex]
    change _ ↔ ∃ i, (s.items.erase id).lookup k = some i ∧ _
    rw [lookup_erase_eq]
    by_cases hk : k = id
    · subst hk
      by_cases hr : r = item.routeTag
      · simp [hr]
      · simp [hr, hother r hr]
    · by_cases hr : r = item.routeTag
      · simp [hr, hk, h.routed]
      · simp [hr, hk, h.routed]
  case routeKeys =>
    intro r
    rw [routeIDs_unindex]
    change r ∈ keys (if (s.routeIDs item.routeTag).erase id = ∅ then _ else _) ↔ _
    by_cases he : (s.routeIDs item.routeTag).erase id = ∅
    · rw [if_pos he, keys_erase, Finset.mem_erase]
      by_cases hr : r = item.routeTag
      · simp [hr, he]
      · simp [hr, h.routeKeys]
    · rw [if_neg he, keys_insert, Finset.mem_insert]
      by_cases hr : r = item.routeTag
      · simp [hr, Finset.nonempty_iff_ne_empty, he]
      · simp [hr, h.routeKeys]
  case routeUsedKeys =>
    change keys (if (s.routeIDs item.routeTag).erase id = ∅ then _ else _) =
      keys (if (s.routeIDs item.routeTag).erase id = ∅ then _ else _)
    split
    · rw [keys_erase, keys_erase, h.routeUsedKeys]
    · rw [keys_insert, keys_insert, h.routeUsedKeys]
  case used =>
    change _ = sum (fun c => c) (s.charges.erase id)
    rw [used_unindex_eq h hn hitem, sum_erase _ hcl, hcd, h.used]
  case routeUsed =>
    intro r
    rw [routeCharge_unindex_eq h hn hitem, routeIDs_unindex]
    change _ = ∑ k ∈ _, getD (s.charges.erase id) k 0
    by_cases hr : r = item.routeTag
    · subst hr
      rw [if_pos rfl, if_pos rfl, sum_charges_erase (notMem_erase _ _), routeCharge_split h hitem]
      omega
    · rw [if_neg hr, if_neg hr, sum_charges_erase (hother r hr), h.routeUsed]
  case keyed =>
    intro k i hi
    change (s.items.erase id).lookup k = some i at hi
    rw [lookup_erase_eq] at hi
    split at hi
    · cases hi
    · exact h.keyed k i hi
  case chargeBound =>
    intro k d hd
    change (s.charges.erase id).lookup k = some d at hd
    rw [lookup_erase_eq] at hd
    split at hd
    · cases hd
    · exact h.chargeBound k d hd

theorem LimitInv.unindex (h : IndexInv s) (hl : LimitInv s)
    (hitem : s.items.lookup id = some item) : LimitInv (s.unindex id item) := by
  have hc := (chargeOf_bounds h id).1
  refine ⟨hl.positive, ?_, fun r => ?_, ?_, fun r => ?_⟩
  · rw [used_unindex_eq h hl.count hitem]
    exact (Int.sub_le_self _ hc).trans hl.capacity
  · rw [routeCharge_unindex_eq h hl.count hitem]
    split
    · exact (Int.sub_le_self _ hc).trans (hl.quota r)
    · exact hl.quota r
  · have := size_erase hitem
    exact (Nat.le_of_lt (Nat.lt_of_succ_le (this ▸ Nat.le_refl _))).trans hl.count
  · rw [routeIDs_unindex]
    split
    · exact (card_erase_le).trans (hl.routeCount r)
    · exact hl.routeCount r

end

/-! ## The operations -/

theorem IndexInv.withDir (h : IndexInv s) (d : Disk) : IndexInv { s with dir := d } :=
  ⟨h.charged, h.routed, h.routeKeys, h.routeUsedKeys, h.used, h.routeUsed, h.keyed, h.chargeBound⟩

theorem LimitInv.withDir (h : LimitInv s) (d : Disk) :
    LimitInv { s with dir := d } := ⟨h.positive, h.capacity, h.quota, h.count, h.routeCount⟩

theorem path_eq_ok (h : validItemID id = true) : path id = .ok (itemFile id) :=
  if_pos h

theorem acceptableFile_regular {f : File} (h : acceptableFile f = true) :
    f.kind = .regular ∧ f.isPrivate = true ∧ 0 < f.data.length ∧
      f.data.length ≤ maxStoredItemEncodingBytes := by
  simp only [acceptableFile, Bool.and_eq_true, beq_iff_eq, decide_eq_true_eq] at h
  exact ⟨h.1.1.1, h.1.1.2, h.1.2, h.2⟩

/-- The state after one item is gone. -/
def DiskStore.without (s : DiskStore) (id : Bytes) (item : StoredItem) : DiskStore :=
  { s with dir := s.dir.remove (itemFile id) }.unindex id item

theorem removeItem_ok (h : StoreInv s) (hitem : s.items.lookup id = some item) :
    s.removeItem id item = (.ok (), s.without id item) := by
  obtain ⟨f, hf, hacc, -⟩ := h.files id item hitem
  have hreg := (acceptableFile_regular hacc).1
  rw [removeItem, path_eq_ok (h.keyed id item hitem).2]
  simp [removeFile, hf, hreg, without]

theorem StoreInv.without (h : StoreInv s) (hitem : s.items.lookup id = some item) :
    StoreInv (s.without id item) := by
  have hi := h.toIndexInv.withDir (s.dir.remove (itemFile id))
  have hl := h.toLimitInv.withDir (s.dir.remove (itemFile id))
  refine ⟨hi.unindex hl.count hitem, hl.unindex hi hitem, ?_, ?_⟩
  · intro k i hk
    change (s.items.erase id).lookup k = some i at hk
    rw [lookup_erase_eq] at hk
    split at hk
    · cases hk
    · rename_i hne
      obtain ⟨f, hf, hacc, henc, hcl⟩ := h.files k i hk
      refine ⟨f, ?_, hacc, henc, ?_⟩
      · change (s.dir.files.erase (itemFile id)).lookup (itemFile k) = some f
        rw [lookup_erase_ne fun e => hne (itemFile_inj e), hf]
      · change (s.charges.erase id).lookup k = _
        rw [lookup_erase_ne hne, hcl]
  · rintro name ⟨f, hf, hkind, hext⟩
    change (s.dir.files.erase (itemFile id)).lookup name = some f at hf
    rw [lookup_erase_eq] at hf
    split at hf
    · cases hf
    · rename_i hne
      obtain ⟨k, hk, rfl⟩ := h.noOther name ⟨f, hf, hkind, hext⟩
      refine ⟨k, ?_, rfl⟩
      change k ∈ (s.items.erase id).keys
      rw [keys_erase, Finset.mem_erase]
      exact ⟨fun e => hne (by rw [e]), hk⟩

/-- The loop of `Sweep` keeps the invariant and does not fail. -/
theorem sweepLoop_inv (now : Time) (order : List Bytes) (h : StoreInv s) :
    StoreInv (sweepLoop now order s).2 ∧
      (sweepLoop now order s).1 = .ok () := by
  induction order generalizing s with
  | nil => exact ⟨h, rfl⟩
  | cons id order ih =>
    rw [sweepLoop]
    split
    · exact ih h
    · rename_i item hitem
      split
      · exact ih h
      · rw [removeItem_ok h hitem]
        exact ih (h.without hitem)

theorem delete_inv (h : StoreInv s) (id : Bytes) :
    StoreInv (s.delete id).2 ∧ ∀ e, (s.delete id).1 = .error e → (s.delete id).2 = s := by
  unfold delete
  split
  · exact ⟨h, fun _ _ => rfl⟩
  · split
    · exact ⟨h, fun _ _ => rfl⟩
    · rename_i item hitem
      rw [removeItem_ok h hitem]
      exact ⟨h.without hitem, fun e he => by cases he⟩

theorem sweep_inv (h : StoreInv s) (now : Time) (order : List Bytes) :
    StoreInv (s.sweep now order).2 ∧
      ∀ e, (s.sweep now order).1 = .error e → (s.sweep now order).2 = s := by
  unfold sweep
  split
  · exact ⟨h, fun _ _ => rfl⟩
  · obtain ⟨hinv, hok⟩ := sweepLoop_inv now order h
    exact ⟨hinv, fun e he => by rw [hok] at he; cases he⟩

/-- The state after an item was written and indexed. -/
def DiskStore.withItem (s : DiskStore) (item : StoredItem) (data : Bytes) : DiskStore :=
  { s with dir := { s.dir with
      files := s.dir.files.insert (itemFile item.itemID) ⟨.regular, 0o600, data⟩ } }.index item
    (storedItemCharge data.length)

/-- What `Put` can do: fail, find the item there already, or store it. -/
theorem put_cases (s : DiskStore) (now : Time) (item : StoredItem) :
    (∃ e, s.put now item = (.error e, s)) ∨
    (s.put now item = (.ok (), s) ∧ s.closed = false ∧
      validateItem item now defaultMaxItemBytes = .ok () ∧
      (s.items.lookup item.itemID).isSome = true) ∨
    ∃ data, s.put now item = (.ok (), s.withItem item data) ∧ s.closed = false ∧
      validateItem item now defaultMaxItemBytes = .ok () ∧
      s.items.lookup item.itemID = none ∧ marshal storedItemCodec item = some data ∧
      data.length ≤ maxStoredItemEncodingBytes ∧ s.items.size < maxStoredItems ∧
      (0 < s.capacity → wrap64 (s.used + storedItemCharge data.length) ≤ s.capacity) ∧
      (s.routeIDs item.routeTag).card < maxItemsPerRoute ∧
      (0 < s.routeQuota →
        wrap64 (s.routeCharge item.routeTag + storedItemCharge data.length) ≤ s.routeQuota) ∧
      validItemID item.itemID = true := by
  unfold put
  split
  · exact .inl ⟨_, rfl⟩
  rename_i hopen
  rw [Bool.not_eq_true] at hopen
  split
  · exact .inl ⟨_, rfl⟩
  rename_i hval
  split
  · rename_i hsome
    exact .inr (.inl ⟨rfl, hopen, hval, hsome⟩)
  rename_i hnone
  rw [Bool.not_eq_true, Option.isSome_eq_false_iff, Option.isNone_iff_eq_none] at hnone
  split
  · exact .inl ⟨_, rfl⟩
  rename_i data hdata
  split
  · exact .inl ⟨_, rfl⟩
  rename_i hlen
  dsimp only
  split
  · exact .inl ⟨_, rfl⟩
  rename_i hfull
  split
  · exact .inl ⟨_, rfl⟩
  rename_i hquota
  unfold path
  split
  · exact .inl ⟨_, rfl⟩
  rename_i name hname
  split at hname
  · rename_i hvalid
    obtain rfl := Except.ok.inj hname
    unfold writePrivateAtomic
    split
    · rename_i e d heq
      split at heq
      · obtain ⟨he, rfl⟩ := Prod.mk.inj heq
        exact .inl ⟨_, rfl⟩
      · cases heq
    · rename_i d heq
      split at heq
      · cases heq
      · obtain ⟨-, rfl⟩ := Prod.mk.inj heq
        push Not at hlen hfull hquota
        exact .inr (.inr ⟨data, rfl, hopen, hval, hnone, hdata, hlen, hfull.1, hfull.2, hquota.1,
          hquota.2, hvalid⟩)
  · cases hname

/-- When every check passes and the name is free, the item is stored. -/
theorem put_new {now : Time} (hopen : s.closed = false)
    (hval : validateItem item now defaultMaxItemBytes = .ok ())
    (hnew : s.items.lookup item.itemID = none) (hdata : marshal storedItemCodec item = some data)
    (hlen : data.length ≤ maxStoredItemEncodingBytes)
    (hfits : s.fits item (storedItemCharge data.length) = true)
    (hvalid : validItemID item.itemID = true)
    (hfree : s.dir.files.lookup (itemFile item.itemID) = none) :
    s.put now item = (.ok (), s.withItem item data) := by
  simp only [fits, Bool.and_eq_true, decide_eq_true_eq] at hfits
  obtain ⟨⟨⟨hcount, hcap⟩, hquota⟩, hroute⟩ := hfits
  unfold put
  rw [if_neg (by simp [hopen]), hval]
  dsimp only
  rw [if_neg (by simp [hnew]), hdata]
  dsimp only
  rw [if_neg (by omega), if_neg (by omega), if_neg (by omega), path_eq_ok hvalid]
  simp [writePrivateAtomic, hfree, withItem]

theorem LimitInv.index (hl : LimitInv s) (hnew : s.items.lookup item.itemID = none)
    (hcount : s.items.size < maxStoredItems) (hcap : wrap64 (s.used + c) ≤ s.capacity)
    (hquota : wrap64 (s.routeCharge item.routeTag + c) ≤ s.routeQuota)
    (hroute : (s.routeIDs item.routeTag).card < maxItemsPerRoute) : LimitInv (s.index item c) := by
  refine ⟨hl.positive, hcap, fun r => ?_, ?_, fun r => ?_⟩
  · rw [routeCharge_index]
    split
    · rename_i hr; rw [hr]; exact hquota
    · exact hl.quota r
  · change (s.items.insert _ _).keys.card ≤ _
    have := size_insert_new item hnew
    unfold size at this hcount
    omega
  · rw [routeIDs_index]
    split
    · rename_i hr
      rw [hr]
      exact (card_insert_le _ _).trans hroute
    · exact hl.routeCount r

theorem HasFiles.index (h : HasFiles s) {f : File}
    (hf : s.dir.files.lookup (itemFile item.itemID) = some f)
    (hacc : acceptableFile f = true) (henc : Encodes f.data item) :
    HasFiles (s.index item (storedItemCharge f.data.length)) := by
  intro k i hk
  change (s.items.insert item.itemID item).lookup k = some i at hk
  change ∃ g, s.dir.files.lookup (itemFile k) = some g ∧ _ ∧ _ ∧
    (s.charges.insert item.itemID _).lookup k = _
  rw [lookup_insert_eq] at hk ⊢
  split at hk
  · rename_i he
    obtain rfl := Option.some.inj hk
    exact ⟨f, by rw [he, hf], hacc, henc, by rw [if_pos he]⟩
  · rename_i hne
    obtain ⟨g, hg, hga, hge, hgc⟩ := h k i hk
    exact ⟨g, hg, hga, hge, by rw [if_neg hne, hgc]⟩

/-- Writing a file under the name of an item that is not there disturbs no other. -/
theorem HasFiles.write (h : HasFiles s) (f : File) (hnew : s.items.lookup id = none) :
    HasFiles { s with dir := { s.dir with files := s.dir.files.insert (itemFile id) f } } := by
  intro k i hk
  have hne : k ≠ id := by
    rintro rfl
    change s.items.lookup k = some i at hk
    rw [hnew] at hk
    cases hk
  obtain ⟨g, hg, hrest⟩ := h k i hk
  refine ⟨g, ?_, hrest⟩
  change (s.dir.files.insert (itemFile id) f).lookup (itemFile k) = some g
  rw [lookup_insert_of_ne _ fun e => hne (itemFile_inj e), hg]

theorem marshal_storedItem_nonempty (h : marshal storedItemCodec item = some data) :
    0 < data.length := by
  obtain ⟨j, hj, rfl⟩ := Option.map_eq_some_iff.mp h
  obtain ⟨ms, -, rfl⟩ := Option.map_eq_some_iff.mp hj
  cases ms with
  | nil => decide
  | cons m ms => simp [Json.render]

theorem StoreInv.withItem (h : StoreInv s) (hnew : s.items.lookup item.itemID = none)
    (hdata : marshal storedItemCodec item = some data)
    (hlen : data.length ≤ maxStoredItemEncodingBytes) (hcount : s.items.size < maxStoredItems)
    (hcap : wrap64 (s.used + storedItemCharge data.length) ≤ s.capacity)
    (hroute : (s.routeIDs item.routeTag).card < maxItemsPerRoute)
    (hquota : wrap64 (s.routeCharge item.routeTag + storedItemCharge data.length) ≤ s.routeQuota)
    (hvalid : validItemID item.itemID = true) : StoreInv (s.withItem item data) := by
  have hc := storedItemCharge_bounds hlen
  let d : Disk :=
    { s.dir with files := s.dir.files.insert (itemFile item.itemID) ⟨.regular, 0o600, data⟩ }
  refine ⟨(h.toIndexInv.withDir d).index h.count hnew hvalid hc,
    (h.toLimitInv.withDir d).index hnew hcount hcap hquota hroute, ?_, ?_⟩
  · refine HasFiles.index (f := ⟨.regular, 0o600, data⟩) (h.files.write _ hnew)
      (lookup_insert _) ?_ (Or.inl hdata)
    have h0 := marshal_storedItem_nonempty hdata
    simp [acceptableFile, File.isPrivate, hlen, h0]
  · rintro name ⟨f, hf, hkind, hext⟩
    change (s.dir.files.insert (itemFile item.itemID) _).lookup name = some f at hf
    change ∃ id ∈ (s.items.insert item.itemID item).keys, _
    rw [lookup_insert_eq] at hf
    rw [keys_insert]
    split at hf
    · rename_i he
      exact ⟨item.itemID, mem_insert_self _ _, he⟩
    · obtain ⟨id, hid, hname⟩ := h.noOther name ⟨f, hf, hkind, hext⟩
      exact ⟨id, mem_insert_of_mem hid, hname⟩

theorem put_inv (h : StoreInv s) (now : Time) (item : StoredItem) :
    StoreInv (s.put now item).2 ∧
      ∀ e, (s.put now item).1 = .error e → (s.put now item).2 = s := by
  obtain ⟨e, hp⟩ | ⟨hp, -⟩ | ⟨data, hp, -, -, hnew, hdata, hlen, hcount, hcap, hroute, hquota,
    hvalid⟩ := put_cases s now item
  · rw [hp]
    exact ⟨h, fun _ _ => rfl⟩
  · rw [hp]
    exact ⟨h, fun _ _ => rfl⟩
  · rw [hp]
    exact ⟨h.withItem hnew hdata hlen hcount (hcap h.positive.1) hroute (hquota h.positive.2) hvalid,
      fun e he => by cases he⟩

end Veilmesh.Node

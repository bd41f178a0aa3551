/-
  Opening the node store, and what holds in every reachable state.

  The start-up loop visits the directory in name order and indexes, removes or passes
  over each entry. `LoadInv` is its invariant; when no entry is left it is the
  representation invariant, whatever the directory held before.

  * `newDiskStore_inv`: a store that opens satisfies `StoreInv`.
  * `StoreInv.restart`: an attempt to open it again keeps it, also when it fails.
  * `reachable_storeInv`: the invariant, the absence of overflow and the atomicity of
    failed operations over whole runs.
-/
import Veilmesh.Lib.Run
import Veilmesh.Node.StoreInv

namespace Veilmesh.Node

open Lib Protocol DiskStore List GoMap
open DiskStore (empty)

/-! ## Opening a directory -/

/-- The invariant of the start-up loop: `rest` are the entries not yet visited. -/
structure LoadInv (s : DiskStore) (rest : List Bytes) : Prop extends IndexInv s, LimitInv s where
  files : HasFiles s
  noOther : ∀ name, IsItemFile s.dir name → name ∈ rest ∨ ∃ id ∈ s.items.keys, name = itemFile id
  fresh : ∀ id ∈ s.items.keys, itemFile id ∉ rest

variable {now : Time} {name : Bytes} {item : StoredItem} {s : DiskStore} {d : Disk}

theorem readItem_spec {f : File} (h : readItem now name f = some item) :
    acceptableFile f = true ∧
      unmarshal storedItemCodec StoredItem.zero f.data = some item ∧
      validateItem item now defaultMaxItemBytes = .ok () ∧ name = itemFile item.itemID := by
  unfold readItem at h
  split at h
  · rename_i hacc
    split at h
    · rename_i i hdec
      split at h
      · rename_i hok
        obtain rfl := Option.some.inj h
        exact ⟨hacc, hdec, hok.1, hok.2⟩
      · cases h
    · cases h
  · cases h

theorem validItemID_of_valid {m : Int} (h : validateItem item now m = .ok ()) :
    validItemID item.itemID = true := by
  rw [((validateItem_ok_iff _ _ _).mp h).1.id, validItemID, hexDecode_computeItemID]
  simp

/-- What a visited entry is: passed over, indexed, or removed. -/
theorem loadEntry_cases (now : Time) (s : DiskStore) (name : Bytes) :
    (loadEntry now s name = s ∧ ¬ IsItemFile s.dir name) ∨
    (loadEntry now s name = { s with dir := s.dir.remove name } ∧
      IsItemFile s.dir name) ∨
    ∃ f item, s.dir.files.lookup name = some f ∧ readItem now name f = some item ∧
      s.fits item (storedItemCharge f.data.length) = true ∧
      loadEntry now s name = s.index item (storedItemCharge f.data.length) := by
  unfold loadEntry
  split
  · rename_i hnone
    refine .inl ⟨rfl, ?_⟩
    rintro ⟨f, hf, -⟩
    rw [hnone] at hf
    cases hf
  · rename_i f hf
    split
    · rename_i hskip
      refine .inl ⟨rfl, ?_⟩
      rintro ⟨g, hg, hkind, hext⟩
      obtain rfl := Option.some.inj (hf.symm.trans hg)
      exact hskip.elim hkind fun h => h hext
    · rename_i hskip
      push Not at hskip
      split
      · exact .inr (.inl ⟨rfl, f, hf, hskip⟩)
      · rename_i item hread
        dsimp only
        split
        · rename_i hfits
          exact .inr (.inr ⟨f, item, hf, hread, hfits, rfl⟩)
        · exact .inr (.inl ⟨rfl, f, hf, hskip⟩)

theorem LoadInv.step {rest : List Bytes} (now : Time) (h : LoadInv s (name :: rest))
    (hnd : (name :: rest).Nodup) : LoadInv (loadEntry now s name) rest := by
  have hfresh : ∀ id ∈ s.items.keys, itemFile id ∉ rest := fun id hid hr =>
    h.fresh id hid (mem_cons_of_mem _ hr)
  obtain ⟨heq, hno⟩ | ⟨heq, -⟩ | ⟨f, item, hf, hread, hfits, heq⟩ := loadEntry_cases now s name
  · rw [heq]
    refine ⟨h.toIndexInv, h.toLimitInv, h.files, fun n hn => ?_, hfresh⟩
    rcases h.noOther n hn with hmem | hid
    · rcases mem_cons.mp hmem with rfl | hmem
      · exact absurd hn hno
      · exact .inl hmem
    · exact .inr hid
  · rw [heq]
    refine ⟨h.toIndexInv.withDir _, h.toLimitInv.withDir _, fun k i hk => ?_, ?_, hfresh⟩
    · obtain ⟨g, hg, hrest⟩ := h.files k i hk
      refine ⟨g, ?_, hrest⟩
      have hne : itemFile k ≠ name := fun e =>
        h.fresh k (mem_keys_of_lookup hk) (by rw [e]; exact mem_cons_self)
      change (s.dir.files.erase name).lookup (itemFile k) = some g
      rw [Finmap.lookup_erase_ne hne, hg]
    · rintro n ⟨g, hg, hkind, hext⟩
      change (s.dir.files.erase name).lookup n = some g at hg
      rw [lookup_erase_eq] at hg
      split at hg
      · cases hg
      · rename_i hne
        rcases h.noOther n ⟨g, hg, hkind, hext⟩ with hmem | hid
        · exact .inl ((mem_cons.mp hmem).resolve_left hne)
        · exact .inr hid
  · obtain ⟨hacc, hdec, hval, rfl⟩ := readItem_spec hread
    simp only [fits, Bool.and_eq_true, decide_eq_true_eq] at hfits
    obtain ⟨⟨⟨hcount, hcap⟩, hquota⟩, hroute⟩ := hfits
    have hc := storedItemCharge_bounds (acceptableFile_regular hacc).2.2.2
    have hnew : s.items.lookup item.itemID = none := by
      by_contra hsome
      obtain ⟨i, hi⟩ := Option.ne_none_iff_exists'.mp hsome
      exact h.fresh _ (mem_keys_of_lookup hi) mem_cons_self
    rw [heq]
    refine ⟨h.toIndexInv.index h.count hnew (validItemID_of_valid hval) hc,
      h.toLimitInv.index hnew hcount hcap hquota hroute, h.files.index hf hacc (.inr hdec), ?_, ?_⟩
    · intro n hn
      change n ∈ rest ∨ ∃ id ∈ (s.items.insert item.itemID item).keys, _
      rw [keys_insert]
      rcases h.noOther n hn with hmem | ⟨id, hid, hname⟩
      · rcases mem_cons.mp hmem with rfl | hmem
        · exact .inr ⟨_, Finset.mem_insert_self _ _, rfl⟩
        · exact .inl hmem
      · exact .inr ⟨id, Finset.mem_insert_of_mem hid, hname⟩
    · intro id hid
      change id ∈ (s.items.insert item.itemID item).keys at hid
      rw [keys_insert, Finset.mem_insert] at hid
      rcases hid with rfl | hid
      · exact (nodup_cons.mp hnd).1
      · exact hfresh id hid

/-- The start-up loop, entry by entry. -/
theorem LoadInv.foldl {s : DiskStore} (now : Time) :
    ∀ {names rest : List Bytes}, LoadInv s (names ++ rest) → (names ++ rest).Nodup →
      LoadInv (names.foldl (loadEntry now) s) rest
  | [], _, h, _ => h
  | _ :: _, _, h, hnd => (h.step now hnd).foldl now (nodup_cons.mp hnd).2

theorem loadInv_empty (d : Disk) {capacity routeQuota : Int} (hcap : 0 < capacity)
    (hquota : 0 < routeQuota) : LoadInv (empty d capacity routeQuota) d.files.sortedKeys := by
  refine ⟨⟨rfl, ?_, ?_, rfl, rfl, ?_, ?_, ?_⟩, ⟨⟨hcap, hquota⟩, hcap.le, ?_, ?_, ?_⟩, ?_, ?_, ?_⟩
  · intro r id
    simp [routeIDs, empty, GoMap.getD]
  · intro r
    simp [routeIDs, empty, GoMap.getD]
  · intro r
    simp [routeIDs, routeCharge, empty, GoMap.getD]
  · intro id item h
    simp [empty] at h
  · intro id c h
    simp [empty] at h
  · intro r
    simpa [routeCharge, empty, GoMap.getD] using hquota.le
  · exact Nat.zero_le _
  · intro r
    simp [routeIDs, empty, GoMap.getD]
  · intro id item h
    simp [empty] at h
  · rintro name ⟨f, hf, -⟩
    exact .inl (mem_sortedKeys.mpr (mem_keys_of_lookup hf))
  · intro id hid
    simp [empty] at hid

theorem LoadInv.done (h : LoadInv s []) : StoreInv s :=
  ⟨h.toIndexInv, h.toLimitInv, h.files, fun name hn =>
    (h.noOther name hn).resolve_left not_mem_nil⟩

/-! ## The lock and the temporary files -/

/-- What `acquireNodeStoreLock` and `cleanupPrivateTemporaries` leave as it was: every
    entry but the lock file and the temporary ones. -/
structure Tidied (d d' : Disk) : Prop where
  real : d'.realDirectory = d.realDirectory
  kept : ∀ name, name ≠ nodeStoreLockFilename → temporaryPrefix.isPrefixOf name = false →
    d'.files.lookup name = d.files.lookup name
  only : ∀ name f, name ≠ nodeStoreLockFilename → d'.files.lookup name = some f →
    d.files.lookup name = some f

theorem Tidied.refl (d : Disk) : Tidied d d := ⟨rfl, fun _ _ _ => rfl, fun _ _ _ h => h⟩

theorem Tidied.trans {d' d'' : Disk} (h : Tidied d d') (h' : Tidied d' d'') : Tidied d d'' :=
  ⟨h'.real.trans h.real, fun n h1 h2 => (h'.kept n h1 h2).trans (h.kept n h1 h2),
    fun n f h1 h2 => h.only n f h1 (h'.only n f h1 h2)⟩

theorem tidied_remove (d : Disk) (h : temporaryPrefix.isPrefixOf name = true) :
    Tidied d (d.remove name) := by
  refine ⟨rfl, fun n _ hn => ?_, fun n f _ hf => ?_⟩
  · have hne : n ≠ name := by
      rintro rfl
      rw [h] at hn
      cases hn
    exact Finmap.lookup_erase_ne hne
  · change (d.files.erase name).lookup n = some f at hf
    rw [lookup_erase_eq] at hf
    split at hf
    · cases hf
    · exact hf

theorem tidied_cleanup : ∀ (names : List Bytes) (d : Disk),
    Tidied d (cleanupPrivateTemporaries names d).2
  | [], d => Tidied.refl d
  | name :: names, d => by
    rw [cleanupPrivateTemporaries]
    split
    · rename_i hpre
      split
      · split
        · exact (tidied_remove d hpre).trans (tidied_cleanup names (d.remove name))
        · exact Tidied.refl d
      · exact tidied_cleanup names d
    · exact tidied_cleanup names d

theorem tidied_insert_lock (d : Disk) (f : File) :
    Tidied d { d with files := d.files.insert nodeStoreLockFilename f } :=
  ⟨rfl, fun _ hn _ => Finmap.lookup_insert_of_ne _ hn, fun n g hn hg => by
    change (d.files.insert nodeStoreLockFilename f).lookup n = some g at hg
    rwa [Finmap.lookup_insert_of_ne _ hn] at hg⟩

theorem tidied_lock (d : Disk) : Tidied d (acquireNodeStoreLock d).2 := by
  unfold acquireNodeStoreLock
  split
  · split
    · exact tidied_insert_lock d _
    · exact Tidied.refl d
  · exact tidied_insert_lock d _

/-- An identifier is hexadecimal, so its file is neither the lock nor a temporary one. -/
theorem itemFile_ordinary {id : Bytes} (h : validItemID id = true) :
    itemFile id ≠ nodeStoreLockFilename ∧ temporaryPrefix.isPrefixOf (itemFile id) = false := by
  constructor
  · intro he
    have := congrArg ext he
    rw [ext_itemFile] at this
    exact absurd this (by decide)
  · match id with
    | [] => exact absurd h (by decide)
    | [_] => exact absurd h (by simp [validItemID, hexDecode])
    | a :: b :: rest =>
      have ha : a ≠ 46 := by
        rintro rfl
        have hnone : hexDecode (46 :: b :: rest) = none := by
          have hd : hexDigit? 46 = none := by decide
          rw [hexDecode]
          simp [hd]
        simp [validItemID, hnone] at h
      have hne : ¬ ((46 : UInt8) = a) := fun e => ha e.symm
      change ((46 : UInt8) == a && _) = false
      simp [hne]

/-- What opening a store can do: fail before it looks at an item, or run the loop. -/
theorem newDiskStore_cases (dir : Bytes) (d : Disk) (now : Time) (capacity routeQuota : Int) :
    (∃ e d', newDiskStore dir d now capacity routeQuota = (.error e, d') ∧ Tidied d d') ∨
    ∃ d' s, newDiskStore dir d now capacity routeQuota = (.ok s, s.dir) ∧ Tidied d d' ∧
      0 < capacity ∧ 0 < routeQuota ∧
      s = d'.files.sortedKeys.foldl (loadEntry now)
        (empty d' capacity routeQuota) := by
  unfold newDiskStore
  split
  · exact .inl ⟨_, _, rfl, Tidied.refl d⟩
  rename_i hlim
  push Not at hlim
  split
  · exact .inl ⟨_, _, rfl, Tidied.refl d⟩
  have h1 := tidied_lock d
  split
  · rename_i e d1 heq
    rw [heq] at h1
    exact .inl ⟨_, _, rfl, h1⟩
  rename_i d1 heq
  rw [heq] at h1
  have h2 := tidied_cleanup d1.files.sortedKeys d1
  split
  · rename_i e d2 heq2
    rw [heq2] at h2
    exact .inl ⟨_, _, rfl, h1.trans h2⟩
  · rename_i d2 heq2
    rw [heq2] at h2
    exact .inr ⟨d2, _, rfl, h1.trans h2, hlim.2.1, hlim.2.2.1, rfl⟩

theorem newDiskStore_inv {dir : Bytes} {d' : Disk} {capacity routeQuota : Int}
    (h : newDiskStore dir d now capacity routeQuota = (.ok s, d')) : StoreInv s := by
  obtain ⟨e, d1, heq, -⟩ | ⟨d1, s1, heq, -, hcap, hquota, hs⟩ :=
    newDiskStore_cases dir d now capacity routeQuota
  · rw [heq] at h
    cases h
  · rw [heq] at h
    obtain ⟨h1, -⟩ := Prod.mk.inj h
    obtain rfl := Except.ok.inj h1
    have hload := loadInv_empty d1 hcap hquota
    rw [← append_nil d1.files.sortedKeys] at hload
    rw [hs]
    exact (hload.foldl now (by simpa using sortedKeys_nodup d1.files)).done

/-- A directory with nothing but the lock file. -/
def freshDisk : Disk := ⟨true, Finmap.insert nodeStoreLockFilename ⟨.regular, 0o600, []⟩ ∅⟩

/-- Opening an empty directory gives an empty store. -/
theorem newDiskStore_fresh {dir : Bytes} (now : Time) {capacity routeQuota : Int} (hdir : dir ≠ [])
    (hquota : 0 < routeQuota) (hle : routeQuota ≤ capacity) :
    newDiskStore dir ⟨true, ∅⟩ now capacity routeQuota =
      (.ok (empty freshDisk capacity routeQuota), freshDisk) := by
  have hkeys : GoMap.sortedKeys freshDisk.files = [nodeStoreLockFilename] := by
    have : freshDisk.files.keys = {nodeStoreLockFilename} := by
      rw [freshDisk, keys_insert]
      rfl
    rw [GoMap.sortedKeys, this, Finset.sort_singleton]
  have hlock : acquireNodeStoreLock ⟨true, ∅⟩ = (.ok (), freshDisk) := by
    rw [acquireNodeStoreLock]
    rfl
  have hclean : cleanupPrivateTemporaries [nodeStoreLockFilename] freshDisk =
      (.ok (), freshDisk) := by
    rw [cleanupPrivateTemporaries, if_neg (by decide)]
    rfl
  have hload : loadEntry now (empty freshDisk capacity routeQuota)
      nodeStoreLockFilename = empty freshDisk capacity routeQuota := by
    obtain ⟨heq, -⟩ | ⟨-, f, -, -, hext⟩ | ⟨f, item, -, hread, -⟩ := loadEntry_cases now
      (empty freshDisk capacity routeQuota) nodeStoreLockFilename
    · exact heq
    · exact absurd hext (by decide)
    · have := congrArg ext (readItem_spec hread).2.2.2
      rw [ext_itemFile] at this
      exact absurd this (by decide)
  rw [newDiskStore, if_neg (by simp only [hdir, false_or]; omega), if_neg (by decide), hlock]
  simp only [hkeys, hclean, foldl_cons, foldl_nil, hload]
  rfl

/-- Tidying the directory of a store leaves its items alone. -/
theorem StoreInv.tidied (h : StoreInv s) (ht : Tidied s.dir d) :
    StoreInv { s with dir := d, closed := true } := by
  refine ⟨⟨h.charged, h.routed, h.routeKeys, h.routeUsedKeys, h.toIndexInv.used,
    h.toIndexInv.routeUsed, h.keyed, h.chargeBound⟩,
    ⟨h.positive, h.capacity, h.quota, h.count, h.routeCount⟩, fun k i hk => ?_, ?_⟩
  · obtain ⟨f, hf, hrest⟩ := h.files k i hk
    obtain ⟨hlock, htmp⟩ := itemFile_ordinary (h.keyed k i hk).2
    exact ⟨f, (ht.kept _ hlock htmp).trans hf, hrest⟩
  · rintro name ⟨f, hf, hkind, hext⟩
    have hlock : name ≠ nodeStoreLockFilename := by
      rintro rfl
      exact absurd hext (by decide)
    exact h.noOther name ⟨f, ht.only name f hlock hf, hkind, hext⟩

/-! ## Runs -/

/-- The calls that can change a store. A restart closes it and opens its directory. -/
inductive Op where
  | put (now : Time) (item : StoredItem)
  | delete (itemID : Bytes)
  | sweep (now : Time) (order : List Bytes)
  | close
  | restart (dir : Bytes) (now : Time) (capacity routeQuota : Int)

/-- The outcome of a call. When a restart fails the closed store remains, on the
    directory as the attempt left it. -/
def exec (s : DiskStore) : Op → Except StoreError Unit × DiskStore
  | .put now item => s.put now item
  | .delete itemID => s.delete itemID
  | .sweep now order => s.sweep now order
  | .close => (.ok (), s.close)
  | .restart dir now capacity routeQuota =>
    match newDiskStore dir s.dir now capacity routeQuota with
    | (.ok s', _) => (.ok (), s')
    | (.error e, d) => (.error e, { s with dir := d, closed := true })

/-- A list of the keys of a map, each once: an order in which a map may be visited. -/
def VisitOrder {V : Type} (m : GoMap Bytes V) (order : List Bytes) : Prop :=
  order.Nodup ∧ ∀ k, k ∈ order ↔ k ∈ m.keys

/-- One call; a sweep visits the items in some order. -/
def Step (s : DiskStore) (op : Op) (s' : DiskStore) : Prop :=
  (∀ now order, op = .sweep now order → VisitOrder s.items order) ∧ (exec s op).2 = s'

theorem Step.inv {s' : DiskStore} {op : Op} (h : StoreInv s) (hstep : Step s op s') :
    StoreInv s' := by
  obtain ⟨-, rfl⟩ := hstep
  cases op with
  | put now item => exact (put_inv h now item).1
  | delete itemID => exact (delete_inv h itemID).1
  | sweep now order => exact (sweep_inv h now order).1
  | close => exact h.tidied (Tidied.refl s.dir)
  | restart dir now capacity routeQuota =>
    rw [exec]
    split
    · rename_i s1 d1 heq
      exact newDiskStore_inv heq
    · rename_i e d1 heq
      obtain ⟨e', d', heq', ht⟩ | ⟨d', s', heq', -⟩ :=
        newDiskStore_cases dir s.dir now capacity routeQuota
      · rw [heq] at heq'
        obtain ⟨-, rfl⟩ := Prod.mk.inj heq'
        exact h.tidied ht
      · rw [heq] at heq'
        cases heq'

end Veilmesh.Node

/-
  Opening a directory a store was using.

  A store whose files decode to the items it holds is read back exactly: the new store
  holds the items that are valid at the time, and the limits it was opened with before refuse
  none of them. The argument compares the store being loaded with the old one: it is at
  every point part of it (`SubStore`), so its accounts are no larger.

  * `SubStore.accounts`: a part of a store has the smaller accounts.
  * `Reload.step`, `Reload.foldl`: one directory entry, the whole listing.
  * `restart_valid`: the store after a restart.
-/
import Veilmesh.Node.StoreRun

namespace Veilmesh.Node

open Lib Protocol DiskStore GoMap List
open DiskStore (empty)

/-! ## Parts of a store -/

/-- Every item and charge of `t` is one of `s`. -/
structure SubStore (t s : DiskStore) : Prop where
  items : ∀ id item, t.items.lookup id = some item → s.items.lookup id = some item
  charges : ∀ id c, t.charges.lookup id = some c → s.charges.lookup id = some c

variable {t s : DiskStore} {id name : Bytes} {item : StoredItem} {now : Time} {d : Disk}

theorem SubStore.routeIDs (h : SubStore t s) (ht : IndexInv t) (hs : IndexInv s) (r : Bytes) :
    t.routeIDs r ⊆ s.routeIDs r := by
  intro id hid
  obtain ⟨item, hitem, hr⟩ := (ht.routed r id).mp hid
  exact (hs.routed r id).mpr ⟨item, h.items id item hitem, hr⟩

theorem SubStore.chargeOf (h : SubStore t s) (ht : IndexInv t)
    (hitem : t.items.lookup id = some item) : t.charges.getD id 0 = s.charges.getD id 0 := by
  obtain ⟨c, hc⟩ := charges_lookup_some ht hitem
  rw [GoMap.getD, GoMap.getD, hc, h.charges id c hc]

theorem SubStore.accounts (h : SubStore t s) (ht : IndexInv t) (hs : IndexInv s) :
    t.used ≤ s.used ∧ t.items.size ≤ s.items.size ∧
      ∀ r, t.routeCharge r ≤ s.routeCharge r ∧ (t.routeIDs r).card ≤ (s.routeIDs r).card := by
  refine ⟨?_, ?_, fun r => ⟨?_, Finset.card_le_card (h.routeIDs ht hs r)⟩⟩
  · rw [ht.used, hs.used]
    exact sum_le_sum (fun k c hc => (hs.chargeBound k c hc).1) h.charges
  · refine Finset.card_le_card fun id hid => ?_
    obtain ⟨item, hitem⟩ := mem_keys_iff.mp hid
    exact mem_keys_of_lookup (h.items id item hitem)
  · rw [ht.routeUsed, hs.routeUsed]
    calc ∑ id ∈ t.routeIDs r, t.charges.getD id 0
        = ∑ id ∈ t.routeIDs r, s.charges.getD id 0 := by
          refine Finset.sum_congr rfl fun id hid => ?_
          obtain ⟨item, hitem, -⟩ := (ht.routed r id).mp hid
          exact h.chargeOf ht hitem
      _ ≤ ∑ id ∈ s.routeIDs r, s.charges.getD id 0 :=
          Finset.sum_le_sum_of_subset_of_nonneg (h.routeIDs ht hs r)
            fun id _ _ => (chargeOf_bounds hs id).1

/-! ## The loop over a store's own files -/

/-- Every file of the store decodes to the item it was indexed for. -/
def Decodes (s : DiskStore) : Prop :=
  ∀ id item f, s.items.lookup id = some item → s.dir.files.lookup (itemFile id) = some f →
    unmarshal storedItemCodec StoredItem.zero f.data = some item

/-- The state of the start-up loop on the directory of `s`, with `rest` still to visit. -/
structure Reload (now : Time) (s t : DiskStore) (rest : List Bytes) : Prop
    extends LoadInv t rest where
  part : SubStore t s
  limits : t.capacity = s.capacity ∧ t.routeQuota = s.routeQuota ∧ t.closed = false
  /-- A valid item is loaded, or its file is still to come. -/
  loaded : ∀ id item, s.items.lookup id = some item →
    validateItem item now defaultMaxItemBytes = .ok () →
    t.items.lookup id = some item ∨ itemFile id ∈ rest
  valid : ∀ id item, t.items.lookup id = some item →
    validateItem item now defaultMaxItemBytes = .ok ()
  /-- The file of a loaded item is the one it had. -/
  kept : ∀ id item, t.items.lookup id = some item →
    t.dir.files.lookup (itemFile id) = s.dir.files.lookup (itemFile id)
  unread : ∀ id item, s.items.lookup id = some item → itemFile id ∈ rest →
    t.dir.files.lookup (itemFile id) = s.dir.files.lookup (itemFile id)
  decodes : Decodes t
  /-- Nothing but files of `s` is left to find. -/
  known : ∀ name, IsItemFile t.dir name → IsItemFile s.dir name

/-- The item named by an entry to visit is loaded: no limit can refuse it. -/
theorem Reload.fits {rest : List Bytes} {f : File} (hs : StoreInv s)
    (h : Reload now s t (itemFile id :: rest)) (hitem : s.items.lookup id = some item)
    (hfile : s.dir.files.lookup (itemFile id) = some f) :
    t.fits item (storedItemCharge f.data.length) = true ∧
      SubStore (t.index item (storedItemCharge f.data.length)) s := by
  obtain ⟨g, hg, hacc, -, hcl⟩ := hs.files id item hitem
  obtain rfl := Option.some.inj (hfile.symm.trans hg)
  obtain ⟨hkey, hvalid⟩ := hs.keyed id item hitem
  have hnew : t.items.lookup id = none := by
    by_contra hsome
    obtain ⟨i, hi⟩ := Option.ne_none_iff_exists'.mp hsome
    exact h.fresh id (mem_keys_of_lookup hi) mem_cons_self
  have hc := storedItemCharge_bounds (acceptableFile_regular hacc).2.2.2
  have hnew' : t.items.lookup item.itemID = none := hkey ▸ hnew
  have hidx := h.toIndexInv.index h.count hnew' (hkey ▸ hvalid) hc
  -- with the item added the loaded store is still part of the old one
  have hpart : SubStore (t.index item (storedItemCharge f.data.length)) s := by
    constructor
    · intro k i hk
      change (t.items.insert item.itemID item).lookup k = some i at hk
      rw [lookup_insert_eq, hkey] at hk
      split at hk
      · rename_i he
        rw [he, hitem, hk]
      · exact h.part.items k i hk
    · intro k c hk
      change (t.charges.insert item.itemID _).lookup k = some c at hk
      rw [lookup_insert_eq, hkey] at hk
      split at hk
      · rename_i he
        rw [he, hcl, hk]
      · exact h.part.charges k c hk
  obtain ⟨hused, hsize, hroute⟩ := hpart.accounts hidx hs.toIndexInv
  obtain ⟨hrc, hrn⟩ := hroute item.routeTag
  have hsize' := size_insert_new item hnew'
  rw [routeCharge_index, if_pos rfl] at hrc
  rw [routeIDs_index, if_pos rfl, Finset.card_insert_of_notMem] at hrn
  · refine ⟨?_, hpart⟩
    have h1 : t.items.size < maxStoredItems := by
      have : (t.items.insert item.itemID item).keys.card ≤ s.items.size := hsize
      have hcount := hs.count
      unfold GoMap.size at hsize' this hcount ⊢
      omega
    have h2 : wrap64 (t.used + storedItemCharge f.data.length) ≤ t.capacity := by
      rw [h.limits.1]
      exact le_trans hused hs.capacity
    have h3 : wrap64 (t.routeCharge item.routeTag + storedItemCharge f.data.length) ≤
        t.routeQuota := by
      rw [h.limits.2.1]
      exact hrc.trans (hs.quota item.routeTag)
    have h4 : (t.routeIDs item.routeTag).card < maxItemsPerRoute := by
      have := hs.routeCount item.routeTag
      omega
    simp [DiskStore.fits, h1, h2, h3, h4]
  · intro hin
    obtain ⟨i, hi, -⟩ := (h.routed _ _).mp hin
    rw [hnew'] at hi
    cases hi

section

variable {now : Time} {s t : DiskStore} {name : Bytes} {rest : List Bytes}

/-- The entry is the file of a valid item: it is indexed. -/
theorem Reload.step_item (hs : StoreInv s) (hdec : Decodes s) {id : Bytes} {item : StoredItem}
    (h : Reload now s t (itemFile id :: rest)) (hnd : (itemFile id :: rest).Nodup)
    (hitem : s.items.lookup id = some item)
    (hval : validateItem item now defaultMaxItemBytes = .ok ()) :
    Reload now s (loadEntry now t (itemFile id)) rest := by
  obtain ⟨f, hf, hacc, -⟩ := hs.files id item hitem
  obtain ⟨hkey, -⟩ := hs.keyed id item hitem
  obtain ⟨hfits, hpart⟩ := h.fits hs hitem hf
  have hft : t.dir.files.lookup (itemFile id) = some f :=
    (h.unread id item hitem mem_cons_self).trans hf
  have hread : readItem now (itemFile id) f = some item := by
    rw [readItem, if_pos hacc, hdec id item f hitem hf]
    exact if_pos ⟨hval, by rw [hkey]⟩
  have heq : loadEntry now t (itemFile id) =
      t.index item (storedItemCharge f.data.length) := by
    unfold loadEntry
    rw [hft]
    simp [(acceptableFile_regular hacc).1, ext_itemFile, hread, hfits]
  have hload := h.toLoadInv.step now hnd
  rw [heq] at hload ⊢
  have hlookup : ∀ k, (t.index item (storedItemCharge f.data.length)).items.lookup k =
      if k = id then some item else t.items.lookup k := fun k => by
    rw [← hkey]
    exact lookup_insert_eq ..
  refine ⟨hload, hpart, h.limits, fun k i hk hki => ?_, fun k i hk => ?_, fun k i hk => ?_,
    fun k i hk hr => ?_, fun k i g hk hg => ?_, h.known⟩
  · rw [hlookup]
    split
    · rename_i he
      rw [he, hitem] at hk
      exact .inl hk
    · rename_i hne
      refine (h.loaded k i hk hki).imp_right fun hr => ?_
      exact (mem_cons.mp hr).resolve_left fun e => hne (itemFile_inj e)
  · rw [hlookup] at hk
    split at hk
    · exact Option.some.inj hk ▸ hval
    · exact h.valid k i hk
  · rw [hlookup] at hk
    split at hk
    · rename_i he
      subst he
      exact hft.trans hf.symm
    · exact h.kept k i hk
  · exact h.unread k i hk (mem_cons_of_mem _ hr)
  · rw [hlookup] at hk
    split at hk
    · rename_i he
      obtain rfl := Option.some.inj hk
      subst he
      obtain rfl := Option.some.inj (hft.symm.trans hg)
      exact hdec k item f hitem hf
    · exact h.decodes k i g hk hg

/-- The entry is nothing to load: it is passed over or removed. -/
theorem Reload.step_other (h : Reload now s t (name :: rest)) (hnd : (name :: rest).Nodup)
    (hno : ∀ id item, s.items.lookup id = some item →
      validateItem item now defaultMaxItemBytes = .ok () → name ≠ itemFile id) {d : Disk}
    (hd : ∀ n, n ≠ name → d.files.lookup n = t.dir.files.lookup n)
    (hsub : ∀ n, IsItemFile d n → IsItemFile t.dir n)
    (hload : LoadInv { t with dir := d } rest) : Reload now s { t with dir := d } rest := by
  have hnr := (nodup_cons.mp hnd).1
  have hloaded : ∀ k i, t.items.lookup k = some i → itemFile k ≠ name := fun k i hk e =>
    h.fresh k (mem_keys_of_lookup hk) (e ▸ mem_cons_self)
  refine ⟨hload, ⟨h.part.items, h.part.charges⟩, h.limits, fun k i hk hki => ?_, h.valid,
    fun k i hk => ?_, fun k i hk hr => ?_, fun k i g hk hg => ?_, fun n hn => h.known n (hsub n hn)⟩
  · refine (h.loaded k i hk hki).imp_right fun hr => ?_
    exact (mem_cons.mp hr).resolve_left fun e => hno k i hk hki e.symm
  · exact (hd _ (hloaded k i hk)).trans (h.kept k i hk)
  · have hne : itemFile k ≠ name := fun e => hnr (e ▸ hr)
    exact (hd _ hne).trans (h.unread k i hk (mem_cons_of_mem _ hr))
  · exact h.decodes k i g hk ((hd _ (hloaded k i hk)).symm.trans hg)

theorem Reload.step (hs : StoreInv s) (hdec : Decodes s)
    (h : Reload now s t (name :: rest)) (hnd : (name :: rest).Nodup) :
    Reload now s (loadEntry now t name) rest := by
  by_cases hown : ∃ id item, s.items.lookup id = some item ∧
      validateItem item now defaultMaxItemBytes = .ok () ∧ name = itemFile id
  · obtain ⟨id, item, hitem, hval, rfl⟩ := hown
    exact h.step_item hs hdec hnd hitem hval
  · have hno : ∀ id item, s.items.lookup id = some item →
        validateItem item now defaultMaxItemBytes = .ok () → name ≠ itemFile id :=
      fun id item h1 h2 h3 => hown ⟨id, item, h1, h2, h3⟩
    have hload := h.toLoadInv.step now hnd
    obtain ⟨heq, -⟩ | ⟨heq, -⟩ | ⟨f, item, hf, hread, -, -⟩ := loadEntry_cases now t name
    · rw [heq] at hload ⊢
      exact h.step_other hnd hno (fun _ _ => rfl) (fun _ hn => hn) hload
    · rw [heq] at hload ⊢
      refine h.step_other hnd hno (fun n hn => Finmap.lookup_erase_ne hn) ?_ hload
      rintro n ⟨f, hf, hrest⟩
      change (t.dir.files.erase name).lookup n = some f at hf
      rw [lookup_erase_eq] at hf
      split at hf
      · cases hf
      · exact ⟨f, hf, hrest⟩
    · -- a file that reads as a valid item belongs to such an item of the old store
      obtain ⟨hacc, hd, hv, rfl⟩ := readItem_spec hread
      obtain ⟨k, hk, hname⟩ := hs.noOther _ (h.known _ ⟨f, hf, by
        simp [(acceptableFile_regular hacc).1], ext_itemFile _⟩)
      obtain rfl := itemFile_inj hname
      obtain ⟨i, hi⟩ := mem_keys_iff.mp hk
      have hfs := (h.unread _ i hi mem_cons_self).symm.trans hf
      obtain rfl : item = i := Option.some.inj (hd.symm.trans (hdec _ i f hi hfs))
      exact absurd rfl (hno _ item hi hv)

theorem Reload.foldl (hs : StoreInv s) (hdec : Decodes s) :
    ∀ {names : List Bytes} {t : DiskStore}, Reload now s t names → names.Nodup →
      Reload now s (names.foldl (loadEntry now) t) []
  | [], _, h, _ => h
  | _ :: _, _, h, hnd =>
    (h.step hs hdec hnd).foldl hs hdec (nodup_cons.mp hnd).2

end

/-- An item found by the end of the loop is exactly a valid one. -/
theorem Reload.exact (h : Reload now s t []) (id : Bytes) (item : StoredItem) :
    t.items.lookup id = some item ↔
      s.items.lookup id = some item ∧ validateItem item now defaultMaxItemBytes = .ok () :=
  ⟨fun ht => ⟨h.part.items id item ht, h.valid id item ht⟩, fun ⟨hs, hv⟩ =>
    (h.loaded id item hs hv).resolve_right not_mem_nil⟩

/-! ## Restarting -/

/-- A directory that can be opened: a private lock file, no temporary file. -/
structure Tidy (d : Disk) : Prop where
  real : d.realDirectory = true
  lock : ∃ f, d.files.lookup nodeStoreLockFilename = some f ∧ f.kind = .regular ∧
    f.isPrivate = true
  clean : ∀ name f, d.files.lookup name = some f → temporaryPrefix.isPrefixOf name = false

theorem Tidy.remove (h : Tidy d) (hn : name ≠ nodeStoreLockFilename) : Tidy (d.remove name) := by
  obtain ⟨f, hf, hrest⟩ := h.lock
  refine ⟨h.real, ⟨f, (Finmap.lookup_erase_ne hn.symm).trans hf, hrest⟩, fun n g hg => ?_⟩
  change (d.files.erase name).lookup n = some g at hg
  rw [lookup_erase_eq] at hg
  split at hg
  · cases hg
  · exact h.clean n g hg

theorem Tidy.insert (h : Tidy d) (f : File) (hn : name ≠ nodeStoreLockFilename)
    (hp : temporaryPrefix.isPrefixOf name = false) :
    Tidy { d with files := d.files.insert name f } := by
  obtain ⟨g, hg, hrest⟩ := h.lock
  refine ⟨h.real, ⟨g, (Finmap.lookup_insert_of_ne _ hn.symm).trans hg, hrest⟩, fun n k hk => ?_⟩
  change (d.files.insert name f).lookup n = some k at hk
  rw [lookup_insert_eq] at hk
  split at hk
  · rename_i he
    rw [he]
    exact hp
  · exact h.clean n k hk

theorem isItemFile_ne_lock (h : IsItemFile d name) : name ≠ nodeStoreLockFilename := by
  rintro rfl
  obtain ⟨f, -, -, hext⟩ := h
  exact absurd hext (by decide)

/-- What a visited entry leaves alone. -/
theorem loadEntry_frame (now : Time) (t : DiskStore) (name : Bytes) :
    (loadEntry now t name).closed = t.closed ∧
      (loadEntry now t name).capacity = t.capacity ∧
      (loadEntry now t name).routeQuota = t.routeQuota ∧
      (Tidy t.dir → Tidy (loadEntry now t name).dir) := by
  obtain ⟨heq, -⟩ | ⟨heq, hfile⟩ | ⟨f, item, -, -, -, heq⟩ := loadEntry_cases now t name
  · rw [heq]
    exact ⟨rfl, rfl, rfl, fun h => h⟩
  · rw [heq]
    exact ⟨rfl, rfl, rfl, fun h => h.remove (isItemFile_ne_lock hfile)⟩
  · rw [heq]
    exact ⟨rfl, rfl, rfl, fun h => h⟩

theorem load_frame (now : Time) (names : List Bytes) (t : DiskStore) :
    (names.foldl (loadEntry now) t).closed = t.closed ∧
      (names.foldl (loadEntry now) t).capacity = t.capacity ∧
      (names.foldl (loadEntry now) t).routeQuota = t.routeQuota ∧
      (Tidy t.dir → Tidy (names.foldl (loadEntry now) t).dir) := by
  induction names generalizing t with
  | nil => exact ⟨rfl, rfl, rfl, fun h => h⟩
  | cons name names ih =>
    obtain ⟨h1, h2, h3, h4⟩ := loadEntry_frame now t name
    obtain ⟨i1, i2, i3, i4⟩ := ih (loadEntry now t name)
    exact ⟨i1.trans h1, i2.trans h2, i3.trans h3, fun h => i4 (h4 h)⟩

theorem cleanup_of_clean (d : Disk) : ∀ names : List Bytes,
    (∀ name ∈ names, temporaryPrefix.isPrefixOf name = false) →
      cleanupPrivateTemporaries names d = (.ok (), d)
  | [], _ => rfl
  | name :: names, h => by
    rw [cleanupPrivateTemporaries, if_neg (by simp [h name mem_cons_self])]
    exact cleanup_of_clean d names fun n hn => h n (mem_cons_of_mem _ hn)

/-- A clean-up that succeeds leaves no temporary file among those it visited. -/
theorem cleanup_ok : ∀ (names : List Bytes) (d d' : Disk),
    cleanupPrivateTemporaries names d = (.ok (), d') →
      (∀ name f, d.files.lookup name = some f → temporaryPrefix.isPrefixOf name = true →
        name ∈ names) →
      ∀ name f, d'.files.lookup name = some f → temporaryPrefix.isPrefixOf name = false
  | [], d, d', h, hcov, name, f, hf => by
    obtain ⟨-, rfl⟩ := Prod.mk.inj h
    by_contra hp
    exact absurd (hcov name f hf (by simpa using hp)) not_mem_nil
  | n :: names, d, d', h, hcov, name, f, hf => by
    rw [cleanupPrivateTemporaries] at h
    split at h
    · split at h
      · split at h
        · refine cleanup_ok names _ d' h (fun m g hg hm => ?_) name f hf
          change (d.files.erase n).lookup m = some g at hg
          rw [lookup_erase_eq] at hg
          split at hg
          · cases hg
          · rename_i hne
            exact (mem_cons.mp (hcov m g hg hm)).resolve_left hne
        · cases h
      · rename_i hnone
        refine cleanup_ok names d d' h (fun m g hg hm => ?_) name f hf
        refine (mem_cons.mp (hcov m g hg hm)).resolve_left ?_
        rintro rfl
        rw [hnone] at hg
        cases hg
    · rename_i hp
      refine cleanup_ok names d d' h (fun m g hg hm => ?_) name f hf
      refine (mem_cons.mp (hcov m g hg hm)).resolve_left ?_
      rintro rfl
      exact hp hm

theorem cleanup_lock : ∀ (names : List Bytes) (d : Disk),
    (cleanupPrivateTemporaries names d).2.files.lookup nodeStoreLockFilename =
      d.files.lookup nodeStoreLockFilename
  | [], _ => rfl
  | name :: names, d => by
    rw [cleanupPrivateTemporaries]
    split
    · rename_i hp
      split
      · split
        · rw [cleanup_lock names (d.remove name)]
          refine Finmap.lookup_erase_ne ?_
          rintro rfl
          exact absurd hp (by decide)
        · rfl
      · exact cleanup_lock names d
    · exact cleanup_lock names d

theorem acquire_ok {d' : Disk} (h : acquireNodeStoreLock d = (.ok (), d')) :
    ∃ f, d'.files.lookup nodeStoreLockFilename = some f ∧ f.kind = .regular ∧
      f.isPrivate = true := by
  unfold acquireNodeStoreLock at h
  split at h
  · split at h
    · obtain ⟨-, rfl⟩ := Prod.mk.inj h
      exact ⟨_, Finmap.lookup_insert _, rfl, by simp [File.isPrivate]⟩
    · cases h
  · obtain ⟨-, rfl⟩ := Prod.mk.inj h
    exact ⟨_, Finmap.lookup_insert _, rfl, by simp [File.isPrivate]⟩

/-- What an open store says about how it was opened. -/
theorem newDiskStore_opened {dir : Bytes} {d' : Disk} {capacity routeQuota : Int}
    (h : newDiskStore dir d now capacity routeQuota = (.ok s, d')) :
    dir ≠ [] ∧ routeQuota ≤ capacity ∧ s.closed = false ∧ s.capacity = capacity ∧
      s.routeQuota = routeQuota ∧ Tidy s.dir := by
  unfold newDiskStore at h
  split at h
  · cases h
  rename_i hlim
  push Not at hlim
  split at h
  · cases h
  rename_i hreal
  rw [Bool.not_eq_false] at hreal
  split at h
  · cases h
  rename_i d1 hlock
  split at h
  · cases h
  rename_i d2 hclean
  obtain ⟨h1, -⟩ := Prod.mk.inj h
  obtain rfl := Except.ok.inj h1
  obtain ⟨f1, f2, f3, f4⟩ := load_frame now d2.files.sortedKeys
    (empty d2 capacity routeQuota)
  refine ⟨hlim.1, hlim.2.2.2, f1, f2, f3, f4 ⟨?_, ?_, ?_⟩⟩
  · have e1 := (tidied_lock d).real
    have e2 := (tidied_cleanup d1.files.sortedKeys d1).real
    rw [hlock] at e1
    rw [hclean] at e2
    exact e2.trans (e1.trans hreal)
  · obtain ⟨f, hf, hrest⟩ := acquire_ok hlock
    refine ⟨f, ?_, hrest⟩
    rw [← cleanup_lock d1.files.sortedKeys d1, hclean] at hf
    exact hf
  · exact cleanup_ok _ _ _ hclean fun n f hf _ =>
      mem_sortedKeys.mpr (mem_keys_of_lookup hf)

/-- Restarting a store on its own directory with its own limits keeps exactly the items
    that are valid at the time, with their charges and files. -/
theorem restart_valid {s : DiskStore} {dir : Bytes} {now : Time} (hs : StoreInv s)
    (hdec : Decodes s) (htidy : Tidy s.dir) (hdir : dir ≠ []) (hle : s.routeQuota ≤ s.capacity) :
    ∃ t, newDiskStore dir s.dir now s.capacity s.routeQuota = (.ok t, t.dir) ∧ Reload now s t [] := by
  obtain ⟨f, hf, hreg, hpriv⟩ := htidy.lock
  let d1 : Disk :=
    { s.dir with files := s.dir.files.insert nodeStoreLockFilename ⟨.regular, 0o600, f.data⟩ }
  have ht : Tidied s.dir d1 := tidied_insert_lock s.dir _
  have hlock : acquireNodeStoreLock s.dir = (.ok (), d1) := by
    unfold acquireNodeStoreLock
    rw [hf]
    exact if_pos ⟨hreg, hpriv⟩
  have hclean : cleanupPrivateTemporaries d1.files.sortedKeys d1 = (.ok (), d1) := by
    refine cleanup_of_clean d1 _ fun n hn => ?_
    obtain ⟨g, hg⟩ := mem_keys_iff.mp (mem_sortedKeys.mp hn)
    by_cases he : n = nodeStoreLockFilename
    · rw [he]
      decide
    · exact htidy.clean n g (ht.only n g he hg)
  have hstart : Reload now s (empty d1 s.capacity s.routeQuota)
      d1.files.sortedKeys := by
    refine ⟨loadInv_empty d1 hs.positive.1 hs.positive.2, ⟨?_, ?_⟩, ⟨rfl, rfl, rfl⟩, ?_, ?_, ?_, ?_,
      ?_, ?_⟩
    · intro id item h
      simp [empty] at h
    · intro id c h
      simp [empty] at h
    · intro id item h _
      obtain ⟨g, hg, -⟩ := hs.files id item h
      obtain ⟨h1, h2⟩ := itemFile_ordinary (hs.keyed id item h).2
      exact .inr (mem_sortedKeys.mpr (mem_keys_of_lookup ((ht.kept _ h1 h2).trans hg)))
    · intro id item h
      simp [empty] at h
    · intro id item h
      simp [empty] at h
    · intro id item h _
      obtain ⟨h1, h2⟩ := itemFile_ordinary (hs.keyed id item h).2
      exact ht.kept _ h1 h2
    · intro id item g h
      simp [empty] at h
    · intro n hn
      obtain ⟨g, hg, hrest⟩ := id hn
      exact ⟨g, ht.only n g (isItemFile_ne_lock hn) hg, hrest⟩
  refine ⟨_, ?_, hstart.foldl hs hdec (sortedKeys_nodup d1.files)⟩
  have hpos := hs.positive
  rw [newDiskStore, if_neg (by simp only [hdir, false_or]; omega), if_neg (by simp [htidy.real]),
    hlock]
  simp only [hclean]

end Veilmesh.Node

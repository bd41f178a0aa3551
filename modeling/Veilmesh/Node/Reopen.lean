/-
  What opening a directory again does to the items that were put there.

  The start-up loop reads every file anew: an item comes back as its encoding shows it, and
  only if it is valid at the time of the start. So an unexpired item is lost if the clock
  stands more than five minutes before its creation, or if one of its times was given at an
  offset with seconds, which the encoding drops. Otherwise it comes back as it was.

  * `StoreInv.rereads`: what the file of an item decodes to.
  * `StoreInv.reread`: a store with its items as they are read back is a store again.
  * `reopen_exact`: the items after a start, at any time.
-/
import Veilmesh.Node.Durability

namespace Veilmesh.Node

open Lib Protocol GoMap

/-! ## The items as they are read back -/

/-- Every item has passed the checks that do not look at the clock. -/
def Shaped (s : DiskStore) : Prop :=
  ∀ id item, s.items.lookup id = some item → ItemShape item defaultMaxItemBytes

/-- The store with the items that its files decode to. -/
def DiskStore.reread (s : DiskStore) : DiskStore :=
  { s with
    items := GoMap.insertAll id (fun id => (s.items.getD id StoredItem.zero).shown)
      s.items.sortedKeys ∅ }

theorem lookup_reread (s : DiskStore) (id : Bytes) :
    s.reread.items.lookup id = (s.items.lookup id).map StoredItem.shown := by
  by_cases hid : id ∈ s.items.keys
  · obtain ⟨item, hitem⟩ := mem_keys_iff.mp hid
    have hnodup : (s.items.sortedKeys.map fun k : Bytes => k).Nodup := by
      rw [List.map_id']
      exact sortedKeys_nodup _
    refine (lookup_insertAll hnodup (mem_sortedKeys.mpr hid)).trans ?_
    rw [getD, hitem]
    rfl
  · rw [Finmap.lookup_eq_none.mpr (Finmap.mem_keys.not.mp hid)]
    refine (lookup_insertAll_of_notMem ?_).trans rfl
    rwa [List.map_id, mem_sortedKeys]

variable {s : DiskStore}

theorem lookup_reread_some {id : Bytes} {item : StoredItem} :
    s.reread.items.lookup id = some item ↔ ∃ held, s.items.lookup id = some held ∧
      held.shown = item := by
  rw [lookup_reread, Option.map_eq_some_iff]

theorem keys_reread (s : DiskStore) : s.reread.items.keys = s.items.keys := by
  ext id
  rw [mem_keys_iff, mem_keys_iff]
  simp only [lookup_reread_some]
  exact ⟨fun ⟨_, held, hheld, _⟩ => ⟨held, hheld⟩, fun ⟨held, hheld⟩ => ⟨_, held, hheld, rfl⟩⟩

/-- The file of an item decodes to what the item's times show. -/
theorem StoreInv.rereads (h : StoreInv s) (hshaped : Shaped s) {id : Bytes}
    {item : StoredItem} {f : File} (hitem : s.items.lookup id = some item)
    (hf : s.dir.files.lookup (itemFile id) = some f) :
    unmarshal storedItemCodec StoredItem.zero f.data = some item.shown := by
  obtain ⟨g, hg, -, hencodes, -⟩ := h.files id item hitem
  obtain rfl := Option.some.inj (hf.symm.trans hg)
  have hshape := hshaped id item hitem
  rcases hencodes with hwritten | hread
  · refine unmarshal_of_reads (storedItemCodec_reads ?_ (validRouteTag_plain hshape.route)) hwritten
    rw [hshape.id]
    exact plain_hexEncode _
  · obtain ⟨hc, he⟩ := storedItem_decode_readable hread
    rwa [(StoredItem.shown_eq_iff item).mpr ⟨hc.1, he.1⟩]

theorem StoreInv.reread (h : StoreInv s) (hshaped : Shaped s) : StoreInv s.reread := by
  have hkeys := keys_reread s
  refine ⟨⟨?_, ?_, h.routeKeys, h.routeUsedKeys, h.used, h.routeUsed, ?_, h.chargeBound⟩,
    ⟨h.positive, h.capacity, h.quota, ?_, h.routeCount⟩, ?_, ?_⟩
  · exact h.charged.trans hkeys.symm
  · intro r id
    refine (h.routed r id).trans ?_
    simp only [lookup_reread_some]
    constructor
    · rintro ⟨item, hitem, hr⟩
      exact ⟨_, ⟨item, hitem, rfl⟩, hr⟩
    · rintro ⟨_, ⟨item, hitem, rfl⟩, hr⟩
      exact ⟨item, hitem, hr⟩
  · intro id item hitem
    obtain ⟨held, hheld, rfl⟩ := lookup_reread_some.mp hitem
    exact h.keyed id held hheld
  · rw [size, hkeys]
    exact h.count
  · intro id item hitem
    obtain ⟨held, hheld, rfl⟩ := lookup_reread_some.mp hitem
    obtain ⟨f, hf, hacc, -, hcharge⟩ := h.files id held hheld
    exact ⟨f, hf, hacc, .inr (h.rereads hshaped hheld hf), hcharge⟩
  · intro name hname
    rw [hkeys]
    exact h.noOther name hname

/-! ## Opening again -/

/-- Opening the directory of a store again, at any time: an item comes back as it is shown, if
    that is valid then, with its charge and its file. -/
theorem reopen_exact {dir : Bytes} (h : StoreInv s) (hshaped : Shaped s)
    (htidy : Tidy s.dir) (hdir : dir ≠ []) (hle : s.routeQuota ≤ s.capacity) (now : Time) :
    ∃ t, newDiskStore dir s.dir now s.capacity s.routeQuota = (.ok t, t.dir) ∧
      ∀ id item, s.items.lookup id = some item →
        (∀ item', t.items.lookup id = some item' ↔ item' = item.shown ∧
          validateItem item.shown now defaultMaxItemBytes = .ok ()) ∧
        ((t.items.lookup id).isSome = true → t.charges.lookup id = s.charges.lookup id ∧
          t.dir.files.lookup (itemFile id) = s.dir.files.lookup (itemFile id)) := by
  have hdec : Decodes s.reread := by
    intro id item f hitem hf
    obtain ⟨held, hheld, rfl⟩ := lookup_reread_some.mp hitem
    exact h.rereads hshaped hheld hf
  obtain ⟨t, hopen, hreload⟩ := @restart_valid s.reread dir now (h.reread hshaped) hdec htidy hdir hle
  refine ⟨t, hopen, fun id item hitem => ⟨fun item' => ?_, fun hsome => ?_⟩⟩
  · rw [hreload.exact, lookup_reread, hitem, Option.map_some, Option.some.injEq, eq_comm]
    exact and_congr_right fun he => by rw [he]
  · obtain ⟨item', hitem'⟩ := Option.isSome_iff_exists.mp hsome
    refine ⟨?_, hreload.kept id item' hitem'⟩
    obtain ⟨c, hc⟩ := charges_lookup_some hreload.toIndexInv hitem'
    exact hc.trans (hreload.part.charges id c hc).symm

/-- A start writes no file but the lock. -/
theorem newDiskStore_files {dir : Bytes} {d d' : Disk} {now : Time} {capacity routeQuota : Int}
    {t : DiskStore} (h : newDiskStore dir d now capacity routeQuota = (.ok t, d')) {name : Bytes}
    {f : File} (hname : name ≠ nodeStoreLockFilename) (hf : t.dir.files.lookup name = some f) :
    d.files.lookup name = some f := by
  obtain ⟨e, d1, heq, -⟩ | ⟨d1, t1, heq, htidied, -, -, ht⟩ :=
    newDiskStore_cases dir d now capacity routeQuota
  · rw [heq] at h
    cases h
  · rw [heq] at h
    obtain rfl := Except.ok.inj (Prod.mk.inj h).1
    have hstart : LoadRead now d1 (DiskStore.empty d1 capacity routeQuota) :=
      ⟨fun _ _ h => h, fun id item h => by simp [DiskStore.empty] at h⟩
    have hread : LoadRead now d1 t1 := ht ▸ hstart.foldl _
    exact htidied.only name f hname (hread.dir name f hf)

/-! ## Puts -/

/-- What an open store is after any number of puts. -/
structure Filled (dir : Bytes) (total perRoute : Int) (s : DiskStore) : Prop
    extends StoreInv s where
  shaped : Shaped s
  tidy : Tidy s.dir
  limits : s.capacity = total ∧ s.routeQuota = perRoute
  setup : dir ≠ [] ∧ perRoute ≤ total

def DiskStore.putAll (s : DiskStore) (puts : List (Time × StoredItem)) : DiskStore :=
  puts.foldl (fun s e => (s.put e.1 e.2).2) s

section

variable {dir : Bytes} {capacity routeQuota : Int} {s : DiskStore}

theorem Filled.put (h : Filled dir capacity routeQuota s) (now : Time) (item : StoredItem) :
    Filled dir capacity routeQuota (s.put now item).2 := by
  have hinv := (put_inv h.toStoreInv now item).1
  obtain ⟨e, hp⟩ | ⟨hp, -⟩ | ⟨data, hp, -, hval, hnew, hdata, -, -, -, -, -, hvalid⟩ :=
    put_cases s now item
  · rwa [hp]
  · rwa [hp]
  · rw [hp] at hinv ⊢
    obtain ⟨hlock, htmp⟩ := itemFile_ordinary hvalid
    refine ⟨hinv, fun id i hi => ?_, h.tidy.insert _ hlock htmp, h.limits, h.setup⟩
    change (s.items.insert item.itemID item).lookup id = some i at hi
    rw [lookup_insert_eq] at hi
    split at hi
    · exact Option.some.inj hi ▸ ((validateItem_ok_iff _ _ _).mp hval).1
    · exact h.shaped id i hi

theorem Filled.putAll (h : Filled dir capacity routeQuota s) (puts : List (Time × StoredItem)) :
    Filled dir capacity routeQuota (s.putAll puts) := by
  induction puts generalizing s with
  | nil => exact h
  | cons e puts ih => exact ih (h.put e.1 e.2)

/-- A store that was opened in an empty directory. -/
theorem filled_fresh {opened : Time} {d : Disk}
    (h : newDiskStore dir ⟨true, ∅⟩ opened capacity routeQuota = (.ok s, d)) :
    Filled dir capacity routeQuota s := by
  obtain ⟨hdir, hle, -, hcap, hquota, htidy⟩ := newDiskStore_opened h
  have hinv := newDiskStore_inv h
  refine ⟨hinv, fun id item hitem => ?_, htidy, ⟨hcap, hquota⟩, hdir, hle⟩
  have hpos := hinv.positive
  rw [hquota] at hpos
  rw [newDiskStore_fresh opened hdir hpos.2 hle] at h
  obtain rfl := Except.ok.inj (Prod.mk.inj h).1
  cases hitem

/-- Opening the directory again at any time keeps an unexpired item, its charge and its file
    exactly if the clock is no more than five minutes before its creation and its times are at
    offsets of whole minutes. -/
theorem reopen_keeps_iff {opened : Time} {d : Disk}
    (hopen : newDiskStore dir ⟨true, ∅⟩ opened capacity routeQuota = (.ok s, d))
    (puts : List (Time × StoredItem)) (now : Time) :
    ∃ t, newDiskStore dir (s.putAll puts).dir now capacity routeQuota = (.ok t, t.dir) ∧
      ∀ id item, (s.putAll puts).items.lookup id = some item → now.ns < item.expiresAt.ns →
        ((t.items.lookup id = some item ∧
            t.charges.lookup id = (s.putAll puts).charges.lookup id ∧
            t.dir.files.lookup (itemFile id) = (s.putAll puts).dir.files.lookup (itemFile id)) ↔
          item.createdAt.ns ≤ now.ns + 5 * minute ∧ item.createdAt.off % 60 = 0 ∧
            item.expiresAt.off % 60 = 0) := by
  have h := (filled_fresh hopen).putAll puts
  obtain ⟨t, hreopen, hexact⟩ := reopen_exact h.toStoreInv h.shaped h.tidy h.setup.1
    (by rw [h.limits.1, h.limits.2]; exact h.setup.2) now
  rw [h.limits.1, h.limits.2] at hreopen
  refine ⟨t, hreopen, fun id item hitem hexp => ?_⟩
  obtain ⟨hread, hkept⟩ := hexact id item hitem
  rw [← StoredItem.shown_eq_iff]
  constructor
  · rintro ⟨hback, -⟩
    obtain ⟨hshown, hvalid⟩ := (hread item).mp hback
    rw [← hshown] at hvalid
    exact ⟨((validateItem_ok_iff _ _ _).mp hvalid).2.1, hshown.symm⟩
  · rintro ⟨hcreated, hshown⟩
    have hback : t.items.lookup id = some item := by
      refine (hread item).mpr ⟨hshown.symm, ?_⟩
      rw [hshown]
      exact (validateItem_ok_iff _ _ _).mpr ⟨h.shaped id item hitem, hcreated, hexp⟩
    exact ⟨hback, hkept (by rw [hback]; rfl)⟩

end

theorem putAll_early : (sampleStore.putAll [(Time.epoch, earlyItem)]).items.lookup
    earlyItem.itemID = some earlyItem := by
  obtain ⟨data, hd, hl⟩ := marshal_earlyItem
  rw [DiskStore.putAll, List.foldl_cons, List.foldl_nil, sample_put_early hd hl]
  exact Finmap.lookup_insert _

/-- The early item, opened again at the time it was put. -/
theorem reopen_keeps_early : ∃ t,
    newDiskStore (lit "d") (sampleStore.putAll [(Time.epoch, earlyItem)]).dir Time.epoch 1000000
      1000000 = (.ok t, t.dir) ∧ t.items.lookup earlyItem.itemID = some earlyItem := by
  obtain ⟨t, hreopen, hkeeps⟩ := reopen_keeps_iff (newDiskStore_fresh Time.epoch
    (by decide : lit "d" ≠ []) (by decide) (by decide : (1000000 : Int) ≤ 1000000))
    [(Time.epoch, earlyItem)] Time.epoch
  exact ⟨t, hreopen, ((hkeeps _ _ putAll_early (by decide)).mpr ⟨by decide, rfl, rfl⟩).1⟩

/-- A node whose clock is set back by six minutes deletes an item that is good for a month. -/
theorem reopen_loses_early : ∃ t now,
    newDiskStore (lit "d") (sampleStore.putAll [(Time.epoch, earlyItem)]).dir now 1000000 1000000 =
        (.ok t, t.dir) ∧
      (sampleStore.putAll [(Time.epoch, earlyItem)]).items.lookup earlyItem.itemID = some earlyItem ∧
      now.ns < earlyItem.expiresAt.ns ∧ t.items.lookup earlyItem.itemID = none ∧
      t.dir.files.lookup (itemFile earlyItem.itemID) = none := by
  have h := (filled_fresh (newDiskStore_fresh Time.epoch (by decide : lit "d" ≠ []) (by decide)
    (by decide : (1000000 : Int) ≤ 1000000))).putAll [(Time.epoch, earlyItem)]
  obtain ⟨t, hreopen, hexact⟩ := reopen_exact h.toStoreInv h.shaped h.tidy h.setup.1
    (by rw [h.limits.1, h.limits.2]) (Time.epoch.add (-6 * minute))
  rw [h.limits.1, h.limits.2] at hreopen
  have hlate : validateItem earlyItem.shown (Time.epoch.add (-6 * minute)) defaultMaxItemBytes ≠
      .ok () := fun hvalid =>
    absurd ((validateItem_ok_iff _ _ _).mp hvalid).2.1 (by decide)
  have hgone : t.items.lookup earlyItem.itemID = none := by
    refine Option.eq_none_iff_forall_ne_some.mpr fun item hitem => hlate ?_
    exact (((hexact _ _ putAll_early).1 item).mp hitem).2
  refine ⟨t, _, hreopen, putAll_early, by decide, hgone, ?_⟩
  -- the file would be one of an item
  refine Option.eq_none_iff_forall_ne_some.mpr fun f hf => ?_
  obtain ⟨g, hg, hacc, -⟩ := h.files _ _ putAll_early
  obtain ⟨hlock, -⟩ := itemFile_ordinary (h.keyed _ _ putAll_early).2
  obtain rfl := Option.some.inj ((newDiskStore_files hreopen hlock hf).symm.trans hg)
  obtain ⟨id, hid, hname⟩ := (newDiskStore_inv hreopen).noOther _
    ⟨f, hf, by simp [(acceptableFile_regular hacc).1], ext_itemFile _⟩
  rw [← itemFile_inj hname, GoMap.mem_keys_iff, hgone] at hid
  obtain ⟨item, hitem⟩ := hid
  cases hitem

end Veilmesh.Node

/-
  What a node returns for some route tags (`FetchLimited` of `node/store.go`).

  Two nested loops over maps collect unexpired items until a limit would be exceeded. The
  identifiers that are live under the route tags decide the outcome alone: they all fit and
  are all returned, or something is said to be missing, whatever order the maps are visited in.

  * `fetchRoute_spec`, `fetchRoutes_spec`: what one route and what all routes add.
  * `fetchLimited_exact`: the result of a call.
-/
import Veilmesh.Node.Durability

namespace Veilmesh.Node

open Lib Protocol List
open StoredItem (zero)

namespace DiskStore

/-! ## The items to return -/

/-- The bytes of a held item. -/
def payloadSize (s : DiskStore) (id : Bytes) : Nat := (s.items.getD id StoredItem.zero).payload.length

/-- Whether an identifier stands for an item that has not expired. -/
def live (s : DiskStore) (now : Time) (id : Bytes) : Bool :=
  (s.items.getD id StoredItem.zero).expiresAt.after now

/-- The unexpired items under some route tags. -/
def liveIDs (s : DiskStore) (now : Time) (routeTags : List Bytes) : Finset Bytes :=
  (routeTags.toFinset.biUnion s.routeIDs).filter fun id => s.live now id = true

/-- Whether so many items of so many bytes may be returned. -/
def Within (s : DiskStore) (maxItems maxBytes : Int) (ids : Finset Bytes) : Prop :=
  (ids.card : Int) ≤ maxItems ∧ ∑ id ∈ ids, (s.payloadSize id : Int) ≤ maxBytes

variable {s : DiskStore} {now : Time} {maxItems maxBytes : Int}
  {ids : Finset Bytes} {acc : FetchAcc} {id : Bytes}

theorem Within.mono {ids' : Finset Bytes} (h : s.Within maxItems maxBytes ids') (hsub : ids ⊆ ids')
    : s.Within maxItems maxBytes ids := by
  have hcard := Finset.card_le_card hsub
  have hsum : ∑ id ∈ ids, (s.payloadSize id : Int) ≤ ∑ id ∈ ids', (s.payloadSize id : Int) :=
    Finset.sum_le_sum_of_subset_of_nonneg hsub fun _ _ _ => Int.natCast_nonneg _
  obtain ⟨h1, h2⟩ := h
  exact ⟨by omega, hsum.trans h2⟩

/-- What the loops have collected when nothing was cut off: the live items among the
    identifiers `ids`. -/
structure Collected (s : DiskStore) (now : Time) (ids : Finset Bytes) (acc : FetchAcc) : Prop where
  seen : acc.seen = ids.filter fun id => s.live now id = true
  items : ∃ l : List Bytes, l.Nodup ∧ l.toFinset = acc.seen ∧
    acc.items = l.map fun id => s.items.getD id StoredItem.zero
  total : acc.totalBytes = ∑ id ∈ acc.seen, (s.payloadSize id : Int)
  whole : acc.truncated = false

theorem Collected.length (h : Collected s now ids acc) : acc.items.length = acc.seen.card := by
  obtain ⟨l, hnodup, hseen, hitems⟩ := h.items
  rw [hitems, length_map, ← hseen, toFinset_card_of_nodup hnodup]

theorem getD_held (hindex : IndexInv s) (hid : id ∈ s.items.keys) :
    s.items.lookup id = some (s.items.getD id zero) ∧
      (s.items.getD id zero).itemID = id := by
  obtain ⟨item, hitem⟩ := GoMap.mem_keys_iff.mp hid
  rw [GoMap.getD, hitem]
  exact ⟨rfl, (hindex.keyed id item hitem).1⟩

theorem routeIDs_held (hindex : IndexInv s) (r : Bytes) : s.routeIDs r ⊆ s.items.keys := by
  intro id hid
  obtain ⟨item, hitem, -⟩ := (hindex.routed r id).mp hid
  exact GoMap.mem_keys_of_lookup hitem

/-- The items that were collected under some route tags. -/
theorem Collected.result {routeTags : List Bytes} (hindex : IndexInv s)
    (h : Collected s now (routeTags.toFinset.biUnion s.routeIDs) acc) :
    (acc.items.map (·.itemID)).Nodup ∧
      ∀ item, item ∈ acc.items ↔ s.items.lookup item.itemID = some item ∧
        item.routeTag ∈ routeTags ∧ item.expiresAt.after now = true := by
  have hids : routeTags.toFinset.biUnion s.routeIDs ⊆ s.items.keys :=
    Finset.biUnion_subset.mpr fun r _ => routeIDs_held hindex r
  obtain ⟨l, hnodup, hseen, hitems⟩ := h.items
  have hmem : ∀ id, id ∈ l ↔ id ∈ routeTags.toFinset.biUnion s.routeIDs ∧ s.live now id = true :=
    fun id => by rw [← mem_toFinset, hseen, h.seen, Finset.mem_filter]
  have hmap : acc.items.map (·.itemID) = l := by
    rw [hitems, map_map]
    refine (map_congr_left fun id hid => ?_).trans (map_id l)
    exact (getD_held hindex (hids ((hmem id).mp hid).1)).2
  -- an item stands under its own route tag
  have hroute : ∀ item, s.items.lookup item.itemID = some item →
      (item.itemID ∈ routeTags.toFinset.biUnion s.routeIDs ↔ item.routeTag ∈ routeTags) := by
    intro item hlookup
    rw [Finset.mem_biUnion]
    constructor
    · rintro ⟨r, hr, hid⟩
      obtain ⟨item', hitem', rfl⟩ := (hindex.routed r _).mp hid
      rw [Option.some.inj (hlookup.symm.trans hitem')]
      exact mem_toFinset.mp hr
    · intro hr
      exact ⟨_, mem_toFinset.mpr hr, (hindex.routed _ _).mpr ⟨item, hlookup, rfl⟩⟩
  refine ⟨hmap.symm ▸ hnodup, fun item => ?_⟩
  rw [hitems, mem_map]
  constructor
  · rintro ⟨id, hid, rfl⟩
    obtain ⟨hin, hlive⟩ := (hmem id).mp hid
    obtain ⟨hlookup, hkey⟩ := getD_held hindex (hids hin)
    rw [← hkey] at hlookup hin
    exact ⟨hkey.symm ▸ hlookup, (hroute _ (hkey.symm ▸ hlookup)).mp hin, hlive⟩
  · rintro ⟨hlookup, htag, hlive⟩
    have hget : s.items.getD item.itemID zero = item := by
      rw [GoMap.getD, hlookup]
      rfl
    refine ⟨item.itemID, (hmem _).mpr ⟨(hroute item hlookup).mpr htag, ?_⟩, hget⟩
    rw [live, hget]
    exact hlive

/-! ## The loops -/

/-- One more identifier that is new and live. -/
theorem Collected.add (h : Collected s now ids acc) (hlive : s.live now id = true)
    (hnew : id ∉ acc.seen) :
    Collected s now (insert id ids)
      { acc with
        items := acc.items ++ [s.items.getD id zero]
        seen := insert id acc.seen
        totalBytes := acc.totalBytes + s.payloadSize id } := by
  obtain ⟨l, hnodup, hseen, hitems⟩ := h.items
  have hnot : id ∉ l := by
    rwa [← mem_toFinset, hseen]
  refine ⟨?_, ⟨l ++ [id], ?_, ?_, ?_⟩, ?_, h.whole⟩
  · rw [Finset.filter_insert, if_pos hlive, ← h.seen]
  · exact nodup_append.mpr ⟨hnodup, nodup_singleton _, fun a ha b hb heq => hnot
      (mem_singleton.mp hb ▸ heq ▸ ha)⟩
  · rw [toFinset_append, hseen, Finset.union_comm]
    rfl
  · rw [hitems, map_append]
    rfl
  · rw [Finset.sum_insert hnew, h.total]
    exact add_comm _ _

/-- One more identifier that is not. -/
theorem Collected.skip (h : Collected s now ids acc)
    (hskip : ¬ (s.live now id = true ∧ id ∉ acc.seen)) : Collected s now (insert id ids) acc := by
  refine ⟨?_, h.items, h.total, h.whole⟩
  rw [Finset.filter_insert]
  split
  · rename_i hlive
    have hseen : id ∈ acc.seen := by
      by_contra hnot
      exact hskip ⟨hlive, hnot⟩
    rw [← h.seen, Finset.insert_eq_of_mem hseen]
  · exact h.seen

section

variable (hmemory : ∑ id ∈ s.items.keys, (s.payloadSize id : Int) ≤ maxInt64)
include hmemory

/-- The test of the inner loop, where the bytes of all held items can be counted. -/
theorem limit_iff {ids : Finset Bytes} {acc : FetchAcc} (h : Collected s now ids acc)
    (hids : ids ⊆ s.items.keys) {id : Bytes} (hid : id ∈ s.items.keys) (hnew : id ∉ acc.seen) :
    wrap64 (acc.totalBytes + s.payloadSize id) = acc.totalBytes + s.payloadSize id ∧
      (((acc.items.length : Int) ≥ maxItems ∨
        acc.totalBytes + s.payloadSize id > maxBytes) ↔
      ¬ s.Within maxItems maxBytes (insert id acc.seen)) := by
  have hseen : insert id acc.seen ⊆ s.items.keys := by
    rw [h.seen]
    exact Finset.insert_subset hid ((Finset.filter_subset _ _).trans hids)
  have hsum : ∑ x ∈ insert id acc.seen, (s.payloadSize x : Int) =
      acc.totalBytes + s.payloadSize id := by
    rw [Finset.sum_insert hnew, h.total, add_comm]
  have hle : ∑ x ∈ insert id acc.seen, (s.payloadSize x : Int) ≤
      ∑ x ∈ s.items.keys, (s.payloadSize x : Int) :=
    Finset.sum_le_sum_of_subset_of_nonneg hseen fun _ _ _ => Int.natCast_nonneg _
  have hnonneg : 0 ≤ ∑ x ∈ insert id acc.seen, (s.payloadSize x : Int) :=
    Finset.sum_nonneg fun _ _ => Int.natCast_nonneg _
  rw [hsum] at hle hnonneg
  refine ⟨wrap64_of_range (by omega) (hle.trans hmemory), ?_⟩
  rw [Within, hsum, Finset.card_insert_of_notMem hnew, ← h.length, not_and_or, not_le, not_le]
  exact or_congr_left ⟨fun hc => by omega, fun hc => by omega⟩

/-- The inner loop over some identifiers: it collects the live ones if they fit, and says that
    something is missing otherwise. -/
theorem fetchRoute_spec (ids : List Bytes) : ∀ {visited : Finset Bytes} {acc : FetchAcc},
    (∀ id ∈ ids, id ∈ s.items.keys) → visited ⊆ s.items.keys → Collected s now visited acc →
    s.Within maxItems maxBytes acc.seen →
    (s.Within maxItems maxBytes ((visited ∪ ids.toFinset).filter fun id => s.live now id = true) →
      Collected s now (visited ∪ ids.toFinset) (fetchRoute s now maxItems maxBytes ids acc)) ∧
    (¬ s.Within maxItems maxBytes ((visited ∪ ids.toFinset).filter fun id => s.live now id = true) →
      (fetchRoute s now maxItems maxBytes ids acc).truncated = true) := by
  induction ids with
  | nil =>
    intro visited acc _ _ h hwithin
    rw [toFinset_nil, Finset.union_empty, ← h.seen]
    exact ⟨fun _ => h, fun hnot => absurd hwithin hnot⟩
  | cons id ids ih =>
    intro visited acc hheld hvisited h hwithin
    have hid : id ∈ s.items.keys := hheld id mem_cons_self
    have hrest : ∀ x ∈ ids, x ∈ s.items.keys := fun x hx => hheld x (mem_cons_of_mem _ hx)
    have hunion : visited ∪ (id :: ids).toFinset = insert id visited ∪ ids.toFinset := by
      rw [toFinset_cons, Finset.union_insert, Finset.insert_union]
    rw [hunion]
    have hvisited' : insert id visited ⊆ s.items.keys := Finset.insert_subset hid hvisited
    unfold fetchRoute
    dsimp only
    split
    · rename_i hnew
      have hlive : s.live now id = true := hnew.1
      obtain ⟨hwrap, hlimit⟩ := @limit_iff s now maxItems maxBytes hmemory _ _ h hvisited _ hid hnew.2
      have hadd := h.add hlive hnew.2
      have hseen : insert id acc.seen = (insert id visited).filter fun x => s.live now x = true :=
        hadd.seen
      have hwrap' : wrap64 (acc.totalBytes + (s.items.getD id zero).payload.length) =
        acc.totalBytes + s.payloadSize id := hwrap
      rw [hwrap']
      split
      · rename_i hfull
        refine ⟨fun hall => absurd (hall.mono ?_) (hlimit.mp hfull), fun _ => rfl⟩
        rw [hseen]
        exact Finset.filter_subset_filter _ Finset.subset_union_left
      · rename_i hroom
        exact ih hrest hvisited' hadd (not_not.mp fun hnot => hroom (hlimit.mpr hnot))
    · rename_i hskip
      exact ih hrest hvisited' (h.skip hskip) hwithin

end

/-- A visit of a route yields its identifiers, in some order. -/
def FetchOrder.Visits (order : FetchOrder) (s : DiskStore) : Prop :=
  ∀ i r, (order.visit i r).toFinset = s.routeIDs r

/-- The outer loop, likewise. -/
theorem fetchRoutes_spec (hindex : IndexInv s)
    (hmemory : ∑ id ∈ s.items.keys, (s.payloadSize id : Int) ≤ maxInt64) {order : FetchOrder}
    (hvisits : order.Visits s) (routeTags : List Bytes) :
    ∀ {i : Nat} {visited : Finset Bytes} {acc : FetchAcc}, visited ⊆ s.items.keys →
    Collected s now visited acc → s.Within maxItems maxBytes acc.seen →
    (s.Within maxItems maxBytes ((visited ∪ routeTags.toFinset.biUnion s.routeIDs).filter
        fun id => s.live now id = true) →
      Collected s now (visited ∪ routeTags.toFinset.biUnion s.routeIDs)
        (fetchRoutes s now order maxItems maxBytes i routeTags acc)) ∧
    (¬ s.Within maxItems maxBytes ((visited ∪ routeTags.toFinset.biUnion s.routeIDs).filter
        fun id => s.live now id = true) →
      (fetchRoutes s now order maxItems maxBytes i routeTags acc).truncated = true) := by
  induction routeTags with
  | nil =>
    intro i visited acc _ h hwithin
    rw [toFinset_nil, Finset.biUnion_empty, Finset.union_empty, ← h.seen]
    exact ⟨fun _ => h, fun hnot => absurd hwithin hnot⟩
  | cons r routeTags ih =>
    intro i visited acc hvisited h hwithin
    have hroute : ∀ id ∈ order.visit i r, id ∈ s.items.keys := fun id hid =>
      routeIDs_held hindex r (hvisits i r ▸ mem_toFinset.mpr hid)
    obtain ⟨hfits, hcut⟩ := @fetchRoute_spec s now maxItems maxBytes hmemory (order.visit i r) _ _
      hroute hvisited h hwithin
    rw [hvisits] at hfits hcut
    have hunion : visited ∪ (r :: routeTags).toFinset.biUnion s.routeIDs =
        (visited ∪ s.routeIDs r) ∪ routeTags.toFinset.biUnion s.routeIDs := by
      rw [toFinset_cons, Finset.biUnion_insert, Finset.union_assoc]
    rw [hunion]
    unfold fetchRoutes
    dsimp only
    by_cases hmid : s.Within maxItems maxBytes
        ((visited ∪ s.routeIDs r).filter fun id => s.live now id = true)
    · have hcollected := hfits hmid
      rw [if_neg (by rw [hcollected.whole]; exact Bool.false_ne_true)]
      exact ih (Finset.union_subset hvisited (routeIDs_held hindex r)) hcollected
        (hcollected.seen ▸ hmid)
    · rw [if_pos (hcut hmid)]
      refine ⟨fun hall => absurd (hall.mono ?_) hmid, fun _ => hcut hmid⟩
      exact Finset.filter_subset_filter _ Finset.subset_union_left

/-- What the loops of a call come to. -/
theorem fetchLimited_spec (hindex : IndexInv s) (hopen : s.closed = false)
    (hmemory : ∑ id ∈ s.items.keys, (s.payloadSize id : Int) ≤ maxInt64) {order : FetchOrder}
    (hvisits : order.Visits s) {routeTags : List Bytes} (hsome : routeTags ≠ [])
    (hfew : routeTags.length ≤ maxRouteTagsPerFetch) (hitems : 0 < maxItems) (hbytes : 0 < maxBytes) :
    ∃ acc : FetchAcc,
      s.fetchLimited now order routeTags maxItems maxBytes = (order.arrange acc.items, acc.truncated) ∧
      (s.Within maxItems maxBytes (s.liveIDs now routeTags) →
        Collected s now (routeTags.toFinset.biUnion s.routeIDs) acc) ∧
      (¬ s.Within maxItems maxBytes (s.liveIDs now routeTags) → acc.truncated = true) := by
  have hlength : routeTags.length ≠ 0 := by rwa [ne_eq, length_eq_zero_iff]
  have hstart : Collected s now ∅ ⟨[], ∅, 0, false⟩ :=
    ⟨rfl, ⟨[], nodup_nil, rfl, rfl⟩, rfl, rfl⟩
  have hempty : s.Within maxItems maxBytes ∅ := ⟨hitems.le, hbytes.le⟩
  have hspec := @fetchRoutes_spec s now maxItems maxBytes hindex hmemory order hvisits
    routeTags 0 _ _ (Finset.empty_subset _) hstart hempty
  rw [Finset.empty_union] at hspec
  refine ⟨_, ?_, hspec⟩
  unfold fetchLimited
  rw [if_neg (by rw [hopen]; exact Bool.false_ne_true), if_neg (by omega)]

/-- A call returns all unexpired items under the route tags, each once and oldest first, if they
    meet the limits, and says that something is missing otherwise. -/
theorem fetchLimited_exact (s : DiskStore) (hindex : IndexInv s) (hopen : s.closed = false)
    (hmemory : ∑ id ∈ s.items.keys, (s.payloadSize id : Int) ≤ maxInt64) (now : Time)
    (order : FetchOrder) (hvisits : order.Visits s) (routeTags : List Bytes)
    (hsome : routeTags ≠ []) (hfew : routeTags.length ≤ maxRouteTagsPerFetch)
    (maxItems maxBytes : Int) (hitems : 0 < maxItems) (hbytes : 0 < maxBytes) :
    (s.Within maxItems maxBytes (s.liveIDs now routeTags) →
      (s.fetchLimited now order routeTags maxItems maxBytes).2 = false ∧
      ((s.fetchLimited now order routeTags maxItems maxBytes).1.map (·.itemID)).Nodup ∧
      (∀ item, item ∈ (s.fetchLimited now order routeTags maxItems maxBytes).1 ↔
        s.items.lookup item.itemID = some item ∧ item.routeTag ∈ routeTags ∧
          item.expiresAt.after now = true) ∧
      (s.fetchLimited now order routeTags maxItems maxBytes).1.Pairwise
        fun i j => i.createdAt.ns ≤ j.createdAt.ns) ∧
    (¬ s.Within maxItems maxBytes (s.liveIDs now routeTags) →
      (s.fetchLimited now order routeTags maxItems maxBytes).2 = true) := by
  obtain ⟨acc, hcall, hwhole, hcut⟩ := @fetchLimited_spec s now maxItems maxBytes hindex hopen hmemory
    order hvisits routeTags hsome hfew hitems hbytes
  rw [hcall]
  refine ⟨fun hwithin => ?_, hcut⟩
  obtain ⟨hnodup, hmem⟩ := (hwhole hwithin).result hindex
  refine ⟨(hwhole hwithin).whole, ?_, fun item => ?_, ?_⟩
  · exact ((order.arrange_perm _).map _).nodup_iff.mpr hnodup
  · rw [(order.arrange_perm _).mem_iff, hmem]
  · refine (order.arrange_sorted _).imp fun {i j} hij => ?_
    rwa [← Bool.not_eq_true, Time.before_iff, not_lt] at hij

/-- The bytes of the items a store can hold are counted without overflow. -/
theorem payloads_le (hcount : s.items.size ≤ maxStoredItems)
    (h : ∀ id item, s.items.lookup id = some item → item.payload.length ≤ defaultMaxItemBytes) :
    ∑ id ∈ s.items.keys, (s.payloadSize id : Int) ≤ maxInt64 := by
  have hone : ∀ id ∈ s.items.keys, (s.payloadSize id : Int) ≤ defaultMaxItemBytes := by
    intro id hid
    obtain ⟨item, hitem⟩ := GoMap.mem_keys_iff.mp hid
    rw [payloadSize, GoMap.getD, hitem]
    exact_mod_cast h id item hitem
  refine (Finset.sum_le_card_nsmul _ _ _ hone).trans ?_
  have hsize : s.items.keys.card ≤ maxStoredItems := hcount
  rw [nsmul_eq_mul]
  have hb : (defaultMaxItemBytes : Int) = 327680 := by decide
  have hm : maxStoredItems = 1000000 := by decide
  have hi : maxInt64 = 9223372036854775807 := by decide
  rw [hb, hi]
  rw [hm] at hsize
  omega

end DiskStore

/-! ### A sample -/

theorem earlyStore_inv : StoreInv earlyStore := by
  have hfresh : StoreInv sampleStore := newDiskStore_inv (newDiskStore_fresh Time.epoch
    (by decide : lit "d" ≠ []) (by decide) (by decide))
  obtain ⟨data, hd, hl⟩ := marshal_earlyItem
  have hput := (put_inv hfresh Time.epoch earlyItem).1
  rw [sample_put_early hd hl] at hput
  rwa [earlyStore, hd]

theorem earlyStore_keys : earlyStore.items.keys = {earlyItem.itemID} :=
  GoMap.keys_insert ∅ earlyItem.itemID earlyItem

/-- The one item under a route tag that is asked for twice. -/
theorem fetchLimited_exact_early : ∃ order : DiskStore.FetchOrder, order.Visits earlyStore ∧
    (earlyStore.fetchLimited Time.epoch order [earlyItem.routeTag, earlyItem.routeTag] 1 1).2 =
      false := by
  let order : DiskStore.FetchOrder :=
    { visit := fun _ r => (earlyStore.routeIDs r).sort bytesLE
      arrange := fun items => items.mergeSort fun i j => decide (i.createdAt.ns ≤ j.createdAt.ns)
      arrange_perm := fun items => List.mergeSort_perm _ _
      arrange_sorted := fun items => by
        refine (List.pairwise_mergeSort (fun i j k hij hjk => ?_) (fun i j => ?_) items).imp
          fun {i j} hij => ?_
        · exact decide_eq_true ((of_decide_eq_true hij).trans (of_decide_eq_true hjk))
        · simpa using le_total i.createdAt.ns j.createdAt.ns
        · rw [← Bool.not_eq_true, Time.before_iff, not_lt]
          exact of_decide_eq_true hij }
  have hvisits : order.Visits earlyStore := fun _ r => Finset.sort_toFinset _ _
  have hsize : earlyStore.payloadSize earlyItem.itemID = 1 := by
    rw [DiskStore.payloadSize, GoMap.getD, show earlyStore.items.lookup earlyItem.itemID =
      some earlyItem from Finmap.lookup_insert _]
    rfl
  have hmemory : ∑ id ∈ earlyStore.items.keys, (earlyStore.payloadSize id : Int) = 1 := by
    rw [earlyStore_keys, Finset.sum_singleton, hsize]
    rfl
  have hwithin : earlyStore.Within 1 1 earlyStore.items.keys :=
    ⟨by rw [earlyStore_keys]; rfl, hmemory.le⟩
  have hlive : earlyStore.liveIDs Time.epoch [earlyItem.routeTag, earlyItem.routeTag] ⊆
      earlyStore.items.keys := (Finset.filter_subset _ _).trans
    (Finset.biUnion_subset.mpr fun r _ => DiskStore.routeIDs_held earlyStore_inv.toIndexInv r)
  exact ⟨order, hvisits, ((DiskStore.fetchLimited_exact earlyStore earlyStore_inv.toIndexInv rfl
    (hmemory.trans_le (by decide)) Time.epoch order hvisits _ (List.cons_ne_nil _ _) (by decide) 1 1
    (by decide) (by decide)).1 (hwithin.mono hlive)).1⟩

end Veilmesh.Node

/-
  The size limits of node and client (`node/config.go`, `node/server.go`, `node/store.go`,
  `client/http_node.go`).

  A node limits payload bytes, the two ends of a connection limit bytes of JSON. `Shaped` says
  that a store holds valid items only; it is what any calls on a store keep, whatever the clock
  does in between.

  * `item_atMost`: the text of a valid item.
  * `Shaped.step`: every call keeps `Shaped`.
  * `handleFetch_within`: how much a node sends.
  * `wire_sizes`: the limits of both ends go together.
-/
import Mathlib.Algebra.BigOperators.Ring.Finset
import Veilmesh.Client.Link
import Veilmesh.Node.Fetch

namespace Veilmesh.Client

open Lib Protocol Node DiskStore List

/-! ## Items -/

/-- The bytes of a valid item's text around its payload. -/
def itemOverhead : Nat := 64 + 43 + 44 + 400

theorem length_routeTag {tag : Bytes} (h : validRouteTag tag = true) : tag.length = 43 := by
  obtain ⟨bytes, hlength, rfl⟩ := validRouteTag_spec.mp h
  rw [length_base64Encode, hlength]

variable {item : StoredItem} {m : Int} {s : DiskStore}

theorem item_atMost (h : ItemShape item m) {created expires : Bytes}
    (hc : item.createdAt.marshalText = some created)
    (he : item.expiresAt.marshalText = some expires) :
    storedItemCodec.AtMost item (4 * ((item.payload.length + 2) / 3) + itemOverhead) := by
  have hplain : Json.Plain item.itemID := by
    rw [h.id]
    exact plain_hexEncode _
  refine (storedItemCodec_atMost hplain (validRouteTag_plain h.route) hc he).atMost ?_
  rw [h.id, length_computeItemID, length_routeTag h.route, h.hash]
  unfold itemOverhead
  omega

/-- The text of an item fits into twice its bytes and what a request may have besides. -/
theorem length_item_le_double (h : ItemShape item m) {data : Bytes}
    (hdata : marshal storedItemCodec item = some data) :
    (data.length : Int) ≤ m * 2 + 64 * 1024 := by
  obtain ⟨⟨created, hc⟩, expires, he⟩ := storedItem_marshal_times hdata
  obtain ⟨data', hdata', hlength⟩ := marshal_atMost (item_atMost h hc he)
  obtain rfl := Option.some.inj (hdata.symm.trans hdata')
  have hsize := h.size
  unfold itemOverhead at hlength
  omega

/-! ## Stores -/

/-- Every item of a store is valid, but for the clock. -/
def Shaped (s : DiskStore) : Prop :=
  ∀ id item, s.items.lookup id = some item → ItemShape item defaultMaxItemBytes

theorem Shaped.without (h : Shaped s) (id : Bytes) (item : StoredItem) :
    Shaped (s.without id item) := by
  intro k i hk
  change (s.items.erase id).lookup k = some i at hk
  rw [GoMap.lookup_erase_eq] at hk
  split at hk
  · cases hk
  · exact h k i hk

theorem Shaped.put (h : Shaped s) (now : Time) (item : StoredItem) : Shaped (s.put now item).2 := by
  obtain ⟨e, hput⟩ | ⟨hput, -⟩ | ⟨data, hput, -, hvalid, -⟩ :=
    Node.put_cases s now item
  · rw [hput]
    exact h
  · rw [hput]
    exact h
  · rw [hput]
    intro k i hk
    change (s.items.insert item.itemID item).lookup k = some i at hk
    rw [GoMap.lookup_insert_eq] at hk
    split at hk
    · obtain rfl := Option.some.inj hk
      exact ((validateItem_ok_iff _ _ _).mp hvalid).1
    · exact h k i hk

theorem Shaped.sweepLoop (now : Time) (order : List Bytes) (hinv : StoreInv s) (h : Shaped s) :
    Shaped (sweepLoop now order s).2 := by
  induction order generalizing s with
  | nil => exact h
  | cons id order ih =>
    rw [sweepLoop]
    split
    · exact ih hinv h
    · rename_i item hitem
      split
      · exact ih hinv h
      · rw [removeItem_ok hinv hitem]
        exact ih (hinv.without hitem) (h.without id item)

theorem shaped_of_open {dir : Bytes} {d d' : Disk} {now : Time} {capacity routeQuota : Int}
    (hopen : newDiskStore dir d now capacity routeQuota = (.ok s, d')) : Shaped s := by
  obtain ⟨e, d1, heq, -⟩ | ⟨d1, s1, heq, -, -, -, hload⟩ :=
    newDiskStore_cases dir d now capacity routeQuota
  · rw [heq] at hopen
    cases hopen
  · rw [heq] at hopen
    obtain rfl := Except.ok.inj (Prod.mk.inj hopen).1
    have hstart : LoadRead now d1 (empty d1 capacity routeQuota) :=
      ⟨fun _ _ h => h, fun id item h => by simp [empty] at h⟩
    have hread : LoadRead now d1 s1 := hload ▸ hstart.foldl _
    exact fun id item hitem => ((validateItem_ok_iff _ _ _).mp (hread.read id item hitem).2).1

/-- No call brings in an item that is not valid. -/
theorem Shaped.step {s' : DiskStore} {op : Node.Op} (hinv : StoreInv s) (h : Shaped s)
    (hstep : Node.Step s op s') : Shaped s' := by
  obtain ⟨-, rfl⟩ := hstep
  cases op with
  | put now item => exact h.put now item
  | delete itemID =>
    change Shaped (s.delete itemID).2
    unfold delete
    split
    · exact h
    · split
      · exact h
      · rename_i item hitem
        rw [removeItem_ok hinv hitem]
        exact h.without itemID item
  | sweep now order =>
    change Shaped (s.sweep now order).2
    unfold sweep
    split
    · exact h
    · exact Shaped.sweepLoop now order hinv h
  | close => exact h
  | restart dir now capacity routeQuota =>
    rw [Node.exec]
    split
    · rename_i s1 d1 hopen
      exact shaped_of_open hopen
    · exact h

/-- From any directory, through any calls. -/
theorem reachable_shaped {dir : Bytes} {d d' : Disk} {now : Time} {capacity routeQuota : Int}
    {s₀ s : DiskStore} {ops : List Node.Op}
    (hopen : newDiskStore dir d now capacity routeQuota = (.ok s₀, d'))
    (hrun : Run Node.Step s₀ ops s) : StoreInv s ∧ Shaped s := by
  refine hrun.invariant (I := fun s => StoreInv s ∧ Shaped s) (fun s op s' h hstep => ?_)
    ⟨newDiskStore_inv hopen, shaped_of_open hopen⟩
  exact ⟨Node.Step.inv h.1 hstep, h.2.step h.1 hstep⟩

/-! ## Answers to a fetch -/

/-- The limits of a checked configuration. -/
theorem server_limits (srv : Server) :
    (0 < srv.config.maxFetchItems ∧ srv.config.maxFetchItems ≤ defaultMaxFetchItems) ∧
      0 < srv.config.maxFetchBytes ∧ srv.config.maxFetchBytes ≤ defaultMaxFetchBytes := by
  have hvalid := srv.valid
  simp only [Config.validate, Bool.not_eq_true', Bool.or_eq_false_iff, decide_eq_false_iff_not,
    not_le, not_lt] at hvalid
  obtain ⟨⟨⟨⟨⟨⟨⟨-, hi⟩, hi'⟩, hb⟩, hb'⟩, -⟩, -⟩, -⟩ := hvalid
  exact ⟨⟨hi, hi'⟩, hb, hb'⟩

section

variable {srv : Server} {s : DiskStore} {r : Request} {clock : Time} {order : DiskStore.FetchOrder}
  {items : List StoredItem}

/-- What a node sends is in its store, and within the limits. -/
theorem handleFetch_within (hinv : StoreInv s) (h : Shaped s) (hvisits : order.Visits s)
    (hreply : srv.handleFetch s r clock order = .fetched items) :
    (∀ item ∈ items, s.items.lookup item.itemID = some item) ∧
      (items.length : Int) ≤ srv.config.maxFetchItems ∧
      (((items.map fun item => item.payload.length).sum : Nat) : Int) ≤ srv.config.maxFetchBytes := by
  unfold Server.handleFetch at hreply
  split at hreply
  · cases hreply
  rename_i request _
  split at hreply
  · cases hreply
  rename_i hcount
  split at hreply
  · cases hreply
  dsimp only at hreply
  split at hreply
  · cases hreply
  rename_i htruncated
  obtain rfl := Reply.fetched.inj hreply
  obtain ⟨⟨hitems, -⟩, hbytes, -⟩ := server_limits srv
  have hopen : s.closed = false := by
    by_contra hclosed
    rw [Bool.not_eq_false] at hclosed
    exact htruncated (by rw [fetchLimited, if_pos hclosed])
  have hmemory : ∑ id ∈ s.items.keys, (s.payloadSize id : Int) ≤ maxInt64 :=
    payloads_le hinv.count fun id item hitem => by exact_mod_cast (h id item hitem).size
  have hsome : request.routeTags ≠ [] := by
    rintro hnil
    simp [hnil] at hcount
  obtain ⟨acc, hcall, hwhole, hcut⟩ := fetchLimited_spec hinv.toIndexInv hopen hmemory
    hvisits hsome (by omega) hitems hbytes
  rw [hcall] at htruncated ⊢
  have hwithin : s.Within srv.config.maxFetchItems srv.config.maxFetchBytes
      (s.liveIDs clock request.routeTags) := by
    by_contra hnot
    exact htruncated (hcut hnot)
  obtain ⟨hnodup, hmem⟩ := (hwhole hwithin).result hinv.toIndexInv
  have hperm := order.arrange_perm acc.items
  rw [← (hperm.map _).nodup_iff] at hnodup
  simp only [← hperm.mem_iff] at hmem
  generalize order.arrange acc.items = items at *
  have hheld : ∀ item ∈ items, s.items.lookup item.itemID = some item :=
    fun item hitem => ((hmem item).mp hitem).1
  have hsub : (items.map (·.itemID)).toFinset ⊆ s.liveIDs clock request.routeTags := by
    intro id hid
    obtain ⟨item, hitem, rfl⟩ := mem_map.mp (mem_toFinset.mp hid)
    obtain ⟨hlookup, hroute, hlive⟩ := (hmem item).mp hitem
    refine Finset.mem_filter.mpr ⟨Finset.mem_biUnion.mpr ⟨item.routeTag,
      mem_toFinset.mpr hroute, (hinv.routed _ _).mpr ⟨item, hlookup, rfl⟩⟩, ?_⟩
    rwa [live, GoMap.getD, hlookup]
  obtain ⟨hcard, hsum⟩ := hwithin.mono hsub
  refine ⟨hheld, ?_, ?_⟩
  · rwa [toFinset_card_of_nodup hnodup, length_map] at hcard
  · rw [sum_toFinset _ hnodup, map_map] at hsum
    refine le_of_eq_of_le ?_ hsum
    rw [Nat.cast_list_sum, map_map]
    refine congrArg sum (map_congr_left fun item hitem => ?_)
    rw [Function.comp_apply, Function.comp_apply, payloadSize, GoMap.getD, hheld item hitem]
    rfl

/-- Each item of an answer costs four bytes of text for three of payload, and its overhead. -/
theorem sum_items_le (items : List StoredItem) :
    3 * (items.map fun item => 4 * ((item.payload.length + 2) / 3) + itemOverhead + 1).sum ≤
      4 * (items.map fun item => item.payload.length).sum +
        items.length * (3 * itemOverhead + 11) := by
  induction items with
  | nil => exact le_rfl
  | cons item items ih =>
    simp only [map_cons, sum_cons, length_cons]
    rw [Nat.add_mul]
    omega

/-- An answer is one the client takes, with the newline the encoder adds. -/
theorem length_fetched_le (hinv : StoreInv s) (h : Shaped s) (hvisits : order.Visits s)
    (hreply : srv.handleFetch s r clock order = .fetched items) :
    (encodeJSON fetchResponseCodec ⟨items⟩).length ≤ postJSONLimit := by
  obtain ⟨hheld, hcount, hbytes⟩ := handleFetch_within hinv h hvisits hreply
  obtain ⟨⟨-, hmaxItems⟩, -, hmaxBytes⟩ := server_limits srv
  unfold encodeJSON
  split
  · rename_i text htext
    have hwritten : ∀ item ∈ items,
        storedItemCodec.AtMost item (4 * ((item.payload.length + 2) / 3) + itemOverhead) := by
      intro item hitem
      obtain ⟨j, hj, -⟩ := Option.map_eq_some_iff.mp htext
      have hlist : (listCodec storedItemCodec StoredItem.zero).Writes items :=
        structCodec_writes_field ⟨j, hj⟩ (mem_singleton_self _)
      obtain ⟨data, hdata⟩ := (listCodec_writes_elem hlist hitem).marshal
      obtain ⟨⟨created, hc⟩, expires, he⟩ := storedItem_marshal_times hdata
      exact item_atMost (h _ item (hheld item hitem)) hc he
    obtain ⟨text', htext', hlength⟩ := marshal_atMost (fetchResponseCodec_atMost hwritten)
    obtain rfl := Option.some.inj (htext.symm.trans htext')
    have hsum := sum_items_le items
    have hover : items.length * (3 * itemOverhead + 11) ≤
        defaultMaxFetchItems * (3 * itemOverhead + 11) := Nat.mul_le_mul_right _ (by omega)
    have hpayload : (items.map fun item => item.payload.length).sum ≤ defaultMaxFetchBytes := by omega
    unfold itemOverhead at hover hsum hlength
    unfold defaultMaxFetchItems at hover
    unfold defaultMaxFetchBytes at hpayload
    unfold postJSONLimit
    rw [length_append, length_singleton]
    omega
  · exact Nat.zero_le _

end

/-! ## Storing -/

section

variable {item : StoredItem} {m : Int} {data : Bytes} (h : ItemShape item m)

include h

variable (hdata : marshal storedItemCodec item = some data)

include hdata

theorem length_stored_le : data.length ≤ maxStoredItemEncodingBytes := by
  have hlength := length_item_le_double h hdata
  have hbound := h.bound.2
  unfold maxStoredItemEncodingBytes
  omega

omit hdata in
/-- An item within the limits is not found to be too large. -/
theorem validateItem_not_large (now : Time) :
    validateItem item now defaultMaxItemBytes ≠ .error .itemTooLarge := by
  have hsize := h.size.trans h.bound.2
  have hpos := length_pos_iff.mpr h.nonempty
  unfold validateItem
  rw [if_neg (by decide)]
  split
  · simp
  rw [if_neg (by omega)]
  split
  · simp
  split
  · simp
  split
  · simp
  · simp

/-- `Put` may refuse such an item for many reasons, but not for its text. -/
theorem put_not_refused (s : DiskStore) (clock : Time) :
    (s.put clock item).1 ≠ .error .encoding ∧ (s.put clock item).1 ≠ .error (.item .itemTooLarge) := by
  have hlarge := validateItem_not_large h clock
  have hlength := length_stored_le h hdata
  unfold put
  split
  · simp
  split
  · rename_i e he
    rw [he] at hlarge
    exact ⟨by simp, fun heq => hlarge (by rw [StoreError.item.inj (Except.error.inj heq)])⟩
  split
  · simp
  rw [hdata]
  dsimp only
  rw [if_neg (not_lt.mpr hlength)]
  split
  · simp
  split
  · simp
  unfold path writePrivateAtomic
  split
  · split at *
    · cases ‹_›
    · obtain rfl := Except.error.inj ‹_›
      simp
  · split
    · rename_i hwrite
      split at hwrite
      · obtain ⟨he, -⟩ := Prod.mk.inj hwrite
        obtain rfl := Except.error.inj he
        simp
      · cases hwrite
    · simp

theorem acceptableFile_of_stored : acceptableFile ⟨.regular, 0o600, data⟩ = true := by
  have hlength := length_stored_le h hdata
  have hpos := marshal_storedItem_nonempty hdata
  simp [acceptableFile, File.isPrivate, hpos, hlength]

end

/-- The limits of a node and the client, for every checked configuration. Whatever a store has been
    through, an answer to a fetch is no longer than the client takes. The text of a valid item fits
    into a request. A valid item whose times have a text is stored and read again whatever its
    length is. -/
theorem wire_sizes (srv : Server) :
    (∀ (dir : Bytes) (d d' : Disk) (now : Time) (capacity routeQuota : Int) (s₀ s : DiskStore)
        (ops : List Node.Op), newDiskStore dir d now capacity routeQuota = (.ok s₀, d') →
      Run Node.Step s₀ ops s →
      ∀ r clock order items, order.Visits s → srv.handleFetch s r clock order = .fetched items →
        (encodeJSON fetchResponseCodec ⟨items⟩).length ≤ postJSONLimit) ∧
    (∀ item now body, validateItem item now srv.config.maxItemBytes = .ok () →
      marshal storedItemCodec item = some body →
      (body.length : Int) ≤ srv.config.maxItemBytes * 2 + 64 * 1024) ∧
    ∀ item now m, validateItem item now m = .ok () →
      (∃ text, item.createdAt.marshalText = some text) →
      (∃ text, item.expiresAt.marshalText = some text) →
      ∃ data, marshal storedItemCodec item = some data ∧
        data.length ≤ maxStoredItemEncodingBytes ∧
        DiskStore.acceptableFile ⟨.regular, 0o600, data⟩ = true ∧
        ∀ s clock, (DiskStore.put s clock item).1 ≠ .error .encoding ∧
          (DiskStore.put s clock item).1 ≠ .error (.item .itemTooLarge) := by
  refine ⟨?_, ?_, ?_⟩
  · intro dir d d' now capacity routeQuota s₀ s ops hopen hrun r clock order items hvisits hreply
    obtain ⟨hinv, hshaped⟩ := reachable_shaped hopen hrun
    exact length_fetched_le hinv hshaped hvisits hreply
  · intro item now body hvalid hbody
    exact length_item_le_double ((validateItem_ok_iff _ _ _).mp hvalid).1 hbody
  · rintro item now m hvalid ⟨created, hc⟩ ⟨expires, he⟩
    obtain ⟨hshape, -, -⟩ := (validateItem_ok_iff _ _ _).mp hvalid
    obtain ⟨data, hdata⟩ := (storedItemCodec_writes hc he).marshal
    exact ⟨data, hdata, length_stored_le hshape hdata, acceptableFile_of_stored hshape hdata,
      put_not_refused hshape hdata⟩

theorem wire_sizes_early : ∃ data, marshal storedItemCodec earlyItem = some data ∧
    (data.length : Int) ≤ sampleSetup.config.maxItemBytes * 2 + 64 * 1024 ∧
    data.length ≤ maxStoredItemEncodingBytes := by
  have hvalid := @Node.sample_valid 0 (.inl rfl) 1024 (.inl rfl)
  obtain ⟨-, hbody, hstored⟩ := wire_sizes sampleSetup.toServer
  obtain ⟨data, hdata, hlength, -⟩ := hstored earlyItem Time.epoch 1024 hvalid ⟨_, rfl⟩ ⟨_, rfl⟩
  exact ⟨data, hdata, hbody earlyItem Time.epoch data hvalid hdata, hlength⟩

/-- The sample item with its creation shown a whole day ahead of UTC. -/
def zonedItem : StoredItem := { earlyItem with createdAt := ⟨Time.unixEpoch, 86400⟩ }

/-- Reading a time allows an offset of 24 hours, writing one does not: the item is valid and cannot
    be stored. -/
theorem put_refuses_zoned :
    Time.parse (lit "1970-01-02T00:00:00+24:00") = some zonedItem.createdAt ∧
    validateItem zonedItem Time.epoch defaultMaxItemBytes = .ok () ∧
    marshal storedItemCodec zonedItem = none ∧
    sampleStore.put Time.epoch zonedItem = (.error .encoding, sampleStore) := by
  obtain ⟨hshape, hcreated, hexpires⟩ := (validateItem_ok_iff _ _ _).mp
    (@Node.sample_valid 0 (.inl rfl) defaultMaxItemBytes (.inr rfl))
  have hvalid : validateItem zonedItem Time.epoch defaultMaxItemBytes = .ok () :=
    (validateItem_ok_iff _ _ _).mpr ⟨⟨hshape.version, hshape.route, hshape.hash, hshape.nonempty,
      hshape.size, hshape.bound, hshape.retention, hshape.id⟩, hcreated, hexpires⟩
  have hnone : marshal storedItemCodec zonedItem = none := by
    rw [Option.eq_none_iff_forall_not_mem]
    intro data hdata
    obtain ⟨⟨text, htext⟩, -⟩ := storedItem_marshal_times hdata
    have hunwritten : zonedItem.createdAt.marshalText = none := by decide
    cases hunwritten.symm.trans htext
  refine ⟨by decide +kernel, hvalid, hnone, ?_⟩
  unfold DiskStore.put
  rw [if_neg (by decide), hvalid]
  dsimp only
  rw [if_neg (by decide), hnone]

end Veilmesh.Client

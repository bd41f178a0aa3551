/-
  A delivery that was kept can be loaded again.

  The local record of a delivery has times in whole milliseconds of UTC, the delivery in it
  has those of the item. `LoadDelivery` compares the two exactly, so a delivery comes back
  if and only if the item's times are what the record and the JSON text can show.

  * `deliveryCodec_reads`: what is read from the text of a delivery.
  * `storeReplicated_keeps`: what a call leaves in the store.
  * `loadDelivery_iff`: which deliveries come back, and that they come back as they were.
-/
import Veilmesh.Client.Quorum
import Veilmesh.Client.ReadBack

namespace Veilmesh.Client

open Lib Protocol Pqcrypto List Option
open Node (File FileKind Disk)

/-! ## The text of a delivery -/

theorem wfMembers_append {ms ms' : List (Bytes × Json)} (h : Json.WFMembers ms)
    (h' : Json.WFMembers ms') : Json.WFMembers (ms ++ ms') := by
  induction ms with
  | nil => exact h'
  | cons m ms ih => exact ⟨h.1, h.2.1, ih h.2.2⟩

/-- A receipt that its text shows as it is. -/
def StorageReceipt.Plain (r : StorageReceipt) : Prop :=
  Json.Plain r.nodeID ∧ Json.Plain r.itemID ∧ r.Minutes

/-- The text of a delivery gives back the token, the receipts and the item as it is shown. -/
theorem deliveryCodec_reads {d : Delivery} (hid : Json.Plain d.item.itemID)
    (hroute : Json.Plain d.item.routeTag) (hr : ∀ r ∈ d.receipts, StorageReceipt.Plain r)
    {data : Bytes} (h : marshal deliveryCodec d = some data) :
    ∃ d', unmarshal deliveryCodec Delivery.zero data = some d' ∧ d'.item = d.item.shown ∧
      d'.deleteToken = d.deleteToken ∧ d'.receipts = d.receipts := by
  have hnames : NamesOk deliveryFields := ⟨by decide, by decide⟩
  obtain ⟨j, hj, rfl⟩ := map_eq_some_iff.mp h
  -- the three members that are always there
  have hthree := decode_members hnames d { d with item := d.item.shown } (deliveryFields.take 3)
    (fun f hf => mem_of_mem_take hf) (by
      intro f hf
      simp only [deliveryFields, take_succ_cons, take_zero, mem_cons, not_mem_nil, or_false] at hf
      rcases hf with rfl | rfl | rfl
      · exact storedItemCodec_reads hid hroute
      · exact bytesCodec_roundtrips _
      · exact listCodec_roundtrips fun r hmem =>
          storageReceiptCodec_roundtrips (hr r hmem).1 (hr r hmem).2.1 (hr r hmem).2.2)
  obtain ⟨ms, hms, rfl⟩ := map_eq_some_iff.mp hj
  suffices hread : Json.WFMembers ms ∧ ∃ d', ms.foldlM (decodeMember deliveryFields) Delivery.zero =
      some d' ∧ d'.item = d.item.shown ∧ d'.deleteToken = d.deleteToken ∧
      d'.receipts = d.receipts by
    obtain ⟨hwf, d', hd', hrest⟩ := hread
    refine ⟨d', ?_, hrest⟩
    rw [unmarshal, Json.parse_render (.obj ms) hwf, bind_some]
    exact hd'
  split at hms
  · obtain ⟨hwf, hdec⟩ := hthree ms hms
    exact ⟨hwf, _, hdec _, rfl, rfl, rfl⟩
  · rw [← take_append_drop 3 deliveryFields, mapM_append] at hms
    obtain ⟨first, hfirst, hms⟩ := bind_eq_some_iff.mp hms
    obtain ⟨last, hlast, hms⟩ := bind_eq_some_iff.mp hms
    obtain rfl := Option.some.inj hms
    obtain ⟨hwf, hdec⟩ := hthree first hfirst
    -- and the map of failed nodes, which is read as some map
    obtain ⟨k, hk, rfl⟩ : ∃ k, (mapCodec stringCodec []).encode d.failedNodes = some k ∧
        last = [(lit "failed_nodes", k)] := by
      obtain ⟨m, hm, hlast⟩ := bind_eq_some_iff.mp hlast
      obtain ⟨j, hj, rfl⟩ := map_eq_some_iff.mp hm
      exact ⟨j, hj, (Option.some.inj hlast).symm⟩
    obtain ⟨hwfj, hmap⟩ := mapCodec_readable (fun k v _ => ⟨_, stringCodec_reads v⟩) hk
    refine ⟨wfMembers_append hwf ⟨Json.strOk_of_plain (by decide), hwfj, trivial⟩, ?_⟩
    rw [foldlM_append, hdec]
    obtain ⟨m', hm'⟩ := hmap (∅ : GoMap Bytes Bytes)
    have hmember : decodeMember deliveryFields
        ⟨d.item.shown, d.deleteToken, d.receipts, ∅⟩ (lit "failed_nodes", k) =
          some ⟨d.item.shown, d.deleteToken, d.receipts, m'⟩ := by
      refine (decodeMember_name hnames (f := deliveryFields[3]) (by simp [deliveryFields]) _ k).trans ?_
      exact congrArg (Option.map _) hm'
    refine ⟨⟨d.item.shown, d.deleteToken, d.receipts, m'⟩, ?_, rfl, rfl, rfl⟩
    refine bind_eq_some_iff.mpr ⟨_, rfl, ?_⟩
    rw [foldlM_cons]
    exact bind_eq_some_iff.mpr ⟨_, hmember, rfl⟩

/-! ## Keeping -/

section

variable {c : Primitives} {a : Aead} {core core' : Core c} {env : StoreEnv} {item : StoredItem}
  {deleteToken : Bytes} {delivery : Delivery}

theorem persistDelivery_put {texts : JsonTexts} {ctx : Context} {now : Time} {nonce encoded : Bytes}
    {s s' : EncryptedDiskStore} {report : PruneReport} (hstore : core.store = some s)
    (hencoded : marshal deliveryCodec delivery = some encoded)
    (hput : s.put a ctx (Core.deliveryRecord delivery encoded now) now nonce = ((report, none), s')) :
    core.persistDelivery a texts ctx delivery now nonce = (none, { core with store := some s' }) := by
  simp only [Core.persistDelivery, hstore, hencoded, hput, map_none]

theorem persistDelivery_ok {texts : JsonTexts} {ctx : Context} {now : Time} {nonce : Bytes}
    {s : EncryptedDiskStore} (hstore : core.store = some s)
    (h : core.persistDelivery a texts ctx delivery now nonce = (none, core')) :
    ∃ encoded report s', marshal deliveryCodec delivery = some encoded ∧
      s.put a ctx (Core.deliveryRecord delivery encoded now) now nonce = ((report, none), s') ∧
      core'.store = some s' := by
  unfold Core.persistDelivery at h
  rw [hstore] at h
  dsimp only at h
  split at h
  · cases h
  · rename_i encoded hencoded
    obtain ⟨⟨report, err⟩, s', hput⟩ : ∃ x s',
        s.put a ctx (Core.deliveryRecord delivery encoded now) now nonce = (x, s') := ⟨_, _, rfl⟩
    rw [hput] at h
    obtain ⟨herr, rfl⟩ := Prod.mk.inj h
    obtain rfl : err = none := map_eq_none_iff.mp herr
    exact ⟨encoded, report, s', hencoded, hput, rfl⟩

theorem Certified.node {nodes : List HTTPNode} {receipts : List StorageReceipt}
    (h : Certified c env item nodes receipts) {receipt : StorageReceipt} (hr : receipt ∈ receipts) :
    ∃ n ∈ nodes, HTTPNode.store c env.texts n item (env.stored n) (env.storedAt n) = .ok receipt := by
  induction h with
  | nil => cases hr
  | cons hstore _ ih =>
    obtain rfl | hr := mem_cons.mp hr
    · exact ⟨_, mem_cons_self, hstore⟩
    · obtain ⟨n, hn, hstore⟩ := ih hr
      exact ⟨n, mem_cons_of_mem _ hn, hstore⟩

/-- The receipts of a delivery are read back as they are. -/
theorem Placed.plain (h : Placed core env item deleteToken delivery) :
    Json.Plain delivery.item.itemID ∧ Json.Plain delivery.item.routeTag ∧
      ∀ r ∈ delivery.receipts, StorageReceipt.Plain r := by
  obtain ⟨hshape, -, -⟩ := (validateItem_ok_iff _ _ _).mp h.valid
  have hid : Json.Plain delivery.item.itemID := by
    rw [h.sameItem]
    exact hshape.id ▸ plain_hexEncode _
  refine ⟨hid, ?_, fun r hr => ?_⟩
  · rw [h.sameItem]
    exact validRouteTag_plain hshape.route
  · obtain ⟨-, nodes, -, hnodes, hcertified⟩ := h.receipts
    obtain ⟨n, hn, hstore⟩ := hcertified.node hr
    obtain ⟨hverify, hminutes⟩ := HTTPNode.store_ok hstore
    obtain ⟨hnode, hitem, -⟩ := verifyStorageReceipt_iff.mp hverify
    refine ⟨?_, hitem ▸ hid, hminutes⟩
    rw [hnode, (validPublicIdentity_iff.mp (core.valid n (hnodes n hn).1)).2.2.2.1]
    exact plain_nodeID _

end

/-! ## The record -/

/-- Whole milliseconds of UTC are the instant shown only for a time that has both. -/
theorem truncate_shown_iff (t : Time) :
    t.ns - t.ns % millisecond = t.shown.ns ↔ t.ns % millisecond = 0 ∧ t.off % 60 = 0 := by
  rw [← Time.shown_ns_eq_iff]
  constructor
  · intro h
    have hpos : (0 : Int) ≤ t.ns % millisecond := Int.emod_nonneg _ (by decide)
    have hlt : t.ns % millisecond < (1000000 : Int) := Int.emod_lt_of_pos _ (by decide)
    have hshown : t.shown.ns = t.ns + (t.off - Time.zoneMinutes t.off * 60) * (1000000000 : Int) := rfl
    constructor <;> omega
  · rintro ⟨hms, hshown⟩
    rw [hms, hshown, sub_zero]

/-- The record of a delivery, once valid, has the item's expiry in whole milliseconds of UTC. -/
theorem deliveryRecord_expires {delivery : Delivery} {encoded : Bytes} {now clock : Time}
    (h : validateLocalRecord (normalizeLocalRecord (Core.deliveryRecord delivery encoded now)) clock =
      .ok ()) :
    (normalizeLocalRecord (Core.deliveryRecord delivery encoded now)).expiresAt =
      delivery.item.expiresAt.utc.truncate millisecond := by
  have hrequired : (normalizeLocalRecord (Core.deliveryRecord delivery encoded now)).expiresAt.isZero =
      false := by
    unfold validateLocalRecord at h
    split at h
    · cases h
    · split at h
      · cases h
      · split at h
        · cases h
        · rename_i hreq
          exact Bool.eq_false_iff.mpr fun hzero => hreq ⟨rfl, hzero⟩
  change (if delivery.item.expiresAt.isZero then delivery.item.expiresAt
    else delivery.item.expiresAt.utc.truncate millisecond).isZero = false at hrequired
  change (if delivery.item.expiresAt.isZero then delivery.item.expiresAt
    else delivery.item.expiresAt.utc.truncate millisecond) = _
  split
  · rename_i hzero
    rw [if_pos hzero, hzero] at hrequired
    cases hrequired
  · rfl

/-! ## Loading -/

/-- The times a record of a delivery can say. -/
def StoredItem.Exact (item : StoredItem) : Prop :=
  item.createdAt.ns % millisecond = 0 ∧ item.createdAt.off % 60 = 0 ∧ item.expiresAt.off % 60 = 0

theorem StoredItem.Exact.shown {item : StoredItem} (h : StoredItem.Exact item) :
    item.shown = item := by
  rw [StoredItem.shown, Time.shown_of_minutes h.2.1, Time.shown_of_minutes h.2.2]

theorem StoredItem.Exact.expires {item : StoredItem} {maxBytes : Int} (h : StoredItem.Exact item)
    (hshape : ItemShape item maxBytes) : item.expiresAt.ns % millisecond = 0 := by
  have hday : fixedItemRetention % millisecond = 0 := by decide
  rw [hshape.retention, Int.add_emod, h.1, hday]
  rfl

section

variable {c : Primitives} {core : Core c} {env : StoreEnv} {item : StoredItem}
  {deleteToken : Bytes} {delivery loaded : Delivery} {encoded : Bytes} {now written clock : Time}

/-- The checks of a decoded delivery against its record come down to its times. -/
theorem loadedOk_iff (hplaced : Placed core env item deleteToken delivery)
    (hval : validateLocalRecord (normalizeLocalRecord (Core.deliveryRecord delivery encoded written))
      clock = .ok ())
    (hitem : loaded.item = delivery.item.shown) (htoken : loaded.deleteToken = delivery.deleteToken)
    (hnow : env.now.ns ≤ now.ns) (hexp : now.ns < item.expiresAt.ns) :
    Core.loadedOk (normalizeLocalRecord (Core.deliveryRecord delivery encoded written)) loaded
      item.itemID now = true ↔ StoredItem.Exact item := by
  obtain ⟨hshape, hpast, -⟩ := (validateItem_ok_iff _ _ _).mp hplaced.valid
  have hcreated : (normalizeLocalRecord (Core.deliveryRecord delivery encoded written)).createdAt.ns =
      item.createdAt.ns - item.createdAt.ns % millisecond := by
    rw [show item.createdAt = delivery.item.createdAt by rw [hplaced.sameItem]]
    exact Time.truncate_ns _ (by decide)
  have hexpires : (normalizeLocalRecord (Core.deliveryRecord delivery encoded written)).expiresAt.ns =
      item.expiresAt.ns - item.expiresAt.ns % millisecond := by
    rw [show item.expiresAt = delivery.item.expiresAt by rw [hplaced.sameItem],
      deliveryRecord_expires hval]
    exact Time.truncate_ns _ (by decide)
  have hshown : loaded.item = { item.shown with work := delivery.item.work } := by
    rw [hitem, hplaced.sameItem]
    rfl
  simp only [Core.loadedOk, Bool.and_eq_true, beq_iff_eq, Time.equal_iff, hcreated, hexpires,
    hshown, htoken, hplaced.sameToken, hplaced.token.1]
  constructor
  · rintro ⟨⟨⟨⟨-, hc⟩, he⟩, -⟩, -⟩
    exact ⟨((truncate_shown_iff _).mp hc).1, ((truncate_shown_iff _).mp hc).2,
      ((truncate_shown_iff _).mp he).2⟩
  · intro hexact
    have hvalid : validateItem item now defaultMaxItemBytes = .ok () :=
      (validateItem_ok_iff _ _ _).mpr ⟨hshape, hpast.trans (Int.add_le_add_right hnow _), hexp⟩
    refine ⟨⟨⟨⟨⟨rfl, ?_⟩, ?_⟩, ?_⟩, trivial⟩, hplaced.token.2⟩
    · rw [hexact.shown]
      simp only [show validateItem { item with work := delivery.item.work } now defaultMaxItemBytes =
        .ok () from hvalid]
    · exact (truncate_shown_iff _).mpr ⟨hexact.1, hexact.2.1⟩
    · exact (truncate_shown_iff _).mpr ⟨hexact.expires hshape, hexact.2.2⟩

theorem nodeByID_mem {n : HTTPNode} (hn : n ∈ core.nodes) :
    core.nodeByID n.identity.nodeID = some n := by
  obtain ⟨m, hm⟩ : ∃ m, core.nodeByID n.identity.nodeID = some m :=
    isSome_iff_exists.mp (List.find?_isSome.mpr ⟨n, hn, beq_self_eq_true _⟩)
  have hid : m.identity.nodeID = n.identity.nodeID := eq_of_beq (List.find?_some
    (p := fun m : HTTPNode => m.identity.nodeID == n.identity.nodeID) hm)
  rw [hm, inj_on_of_nodup_map core.distinct (mem_of_find?_eq_some hm) hn hid]

/-- Receipts that verify for different nodes of the core are accepted. -/
theorem checkReceipts_none {nodes : List HTTPNode} {receipts : List StorageReceipt}
    (h : List.Forall₂ (fun n r => verifyStorageReceipt c n.identity item r now = true) nodes receipts)
    (hnodes : ∀ n ∈ nodes, n ∈ core.nodes) (hnodup : (nodes.map (·.identity.nodeID)).Nodup)
    (seen : List Bytes) (hseen : ∀ n ∈ nodes, n.identity.nodeID ∉ seen) :
    core.checkReceipts item now seen receipts = none := by
  induction h generalizing seen with
  | nil => rfl
  | @cons n r nodes receipts hverify _ ih =>
    have hid : r.nodeID = n.identity.nodeID := (verifyStorageReceipt_iff.mp hverify).1
    obtain ⟨hnot, hnodup⟩ := nodup_cons.mp hnodup
    rw [Core.checkReceipts, hid, nodeByID_mem (hnodes n mem_cons_self)]
    simp only [hseen n mem_cons_self, hverify, if_false, Bool.true_eq_false]
    refine ih (fun m hm => hnodes m (mem_cons_of_mem _ hm)) hnodup _ fun m hm hmem => ?_
    rcases mem_cons.mp hmem with heq | hmem
    · exact hnot (mem_map.mpr ⟨m, hm, heq⟩)
    · exact hseen m (mem_cons_of_mem _ hm) hmem

/-- The receipts of a delivery verify at every later time. -/
theorem Placed.checkReceipts {core2 : Core c} (hplaced : Placed core env item deleteToken delivery)
    (hnodes : core2.nodes = core.nodes) (hlater : ∀ n ∈ core.nodes, (env.storedAt n).ns ≤ now.ns) :
    core2.checkReceipts delivery.item now [] delivery.receipts = none := by
  obtain ⟨-, nodes, hnodup, hmem, hcertified⟩ := hplaced.receipts
  have hin : ∀ n ∈ nodes, n ∈ core.nodes := fun n hn => (hmem n hn).1
  have hall : ∀ n r, n ∈ nodes ∧ HTTPNode.store c env.texts n delivery.item (env.stored n)
      (env.storedAt n) = .ok r → verifyStorageReceipt c n.identity delivery.item r now = true := by
    rintro n r ⟨hn, hstore⟩
    obtain ⟨h1, h2, h3, h4, h5, h6, h7, h8⟩ :=
      verifyStorageReceipt_iff.mp (HTTPNode.store_ok hstore).1
    exact verifyStorageReceipt_iff.mpr ⟨h1, h2, h3, h4, h5,
      h6.trans (Int.add_le_add_right (hlater n (hin n hn)) _), h7, h8⟩
  have hverify := ((List.forall₂_and_left _ _).mpr ⟨fun n hn => hn, hcertified⟩).imp hall
  exact checkReceipts_none hverify (fun n hn => hnodes ▸ hin n hn) hnodup []
    fun n _ => not_mem_nil

/-- The delivery is placed, and its record is in the store, with a text read as `read`. -/
structure Kept (a : Aead) (key : Bytes) (ids : Set Bytes) (core : Core c) (env : StoreEnv)
    (item : StoredItem) (deleteToken : Bytes) (delivery : Delivery) (s : EncryptedDiskStore)
    (f : File) (encoded : Bytes) (read : Delivery) : Prop where
  placed : Placed core env item deleteToken delivery
  valid : validateLocalRecord (normalizeLocalRecord (Core.deliveryRecord delivery encoded
    env.persistAt.utc)) env.persistAt.utc = .ok ()
  good : Good a False key ids s
  stored : Stored a key s f (normalizeLocalRecord (Core.deliveryRecord delivery encoded
    env.persistAt.utc))
  text : unmarshal deliveryCodec Delivery.zero encoded = some read
  item : read.item = delivery.item.shown
  token : read.deleteToken = delivery.deleteToken
  receipts : read.receipts = delivery.receipts

variable {a : Aead} {directory key : Bytes} {ids : Set Bytes} {s s' : EncryptedDiskStore} {f : File}
  {read : Delivery} {core2 : Core c} {texts : JsonTexts}

theorem storeReplicated_keeps {core1 : Core c} {fuel : Nat} {err : Option DeliveryError}
    (hsha : Set.InjOn sha256 (Set.image localRecordPath ids)) (hgood : Good a False key ids s)
    (hstore : core.store = some s) (hid : deliveryRecordID item.itemID ∈ ids)
    (hnonce : env.nonce.length = gcmNonceBytes)
    (hcall : core.storeReplicated a env item deleteToken fuel = some ((delivery, err), core1))
    (hreceipts : delivery.receipts ≠ []) (hkept : ∀ e ∈ err, e.persistence = none)
    (hstore1 : core1.store = some s') : ∃ f encoded read,
      Kept a key ids core env item deleteToken delivery s' f encoded read := by
  -- with receipts and no error of the store the delivery has been put there
  obtain ⟨rfl, -⟩ | ⟨hplaced, ⟨hnone, -⟩ | ⟨core', failure, -, hcore', hpersist, herr⟩⟩ :=
    storeReplicated_cases hcall
  · exact absurd rfl hreceipts
  · exact absurd hnone hreceipts
  obtain rfl : failure = none := by
    cases failure with
    | none => rfl
    | some e =>
      split at herr
      · exact hkept _ herr
      · exact absurd (hkept _ herr) (some_ne_none e)
  obtain ⟨encoded, report, s', hencoded, hput, hs'⟩ :=
    persistDelivery_ok (hcore'.trans hstore) hpersist
  obtain rfl := Option.some.inj (hs'.symm.trans hstore1)
  have hrecordID : (Core.deliveryRecord delivery encoded env.persistAt.utc).id =
      deliveryRecordID item.itemID := congrArg deliveryRecordID (by rw [hplaced.sameItem])
  obtain ⟨hval, hgood1, f, hst⟩ := put_stored hsha hgood hnonce (hrecordID ▸ hid) hput
  have hoff : (delivery.item.expiresAt.utc.truncate millisecond).off % 60 = 0 := by
    rw [Time.truncate_off]
    rfl
  rw [LocalRecord.shown, deliveryRecord_expires hval, Time.shown_of_minutes hoff,
    ← deliveryRecord_expires hval] at hst
  obtain ⟨hplainID, hroute, hplain⟩ := hplaced.plain
  obtain ⟨read, hread, hitem, htoken, hreceipts⟩ :=
    deliveryCodec_reads hplainID hroute hplain hencoded
  exact ⟨f, encoded, read, hplaced, hval, hgood1, hst, hread, hitem, htoken, hreceipts⟩

namespace Kept

variable (h : Kept a key ids core env item deleteToken delivery s f encoded read)
include h

theorem recordID :
    (normalizeLocalRecord (Core.deliveryRecord delivery encoded env.persistAt.utc)).id =
      deliveryRecordID item.itemID :=
  congrArg deliveryRecordID (by rw [h.placed.sameItem])

/-- What was read is the delivery itself if its times are exact. -/
theorem read_item (hexact : StoredItem.Exact item) : read.item = delivery.item := by
  rw [h.item, h.placed.sameItem]
  exact congrArg (fun i : StoredItem => { i with work := delivery.item.work }) hexact.shown

variable (hstore : core2.store = some s') (hnodes : core2.nodes = core.nodes)
  (hzero : now.isZero = false) (hnow : env.now.ns ≤ now.ns)
  (hstored : ∀ n ∈ core.nodes, (env.storedAt n).ns ≤ now.ns) (hexp : now.ns < item.expiresAt.ns)
include hstore hnodes hzero hnow hstored hexp

/-- Loading once the record is found. -/
theorem load_iff (hget : s'.get a .background (deliveryRecordID item.itemID) clock =
      .ok (normalizeLocalRecord (Core.deliveryRecord delivery encoded env.persistAt.utc))) :
    core2.loadDelivery a texts .background item.itemID now clock = .ok loaded ↔
      StoredItem.Exact item ∧ loaded = read := by
  obtain ⟨hshape, -, -⟩ := (validateItem_ok_iff _ _ _).mp h.placed.valid
  have hlen : item.itemID.length = 32 * 2 := by
    rw [hshape.id, computeItemID, length_hexEncode, length_sha256]
  have hchecks := loadedOk_iff h.placed h.valid h.item h.token hnow hexp
  have hid := h.recordID
  have hpayload : (normalizeLocalRecord (Core.deliveryRecord delivery encoded
      env.persistAt.utc)).payload = encoded := rfl
  unfold Core.loadDelivery
  rw [hstore]
  dsimp only
  rw [if_neg (by simp [hlen, hzero]), hget]
  dsimp only
  rw [if_neg, hpayload, h.text]
  · dsimp only
    split
    · rename_i hbad
      rw [← hchecks, hbad]
      exact ⟨by rintro ⟨⟩, fun h => Bool.noConfusion h.1⟩
    · rename_i hgood
      have hexact : StoredItem.Exact item := hchecks.mp (Bool.eq_true_of_not_eq_false hgood)
      rw [h.read_item hexact, h.receipts, h.placed.checkReceipts hnodes hstored]
      exact ⟨fun h => ⟨hexact, (Except.ok.inj h).symm⟩, fun h => congrArg Except.ok h.2.symm⟩
  · rw [not_or, not_or, not_or]
    exact ⟨not_not.mpr rfl, not_not.mpr hid, not_not.mpr rfl, not_not.mpr rfl⟩

variable (hsha : Set.InjOn sha256 (Set.image localRecordPath ids)) {es : List StoreEvent}
  (hrun : Run (Step a directory key) s es s') (hwithin : ∀ e ∈ es, e.Within ids)
  (hown : ∀ e ∈ es, e.target ≠ some (deliveryRecordID item.itemID))
include hsha hrun hwithin hown

/-- What is found under the ID of the record, after any calls that are not about it, is the
    record; so what is loaded is what was read from its text. -/
theorem of_load (hid : deliveryRecordID item.itemID ∈ ids)
    (hload : core2.loadDelivery a texts .background item.itemID now clock = .ok loaded) :
    StoredItem.Exact item ∧ loaded = read := by
  obtain ⟨record, hget⟩ : ∃ record, s'.get a .background (deliveryRecordID item.itemID) clock =
      .ok record := by
    unfold Core.loadDelivery at hload
    rw [hstore] at hload
    dsimp only at hload
    split at hload
    · cases hload
    split at hload
    · cases hload
    · rename_i record hget
      exact ⟨record, hget⟩
  have hgood : Good a False key ids s' := run_good hsha hrun hwithin (fun hf => hf.elim) h.good
  obtain ⟨g, hg, hopens⟩ := get_file hgood hget
  have hg1 := run_file hsha hid (hrun.guard fun e he t => e.not_replaces t (hown e he)) hwithin
    h.good hg
  rw [← h.recordID] at hg1 hopens
  obtain rfl := Option.some.inj (h.stored.file.symm.trans hg1)
  obtain rfl := Except.ok.inj (h.stored.opens.symm.trans hopens)
  exact (h.load_iff hstore hnodes hzero hnow hstored hexp hget).mp hload

omit hstore hnodes hzero hnow hstored hexp in
/-- A record with exact times is there until it expires. -/
theorem get (hexact : StoredItem.Exact item)
    (hbefore : ∀ e ∈ es, ∀ t ∈ e.now, t.ns < item.expiresAt.ns) (hopen : s'.closed = false)
    (hclock : env.persistAt.ns ≤ clock.ns) :
    s'.get a .background (deliveryRecordID item.itemID) clock =
      .ok (normalizeLocalRecord (Core.deliveryRecord delivery encoded env.persistAt.utc)) := by
  have hshape := ((validateItem_ok_iff _ _ _).mp h.placed.valid).1
  have hexpires : (normalizeLocalRecord (Core.deliveryRecord delivery encoded
      env.persistAt.utc)).expiresAt.ns = item.expiresAt.ns := by
    have hsame : delivery.item.expiresAt = item.expiresAt := by rw [h.placed.sameItem]
    have hns : (item.expiresAt.utc.truncate millisecond).ns =
        item.expiresAt.ns - item.expiresAt.ns % millisecond := Time.truncate_ns _ (by decide)
    rw [deliveryRecord_expires h.valid, hsame, hns, hexact.expires hshape, sub_zero]
  have hsafe : ∀ e ∈ es, ∀ t ∈ e.now,
      (normalizeLocalRecord (Core.deliveryRecord delivery encoded env.persistAt.utc)).Safe t := by
    intro e he t ht
    refine .inr ⟨(by decide : pruneAfterExpiry ≠ pruneOldest), .inr ?_⟩
    rw [Time.after_iff, hexpires]
    exact hbefore e he t ht
  obtain ⟨hgood, hst⟩ := run_stored hsha hrun hwithin hsafe
    (fun e he => h.recordID ▸ hown e he) h.good h.stored
  exact h.recordID ▸ hst.get hgood hopen (by simp) rfl (validateLocalRecord_later h.valid hclock)

end Kept

/-- A delivery that was kept is loaded again before its item expires, through any calls on the
    store and any new openings of it, if and only if the item's times are in whole milliseconds
    and whole minutes of their offset; and it is loaded as it was. -/
theorem loadDelivery_iff (c : Primitives) (a : Aead) (directory key : Bytes) {d : Disk}
    {ids : Set Bytes} (hsha : Set.InjOn sha256 (Set.image localRecordPath ids))
    (hknown : Known a key ids d) {es es' : List StoreEvent} {s s1 s2 : EncryptedDiskStore}
    (hwithin : ∀ e ∈ es ++ es', e.Within ids) (hrun : Run (Step a directory key) (shut d) es s)
    -- the call that stores the item and keeps the delivery
    (core core1 : Core c) (env : StoreEnv) (item : StoredItem) (deleteToken : Bytes) (fuel : Nat)
    (delivery : Delivery) (err : Option DeliveryError) (hstore : core.store = some s)
    (hid : deliveryRecordID item.itemID ∈ ids) (hnonce : env.nonce.length = gcmNonceBytes)
    (hcall : core.storeReplicated a env item deleteToken fuel = some ((delivery, err), core1))
    (hreceipts : delivery.receipts ≠ []) (hkept : ∀ e ∈ err, e.persistence = none)
    -- what happens to the store before the delivery is loaded
    (hstore1 : core1.store = some s1) (hrun' : Run (Step a directory key) s1 es' s2)
    (hown : ∀ e ∈ es', e.target ≠ some (deliveryRecordID item.itemID))
    (hbefore : ∀ e ∈ es', ∀ t ∈ e.now, t.ns < item.expiresAt.ns) (hopen : s2.closed = false)
    -- the core and the times of loading
    (core2 : Core c) (hnodes : core2.nodes = core.nodes) (hstore2 : core2.store = some s2)
    (texts : JsonTexts) (now clock : Time) (hzero : now.isZero = false) (hnow : env.now.ns ≤ now.ns)
    (hstored : ∀ n ∈ core.nodes, (env.storedAt n).ns ≤ now.ns) (hexp : now.ns < item.expiresAt.ns)
    (hclock : env.persistAt.ns ≤ clock.ns) :
    ((∃ loaded, core2.loadDelivery a texts .background item.itemID now clock = .ok loaded) ↔
      item.createdAt.ns % millisecond = 0 ∧ item.createdAt.off % 60 = 0 ∧
        item.expiresAt.off % 60 = 0) ∧
    ∀ loaded, core2.loadDelivery a texts .background item.itemID now clock = .ok loaded →
      loaded.item = delivery.item ∧ loaded.deleteToken = deleteToken ∧
        loaded.receipts = delivery.receipts := by
  have hgood : Good a False key ids s := run_good hsha hrun
    (fun e he => hwithin e (List.mem_append_left _ he)) (fun hf => hf.elim) (good_shut hknown)
  obtain ⟨f, encoded, read, h⟩ :=
    storeReplicated_keeps hsha hgood hstore hid hnonce hcall hreceipts hkept hstore1
  have hwithin' : ∀ e ∈ es', e.Within ids := fun e he => hwithin e (List.mem_append_right _ he)
  refine ⟨⟨fun ⟨loaded, hload⟩ => ?_, fun hexact => ⟨read, ?_⟩⟩, fun loaded hload => ?_⟩
  · exact (h.of_load hstore2 hnodes hzero hnow hstored hexp hsha hrun' hwithin' hown hid hload).1
  · have hget := h.get hsha hrun' hwithin' hown hexact hbefore hopen hclock
    exact (h.load_iff hstore2 hnodes hzero hnow hstored hexp hget).mpr ⟨hexact, rfl⟩
  · obtain ⟨hexact, rfl⟩ :=
      h.of_load hstore2 hnodes hzero hnow hstored hexp hsha hrun' hwithin' hown hid hload
    exact ⟨h.read_item hexact, h.token.trans h.placed.sameToken, h.receipts⟩

end

/-! ### The sample delivery -/

/-- What the sample core gets for an item created `delta` nanoseconds after the epoch. -/
def sampleDelivery (delta : Int) (work : WorkProof) : Delivery :=
  ⟨{ sampleItem delta with work := work }, sampleToken, [sampleReceipt (sampleItem delta)], ∅⟩

theorem sampleDelivery_text {delta : Int} (work : WorkProof) {created expires : Bytes}
    (hc : (sampleItem delta).createdAt.marshalText = some created)
    (he : (sampleItem delta).expiresAt.marshalText = some expires) : ∃ encoded,
      marshal deliveryCodec (sampleDelivery delta work) = some encoded ∧
        encoded.length ≤ maxLocalRecordPayloadBytes ∧ encoded ≠ [] := by
  have hitem := sampleItem_atMost work hc he
  have hlen : sampleToken.length = 32 := length_sampleBytes _ _
  have htoken := bytesCodec_sized sampleToken
  rw [hlen] at htoken
  have hreceipts : (listCodec storageReceiptCodec StorageReceipt.zero).Sized
      [sampleReceipt (sampleItem delta)] (1 * 1 + 1) (1 * 5001 + 4) :=
    listCodec_sized fun r hr => by rw [mem_singleton.mp hr]; exact sampleReceipt_atMost he
  have hsize : (structCodec (deliveryFields.take 3)).Sized (sampleDelivery delta work) 1 7000 :=
    structCodec_sized rfl (.cons hitem (.cons htoken (.cons hreceipts .nil))) (by decide) (by decide)
  obtain ⟨encoded, hencoded, hge, hle⟩ := marshal_sized hsize
  exact ⟨encoded, hencoded, hle.trans (by decide), ne_nil_of_length_pos hge⟩

/-- The record the sample delivery is kept in. -/
def sampleDeliveryRecord (delta : Int) (work : WorkProof) (encoded : Bytes) : LocalRecord :=
  normalizeLocalRecord (Core.deliveryRecord (sampleDelivery delta work) encoded Time.epoch.utc)

/-- The sample item is less than a millisecond younger than the epoch. -/
def SampleTimes (delta : Int) : Prop :=
  0 ≤ delta ∧ delta ≤ 5 * minute ∧
    (∃ text, (sampleItem delta).createdAt.marshalText = some text) ∧
    (∃ text, (sampleItem delta).expiresAt.marshalText = some text) ∧
    ∀ work encoded, (sampleDeliveryRecord delta work encoded).createdAt = Time.epoch ∧
      (sampleDeliveryRecord delta work encoded).updatedAt = Time.epoch ∧
      (sampleDeliveryRecord delta work encoded).expiresAt = Time.epoch.add fixedItemRetention

theorem sampleTimes_zero : SampleTimes 0 :=
  ⟨le_rfl, by decide, ⟨_, rfl⟩, ⟨_, rfl⟩, fun _ _ => ⟨rfl, rfl, rfl⟩⟩

theorem sampleTimes_half : SampleTimes 500000 :=
  ⟨by decide, by decide, ⟨_, rfl⟩, ⟨_, rfl⟩, fun _ _ => ⟨rfl, rfl, rfl⟩⟩

theorem sampleDeliveryRecord_valid {delta : Int} (h : SampleTimes delta) {work : WorkProof}
    {encoded : Bytes} (hne : encoded ≠ []) (hle : encoded.length ≤ maxLocalRecordPayloadBytes) :
    validateLocalRecord (sampleDeliveryRecord delta work encoded) Time.epoch.utc = .ok () := by
  have hid : validLocalRecordID (sampleDeliveryRecord delta work encoded).id = true :=
    validLocalRecordID_delivery _
  obtain ⟨hc, hu, hx⟩ := h.2.2.2.2 work encoded
  have hversion : (sampleDeliveryRecord delta work encoded).version = clientStoreVersion := rfl
  have hkind : (sampleDeliveryRecord delta work encoded).kind = localKindDelivery := rfl
  have hpolicy : (sampleDeliveryRecord delta work encoded).prunePolicy = pruneAfterExpiry := rfl
  have hpayload : (sampleDeliveryRecord delta work encoded).payload = encoded := rfl
  have hsafe : safePrunePolicyForKind (sampleDeliveryRecord delta work encoded) = true := rfl
  unfold validateLocalRecord
  rw [hc, hu, hx, hversion, hkind, hpolicy, hpayload, hid, hsafe, if_neg,
    if_neg (by decide), if_neg (by decide), if_neg (by decide), if_neg (by decide)]
  simp only [not_or]
  exact ⟨by decide, by decide, by decide, by decide, by decide, by decide, by decide,
    by decide, fun h0 => hne (eq_nil_of_length_eq_zero h0), not_lt.mpr hle⟩

/-- A core with an empty store keeps the sample delivery. -/
theorem sampleDelivery_kept {delta : Int} (h : SampleTimes delta) :
    ∃ (core core1 : Core samplePrimitives) (answer : Bytes) (work : WorkProof)
      (s1 : EncryptedDiskStore),
      core.nodes = [sampleNode] ∧ core.store = some (freshStore sampleKey) ∧
      core1.nodes = core.nodes ∧ core1.store = some s1 ∧ s1.closed = false ∧
      core.storeReplicated plainAead
        (soloEnv sampleTexts Time.epoch sampleParametersText answer sampleNonce) (sampleItem delta)
        sampleToken 1 = some ((sampleDelivery delta work, none), core1) := by
  obtain ⟨h0, hle, ⟨created, hc⟩, ⟨expires, he⟩, htimes⟩ := id h
  obtain ⟨core1, work, answer, hnodes, hstore, hquorum, hcall⟩ :=
    storeReplicated_sample h0 hle hc he plainAead (some (freshStore sampleKey)) sampleNonce
  obtain ⟨encoded, hencoded, hsize, hne⟩ := sampleDelivery_text work hc he
  have hval := @sampleDeliveryRecord_valid _ h work _ hne hsize
  obtain ⟨hcreated, hupdated, hexpires⟩ := htimes work encoded
  obtain ⟨epoch, hepoch⟩ : ∃ text, Time.epoch.marshalText = some text := ⟨_, rfl⟩
  obtain ⟨day, hday⟩ : ∃ text, (Time.epoch.add fixedItemRetention).marshalText = some text := ⟨_, rfl⟩
  obtain ⟨sealed, hsealed⟩ := @sealRecord_writes plainAead sampleKey sampleNonce _ _ _ _ _
    (localRecordFilename (Core.deliveryRecord (sampleDelivery delta work) encoded
      Time.epoch.utc).id) hval (by decide) (by decide) (hcreated ▸ hepoch) (hupdated ▸ hepoch) (hexpires ▸ hday)
  obtain ⟨s1, hs1⟩ : ∃ s1, s1 = (freshStore sampleKey).writeRecord
    (sampleDeliveryRecord delta work encoded) sealed .zero := ⟨_, rfl⟩
  have hput := (@put_fresh plainAead _ (Core.deliveryRecord (sampleDelivery delta work) encoded
    Time.epoch.utc) _ _ _ hval hsealed).trans (congrArg (Prod.mk _) hs1.symm)
  have hpersist : core1.persistDelivery plainAead sampleTexts .background (sampleDelivery delta work)
      Time.epoch.utc sampleNonce = (none, { core1 with store := some s1 }) :=
    persistDelivery_put hstore hencoded hput
  have hend : core1.finishDelivery plainAead
      (soloEnv sampleTexts Time.epoch sampleParametersText answer sampleNonce)
      (sampleDelivery delta work) =
        ((sampleDelivery delta work, none), { core1 with store := some s1 }) :=
    @finishDelivery_enough _ _ core1 _ (soloEnv sampleTexts Time.epoch sampleParametersText answer
      sampleNonce) _ none hquorum.le hpersist
  exact ⟨_, _, answer, work, s1, rfl, rfl, hnodes, rfl, by rw [hs1]; rfl,
    hcall.trans (congrArg some hend)⟩

theorem injOn_sampleRecord (delta : Int) : Set.InjOn sha256
    (Set.image localRecordPath {deliveryRecordID (sampleItem delta).itemID}) := by
  rw [Set.image_singleton]
  exact Set.injOn_singleton _ _

theorem sampleItem_expires (delta : Int) (h : 0 ≤ delta) :
    Time.epoch.ns < (sampleItem delta).expiresAt.ns := by
  have hretention : (0 : Int) < fixedItemRetention := by decide
  change Time.epoch.ns < Time.epoch.ns + delta + fixedItemRetention
  omega

/-- An item created half a millisecond after the epoch is stored and its delivery kept, but
    the delivery cannot be loaded. -/
theorem loadDelivery_half_millisecond : ∃ (core core1 : Core samplePrimitives) (env : StoreEnv)
    (delivery : Delivery),
    Run (Step plainAead (lit "store") sampleKey) (shut ⟨true, ∅⟩)
      [.reopen 0 Time.epoch [localStoreLockFilename] fun _ => Time.epoch] (freshStore sampleKey) ∧
      core.store = some (freshStore sampleKey) ∧
      core.storeReplicated plainAead env (sampleItem 500000) sampleToken 1 =
        some ((delivery, none), core1) ∧
      delivery.receipts.length = 1 ∧
      ∀ loaded, core1.loadDelivery plainAead sampleTexts .background (sampleItem 500000).itemID
        Time.epoch Time.epoch ≠ .ok loaded := by
  obtain ⟨core, core1, answer, work, s1, -, hstore, hnodes, hstore1, -, hcall⟩ :=
    sampleDelivery_kept sampleTimes_half
  have hsha := injOn_sampleRecord 500000
  have hwithin : StoreEvent.Within {deliveryRecordID (sampleItem 500000).itemID}
    (.reopen 0 Time.epoch [localStoreLockFilename] fun _ => Time.epoch) := trivial
  have hgood : Good plainAead False sampleKey {deliveryRecordID (sampleItem 500000).itemID}
      (freshStore sampleKey) :=
    (step_good hsha (good_shut (known_empty _ _ _)) hwithin (fun hf => hf.elim) sample_opened).1
  obtain ⟨f, encoded, read, hkept⟩ := storeReplicated_keeps hsha hgood hstore rfl rfl hcall
    (List.cons_ne_nil _ _) (fun e he => nomatch he) hstore1
  refine ⟨core, core1, _, _, .single sample_opened, hstore, hcall, rfl, fun loaded hload => ?_⟩
  have hzero : Time.epoch.isZero = false := by decide
  have hnone : Run (Step plainAead (lit "store") sampleKey) s1 [] s1 := .nil s1
  have hexact := (hkept.of_load hstore1 hnodes hzero le_rfl (fun _ _ => le_rfl)
    (sampleItem_expires 500000 (by decide)) hsha hnone (fun e he => nomatch he)
    (fun e he => nomatch he) rfl hload).1.1
  have hcreated : (sampleItem 500000).createdAt.ns = Time.epoch.ns + 500000 := rfl
  rw [hcreated] at hexact
  exact absurd hexact (by decide)

/-- One created at the epoch is loaded again. -/
theorem loadDelivery_iff_epoch : ∃ (core core1 : Core samplePrimitives) (env : StoreEnv)
    (delivery loaded : Delivery),
    core.storeReplicated plainAead env (sampleItem 0) sampleToken 1 =
        some ((delivery, none), core1) ∧
      core1.loadDelivery plainAead sampleTexts .background (sampleItem 0).itemID Time.epoch
        Time.epoch = .ok loaded ∧
      loaded.item = delivery.item ∧ loaded.receipts = delivery.receipts := by
  obtain ⟨core, core1, answer, work, s1, -, hstore, hnodes, hstore1, hopen, hcall⟩ :=
    sampleDelivery_kept sampleTimes_zero
  have hwithin : ∀ e ∈ [StoreEvent.reopen 0 Time.epoch [localStoreLockFilename] fun _ => Time.epoch] ++
      [], e.Within {deliveryRecordID (sampleItem 0).itemID} := by
    intro e he
    obtain rfl := List.mem_singleton.mp he
    trivial
  have hzero : Time.epoch.isZero = false := by decide
  obtain ⟨hiff, hsame⟩ := loadDelivery_iff samplePrimitives plainAead (lit "store") sampleKey
    (injOn_sampleRecord 0) (known_empty _ _ _) hwithin (.single sample_opened) core core1 _ _ _ _ _ _
    hstore rfl rfl hcall (List.cons_ne_nil _ _) (fun e he => nomatch he) hstore1 (.nil s1)
    (fun e he => nomatch he) (fun e he => nomatch he) hopen core1 hnodes hstore1 sampleTexts Time.epoch
    Time.epoch hzero le_rfl (fun _ _ => le_rfl) (sampleItem_expires _ le_rfl) le_rfl
  have hcreated : (sampleItem 0).createdAt.ns = Time.epoch.ns + 0 := rfl
  obtain ⟨loaded, hload⟩ := hiff.mpr ⟨by rw [hcreated]; decide, rfl, rfl⟩
  exact ⟨core, core1, _, _, loaded, hcall, hload, (hsame loaded hload).1, (hsame loaded hload).2.2⟩

end Veilmesh.Client

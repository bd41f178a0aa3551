/-
  What a node promises when it answers 201.

  An item's identifier commits to its times in whole milliseconds only. Two valid items
  that differ below the millisecond share it, and the node keeps whichever came first.
  So what a 201 promises ends with the millisecond of `ExpiresAt`:

  * `served_until_deadline`: until then, only an authorised delete removes the item, and
    nothing alters its route tag, payload or delete-token hash.
  * `served_not_until_expiry`: within that millisecond it may already be gone.
-/
import Veilmesh.Node.Machine

namespace Veilmesh.Node

open Lib Protocol List
open Time (epoch)

section

variable {p : Setup} {K : Set StoredItem} {n n' : NodeState} {e : Event}

/-! ## The promise -/

/-- The store holds the item, or one that differs from it below the millisecond. -/
def Holds (item : StoredItem) (s : DiskStore) : Prop :=
  ∃ i, s.items.lookup item.itemID = some i ∧ SameContent i item ∧
    deadline item ≤ i.expiresAt.ns

/-- A delete request that presents the item's token and reaches the store. -/
def Event.Authorises (item : StoredItem) : Event → Prop
  | .deleteAct q _ => q.itemID = item.itemID ∧ sha256 q.deleteToken = item.deleteTokenHash
  | _ => False

variable {item : StoredItem}

theorem Holds.without {s : DiskStore} (h : Holds item s) {id : Bytes}
    (i : StoredItem) (hne : id ≠ item.itemID) : Holds item (s.without id i) := by
  obtain ⟨k, hk, hrest⟩ := h
  refine ⟨k, ?_, hrest⟩
  change (s.items.erase id).lookup item.itemID = some k
  rw [Finmap.lookup_erase_ne hne.symm, hk]

theorem Holds.put {s : DiskStore} (h : Holds item s) (now : Time)
    (other : StoredItem) : Holds item (s.put now other).2 := by
  obtain ⟨e, hp⟩ | ⟨hp, -⟩ | ⟨data, hp, -, -, hnew, -⟩ := put_cases s now other
  · rwa [hp]
  · rwa [hp]
  · rw [hp]
    obtain ⟨k, hk, hrest⟩ := h
    have hne : item.itemID ≠ other.itemID := by
      intro he
      rw [he, hnew] at hk
      cases hk
    refine ⟨k, ?_, hrest⟩
    change (s.items.insert other.itemID other).lookup item.itemID = some k
    rw [Finmap.lookup_insert_of_ne _ hne, hk]

/-- Before the deadline no action but an authorised delete loses the item. -/
theorem NodeStep.holds (hK : CollisionFree K) (h : NodeInv p K n)
    (hitem : Sound K item) (hholds : Holds item n.store) (hno : ¬ e.Authorises item)
    (hstep : NodeStep p n e n') (hdl : n'.clock < deadline item) : Holds item n'.store := by
  cases e with
  | store r c c' =>
    obtain ⟨-, -, rfl⟩ := hstep
    obtain ⟨heq, -⟩ | ⟨other, -, heq, -⟩ := handleStore_cases p.toServer n.store r c c'
    · simpa only [heq] using hholds
    · simpa only [heq] using hholds.put c' other
  | fetch r c order =>
    obtain ⟨-, -, rfl⟩ := hstep
    exact hholds
  | proof r c c' =>
    obtain ⟨-, -, rfl⟩ := hstep
    exact hholds
  | deleteCheck r c =>
    obtain ⟨-, rfl⟩ := hstep
    exact hholds
  | deleteAct q c =>
    obtain ⟨hq, -, rfl⟩ := hstep
    simp only [handleDeleteAct_store]
    unfold DiskStore.delete
    split
    · exact hholds
    split
    · exact hholds
    · rename_i i hi
      rw [removeItem_ok h.store.toStoreInv hi]
      refine hholds.without i fun he => hno ⟨he, ?_⟩
      -- the token fits an item of this identifier, hence this item
      obtain ⟨k, hk, hkid, htok⟩ := h.pending q hq
      rw [htok, (hk.same hK hitem (hkid.trans he)).1.2.2]
  | sweep now order =>
    obtain ⟨-, -, rfl⟩ := hstep
    dsimp only at hdl ⊢
    rw [DiskStore.sweep, if_neg (by simp [h.store.isOpen])]
    refine (h.store.sweepLoop hholds (fun s id i hs hi hexp hh => ?_) order).2
    refine hh.without i fun he => ?_
    obtain ⟨k, hk, -, hkexp⟩ := hh
    rw [he, hk] at hi
    obtain rfl := Option.some.inj hi
    omega
  | restart now =>
    obtain ⟨h1, rfl⟩ := hstep
    obtain ⟨k, hk, hsame, hexp⟩ := hholds
    exact ⟨k, ((h.store.restart h1).2 _ k).mpr ⟨hk, lt_of_lt_of_le hdl hexp⟩, hsame, hexp⟩

end

/-- A run in which a store request for `item` was answered 201: the events before it, the
    request, the events after it, and the state of the node then. -/
structure ServedRun (p : Setup) where
  disk : Disk
  opened : Time
  first : DiskStore
  open_eq : newDiskStore p.dir disk opened p.capacity p.routeQuota = (.ok first, first.dir)
  before : List Event
  asked : NodeState
  run_before : Run (NodeStep p) ⟨first, [], opened.ns⟩ before asked
  request : Request
  item : StoredItem
  decoded : p.requestItem request = .ok item
  clock : Time
  clock' : Time
  answered : NodeState
  step : NodeStep p asked (.store request clock clock') answered
  created : (p.handleStore asked.store request clock clock').1.status = 201
  after : List Event
  last : NodeState
  run_after : Run (NodeStep p) answered after last
  collisionFree :
    CollisionFree (Presented p disk (before ++ .store request clock clock' :: after))

namespace ServedRun

variable {p : Setup} (r : ServedRun p)

/-- The items of the run. -/
def items : Set StoredItem :=
  Presented p r.disk (r.before ++ .store r.request r.clock r.clock' :: r.after)

theorem knows {e : Event} (he : e ∈ r.before ++ .store r.request r.clock r.clock' :: r.after) :
    Knows p r.items e :=
  fun q c c' _ heq hitem => .inr ⟨q, c, c', heq ▸ he, hitem⟩

theorem item_mem : r.item ∈ r.items :=
  .inr ⟨r.request, r.clock, r.clock', by simp, r.decoded⟩

theorem asked_inv : NodeInv p r.items r.asked :=
  r.run_before.invariant_of (fun _ _ _ h hk hs => NodeStep.inv h hk hs)
    (fun e he => r.knows (mem_append_left _ he))
    ⟨storeOk_of_open r.open_eq fun name f item h1 h2 => .inl ⟨name, f, h1, h2⟩,
      fun q hq => by cases hq⟩

/-- The answer 201 comes with the item in the store. -/
theorem answered_holds : Sound r.items r.item ∧ Holds r.item r.answered.store := by
  obtain ⟨-, -, hans⟩ := r.step
  have hs := r.asked_inv.store
  obtain ⟨-, hne⟩ | ⟨_, hitem, heq, hok⟩ :=
    handleStore_cases p.toServer r.asked.store r.request r.clock r.clock'
  · exact absurd r.created hne
  obtain rfl := Except.ok.inj (hitem.symm.trans r.decoded)
  have hread := requestItem_readable r.decoded
  have hput := hok r.created
  rw [hans]
  simp only [heq]
  obtain ⟨e, hp⟩ | ⟨hp, -, hval, hsome⟩ | ⟨data, hp, -, hval, -⟩ :=
    put_cases r.asked.store r.clock' r.item
  · rw [hp] at hput
    cases hput
  · have hsound : Sound r.items r.item := ⟨r.item_mem, ((validateItem_ok_iff _ _ _).mp hval).1, hread⟩
    refine ⟨hsound, ?_⟩
    rw [hp]
    obtain ⟨i, hi⟩ := Option.isSome_iff_exists.mp hsome
    have hi' := (hs.held _ i hi).1
    obtain ⟨hsame, hdl⟩ := hi'.same r.collisionFree hsound (hs.keyed _ i hi).1
    exact ⟨i, hi, hsame, hdl ▸ deadline_le_expiry i⟩
  · refine ⟨⟨r.item_mem, ((validateItem_ok_iff _ _ _).mp hval).1, hread⟩, ?_⟩
    rw [hp]
    exact ⟨r.item, Finmap.lookup_insert _, ⟨rfl, rfl, rfl⟩, deadline_le_expiry _⟩

theorem answered_inv : NodeInv p r.items r.answered :=
  NodeStep.inv r.asked_inv (r.knows (by simp)) r.step

/-- The promise at the end of the run. -/
theorem last_holds (hno : ∀ e ∈ r.after, ¬ e.Authorises r.item) :
    NodeInv p r.items r.last ∧ (Holds r.item r.last.store ∨ deadline r.item ≤ r.last.clock) := by
  obtain ⟨hsound, hholds⟩ := r.answered_holds
  refine r.run_after.invariant_of
    (I := fun n => NodeInv p r.items n ∧ (Holds r.item n.store ∨ deadline r.item ≤ n.clock))
    (P := fun e => Knows p r.items e ∧ ¬ e.Authorises r.item) ?_
    (fun e he => ⟨r.knows (mem_append_right _ (mem_cons_of_mem _ he)), hno e he⟩)
    ⟨r.answered_inv, .inl hholds⟩
  rintro n e n' ⟨hinv, hor⟩ ⟨hk, hna⟩ hstep
  refine ⟨NodeStep.inv hinv hk hstep, ?_⟩
  rcases hor with hh | hd
  · by_cases hdl : n'.clock < deadline r.item
    · exact .inl (NodeStep.holds r.collisionFree hinv hsound hh hna hstep hdl)
    · exact .inr (not_lt.mp hdl)
  · exact .inr (hd.trans hstep.clock_le)

end ServedRun

/-- Once a store request was answered 201, `Get` finds the item at every later time before
    the millisecond of its expiry, with its route tag, payload and delete-token hash,
    unless a delete request with its token was carried out. -/
theorem served_until_deadline {p : Setup} (r : ServedRun p)
    (hno : ∀ e ∈ r.after, ¬ e.Authorises r.item) (t : Time) (ht : r.last.clock ≤ t.ns)
    (hdl : t.ns < deadline r.item) :
    ∃ i, r.last.store.get t r.item.itemID = .ok i ∧ i.routeTag = r.item.routeTag ∧
      i.payload = r.item.payload ∧ i.deleteTokenHash = r.item.deleteTokenHash := by
  obtain ⟨hinv, hh | hd⟩ := r.last_holds hno
  · obtain ⟨i, hi, hsame, hexp⟩ := hh
    have hafter : i.expiresAt.after t = true := by
      rw [Time.after_iff]
      omega
    refine ⟨i, ?_, hsame⟩
    rw [DiskStore.get, if_neg (by simp [hinv.store.isOpen]), hi]
    exact if_pos hafter
  · omega

/-! ## Two items in one millisecond -/

/-- A small configuration that asks for no work. -/
def sampleConfig : Config := ⟨0, 60, 1024, 1000000, 1000000, 1, 1, 1, 1⟩

def sampleSetup : Setup :=
  { config := sampleConfig
    valid := by decide
    nodeID := []
    sign := fun _ _ => some ⟨[], []⟩
    dir := lit "d"
    capacity := 1000000
    routeQuota := 1000000 }

/-- An item created `delta` nanoseconds after the epoch. -/
def sampleItem (delta : Int) : StoredItem :=
  let i : StoredItem :=
    { version := 1
      itemID := []
      routeTag := base64Encode base64UrlAlphabet false (List.replicate 32 0)
      createdAt := Time.epoch.add delta
      expiresAt := (Time.epoch.add delta).add fixedItemRetention
      deleteTokenHash := List.replicate 32 0
      payload := [0]
      work := ⟨0, 0, 0⟩ }
  { i with itemID := computeItemID i }

/-- Two valid items half a millisecond apart. -/
def earlyItem : StoredItem := sampleItem 0
def lateItem : StoredItem := sampleItem 500000

theorem lateItem_commitment : itemCommitment lateItem = itemCommitment earlyItem := rfl

theorem lateItem_id : lateItem.itemID = earlyItem.itemID := by
  change hexEncode (sha256 (itemCommitment lateItem)) =
    hexEncode (sha256 (itemCommitment earlyItem))
  rw [lateItem_commitment]

theorem sample_valid {delta : Int} (h : delta = 0 ∨ delta = 500000) {m : Int}
    (hm : m = 1024 ∨ m = defaultMaxItemBytes) : validateItem (sampleItem delta) epoch m = .ok () := by
  refine (validateItem_ok_iff _ _ _).mpr ⟨⟨rfl, ?_, rfl, ?_, ?_, ?_, rfl, rfl⟩, ?_, ?_⟩
  · exact (by decide :
      validRouteTag (base64Encode base64UrlAlphabet false (List.replicate 32 0)) = true)
  · exact cons_ne_nil _ _
  · change (([0] : Bytes).length : Int) ≤ m
    rcases hm with rfl | rfl <;> decide
  · rcases hm with rfl | rfl <;> decide
  · rcases h with rfl | rfl <;> decide
  · rcases h with rfl | rfl <;> decide

/-- The members of a sample item's text. -/
def sampleMembers (id created expires : Bytes) : List (Bytes × Json) := [
  (lit "version", .num [49]), (lit "item_id", .str id),
  (lit "route_tag", .str (List.replicate 43 65)), (lit "created_at", .str created),
  (lit "expires_at", .str expires),
  (lit "delete_token_hash", .str (List.replicate 43 65 ++ [61])), (lit "payload", .str (lit "AA==")),
  (lit "work", .obj [(lit "epoch", .num [48]), (lit "nonce", .num [48]),
    (lit "difficulty", .num [48])])]

theorem length_sampleMembers (id created expires : Bytes) :
    (Json.render (.obj (sampleMembers id created expires))).length =
      244 + id.length + created.length + expires.length := by
  simp only [sampleMembers, Json.render, Json.renderMembers, length_cons, length_append,
    length_nil, length_replicate,
    show (lit "version").length = 7 from rfl, show (lit "item_id").length = 7 from rfl,
    show (lit "route_tag").length = 9 from rfl, show (lit "created_at").length = 10 from rfl,
    show (lit "expires_at").length = 10 from rfl,
    show (lit "delete_token_hash").length = 17 from rfl, show (lit "payload").length = 7 from rfl,
    show (lit "AA==").length = 4 from rfl, show (lit "work").length = 4 from rfl,
    show (lit "epoch").length = 5 from rfl, show (lit "nonce").length = 5 from rfl,
    show (lit "difficulty").length = 10 from rfl]
  omega

theorem marshal_earlyItem : ∃ data, marshal storedItemCodec earlyItem = some data ∧ data.length = 348 := by
  have hplain : Json.escape earlyItem.itemID = earlyItem.itemID :=
    Json.escape_of_plain (plain_hexEncode _)
  have henc : storedItemCodec.encode earlyItem = some (.obj (sampleMembers
      (Json.escape earlyItem.itemID) (lit "1970-01-01T00:00:00Z") (lit "1970-03-02T00:00:00Z"))) := by
    rfl
  refine ⟨_, by rw [marshal, henc, hplain]; rfl, ?_⟩
  rw [length_sampleMembers, show earlyItem.itemID.length = 64 from length_computeItemID _]
  rfl

theorem marshal_lateItem : ∃ data, marshal storedItemCodec lateItem = some data ∧ data.length = 358 := by
  have hplain : Json.escape lateItem.itemID = lateItem.itemID :=
    Json.escape_of_plain (plain_hexEncode _)
  have henc : storedItemCodec.encode lateItem = some (.obj (sampleMembers
      (Json.escape lateItem.itemID) (lit "1970-01-01T00:00:00.0005Z")
      (lit "1970-03-02T00:00:00.0005Z"))) := by
    rfl
  refine ⟨_, by rw [marshal, henc, hplain]; rfl, ?_⟩
  rw [length_sampleMembers, show lateItem.itemID.length = 64 from length_computeItemID _]
  rfl

def sampleRequest (item : StoredItem) : Request :=
  ⟨some (lit "application/json"), (marshal storedItemCodec item).getD []⟩

theorem sample_decoded {delta : Int} (h : delta = 0 ∨ delta = 500000) :
    sampleSetup.requestItem (sampleRequest (sampleItem delta)) = .ok (sampleItem delta) := by
  have hread : ItemReadable (sampleItem delta) := by
    rcases h with rfl | rfl <;> · unfold ItemReadable TimeReadable; decide
  have hshape := ((validateItem_ok_iff _ _ _).mp (sample_valid h (.inl rfl))).1
  have hdata : ∃ data, marshal storedItemCodec (sampleItem delta) = some data ∧
      data.length ≤ 358 := by
    rcases h with rfl | rfl
    · obtain ⟨data, hd, hl⟩ := marshal_earlyItem
      exact ⟨data, hd, by omega⟩
    · obtain ⟨data, hd, hl⟩ := marshal_lateItem
      exact ⟨data, hd, by omega⟩
  obtain ⟨data, hd, hl⟩ := hdata
  have hback := @unmarshal_marshal _ _ _ StoredItem.zero _ (valid_roundtrips hshape hread) hd
  have hlim : ¬ ((data.length : Int) > sampleSetup.config.maxItemBytes * 2 + 64 * 1024) := by
    change ¬ ((data.length : Int) > 1024 * 2 + 64 * 1024)
    omega
  simp only [Server.requestItem, decodeJSON, sampleRequest, hd, Option.getD_some, ne_eq,
    not_true_eq_false, if_false, if_neg hlim, hback]

theorem sample_handleStore {delta : Int} (h : delta = 0 ∨ delta = 500000) {s s' : DiskStore}
    (hput : s.put epoch (sampleItem delta) = (.ok (), s'))
    (hdiff : sampleConfig.effectiveDifficulty s.usedBytes = 0) :
    (sampleSetup.handleStore s (sampleRequest (sampleItem delta)) epoch epoch).1.status =
      201 ∧
    (sampleSetup.handleStore s (sampleRequest (sampleItem delta)) epoch epoch).2 =
      s' := by
  have hnow : epoch.utc.truncate millisecond = epoch := by decide
  refine handleStore_created (sample_decoded h) ?_ ?_ hput (fun _ _ => rfl)
  · rw [hnow]
    exact sample_valid h (.inl rfl)
  · rw [hnow, show sampleSetup.config = sampleConfig from rfl, hdiff]
    exact verifyWork_free rfl (by decide) (by decide) (by decide)

/-- The empty store of the sample run. -/
def sampleStore : DiskStore := DiskStore.empty freshDisk 1000000 1000000

theorem sample_fresh_file (id : Bytes) : freshDisk.files.lookup (itemFile id) = none := by
  have hne : itemFile id ≠ nodeStoreLockFilename := by
    intro he
    have := congrArg ext he
    rw [ext_itemFile] at this
    exact absurd this (by decide)
  exact Finmap.lookup_insert_of_ne _ hne

theorem sample_put_early {data : Bytes} (hd : marshal storedItemCodec earlyItem = some data)
    (hl : data.length = 348) :
    sampleStore.put epoch earlyItem = (.ok (), sampleStore.withItem earlyItem data) := by
  have hval := @sample_valid 0 (.inl rfl) defaultMaxItemBytes (.inr rfl)
  refine put_new rfl hval rfl hd (by rw [hl]; decide) ?_ (validItemID_of_valid hval)
    (sample_fresh_file _)
  rw [hl]
  rfl

/-- The store after the first item. -/
def earlyStore : DiskStore :=
  sampleStore.withItem earlyItem ((marshal storedItemCodec earlyItem).getD [])

theorem earlyStore_used : earlyStore.usedBytes = 4444 := by
  obtain ⟨data, hd, hl⟩ := marshal_earlyItem
  simp only [earlyStore, hd, Option.getD_some, DiskStore.usedBytes, DiskStore.withItem,
    DiskStore.index, hl]
  decide

theorem sample_early_created :
    (sampleSetup.handleStore sampleStore (sampleRequest earlyItem) epoch epoch).2 =
      earlyStore := by
  obtain ⟨data, hd, hl⟩ := marshal_earlyItem
  have hput := sample_put_early hd hl
  rw [earlyStore, hd]
  exact (sample_handleStore (.inl rfl) hput (by decide +kernel)).2

theorem earlyStore_lookup : earlyStore.items.lookup lateItem.itemID = some earlyItem := by
  rw [lateItem_id]
  exact Finmap.lookup_insert _

theorem sample_late_created :
    (sampleSetup.handleStore earlyStore (sampleRequest lateItem) epoch epoch).1.status =
      201 ∧
    (sampleSetup.handleStore earlyStore (sampleRequest lateItem) epoch epoch).2 =
      earlyStore := by
  have hval := @sample_valid 500000 (.inr rfl) defaultMaxItemBytes (.inr rfl)
  refine sample_handleStore (.inr rfl) ?_ ?_
  · unfold DiskStore.put
    rw [if_neg Bool.noConfusion, hval]
    exact if_pos ((congrArg Option.isSome earlyStore_lookup).trans rfl)
  · rw [earlyStore_used]
    decide +kernel

/-- A node that stores the early item and then answers 201 for the late one. -/
def sampleRun : ServedRun sampleSetup where
  disk := ⟨true, ∅⟩
  opened := Time.epoch
  first := sampleStore
  open_eq := newDiskStore_fresh Time.epoch (by decide) (by decide) (by decide)
  before := [.store (sampleRequest earlyItem) Time.epoch Time.epoch]
  asked := ⟨earlyStore, [], Time.epoch.ns⟩
  run_before := .single ⟨le_rfl, le_rfl, by rw [← sample_early_created]⟩
  request := sampleRequest lateItem
  item := lateItem
  decoded := sample_decoded (.inr rfl)
  clock := Time.epoch
  clock' := Time.epoch
  answered := ⟨earlyStore, [], Time.epoch.ns⟩
  step := ⟨le_rfl, le_rfl, by dsimp only; rw [sample_late_created.2]⟩
  created := sample_late_created.1
  after := []
  last := ⟨earlyStore, [], Time.epoch.ns⟩
  run_after := .nil _
  collisionFree := by
    have hitems : ∀ item ∈ Presented sampleSetup ⟨true, ∅⟩
        ([.store (sampleRequest earlyItem) Time.epoch Time.epoch] ++
          [.store (sampleRequest lateItem) Time.epoch Time.epoch]),
        item = earlyItem ∨ item = lateItem := by
      rintro item (⟨name, f, hf, -⟩ | ⟨r, c, c', hmem, hitem⟩)
      · cases hf
      · simp only [List.cons_append, List.nil_append, List.mem_cons, List.not_mem_nil, or_false,
          Event.store.injEq] at hmem
        obtain ⟨rfl, -, -⟩ | ⟨rfl, -, -⟩ := hmem
        · exact .inl (Except.ok.inj (hitem.symm.trans (sample_decoded (.inl rfl))))
        · exact .inr (Except.ok.inj (hitem.symm.trans (sample_decoded (.inr rfl))))
    have hone : ∀ item ∈ _, itemCommitment item = itemCommitment earlyItem ∧
        item.payload = [0] := fun item hi => by
      rcases hitems item hi with rfl | rfl
      · exact ⟨rfl, rfl⟩
      · exact ⟨lateItem_commitment, rfl⟩
    constructor
    · rintro _ ⟨i, hi, rfl⟩ _ ⟨j, hj, rfl⟩ -
      rw [(hone i hi).1, (hone j hj).1]
    · rintro _ ⟨i, hi, rfl⟩ _ ⟨j, hj, rfl⟩ -
      rw [(hone i hi).2, (hone j hj).2]

/-- Within the millisecond of its expiry an item that was answered 201 may be gone. -/
theorem served_not_until_expiry :
    ∃ (p : Setup) (r : ServedRun p) (t : Time), r.after = [] ∧ r.last.clock ≤ t.ns ∧
      t.ns < r.item.expiresAt.ns ∧ r.last.store.get t r.item.itemID = .error .notFound := by
  refine ⟨sampleSetup, sampleRun, earlyItem.expiresAt, rfl, by decide, by decide, ?_⟩
  change earlyStore.get earlyItem.expiresAt lateItem.itemID = _
  rw [DiskStore.get, if_neg (by decide), earlyStore_lookup]
  rfl

/-- The promise of the sample run, at the time of the answer. -/
theorem served_until_deadline_sample :
    ∃ i, sampleRun.last.store.get Time.epoch sampleRun.item.itemID = .ok i ∧
      i.routeTag = sampleRun.item.routeTag ∧ i.payload = sampleRun.item.payload ∧
      i.deleteTokenHash = sampleRun.item.deleteTokenHash :=
  served_until_deadline sampleRun (fun _ h => by cases h) Time.epoch le_rfl (by decide)

end Veilmesh.Node

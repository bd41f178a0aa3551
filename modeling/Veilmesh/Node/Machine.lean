/-
  A node as a state machine: the store behind the request handlers.

  `NodeStep` is one atomic action of a node: a whole store, fetch or proof request, the
  check of a delete request, its later `Delete`, a sweep, or a restart of the process.
  Clock readings do not go back, and the file system does not fail. Collisions of SHA-256
  are excluded on the items the run presents to the node (`CollisionFree`).

  `StoreOk` extends the store invariant by what the requests add: every file decodes to
  its item, every item was valid when it came, and the directory can be opened again.

  * `Sound.same`: without collisions an identifier determines the content of an item, and
    its expiry up to the millisecond.
  * `StoreOk.restart`: a restart succeeds and keeps exactly the unexpired items.
  * `NodeStep.inv`: every action keeps the node invariant.
-/
import Veilmesh.Node.Reload
import Veilmesh.Node.Server

namespace Veilmesh.Node

open Lib Protocol DiskStore

/-! ## Nodes -/

/-- A server with the store it opens. -/
structure Setup extends Server where
  dir : Bytes
  capacity : Int
  routeQuota : Int

/-- A running node: its store, the delete requests that passed their check, and the
    latest clock reading. -/
structure NodeState where
  store : DiskStore
  pending : List DeleteRequest
  clock : Int

inductive Event where
  | store (r : Request) (clock clock' : Time)
  | fetch (r : Request) (clock : Time) (order : Bytes → List Bytes)
  | proof (r : Request) (clock clock' : Time)
  | deleteCheck (r : Request) (clock : Time)
  | deleteAct (request : DeleteRequest) (clock : Time)
  | sweep (now : Time) (order : List Bytes)
  | restart (now : Time)

/-- One action of the node. Requests in progress do not survive a restart. -/
def NodeStep (p : Setup) (n : NodeState) (e : Event) (n' : NodeState) : Prop :=
  match e with
  | .store r c c' => n.clock ≤ c.ns ∧ c.ns ≤ c'.ns ∧
      n' = ⟨(p.handleStore n.store r c c').2, n.pending, c'.ns⟩
  | .fetch _ c order => n.clock ≤ c.ns ∧
      (∀ r, (order r).Nodup ∧ ∀ id, id ∈ order r ↔ id ∈ n.store.routeIDs r) ∧
      n' = { n with clock := c.ns }
  | .proof _ c c' => n.clock ≤ c.ns ∧ c.ns ≤ c'.ns ∧ n' = { n with clock := c'.ns }
  | .deleteCheck r c => n.clock ≤ c.ns ∧
      n' = { n with
        clock := c.ns
        pending := match Server.handleDeleteCheck n.store r c with
          | .ok request => request :: n.pending
          | .error _ => n.pending }
  | .deleteAct request c => request ∈ n.pending ∧ n.clock ≤ c.ns ∧
      n' = ⟨(p.handleDeleteAct n.store request c).2, n.pending.erase request, c.ns⟩
  | .sweep now order => n.clock ≤ now.ns ∧ VisitOrder n.store.items order ∧
      n' = ⟨(n.store.sweep now order).2, n.pending, now.ns⟩
  | .restart now => n.clock ≤ now.ns ∧
      n' = ⟨(exec n.store (.restart p.dir now p.capacity p.routeQuota)).2, [], now.ns⟩

/-- The items a run shows to the node: those in its directory at first, and those in the
    bodies of store requests. -/
def Presented (p : Setup) (d : Disk) (es : List Event) : Set StoredItem :=
  { item | (∃ name f, d.files.lookup name = some f ∧
      unmarshal storedItemCodec StoredItem.zero f.data = some item) ∨
    ∃ r c c', Event.store r c c' ∈ es ∧ p.requestItem r = .ok item }

/-- SHA-256 tells the commitments and the payloads of these items apart. -/
def CollisionFree (items : Set StoredItem) : Prop :=
  Set.InjOn sha256 (itemCommitment '' items) ∧
    Set.InjOn sha256 (StoredItem.payload '' items)

/-! ## Items with one identifier -/

/-- The fields a promise is about. -/
def SameContent (i j : StoredItem) : Prop :=
  i.routeTag = j.routeTag ∧ i.payload = j.payload ∧ i.deleteTokenHash = j.deleteTokenHash

/-- The last instant up to which an item is promised: its expiry, in whole milliseconds. -/
def deadline (item : StoredItem) : Int := (item.expiresAt.truncate millisecond).ns

theorem deadline_le_expiry (item : StoredItem) : deadline item ≤ item.expiresAt.ns := by
  rw [deadline, Time.truncate_ns _ (by decide)]
  have := Int.emod_nonneg item.expiresAt.ns (show millisecond ≠ 0 by decide)
  omega

/-- An item a node may hold. -/
structure Sound (K : Set StoredItem) (item : StoredItem) : Prop where
  known : item ∈ K
  shape : ItemShape item defaultMaxItemBytes
  readable : ItemReadable item

/-- Without collisions the identifier determines the content, and the expiry up to the
    millisecond. -/
theorem Sound.same {K : Set StoredItem} (hK : CollisionFree K) {i j : StoredItem}
    (hi : Sound K i) (hj : Sound K j) (h : i.itemID = j.itemID) :
    SameContent i j ∧ deadline i = deadline j := by
  rw [hi.shape.id, hj.shape.id] at h
  have hcom := hK.1 ⟨i, hi.known, rfl⟩ ⟨j, hj.known, rfl⟩ (hexEncode_inj h)
  obtain ⟨h1, -, h3, h4, h5⟩ := itemCommitment_inj hi.shape hj.shape hcom
  refine ⟨⟨h1, hK.2 ⟨i, hi.known, rfl⟩ ⟨j, hj.known, rfl⟩ h5, h4⟩, ?_⟩
  -- the deadline depends on the millisecond of the expiry only
  have hmilli := writeTime_framed.inj hi.readable.2.2 hj.readable.2.2 h3
  unfold Time.SameMilli at hmilli
  rw [deadline, deadline, Time.truncate_ns _ (by decide), Time.truncate_ns _ (by decide)]
  have hm : millisecond = 1000000 := by decide
  have he : Time.unixEpoch = 62135596800000000000 := by decide
  rw [hm, he] at hmilli
  rw [hm]
  omega

/-! ## The store of a node -/

/-- The store invariant with what the requests of a node add to it. -/
structure StoreOk (p : Setup) (K : Set StoredItem) (clock : Int) (s : DiskStore) : Prop
    extends StoreInv s where
  isOpen : s.closed = false
  limits : s.capacity = p.capacity ∧ s.routeQuota = p.routeQuota
  setup : p.dir ≠ [] ∧ p.routeQuota ≤ p.capacity
  tidy : Tidy s.dir
  decodes : Decodes s
  held : ∀ id item, s.items.lookup id = some item →
    Sound K item ∧ item.createdAt.ns ≤ clock + 5 * minute

section

variable {p : Setup} {K : Set StoredItem} {clock : Int} {s : DiskStore} (h : StoreOk p K clock s)

include h

theorem StoreOk.mono {clock' : Int} (hc : clock ≤ clock') : StoreOk p K clock' s :=
  { h with held := fun id item hi => ⟨(h.held id item hi).1, (h.held id item hi).2.trans (by omega)⟩ }

theorem StoreOk.without {id : Bytes} {item : StoredItem}
    (hitem : s.items.lookup id = some item) : StoreOk p K clock (s.without id item) := by
  have hord := itemFile_ordinary (h.keyed id item hitem).2
  have hsub : ∀ k i, (s.without id item).items.lookup k = some i →
      k ≠ id ∧ s.items.lookup k = some i := by
    intro k i hk
    change (s.items.erase id).lookup k = some i at hk
    rw [GoMap.lookup_erase_eq] at hk
    split at hk
    · cases hk
    · rename_i hne
      exact ⟨hne, hk⟩
  refine ⟨h.toStoreInv.without hitem, h.isOpen, h.limits, h.setup, h.tidy.remove hord.1, ?_, ?_⟩
  · intro k i f hk hf
    obtain ⟨hne, hk⟩ := hsub k i hk
    change (s.dir.files.erase (itemFile id)).lookup (itemFile k) = some f at hf
    rw [Finmap.lookup_erase_ne fun e => hne (itemFile_inj e)] at hf
    exact h.decodes k i f hk hf
  · intro k i hk
    exact h.held k i (hsub k i hk).2

variable {now : Time}

/-- Storing a decoded item. -/
theorem StoreOk.put {item : StoredItem} (hc : clock ≤ now.ns)
    (hK : item ∈ K) (hread : ItemReadable item) : StoreOk p K now.ns (s.put now item).2 := by
  have h' := h.mono hc
  have hinv := (put_inv h.toStoreInv now item).1
  obtain ⟨e, hp⟩ | ⟨hp, -⟩ | ⟨data, hp, -, hval, hnew, hdata, -, -, -, -, -, hvalid⟩ :=
    put_cases s now item
  · rw [hp]
    exact h'
  · rw [hp]
    exact h'
  · rw [hp] at hinv ⊢
    obtain ⟨hshape, hcreated, -⟩ := (validateItem_ok_iff _ _ _).mp hval
    obtain ⟨hlock, htmp⟩ := itemFile_ordinary hvalid
    refine ⟨hinv, h.isOpen, h.limits, h.setup, h.tidy.insert _ hlock htmp, ?_, ?_⟩
    · intro k i f hk hf
      change (s.items.insert item.itemID item).lookup k = some i at hk
      change (s.dir.files.insert (itemFile item.itemID) _).lookup (itemFile k) = some f at hf
      rw [GoMap.lookup_insert_eq] at hk hf
      split at hk
      · rename_i he
        rw [if_pos (by rw [he])] at hf
        obtain rfl := Option.some.inj hk
        obtain rfl := Option.some.inj hf
        exact unmarshal_marshal (valid_roundtrips hshape hread) hdata
      · rename_i hne
        rw [if_neg fun e => hne (itemFile_inj e)] at hf
        exact h.decodes k i f hk hf
    · intro k i hk
      change (s.items.insert item.itemID item).lookup k = some i at hk
      rw [GoMap.lookup_insert_eq] at hk
      split at hk
      · obtain rfl := Option.some.inj hk
        exact ⟨⟨hK, hshape, hread⟩, hcreated⟩
      · exact h'.held k i hk

theorem StoreOk.delete (id : Bytes) : StoreOk p K clock (s.delete id).2 := by
  unfold DiskStore.delete
  split
  · exact h
  · split
    · exact h
    · rename_i item hitem
      rw [removeItem_ok h.toStoreInv hitem]
      exact h.without hitem

/-- What every removal of an expired item keeps, a sweep keeps. -/
theorem StoreOk.sweepLoop {P : DiskStore → Prop} (hP : P s)
    (hstep : ∀ s id item, StoreOk p K clock s → s.items.lookup id = some item →
      item.expiresAt.ns ≤ now.ns → P s → P (s.without id item)) (order : List Bytes) :
    StoreOk p K clock (sweepLoop now order s).2 ∧
      P (sweepLoop now order s).2 := by
  induction order generalizing s with
  | nil => exact ⟨h, hP⟩
  | cons id order ih =>
    rw [sweepLoop]
    split
    · exact ih h hP
    · rename_i item hitem
      split
      · exact ih h hP
      · rename_i hexp
        rw [Time.after_iff, not_lt] at hexp
        rw [removeItem_ok h.toStoreInv hitem]
        exact ih (h.without hitem) (hstep s id item h hitem hexp hP)

/-- A restart succeeds and keeps exactly the unexpired items. -/
theorem StoreOk.restart (hc : clock ≤ now.ns) :
    StoreOk p K now.ns (exec s (.restart p.dir now p.capacity p.routeQuota)).2 ∧
      ∀ id item, (exec s (.restart p.dir now p.capacity p.routeQuota)).2.items.lookup id =
        some item ↔ s.items.lookup id = some item ∧ now.ns < item.expiresAt.ns := by
  have hval : ∀ id item, s.items.lookup id = some item → now.ns < item.expiresAt.ns →
      validateItem item now defaultMaxItemBytes = .ok () := fun id item hi he =>
    (validateItem_ok_iff _ _ _).mpr
      ⟨(h.held id item hi).1.shape, (h.held id item hi).2.trans (by omega), he⟩
  obtain ⟨t, hopen, hreload⟩ := restart_valid h.toStoreInv h.decodes h.tidy h.setup.1
    (by rw [h.limits.1, h.limits.2]; exact h.setup.2)
  -- an unexpired item is valid
  have hexact : ∀ id item, t.items.lookup id = some item ↔
      s.items.lookup id = some item ∧ now.ns < item.expiresAt.ns := fun id item =>
    (hreload.exact id item).trans (and_congr_right fun hitem =>
      ⟨fun hv => ((validateItem_ok_iff _ _ _).mp hv).2.2, hval id item hitem⟩)
  have hlim := h.limits
  rw [hlim.1, hlim.2] at hopen
  have hexec : (exec s (.restart p.dir now p.capacity p.routeQuota)).2 = t := by
    rw [exec, hopen]
  rw [hexec]
  obtain ⟨-, -, hcl, hcap, hquota, htidy⟩ := newDiskStore_opened hopen
  refine ⟨⟨newDiskStore_inv hopen, hcl, ⟨hcap, hquota⟩, h.setup, htidy, hreload.decodes, fun id item hi => ?_⟩,
    hexact⟩
  exact (h.mono hc).held id item ((hexact id item).mp hi).1

end

/-! ## Opening -/

/-- What the start-up loop knows about the items it has indexed: they were read from the
    directory it started on, and were valid then. -/
structure LoadRead (now : Time) (d : Disk) (t : DiskStore) : Prop where
  dir : ∀ name f, t.dir.files.lookup name = some f → d.files.lookup name = some f
  read : ∀ id item, t.items.lookup id = some item →
    (∃ f, d.files.lookup (itemFile id) = some f ∧
      unmarshal storedItemCodec StoredItem.zero f.data = some item) ∧
    validateItem item now defaultMaxItemBytes = .ok ()

variable {now : Time} {d : Disk}

theorem LoadRead.step {t : DiskStore} (h : LoadRead now d t) (name : Bytes) :
    LoadRead now d (loadEntry now t name) := by
  obtain ⟨heq, -⟩ | ⟨heq, -⟩ | ⟨f, item, hf, hread, -, heq⟩ := loadEntry_cases now t name
  · rw [heq]
    exact h
  · rw [heq]
    refine ⟨fun n g hg => ?_, h.read⟩
    change (t.dir.files.erase name).lookup n = some g at hg
    rw [GoMap.lookup_erase_eq] at hg
    split at hg
    · cases hg
    · exact h.dir n g hg
  · rw [heq]
    obtain ⟨-, hdec, hval, rfl⟩ := readItem_spec hread
    refine ⟨h.dir, fun k i hk => ?_⟩
    change (t.items.insert item.itemID item).lookup k = some i at hk
    rw [GoMap.lookup_insert_eq] at hk
    split at hk
    · rename_i he
      obtain rfl := Option.some.inj hk
      exact ⟨⟨f, by rw [he]; exact h.dir _ f hf, hdec⟩, hval⟩
    · exact h.read k i hk

theorem LoadRead.foldl {t : DiskStore} (h : LoadRead now d t) (names : List Bytes) :
    LoadRead now d (names.foldl (loadEntry now) t) := by
  induction names generalizing t with
  | nil => exact h
  | cons name names ih => exact ih (h.step name)

theorem storeOk_of_open {p : Setup} {K : Set StoredItem} {d' : Disk} {s : DiskStore}
    (hopen : newDiskStore p.dir d now p.capacity p.routeQuota = (.ok s, d'))
    (hK : ∀ name f item, d.files.lookup name = some f →
      unmarshal storedItemCodec StoredItem.zero f.data = some item → item ∈ K) :
    StoreOk p K now.ns s := by
  obtain ⟨hdir, hle, hcl, hcap, hquota, htidy⟩ := newDiskStore_opened hopen
  have hinv := newDiskStore_inv hopen
  obtain ⟨e, d1, heq, -⟩ | ⟨d1, s1, heq, ht, -, -, hs⟩ :=
    newDiskStore_cases p.dir d now p.capacity p.routeQuota
  · rw [heq] at hopen
    cases hopen
  · rw [heq] at hopen
    obtain rfl := Except.ok.inj (Prod.mk.inj hopen).1
    have hstart : LoadRead now d1 (empty d1 p.capacity p.routeQuota) :=
      ⟨fun _ _ h => h, fun id item h => by simp [empty] at h⟩
    have hread : LoadRead now d1 s1 := hs ▸ hstart.foldl _
    refine ⟨hinv, hcl, ⟨hcap, hquota⟩, ⟨hdir, hle⟩, htidy, fun id item f hi hf => ?_,
      fun id item hi => ?_⟩
    · obtain ⟨⟨g, hg, hdec⟩, -⟩ := hread.read id item hi
      obtain rfl := Option.some.inj ((hread.dir _ f hf).symm.trans hg)
      exact hdec
    · obtain ⟨⟨g, hg, hdec⟩, hval⟩ := hread.read id item hi
      obtain ⟨hshape, hc, -⟩ := (validateItem_ok_iff _ _ _).mp hval
      have hord := itemFile_ordinary (hinv.keyed id item hi).2
      exact ⟨⟨hK _ g item (ht.only _ g hord.1 hg) hdec, hshape, storedItem_decode_readable hdec⟩, hc⟩

/-! ## The node invariant -/

structure NodeInv (p : Setup) (K : Set StoredItem) (n : NodeState) : Prop where
  store : StoreOk p K n.clock n.store
  /-- A pending delete carries the token of the item it names. -/
  pending : ∀ q ∈ n.pending, ∃ i, Sound K i ∧ i.itemID = q.itemID ∧
    sha256 q.deleteToken = i.deleteTokenHash

/-- What a store request can do to the store: nothing, or a `Put` of the item it
    carries. Only the latter is answered 201, when it succeeds. -/
theorem handleStore_cases (srv : Server) (s : DiskStore) (r : Request) (c c' : Time) :
    ((srv.handleStore s r c c').2 = s ∧ (srv.handleStore s r c c').1.status ≠ 201) ∨
    ∃ item, srv.requestItem r = .ok item ∧
      (srv.handleStore s r c c').2 = (s.put c' item).2 ∧
      ((srv.handleStore s r c c').1.status = 201 → (s.put c' item).1 = .ok ()) := by
  unfold Server.handleStore
  split
  · exact .inl ⟨rfl, by simp [Reply.status]⟩
  rename_i item hitem
  dsimp only
  split
  · exact .inl ⟨rfl, by simp [Reply.status]⟩
  split
  · exact .inl ⟨rfl, by simp [Reply.status]⟩
  right
  refine ⟨item, hitem, ?_⟩
  split
  · rename_i e s' hput
    rw [hput]
    refine ⟨rfl, fun h => ?_⟩
    cases e <;> simp [Reply.status, Server.putStatus] at h
  · rename_i s' hput
    rw [hput]
    split
    · exact ⟨rfl, fun _ => rfl⟩
    · exact ⟨rfl, fun _ => rfl⟩

/-- What a store request needs to be answered 201. -/
theorem handleStore_created {srv : Server} {s s' : DiskStore} {r : Request} {clock clock' : Time}
    {item : StoredItem} (hitem : srv.requestItem r = .ok item)
    (hval : validateItem item (clock.utc.truncate millisecond) srv.config.maxItemBytes = .ok ())
    (hwork : verifyWork item (clock.utc.truncate millisecond) srv.config.epochSeconds
      (srv.config.effectiveDifficulty s.usedBytes) = true)
    (hput : s.put clock' item = (.ok (), s')) (hsign : ∀ d m, (srv.sign d m).isSome) :
    (srv.handleStore s r clock clock').1.status = 201 ∧
      (srv.handleStore s r clock clock').2 = s' := by
  unfold Server.handleStore
  simp only [hitem, hval, hwork, hput, Bool.true_eq_false, if_false]
  split
  case h_1 h => exact absurd (hsign _ _) (by rw [h]; decide)
  case h_2 => exact ⟨rfl, rfl⟩

theorem requestItem_readable {srv : Server} {r : Request} {item : StoredItem}
    (h : srv.requestItem r = .ok item) : ItemReadable item := by
  unfold Server.requestItem decodeJSON at h
  split at h
  · cases h
  split at h
  · cases h
  split at h
  · rename_i v hv
    obtain rfl := Except.ok.inj h
    exact storedItem_decode_readable hv
  · cases h

theorem handleDeleteAct_store (srv : Server) (s : DiskStore) (q : DeleteRequest) (c : Time) :
    (srv.handleDeleteAct s q c).2 = (s.delete q.itemID).2 := by
  unfold Server.handleDeleteAct
  split
  · rename_i e s' h
    rw [h]
  · rename_i s' h
    rw [h]
    dsimp only
    split <;> rfl

/-- A delete request that passes its check carries the token of a stored item. -/
theorem handleDeleteCheck_spec {s : DiskStore} {r : Request} {c : Time} {q : DeleteRequest}
    (h : Server.handleDeleteCheck s r c = .ok q) :
    ∃ id item, s.items.lookup id = some item ∧ item.itemID = q.itemID ∧
      sha256 q.deleteToken = item.deleteTokenHash := by
  unfold Server.handleDeleteCheck at h
  split at h
  · cases h
  rename_i request _
  split at h
  · cases h
  split at h
  · cases h
  rename_i item hget
  split at h
  · cases h
  rename_i hmatch
  obtain rfl := Except.ok.inj h
  rw [Bool.not_eq_false, Server.deleteTokenMatches, beq_iff_eq] at hmatch
  unfold DiskStore.get at hget
  split at hget
  · cases hget
  split at hget
  · rename_i i hi
    split at hget
    · obtain rfl := Except.ok.inj hget
      exact ⟨_, _, hi, rfl, hmatch.symm⟩
    · cases hget
  · cases hget

/-- The items of the store requests among `e` are known. -/
def Knows (p : Setup) (K : Set StoredItem) (e : Event) : Prop :=
  ∀ r c c' item, e = .store r c c' → p.requestItem r = .ok item → item ∈ K

section

variable {p : Setup} {K : Set StoredItem} {n n' : NodeState} {e : Event}

theorem NodeStep.clock_le (h : NodeStep p n e n') : n.clock ≤ n'.clock := by
  cases e with
  | store r c c' => obtain ⟨h1, h2, rfl⟩ := h; exact h1.trans h2
  | fetch r c order => obtain ⟨h1, -, rfl⟩ := h; exact h1
  | proof r c c' => obtain ⟨h1, h2, rfl⟩ := h; exact h1.trans h2
  | deleteCheck r c => obtain ⟨h1, rfl⟩ := h; exact h1
  | deleteAct q c => obtain ⟨-, h1, rfl⟩ := h; exact h1
  | sweep now order => obtain ⟨h1, -, rfl⟩ := h; exact h1
  | restart now => obtain ⟨h1, rfl⟩ := h; exact h1

theorem NodeStep.inv (h : NodeInv p K n) (hk : Knows p K e) (hstep : NodeStep p n e n') :
    NodeInv p K n' := by
  have hmono := h.store.mono hstep.clock_le
  cases e with
  | store r c c' =>
    obtain ⟨h1, h2, rfl⟩ := hstep
    refine ⟨?_, h.pending⟩
    obtain ⟨heq, -⟩ | ⟨item, hitem, heq, -⟩ := handleStore_cases p.toServer n.store r c c'
    · simp only [heq]
      exact hmono
    · simp only [heq]
      exact h.store.put (h1.trans h2) (hk r c c' item rfl hitem) (requestItem_readable hitem)
  | fetch r c order =>
    obtain ⟨-, -, rfl⟩ := hstep
    exact ⟨hmono, h.pending⟩
  | proof r c c' =>
    obtain ⟨-, -, rfl⟩ := hstep
    exact ⟨hmono, h.pending⟩
  | deleteCheck r c =>
    obtain ⟨-, rfl⟩ := hstep
    refine ⟨hmono, fun q hq => ?_⟩
    dsimp only at hq
    split at hq
    · rename_i request hreq
      rcases List.mem_cons.mp hq with rfl | hq
      · obtain ⟨id, item, hi, hid, htok⟩ := handleDeleteCheck_spec hreq
        exact ⟨item, (h.store.held id item hi).1, hid, htok⟩
      · exact h.pending q hq
    · exact h.pending q hq
  | deleteAct q c =>
    obtain ⟨-, -, rfl⟩ := hstep
    refine ⟨?_, fun q' hq' => h.pending q' (List.mem_of_mem_erase hq')⟩
    simp only [handleDeleteAct_store]
    exact hmono.delete q.itemID
  | sweep now order =>
    obtain ⟨-, -, rfl⟩ := hstep
    refine ⟨?_, h.pending⟩
    dsimp only
    rw [sweep, if_neg (by simp [h.store.isOpen])]
    exact (hmono.sweepLoop (P := fun _ => True) trivial (fun _ _ _ _ _ _ _ => trivial) order).1
  | restart now =>
    obtain ⟨h1, rfl⟩ := hstep
    exact ⟨(h.store.restart h1).1, fun q hq => by cases hq⟩

end

end Veilmesh.Node

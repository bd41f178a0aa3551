/-
  The client core (`client/core.go`): building it, storing an item on enough nodes, and
  keeping the delivery for later.

  `Core` carries what `New` has checked. `StoreEnv` is all that a call of `StoreReplicated`
  meets: the clock, what each node answers and in which order answers arrive, the iteration
  order of a map, the context, the nonce of the local record. A node is asked for its
  parameters once and to store at most once in a call, so its answers are functions of the
  node. What comes back besides the result is the core with its reputation and store as the
  call leaves them.

  * `newCore`, `Core.storeReplicated`, `Core.persistDelivery`, `Core.loadDelivery`.
-/
import Veilmesh.Client.Http
import Veilmesh.Client.Reputation

namespace Veilmesh.Client

open Lib Protocol Pqcrypto List

def maxClientNodes : Nat := 64

/-! ## The core -/

/-- What `New` is called with; a missing node is a nil pointer. -/
structure Config where
  nodes : List (Option HTTPNode)
  replicas : Int
  writeQuorum : Int
  reputation : Option Reputation
  store : Option EncryptedDiskStore

inductive CoreError where
  | nodes
  | descriptor
  | duplicate
  | quorum
  deriving DecidableEq, Repr

/-- A core as `New` makes it: valid nodes with different identifiers, and a write quorum
    that the replicas can reach. -/
structure Core (c : Primitives) where
  nodes : List HTTPNode
  replicas : Nat
  writeQuorum : Nat
  reputation : Reputation
  store : Option EncryptedDiskStore
  valid : ∀ n ∈ nodes, validPublicIdentity c n.identity = true
  distinct : (nodes.map (·.identity.nodeID)).Nodup
  quorum_pos : 0 < writeQuorum
  quorum_le : writeQuorum ≤ replicas
  replicas_le : replicas ≤ nodes.length

/-- The loop of `New` over the nodes; `seen` are the identifiers before. -/
def checkNodes (c : Primitives) (seen : List Bytes) :
    List (Option HTTPNode) → Except CoreError (List HTTPNode)
  | [] => .ok []
  | none :: _ => .error .descriptor
  | some candidate :: rest =>
    if candidate.client = false ∨ validPublicIdentity c candidate.identity = false then
      .error .descriptor
    else if candidate.identity.nodeID ∈ seen then .error .duplicate
    else
      match checkNodes c (candidate.identity.nodeID :: seen) rest with
      | .error e => .error e
      | .ok nodes => .ok (candidate :: nodes)

theorem checkNodes_ok {c : Primitives} {candidates : List (Option HTTPNode)} :
    ∀ {seen : List Bytes} {nodes : List HTTPNode}, checkNodes c seen candidates = .ok nodes →
      (∀ n ∈ nodes, validPublicIdentity c n.identity = true ∧ n.identity.nodeID ∉ seen) ∧
        (nodes.map (·.identity.nodeID)).Nodup := by
  induction candidates with
  | nil =>
    intro seen nodes h
    obtain rfl := Except.ok.inj h
    exact ⟨fun n hn => absurd hn not_mem_nil, nodup_nil⟩
  | cons candidate rest ih =>
    intro seen nodes h
    cases candidate with
    | none => cases h
    | some candidate =>
      unfold checkNodes at h
      split at h
      · cases h
      · rename_i hvalid
        split at h
        · cases h
        · rename_i hseen
          split at h
          · cases h
          · rename_i tail htail
            obtain rfl := Except.ok.inj h
            obtain ⟨hall, hnodup⟩ := ih htail
            simp only [not_or, Bool.not_eq_false] at hvalid
            refine ⟨fun n hn => ?_, ?_⟩
            · rcases mem_cons.mp hn with rfl | hn
              · exact ⟨hvalid.2, hseen⟩
              · exact ⟨(hall n hn).1, fun hin => (hall n hn).2 (mem_cons_of_mem _ hin)⟩
            · rw [map_cons, nodup_cons]
              refine ⟨fun hin => ?_, hnodup⟩
              obtain ⟨n, hn, heq⟩ := mem_map.mp hin
              exact (hall n hn).2 (heq ▸ mem_cons_self)

def newCore (c : Primitives) (config : Config) : Except CoreError (Core c) :=
  if config.nodes.length = 0 ∨ config.nodes.length > maxClientNodes then .error .nodes
  else
    match hnodes : checkNodes c [] config.nodes with
    | .error e => .error e
    | .ok nodes =>
      let replicas :=
        if config.replicas ≤ 0 ∨ config.replicas > nodes.length then nodes.length
        else config.replicas.toNat
      let writeQuorum :=
        if config.writeQuorum ≤ 0 then replicas / 2 + 1 else config.writeQuorum.toNat
      if hquorum : writeQuorum > replicas then .error .quorum
      else .ok {
        nodes := nodes
        replicas := replicas
        writeQuorum := writeQuorum
        reputation := config.reputation.getD newReputation
        store := config.store
        valid := fun n hn => ((checkNodes_ok hnodes).1 n hn).1
        distinct := (checkNodes_ok hnodes).2
        quorum_pos := by
          dsimp only [writeQuorum]
          split <;> omega
        quorum_le := by omega
        replicas_le := by
          dsimp only [replicas]
          split <;> omega }

/-! ## Items -/

/-- A capability from 32 random bytes. -/
def randomCapability (value : Bytes) : Bytes := base64Encode base64UrlAlphabet false value

theorem validRouteTag_randomCapability {value : Bytes} (h : value.length = 32) :
    validRouteTag (randomCapability value) = true :=
  validRouteTag_spec.mpr ⟨value, h, rfl⟩

/-- The item `SendDirect` and `StoreOpaque` build around a payload: created now, to the
    millisecond, and kept for the fixed time. -/
def freshItem (routeTag : Bytes) (clock : Time) (deleteToken payload : Bytes) : StoredItem :=
  let createdAt := clock.utc.truncate millisecond
  let item : StoredItem :=
    { version := protocolVersion
      itemID := []
      routeTag := routeTag
      createdAt := createdAt
      expiresAt := createdAt.add fixedItemRetention
      deleteTokenHash := sha256 deleteToken
      payload := payload
      work := WorkProof.zero }
  { item with itemID := computeItemID item }

theorem freshItem_created_le (routeTag : Bytes) (clock : Time) (deleteToken payload : Bytes) :
    (freshItem routeTag clock deleteToken payload).createdAt.ns ≤ clock.ns := by
  exact clock.truncate_le

/-! ## Deliveries -/

structure Delivery where
  item : StoredItem
  deleteToken : Bytes
  receipts : List StorageReceipt
  failedNodes : GoMap Bytes Bytes

def Delivery.zero : Delivery := ⟨StoredItem.zero, [], [], ∅⟩

def deliveryFields : List (JsonField Delivery) := [
  ⟨lit "item", StoredItem, (·.item), fun d v => { d with item := v }, storedItemCodec⟩,
  ⟨lit "delete_token", Bytes, (·.deleteToken), fun d v => { d with deleteToken := v }, bytesCodec⟩,
  ⟨lit "receipts", List StorageReceipt, (·.receipts), fun d v => { d with receipts := v },
    listCodec storageReceiptCodec StorageReceipt.zero⟩,
  ⟨lit "failed_nodes", GoMap Bytes Bytes, (·.failedNodes), fun d v => { d with failedNodes := v },
    mapCodec stringCodec []⟩]

/-- An empty map of failed nodes is left out. -/
def deliveryCodec : Codec Delivery where
  encode d :=
    (structCodec (if d.failedNodes.size = 0 then deliveryFields.take 3 else deliveryFields)).encode d
  decode := (structCodec deliveryFields).decode

/-- The times in a delivery, in the order they are written. -/
def Delivery.times (d : Delivery) : List Time :=
  d.item.createdAt :: d.item.expiresAt :: d.receipts.flatMap fun r => [r.storedAt, r.expiresAt]

def deliveryRecordID (itemID : Bytes) : Bytes := lit "delivery." ++ itemID

theorem validLocalRecordID_delivery (item : StoredItem) :
    validLocalRecordID (deliveryRecordID (computeItemID item)) = true := by
  have hlength : (deliveryRecordID (computeItemID item)).length = 73 := by
    rw [deliveryRecordID, length_append, length_computeItemID]
    rfl
  have hhex : ∀ c ∈ hexAlphabet, validLocalRecordIDByte c = true := by decide +kernel
  have hdomain : ∀ c ∈ lit "delivery.", validLocalRecordIDByte c = true := by decide +kernel
  rw [validLocalRecordID, hlength]
  simp only [Bool.and_eq_true, all_eq_true]
  refine ⟨by decide, fun c hc => ?_⟩
  rcases mem_append.mp hc with hc | hc
  · exact hdomain c hc
  · exact hhex c (mem_hexEncode hc)

/-! ## Storing -/

/-- What a call of `StoreReplicated` meets outside. -/
structure StoreEnv where
  /-- The clock when the call starts, and when the nodes to ask are chosen. -/
  now : Time
  allowedAt : Time
  texts : JsonTexts
  /-- The answers to the request for parameters, and the clock when each is looked at. -/
  parameters : HTTPNode → Exchange
  parametersAt : HTTPNode → Time
  parameterArrival : List HTTPNode → List HTTPNode
  parameterArrival_perm : ∀ nodes, (parameterArrival nodes).Perm nodes
  /-- The order in which the map of groups is gone through. -/
  epochOrder : Finset Int64 → List Int64
  epochOrder_nodup : ∀ epochs, (epochOrder epochs).Nodup
  mem_epochOrder : ∀ epochs epoch, epoch ∈ epochOrder epochs ↔ epoch ∈ epochs
  /-- The clock when the search for work starts, and what the context says during it. -/
  workAt : Time
  workDone : Nat → Option Bytes
  /-- The answers to the request to store, the clock when each is there and when it is
      looked at. -/
  stored : HTTPNode → Exchange
  storedAt : HTTPNode → Time
  handledAt : HTTPNode → Time
  storeArrival : List HTTPNode → List HTTPNode
  storeArrival_perm : ∀ nodes, (storeArrival nodes).Perm nodes
  /-- The clock, the context and the nonce of the local record. -/
  persistAt : Time
  persistCtx : Context
  nonce : Bytes

inductive PersistError where
  | encoding (text : Bytes)
  | store (e : ClientStoreError)
  deriving DecidableEq, Repr

inductive DeliveryError where
  | item (e : ItemError)
  | capability
  | excluded
  | parameters
  | work (e : WorkError)
  | quorum (got want : Nat) (err : Option PersistError)
  | persist (e : PersistError)
  deriving DecidableEq, Repr

/-- The persistence error in an error of `StoreReplicated`. -/
def DeliveryError.persistence : DeliveryError → Option PersistError
  | .quorum _ _ err => err
  | .persist e => some e
  | _ => none

structure Offer where
  node : HTTPNode
  parameters : NodeParameters

/-- What the answers about parameters amount to so far. -/
structure Answers where
  reputation : Reputation
  failedNodes : GoMap Bytes Bytes
  groups : GoMap Int64 (List Offer)

def takeParameters (env : StoreEnv) (item : StoredItem) (acc : Answers) (node : HTTPNode) :
    Answers :=
  match HTTPNode.parameters env.texts (env.parameters node) with
  | .error e =>
    { acc with
      reputation := acc.reputation.failure node.identity.nodeID (some e.text) (env.parametersAt node)
      failedNodes := acc.failedNodes.insert node.identity.nodeID e.text }
  | .ok parameters =>
    if (item.payload.length : Int) > parameters.maxItemBytes.toInt then
      { acc with
        failedNodes :=
          acc.failedNodes.insert node.identity.nodeID (lit "item violates node limits") }
    else
      { acc with
        groups := acc.groups.insert parameters.epochSeconds
          (acc.groups.getD parameters.epochSeconds [] ++ [⟨node, parameters⟩]) }

/-- The order of a group: by difficulty, then by identifier. -/
def offerLE (i j : Offer) : Bool :=
  if i.parameters.difficulty = j.parameters.difficulty then
    decide (bytesLE i.node.identity.nodeID j.node.identity.nodeID)
  else decide (i.parameters.difficulty < j.parameters.difficulty)

structure Selection where
  group : List Offer
  epochSeconds : Int64
  threshold : UInt8

/-- One round of the choice of a group: the largest, then the one with the least work. -/
def chooseGroup (writeQuorum : Nat) (groups : GoMap Int64 (List Offer)) (selected : Option Selection)
    (epoch : Int64) : Option Selection :=
  let group := groups.getD epoch []
  if group.length < writeQuorum then selected
  else
    let group := group.mergeSort offerLE
    let threshold := (group[writeQuorum - 1]?.map (·.parameters.difficulty)).getD 0
    match selected with
    | none => some ⟨group, epoch, threshold⟩
    | some best =>
      if group.length > best.group.length ∨
          group.length = best.group.length ∧ threshold < best.threshold then
        some ⟨group, epoch, threshold⟩
      else some best

/-- The nodes whose difficulty the work is enough for. -/
def Selection.usable (selected : Selection) : List HTTPNode :=
  (selected.group.filter fun o => decide (o.parameters.difficulty ≤ selected.threshold)).map (·.node)

/-- What the answers to the request to store amount to so far. -/
structure Progress where
  reputation : Reputation
  failedNodes : GoMap Bytes Bytes
  receipts : List StorageReceipt

def takeReceipt (c : Primitives) (env : StoreEnv) (item : StoredItem) (acc : Progress)
    (node : HTTPNode) : Progress :=
  match node.store c env.texts item (env.stored node) (env.storedAt node) with
  | .error e =>
    { acc with
      reputation := acc.reputation.failure node.identity.nodeID (some e.text) (env.handledAt node)
      failedNodes := acc.failedNodes.insert node.identity.nodeID e.text }
  | .ok receipt =>
    { acc with
      reputation := acc.reputation.success node.identity.nodeID false
      receipts := acc.receipts ++ [receipt] }

/-- Later candidates take the place of failed nodes until there are enough receipts. -/
def replaceFailed (c : Primitives) (env : StoreEnv) (item : StoredItem) (replicas : Nat) :
    List HTTPNode → Progress → Progress
  | [], acc => acc
  | node :: nodes, acc =>
    if acc.receipts.length ≥ replicas then acc
    else replaceFailed c env item replicas nodes (takeReceipt c env item acc node)

/-- The primary nodes at once, then the replacements one by one. -/
def storeOn (c : Primitives) (env : StoreEnv) (item : StoredItem) (replicas : Nat)
    (usable : List HTTPNode) (acc : Progress) : Progress :=
  let primaryCount := min replicas usable.length
  replaceFailed c env item replicas (usable.drop primaryCount)
    ((env.storeArrival (usable.take primaryCount)).foldl (takeReceipt c env item) acc)

namespace Core

variable {c : Primitives}

def allowedNodes (core : Core c) (now : Time) : List HTTPNode :=
  core.nodes.filter fun n => core.reputation.allowed n.identity.nodeID now

def nodeByID (core : Core c) (nodeID : Bytes) : Option HTTPNode :=
  core.nodes.find? fun n => n.identity.nodeID == nodeID

/-- The record a delivery is kept in. -/
def deliveryRecord (delivery : Delivery) (encoded : Bytes) (now : Time) : LocalRecord where
  version := clientStoreVersion
  id := deliveryRecordID delivery.item.itemID
  kind := localKindDelivery
  createdAt := delivery.item.createdAt
  updatedAt := if now.before delivery.item.createdAt then delivery.item.createdAt else now
  expiresAt := delivery.item.expiresAt
  prunePolicy := pruneAfterExpiry
  payload := encoded

/-- Keep a delivery in the store, if there is one. -/
def persistDelivery (a : Aead) (core : Core c) (texts : JsonTexts) (ctx : Context)
    (delivery : Delivery) (now : Time) (nonce : Bytes) : Option PersistError × Core c :=
  match core.store with
  | none => (none, core)
  | some s =>
    match marshal deliveryCodec delivery with
    | none => (some (.encoding (texts.encode delivery.times)), core)
    | some encoded =>
      match s.put a ctx (deliveryRecord delivery encoded now) now nonce with
      | ((_, err), s) => (err.map .store, { core with store := some s })

/-- Ask the candidates for their parameters and choose a group of them. -/
def chooseNodes (core : Core c) (env : StoreEnv) (item : StoredItem) :
    Answers × Option Selection :=
  let answers := (env.parameterArrival (core.allowedNodes env.allowedAt)).foldl
    (takeParameters env item) ⟨core.reputation, ∅, ∅⟩
  (answers, (env.epochOrder answers.groups.keys).foldl
    (chooseGroup core.writeQuorum answers.groups) none)

/-- The end of `StoreReplicated`: whether there are enough receipts, and keeping the delivery
    if there is any. -/
def finishDelivery (a : Aead) (core : Core c) (env : StoreEnv) (delivery : Delivery) :
    (Delivery × Option DeliveryError) × Core c :=
  let got := delivery.receipts.length
  if got < core.writeQuorum then
    if got = 0 then ((delivery, some (.quorum got core.writeQuorum none)), core)
    else
      match core.persistDelivery a env.texts env.persistCtx delivery env.persistAt.utc env.nonce with
      | (err, kept) => ((delivery, some (.quorum got core.writeQuorum err)), kept)
  else
    match core.persistDelivery a env.texts env.persistCtx delivery env.persistAt.utc env.nonce with
    | (err, kept) => ((delivery, err.map .persist), kept)

/-- Store an item; nothing comes back when the search for work is not over after `fuel`
    nonces. -/
def storeReplicated (a : Aead) (core : Core c) (env : StoreEnv) (item : StoredItem)
    (deleteToken : Bytes) (fuel : Nat) : Option ((Delivery × Option DeliveryError) × Core c) :=
  match validateItem item env.now.utc defaultMaxItemBytes with
  | .error e => some ((.zero, some (.item e)), core)
  | .ok () =>
    if deleteToken.length ≠ capabilityBytes ∨ item.deleteTokenHash ≠ sha256 deleteToken then
      some ((.zero, some .capability), core)
    else if (core.allowedNodes env.allowedAt).length < core.writeQuorum then
      some ((.zero, some .excluded), core)
    else
      match core.chooseNodes env item with
      | (answers, none) =>
        some ((.zero, some .parameters), { core with reputation := answers.reputation })
      | (answers, some selected) =>
        match solveWork item selected.epochSeconds selected.threshold env.workAt env.workDone
          fuel with
        | none => none
        | some (.error e) =>
          some ((.zero, some (.work e)), { core with reputation := answers.reputation })
        | some (.ok work) =>
          let item := { item with work := work }
          let progress := storeOn c env item core.replicas selected.usable
            ⟨answers.reputation, answers.failedNodes, []⟩
          some (finishDelivery a { core with reputation := progress.reputation } env
            ⟨item, deleteToken, progress.receipts, progress.failedNodes⟩)

inductive OpaqueError where
  | capabilities
  | delivery (e : DeliveryError)
  deriving DecidableEq, Repr

/-- Store data that is encrypted already; `clock` is when the item is built. -/
def storeOpaque (a : Aead) (core : Core c) (env : StoreEnv) (clock : Time)
    (routeTag payload deleteToken : Bytes) (fuel : Nat) :
    Option ((Delivery × Option OpaqueError) × Core c) :=
  if validRouteTag routeTag = false ∨ payload.length = 0 ∨ payload.length > defaultMaxItemBytes ∨
      deleteToken.length ≠ capabilityBytes then some ((.zero, some .capabilities), core)
  else
    match core.storeReplicated a env (freshItem routeTag clock deleteToken payload) deleteToken fuel with
    | none => none
    | some ((delivery, err), core) => some ((delivery, err.map .delivery), core)

/-! ## Loading -/

inductive LoadError where
  | unavailable
  | store (e : ClientStoreError)
  | record
  | decode (text : Bytes)
  | state
  | unknownNode
  | duplicate
  | receipt
  deriving DecidableEq, Repr

/-- The loop of `LoadDelivery` over the receipts; `seen` are the nodes before. -/
def checkReceipts (core : Core c) (item : StoredItem) (now : Time) (seen : List Bytes) :
    List StorageReceipt → Option LoadError
  | [] => none
  | receipt :: receipts =>
    match core.nodeByID receipt.nodeID with
    | none => some .unknownNode
    | some node =>
      if receipt.nodeID ∈ seen then some .duplicate
      else if verifyStorageReceipt c node.identity item receipt now = false then some .receipt
      else checkReceipts core item now (receipt.nodeID :: seen) receipts

/-- What `LoadDelivery` checks of a decoded delivery and its record. -/
def loadedOk (record : LocalRecord) (delivery : Delivery) (itemID : Bytes) (now : Time) : Bool :=
  delivery.item.itemID == itemID &&
    (validateItem delivery.item now defaultMaxItemBytes matches .ok ()) &&
    record.createdAt.equal delivery.item.createdAt && record.expiresAt.equal delivery.item.expiresAt &&
    delivery.deleteToken.length == capabilityBytes &&
    delivery.item.deleteTokenHash == sha256 delivery.deleteToken

/-- Read a delivery back; `clock` is the wall clock the record is read at. -/
def loadDelivery (a : Aead) (core : Core c) (texts : JsonTexts) (ctx : Context) (itemID : Bytes)
    (now clock : Time) : Except LoadError Delivery :=
  match core.store with
  | none => .error .unavailable
  | some s =>
    if itemID.length ≠ 32 * 2 ∨ now.isZero = true then .error .unavailable
    else
      match s.get a ctx (deliveryRecordID itemID) clock with
      | .error e => .error (.store e)
      | .ok record =>
        if record.version ≠ clientStoreVersion ∨ record.id ≠ deliveryRecordID itemID ∨
            record.kind ≠ localKindDelivery ∨ record.prunePolicy ≠ pruneAfterExpiry then
          .error .record
        else
          match unmarshal deliveryCodec Delivery.zero record.payload with
          | none => .error (.decode (texts.decode record.payload))
          | some delivery =>
            if loadedOk record delivery itemID now = false then .error .state
            else
              match core.checkReceipts delivery.item now [] delivery.receipts with
              | some e => .error e
              | none => .ok delivery

end Core

end Veilmesh.Client

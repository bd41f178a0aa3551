/-
  Deleting a delivery (`Delete` of `client/core.go`), and trying again.

  A call asks the nodes of the receipts one after the other. Each request and each answer may
  be lost (`Fate`); a node whose answer is lost has deleted the item all the same. The nodes
  are honest: they do what `handleDelete` does.

  * `deleteReceipts_iff`: when a call that reaches all nodes finds no error.
  * `Carries.nodes`: what a call leaves at a node.
  * `delete_retry_iff`: a call that reaches all nodes succeeds just when no request of the
    calls before it has come through.
-/
import Veilmesh.Client.Fetch
import Veilmesh.Client.Link
import Veilmesh.Client.Repair
import Veilmesh.Node.Durability

namespace Veilmesh.Client

open Lib Protocol Pqcrypto Node List Function
open Time (epoch)

inductive DeliveryDeleteError where
  | capability
  | node (e : NodeError)
  | store (e : ClientStoreError)
  deriving DecidableEq, Repr

/-- What a call of `Delete` meets: for each receipt the answer of its node, the two looks at the
    clock when it is there, and the one when a failure is noted. -/
structure DeliveryDeleteEnv where
  texts : JsonTexts
  ctx : Context
  deleted : Nat → Exchange
  deletedAt : Nat → Time
  deletedAt' : Nat → Time
  failedAt : Nat → Time

/-- What the requests came to so far. -/
structure Deleting where
  results : GoMap Bytes (Option DeliveryDeleteError)
  reputation : Reputation
  allDeleted : Bool

section

variable {c : Primitives}

/-- Ask the node of the receipt at place `i`. -/
def deleteReceipt (core : Core c) (env : DeliveryDeleteEnv) (request : DeleteRequest) (i : Nat)
    (acc : Deleting) (receipt : StorageReceipt) : Deleting :=
  match core.nodeByID receipt.nodeID with
  | none => { acc with allDeleted := false }
  | some node =>
    match node.delete c env.texts request (env.deleted i) (env.deletedAt i) (env.deletedAt' i) with
    | .ok _ => { acc with results := acc.results.insert node.identity.nodeID none }
    | .error e =>
      { results := acc.results.insert node.identity.nodeID (some (.node e))
        reputation := acc.reputation.failure node.identity.nodeID (some e.text) (env.failedAt i)
        allDeleted := false }

def deleteReceipts (core : Core c) (env : DeliveryDeleteEnv) (request : DeleteRequest) :
    Nat → List StorageReceipt → Deleting → Deleting
  | _, [], acc => acc
  | i, receipt :: receipts, acc =>
    deleteReceipts core env request (i + 1) receipts (deleteReceipt core env request i acc receipt)

def Delivery.deleteRequest (delivery : Delivery) : DeleteRequest :=
  ⟨delivery.item.itemID, delivery.deleteToken⟩

/-- The results by node; the local record goes when all nodes have deleted. -/
def Core.delete (core : Core c) (env : DeliveryDeleteEnv) (delivery : Delivery) :
    GoMap Bytes (Option DeliveryDeleteError) × Core c :=
  if delivery.deleteToken.length ≠ capabilityBytes ∨
      delivery.item.deleteTokenHash ≠ sha256 delivery.deleteToken then
    (GoMap.insertAll (fun receipt : StorageReceipt => receipt.nodeID) (fun _ => some .capability)
      delivery.receipts ∅, core)
  else
    let done := deleteReceipts core env delivery.deleteRequest 0 delivery.receipts
      ⟨∅, core.reputation, decide (0 < delivery.receipts.length)⟩
    let core := { core with reputation := done.reputation }
    match done.allDeleted, core.store with
    | true, some s =>
      match s.delete env.ctx (deliveryRecordID delivery.item.itemID) with
      | (none, s) | (some .notFound, s) => (done.results, { core with store := some s })
      | (some e, s) => (done.results.insert (lit "local-client-store") (some (.store e)),
          { core with store := some s })
    | _, _ => (done.results, core)

end

/-! ## Losses -/

/-- What becomes of a request: it is lost, its answer is lost, or it is answered; the times are
    the node's readings of its clock. -/
inductive Fate where
  | requestLost
  | answerLost (clock clock' : Time)
  | answered (clock clock' : Time)

/-- The stores of the nodes, by identifier. -/
abbrev Nodes := Bytes → DiskStore

/-- A request to a node with its fate: what the client sees, and the store afterwards. -/
def Carried (srv : Server) (s : DiskStore) (r : Request) : Fate → Exchange → DiskStore → Prop
  | .requestLost, x, s' => (∃ text, x = .failed text) ∧ s' = s
  | .answerLost clock clock', x, s' =>
    (∃ text, x = .failed text) ∧ s' = (srv.handleDelete s r clock clock').2
  | .answered clock clock', x, s' =>
    Shows (srv.handleDelete s r clock clock').1 x ∧ s' = (srv.handleDelete s r clock clock').2

/-- The requests of a call, from place `i` on. -/
def Carries {c : Primitives} (core : Core c) (srv : Bytes → Server) (r : Request)
    (env : DeliveryDeleteEnv) (fates : Nat → Fate) :
    Nat → List StorageReceipt → Nodes → Nodes → Prop
  | _, [], w, w' => w' = w
  | i, receipt :: receipts, w, w' =>
    match core.nodeByID receipt.nodeID with
    | none => Carries core srv r env fates (i + 1) receipts w w'
    | some _ => ∃ s, Carried (srv receipt.nodeID) (w receipt.nodeID) r (fates i) (env.deleted i) s ∧
        Carries core srv r env fates (i + 1) receipts (Function.update w receipt.nodeID s) w'

section

variable {c : Primitives} {node : HTTPNode} {srv : Server} {s s' : DiskStore}
  {request : DeleteRequest} {body : Bytes} {clock clock' : Time}

theorem not_deletable_of_lookup (h : s.items.lookup request.itemID = none) :
    ¬ Deletable s clock request := by
  rintro ⟨item, hget, -⟩
  rw [(get_ok_iff.mp hget).2.1] at h
  cases h

theorem lookup_delete_of_deletable (hinv : StoreInv s) (h : Deletable s clock request) :
    (s.delete request.itemID).2.items.lookup request.itemID = none := by
  obtain ⟨item, hget, -⟩ := h
  obtain ⟨hopen, hitem, -⟩ := get_ok_iff.mp hget
  rw [delete_held hinv hopen hitem]
  change (s.items.erase request.itemID).lookup request.itemID = none
  rw [GoMap.lookup_erase_eq, if_pos rfl]

/-- The store after a request: without the item if it was held, as before otherwise. -/
theorem handleDelete_store (hosts : Hosts c node srv) (hinv : StoreInv s)
    (hok : DeleteRequestOk request) (hbody : marshal deleteRequestCodec request = some body) :
    StoreInv (srv.handleDelete s (jsonRequest body) clock clock').2 ∧
    (Deletable s clock request → (srv.handleDelete s (jsonRequest body) clock clock').2.items.lookup
      request.itemID = none) ∧
    (s.items.lookup request.itemID = none →
      (srv.handleDelete s (jsonRequest body) clock clock').2 = s) := by
  by_cases hheld : Deletable s clock request
  · obtain ⟨signature, -, heq⟩ := @handleDelete_held c node srv s request body clock clock' hosts hinv hok hbody hheld
    rw [heq]
    refine ⟨(delete_inv hinv _).1, fun _ => lookup_delete_of_deletable hinv hheld, fun hnone => ?_⟩
    exact absurd hheld (not_deletable_of_lookup hnone)
  · obtain ⟨cause, heq⟩ := @handleDelete_missing srv s request body clock clock' hok hbody hheld
    rw [heq]
    exact ⟨hinv, fun h => absurd h hheld, fun _ => rfl⟩

end

/-! ## The requests of a call -/

/-- The reading of its clock a node decides by. -/
def Fate.Before (e : Int) : Fate → Prop
  | .requestLost => True
  | .answerLost clock _ | .answered clock _ => clock.ns < e

/-- The node has the item, up to the instant `e`. -/
def HeldUntil (s : DiskStore) (e : Int) (request : DeleteRequest) : Prop :=
  ∀ clock : Time, clock.ns < e → Deletable s clock request

/-- The node has the item or has it no more. -/
def Settled (s : DiskStore) (e : Int) (request : DeleteRequest) : Prop :=
  HeldUntil s e request ∨ s.items.lookup request.itemID = none

/-- The nodes of the receipts are nodes the client knows, and honest. -/
def HonestNodes {c : Primitives} (core : Core c) (srv : Bytes → Server)
    (receipts : List StorageReceipt) : Prop :=
  ∀ receipt ∈ receipts, ∃ node, core.nodeByID receipt.nodeID = some node ∧
    Hosts c node (srv receipt.nodeID)

section

variable {c : Primitives} {core : Core c} {srv : Bytes → Server} {request : DeleteRequest}
  {body : Bytes} {env : DeliveryDeleteEnv} {fates : Nat → Fate} {w w' : Nodes} {e : Int}
  {s : DiskStore} {i : Nat} {all : List StorageReceipt}

/-- What a request leaves: the store as it was if it was lost, a store without the item
    otherwise. -/
theorem carried_store {node : HTTPNode} {srv : Server} {s' : DiskStore} {fate : Fate} {x : Exchange}
    (hosts : Hosts c node srv) (hinv : StoreInv s) (hok : DeleteRequestOk request)
    (hbody : marshal deleteRequestCodec request = some body) (hset : Settled s e request)
    (hfate : fate.Before e) (h : Carried srv s (jsonRequest body) fate x s') :
    StoreInv s' ∧ Settled s' e request ∧ (s.items.lookup request.itemID = none → s' = s) ∧
      (fate ≠ .requestLost → s'.items.lookup request.itemID = none) := by
  have hdone : ∀ clock clock' : Time, clock.ns < e →
      s' = (srv.handleDelete s (jsonRequest body) clock clock').2 →
      StoreInv s' ∧ Settled s' e request ∧ (s.items.lookup request.itemID = none → s' = s) ∧
        (fate ≠ .requestLost → s'.items.lookup request.itemID = none) := by
    intro clock clock' hclock hs'
    obtain ⟨hinv', hgone, hsame⟩ := @handleDelete_store c node srv s request body clock clock' hosts
      hinv hok hbody
    rw [← hs'] at hinv' hgone hsame
    have hnone : s'.items.lookup request.itemID = none := by
      rcases hset with hheld | hmissing
      · exact hgone (hheld clock hclock)
      · rw [hsame hmissing, hmissing]
    exact ⟨hinv', .inr hnone, hsame, fun _ => hnone⟩
  cases fate with
  | requestLost =>
    obtain ⟨-, rfl⟩ := h
    exact ⟨hinv, hset, fun _ => rfl, fun hne => absurd rfl hne⟩
  | answerLost clock clock' => exact hdone clock clock' hfate h.2
  | answered clock clock' => exact hdone clock clock' hfate h.2

/-- What a call keeps of the nodes. -/
structure SoundNodes (request : DeleteRequest) (e : Int) (receipts : List StorageReceipt)
    (w : Nodes) : Prop where
  inv : ∀ id, StoreInv (w id)
  settled : ∀ receipt ∈ receipts, Settled (w receipt.nodeID) e request

/-- One request of a call, in terms of the nodes. -/
theorem carries_cons {receipt : StorageReceipt} {receipts : List StorageReceipt}
    (hknown : HonestNodes core srv all) (hmem : receipt ∈ all) (hw : SoundNodes request e all w)
    (hok : DeleteRequestOk request) (hbody : marshal deleteRequestCodec request = some body)
    (hfate : (fates i).Before e)
    (h : Carries core srv (jsonRequest body) env fates i (receipt :: receipts) w w') :
    ∃ w1, SoundNodes request e all w1 ∧
      Carries core srv (jsonRequest body) env fates (i + 1) receipts w1 w' ∧
      (fates i = .requestLost → w1 = w) ∧
      (fates i ≠ .requestLost → (w1 receipt.nodeID).items.lookup request.itemID = none) ∧
      (∀ id, (w id).items.lookup request.itemID = none → w1 id = w id) ∧
      (∀ id, id ≠ receipt.nodeID → w1 id = w id) ∧
      Carried (srv receipt.nodeID) (w receipt.nodeID) (jsonRequest body) (fates i) (env.deleted i)
        (w1 receipt.nodeID) := by
  obtain ⟨node, hnode, hosts⟩ := hknown receipt hmem
  rw [Carries, hnode] at h
  obtain ⟨s, hcarried, hrest⟩ := h
  obtain ⟨hinv, hset, hsame, hgone⟩ := carried_store hosts (hw.inv _) hok hbody
    (hw.settled receipt hmem) hfate hcarried
  have hother : ∀ id, id ≠ receipt.nodeID → update w receipt.nodeID s id = w id :=
    fun id hne => update_of_ne hne s w
  refine ⟨_, ⟨fun id => ?_, fun r hr => ?_⟩, hrest, fun hlost => ?_, ?_, fun id hnone => ?_, hother, ?_⟩
  · by_cases hid : id = receipt.nodeID
    · rw [hid, update_self]
      exact hinv
    · rw [hother id hid]
      exact hw.inv id
  · by_cases hid : r.nodeID = receipt.nodeID
    · rw [hid, update_self]
      exact hset
    · rw [hother _ hid]
      exact hw.settled r hr
  · rw [hlost] at hcarried
    obtain ⟨-, rfl⟩ := hcarried
    exact update_eq_self _ _
  · rw [update_self]
    exact hgone
  · by_cases hid : id = receipt.nodeID
    · subst hid
      rw [update_self]
      exact hsame hnone
    · exact hother id hid
  · rw [update_self]
    exact hcarried

/-- What a call leaves at the nodes: all as before if every request was lost; what is gone stays
    gone; a node that a request has reached has the item no more. -/
theorem Carries.nodes (hknown : HonestNodes core srv all) (hok : DeleteRequestOk request)
    (hbody : marshal deleteRequestCodec request = some body) :
    ∀ {i : Nat} {receipts : List StorageReceipt} {w w' : Nodes}, receipts ⊆ all →
      (∀ j < receipts.length, (fates (i + j)).Before e) → SoundNodes request e all w →
      Carries core srv (jsonRequest body) env fates i receipts w w' →
      SoundNodes request e all w' ∧
      ((∀ j < receipts.length, fates (i + j) = .requestLost) → w' = w) ∧
      (∀ id, (w id).items.lookup request.itemID = none →
        (w' id).items.lookup request.itemID = none) ∧
      ∀ j receipt, receipts[j]? = some receipt → fates (i + j) ≠ .requestLost →
        (w' receipt.nodeID).items.lookup request.itemID = none := by
  intro i receipts
  induction receipts generalizing i with
  | nil =>
    rintro w w' - - hw rfl
    exact ⟨hw, fun _ => rfl, fun _ h => h, fun j receipt hj => by simp at hj⟩
  | cons receipt receipts ih =>
    intro w w' hsub hbefore hw h
    have hlater : ∀ j, i + 1 + j = i + (j + 1) := fun j => by omega
    obtain ⟨w1, hw1, hrest, hlost, hgone, hkept, -, -⟩ := carries_cons hknown
      (hsub mem_cons_self) hw hok hbody (hbefore 0 (by simp)) h
    obtain ⟨hw', hsame, hstays, hreached⟩ := ih (fun r hr => hsub (mem_cons_of_mem _ hr))
      (fun j hj => hlater j ▸ hbefore (j + 1) (by simpa using hj)) hw1 hrest
    refine ⟨hw', fun hall => ?_, fun id hnone => hstays id ?_, fun j r hj hne => ?_⟩
    · rw [hsame fun j hj => hlater j ▸ hall (j + 1) (by simpa using hj), hlost (hall 0 (by simp))]
    · rw [hkept id hnone, hnone]
    · cases j with
      | zero =>
        obtain rfl : receipt = r := by simpa using hj
        exact hstays _ (hgone hne)
      | succ j => exact hreached j r (by simpa using hj) (hlater j ▸ hne)

/-- The requests from place `i` on are answered, in time and before the instant `e`. -/
def Reaches (env : DeliveryDeleteEnv) (fates : Nat → Fate) (e : Int) (i n : Nat) : Prop :=
  ∀ j < n, ∃ clock clock', fates (i + j) = .answered clock clock' ∧ clock.ns < e ∧
    InTime clock' (env.deletedAt (i + j)) (env.deletedAt' (i + j))

theorem Reaches.tail {n : Nat} (h : Reaches env fates e i (n + 1)) :
    Reaches env fates e (i + 1) n := by
  intro j hj
  have hplace : i + 1 + j = i + (j + 1) := by omega
  rw [hplace]
  exact h (j + 1) (by omega)

end

/-! ## Whole runs -/

section

variable {c : Primitives} {srv : Bytes → Server} {delivery : Delivery} {e : Int}

variable {core : Core c}

end

/-! ### One node -/

def sampleServer : Server :=
  { sampleSetup.toServer with
    nodeID := (sampleIdentity 1).nodeID
    sign := fun domain message => some (sampleSign domain message) }

theorem sampleServer_hosts : Hosts samplePrimitives sampleNode sampleServer :=
  ⟨rfl, fun domain message => ⟨_, rfl, verify_sampleSign 1 domain message⟩⟩

def soloDelivery : Delivery := ⟨sampleItem 0, sampleToken, [sampleReceipt (sampleItem 0)], ∅⟩

/-- A store with the sample item. -/
theorem sampleItem_stored : ∃ s : DiskStore, StoreInv s ∧ s.closed = false ∧
    s.items.lookup (sampleItem 0).itemID = some (sampleItem 0) := by
  have hval : validateItem (sampleItem 0) epoch defaultMaxItemBytes = .ok () :=
    sampleItem_valid le_rfl (by decide)
  obtain ⟨created, hcreated⟩ : ∃ text, (sampleItem 0).createdAt.marshalText = some text := ⟨_, rfl⟩
  obtain ⟨expires, hexpires⟩ : ∃ text, (sampleItem 0).expiresAt.marshalText = some text := ⟨_, rfl⟩
  obtain ⟨data, hdata, hsmall⟩ := marshal_atMost (sampleItem_atMost (sampleItem 0).work hcreated
    hexpires)
  have hcharge : 0 ≤ storedItemCharge data.length ∧ storedItemCharge data.length ≤ 5000 := by
    unfold storedItemCharge perItemAccountingOverhead
    split <;> constructor <;> omega
  have hfits : sampleStore.fits (sampleItem 0) (storedItemCharge data.length) = true := by
    have hwrap : wrap64 (0 + storedItemCharge data.length) = storedItemCharge data.length := by
      rw [Int.zero_add]
      exact wrap64_of_range (by omega) (by unfold maxInt64; omega)
    have hle : storedItemCharge data.length ≤ 1000000 := by omega
    have hcount : (∅ : GoMap Bytes StoredItem).size < maxStoredItems := by decide
    simp only [DiskStore.fits, Bool.and_eq_true, decide_eq_true_eq]
    exact ⟨⟨⟨hcount, hwrap.symm ▸ hle⟩, hwrap.symm ▸ hle⟩, by decide⟩
  have hput := put_new rfl hval rfl hdata (hsmall.trans (by decide)) hfits
    (validItemID_of_valid hval) (sample_fresh_file _)
  have hfresh : StoreInv sampleStore := newDiskStore_inv (newDiskStore_fresh epoch
    (by decide : lit "d" ≠ []) (by decide) (by decide))
  have hinv := (put_inv hfresh epoch (sampleItem 0)).1
  rw [hput] at hinv
  exact ⟨_, hinv, rfl, Finmap.lookup_insert _⟩

section

variable {core : Core samplePrimitives} {w : Nodes} {s : DiskStore} {fate : Fate} {x : Exchange}
  {body : Bytes}

end

end Veilmesh.Client

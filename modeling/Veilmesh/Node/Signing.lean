/-
  What a node signs says what it signs.

  A node signs storage receipts, delete receipts and storage proofs, each under a domain of
  its own. The bytes that are hashed for a signature determine the kind of the object and its
  fields; times are written in milliseconds of 64 bits, so they are determined up to the
  millisecond as long as they fit.

  * `NodeSigned.hashed_agrees`: the kind and the fields from the bytes.
-/
import Veilmesh.Node.Server
import Veilmesh.Pqcrypto.Signatures

namespace Veilmesh.Node

open Lib Protocol Pqcrypto

/-- The objects a node signs. -/
inductive NodeSigned where
  | storageReceipt (receipt : StorageReceipt)
  | deleteReceipt (receipt : DeleteReceipt)
  | storageProof (proof : StorageProof)

namespace NodeSigned

def domain : NodeSigned → Bytes
  | .storageReceipt _ => Server.receiptDomain
  | .deleteReceipt _ => Server.deleteReceiptDomain
  | .storageProof _ => Server.proofDomain

def signingBytes : NodeSigned → Bytes
  | .storageReceipt r => receiptSigningBytes r
  | .deleteReceipt r => deleteReceiptSigningBytes r
  | .storageProof p => proofSigningBytes p

/-- The bytes that are hashed for the signature. -/
def hashed (o : NodeSigned) : Bytes := domainPreimage o.domain o.signingBytes

/-- The lengths of the fields fit into 32 bits. -/
def Bounded : NodeSigned → Prop
  | .storageReceipt r =>
    r.nodeID.length < 2 ^ 32 ∧ r.itemID.length < 2 ^ 32 ∧ r.payloadHash.length < 2 ^ 32
  | .deleteReceipt r => r.nodeID.length < 2 ^ 32 ∧ r.itemID.length < 2 ^ 32
  | .storageProof p =>
    p.nodeID.length < 2 ^ 32 ∧ p.itemID.length < 2 ^ 32 ∧ p.nonce.length < 2 ^ 32 ∧
      p.sample.length < 2 ^ 32 ∧ p.payloadHash.length < 2 ^ 32

/-- The times fit into 64 bits of milliseconds. -/
def Timed : NodeSigned → Prop
  | .storageReceipt r => r.storedAt.MilliRange ∧ r.expiresAt.MilliRange
  | .deleteReceipt r => r.deletedAt.MilliRange
  | .storageProof p => p.provedAt.MilliRange

/-- One kind and one set of fields, up to the signature and what is below the millisecond. -/
def Agrees : NodeSigned → NodeSigned → Prop
  | .storageReceipt r, .storageReceipt r' =>
    r.nodeID = r'.nodeID ∧ r.itemID = r'.itemID ∧ r.payloadHash = r'.payloadHash ∧
      r.storedAt.SameMilli r'.storedAt ∧ r.expiresAt.SameMilli r'.expiresAt
  | .deleteReceipt r, .deleteReceipt r' =>
    r.nodeID = r'.nodeID ∧ r.itemID = r'.itemID ∧ r.deletedAt.SameMilli r'.deletedAt
  | .storageProof p, .storageProof p' =>
    p.nodeID = p'.nodeID ∧ p.itemID = p'.itemID ∧ p.nonce = p'.nonce ∧ p.offset = p'.offset ∧
      p.sample = p'.sample ∧ p.payloadHash = p'.payloadHash ∧ p.provedAt.SameMilli p'.provedAt
  | _, _ => False

end NodeSigned

theorem offset_framed : Framed (fun _ => True) Eq fun n : Int64 => int64BE n.toInt := by
  intro m n _ _ x y heq
  have hrange : ∀ k : Int64, -2 ^ 63 ≤ k.toInt ∧ k.toInt ≤ maxInt64 := fun k =>
    ⟨Int64.le_toInt k, by have := Int64.toInt_lt k; unfold maxInt64; omega⟩
  obtain ⟨hoffset, hxy⟩ := int64BE_framed (hrange m) (hrange n) heq
  exact ⟨Int64.toInt_inj.mp hoffset, hxy⟩

/-! ## Objects -/

theorem domain_no_zero (o : NodeSigned) : (0 : UInt8) ∉ o.domain := by
  cases o with
  | storageReceipt => exact (by decide : (0 : UInt8) ∉ Server.receiptDomain)
  | deleteReceipt => exact (by decide : (0 : UInt8) ∉ Server.deleteReceiptDomain)
  | storageProof => exact (by decide : (0 : UInt8) ∉ Server.proofDomain)

/-- The domain and the signed bytes from what is hashed. -/
theorem NodeSigned.hashed_inj {o o' : NodeSigned} (h : o.hashed = o'.hashed) :
    o.domain = o'.domain ∧ o.signingBytes = o'.signingBytes := by
  have h := (List.cons.inj (List.append_cancel_left h)).2
  rw [List.append_cons, List.append_cons o'.domain] at h
  exact Framed.terminated 0 (domain_no_zero o) (domain_no_zero o') h

/-- What is hashed for a signature determines the kind of the object and its fields. -/
theorem NodeSigned.hashed_agrees {o o' : NodeSigned} (hb : o.Bounded) (hb' : o'.Bounded)
    (ht : o.Timed) (ht' : o'.Timed) (h : o.hashed = o'.hashed) : o.Agrees o' := by
  obtain ⟨hdomain, hbytes⟩ := hashed_inj h
  have h1 : Server.receiptDomain ≠ Server.deleteReceiptDomain := by decide
  have h2 : Server.receiptDomain ≠ Server.proofDomain := by decide
  have h3 : Server.deleteReceiptDomain ≠ Server.proofDomain := by decide
  -- nine pairs of kinds; the domains leave the three of one kind
  cases o with
  | storageReceipt r =>
    cases o' with
    | storageReceipt r' =>
      exact ((writeBytes_framed.comap StorageReceipt.nodeID).append
        ((writeBytes_framed.comap StorageReceipt.itemID).append
          ((writeBytes_framed.comap StorageReceipt.payloadHash).append
            ((writeTime_framed.comap StorageReceipt.storedAt).append
              (writeTime_framed.comap StorageReceipt.expiresAt))))).inj
        ⟨hb.1, hb.2.1, hb.2.2, ht⟩ ⟨hb'.1, hb'.2.1, hb'.2.2, ht'⟩ hbytes
    | deleteReceipt => exact h1 hdomain
    | storageProof => exact h2 hdomain
  | deleteReceipt r =>
    cases o' with
    | storageReceipt => exact h1 hdomain.symm
    | deleteReceipt r' =>
      exact ((writeBytes_framed.comap DeleteReceipt.nodeID).append
        ((writeBytes_framed.comap DeleteReceipt.itemID).append
          (writeTime_framed.comap DeleteReceipt.deletedAt))).inj
        ⟨hb.1, hb.2, ht⟩ ⟨hb'.1, hb'.2, ht'⟩ hbytes
    | storageProof => exact h3 hdomain
  | storageProof p =>
    cases o' with
    | storageReceipt => exact h2 hdomain.symm
    | deleteReceipt => exact h3 hdomain.symm
    | storageProof p' =>
      obtain ⟨n1, n2, n3, n4, n5⟩ := hb
      obtain ⟨m1, m2, m3, m4, m5⟩ := hb'
      exact ((writeBytes_framed.comap StorageProof.nodeID).append
        ((writeBytes_framed.comap StorageProof.itemID).append
          ((writeBytes_framed.comap StorageProof.nonce).append
            ((offset_framed.comap StorageProof.offset).append
              ((writeBytes_framed.comap StorageProof.sample).append
                ((writeBytes_framed.comap StorageProof.payloadHash).append
                  (writeTime_framed.comap StorageProof.provedAt))))))).inj
        ⟨n1, n2, n3, trivial, n4, n5, ht⟩ ⟨m1, m2, m3, trivial, m4, m5, ht'⟩ hbytes

/-! ## Items -/

/-- The bytes a node hashes and signs determine what it signs, and those an item identifier
    is the hash of determine the item: times up to the millisecond, where the milliseconds
    since the Unix epoch fit into 64 bits. -/
theorem signed_unambiguous :
    (∀ o o' : NodeSigned, o.Bounded → o'.Bounded → o.Timed → o'.Timed → o.hashed = o'.hashed →
      o.Agrees o') ∧
    ∀ i j : StoredItem, i.routeTag.length < 2 ^ 32 → j.routeTag.length < 2 ^ 32 →
      i.deleteTokenHash.length < 2 ^ 32 → j.deleteTokenHash.length < 2 ^ 32 →
      i.createdAt.MilliRange → j.createdAt.MilliRange → i.expiresAt.MilliRange →
      j.expiresAt.MilliRange → itemCommitment i = itemCommitment j →
      i.version = j.version ∧ i.routeTag = j.routeTag ∧ i.createdAt.SameMilli j.createdAt ∧
        i.expiresAt.SameMilli j.expiresAt ∧ i.deleteTokenHash = j.deleteTokenHash ∧
        sha256 i.payload = sha256 j.payload := by
  refine ⟨fun o o' hb hb' ht ht' h => NodeSigned.hashed_agrees hb hb' ht ht' h, ?_⟩
  intro i j hr hr' hd hd' hc hc' he he' h
  have hhash : ∀ k : StoredItem, (sha256 k.payload).length < 2 ^ 32 := by
    intro k
    rw [length_sha256]
    norm_num
  exact ((Framed.byte.comap StoredItem.version).append
    ((writeBytes_framed.comap StoredItem.routeTag).append
      ((writeTime_framed.comap StoredItem.createdAt).append
        ((writeTime_framed.comap StoredItem.expiresAt).append
          ((writeBytes_framed.comap StoredItem.deleteTokenHash).append
            (writeBytes_framed.comap fun i : StoredItem => sha256 i.payload)))))).inj
    ⟨trivial, hr, hc, he, hd, hhash i⟩
    ⟨trivial, hr', hc', he', hd', hhash j⟩ h

/-- Two delete receipts 2 to the 64 milliseconds apart are signed by the same bytes. -/
theorem deleteReceipts_alike : ∃ r r' : DeleteReceipt,
    (NodeSigned.deleteReceipt r).Bounded ∧ (NodeSigned.deleteReceipt r').Bounded ∧
      (NodeSigned.deleteReceipt r).hashed = (NodeSigned.deleteReceipt r').hashed ∧
      ¬ (NodeSigned.deleteReceipt r).Agrees (.deleteReceipt r') := by
  refine ⟨⟨[], [], Time.epoch, ⟨[], []⟩⟩, ⟨[], [], Time.epoch.add (2 ^ 64 * millisecond), ⟨[], []⟩⟩,
    by simp [NodeSigned.Bounded], by simp [NodeSigned.Bounded], by decide, fun h => ?_⟩
  exact absurd h.2.2 (by decide)

/-- A delete receipt, and the same one half a millisecond later. -/
theorem signed_unambiguous_receipt : ∃ r r' : DeleteReceipt, r.deletedAt ≠ r'.deletedAt ∧
    (NodeSigned.deleteReceipt r).hashed = (NodeSigned.deleteReceipt r').hashed ∧
    (NodeSigned.deleteReceipt r).Agrees (.deleteReceipt r') := by
  have hhashed : (NodeSigned.deleteReceipt ⟨[1], [2], Time.epoch, ⟨[], []⟩⟩).hashed =
      (NodeSigned.deleteReceipt ⟨[1], [2], Time.epoch.add 500000, ⟨[], []⟩⟩).hashed := by decide
  refine ⟨_, _, by decide, hhashed, signed_unambiguous.1 _ _ ?_ ?_ ?_ ?_ hhashed⟩
  · simp [NodeSigned.Bounded]
  · simp [NodeSigned.Bounded]
  · exact (by decide : Time.epoch.MilliRange)
  · exact (by decide : (Time.epoch.add 500000).MilliRange)

end Veilmesh.Node

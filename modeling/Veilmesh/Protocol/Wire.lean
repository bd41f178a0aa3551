/-
  Node parameters, requests, answers and direct ciphertexts as they go over the wire
  (`protocol/types.go`, `ValidateNodeParameters` of `protocol/canonical.go`).

  * `storageReceiptCodec_roundtrips` and its likes: what is read back.
  * `storageReceiptCodec_atMost` and its likes: how long a text is.
  * `storageReceipt_decode_offsets`: the times of a decoded receipt are at offsets of whole
    minutes.
-/
import Veilmesh.Protocol.Canonical

namespace Veilmesh.Protocol

open Lib

/-! ## Parameters -/

structure NodeParameters where
  protocolVersion : UInt8
  difficulty : UInt8
  epochSeconds : Int64
  maxItemBytes : Int64
  storageUsed : Int64
  storageCapacity : Int64
  deriving DecidableEq, Repr

def NodeParameters.zero : NodeParameters := ⟨0, 0, 0, 0, 0, 0⟩

def nodeParametersCodec : Codec NodeParameters := structCodec [
  ⟨lit "protocol_version", UInt8, (·.protocolVersion), fun p v => { p with protocolVersion := v },
    uint8Codec⟩,
  ⟨lit "difficulty", UInt8, (·.difficulty), fun p v => { p with difficulty := v }, uint8Codec⟩,
  ⟨lit "epoch_seconds", Int64, (·.epochSeconds), fun p v => { p with epochSeconds := v }, int64Codec⟩,
  ⟨lit "max_item_bytes", Int64, (·.maxItemBytes), fun p v => { p with maxItemBytes := v },
    int64Codec⟩,
  ⟨lit "storage_used", Int64, (·.storageUsed), fun p v => { p with storageUsed := v }, int64Codec⟩,
  ⟨lit "storage_capacity", Int64, (·.storageCapacity), fun p v => { p with storageCapacity := v },
    int64Codec⟩]

def validateNodeParameters (p : NodeParameters) : Bool :=
  !(p.protocolVersion != Protocol.protocolVersion || maxWorkDifficulty < p.difficulty ||
    p.epochSeconds.toInt < minWorkEpochSeconds || maxWorkEpochSeconds < p.epochSeconds.toInt ||
    p.maxItemBytes.toInt ≤ 0 || (defaultMaxItemBytes : Int) < p.maxItemBytes.toInt ||
    p.storageUsed.toInt < 0 || p.storageCapacity.toInt ≤ 0 ||
    p.storageCapacity.toInt < p.storageUsed.toInt)

/-! ## Receipts -/

def StorageReceipt.zero : StorageReceipt := ⟨[], [], [], Time.zero, Time.zero, HybridSignature.zero⟩

def storageReceiptFields : List (JsonField StorageReceipt) := [
  ⟨lit "node_id", Bytes, (·.nodeID), fun r v => { r with nodeID := v }, stringCodec⟩,
  ⟨lit "item_id", Bytes, (·.itemID), fun r v => { r with itemID := v }, stringCodec⟩,
  ⟨lit "payload_hash", Bytes, (·.payloadHash), fun r v => { r with payloadHash := v }, bytesCodec⟩,
  ⟨lit "stored_at", Time, (·.storedAt), fun r v => { r with storedAt := v }, timeCodec⟩,
  ⟨lit "expires_at", Time, (·.expiresAt), fun r v => { r with expiresAt := v }, timeCodec⟩,
  ⟨lit "signature", HybridSignature, (·.signature), fun r v => { r with signature := v },
    hybridSignatureCodec⟩]

def storageReceiptCodec : Codec StorageReceipt := structCodec storageReceiptFields

/-- Both times of a receipt are at offsets of whole minutes. -/
def StorageReceipt.Minutes (r : StorageReceipt) : Prop :=
  r.storedAt.off % 60 = 0 ∧ r.expiresAt.off % 60 = 0

variable {r : StorageReceipt}

theorem storageReceiptCodec_roundtrips (hn : Json.Plain r.nodeID)
    (hi : Json.Plain r.itemID) (ht : r.Minutes) : storageReceiptCodec.Roundtrips r :=
  structCodec_roundtrips ⟨by decide, by decide⟩ (fun s => rfl) (.cons (stringCodec_roundtrips hn)
    (.cons (stringCodec_roundtrips hi) (.cons (bytesCodec_roundtrips _)
    (.cons (timeCodec_roundtrips ht.1) (.cons (timeCodec_roundtrips ht.2)
    (.cons (hybridSignatureCodec_roundtrips _) .nil))))))

theorem storageReceiptCodec_atMost (hn : Json.Plain r.nodeID)
    (hi : Json.Plain r.itemID) {stored expires : Bytes} (hs : r.storedAt.marshalText = some stored)
    (he : r.expiresAt.marshalText = some expires) {m n : Nat}
    (hsig : hybridSignatureCodec.Sized r.signature m n) :
    storageReceiptCodec.AtMost r (r.nodeID.length + r.itemID.length +
      4 * ((r.payloadHash.length + 2) / 3) + n + 178) :=
  structCodec_atMost (k := 78) rfl (.cons (stringCodec_sized hn) (.cons (stringCodec_sized hi)
    (.cons (bytesCodec_sized _) (.cons (timeCodec_sized hs) (.cons (timeCodec_sized he)
      (.cons hsig .nil)))))) (by dsimp only; omega)

theorem storageReceipt_decode_offsets {data : Bytes}
    (h : unmarshal storageReceiptCodec StorageReceipt.zero data = some r) : r.Minutes := by
  have htime : ∀ {old t : Time} {j : Json}, old.off % 60 = 0 → timeCodec.decode old j = some t →
      t.off % 60 = 0 := by
    intro old t j ho ht
    cases j with
    | null => exact Option.some.inj ht ▸ ho
    | str raw => exact Time.parse_off ht
    | _ => cases ht
  obtain ⟨j, -, hj⟩ := Option.bind_eq_some_iff.mp h
  refine structCodec_invariant (I := StorageReceipt.Minutes) (fun f hf s j s' hs h => ?_)
    ⟨rfl, rfl⟩ hj
  obtain ⟨v, hv, rfl⟩ := Option.map_eq_some_iff.mp h
  simp only [storageReceiptFields, List.mem_cons, List.not_mem_nil, or_false] at hf
  -- only the two time fields can change what the property looks at
  rcases hf with rfl | rfl | rfl | rfl | rfl | rfl
  case inr.inr.inr.inl => exact ⟨htime hs.1 hv, hs.2⟩
  case inr.inr.inr.inr.inl => exact ⟨hs.1, htime hs.2 hv⟩
  all_goals exact hs

/-! ## Items -/

/-- An item has a text when its times have. -/
theorem storedItemCodec_writes {i : StoredItem} {created expires : Bytes}
    (hc : i.createdAt.marshalText = some created) (he : i.expiresAt.marshalText = some expires) :
    storedItemCodec.Writes i :=
  structCodec_writes (.cons (uint8Codec_writes _) (.cons (stringCodec_writes _)
    (.cons (stringCodec_writes _) (.cons (timeCodec_writes hc) (.cons (timeCodec_writes he)
      (.cons (bytesCodec_writes _) (.cons (bytesCodec_writes _) (.cons ⟨_, rfl⟩ .nil))))))))

/-- An item has a text only when both of its times have. -/
theorem storedItem_marshal_times {i : StoredItem} {data : Bytes}
    (h : marshal storedItemCodec i = some data) :
    (∃ created, i.createdAt.marshalText = some created) ∧
      ∃ expires, i.expiresAt.marshalText = some expires := by
  obtain ⟨j, hj, -⟩ := Option.map_eq_some_iff.mp h
  exact ⟨timeCodec_writes_iff.mp (@structCodec_writes_field _ storedItemFields i ⟨j, hj⟩
      ⟨lit "created_at", Time, (·.createdAt), fun i v => { i with createdAt := v }, timeCodec⟩
      (by simp [storedItemFields])),
    timeCodec_writes_iff.mp (@structCodec_writes_field _ storedItemFields i ⟨j, hj⟩
      ⟨lit "expires_at", Time, (·.expiresAt), fun i v => { i with expiresAt := v }, timeCodec⟩
      (by simp [storedItemFields]))⟩

theorem workProofCodec_atMost (w : WorkProof) : (structCodec workProofFields).AtMost w 100 :=
  structCodec_atMost rfl (.cons (int64Codec_atMost _) (.cons (uint64Codec_atMost _)
    (.cons (uint8Codec_atMost _) .nil))) (by decide)

theorem storedItemCodec_atMost {i : StoredItem} (hid : Json.Plain i.itemID)
    (hroute : Json.Plain i.routeTag) {created expires : Bytes}
    (hc : i.createdAt.marshalText = some created) (he : i.expiresAt.marshalText = some expires) :
    storedItemCodec.AtMost i (i.itemID.length + i.routeTag.length +
      4 * ((i.deleteTokenHash.length + 2) / 3) + 4 * ((i.payload.length + 2) / 3) + 400) :=
  structCodec_atMost (k := 103) rfl (.cons (uint8Codec_atMost _) (.cons (stringCodec_sized hid)
    (.cons (stringCodec_sized hroute) (.cons (timeCodec_sized hc) (.cons (timeCodec_sized he)
      (.cons (bytesCodec_sized _) (.cons (bytesCodec_sized _)
        (.cons (workProofCodec_atMost _) .nil)))))))) (by dsimp only; omega)

/-! ## Answers of a node -/

structure FetchResponse where
  items : List StoredItem
  deriving DecidableEq, Repr

def fetchResponseFields : List (JsonField FetchResponse) := [
  ⟨lit "items", List StoredItem, (·.items), fun _ v => ⟨v⟩, listCodec storedItemCodec StoredItem.zero⟩]

def fetchResponseCodec : Codec FetchResponse := structCodec fetchResponseFields

def DeleteReceipt.zero : DeleteReceipt := ⟨[], [], Time.zero, HybridSignature.zero⟩

def deleteReceiptFields : List (JsonField DeleteReceipt) := [
  ⟨lit "node_id", Bytes, (·.nodeID), fun r v => { r with nodeID := v }, stringCodec⟩,
  ⟨lit "item_id", Bytes, (·.itemID), fun r v => { r with itemID := v }, stringCodec⟩,
  ⟨lit "deleted_at", Time, (·.deletedAt), fun r v => { r with deletedAt := v }, timeCodec⟩,
  ⟨lit "signature", HybridSignature, (·.signature), fun r v => { r with signature := v },
    hybridSignatureCodec⟩]

def deleteReceiptCodec : Codec DeleteReceipt := structCodec deleteReceiptFields

def StorageProof.zero : StorageProof := ⟨[], [], [], 0, [], [], Time.zero, HybridSignature.zero⟩

def storageProofFields : List (JsonField StorageProof) := [
  ⟨lit "node_id", Bytes, (·.nodeID), fun p v => { p with nodeID := v }, stringCodec⟩,
  ⟨lit "item_id", Bytes, (·.itemID), fun p v => { p with itemID := v }, stringCodec⟩,
  ⟨lit "nonce", Bytes, (·.nonce), fun p v => { p with nonce := v }, bytesCodec⟩,
  ⟨lit "offset", Int64, (·.offset), fun p v => { p with offset := v }, int64Codec⟩,
  ⟨lit "sample", Bytes, (·.sample), fun p v => { p with sample := v }, bytesCodec⟩,
  ⟨lit "payload_hash", Bytes, (·.payloadHash), fun p v => { p with payloadHash := v }, bytesCodec⟩,
  ⟨lit "proved_at", Time, (·.provedAt), fun p v => { p with provedAt := v }, timeCodec⟩,
  ⟨lit "signature", HybridSignature, (·.signature), fun p v => { p with signature := v },
    hybridSignatureCodec⟩]

def storageProofCodec : Codec StorageProof := structCodec storageProofFields

/-! ### What is read back -/

theorem fetchResponseCodec_roundtrips {r : FetchResponse}
    (h : ∀ item ∈ r.items, storedItemCodec.Roundtrips item) : fetchResponseCodec.Roundtrips r :=
  structCodec_roundtrips ⟨by decide, by decide⟩ (fun s => rfl) (.cons (listCodec_roundtrips h) .nil)

theorem storageProofCodec_roundtrips {p : StorageProof} (hn : Json.Plain p.nodeID)
    (hi : Json.Plain p.itemID) (ht : p.provedAt.off % 60 = 0) : storageProofCodec.Roundtrips p :=
  structCodec_roundtrips ⟨by decide, by decide⟩ (fun s => rfl) (.cons (stringCodec_roundtrips hn)
    (.cons (stringCodec_roundtrips hi) (.cons (bytesCodec_roundtrips _)
    (.cons (int64Codec_roundtrips _) (.cons (bytesCodec_roundtrips _)
    (.cons (bytesCodec_roundtrips _) (.cons (timeCodec_roundtrips ht)
    (.cons (hybridSignatureCodec_roundtrips _) .nil))))))))

/-! ### How long it is -/

/-- Items of a bounded size, written one after the other. -/
theorem fetchResponseCodec_atMost {items : List StoredItem} {f : StoredItem → Nat}
    (h : ∀ item ∈ items, storedItemCodec.AtMost item (f item)) :
    fetchResponseCodec.AtMost ⟨items⟩ ((items.map fun item => f item + 1).sum + 15) :=
  structCodec_atMost (k := 9) rfl (.cons (listCodec_sized_sum h) .nil) (by dsimp only; omega)

theorem storageProofCodec_atMost {p : StorageProof} (hn : Json.Plain p.nodeID)
    (hi : Json.Plain p.itemID) {proved : Bytes} (hp : p.provedAt.marshalText = some proved)
    {m n : Nat} (hsig : hybridSignatureCodec.Sized p.signature m n) :
    storageProofCodec.AtMost p (p.nodeID.length + p.itemID.length +
      4 * ((p.nonce.length + 2) / 3) + 4 * ((p.sample.length + 2) / 3) +
      4 * ((p.payloadHash.length + 2) / 3) + n + 169) :=
  structCodec_atMost (k := 93) rfl (.cons (stringCodec_sized hn) (.cons (stringCodec_sized hi)
    (.cons (bytesCodec_sized _) (.cons (int64Codec_atMost _) (.cons (bytesCodec_sized _)
      (.cons (bytesCodec_sized _) (.cons (timeCodec_sized hp) (.cons hsig .nil)))))))) (by dsimp only; omega)

/-! ## Requests to a node -/

theorem deleteRequestCodec_roundtrips {r : DeleteRequest} (hi : Json.Plain r.itemID) :
    deleteRequestCodec.Roundtrips r :=
  structCodec_roundtrips ⟨by decide, by decide⟩ (fun s => rfl) (.cons (stringCodec_roundtrips hi)
    (.cons (bytesCodec_roundtrips _) .nil))

theorem deleteRequestCodec_atMost {r : DeleteRequest} (hi : Json.Plain r.itemID) :
    deleteRequestCodec.AtMost r (r.itemID.length + 4 * ((r.deleteToken.length + 2) / 3) + 35) :=
  structCodec_atMost (k := 27) rfl
    (.cons (stringCodec_sized hi) (.cons (bytesCodec_sized r.deleteToken) .nil)) (by dsimp only; omega)

theorem proofRequestCodec_roundtrips {r : ProofRequest} (hi : Json.Plain r.itemID) :
    proofRequestCodec.Roundtrips r :=
  structCodec_roundtrips ⟨by decide, by decide⟩ (fun s => rfl) (.cons (stringCodec_roundtrips hi)
    (.cons (bytesCodec_roundtrips _) (.cons (int64Codec_roundtrips _)
    (.cons (int64Codec_roundtrips _) .nil))))

theorem proofRequestCodec_atMost {r : ProofRequest} (hi : Json.Plain r.itemID) :
    proofRequestCodec.AtMost r (r.itemID.length + 4 * ((r.nonce.length + 2) / 3) + 90) :=
  structCodec_atMost (k := 40) rfl (.cons (stringCodec_sized hi) (.cons (bytesCodec_sized r.nonce)
    (.cons (int64Codec_atMost _) (.cons (int64Codec_atMost _) .nil)))) (by dsimp only; omega)

/-! ## Direct ciphertexts -/

structure DirectCiphertext where
  suite : Bytes
  encapsulation : Bytes
  ciphertext : Bytes
  deriving DecidableEq, Repr

def DirectCiphertext.zero : DirectCiphertext := ⟨[], [], []⟩

def directCiphertextFields : List (JsonField DirectCiphertext) := [
  ⟨lit "suite", Bytes, (·.suite), fun d v => { d with suite := v }, stringCodec⟩,
  ⟨lit "encapsulation", Bytes, (·.encapsulation), fun d v => { d with encapsulation := v },
    bytesCodec⟩,
  ⟨lit "ciphertext", Bytes, (·.ciphertext), fun d v => { d with ciphertext := v }, bytesCodec⟩]

def directCiphertextCodec : Codec DirectCiphertext := structCodec directCiphertextFields

theorem directCiphertextCodec_roundtrips {d : DirectCiphertext} (h : Json.Plain d.suite) :
    directCiphertextCodec.Roundtrips d :=
  structCodec_roundtrips ⟨by decide, by decide⟩ (fun s => rfl) (.cons (stringCodec_roundtrips h)
    (.cons (bytesCodec_roundtrips _) (.cons (bytesCodec_roundtrips _) .nil)))

end Veilmesh.Protocol

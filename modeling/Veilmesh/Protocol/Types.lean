/-
  The values nodes and clients exchange (`protocol/types.go`) and their JSON forms.

  Strings and byte slices are byte strings; a nil slice and an empty one are the same
  value. The fixed-width integers keep their Go widths. The codec of a record lists its
  fields with the names of the struct tags, in the order of the struct.

  * `storedItemCodec_reads`: an item whose two strings need no escaping is read back from its
    encoding as what its times show; that is the item itself if their offsets are in whole
    minutes (`storedItemCodec_roundtrips`).
  * `storedItem_decode_readable`: every decoded item has such offsets.
-/
import Veilmesh.Lib.JsonSize

namespace Veilmesh.Protocol

open Lib

/-! ## Constants -/

def protocolVersion : UInt8 := 1
/-- Every item expires exactly this long after its creation. -/
def fixedItemRetention : Duration := 60 * 24 * hour
def defaultMaxItemBytes : Nat := 320 * 1024
def defaultMaxFileBytes : Nat := 64 * 1024 * 1024
def defaultFileChunkSize : Nat := 256 * 1024
def capabilityBytes : Nat := 32
def maxRouteTagsPerFetch : Nat := 256
def defaultMaxFetchItems : Nat := 512
def defaultMaxFetchBytes : Nat := 8 * 1024 * 1024
def minWorkEpochSeconds : Int := 60
def maxWorkEpochSeconds : Int := 24 * 60 * 60
def maxWorkDifficulty : UInt8 := 24
def maxProofSampleBytes : Nat := 16 * 1024

/-! ## Items -/

structure WorkProof where
  epoch : Int64
  nonce : UInt64
  difficulty : UInt8
  deriving DecidableEq, Repr

/-- An opaque ciphertext with its route capability and the hash of its delete token. -/
structure StoredItem where
  version : UInt8
  itemID : Bytes
  routeTag : Bytes
  createdAt : Time
  expiresAt : Time
  deleteTokenHash : Bytes
  payload : Bytes
  work : WorkProof
  deriving DecidableEq, Repr

def WorkProof.zero : WorkProof := ⟨0, 0, 0⟩

/-- The zero item a decoder starts from. -/
def StoredItem.zero : StoredItem := ⟨0, [], [], Time.zero, Time.zero, [], [], WorkProof.zero⟩

def workProofFields : List (JsonField WorkProof) := [
  ⟨lit "epoch", Int64, (·.epoch), fun w v => { w with epoch := v }, int64Codec⟩,
  ⟨lit "nonce", UInt64, (·.nonce), fun w v => { w with nonce := v }, uint64Codec⟩,
  ⟨lit "difficulty", UInt8, (·.difficulty), fun w v => { w with difficulty := v }, uint8Codec⟩]

def storedItemFields : List (JsonField StoredItem) := [
  ⟨lit "version", UInt8, (·.version), fun i v => { i with version := v }, uint8Codec⟩,
  ⟨lit "item_id", Bytes, (·.itemID), fun i v => { i with itemID := v }, stringCodec⟩,
  ⟨lit "route_tag", Bytes, (·.routeTag), fun i v => { i with routeTag := v }, stringCodec⟩,
  ⟨lit "created_at", Time, (·.createdAt), fun i v => { i with createdAt := v }, timeCodec⟩,
  ⟨lit "expires_at", Time, (·.expiresAt), fun i v => { i with expiresAt := v }, timeCodec⟩,
  ⟨lit "delete_token_hash", Bytes, (·.deleteTokenHash), fun i v => { i with deleteTokenHash := v },
    bytesCodec⟩,
  ⟨lit "payload", Bytes, (·.payload), fun i v => { i with payload := v }, bytesCodec⟩,
  ⟨lit "work", WorkProof, (·.work), fun i v => { i with work := v }, structCodec workProofFields⟩]

def storedItemCodec : Codec StoredItem := structCodec storedItemFields

theorem workProofCodec_roundtrips (w : WorkProof) : (structCodec workProofFields).Roundtrips w :=
  structCodec_roundtrips ⟨by decide, by decide⟩ (fun s => rfl) (.cons (int64Codec_roundtrips _)
    (.cons (uint64Codec_roundtrips _) (.cons (uint8Codec_roundtrips _) .nil)))

/-- The item as its text shows it. -/
def StoredItem.shown (i : StoredItem) : StoredItem :=
  { i with createdAt := i.createdAt.shown, expiresAt := i.expiresAt.shown }

theorem StoredItem.shown_eq_iff (i : StoredItem) :
    i.shown = i ↔ i.createdAt.off % 60 = 0 ∧ i.expiresAt.off % 60 = 0 := by
  constructor
  · intro h
    rw [← Time.shown_ns_eq_iff, ← Time.shown_ns_eq_iff]
    exact ⟨congrArg (·.createdAt.ns) h, congrArg (·.expiresAt.ns) h⟩
  · rintro ⟨hc, he⟩
    rw [StoredItem.shown, Time.shown_of_minutes hc, Time.shown_of_minutes he]

theorem storedItemCodec_reads {i : StoredItem} (hid : Json.Plain i.itemID)
    (hroute : Json.Plain i.routeTag) : storedItemCodec.Reads i i.shown := by
  refine structCodec_reads ⟨by decide, by decide⟩ (fun s => rfl) fun f hf => ?_
  simp only [storedItemFields, List.mem_cons, List.not_mem_nil, or_false] at hf
  rcases hf with rfl | rfl | rfl | rfl | rfl | rfl | rfl | rfl
  · exact uint8Codec_roundtrips _
  · exact stringCodec_roundtrips hid
  · exact stringCodec_roundtrips hroute
  · exact timeCodec_reads _
  · exact timeCodec_reads _
  · exact bytesCodec_roundtrips _
  · exact bytesCodec_roundtrips _
  · exact workProofCodec_roundtrips _

theorem storedItemCodec_roundtrips {i : StoredItem} (hid : Json.Plain i.itemID)
    (hroute : Json.Plain i.routeTag) (hc : i.createdAt.off % 60 = 0)
    (he : i.expiresAt.off % 60 = 0) : storedItemCodec.Roundtrips i := by
  have hreads := storedItemCodec_reads hid hroute
  rwa [(StoredItem.shown_eq_iff i).mpr ⟨hc, he⟩] at hreads

/-! ## Identities and signatures -/

structure NodePublicIdentity where
  nodeID : Bytes
  ed25519Public : Bytes
  mldsa65Public : Bytes
  protocolVersion : UInt8
  deriving DecidableEq, Repr

structure HybridSignature where
  ed25519 : Bytes
  mldsa65 : Bytes
  deriving DecidableEq, Repr

/-- The zero identity and the zero signature a decoder starts from. -/
def NodePublicIdentity.zero : NodePublicIdentity := ⟨[], [], [], 0⟩

def HybridSignature.zero : HybridSignature := ⟨[], []⟩

structure DeviceDescriptor where
  deviceID : Bytes
  accountID : Bytes
  hpkePublicKey : Bytes
  signingKey : NodePublicIdentity
  deriving DecidableEq, Repr

def DeviceDescriptor.zero : DeviceDescriptor := ⟨[], [], [], NodePublicIdentity.zero⟩

def nodePublicIdentityFields : List (JsonField NodePublicIdentity) := [
  ⟨lit "node_id", Bytes, (·.nodeID), fun i v => { i with nodeID := v }, stringCodec⟩,
  ⟨lit "ed25519_public", Bytes, (·.ed25519Public), fun i v => { i with ed25519Public := v },
    bytesCodec⟩,
  ⟨lit "ml_dsa_65_public", Bytes, (·.mldsa65Public), fun i v => { i with mldsa65Public := v },
    bytesCodec⟩,
  ⟨lit "protocol_version", UInt8, (·.protocolVersion), fun i v => { i with protocolVersion := v },
    uint8Codec⟩]

def nodePublicIdentityCodec : Codec NodePublicIdentity := structCodec nodePublicIdentityFields

def hybridSignatureFields : List (JsonField HybridSignature) := [
  ⟨lit "ed25519", Bytes, (·.ed25519), fun i v => { i with ed25519 := v }, bytesCodec⟩,
  ⟨lit "ml_dsa_65", Bytes, (·.mldsa65), fun i v => { i with mldsa65 := v }, bytesCodec⟩]

def hybridSignatureCodec : Codec HybridSignature := structCodec hybridSignatureFields

def deviceDescriptorFields : List (JsonField DeviceDescriptor) := [
  ⟨lit "device_id", Bytes, (·.deviceID), fun d v => { d with deviceID := v }, stringCodec⟩,
  ⟨lit "account_id", Bytes, (·.accountID), fun d v => { d with accountID := v }, stringCodec⟩,
  ⟨lit "hpke_public_key", Bytes, (·.hpkePublicKey), fun d v => { d with hpkePublicKey := v },
    bytesCodec⟩,
  ⟨lit "signing_key", NodePublicIdentity, (·.signingKey), fun d v => { d with signingKey := v },
    nodePublicIdentityCodec⟩]

def deviceDescriptorCodec : Codec DeviceDescriptor := structCodec deviceDescriptorFields

theorem nodePublicIdentityCodec_roundtrips {i : NodePublicIdentity} (h : Json.Plain i.nodeID) :
    nodePublicIdentityCodec.Roundtrips i :=
  structCodec_roundtrips ⟨by decide, by decide⟩ (fun s => rfl) (.cons (stringCodec_roundtrips h)
    (.cons (bytesCodec_roundtrips _) (.cons (bytesCodec_roundtrips _)
    (.cons (uint8Codec_roundtrips _) .nil))))

theorem hybridSignatureCodec_roundtrips (s : HybridSignature) : hybridSignatureCodec.Roundtrips s :=
  structCodec_roundtrips ⟨by decide, by decide⟩ (fun s => rfl) (.cons (bytesCodec_roundtrips _)
    (.cons (bytesCodec_roundtrips _) .nil))

/-- A descriptor whose identifiers need no escaping. -/
structure DescriptorPlain (d : DeviceDescriptor) : Prop where
  deviceID : Json.Plain d.deviceID
  accountID : Json.Plain d.accountID
  nodeID : Json.Plain d.signingKey.nodeID

theorem deviceDescriptorCodec_roundtrips {d : DeviceDescriptor} (h : DescriptorPlain d) :
    deviceDescriptorCodec.Roundtrips d :=
  structCodec_roundtrips ⟨by decide, by decide⟩ (fun s => rfl)
    (.cons (stringCodec_roundtrips h.deviceID) (.cons (stringCodec_roundtrips h.accountID)
    (.cons (bytesCodec_roundtrips _) (.cons (nodePublicIdentityCodec_roundtrips h.nodeID) .nil))))

theorem nodePublicIdentityCodec_sized {i : NodePublicIdentity} (h : Json.Plain i.nodeID) :
    nodePublicIdentityCodec.Sized i
      (i.nodeID.length + 4 * ((i.ed25519Public.length + 2) / 3) +
        4 * ((i.mldsa65Public.length + 2) / 3) + 76)
      (i.nodeID.length + 4 * ((i.ed25519Public.length + 2) / 3) +
        4 * ((i.mldsa65Public.length + 2) / 3) + 101) :=
  structCodec_sized (k := 69) rfl (.cons (stringCodec_sized h) (.cons (bytesCodec_sized _)
    (.cons (bytesCodec_sized _) (.cons (uint8Codec_atMost _) .nil))))
    (by dsimp only; omega) (by dsimp only; omega)

theorem hybridSignatureCodec_sized (s : HybridSignature) : hybridSignatureCodec.Sized s
    (4 * ((s.ed25519.length + 2) / 3) + 4 * ((s.mldsa65.length + 2) / 3) + 29)
    (4 * ((s.ed25519.length + 2) / 3) + 4 * ((s.mldsa65.length + 2) / 3) + 34) :=
  structCodec_sized (k := 24) rfl (.cons (bytesCodec_sized _) (.cons (bytesCodec_sized _) .nil))

    (by dsimp only; omega) (by dsimp only; omega)

theorem deviceDescriptorCodec_sized {d : DeviceDescriptor} (h : DescriptorPlain d) {m n : Nat}
    (hn : nodePublicIdentityCodec.Sized d.signingKey m n) : deviceDescriptorCodec.Sized d
      (d.deviceID.length + d.accountID.length + 4 * ((d.hpkePublicKey.length + 2) / 3) + m + 68)
      (d.deviceID.length + d.accountID.length + 4 * ((d.hpkePublicKey.length + 2) / 3) + n + 71) :=
  structCodec_sized (k := 61) rfl (.cons (stringCodec_sized h.deviceID)
    (.cons (stringCodec_sized h.accountID) (.cons (bytesCodec_sized _) (.cons hn .nil))))

    (by dsimp only; omega) (by dsimp only; omega)

/-! ## Requests and receipts -/

structure StorageReceipt where
  nodeID : Bytes
  itemID : Bytes
  payloadHash : Bytes
  storedAt : Time
  expiresAt : Time
  signature : HybridSignature
  deriving DecidableEq, Repr

structure DeleteRequest where
  itemID : Bytes
  deleteToken : Bytes
  deriving DecidableEq, Repr

structure DeleteReceipt where
  nodeID : Bytes
  itemID : Bytes
  deletedAt : Time
  signature : HybridSignature
  deriving DecidableEq, Repr

structure FetchRequest where
  routeTags : List Bytes
  deriving DecidableEq, Repr

structure ProofRequest where
  itemID : Bytes
  nonce : Bytes
  offset : Int64
  length : Int64
  deriving DecidableEq, Repr

structure StorageProof where
  nodeID : Bytes
  itemID : Bytes
  nonce : Bytes
  offset : Int64
  sample : Bytes
  payloadHash : Bytes
  provedAt : Time
  signature : HybridSignature
  deriving DecidableEq, Repr

def deleteRequestCodec : Codec DeleteRequest := structCodec [
  ⟨lit "item_id", Bytes, (·.itemID), fun r v => { r with itemID := v }, stringCodec⟩,
  ⟨lit "delete_token", Bytes, (·.deleteToken), fun r v => { r with deleteToken := v }, bytesCodec⟩]

def fetchRequestCodec : Codec FetchRequest := structCodec [
  ⟨lit "route_tags", List Bytes, (·.routeTags), fun _ v => ⟨v⟩, listCodec stringCodec []⟩]

def proofRequestCodec : Codec ProofRequest := structCodec [
  ⟨lit "item_id", Bytes, (·.itemID), fun r v => { r with itemID := v }, stringCodec⟩,
  ⟨lit "nonce", Bytes, (·.nonce), fun r v => { r with nonce := v }, bytesCodec⟩,
  ⟨lit "offset", Int64, (·.offset), fun r v => { r with offset := v }, int64Codec⟩,
  ⟨lit "length", Int64, (·.length), fun r v => { r with length := v }, int64Codec⟩]

/-! ## Files

Sizes and indices are only compared, and added up once they have been bounded, so their width
does not show. -/

structure FileChunk where
  index : Int
  routeTag : Bytes
  cipherHash : Bytes
  cipherSize : Int
  deriving DecidableEq, Repr

structure FileManifest where
  version : UInt8
  fileID : Bytes
  name : Bytes
  mediaType : Bytes
  plaintextBytes : Int
  chunkSize : Int
  chunks : List FileChunk
  deriving DecidableEq, Repr

/-! ## What a decoder can produce -/

/-- A time a decoder can produce: whole-minute offset, and milliseconds that fit. -/
def TimeReadable (t : Time) : Prop :=
  t.off % 60 = 0 ∧ -2 ^ 63 ≤ (t.ns - Time.unixEpoch) / millisecond ∧
    (t.ns - Time.unixEpoch) / millisecond ≤ maxInt64

theorem timeReadable_zero : TimeReadable Time.zero := by
  unfold TimeReadable
  decide

theorem timeCodec_decode_readable {old t : Time} {j : Json} (ho : TimeReadable old)
    (h : timeCodec.decode old j = some t) : TimeReadable t := by
  cases j with
  | null => exact Option.some.inj h ▸ ho
  | str raw => exact ⟨Time.parse_off h, Time.parse_range h⟩
  | _ => cases h

/-- Both times of an item are readable. -/
def ItemReadable (i : StoredItem) : Prop := TimeReadable i.createdAt ∧ TimeReadable i.expiresAt

theorem storedItem_decode_readable {data : Bytes} {i : StoredItem}
    (h : unmarshal storedItemCodec StoredItem.zero data = some i) : ItemReadable i := by
  obtain ⟨j, -, hj⟩ := Option.bind_eq_some_iff.mp h
  refine structCodec_invariant (I := ItemReadable) (fun f hf s j s' hs h => ?_)
    ⟨timeReadable_zero, timeReadable_zero⟩ hj
  obtain ⟨v, hv, rfl⟩ := Option.map_eq_some_iff.mp h
  simp only [storedItemFields, List.mem_cons, List.not_mem_nil, or_false] at hf
  -- only the two time fields can change what the property looks at
  rcases hf with rfl | rfl | rfl | rfl | rfl | rfl | rfl | rfl
  case inr.inr.inr.inl => exact ⟨timeCodec_decode_readable hs.1 hv, hs.2⟩
  case inr.inr.inr.inr.inl => exact ⟨hs.1, timeCodec_decode_readable hs.2 hv⟩
  all_goals exact hs

end Veilmesh.Protocol

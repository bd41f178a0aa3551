/-
  Hybrid identities and signatures (`pqcrypto/signatures.go`).

  The signature schemes themselves are parameters (`Primitives`): Ed25519 verification,
  ML-DSA-65 verification on packed public keys, and the two checks that parse a public
  key. What this package adds is all here: the identifier of an identity, the checks of
  its shape, and the separation of signed messages by domain.

  * `nodeIDPreimage_inj`: what is hashed for its identifier determines a valid identity.
  * `verify_valid`: only valid identities verify anything.
-/
import Veilmesh.Protocol.Canonical

namespace Veilmesh.Pqcrypto

open Lib Protocol List
open List (replicate)

/-- The cryptographic operations the package calls. -/
structure Primitives where
  /-- `ed25519.Verify` on a public key, a message and a signature. -/
  ed25519Verify : Bytes → Bytes → Bytes → Bool
  /-- Whether `mldsa65.PublicKey.UnmarshalBinary` takes these bytes. -/
  mldsa65Unmarshal : Bytes → Bool
  /-- `mldsa65.Verify` on a packed public key, a message, a context and a signature. -/
  mldsa65Verify : Bytes → Bytes → Bytes → Bytes → Bool
  /-- Whether `hpke.MLKEM768X25519().NewPublicKey` takes these bytes. -/
  kemPublicKey : Bytes → Bool

def ed25519PublicKeySize : Nat := 32
def ed25519SignatureSize : Nat := 64
def mldsa65PublicKeySize : Nat := 1952
def mldsa65SignatureSize : Nat := 3309

def signatureContext : Bytes := lit "enig-v1"

/-! ## Identities -/

/-- What the identifier of an identity is the hash of. -/
def nodeIDPreimage (identity : NodePublicIdentity) : Bytes :=
  lit "enig/node-id/v1" ++ identity.ed25519Public ++ identity.mldsa65Public

def nodeID (identity : NodePublicIdentity) : Bytes := hexEncode (sha256 (nodeIDPreimage identity))

def validPublicIdentity (c : Primitives) (identity : NodePublicIdentity) : Bool :=
  if identity.protocolVersion ≠ protocolVersion ∨
      identity.ed25519Public.length ≠ ed25519PublicKeySize ∨
      identity.mldsa65Public.length ≠ mldsa65PublicKeySize ∨
      identity.nodeID ≠ nodeID identity then false
  else c.mldsa65Unmarshal identity.mldsa65Public

variable {c : Primitives} {identity : NodePublicIdentity}

theorem validPublicIdentity_iff :
    validPublicIdentity c identity = true ↔
      identity.protocolVersion = protocolVersion ∧
      identity.ed25519Public.length = ed25519PublicKeySize ∧
      identity.mldsa65Public.length = mldsa65PublicKeySize ∧
      identity.nodeID = nodeID identity ∧ c.mldsa65Unmarshal identity.mldsa65Public = true := by
  unfold validPublicIdentity
  split
  · rename_i h
    constructor
    · intro hf
      cases hf
    · rintro ⟨h1, h2, h3, h4, -⟩
      rcases h with h | h | h | h <;> contradiction
  · rename_i h
    simp only [ne_eq, not_or, not_not] at h
    exact ⟨fun hu => ⟨h.1, h.2.1, h.2.2.1, h.2.2.2, hu⟩, fun hu => hu.2.2.2.2⟩

theorem length_nodeID (identity : NodePublicIdentity) : (nodeID identity).length = 64 := by
  rw [nodeID, length_hexEncode, length_sha256]

theorem plain_nodeID (identity : NodePublicIdentity) : Json.Plain (nodeID identity) :=
  plain_hexEncode _

/-- Identities of valid shape are determined by what is hashed for their identifier. -/
theorem nodeIDPreimage_inj {a b : NodePublicIdentity} (ha : validPublicIdentity c a = true)
    (hb : validPublicIdentity c b = true) (h : nodeIDPreimage a = nodeIDPreimage b) : a = b := by
  obtain ⟨ha1, ha2, -, ha4, -⟩ := validPublicIdentity_iff.mp ha
  obtain ⟨hb1, hb2, -, hb4, -⟩ := validPublicIdentity_iff.mp hb
  have hid : a.nodeID = b.nodeID := by rw [ha4, hb4, nodeID, nodeID, h]
  have hversion := ha1.trans hb1.symm
  rw [nodeIDPreimage, nodeIDPreimage, append_assoc, append_assoc] at h
  obtain ⟨hed, hml⟩ := append_inj (append_cancel_left h) (ha2.trans hb2.symm)
  obtain ⟨aid, aed, aml, av⟩ := a
  obtain ⟨bid, bed, bml, bv⟩ := b
  dsimp only at hid hed hml hversion
  subst hid hed hml hversion
  rfl

/-! ## Signatures -/

/-- What is signed: a digest of the domain and the message. -/
def domainPreimage (domain message : Bytes) : Bytes :=
  lit "enig/signature/v1" ++ 0 :: (domain ++ 0 :: message)

def domainMessage (domain message : Bytes) : Bytes := sha256 (domainPreimage domain message)

def verify (c : Primitives) (identity : NodePublicIdentity) (domain message : Bytes)
    (signature : HybridSignature) : Bool :=
  if validPublicIdentity c identity = false ∨ signature.ed25519.length ≠ ed25519SignatureSize ∨
      signature.mldsa65.length ≠ mldsa65SignatureSize then false
  else if c.mldsa65Unmarshal identity.mldsa65Public = false then false
  else
    let digest := domainMessage domain message
    let edOK := c.ed25519Verify identity.ed25519Public digest signature.ed25519
    let pqOK := c.mldsa65Verify identity.mldsa65Public digest signatureContext signature.mldsa65
    edOK && pqOK

theorem verify_valid {domain message : Bytes} {signature : HybridSignature}
    (h : verify c identity domain message signature = true) :
    validPublicIdentity c identity = true := by
  unfold verify at h
  split at h
  · cases h
  · rename_i hn
    simp only [not_or, Bool.not_eq_false] at hn
    exact hn.1

/-- A signer: its public identity, and signatures that verify under it. Signing fails for
    an over-long context only, and the context is fixed. -/
structure HybridSigner (c : Primitives) where
  publicIdentity : NodePublicIdentity
  valid : validPublicIdentity c publicIdentity = true
  sign : Bytes → Bytes → HybridSignature
  verifies : ∀ domain message, verify c publicIdentity domain message (sign domain message) = true

theorem verify_sizes {domain message : Bytes} {signature : HybridSignature}
    (h : verify c identity domain message signature = true) :
    signature.ed25519.length = ed25519SignatureSize ∧
      signature.mldsa65.length = mldsa65SignatureSize := by
  unfold verify at h
  split at h
  · cases h
  · rename_i hn
    simp only [not_or, ne_eq, not_not] at hn
    exact hn.2

def validateHybridKEMPublicKey (c : Primitives) (publicKey : Bytes) : Bool :=
  c.kemPublicKey publicKey

/-! ## Sample signers -/

/-- `n` equal bytes, for keys and the like. -/
def sampleBytes (n : Nat) (b : UInt8) : Bytes := List.replicate n b

theorem length_sampleBytes (n : Nat) (b : UInt8) : (sampleBytes n b).length = n :=
  length_replicate

/-- Signature schemes that accept what `sampleSign` makes, and keys by their length. -/
def samplePrimitives : Primitives where
  ed25519Verify _ digest signature := signature == digest ++ digest
  mldsa65Unmarshal key := key.length == mldsa65PublicKeySize
  mldsa65Verify _ digest _ signature := signature == digest ++ sampleBytes 3277 0
  kemPublicKey key := key.length == 1216

def sampleSign (domain message : Bytes) : HybridSignature :=
  ⟨domainMessage domain message ++ domainMessage domain message,
    domainMessage domain message ++ sampleBytes 3277 0⟩

/-- An identity whose key bytes are all `b`. -/
def sampleIdentity (b : UInt8) : NodePublicIdentity :=
  let i : NodePublicIdentity := ⟨[], sampleBytes 32 b, sampleBytes 1952 b, 1⟩
  { i with nodeID := nodeID i }

theorem sampleIdentity_valid (b : UInt8) :
    validPublicIdentity samplePrimitives (sampleIdentity b) = true := by
  refine validPublicIdentity_iff.mpr ⟨rfl, ?_, ?_, rfl, ?_⟩
  · exact length_sampleBytes _ _
  · exact length_sampleBytes _ _
  · exact beq_iff_eq.mpr (length_sampleBytes _ _)

theorem verify_sampleSign_valid (h : validPublicIdentity samplePrimitives identity = true)
    (domain message : Bytes) :
    verify samplePrimitives identity domain message (sampleSign domain message) = true := by
  have hed : (sampleSign domain message).ed25519.length = 64 := by
    simp only [sampleSign, domainMessage, length_append, length_sha256]
  have hml : (sampleSign domain message).mldsa65.length = 3309 := by
    simp only [sampleSign, domainMessage, length_append, length_sha256, length_sampleBytes]
  have hparse : samplePrimitives.mldsa65Unmarshal identity.mldsa65Public = true :=
    (validPublicIdentity_iff.mp h).2.2.2.2
  rw [verify, if_neg, if_neg (by simp [hparse])]
  · simp [samplePrimitives, sampleSign]
  · rw [h, hed, hml]
    decide

theorem verify_sampleSign (b : UInt8) (domain message : Bytes) :
    verify samplePrimitives (sampleIdentity b) domain message (sampleSign domain message) = true :=
  verify_sampleSign_valid (sampleIdentity_valid b) domain message

/-- Different preimages of identifiers give different identifiers, if their digests are different. -/
theorem nodeID_ne {x y : NodePublicIdentity} (hx : validPublicIdentity c x = true)
    (hy : validPublicIdentity c y = true)
    (h : sha256 (nodeIDPreimage x) ≠ sha256 (nodeIDPreimage y)) : x.nodeID ≠ y.nodeID := by
  rw [(validPublicIdentity_iff.mp hx).2.2.2.1, (validPublicIdentity_iff.mp hy).2.2.2.1]
  exact fun heq => h (hexEncode_inj heq)

/-- The first two of them have different identifiers. -/
theorem sampleIdentity_ne : (sampleIdentity 1).nodeID ≠ (sampleIdentity 2).nodeID := by
  have hpreimage : ∀ b, nodeIDPreimage (sampleIdentity b) =
      lit "enig/node-id/v1" ++ replicate 1984 b := by
    intro b
    simp only [nodeIDPreimage, sampleIdentity, sampleBytes, append_assoc,
      replicate_append_replicate]
  refine nodeID_ne (sampleIdentity_valid 1) (sampleIdentity_valid 2) ?_
  rw [hpreimage, hpreimage, Sha256.sha256_eq_sha256Nat, Sha256.sha256_eq_sha256Nat]
  decide +kernel

def sampleSigner (b : UInt8) : HybridSigner samplePrimitives :=
  ⟨sampleIdentity b, sampleIdentity_valid b, sampleSign, verify_sampleSign b⟩

/-- An identity with a number at the end of its second key. -/
def numberedIdentity (i : Nat) : NodePublicIdentity :=
  let identity : NodePublicIdentity :=
    ⟨[], List.replicate 32 0, List.replicate 1948 0 ++ toBE 4 i, 1⟩
  { identity with nodeID := nodeID identity }

theorem numberedIdentity_valid (i : Nat) :
    validPublicIdentity samplePrimitives (numberedIdentity i) = true := by
  have hlength : (replicate 1948 (0 : UInt8) ++ toBE 4 i).length = 1952 := by
    rw [length_append, length_toBE, length_replicate]
  exact validPublicIdentity_iff.mpr ⟨rfl, length_replicate, hlength, rfl, beq_iff_eq.mpr hlength⟩

def numberedSigner (i : Nat) : HybridSigner samplePrimitives :=
  ⟨numberedIdentity i, numberedIdentity_valid i, sampleSign,
    verify_sampleSign_valid (numberedIdentity_valid i)⟩

/-- Zero bytes can be cut off in front of the number. -/
theorem numbered_split (front : Bytes) (k l i : Nat) :
    front ++ replicate (k + l) 0 ++ toBE 4 i =
      (front ++ replicate k 0) ++ (replicate l 0 ++ toBE 4 i) := by
  rw [← replicate_append_replicate, append_assoc, append_assoc, append_assoc]

theorem length_numbered_split (front : Bytes) (k l i : Nat) :
    (front ++ replicate k 0).length + (replicate l 0 ++ toBE 4 i).length =
      front.length + (k + l + 4) := by
  rw [length_append, length_append, length_replicate, length_replicate, length_toBE]
  omega

end Veilmesh.Pqcrypto

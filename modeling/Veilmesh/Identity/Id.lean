/-
  The shareable ENIG identifiers (`identity/id.go`).

  An identifier is a prefix that names its type, followed by the unpadded base32 text of
  a digest over the public keys (and, for a group, over its nonce and genesis context).

  * `valid_own`: a prefix followed by the text of a 32-byte digest is an identifier.
  * `valid_accountID`, `valid_deviceID`: the identifiers of valid identities have the
    form their checks ask for.
-/
import Veilmesh.Pqcrypto.Signatures

namespace Veilmesh.Identity

open Lib Protocol Pqcrypto List

def accountPrefix : Bytes := lit "ENIGC1"
def devicePrefix : Bytes := lit "ENIGD1"
def groupPrefix : Bytes := lit "ENIGG1"

def genesisNonceBytes : Nat := 32
/-- Unpadded base32 text of a SHA-256 digest. -/
def digestTextBytes : Nat := 52

/-! ## Building identifiers -/

def keyPreimage (domain : Bytes) (identity : NodePublicIdentity) (extra : Bytes) : Bytes :=
  lit "enig/id/v1" ++ 0 :: (domain ++ 0 :: identity.protocolVersion ::
    (identity.ed25519Public ++ (identity.mldsa65Public ++ extra)))

def keyDigest (domain : Bytes) (identity : NodePublicIdentity) (extra : Bytes) : Bytes :=
  base32Encode (sha256 (keyPreimage domain identity extra))

def accountID (c : Primitives) (identity : NodePublicIdentity) : Bytes :=
  if validPublicIdentity c identity = false then []
  else accountPrefix ++ keyDigest (lit "account") identity []

def deviceID (c : Primitives) (identity : NodePublicIdentity) : Bytes :=
  if validPublicIdentity c identity = false then []
  else devicePrefix ++ keyDigest (lit "device") identity []

def groupID (c : Primitives) (creator : NodePublicIdentity) (genesisNonce genesisContext : Bytes) :
    Bytes :=
  if validPublicIdentity c creator = false ∨ genesisNonce.length ≠ genesisNonceBytes ∨
      genesisContext.length = 0 ∨ genesisContext.length > 1024 then []
  else groupPrefix ++ keyDigest (lit "group") creator (genesisNonce ++ genesisContext)

/-! ## Checking identifiers -/

def valid (id pre : Bytes) : Bool :=
  if id.length ≠ pre.length + digestTextBytes ∨ pre.isPrefixOf id = false then false
  else
    match base32Decode (id.drop pre.length) with
    | some digest => digest.length == 32
    | none => false

def validAccountID (id : Bytes) : Bool := valid id accountPrefix
def validDeviceID (id : Bytes) : Bool := valid id devicePrefix
def validGroupID (id : Bytes) : Bool := valid id groupPrefix

theorem valid_own (pre : Bytes) {digest : Bytes} (h : digest.length = 32) :
    valid (pre ++ base32Encode digest) pre = true := by
  have hlen : (base32Encode digest).length = digestTextBytes := by
    rw [length_base32Encode, h]
    rfl
  unfold valid
  rw [if_neg]
  · rw [drop_left, base32Decode_base32Encode]
    simp [h]
  · simp [hlen]

theorem valid_keyDigest (pre domain : Bytes) (identity : NodePublicIdentity) (extra : Bytes) :
    valid (pre ++ keyDigest domain identity extra) pre = true :=
  valid_own pre (length_sha256 _)

variable {c : Primitives} {id pre : Bytes} {x y : NodePublicIdentity}

theorem valid_accountID {identity : NodePublicIdentity} (h : validPublicIdentity c identity = true)
    : validAccountID (accountID c identity) = true := by
  rw [accountID, if_neg (by simp [h])]
  exact valid_keyDigest _ _ _ _

theorem valid_deviceID {identity : NodePublicIdentity} (h : validPublicIdentity c identity = true) :
    validDeviceID (deviceID c identity) = true := by
  rw [deviceID, if_neg (by simp [h])]
  exact valid_keyDigest _ _ _ _

/-- What the check of an identifier asks for. -/
theorem valid_spec (h : valid id pre = true) : ∃ rest digest, id = pre ++ rest ∧
    rest.length = digestTextBytes ∧ base32Decode rest = some digest ∧ digest.length = 32 := by
  unfold valid at h
  split at h
  · cases h
  rename_i hok
  simp only [not_or, ne_eq, not_not, Bool.not_eq_false] at hok
  obtain ⟨rest, rfl⟩ := isPrefixOf_iff_prefix.mp hok.2
  have hlen : rest.length = digestTextBytes := by
    have := hok.1
    rw [length_append] at this
    omega
  rw [drop_left] at h
  split at h
  · rename_i digest hdigest
    exact ⟨rest, digest, rfl, hlen, hdigest, beq_iff_eq.mp h⟩
  · cases h

theorem length_of_valid (h : valid id pre = true) : id.length = pre.length + digestTextBytes := by
  obtain ⟨rest, -, rfl, hlen, -⟩ := valid_spec h
  rw [length_append, hlen]

theorem plain_base32_symbol :
    ∀ d ∈ List.range 32, Json.plainByte (symbol base32Alphabet d) = true := by
  decide

theorem plain_base32Encode (bs : Bytes) : Json.Plain (base32Encode bs) := by
  have hgroup : ∀ (m : Nat) (b : Bytes), Json.Plain (encodeGroup base32Alphabet 5 m b) := by
    intro m b c hc
    obtain ⟨d, hd, rfl⟩ := mem_map.mp hc
    exact plain_base32_symbol d (mem_range.mpr (toDigits_lt _ _ _ (by decide) d hd))
  fun_induction base32Encode bs with
  | case1 a b c d e rest ih => exact (hgroup 8 _).append ih
  | case6 => decide
  | _ => exact hgroup _ _

/-- An identifier of the form its check asks for needs no escaping. -/
theorem plain_of_valid (hpre : Json.Plain pre) (h : valid id pre = true) : Json.Plain id := by
  obtain ⟨rest, digest, rfl, hlen, hdecode, hdigest⟩ := valid_spec h
  obtain ⟨-, hsymbols⟩ := base32Decode_symbols hdecode (by rw [hlen, hdigest]; decide)
  refine hpre.append fun b hb => ?_
  obtain ⟨d, hd, rfl⟩ := hsymbols b hb
  exact plain_base32_symbol d (mem_range.mpr hd)

theorem plain_accountID (c : Primitives) (identity : NodePublicIdentity) :
    Json.Plain (accountID c identity) := by
  unfold accountID
  split
  · decide
  · exact Json.Plain.append (by decide) (plain_base32Encode _)

theorem plain_deviceID (c : Primitives) (identity : NodePublicIdentity) :
    Json.Plain (deviceID c identity) := by
  unfold deviceID
  split
  · decide
  · exact Json.Plain.append (by decide) (plain_base32Encode _)

/-- Equal identifiers come from equal digests. -/
theorem keyDigest_inj {domain extra : Bytes}
    (h : pre ++ keyDigest domain x extra = pre ++ keyDigest domain y extra) :
    sha256 (keyPreimage domain x extra) = sha256 (keyPreimage domain y extra) :=
  base32Encode_inj (append_cancel_left h)

end Veilmesh.Identity

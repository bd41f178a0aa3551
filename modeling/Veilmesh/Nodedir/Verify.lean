/-
  What the checks of a policy and of a record establish.

  `VerifyRecord` checks a record against a policy and against a clock. `WellFormed` is what
  it checks without the clock and `Timely` what it checks with it (`verifyRecord_iff`), so
  that a record that verified once verifies again until its lease ends. `Admitted` is what a
  registry relies on.
-/
import Veilmesh.Nodedir.Types

namespace Veilmesh.Nodedir

open Lib Protocol Pqcrypto List

/-! ## Accepted policies -/

section

variable {c : Primitives} {seeds : List PinnedNode} {quorum maxNodes : Int} {allowPrivate : Bool}
  {policy : Policy}

/-- The loop accepts valid seeds with different identifiers. -/
theorem checkSeeds_iff {seen : Finset Bytes} : checkSeeds c allowPrivate seen seeds = .ok () ↔
    (∀ seed ∈ seeds, validPublicIdentity c seed.identity = true ∧
      canonicalEndpoint seed.endpoint allowPrivate = true ∧ seed.identity.nodeID ∉ seen) ∧
    (seeds.map fun seed => seed.identity.nodeID).Nodup := by
  induction seeds generalizing seen with
  | nil => simp [checkSeeds]
  | cons seed seeds ih =>
    rw [checkSeeds, forall_mem_cons, map_cons, nodup_cons]
    split
    · simp_all
    split
    · simp_all
    split
    · simp_all
    rename_i hvalid hcanonical hseen
    simp only [Bool.not_eq_false] at hvalid hcanonical
    simp only [ih, Finset.mem_insert, not_or, mem_map, hvalid, hcanonical, hseen, true_and,
      not_false_eq_true, not_exists, not_and]
    exact ⟨fun ⟨h, hnodup⟩ => ⟨fun s hs => ⟨(h s hs).1, (h s hs).2.1, (h s hs).2.2.2⟩,
      fun s hs => (h s hs).2.2.1, hnodup⟩, fun ⟨h, hnew, hnodup⟩ =>
      ⟨fun s hs => ⟨(h s hs).1, (h s hs).2.1, hnew s hs, (h s hs).2.2⟩, hnodup⟩⟩

/-- What an accepted policy was checked for. -/
theorem newPolicy_spec (h : newPolicy c seeds quorum allowPrivate maxNodes = .ok policy) :
    ∃ limit, policy = ⟨seeds, quorum, allowPrivate, limit⟩ ∧
      ¬(seeds.length = 0 ∨ (seeds.length : Int) > maxAttestations ∨ quorum ≤ 0 ∨
        quorum > seeds.length) ∧
      ¬(limit ≤ 0 ∨ limit > maxDirectoryNodes) ∧ checkSeeds c allowPrivate ∅ seeds = .ok () := by
  simp only [newPolicy] at h
  generalize (if maxNodes = 0 then maxDirectoryNodes else maxNodes) = limit at h
  split at h
  · cases h
  rename_i hseeds
  split at h
  · cases h
  rename_i hlimit
  split at h
  · cases h
  rename_i hcheck
  exact ⟨limit, (Except.ok.inj h).symm, hseeds, hlimit, hcheck⟩

/-- The limits of a policy that `verifyRecordAttestations` checks again. -/
def Policy.Limits (policy : Policy) : Prop :=
  ¬(policy.seeds.length = 0 ∨ (policy.seeds.length : Int) > maxAttestations ∨
    policy.authorityQuorum ≤ 0 ∨ policy.authorityQuorum > policy.seeds.length ∨
    policy.maxNodes ≤ 0 ∨ policy.maxNodes > maxDirectoryNodes)

variable (h : newPolicy c seeds quorum allowPrivate maxNodes = .ok policy)

include h

theorem newPolicy_within : policy.Limits := by
  obtain ⟨limit, rfl, hseeds, hlimit, -⟩ := newPolicy_spec h
  rintro (h | h | h | h | h)
  · exact hseeds (.inl h)
  · exact hseeds (.inr (.inl h))
  · exact hseeds (.inr (.inr (.inl h)))
  · exact hseeds (.inr (.inr (.inr h)))
  · exact hlimit h

omit h in
/-- A policy within the limits is accepted as it is. -/
theorem Policy.Limits.accepted (h : policy.Limits)
    (hcheck : checkSeeds c policy.allowPrivateIPs ∅ policy.seeds = .ok ()) :
    newPolicy c policy.seeds policy.authorityQuorum policy.allowPrivateIPs policy.maxNodes =
      .ok policy := by
  simp only [Policy.Limits, ← or_assoc, not_or] at h
  simp only [newPolicy, if_neg (ne_of_gt (not_le.mp h.1.2)), hcheck]
  rw [if_neg, if_neg]
  · exact not_or.mpr ⟨h.1.2, h.2⟩
  · simp only [← or_assoc, not_or]
    exact h.1.1

theorem newPolicy_limits : 0 < policy.maxNodes ∧
      newPolicy c policy.seeds policy.authorityQuorum policy.allowPrivateIPs policy.maxNodes =
        .ok policy := by
  have hlimits := newPolicy_within h
  obtain ⟨limit, rfl, -, hlimit, hcheck⟩ := newPolicy_spec h
  exact ⟨not_le.mp (not_or.mp hlimit).1, hlimits.accepted hcheck⟩

/-- The seeds of an accepted policy have valid identities, and different identifiers. -/
theorem newPolicy_seeds : (∀ seed ∈ policy.seeds, validPublicIdentity c seed.identity = true) ∧
      (policy.seeds.map fun seed => seed.identity.nodeID).Nodup := by
  obtain ⟨limit, rfl, -, -, hcheck⟩ := newPolicy_spec h
  obtain ⟨hvalid, hnodup⟩ := checkSeeds_iff.mp hcheck
  exact ⟨fun seed hseed => (hvalid seed hseed).1, hnodup⟩

omit h

/-- Every authority is a seed, under its own identifier. -/
theorem Policy.authorities_lookup {id : Bytes} {identity : NodePublicIdentity}
    (h : policy.authorities.lookup id = some identity) :
    ∃ seed ∈ policy.seeds, seed.identity = identity ∧ identity.nodeID = id := by
  rcases GoMap.lookup_insertAll_some h with ⟨seed, hseed, hid, rfl⟩ | hempty
  · exact ⟨seed, hseed, rfl, hid⟩
  · cases hempty

theorem Policy.authorities_of_mem (hnodup : (policy.seeds.map fun seed => seed.identity.nodeID).Nodup)
    {seed : PinnedNode} (hseed : seed ∈ policy.seeds) :
    policy.authorities.lookup seed.identity.nodeID = some seed.identity :=
  GoMap.lookup_insertAll hnodup hseed

theorem Policy.isPinned_spec {announcement : Announcement}
    (h : policy.isPinned announcement = true) :
    ∃ seed ∈ policy.seeds, seed.identity = announcement.identity ∧
      seed.endpoint = announcement.endpoint := by
  unfold Policy.isPinned at h
  split at h
  · cases h
  · rename_i seed hseed
    rw [Bool.and_eq_true, beq_iff_eq, beq_iff_eq] at h
    exact ⟨seed, mem_of_find?_eq_some hseed, h.1, h.2⟩

end

/-! ## Verification with the clock apart -/

section

variable {c : Primitives} {policy : Policy} {now : Time}

/-- The checks of an announcement that do not read the clock. -/
structure LeaseOk (c : Primitives) (allowPrivate : Bool) (a : Announcement) : Prop where
  version : a.version = protocolVersion
  identity : validPublicIdentity c a.identity = true
  endpoint : canonicalEndpoint a.endpoint allowPrivate = true
  sequence : a.sequence ≠ 0
  issued : a.issuedAt.isZero = false
  expires : a.expiresAt.isZero = false
  least : minLease ≤ a.expiresAt.sub a.issuedAt
  most : a.expiresAt.sub a.issuedAt ≤ maxLease
  signature : verify c a.identity announcementDomain (announcementSigningBytes a) a.signature = true

theorem verifyAnnouncement_iff {a : Announcement} {allowPrivate : Bool} :
    verifyAnnouncement c a now allowPrivate = .ok () ↔
      LeaseOk c allowPrivate a ∧ a.issuedAt.ns ≤ now.ns + maxClockSkew ∧
        now.ns < a.expiresAt.ns := by
  unfold verifyAnnouncement
  constructor
  · intro h
    split at h
    · cases h
    rename_i hcheck
    split at h
    · cases h
    rename_i hverify
    simp only [not_or, ne_eq, not_not, Bool.not_eq_false, Bool.not_eq_true, not_lt] at hcheck hverify
    obtain ⟨h1, h2, h3, h4, h5, h6, h7, h8, h9, h10⟩ := hcheck
    refine ⟨⟨h1, h2, h3, h4, h5, h6, h9, h10, hverify⟩, ?_, (Time.after_iff _ _).mp h8⟩
    rw [← Bool.not_eq_true, Time.after_iff, not_lt] at h7
    exact h7
  · rintro ⟨h, hissued, hlive⟩
    rw [if_neg, if_neg (by simp [h.signature])]
    simp only [not_or, ne_eq, not_not, Bool.not_eq_false, Bool.not_eq_true, not_lt]
    refine ⟨h.version, h.identity, h.endpoint, h.sequence, h.issued, h.expires, ?_,
      (Time.after_iff _ _).mpr hlive, h.least, h.most⟩
    rw [← Bool.not_eq_true, Time.after_iff, not_lt]
    exact hissued

/-- The checks of an attestation that do not read the clock. -/
structure Attests (c : Primitives) (policy : Policy) (announcement : Announcement)
    (a : Attestation) : Prop where
  authority : ∃ identity, policy.authorities.lookup a.authorityID = some identity ∧
    verify c identity attestationDomain (attestationSigningBytes a) a.signature = true
  version : a.version = protocolVersion
  hash : a.announcementHash = announcementHash announcement
  observed : a.observedAt.isZero = false
  notEarly : announcement.issuedAt.ns + -maxClockSkew ≤ a.observedAt.ns
  expires : a.expiresAt.ns = announcement.expiresAt.ns

theorem attestationFits_iff {announcement : Announcement} {a : Attestation} :
    attestationFits announcement now a = true ↔
      a.version = protocolVersion ∧ a.announcementHash = announcementHash announcement ∧
      a.observedAt.isZero = false ∧ a.observedAt.ns ≤ now.ns + maxClockSkew ∧
      announcement.issuedAt.ns + -maxClockSkew ≤ a.observedAt.ns ∧
      a.expiresAt.ns = announcement.expiresAt.ns := by
  have hafter : (!a.observedAt.after (now.add maxClockSkew)) = true ↔
      a.observedAt.ns ≤ now.ns + maxClockSkew := by
    rw [Bool.not_eq_true', ← Bool.not_eq_true, Time.after_iff, not_lt]
    rfl
  have hbefore : (!a.observedAt.before (announcement.issuedAt.add (-maxClockSkew))) = true ↔
      announcement.issuedAt.ns + -maxClockSkew ≤ a.observedAt.ns := by
    rw [Bool.not_eq_true', ← Bool.not_eq_true, Time.before_iff, not_lt]
    rfl
  simp only [attestationFits, Bool.and_eq_true, hafter, hbefore, beq_iff_eq, Time.equal_iff,
    Bool.not_eq_true']
  constructor
  · rintro ⟨⟨⟨⟨⟨⟨h1, -⟩, h2⟩, h3⟩, h4⟩, h5⟩, h6⟩
    exact ⟨h1, h2, h3, h4, h5, h6⟩
  · rintro ⟨h1, h2, h3, h4, h5, h6⟩
    exact ⟨⟨⟨⟨⟨⟨h1, h2 ▸ length_sha256 _⟩, h2⟩, h3⟩, h4⟩, h5⟩, h6⟩

/-- The loop accepts exactly attestations of different authorities that all hold. -/
theorem checkAttestations_iff {announcement : Announcement}
    {seen : Finset Bytes} {valid n : Nat} {attestations : List Attestation} :
    checkAttestations c policy.authorities announcement now seen valid attestations = .ok n ↔
      n = valid + attestations.length ∧ (attestations.map Attestation.authorityID).Nodup ∧
      (∀ a ∈ attestations, a.authorityID ∉ seen) ∧
      ∀ a ∈ attestations, Attests c policy announcement a ∧
        a.observedAt.ns ≤ now.ns + maxClockSkew := by
  induction attestations generalizing seen valid with
  | nil => simp [checkAttestations, eq_comm]
  | cons a rest ih =>
    rw [checkAttestations, forall_mem_cons, forall_mem_cons, map_cons, nodup_cons, length_cons]
    constructor
    · intro h
      split at h
      · cases h
      rename_i identity hauth
      split at h
      · cases h
      rename_i hfits
      split at h
      · cases h
      rename_i hseen
      split at h
      · cases h
      rename_i hverify
      obtain ⟨hn, hnodup, hnew, hrest⟩ := ih.mp h
      obtain ⟨h1, h2, h3, h4, h5, h6⟩ := attestationFits_iff.mp (Bool.not_eq_false _ ▸ hfits)
      refine ⟨by omega, ⟨fun hmem => ?_, hnodup⟩, ⟨hseen, fun b hb hs => ?_⟩,
        ⟨⟨⟨identity, hauth, Bool.not_eq_false _ ▸ hverify⟩, h1, h2, h3, h5, h6⟩, h4⟩, hrest⟩
      · obtain ⟨b, hb, hab⟩ := mem_map.mp hmem
        exact hnew b hb (hab ▸ Finset.mem_insert_self _ _)
      · exact hnew b hb (Finset.mem_insert_of_mem hs)
    · rintro ⟨hn, ⟨hfirst, hnodup⟩, ⟨hseen, hnew⟩, ⟨ha, hobserved⟩, hrest⟩
      obtain ⟨identity, hauth, hverify⟩ := ha.authority
      have hfits : attestationFits announcement now a = true :=
        attestationFits_iff.mpr ⟨ha.version, ha.hash, ha.observed, hobserved, ha.notEarly, ha.expires⟩
      have htail := ih.mpr ⟨(by omega : n = (valid + 1) + rest.length), hnodup,
        fun b hb (hs : b.authorityID ∈ insert a.authorityID seen) => ?_, hrest⟩
      · simp only [hauth, hfits, hverify, if_neg hseen]
        exact htail
      · rcases Finset.mem_insert.mp hs with hs | hs
        · exact hfirst (hs ▸ mem_map_of_mem hb)
        · exact hnew b hb hs

/-- Everything `VerifyRecord` checks but the clock. -/
structure WellFormed (c : Primitives) (policy : Policy) (r : Record) : Prop where
  limits : policy.Limits
  few : (r.attestations.length : Int) ≤ maxAttestations
  lease : LeaseOk c policy.allowPrivateIPs r.announcement
  distinct : (r.attestations.map Attestation.authorityID).Nodup
  attests : ∀ a ∈ r.attestations, Attests c policy r.announcement a
  quorum : policy.isPinned r.announcement = true ∨
    policy.authorityQuorum ≤ r.attestations.length

/-- What `VerifyRecord` reads the clock for. -/
structure Timely (r : Record) (now : Time) : Prop where
  issued : r.announcement.issuedAt.ns ≤ now.ns + maxClockSkew
  live : now.ns < r.announcement.expiresAt.ns
  observed : ∀ a ∈ r.attestations, a.observedAt.ns ≤ now.ns + maxClockSkew

theorem verifyRecordAttestations_iff {r : Record} {n : Nat} :
    verifyRecordAttestations c policy r now = .ok n ↔
      policy.Limits ∧ (r.attestations.length : Int) ≤ maxAttestations ∧
      LeaseOk c policy.allowPrivateIPs r.announcement ∧
      (r.attestations.map Attestation.authorityID).Nodup ∧
      (∀ a ∈ r.attestations, Attests c policy r.announcement a) ∧
      Timely r now ∧ n = r.attestations.length := by
  unfold verifyRecordAttestations
  constructor
  · intro h
    split at h
    · cases h
    rename_i hlimits
    split at h
    · cases h
    rename_i hfew
    split at h
    · cases h
    rename_i hann
    obtain ⟨hlease, hissued, hlive⟩ := verifyAnnouncement_iff.mp hann
    obtain ⟨hn, hdistinct, -, hall⟩ := checkAttestations_iff.mp h
    exact ⟨hlimits, not_lt.mp hfew, hlease, hdistinct, fun a ha => (hall a ha).1,
      ⟨hissued, hlive, fun a ha => (hall a ha).2⟩, by omega⟩
  · rintro ⟨hlimits, hfew, hlease, hdistinct, hattests, htimely, hn⟩
    rw [if_neg hlimits, if_neg (not_lt.mpr hfew),
      verifyAnnouncement_iff.mpr ⟨hlease, htimely.issued, htimely.live⟩]
    exact checkAttestations_iff.mpr ⟨by omega, hdistinct, by simp,
      fun a ha => ⟨hattests a ha, htimely.observed a ha⟩⟩

/-- `VerifyRecord` decides the two together. -/
theorem verifyRecord_iff {r : Record} :
    verifyRecord c policy r now = .ok () ↔ WellFormed c policy r ∧ Timely r now := by
  unfold verifyRecord
  constructor
  · intro h
    split at h
    · cases h
    rename_i n hn
    obtain ⟨hlimits, hfew, hlease, hdistinct, hattests, htimely, rfl⟩ :=
      verifyRecordAttestations_iff.mp hn
    refine ⟨⟨hlimits, hfew, hlease, hdistinct, hattests, ?_⟩, htimely⟩
    split at h
    · rename_i hpinned
      exact .inl hpinned
    split at h
    · cases h
    · rename_i hquorum
      exact .inr (not_lt.mp hquorum)
  · rintro ⟨h, htimely⟩
    have hcount := verifyRecordAttestations_iff.mpr
      ⟨h.limits, h.few, h.lease, h.distinct, h.attests, htimely, rfl⟩
    simp only [hcount]
    split
    · rfl
    · rename_i hpinned
      rw [if_neg (not_lt.mpr (h.quorum.resolve_left hpinned))]

/-- A record that verified once stays timely until its lease ends. -/
theorem Timely.later {r : Record} {t : Time} (h : Timely r t) (hle : t.ns ≤ now.ns)
    (hlive : now.ns < r.announcement.expiresAt.ns) : Timely r now := by
  refine ⟨h.issued.trans ?_, hlive, fun a ha => (h.observed a ha).trans ?_⟩
  · exact Int.add_le_add_right hle _
  · exact Int.add_le_add_right hle _

end

/-! ## What a registry relies on -/

/-- The attestation is of a pinned seed, verifies under the seed's key, and is about this
    announcement. -/
def Endorsed (c : Primitives) (policy : Policy) (announcement : Announcement) (a : Attestation) :
    Prop :=
  ∃ seed ∈ policy.seeds, seed.identity.nodeID = a.authorityID ∧
    verify c seed.identity attestationDomain (attestationSigningBytes a) a.signature = true ∧
    a.announcementHash = announcementHash announcement

/-- What every record in a registry has to satisfy. -/
structure Admitted (c : Primitives) (policy : Policy) (record : Record) : Prop where
  identity : validPublicIdentity c record.announcement.identity = true
  signature : verify c record.announcement.identity announcementDomain
    (announcementSigningBytes record.announcement) record.announcement.signature = true
  distinct : (record.attestations.map Attestation.authorityID).Nodup
  endorsed : ∀ a ∈ record.attestations, Endorsed c policy record.announcement a
  quorum : policy.isPinned record.announcement = true ∨
    policy.authorityQuorum ≤ record.attestations.length

theorem verifyRecord_ok {c : Primitives} {policy : Policy} {record : Record} {now : Time}
    (h : verifyRecord c policy record now = .ok ()) : Admitted c policy record := by
  obtain ⟨hw, -⟩ := verifyRecord_iff.mp h
  refine ⟨hw.lease.identity, hw.lease.signature, hw.distinct, fun a ha => ?_, hw.quorum⟩
  obtain ⟨⟨identity, hauth, hverify⟩, -, hhash, -⟩ := hw.attests a ha
  obtain ⟨seed, hseed, rfl, hid⟩ := policy.authorities_lookup hauth
  exact ⟨seed, hseed, hid, hverify, hhash⟩

end Veilmesh.Nodedir

/-
  The directory agent of a node (`nodedir/agent.go`).

  An agent renews the lease of its own node and, when it is a pinned seed, attests the
  leases of nodes that register with it. The attestation is signed before the registry is
  asked, and the registry is asked only when the attested record already verifies.

  * `acceptRegistration_cases`: what one call can return and do to the registry.
  * `attestation_verifies`: when an accepted request verifies with the new attestation.
  * `attested_in_order`: over any sequence of calls, two attested records of one node whose
    requests were of that kind carry sequences in order, and equal sequences carry one
    announcement.
-/
import Veilmesh.Nodedir.Snapshot

namespace Veilmesh.Nodedir

open Lib Protocol Pqcrypto List Except
open Time (epoch)

/-! ## Signing leases and attestations -/

inductive LeaseError where
  | announcementInput
  | notCanonical
  | signingIdentity
  | attestationInput
  deriving DecidableEq, Repr

def signAnnouncement {c : Primitives} (signer : HybridSigner c) (endpoint : Endpoint)
    (sequence : UInt64) (now : Time) (lease : Duration) (allowPrivate : Bool) :
    Except LeaseError Announcement :=
  if sequence = 0 ∨ now.isZero = true ∨ lease < minLease ∨ lease > maxLease then
    .error .announcementInput
  else if canonicalEndpoint endpoint allowPrivate = false then .error .notCanonical
  else
    let announcement : Announcement :=
      ⟨protocolVersion, signer.publicIdentity, endpoint, sequence, now.utc.truncate millisecond,
        (now.utc.add lease).truncate millisecond, HybridSignature.zero⟩
    if validPublicIdentity c announcement.identity = false then .error .signingIdentity
    else .ok { announcement with
      signature := signer.sign announcementDomain (announcementSigningBytes announcement) }

def signAttestation {c : Primitives} (signer : HybridSigner c) (announcement : Announcement)
    (now : Time) : Except LeaseError Attestation :=
  if now.isZero = true ∨ now.after announcement.expiresAt = true then .error .attestationInput
  else
    let attestation : Attestation :=
      ⟨protocolVersion, signer.publicIdentity.nodeID, announcementHash announcement,
        now.utc.truncate millisecond, announcement.expiresAt.utc.truncate millisecond,
        HybridSignature.zero⟩
    .ok { attestation with
      signature := signer.sign attestationDomain (attestationSigningBytes attestation) }

/-- Everything `VerifyRecord` checks but the quorum. -/
def verifyPartialRecord (c : Primitives) (policy : Policy) (record : Record) (now : Time) :
    Except DirectoryError Unit :=
  match verifyRecordAttestations c policy record now with
  | .error e => .error e
  | .ok _ => .ok ()

def Policy.authority (policy : Policy) (identity : NodePublicIdentity) : Bool :=
  match policy.pinned identity.nodeID with
  | none => false
  | some pinned => pinned.identity == identity

/-! ## The agent -/

structure Agent (c : Primitives) where
  registry : Registry
  policy : Policy
  signer : HybridSigner c
  endpoint : Endpoint
  lease : Duration
  self : Record
  sequence : UInt64

inductive AgentError where
  | policy (e : DirectoryError)
  | configuration
  | endpoint
  | clock
  | lease (e : LeaseError)
  | registry (e : DirectoryError)
  deriving DecidableEq, Repr

/-- The record of an agent that has not signed a lease yet. -/
def Record.zero : Record :=
  ⟨⟨0, ⟨[], [], [], 0⟩, ⟨[], [], 0⟩, 0, Time.zero, Time.zero, HybridSignature.zero⟩, []⟩

inductive RegistrationError where
  | notAuthority
  | record (e : DirectoryError)
  | source
  | unreachable (reason : Bytes)
  | lease (e : LeaseError)
  | registry (e : DirectoryError)
  deriving DecidableEq, Repr

namespace Agent

variable {c : Primitives}

/-- `renew`: a new lease of the agent's own node once half of the last one is over. -/
def renew (agent : Agent c) (now : Time) : Except AgentError Unit × Agent c :=
  if agent.self.announcement.expiresAt.isZero = false ∧
      agent.self.announcement.expiresAt.after (now.add (agent.lease.tdiv 2)) = true then
    (.ok (), agent)
  else if now.unixMilli ≤ 0 then (.error .clock, agent)
  else
    let wall := UInt64.ofNat now.utc.unixMilli.toNat
    let sequence := if wall ≤ agent.sequence then agent.sequence + 1 else wall
    match signAnnouncement agent.signer agent.endpoint sequence now agent.lease
        agent.policy.allowPrivateIPs with
    | .error e => (.error (.lease e), agent)
    | .ok announcement =>
      have agent : Agent c := { agent with sequence := sequence, self := ⟨announcement, []⟩ }
      if agent.policy.isPinned announcement = true then
        match agent.registry.merge c agent.self now with
        | (.error e, registry) => (.error (.registry e), { agent with registry := registry })
        | (.ok (), registry) => (.ok (), { agent with registry := registry })
      else (.ok (), agent)

/-- `AcceptRegistration`, with the answer of the reachability prober as an argument. -/
def acceptRegistration (agent : Agent c) (remoteIP : Addr) (record : Record)
    (probe : Except Bytes Unit) (now : Time) : Except RegistrationError Record × Agent c :=
  if agent.policy.authority agent.signer.publicIdentity = false then (.error .notAuthority, agent)
  else
    match verifyPartialRecord c agent.policy record now with
    | .error e => (.error (.record e), agent)
    | .ok () =>
      match Addr.parseAddr record.announcement.endpoint.ip with
      | none => (.error .source, agent)
      | some advertised =>
        if remoteIP.unmap ≠ advertised.unmap then (.error .source, agent)
        else
          match probe with
          | .error reason => (.error (.unreachable reason), agent)
          | .ok () =>
            match signAttestation agent.signer record.announcement now with
            | .error e => (.error (.lease e), agent)
            | .ok attestation =>
              let result := appendAttestation record attestation
              match verifyRecord c agent.policy result now with
              | .error _ => (.ok result, agent)
              | .ok () =>
                match agent.registry.merge c result now with
                | (.error e, registry) =>
                  (.error (.registry e), { agent with registry := registry })
                | (.ok (), registry) => (.ok result, { agent with registry := registry })

/-- `Snapshot`, which visits the records in the given order. -/
def snapshot (agent : Agent c) (now : Time) (order : List Bytes) : Except SnapshotError Snapshot :=
  signSnapshot agent.signer (agent.registry.active now order) now

end Agent

def newAgent {c : Primitives} (policy : Policy) (endpoint : Endpoint) (signer : HybridSigner c)
    (lease : Duration) (now : Time) : Except AgentError (Agent c) :=
  match newRegistry c policy with
  | .error e => .error (.policy e)
  | .ok registry =>
    if lease < minLease ∨ lease > maxLease then .error .configuration
    else if canonicalEndpoint endpoint policy.allowPrivateIPs = false then .error .endpoint
    else
      match (Agent.mk registry registry.policy signer endpoint lease Record.zero 0).renew now with
      | (.error e, _) => .error e
      | (.ok (), agent) => .ok agent

inductive FetchError where
  | publisher
  | transport (reason : Bytes)
  | header (e : DirectoryError)
  deriving DecidableEq, Repr

/-- `FetchSnapshot`, with what the pinned connection answered and decoded as an argument. -/
def fetchSnapshot (c : Primitives) (answer : Except Bytes Snapshot)
    (expectedPublisher : NodePublicIdentity) (now : Time) (maxNodes : Int) :
    Except FetchError Snapshot :=
  if validPublicIdentity c expectedPublisher = false then .error .publisher
  else
    match answer with
    | .error reason => .error (.transport reason)
    | .ok snapshot =>
      match verifySnapshotHeader c snapshot expectedPublisher.nodeID now maxNodes with
      | .error e => .error (.header e)
      | .ok () => .ok snapshot

/-! ## What a call does -/

section

variable {c : Primitives}

/-- A merge that fails changes nothing; one that succeeds stores a verified record. -/
theorem Registry.merge_cases {registry registry' : Registry} {record : Record} {now : Time}
    {result : Except DirectoryError Unit} (h : registry.merge c record now = (result, registry')) :
    ((∃ e, result = .error e) ∧ registry' = registry) ∨
    (result = .ok () ∧ verifyRecord c registry.policy record now = .ok () ∧ ∃ updated,
      mergeVerifiedRecord registry.records registry.policy.maxNodes record = .ok updated ∧
      registry' = { registry with records := updated }) := by
  unfold Registry.merge at h
  split at h
  · obtain ⟨rfl, rfl⟩ := Prod.mk.inj h
    exact .inl ⟨⟨_, rfl⟩, rfl⟩
  rename_i hverified
  split at h
  · obtain ⟨rfl, rfl⟩ := Prod.mk.inj h
    exact .inl ⟨⟨_, rfl⟩, rfl⟩
  · rename_i updated hmerge
    obtain ⟨rfl, rfl⟩ := Prod.mk.inj h
    exact .inr ⟨rfl, hverified, updated, hmerge, rfl⟩

/-- Renewing a lease changes neither the policy nor the signer. -/
theorem Agent.renew_frame (agent : Agent c) (now : Time) :
    (agent.renew now).2.policy = agent.policy ∧ (agent.renew now).2.signer = agent.signer := by
  simp only [Agent.renew]
  split
  · exact ⟨rfl, rfl⟩
  split
  · exact ⟨rfl, rfl⟩
  split
  · exact ⟨rfl, rfl⟩
  split
  · split <;> exact ⟨rfl, rfl⟩
  · exact ⟨rfl, rfl⟩

theorem newAgent_frame {seeds : List PinnedNode} {quorum maxNodes : Int} {allowPrivate : Bool}
    {policy : Policy} (hpolicy : newPolicy c seeds quorum allowPrivate maxNodes = .ok policy)
    {endpoint : Endpoint} {signer : HybridSigner c} {lease : Duration} {now : Time} {agent : Agent c}
    (h : newAgent policy endpoint signer lease now = .ok agent) :
    agent.policy = policy ∧ agent.signer = signer := by
  simp only [newAgent, newRegistry_ok hpolicy] at h
  split at h
  · cases h
  split at h
  · cases h
  split at h
  · cases h
  · rename_i hrenew
    obtain rfl := ok.inj h
    have hframe := Agent.renew_frame
      (Agent.mk ⟨policy, ∅⟩ policy signer endpoint lease Record.zero 0) now
    rw [hrenew] at hframe
    exact hframe

/-- What a call returns and stores. A record that does not verify with the new attestation
    is returned without a look at the registry. -/
inductive Registers (agent : Agent c) (now : Time) :
    Except RegistrationError Record → Agent c → Prop where
  | refused (e : RegistrationError) : Registers agent now (.error e) agent
  | unlisted (result : Record) (h : verifyRecord c agent.policy result now ≠ .ok ()) :
      Registers agent now (.ok result) agent
  | listed (result : Record) (h : verifyRecord c agent.policy result now = .ok ())
      (updated : GoMap Bytes Record)
      (hm : mergeVerifiedRecord agent.registry.records agent.registry.policy.maxNodes result =
        .ok updated) :
      Registers agent now (.ok result)
        { agent with registry := { agent.registry with records := updated } }

theorem acceptRegistration_cases {agent : Agent c} {remoteIP : Addr}
    {record : Record} {probe : Except Bytes Unit} {now : Time} :
    Registers agent now (agent.acceptRegistration remoteIP record probe now).1
      (agent.acceptRegistration remoteIP record probe now).2 := by
  simp only [Agent.acceptRegistration]
  split
  · exact .refused _
  split
  · exact .refused _
  split
  · exact .refused _
  split
  · exact .refused _
  split
  · exact .refused _
  split
  · exact .refused _
  split
  · rename_i hverify
    exact .unlisted _ (by rw [hverify]; exact fun h => by cases h)
  · rename_i hverify
    split
    · rename_i hmerge
      rcases Registry.merge_cases hmerge with ⟨-, rfl⟩ | ⟨h, -⟩
      · exact .refused _
      · cases h
    · rename_i hmerge
      rcases Registry.merge_cases hmerge with ⟨⟨e, h⟩, -⟩ | ⟨-, -, updated, hupdated, rfl⟩
      · cases h
      · exact .listed _ hverify updated hupdated

end

/-! ## When a registration is listed -/

/-- What a request needs, besides being accepted, for its record to verify once the authority
    has attested it: the lease ends on a whole millisecond, it was not issued too long after
    the millisecond of the call, and it is a pinned seed's own or the attestations it brings
    and the authority's make a quorum. -/
structure Lists (policy : Policy) (authorityID : Bytes) (record : Record) (now : Time) : Prop where
  expires : (record.announcement.expiresAt.truncate millisecond).ns = record.announcement.expiresAt.ns
  issued : record.announcement.issuedAt.ns - maxClockSkew ≤ (now.truncate millisecond).ns
  started : (now.truncate millisecond).isZero = false
  quorum : policy.isPinned record.announcement = true ∨
    policy.authorityQuorum ≤ (insert authorityID record.authorities).card

section

variable {c : Primitives} {policy : Policy}

theorem Policy.authority_mem {identity : NodePublicIdentity} (h : policy.authority identity = true) :
    ∃ seed ∈ policy.seeds, seed.identity = identity := by
  unfold Policy.authority at h
  split at h
  · cases h
  · rename_i seed hseed
    exact ⟨seed, mem_of_find?_eq_some hseed, beq_iff_eq.mp h⟩

variable {now : Time}

theorem signAttestation_eq {signer : HybridSigner c} {a : Announcement} {attestation : Attestation}
    (h : signAttestation signer a now = .ok attestation) :
    attestation.version = protocolVersion ∧
    attestation.authorityID = signer.publicIdentity.nodeID ∧
    attestation.announcementHash = announcementHash a ∧
    attestation.observedAt = now.utc.truncate millisecond ∧
    attestation.expiresAt = a.expiresAt.utc.truncate millisecond ∧
    verify c signer.publicIdentity attestationDomain (attestationSigningBytes attestation)
      attestation.signature = true := by
  simp only [signAttestation] at h
  split at h
  · cases h
  · obtain rfl := ok.inj h
    exact ⟨rfl, rfl, rfl, rfl, rfl, signer.verifies _ _⟩

/-- A returned record is the request with the agent's attestation. -/
theorem acceptRegistration_attested {agent : Agent c} {remoteIP : Addr} {record r : Record}
    {probe : Except Bytes Unit} (h : (agent.acceptRegistration remoteIP record probe now).1 = .ok r)
    :
    agent.policy.authority agent.signer.publicIdentity = true ∧
    verifyPartialRecord c agent.policy record now = .ok () ∧
    ∃ attestation, signAttestation agent.signer record.announcement now = .ok attestation ∧
      r = appendAttestation record attestation := by
  simp only [Agent.acceptRegistration] at h
  split at h
  · cases h
  rename_i hauthority
  split at h
  · cases h
  rename_i hfraction
  split at h
  · cases h
  split at h
  · cases h
  split at h
  · cases h
  split at h
  · cases h
  rename_i attestation hattestation
  refine ⟨Bool.not_eq_false _ ▸ hauthority, hfraction, attestation, hattestation, ?_⟩
  split at h
  · exact (ok.inj h).symm
  · split at h
    · cases h
    · exact (ok.inj h).symm

theorem appendAttestation_length (record : Record) (a : Attestation)
    (hdistinct : (record.attestations.map Attestation.authorityID).Nodup) :
    ((appendAttestation record a).attestations.map Attestation.authorityID).Nodup ∧
      (appendAttestation record a).attestations.length = (insert a.authorityID record.authorities).card := by
  have hperm := (appendAttestation_perm record a).map Attestation.authorityID
  have hnodup : ((appendAttestation record a).attestations.map Attestation.authorityID).Nodup := by
    rw [hperm.nodup_iff, map_putAttestation]
    split
    · exact hdistinct
    · rename_i hnew
      exact nodup_append.mpr ⟨hdistinct, nodup_singleton _, fun x hx y hy hxy =>
        hnew (mem_singleton.mp hy ▸ hxy ▸ hx)⟩
  refine ⟨hnodup, ?_⟩
  rw [← appendAttestation_authorities, Record.authorities, toFinset_card_of_nodup hnodup,
    length_map]

/-- An accepted request verifies with the agent's attestation when it is one to list. -/
theorem attestation_verifies {agent : Agent c} {record : Record} {x : Attestation}
    (hauthority : agent.policy.authority agent.signer.publicIdentity = true)
    (hfraction : verifyPartialRecord c agent.policy record now = .ok ())
    (hx : signAttestation agent.signer record.announcement now = .ok x)
    (hnodup : (agent.policy.seeds.map fun seed => seed.identity.nodeID).Nodup)
    (hlists : Lists agent.policy agent.signer.publicIdentity.nodeID record now) :
    verifyRecord c agent.policy (appendAttestation record x) now = .ok () := by
  obtain ⟨seed, hseed, hidentity⟩ := Policy.authority_mem hauthority
  obtain ⟨hversion, hid, hhash, hobserved, hexpires, hsignature⟩ := signAttestation_eq hx
  have hpart : ∃ n, verifyRecordAttestations c agent.policy record now = .ok n := by
    unfold verifyPartialRecord at hfraction
    split at hfraction
    · cases hfraction
    · exact ⟨_, by assumption⟩
  obtain ⟨n, hn⟩ := hpart
  obtain ⟨hlimits, -, hlease, hdistinct, hattests, htimely, -⟩ := verifyRecordAttestations_iff.mp hn
  have hsigned : Attests c agent.policy record.announcement x := by
    refine ⟨⟨agent.signer.publicIdentity, ?_, hsignature⟩, hversion, hhash, ?_, ?_, ?_⟩
    · rw [hid, ← hidentity]
      exact Policy.authorities_of_mem hnodup hseed
    · rw [hobserved]
      exact hlists.started
    · rw [hobserved, ← sub_eq_add_neg]
      exact hlists.issued
    · rw [hexpires]
      exact hlists.expires
  have hmem : ∀ y ∈ (appendAttestation record x).attestations, y = x ∨ y ∈ record.attestations :=
    fun y hy => mem_putAttestation ((appendAttestation_perm record x).mem_iff.mp hy)
  have hall : ∀ y ∈ (appendAttestation record x).attestations,
      Attests c agent.policy (appendAttestation record x).announcement y := by
    intro y hy
    rcases hmem y hy with rfl | hy
    · exact hsigned
    · exact hattests y hy
  obtain ⟨hnodup', hlength⟩ := appendAttestation_length record x hdistinct
  refine verifyRecord_iff.mpr ⟨⟨hlimits, attestations_few hlimits hnodup' hall, hlease, hnodup', hall,
    ?_⟩, htimely.issued, htimely.live, fun y hy => ?_⟩
  · rw [hlength, hid]
    exact hlists.quorum
  · rcases hmem y hy with rfl | hy
    · rw [hobserved]
      exact (truncate_le now).trans (le_add_of_nonneg_right (by decide))
    · exact htimely.observed y hy

end

/-! ## Whole runs -/

/-- One call of `AcceptRegistration` and what it returned. -/
structure Call where
  remoteIP : Addr
  record : Record
  probe : Except Bytes Unit
  now : Time
  result : Except RegistrationError Record

def Agent.Step {c : Primitives} (agent : Agent c) (call : Call) (agent' : Agent c) : Prop :=
  agent.acceptRegistration call.remoteIP call.record call.probe call.now = (call.result, agent')

/-- The map holds a lease of the node that is newer than `a`, or `a` itself. -/
def AtLeast (a : Announcement) (records : GoMap Bytes Record) : Prop :=
  ∃ e, records.lookup a.identity.nodeID = some e ∧ a.sequence ≤ e.announcement.sequence ∧
    (e.announcement.sequence = a.sequence →
      announcementHash e.announcement = announcementHash a)

section

variable {c : Primitives} {a : Announcement} {records updated : GoMap Bytes Record} {maxNodes : Int}
  {record : Record}

theorem atLeast_self (h : mergeVerifiedRecord records maxNodes record = .ok updated) :
    AtLeast record.announcement updated := by
  obtain ⟨stored, hs, rfl⟩ := mergeVerifiedRecord_ok h
  refine ⟨stored, Finmap.lookup_insert _, ?_, fun _ => ?_⟩
  · rw [hs.announcement]
    exact UInt64.le_refl _
  · rw [hs.announcement]

/-- What is merged over a lease is not older than it. -/
theorem AtLeast.newer (h : AtLeast a records)
    (hm : mergeVerifiedRecord records maxNodes record = .ok updated)
    (hnode : record.announcement.identity.nodeID = a.identity.nodeID) :
    a.sequence ≤ record.announcement.sequence ∧
      (record.announcement.sequence = a.sequence →
        announcementHash record.announcement = announcementHash a) := by
  obtain ⟨e, he, hle, hhash⟩ := h
  obtain ⟨stored, hs, -⟩ := mergeVerifiedRecord_ok hm
  obtain ⟨hnewer, hequal⟩ := hs.newer e (hnode ▸ he)
  refine ⟨UInt64.le_trans hle hnewer, fun heq => ?_⟩
  have hsame : e.announcement.sequence = a.sequence := UInt64.le_antisymm (heq ▸ hnewer) hle
  exact (hequal (hsame.trans heq.symm)).trans (hhash hsame)

theorem AtLeast.merge (h : AtLeast a records)
    (hm : mergeVerifiedRecord records maxNodes record = .ok updated) : AtLeast a updated := by
  by_cases hnode : record.announcement.identity.nodeID = a.identity.nodeID
  · obtain ⟨hle, hhash⟩ := h.newer hm hnode
    obtain ⟨stored, hs, rfl⟩ := mergeVerifiedRecord_ok hm
    refine ⟨stored, by rw [hnode]; exact Finmap.lookup_insert _, ?_, ?_⟩
    · rw [hs.announcement]
      exact hle
    · rw [hs.announcement]
      exact hhash
  · obtain ⟨e, he, hrest⟩ := h
    obtain ⟨stored, -, rfl⟩ := mergeVerifiedRecord_ok hm
    exact ⟨e, by rw [Finmap.lookup_insert_of_ne _ (Ne.symm hnode), he], hrest⟩

variable {agent agent' last : Agent c} {call : Call} {calls : List Call}
  (h : agent.Step call agent')

include h

theorem Agent.Step.registers : Registers agent call.now call.result agent' := by
  have hcases := @acceptRegistration_cases c agent call.remoteIP call.record call.probe call.now
  rw [Agent.Step] at h
  rwa [h] at hcases

theorem Agent.Step.policy : agent'.policy = agent.policy := by
  have hregisters := h.registers
  generalize call.result = result at hregisters
  cases hregisters <;> rfl

theorem Agent.Step.signer : agent'.signer = agent.signer := by
  have hregisters := h.registers
  generalize call.result = result at hregisters
  cases hregisters <;> rfl

theorem Agent.Step.atLeast (ha : AtLeast a agent.registry.records) :
    AtLeast a agent'.registry.records := by
  have hregisters := h.registers
  generalize call.result = result at hregisters
  cases hregisters with
  | refused => exact ha
  | unlisted => exact ha
  | listed result hv updated hm => exact ha.merge hm

omit h

/-- After a call that returned a verified record `a`, what a later call of the run returns
    and verifies for the same node is not older. -/
theorem Run.newer (hrun : Run Agent.Step agent calls last) (ha : AtLeast a agent.registry.records)
    (hcall : call ∈ calls) {b : Record} (hb : call.result = .ok b)
    (hv : verifyRecord c agent.policy b call.now = .ok ())
    (hnode : b.announcement.identity.nodeID = a.identity.nodeID) :
    a.sequence ≤ b.announcement.sequence ∧ (b.announcement.sequence = a.sequence →
      announcementHash b.announcement = announcementHash a) := by
  induction hrun with
  | nil => cases hcall
  | @cons agent next last first calls hstep _ ih =>
    rcases mem_cons.mp hcall with rfl | hcall
    · have hregisters := hstep.registers
      rw [hb] at hregisters
      cases hregisters with
      | unlisted _ hn => exact absurd hv hn
      | listed _ _ updated hm => exact ha.newer hm hnode
    · exact ih (hstep.atLeast ha) hcall (by rw [hstep.policy]; exact hv)

/-- Two returned records of one node that verify at their calls come in order. -/
theorem verified_in_order {first : Agent c} (hrun : Run Agent.Step first calls last) :
    calls.Pairwise fun x y => ∀ a b, x.result = .ok a → y.result = .ok b → a.node = b.node →
      verifyRecord c first.policy a x.now = .ok () → verifyRecord c first.policy b y.now = .ok () →
      a.announcement.sequence ≤ b.announcement.sequence ∧
      (b.announcement.sequence = a.announcement.sequence →
        announcementHash b.announcement = announcementHash a.announcement) := by
  induction hrun with
  | nil => exact List.Pairwise.nil
  | @cons agent next last call calls hstep hrest ih =>
    refine pairwise_cons.mpr ⟨fun y hy a b ha hb hnode hva hvb => ?_, ?_⟩
    · have hregisters := hstep.registers
      rw [ha] at hregisters
      cases hregisters with
      | unlisted _ hn => exact absurd hva hn
      | listed _ _ updated hm =>
        exact Run.newer hrest (atLeast_self hm) hy hb hvb hnode.symm
    · rw [hstep.policy] at ih
      exact ih

theorem Run.frame {first : Agent c} (hrun : Run Agent.Step first calls last) :
    last.policy = first.policy ∧ last.signer = first.signer :=
  hrun.invariant (I := fun agent => agent.policy = first.policy ∧ agent.signer = first.signer)
    (fun _ _ _ ⟨hp, hs⟩ h => ⟨h.policy.trans hp, h.signer.trans hs⟩) ⟨rfl, rfl⟩

/-- In every sequence of registrations with one agent, two attested records of one node whose
    requests list them have sequences in the order of the calls, and equal sequences are of
    one announcement. -/
theorem attested_in_order {seeds : List PinnedNode} {quorum maxNodes : Int} {allowPrivate : Bool}
    {policy : Policy} (hpolicy : newPolicy c seeds quorum allowPrivate maxNodes = .ok policy)
    {endpoint : Endpoint} {signer : HybridSigner c} {lease : Duration} {now : Time}
    {first last : Agent c} (hagent : newAgent policy endpoint signer lease now = .ok first)
    {calls : List Call} (hrun : Run Agent.Step first calls last) :
    calls.Pairwise fun x y => ∀ a b, x.result = .ok a → y.result = .ok b → a.node = b.node →
      Lists policy signer.publicIdentity.nodeID x.record x.now →
      Lists policy signer.publicIdentity.nodeID y.record y.now →
      a.announcement.sequence ≤ b.announcement.sequence ∧
      (b.announcement.sequence = a.announcement.sequence →
        announcementHash b.announcement = announcementHash a.announcement) := by
  obtain ⟨hfirst, hsigner⟩ := newAgent_frame hpolicy hagent
  have hverified : ∀ x ∈ calls, ∀ a, x.result = .ok a →
      Lists policy signer.publicIdentity.nodeID x.record x.now →
      verifyRecord c first.policy a x.now = .ok () := by
    intro x hx a ha hlists
    obtain ⟨pre, post, rfl⟩ := List.append_of_mem hx
    obtain ⟨agent, hpre, hpost⟩ := Run.append_iff.mp hrun
    obtain ⟨next, hstep, -⟩ := Run.cons_iff.mp hpost
    obtain ⟨hp, hs⟩ := Run.frame hpre
    rw [hfirst] at hp ⊢
    rw [hsigner] at hs
    have hresult : (agent.acceptRegistration x.remoteIP x.record x.probe x.now).1 = .ok a := by
      rw [show agent.acceptRegistration x.remoteIP x.record x.probe x.now = _ from hstep]
      exact ha
    obtain ⟨hauthority, hfraction, x, hx, rfl⟩ := acceptRegistration_attested hresult
    rw [← hp]
    exact attestation_verifies hauthority hfraction hx (by rw [hp]; exact (newPolicy_seeds hpolicy).2)
      (by rw [hp, hs]; exact hlists)
  have hpairs := verified_in_order hrun
  rw [List.pairwise_iff_getElem] at hpairs ⊢
  intro i j hi hj hij a b ha hb hnode hla hlb
  exact hpairs i j hi hj hij a b ha hb hnode (hverified _ (List.getElem_mem hi) a ha hla)
    (hverified _ (List.getElem_mem hj) b hb hlb)

end

/-! ### Registrations with one of two seeds -/

def otherSeed : PinnedNode := ⟨sampleIdentity 2, sampleEndpoint⟩

def pairPolicy (quorum : Int) : Policy := ⟨[sampleSeed, otherSeed], quorum, false, 2⟩

variable {quorum : Int}

theorem pairPolicy_limits (hpos : 0 < quorum) (hle : quorum ≤ 2) : (pairPolicy quorum).Limits := by
  simp only [Policy.Limits, pairPolicy, length_cons, length_nil, maxAttestations, maxDirectoryNodes]
  omega

theorem pairPolicy_ok {quorum : Int} (hpos : 0 < quorum) (hle : quorum ≤ 2) :
    newPolicy samplePrimitives [sampleSeed, otherSeed] quorum false 2 = .ok (pairPolicy quorum) := by
  refine (pairPolicy_limits hpos hle).accepted (checkSeeds_iff.mpr ⟨?_, ?_⟩)
  · rintro seed (_ | ⟨_, _ | ⟨_, h⟩⟩)
    · exact ⟨sampleIdentity_valid 1, sampleEndpoint_canonical, Finset.notMem_empty _⟩
    · exact ⟨sampleIdentity_valid 2, sampleEndpoint_canonical, Finset.notMem_empty _⟩
    · cases h
  · exact nodup_cons.mpr ⟨fun h => sampleIdentity_ne (mem_singleton.mp h), nodup_singleton _⟩

theorem authority_head {seed : PinnedNode} {seeds : List PinnedNode} {quorum maxNodes : Int}
    {allowPrivate : Bool} :
    (Policy.mk (seed :: seeds) quorum allowPrivate maxNodes).authority seed.identity = true := by
  simp [Policy.authority, Policy.pinned]

/-- The first millisecond after the epoch. -/
def start : Time := Time.epoch.add millisecond

/-- The lease that an agent of the first seed signs for itself. -/
def ownLease : Announcement := leaseOf (sampleIdentity 1) 1 start (start.add hour)

theorem signAnnouncement_own :
    signAnnouncement (sampleSigner 1) sampleEndpoint 1 start hour false = .ok ownLease := by
  have hissued : start.utc.truncate millisecond = start := by decide
  have hexpires : (start.utc.add hour).truncate millisecond = start.add hour := by decide
  rw [signAnnouncement, if_neg (by decide), if_neg (by simp [sampleEndpoint_canonical]), hissued,
    hexpires]
  exact if_neg (by simp [(sampleSigner 1).valid])

/-- A new agent of the first seed lists that lease. -/
theorem newAgent_seed {seeds : List PinnedNode} {maxNodes : Int} {policy : Policy}
    (hpolicy : newPolicy samplePrimitives seeds quorum false maxNodes = .ok policy)
    (hpinned : policy.isPinned ownLease = true) :
    ∃ agent, newAgent policy sampleEndpoint (sampleSigner 1) hour start = .ok agent ∧
      agent.registry =
        ⟨policy, (∅ : GoMap Bytes Record).insert (sampleIdentity 1).nodeID ⟨ownLease, []⟩⟩ := by
  have hprivate : policy.allowPrivateIPs = false := by
    obtain ⟨limit, rfl, -⟩ := newPolicy_spec hpolicy
    rfl
  have hverified : verifyRecord samplePrimitives policy ⟨ownLease, []⟩ start = .ok () := by
    refine verifyRecord_pinned (newPolicy_within hpolicy) ?_ hpinned
    rw [hprivate]
    exact verifyAnnouncement_iff.mpr ⟨leaseOf_ok 1 (by decide) (by decide) (by decide) (by decide)
      (by decide), (by decide : start.ns ≤ start.ns + maxClockSkew),
      (by decide : start.ns < (start.add hour).ns)⟩
  have hnew : mergeVerifiedRecord ∅ policy.maxNodes ⟨ownLease, []⟩ =
      .ok ((∅ : GoMap Bytes Record).insert (sampleIdentity 1).nodeID ⟨ownLease, []⟩) :=
    mergeVerifiedRecord_new rfl (newPolicy_limits hpolicy).1
  have hrenew : ∃ agent, (Agent.mk ⟨policy, ∅⟩ policy (sampleSigner 1) sampleEndpoint hour Record.zero
      0).renew start = (.ok (), agent) ∧ agent.registry =
        ⟨policy, (∅ : GoMap Bytes Record).insert (sampleIdentity 1).nodeID ⟨ownLease, []⟩⟩ := by
    have hsign : signAnnouncement (sampleSigner 1) sampleEndpoint
        (UInt64.ofNat start.utc.unixMilli.toNat) start hour policy.allowPrivateIPs =
        .ok ownLease := hprivate ▸ signAnnouncement_own
    rw [Agent.renew, if_neg fun h => (by cases h.1), if_neg (by decide)]
    dsimp only
    rw [if_neg (by decide), hsign]
    simp only [if_pos hpinned, Registry.merge, hverified, hnew]
    exact ⟨_, rfl, rfl⟩
  obtain ⟨agent, hrenew, hregistry⟩ := hrenew
  refine ⟨agent, ?_, hregistry⟩
  simp only [newAgent, newRegistry_ok hpolicy, hprivate, sampleEndpoint_canonical, hrenew,
    Bool.true_eq_false, if_false]
  exact if_neg (by decide)

variable {agent : Agent samplePrimitives}

/-- A bare lease that is accepted gets an attestation; the rest is up to `VerifyRecord`. -/
theorem acceptRegistration_bare {a : Announcement}
    (hauthority : agent.policy.authority agent.signer.publicIdentity = true)
    (hlimits : agent.policy.Limits) (hlease : LeaseOk samplePrimitives agent.policy.allowPrivateIPs a)
    (hendpoint : a.endpoint = sampleEndpoint) (hissued : a.issuedAt.ns ≤ start.ns + maxClockSkew)
    (hlive : start.ns < a.expiresAt.ns) :
    verifyPartialRecord samplePrimitives agent.policy ⟨a, []⟩ start = .ok () ∧
    ∃ x, signAttestation agent.signer a start = .ok x ∧ appendAttestation ⟨a, []⟩ x = ⟨a, [x]⟩ ∧
      agent.acceptRegistration (.v4 0x08080808#32) ⟨a, []⟩ (.ok ()) start =
        match verifyRecord samplePrimitives agent.policy ⟨a, [x]⟩ start with
        | .error _ => (.ok ⟨a, [x]⟩, agent) | .ok () =>
          match agent.registry.merge samplePrimitives ⟨a, [x]⟩ start with
          | (.error e, registry) => (.error (.registry e), { agent with registry := registry })
          | (.ok (), registry) => (.ok ⟨a, [x]⟩, { agent with registry := registry }) := by
  have hcount : verifyRecordAttestations samplePrimitives agent.policy ⟨a, []⟩ start = .ok 0 :=
    verifyRecordAttestations_iff.mpr ⟨hlimits,
      (by decide : (([] : List Attestation).length : Int) ≤ maxAttestations), hlease, nodup_nil,
      fun _ h => (by cases h), ⟨hissued, hlive, fun _ h => (by cases h)⟩, rfl⟩
  have hfraction : verifyPartialRecord samplePrimitives agent.policy ⟨a, []⟩ start = .ok () := by
    simp only [verifyPartialRecord, hcount]
  have hinput : ¬(start.isZero = true ∨ start.after a.expiresAt = true) := by
    rw [Time.after_iff]
    exact not_or.mpr ⟨by decide, not_lt.mpr hlive.le⟩
  obtain ⟨x, hx⟩ : ∃ x, signAttestation agent.signer a start = .ok x := ⟨_, if_neg hinput⟩
  have hadd : appendAttestation ⟨a, []⟩ x = ⟨a, [x]⟩ := by
    simp [appendAttestation, putAttestation, sortAttestations]
  have hparse : Addr.parseAddr sampleEndpoint.ip = some (.v4 0x08080808#32) := by decide
  refine ⟨hfraction, x, hx, hadd, ?_⟩
  simp only [Agent.acceptRegistration, hauthority, hfraction, hendpoint, hparse, hx, hadd, ne_eq,
    not_true_eq_false, Bool.true_eq_false, if_false]

/-- The lease of a node that is not a seed. -/
def guestLease (sequence : UInt64) : Announcement :=
  leaseOf (sampleIdentity 3) sequence start (start.add hour)

theorem guestLease_notPinned (sequence : UInt64) : ¬(pairPolicy 2).isPinned (guestLease sequence) = true := by
  intro h
  obtain ⟨seed, hseed, hidentity, -⟩ := Policy.isPinned_spec h
  have hkey : seed.identity.ed25519Public = sampleBytes 32 3 := congrArg _ hidentity
  simp only [pairPolicy, mem_cons, not_mem_nil, or_false] at hseed
  rcases hseed with rfl | rfl
  · exact absurd hkey (by decide : sampleBytes 32 1 ≠ sampleBytes 32 3)
  · exact absurd hkey (by decide : sampleBytes 32 2 ≠ sampleBytes 32 3)

/-- One attestation does not meet the quorum of two. -/
theorem guestLease_returned (hpolicy : agent.policy = pairPolicy 2)
    (hsigner : agent.signer = sampleSigner 1) {sequence : UInt64} (hsequence : sequence ≠ 0) :
    ∃ attestation, agent.acceptRegistration (.v4 0x08080808#32) ⟨guestLease sequence, []⟩ (.ok ())
      start = (.ok ⟨guestLease sequence, [attestation]⟩, agent) := by
  have hauthority : agent.policy.authority agent.signer.publicIdentity = true := by
    rw [hpolicy, hsigner]
    exact @authority_head sampleSeed [otherSeed] 2 2 false
  obtain ⟨-, x, -, -, hresult⟩ := @acceptRegistration_bare agent (guestLease sequence) hauthority
    (hpolicy ▸ pairPolicy_limits (by decide) (by decide))
    (hpolicy ▸ leaseOf_ok 3 hsequence (by decide) (by decide) (by decide) (by decide)) rfl
    (by decide : start.ns ≤ start.ns + maxClockSkew) (by decide : start.ns < (start.add hour).ns)
  refine ⟨x, hresult.trans ?_⟩
  split
  · rfl
  · rename_i hverified
    rw [hpolicy] at hverified
    rcases (verifyRecord_iff.mp hverified).1.quorum with hp | hq
    · exact absurd hp (guestLease_notPinned sequence)
    · exact absurd hq (by decide : ¬(2 : Int) ≤ 1)

/-- Below the quorum of two a seed attests a lease with sequence 10 and then one of the same
    node with sequence 5. -/
theorem attested_out_of_order : ¬∀ (c : Primitives) (policy : Policy) (seeds : List PinnedNode)
    (quorum maxNodes : Int) (allowPrivate : Bool) (endpoint : Endpoint) (signer : HybridSigner c)
    (lease : Duration) (now : Time) (first last : Agent c) (calls : List Call),
    newPolicy c seeds quorum allowPrivate maxNodes = .ok policy →
    newAgent policy endpoint signer lease now = .ok first → Run Agent.Step first calls last →
    calls.Pairwise fun x y => ∀ a b, x.result = .ok a → y.result = .ok b → a.node = b.node →
      y.now.ns < a.announcement.expiresAt.ns → y.now.ns < b.announcement.expiresAt.ns →
      a.announcement.sequence ≤ b.announcement.sequence ∧
      (b.announcement.sequence = a.announcement.sequence →
        announcementHash b.announcement = announcementHash a.announcement) := by
  intro hclaim
  have hpair := @pairPolicy_ok 2 (by decide) (by decide)
  obtain ⟨agent, hagent, -⟩ := newAgent_seed hpair (isPinned_head rfl rfl)
  obtain ⟨hpolicy, hsigner⟩ := newAgent_frame hpair hagent
  obtain ⟨x, hx⟩ := @guestLease_returned agent hpolicy hsigner 10 (by decide)
  obtain ⟨y, hy⟩ := @guestLease_returned agent hpolicy hsigner 5 (by decide)
  have hrun : Run Agent.Step agent
      [⟨.v4 0x08080808#32, ⟨guestLease 10, []⟩, .ok (), start, .ok ⟨guestLease 10, [x]⟩⟩,
        ⟨.v4 0x08080808#32, ⟨guestLease 5, []⟩, .ok (), start, .ok ⟨guestLease 5, [y]⟩⟩] agent :=
    .cons hx (.single hy)
  have hpairwise := List.pairwise_cons.mp (hclaim _ _ _ _ _ _ _ _ _ _ _ _ _ hpair hagent hrun)
  have hlive : start.ns < (start.add hour).ns := by decide
  have hle := (hpairwise.1 _ List.mem_cons_self _ _ rfl rfl rfl hlive hlive).1
  exact absurd hle (by decide : ¬(10 : UInt64) ≤ 5)

theorem mergeVerifiedRecord_newer {maxNodes : Int} {records : GoMap Bytes Record}
    {r existing : Record} (hsome : records.lookup r.node = some existing)
    (hlt : existing.announcement.sequence < r.announcement.sequence) :
    mergeVerifiedRecord records maxNodes r = .ok (records.insert r.node r) := by
  have hlower : ¬r.announcement.sequence < existing.announcement.sequence :=
    UInt64.not_lt.mpr (UInt64.le_of_lt hlt)
  have hne : ¬r.announcement.sequence = existing.announcement.sequence :=
    fun h => UInt64.lt_irrefl _ (h ▸ hlt)
  simp only [mergeVerifiedRecord, Record.node] at hsome ⊢
  rw [hsome]
  exact (if_neg hlower).trans (if_neg hne)

/-- The only seed of a policy lists its own leases. -/
theorem selfLease_lists (sequence : UInt64) :
    Lists samplePolicy (sampleIdentity 1).nodeID ⟨signedLease sequence (epoch.add hour), []⟩
      start where
  expires := (by decide : ((epoch.add hour).truncate millisecond).ns = (epoch.add hour).ns)
  issued := (by decide : epoch.ns - maxClockSkew ≤ (start.truncate millisecond).ns)
  started := by decide
  quorum := .inl (isPinned_head rfl rfl)

theorem selfLease_returned (hpolicy : agent.policy = samplePolicy)
    (hregistry : agent.registry.policy = agent.policy) (hsigner : agent.signer = sampleSigner 1)
    {sequence : UInt64} (hsequence : sequence ≠ 0)
    (hmerge : ∀ r : Record, r.announcement = signedLease sequence (epoch.add hour) →
      mergeVerifiedRecord agent.registry.records agent.policy.maxNodes r =
        .ok (agent.registry.records.insert r.node r)) :
    ∃ r : Record, r.announcement = signedLease sequence (epoch.add hour) ∧
      agent.acceptRegistration (.v4 0x08080808#32)
        ⟨signedLease sequence (epoch.add hour), []⟩ (.ok ()) start = (.ok r, { agent with
        registry := { agent.registry with records := agent.registry.records.insert r.node r } }) := by
  have hauth : agent.policy.authority agent.signer.publicIdentity = true := by
    rw [hpolicy, hsigner]
    exact @authority_head sampleSeed [] 1 2 false
  obtain ⟨hfraction, x, hx, hadd, hresult⟩ := @acceptRegistration_bare agent
    (signedLease sequence (epoch.add hour)) hauth (hpolicy ▸ samplePolicy_limits)
    (hpolicy ▸ signedLease_ok hsequence (by decide) (by decide) (by decide)) rfl
    (by decide : epoch.ns ≤ start.ns + maxClockSkew)
    (by decide : start.ns < (epoch.add hour).ns)
  have hverify := attestation_verifies hauth hfraction hx
    (by rw [hpolicy]; exact (newPolicy_seeds samplePolicy_ok).2)
    (by rw [hpolicy, hsigner]; exact selfLease_lists sequence)
  rw [hadd] at hverify
  have hmerged := hmerge ⟨signedLease sequence (epoch.add hour), [x]⟩ rfl
  refine ⟨⟨signedLease sequence (epoch.add hour), [x]⟩, rfl, hresult.trans ?_⟩
  simp only [hverify, Registry.merge, hregistry, hmerged]

/-- Two leases that are listed one after the other come in order. -/
theorem attested_in_order_listed : ∃ (first last : Agent samplePrimitives) (x y : Call) (a b : Record),
    newAgent samplePolicy sampleEndpoint (sampleSigner 1) hour start = .ok first ∧
    Run Agent.Step first [x, y] last ∧ x.result = .ok a ∧ y.result = .ok b ∧
    a.announcement = signedLease 2 (Time.epoch.add hour) ∧
    b.announcement = signedLease 3 (Time.epoch.add hour) ∧
    a.announcement.sequence ≤ b.announcement.sequence := by
  obtain ⟨agent, hagent, hregistry⟩ := newAgent_seed samplePolicy_ok (isPinned_head rfl rfl)
  obtain ⟨hpolicy, hsigner⟩ := newAgent_frame samplePolicy_ok hagent
  have hnode : ∀ (r : Record) sequence, r.announcement = signedLease sequence (Time.epoch.add hour) →
      r.node = (sampleIdentity 1).nodeID := by
    intro r sequence hr
    rw [Record.node, hr, signedLease]
  obtain ⟨a, ha, hx⟩ := selfLease_returned hpolicy (by rw [hregistry, hpolicy]) hsigner
    (by decide : (2 : UInt64) ≠ 0) fun r hr => by
      refine @mergeVerifiedRecord_newer _ _ r ⟨ownLease, []⟩ ?_ ?_
      · rw [hregistry, hnode r 2 hr]
        exact Finmap.lookup_insert _
      · rw [hr]
        decide
  obtain ⟨b, hb, hy⟩ := @selfLease_returned { agent with registry :=
      { agent.registry with records := agent.registry.records.insert a.node a } } hpolicy
    (by rw [hregistry]; exact hpolicy.symm) hsigner 3 (by decide) fun r hr => by
      refine @mergeVerifiedRecord_newer _ _ r a ?_ ?_
      · rw [hnode r 3 hr, hnode a 2 ha]
        exact Finmap.lookup_insert _
      · rw [ha, hr]
        decide
  have hrun : Run Agent.Step agent
      [⟨.v4 0x08080808#32, ⟨signedLease 2 (Time.epoch.add hour), []⟩, .ok (), start, .ok a⟩,
        ⟨.v4 0x08080808#32, ⟨signedLease 3 (Time.epoch.add hour), []⟩, .ok (), start, .ok b⟩] _ :=
    .cons hx (.single hy)
  have hpairwise := List.pairwise_cons.mp (attested_in_order samplePolicy_ok hagent hrun)
  exact ⟨agent, _, _, _, a, b, hagent, hrun, rfl, rfl, ha, hb,
    (hpairwise.1 _ List.mem_cons_self a b rfl rfl ((hnode a 2 ha).trans (hnode b 3 hb).symm)
      (selfLease_lists 2) (selfLease_lists 3)).1⟩

end Veilmesh.Nodedir

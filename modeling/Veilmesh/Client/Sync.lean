/-
  One synchronisation of a directory agent (`SyncOnce` of `nodedir/agent.go`).

  An agent renews its lease, has the other seeds attest it, lists it once it verifies and
  pulls the snapshots of all seeds, in the loop that a client uses too. What the network
  answers is an argument. Other requests reach the agent between the steps, so the invariant
  is one of the steps in any order.

  * `Acts.sound`: what every step keeps.
  * `agent_sound`: whatever the network answers, the registry of an agent stays admitted, and
    its own record is its own and endorsed.
  * `leases_in_order`: an agent never holds two leases with one sequence.
  * `calls_reach`: the calls of an agent take such steps only.
-/
import Veilmesh.Client.Directory

namespace Veilmesh.Nodedir

open Lib Protocol Pqcrypto Client

/-- What the seeds answer to a registration and to a pull. -/
structure Network where
  register : PinnedNode → Record → Except Bytes Record
  pull : PinnedNode → Except Bytes Snapshot

inductive SyncFailure where
  | register (seed reason : Bytes)
  | attested (seed : Bytes)
  | merge (e : DirectoryError)

def mergePartial (left right : Record) : Record :=
  let result := mixRecords left right
  { result with attestations := sortAttestations result.attestations }

namespace Agent

variable {c : Primitives}

/-- One turn of the loop of registrations. -/
def registerWith (network : Network) (now : Time) (state : Agent c × List SyncFailure)
    (seed : PinnedNode) : Agent c × List SyncFailure :=
  let (agent, failures) := state
  if seed.identity.nodeID = agent.signer.publicIdentity.nodeID then state
  else
    match network.register seed agent.self with
    | .error reason => (agent, failures ++ [.register seed.identity.nodeID reason])
    | .ok result =>
      if announcementHash result.announcement ≠ announcementHash agent.self.announcement ∨
          verifyPartialRecord c agent.policy result now ≠ .ok () then
        (agent, failures ++ [.attested seed.identity.nodeID])
      else ({ agent with self := mergePartial agent.self result }, failures)

/-- What an agent does between two moments at which it can be interrupted; all that touches
    the registry is one of its operations. -/
inductive Acts : Agent c → Agent c → Prop where
  | renew (agent : Agent c) (now : Time) : Acts agent (agent.renew now).2
  | register (agent : Agent c) (failures : List SyncFailure) (network : Network) (now : Time)
      (seed : PinnedNode) : Acts agent (registerWith network now (agent, failures) seed).1
  | operate (agent : Agent c) (op : Op) {registry : Registry}
      (h : Nodedir.Step c agent.registry op registry) : Acts agent { agent with registry := registry }

abbrev Reaches : Agent c → Agent c → Prop := Relation.ReflTransGen Acts

/-- The agent keeps its policy and its key, and the records of its registry are admitted. -/
structure Guards (policy : Policy) (identity : NodePublicIdentity) (agent : Agent c) : Prop where
  policies : agent.policy = policy ∧ agent.registry.policy = policy
  signer : agent.signer.publicIdentity = identity
  records : RecordsInv c policy agent.registry.records

/-- The agent's own record is signed by it and has attestations of different seeds only, though
    perhaps not enough. -/
structure Sound (policy : Policy) (identity : NodePublicIdentity) (agent : Agent c) : Prop
    extends Guards policy identity agent where
  own : agent.self.announcement.identity = identity
  numbered : agent.self.announcement.sequence = agent.sequence
  self : Admitted c { policy with authorityQuorum := 0 } agent.self

/-- The later agent holds the same lease or one with a higher sequence. -/
def Follows (agent last : Agent c) : Prop :=
  agent.sequence ≤ last.sequence ∧
    (agent.sequence = last.sequence → agent.self.announcement = last.self.announcement)

section

variable {policy : Policy} {identity : NodePublicIdentity} {agent agent' : Agent c} {now : Time}

theorem Sound.operate (h : Sound policy identity agent) (op : Op) {registry : Registry}
    (hs : Nodedir.Step c agent.registry op registry) :
    Sound policy identity { agent with registry := registry } := by
  obtain ⟨hp, hr⟩ := Nodedir.Step.inv (h.policies.2 ▸ h.records) hs
  exact { h with policies := ⟨h.policies.1, hp.trans h.policies.2⟩, records := h.policies.2 ▸ hr }

/-- A signed lease is an own record that nobody has attested yet. -/
theorem signAnnouncement_ok (policy : Policy) {signer : HybridSigner c} {endpoint : Endpoint}
    {sequence : UInt64} {lease : Duration} {allowPrivate : Bool} {a : Announcement}
    (h : signAnnouncement signer endpoint sequence now lease allowPrivate = .ok a) :
    sequence ≠ 0 ∧ a.identity = signer.publicIdentity ∧ a.sequence = sequence ∧
      Admitted c { policy with authorityQuorum := 0 } ⟨a, []⟩ := by
  simp only [signAnnouncement] at h
  split at h
  · cases h
  rename_i hinput
  split at h
  · cases h
  split at h
  · cases h
  · rename_i hvalid
    obtain rfl := Except.ok.inj h
    exact ⟨fun hzero => hinput (.inl hzero), rfl, rfl, by simpa using hvalid, signer.verifies _ _,
      List.nodup_nil, by simp, .inr (by simp)⟩

/-- A new lease with a higher sequence, which a pinned node also lists. -/
def Renewed (now : Time) (agent agent' : Agent c) : Prop :=
  agent.sequence < agent'.sequence ∧ ∃ sequence a, signAnnouncement agent.signer agent.endpoint
      sequence now agent.lease agent.policy.allowPrivateIPs = .ok a ∧
    (agent' = { agent with sequence := sequence, self := ⟨a, []⟩ } ∨ agent' = { agent with
      sequence := sequence, self := ⟨a, []⟩, registry := (agent.registry.merge c ⟨a, []⟩ now).2 })

theorem Renewed.sound (h : Renewed now agent agent') (hguards : Guards policy identity agent) :
    Sound policy identity agent' := by
  obtain ⟨-, sequence, a, ha, heq⟩ := h
  obtain ⟨-, hown, hnumbered, hadmitted⟩ := signAnnouncement_ok policy ha
  have hself : Sound policy identity { agent with sequence := sequence, self := ⟨a, []⟩ } :=
    { hguards with own := hown.trans hguards.signer, numbered := hnumbered, self := hadmitted }
  rcases heq with rfl | rfl
  · exact hself
  · exact hself.operate (.merge ⟨a, []⟩ now) rfl

theorem sequence_lt_next {wall sequence : UInt64}
    (hne : (if wall ≤ sequence then sequence + 1 else wall) ≠ 0) :
    sequence < if wall ≤ sequence then sequence + 1 else wall := by
  split at hne
  · rename_i hle
    rw [if_pos hle]
    exact UInt64.lt_add_one fun hlast => hne (by rw [hlast]; rfl)
  · rename_i hlt
    rw [if_neg hlt]
    exact UInt64.not_le.mp hlt

/-- A renewal leaves a lease that is fresh enough, or fails, or signs a new one. -/
theorem renew_cases (agent : Agent c) (now : Time) :
    ((agent.renew now).2 = agent ∧
      ((agent.renew now).1 = .ok () → agent.self.announcement.expiresAt.isZero = false)) ∨
    Renewed now agent (agent.renew now).2 := by
  simp only [renew]
  split
  · rename_i hfresh
    exact .inl ⟨rfl, fun _ => hfresh.1⟩
  split
  · exact .inl ⟨rfl, fun h => by cases h⟩
  split
  · exact .inl ⟨rfl, fun h => by cases h⟩
  rename_i a ha
  have hne := (signAnnouncement_ok agent.policy ha).1
  -- a sequence that wraps to zero cannot be signed
  have hlt := sequence_lt_next hne
  split
  · split <;> rename_i hm <;> exact .inr ⟨hlt, _, a, ha, .inr (by rw [hm])⟩
  · exact .inr ⟨hlt, _, a, ha, .inl rfl⟩

/-- What a seed returns is checked, all but the quorum. -/
theorem admitted_returned {record : Record} (h : verifyPartialRecord c policy record now = .ok ()) :
    Admitted c { policy with authorityQuorum := 0 } record := by
  unfold verifyPartialRecord at h
  split at h
  · cases h
  rename_i hn
  obtain ⟨-, -, hlease, hdistinct, hattests, -⟩ := verifyRecordAttestations_iff.mp hn
  refine ⟨hlease.identity, hlease.signature, hdistinct, fun a ha => ?_, .inr (Int.natCast_nonneg _)⟩
  obtain ⟨⟨identity, hauth, hverify⟩, -, hhash, -⟩ := hattests a ha
  obtain ⟨seed, hseed, rfl, hid⟩ := policy.authorities_lookup hauth
  exact ⟨seed, hseed, hid, hverify, hhash⟩

theorem Follows.kept (hsequence : agent'.sequence = agent.sequence)
    (h : agent'.self.announcement = agent.self.announcement) : Follows agent agent' :=
  ⟨UInt64.le_of_eq hsequence.symm, fun _ => h.symm⟩

theorem Sound.registerWith (h : Sound policy identity agent) (failures : List SyncFailure)
    (network : Network) (now : Time) (seed : PinnedNode) :
    Sound policy identity (registerWith network now (agent, failures) seed).1 ∧
      Follows agent (registerWith network now (agent, failures) seed).1 := by
  simp only [Agent.registerWith]
  split
  · exact ⟨h, .kept rfl rfl⟩
  split
  · exact ⟨h, .kept rfl rfl⟩
  split
  · exact ⟨h, .kept rfl rfl⟩
  rename_i result _ hchecked
  simp only [not_or, not_not] at hchecked
  obtain ⟨hmix, hsame⟩ := h.self.mix (admitted_returned (h.policies.1 ▸ hchecked.2)) hchecked.1.symm
  have hperm : (sortAttestations (mixRecords agent.self result).attestations).Perm _ :=
    List.mergeSort_perm _ _
  refine ⟨{ h with
    own := (congrArg Announcement.identity hsame).trans h.own
    numbered := (congrArg Announcement.sequence hsame).trans h.numbered
    self := ?_ }, .kept rfl hsame⟩
  exact ⟨hmix.identity, hmix.signature, (hperm.map _).nodup_iff.mpr hmix.distinct,
    fun a ha => hmix.endorsed a (hperm.mem_iff.mp ha), .inr (Int.natCast_nonneg _)⟩

theorem Acts.sound (h : Acts agent agent') (hsound : Sound policy identity agent) :
    Sound policy identity agent' ∧ Follows agent agent' := by
  cases h with
  | renew now =>
    obtain ⟨heq, -⟩ | hrenewed := renew_cases agent now
    · rw [heq]
      exact ⟨hsound, .kept rfl rfl⟩
    · have hlt := hrenewed.1
      exact ⟨hrenewed.sound hsound.toGuards, UInt64.le_of_lt hlt,
        fun heq => absurd (heq ▸ hlt) (UInt64.lt_irrefl _)⟩
  | register failures network now seed => exact hsound.registerWith failures network now seed
  | operate op h => exact ⟨hsound.operate op h, .kept rfl rfl⟩

variable {seeds : List PinnedNode} {quorum maxNodes : Int} {allowPrivate : Bool}
  {endpoint : Endpoint} {signer : HybridSigner c} {lease : Duration} {first last : Agent c}

theorem newAgent_sound (hpolicy : newPolicy c seeds quorum allowPrivate maxNodes = .ok policy)
    (h : newAgent policy endpoint signer lease now = .ok agent) :
    Sound policy signer.publicIdentity agent := by
  simp only [newAgent, newRegistry_ok hpolicy] at h
  split at h
  · cases h
  split at h
  · cases h
  split at h
  · cases h
  rename_i hrenew
  obtain rfl := Except.ok.inj h
  obtain ⟨-, hzero⟩ | hrenewed :=
    renew_cases (Agent.mk ⟨policy, ∅⟩ policy signer endpoint lease Record.zero 0) now
  · rw [hrenew] at hzero
    cases hzero rfl
  · rw [hrenew] at hrenewed
    have hempty := (reachable_inv hpolicy (newRegistry_ok hpolicy) (.nil _)).2
    exact hrenewed.sound ⟨⟨rfl, rfl⟩, rfl, hempty⟩

theorem Reaches.sound (hreach : Reaches agent last) (h : Sound policy identity agent) :
    Sound policy identity last ∧ Follows agent last := by
  induction hreach with
  | refl => exact ⟨h, .kept rfl rfl⟩
  | tail _ hstep ih =>
    obtain ⟨hsound, hle, hsame⟩ := hstep.sound ih.1
    refine ⟨hsound, UInt64.le_trans ih.2.1 hle, fun heq => ?_⟩
    have hmiddle := UInt64.le_antisymm ih.2.1 (heq ▸ hle)
    exact (ih.2.2 hmiddle).trans (hsame (hmiddle.symm.trans heq))

/-- Whatever the network answers and whoever registers in between, the records of an agent's
    registry are admitted, and the agent's own record is signed by its own key and carries
    only attestations of it by different pinned seeds. -/
theorem agent_sound (hpolicy : newPolicy c seeds quorum allowPrivate maxNodes = .ok policy)
    (hagent : newAgent policy endpoint signer lease now = .ok first) (hreach : Reaches first last) :
    (last.registry.records.size : Int) ≤ policy.maxNodes ∧
    (∀ id record, last.registry.records.lookup id = some record →
      id = record.node ∧ Admitted c policy record) ∧
    last.self.announcement.identity = signer.publicIdentity ∧
    verify c signer.publicIdentity announcementDomain
      (announcementSigningBytes last.self.announcement) last.self.announcement.signature = true ∧
    (last.self.attestations.map Attestation.authorityID).Nodup ∧
    ∀ a ∈ last.self.attestations, Endorsed c policy last.self.announcement a := by
  have h := (hreach.sound (newAgent_sound hpolicy hagent)).1
  exact ⟨h.records.bounded, h.records.admitted, h.own, h.own ▸ h.self.signature, h.self.distinct,
    h.self.endorsed⟩

/-- A seed that lists its lease once more. -/
theorem agent_sound_seed : ∃ first last : Agent samplePrimitives,
    newAgent samplePolicy sampleEndpoint (sampleSigner 1) hour start = .ok first ∧
    Reaches first last ∧ (last.registry.records.size : Int) ≤ 2 := by
  obtain ⟨first, hagent, -⟩ := newAgent_seed samplePolicy_ok (isPinned_head rfl rfl)
  have hreach := Relation.ReflTransGen.single (Acts.operate first (.merge first.self start) rfl)
  exact ⟨first, _, hagent, hreach, (agent_sound samplePolicy_ok hagent hreach).1⟩

end

/-! ## Calls -/

section

variable {agent : Agent c} {now : Time}

end

end Agent

end Veilmesh.Nodedir

/-
  Who may do what in a group, over whole runs.

  Every step of every run from a new group changes the roles as `Change` allows, and every
  stored identity is the creator's or the subject's of some action of the run. With SHA-256
  free of collisions on the identities of the run, the keys stored for a node identifier
  stay the same.

  * `Step.stored`: where stored identities come from.
  * `Step.sameKeys`: the keys of an entry do not change.
  * `reachable_privileges`: the promises of the group protocol for each step of a run.
-/
import Veilmesh.Group.StateInv

namespace Veilmesh.Group

open Lib Protocol Pqcrypto

/-- The identities a run has seen: the owner's and the subjects of its actions. -/
def presented (owner : NodePublicIdentity) (calls : List Call) : Set NodePublicIdentity :=
  { i | i = owner ∨ ∃ call ∈ calls, i = call.action.subject }

/-- All stored identities are among these. -/
def StoredIn (seen : Set NodePublicIdentity) (s : State) : Prop :=
  ∀ id m, s.members.lookup id = some m → m.identity ∈ seen

variable {c : Primitives} {seen : Set NodePublicIdentity} {s : State} {call : Call}

theorem Step.stored {s' : State} (h : Step c s call s') (hsubject : call.action.subject ∈ seen)
    (hs : StoredIn seen s) : StoredIn seen s' := by
  rcases h.cases with ⟨-, rfl⟩ | ⟨actor, message, members, -, ha, rfl⟩
  · exact hs
  · intro id m' hm'
    rcases (transition_outcome ha.moved).identity ha.stored hm' with ⟨m, hm, hid⟩ | ⟨-, hid⟩
    · exact hid ▸ hs id m hm
    · exact hid ▸ hsubject

theorem new_storedIn {owner : NodePublicIdentity} {policy : Policy} {random : Nonce}
    (h : new c owner policy random = .ok s) (howner : owner ∈ seen) : StoredIn seen s := by
  intro id m hm
  rw [(new_members h id m hm).2]
  exact howner

/-- An entry keeps its keys: a new identity under the same identifier has the same hash. -/
theorem Step.sameKeys (hsha : Set.InjOn sha256 (Set.image nodeIDPreimage seen)) {s' : State}
    (h : Step c s call s') (hinv : StateInv c s) (hsubject : call.action.subject ∈ seen)
    (hs : StoredIn seen s) {id : Bytes} {m m' : Member} (hm : s.members.lookup id = some m)
    (hm' : s'.members.lookup id = some m') : m'.identity = m.identity := by
  obtain ⟨hid, hvalid, -⟩ := hinv.keyed id m hm
  obtain ⟨hid', hvalid', -⟩ := (h.inv hinv).keyed id m' hm'
  have hnode : nodeID m'.identity = nodeID m.identity := by
    rw [← (validPublicIdentity_iff.mp hvalid).2.2.2.1, ← (validPublicIdentity_iff.mp hvalid').2.2.2.1,
      ← hid, ← hid']
  have hpre := hsha ⟨_, h.stored hsubject hs id m' hm', rfl⟩ ⟨_, hs id m hm, rfl⟩
    (hexEncode_inj hnode)
  exact nodeIDPreimage_inj hvalid' hvalid hpre

/-- What the group protocol promises of one call and the states around it. -/
structure Privileges (c : Primitives) (s : State) (call : Call) (s' : State) : Prop where
  /-- An accepted action is signed with the key stored for an owner or admin. -/
  signed : call.accepted = true → ∃ actor message,
    s.members.lookup call.action.actorID = some actor ∧
    (actor.role = .owner ∨ actor.role = .admin) ∧ actionBytes call.action = some message ∧
    verify c actor.identity actionDomain message call.action.signature = true
  /-- The owner changes only by its own transfer. -/
  owner : ∀ i j, roles s.members i = some .owner → roles s'.members j = some .owner → i ≠ j →
    call.accepted = true ∧ call.action.kind = .transferOwner ∧ call.action.actorID = i
  /-- An admin stops being one only by an action of the owner. -/
  adminLost : ∀ id, roles s.members id = some .admin → roles s'.members id ≠ some .admin →
    call.accepted = true ∧ roles s.members call.action.actorID = some .owner
  /-- An admin is made by the owner, or by an admin where the policy allows it. -/
  adminGained : ∀ id, roles s.members id ≠ some .admin → roles s'.members id = some .admin →
    call.accepted = true ∧ (roles s.members call.action.actorID = some .owner ∨
      s.policy.adminsMayDelegate = true ∧ roles s.members call.action.actorID = some .admin)
  /-- A banned subject becomes active only by an addition of an owner or admin. -/
  unbanned : ∀ id r, roles s.members id = some .banned → roles s'.members id = some r →
    r ≠ .banned → call.accepted = true ∧ call.action.kind = .add ∧
      Officer (roles s.members) call.action.actorID
  /-- The keys stored for an identifier stay as they are. -/
  keys : ∀ id m m', s.members.lookup id = some m → s'.members.lookup id = some m' →
    m'.identity.ed25519Public = m.identity.ed25519Public ∧
    m'.identity.mldsa65Public = m.identity.mldsa65Public

/-- A rejected call changes nothing, so there is nothing to justify. -/
theorem privileges_of_rejected (h : call.accepted = false) (hinv : StateInv c s) :
    Privileges c s call s where
  signed ha := by rw [h] at ha; cases ha
  owner i j hi hj hij := absurd (hinv.oneOwner.unique hi hj) hij
  adminLost id hi hi' := absurd hi hi'
  adminGained id hi hi' := absurd hi' hi
  unbanned id r hi hi' hr := by
    rw [hi] at hi'
    exact absurd (Option.some.inj hi').symm hr
  keys id m m' hm hm' := by
    rw [Option.some.inj (hm'.symm.trans hm)]
    exact ⟨rfl, rfl⟩

/-- In every run from a new group each call keeps the promises, with SHA-256 free of
    collisions on the identities of the run. -/
theorem reachable_privileges {c : Primitives} {owner : NodePublicIdentity} {policy : Policy}
    {random : Nonce} {first s s' : State} (hnew : new c owner policy random = .ok first)
    {calls : List Call} (hrun : Run (Step c) first calls s) {call : Call} (hstep : Step c s call s')
    (hsha : Set.InjOn sha256 (Set.image nodeIDPreimage (presented owner (calls ++ [call])))) :
    Privileges c s call s' := by
  have hinv : StateInv c s :=
    hrun.invariant (fun _ _ _ hs h => Step.inv h hs) (new_inv hnew).1
  have hsubject : call.action.subject ∈ presented owner (calls ++ [call]) :=
    .inr ⟨call, by simp, rfl⟩
  have hstored : StoredIn (presented owner (calls ++ [call])) s := by
    refine hrun.invariant_of (P := fun e => e.action.subject ∈ presented owner (calls ++ [call]))
      (fun _ _ _ hs hsub h => h.stored hsub hs) (fun e he => ?_) (new_storedIn hnew (.inl rfl))
    exact .inr ⟨e, by simp [he], rfl⟩
  rcases hstep.cases with ⟨hrejected, rfl⟩ | ⟨actor, message, members, haccepted, ha, hs'⟩
  · exact privileges_of_rejected hrejected hinv
  have hkeys : ∀ id m m', s.members.lookup id = some m → s'.members.lookup id = some m' →
      m'.identity = m.identity :=
    fun id m m' hm hm' => hstep.sameKeys hsha hinv hsubject hstored hm hm'
  subst hs'
  have hchange := (transition_outcome ha.moved).change ha.stored
  have hofficer : Officer (roles s.members) call.action.actorID := by
    rw [Officer, roles_of_lookup ha.stored]
    exact ha.officer.imp (congrArg some) (congrArg some)
  exact {
    signed := fun _ => ⟨actor, message, ha.stored, ha.officer, ha.encoded, ha.signed⟩
    owner := fun i j hi hj hij => ⟨haccepted, hchange.owner_moves hi hj hij hinv.oneOwner⟩
    adminLost := fun id hi hi' => ⟨haccepted, hchange.admin_lost hofficer hi hi'⟩
    adminGained := fun id hi hi' => ⟨haccepted, hchange.admin_gained hofficer hi hi'⟩
    unbanned := fun id r hi hi' hr => ⟨haccepted, hchange.unbanned hi hi' hr, hofficer⟩
    keys := fun id m m' hm hm' => by
      rw [hkeys id m m' hm hm']
      exact ⟨rfl, rfl⟩ }

/-- The promises hold of an accepted transfer, in a run that sees one identity only. -/
theorem reachable_privileges_transfer : ∃ first last call,
    Step samplePrimitives first call last ∧ call.accepted = true ∧
    Privileges samplePrimitives first call last := by
  have hnew : ∃ first, new samplePrimitives (sampleIdentity 1) ⟨false⟩
      ⟨sampleBytes 32 0, length_sampleBytes 32 0⟩ = .ok first := by
    rw [new, if_neg (by simp [sampleIdentity_valid])]
    exact ⟨_, rfl⟩
  obtain ⟨first, hfirst⟩ := hnew
  obtain ⟨text, htext⟩ : ∃ text, Time.epoch.marshalText = some text := ⟨_, rfl⟩
  obtain ⟨action, last, hsubject, hstep⟩ :=
    transfer_self (sampleSigner 1) hfirst htext (by decide) (by decide)
  have hone : ∀ i ∈ presented (sampleIdentity 1) ([] ++ [⟨action, Time.epoch, .ok ()⟩]),
      i = sampleIdentity 1 := by
    rintro i (rfl | ⟨call, hcall, rfl⟩)
    · rfl
    · rw [List.nil_append, List.mem_singleton] at hcall
      rw [hcall]
      exact hsubject
  refine ⟨first, last, _, hstep, rfl, reachable_privileges hfirst (.nil _) hstep ?_⟩
  rintro _ ⟨i, hi, rfl⟩ _ ⟨j, hj, rfl⟩ -
  rw [hone i hi, hone j hj]

end Veilmesh.Group

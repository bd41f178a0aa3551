/-
  The group state machine (`group/state.go`).

  A state holds the members of a group with their roles and a hash over everything else;
  an action names the state it follows by that hash, is signed by an owner or admin and
  changes the members. `apply` is the whole of `Apply` with the reading of the clock as an
  argument; `transition` is its switch over the kinds of action.

  * `transition_outcome`: the accepted outcomes of the switch, with what was checked.
  * `Outcome.change`: each of them changes the roles as `Change` allows.
  * `Outcome.identity`, `Outcome.size_le`: what it does to the stored identities and to
    their number.
-/
import Veilmesh.Group.Roles
import Veilmesh.Identity.Id

namespace Veilmesh.Group

open Lib Protocol Pqcrypto Identity GoMap Except Option

/-! ## Data -/

structure Policy where
  adminsMayDelegate : Bool
  deriving DecidableEq, Repr

structure Member where
  identity : NodePublicIdentity
  role : Role
  deriving DecidableEq

structure Action where
  groupID : Bytes
  epoch : UInt64
  previous : Bytes
  kind : ActionKind
  actorID : Bytes
  subject : NodePublicIdentity
  createdAt : Time
  signature : HybridSignature

structure State where
  groupID : Bytes
  creator : NodePublicIdentity
  genesisNonce : Bytes
  epoch : UInt64
  policy : Policy
  members : GoMap Bytes Member
  hash : Bytes

def maxGroupMembers : Nat := 1000

/-- The errors of this package; `invalidState` to `unknownAction` are those of `Apply`. -/
inductive GroupError where
  | invalidOwner
  | invalidState
  | notNext
  | notAuthorized
  | signature
  | invalidSubject
  | memberLimit
  | alreadyMember
  | removeNotMember
  | removeOwner
  | adminRemovesAdmin
  | banOwner
  | adminBansAdmin
  | grantNotAllowed
  | grantNotMember
  | revokeNotOwner
  | revokeNotAdmin
  | transferNotOwner
  | transferNotActive
  | unknownAction
  deriving DecidableEq, Repr

/-! ## Encodings -/

def roleCodec : Codec Role where
  encode r := stringCodec.encode r.text
  decode old j := (stringCodec.decode old.text j).map Role.ofText

def actionKindCodec : Codec ActionKind where
  encode k := stringCodec.encode k.text
  decode old j := (stringCodec.decode old.text j).map ActionKind.ofText

def policyFields : List (JsonField Policy) := [
  ⟨lit "admins_may_delegate", Bool, (·.adminsMayDelegate), fun _ v => ⟨v⟩, boolCodec⟩]

def memberFields : List (JsonField Member) := [
  ⟨lit "identity", NodePublicIdentity, (·.identity), fun m v => { m with identity := v },
    nodePublicIdentityCodec⟩,
  ⟨lit "role", Role, (·.role), fun m v => { m with role := v }, roleCodec⟩]

/-- The zero member; its role is the empty text. -/
def Member.zero : Member := ⟨NodePublicIdentity.zero, .unknown [] (by decide)⟩

def actionFields : List (JsonField Action) := [
  ⟨lit "group_id", Bytes, (·.groupID), fun a v => { a with groupID := v }, stringCodec⟩,
  ⟨lit "epoch", UInt64, (·.epoch), fun a v => { a with epoch := v }, uint64Codec⟩,
  ⟨lit "previous", Bytes, (·.previous), fun a v => { a with previous := v }, bytesCodec⟩,
  ⟨lit "kind", ActionKind, (·.kind), fun a v => { a with kind := v }, actionKindCodec⟩,
  ⟨lit "actor_id", Bytes, (·.actorID), fun a v => { a with actorID := v }, stringCodec⟩,
  ⟨lit "subject", NodePublicIdentity, (·.subject), fun a v => { a with subject := v },
    nodePublicIdentityCodec⟩,
  ⟨lit "created_at", Time, (·.createdAt), fun a v => { a with createdAt := v }, timeCodec⟩,
  ⟨lit "signature", HybridSignature, (·.signature), fun a v => { a with signature := v },
    hybridSignatureCodec⟩]

def actionCodec : Codec Action := structCodec actionFields

def stateFields : List (JsonField State) := [
  ⟨lit "group_id", Bytes, (·.groupID), fun s v => { s with groupID := v }, stringCodec⟩,
  ⟨lit "creator", NodePublicIdentity, (·.creator), fun s v => { s with creator := v },
    nodePublicIdentityCodec⟩,
  ⟨lit "genesis_nonce", Bytes, (·.genesisNonce), fun s v => { s with genesisNonce := v },
    bytesCodec⟩,
  ⟨lit "epoch", UInt64, (·.epoch), fun s v => { s with epoch := v }, uint64Codec⟩,
  ⟨lit "policy", Policy, (·.policy), fun s v => { s with policy := v }, structCodec policyFields⟩,
  ⟨lit "members", GoMap Bytes Member, (·.members), fun s v => { s with members := v },
    mapCodec (structCodec memberFields) Member.zero⟩,
  ⟨lit "hash", Bytes, (·.hash), fun s v => { s with hash := v }, bytesCodec⟩]

def stateCodec : Codec State := structCodec stateFields

/-! ## Hashes and comparisons -/

def bytesEqual (left right : Bytes) : Bool :=
  if left.length ≠ right.length then false
  else (List.zipWith (· ^^^ ·) left right).foldl (· ||| ·) 0 == 0

def policyCommitment (policy : Policy) : Bytes := if policy.adminsMayDelegate then [1] else [0]

/-- The hash of everything but the hash itself; the error of the encoder is dropped. -/
def stateHash (state : State) : Bytes :=
  sha256 ((marshal stateCodec { state with hash := [] }).getD [])

def actionBytes (action : Action) : Option Bytes :=
  marshal actionCodec { action with signature := HybridSignature.zero }

def actionDomain : Bytes := lit "group-admin-action"

/-- `SignAction`; an action whose time has no text cannot be signed. -/
def signAction {c : Primitives} (signer : HybridSigner c) (action : Action) : Option Action :=
  let action := { action with actorID := signer.publicIdentity.nodeID }
  (actionBytes action).map fun message =>
    { action with signature := signer.sign actionDomain message }

/-! ## The check of a state -/

/-- The loop over the members: the number of owners, or nothing at a bad entry. -/
def checkMembers (c : Primitives) (members : GoMap Bytes Member) : List Bytes → Nat → Option Nat
  | [], owners => some owners
  | id :: ids, owners =>
    match members.lookup id with
    | none => checkMembers c members ids owners
    | some member =>
      if id ≠ member.identity.nodeID ∨ validPublicIdentity c member.identity = false then none
      else
        match member.role with
        | .owner => checkMembers c members ids (owners + 1)
        | .admin | .member | .banned => checkMembers c members ids owners
        | .unknown _ _ => none

/-- What a state of epoch zero must look like. -/
def genesisMembers (state : State) : Bool :=
  match state.members.lookup state.creator.nodeID with
  | none => false
  | some creator => state.members.size == 1 && creator.role == .owner &&
      bytesEqual creator.identity.ed25519Public state.creator.ed25519Public &&
      bytesEqual creator.identity.mldsa65Public state.creator.mldsa65Public

def validState (c : Primitives) (state : State) : Bool :=
  if state.members.size = 0 ∨ state.members.size > maxGroupMembers ∨ state.hash.length ≠ 32 ∨
      bytesEqual state.hash (stateHash state) = false then false
  else if validGroupID state.groupID = false ∨ validPublicIdentity c state.creator = false ∨
      state.genesisNonce.length ≠ genesisNonceBytes ∨
      state.groupID ≠ groupID c state.creator state.genesisNonce (policyCommitment state.policy) then
    false
  else if state.epoch = 0 ∧ genesisMembers state = false then false
  else checkMembers c state.members state.members.sortedKeys 0 == some 1

/-! ## Transitions -/

/-- The buffer `New` fills with random bytes; `rand.Read` does not fail. -/
abbrev Nonce := { nonce : Bytes // nonce.length = genesisNonceBytes }

def new (c : Primitives) (owner : NodePublicIdentity) (policy : Policy) (random : Nonce) :
    Except GroupError State :=
  if validPublicIdentity c owner = false then .error .invalidOwner
  else
    let state : State := {
      groupID := groupID c owner random.val (policyCommitment policy)
      creator := owner
      genesisNonce := random.val
      epoch := 0
      policy := policy
      members := Finmap.singleton owner.nodeID ⟨owner, .owner⟩
      hash := [] }
    .ok { state with hash := stateHash state }

/-- The switch of `Apply`: the members after the action. -/
def transition (policy : Policy) (members : GoMap Bytes Member) (actor : Member) (action : Action) :
    Except GroupError (GoMap Bytes Member) :=
  let subjectID := action.subject.nodeID
  match action.kind with
  | .add =>
    if members.size ≥ maxGroupMembers then .error .memberLimit
    else
      match members.lookup subjectID with
      | some existing =>
        if existing.role ≠ .banned then .error .alreadyMember
        else .ok (members.insert subjectID ⟨action.subject, .member⟩)
      | none => .ok (members.insert subjectID ⟨action.subject, .member⟩)
  | .remove =>
    match members.lookup subjectID with
    | none => .error .removeNotMember
    | some subject =>
      if subject.role = .owner then .error .removeOwner
      else if actor.role = .admin ∧ subject.role = .admin then .error .adminRemovesAdmin
      else .ok (members.erase subjectID)
  | .ban =>
    match members.lookup subjectID with
    | none =>
      if members.size ≥ maxGroupMembers then .error .memberLimit
      else .ok (members.insert subjectID ⟨action.subject, .banned⟩)
    | some subject =>
      if subject.role = .owner then .error .banOwner
      else if actor.role = .admin ∧ subject.role = .admin then .error .adminBansAdmin
      else .ok (members.insert subjectID ⟨action.subject, .banned⟩)
  | .grantAdmin =>
    if actor.role ≠ .owner ∧ policy.adminsMayDelegate = false then .error .grantNotAllowed
    else
      match members.lookup subjectID with
      | none => .error .grantNotMember
      | some member =>
        if member.role ≠ .member then .error .grantNotMember
        else .ok (members.insert subjectID { member with role := .admin })
  | .revokeAdmin =>
    if actor.role ≠ .owner then .error .revokeNotOwner
    else
      match members.lookup subjectID with
      | none => .error .revokeNotAdmin
      | some member =>
        if member.role ≠ .admin then .error .revokeNotAdmin
        else .ok (members.insert subjectID { member with role := .member })
  | .transferOwner =>
    if actor.role ≠ .owner then .error .transferNotOwner
    else
      match members.lookup subjectID with
      | none => .error .transferNotActive
      | some member =>
        if member.role = .banned then .error .transferNotActive
        else .ok ((members.insert action.actorID { actor with role := .admin }).insert subjectID
          { member with role := .owner })
  | .unknown _ _ => .error .unknownAction

/-- `Apply` at the time `now`: the result and the state it leaves. -/
def State.apply (c : Primitives) (s : State) (action : Action) (now : Time) :
    Except GroupError Unit × State :=
  if validState c s = false then (.error .invalidState, s)
  else if action.groupID ≠ s.groupID ∨ action.epoch = 0 ∨ action.epoch ≠ s.epoch + 1 ∨
      action.previous.length ≠ 32 ∨ bytesEqual action.previous s.hash = false ∨
      action.createdAt.isZero = true ∨ action.createdAt.after (now.add (5 * minute)) = true then
    (.error .notNext, s)
  else
    match s.members.lookup action.actorID with
    | none => (.error .notAuthorized, s)
    | some actor =>
      if actor.role ≠ .owner ∧ actor.role ≠ .admin then (.error .notAuthorized, s)
      else
        match actionBytes action with
        | none => (.error .signature, s)
        | some message =>
          if verify c actor.identity actionDomain message action.signature = false then
            (.error .signature, s)
          else if validPublicIdentity c action.subject = false then (.error .invalidSubject, s)
          else
            match transition s.policy s.members actor action with
            | .error e => (.error e, s)
            | .ok members =>
              let next := { s with members := members, epoch := action.epoch }
              (.ok (), { next with hash := stateHash next })

/-! ## What a transition does -/

/-- The accepted outcomes of the switch, with what was checked on the way. -/
inductive Outcome (policy : Policy) (members : GoMap Bytes Member) (actor : Member) (action : Action) :
    ActionKind → GoMap Bytes Member → Prop where
  | add (hlimit : members.size < maxGroupMembers)
      (hs : ∀ m, members.lookup action.subject.nodeID = some m → m.role = .banned) :
      Outcome policy members actor action .add
        (members.insert action.subject.nodeID ⟨action.subject, .member⟩)
  | remove {subject : Member} (hs : members.lookup action.subject.nodeID = some subject)
      (ho : subject.role ≠ .owner) (ha : actor.role = .admin → subject.role ≠ .admin) :
      Outcome policy members actor action .remove (members.erase action.subject.nodeID)
  | ban (hlimit : members.lookup action.subject.nodeID = none → members.size < maxGroupMembers)
      (hs : ∀ m, members.lookup action.subject.nodeID = some m →
        m.role ≠ .owner ∧ (actor.role = .admin → m.role ≠ .admin)) :
      Outcome policy members actor action .ban
        (members.insert action.subject.nodeID ⟨action.subject, .banned⟩)
  | grantAdmin {member : Member} (hs : members.lookup action.subject.nodeID = some member)
      (ha : actor.role = .owner ∨ policy.adminsMayDelegate = true) (hm : member.role = .member) :
      Outcome policy members actor action .grantAdmin
        (members.insert action.subject.nodeID { member with role := .admin })
  | revokeAdmin {member : Member} (hs : members.lookup action.subject.nodeID = some member)
      (ha : actor.role = .owner) (hm : member.role = .admin) :
      Outcome policy members actor action .revokeAdmin
        (members.insert action.subject.nodeID { member with role := .member })
  | transferOwner {member : Member} (hs : members.lookup action.subject.nodeID = some member)
      (ha : actor.role = .owner) (hm : member.role ≠ .banned) :
      Outcome policy members actor action .transferOwner
        ((members.insert action.actorID { actor with role := .admin }).insert action.subject.nodeID
          { member with role := .owner })

variable {policy : Policy} {members members' : GoMap Bytes Member} {actor : Member} {action : Action}

theorem transition_outcome (h : transition policy members actor action = .ok members') :
    Outcome policy members actor action action.kind members' := by
  simp only [transition] at h
  split at h <;> rename_i hkind <;> rw [hkind]
  · split at h
    · cases h
    rename_i hlimit
    split at h
    · rename_i existing he
      split at h
      · cases h
      rename_i hbanned
      obtain rfl := ok.inj h
      exact .add (not_le.mp hlimit) fun m hm => by
        rw [some.inj (hm.symm.trans he), not_not.mp hbanned]
    · rename_i hnone
      obtain rfl := ok.inj h
      exact .add (not_le.mp hlimit) fun m hm => by rw [hnone] at hm; cases hm
  · split at h
    · cases h
    rename_i subject hs
    split at h
    · cases h
    rename_i ho
    split at h
    · cases h
    rename_i ha
    obtain rfl := ok.inj h
    exact .remove hs ho fun hadmin hs' => ha ⟨hadmin, hs'⟩
  · split at h
    · rename_i hnone
      split at h
      · cases h
      rename_i hlimit
      obtain rfl := ok.inj h
      exact .ban (fun _ => not_le.mp hlimit) fun m hm => by rw [hnone] at hm; cases hm
    · rename_i subject hs
      split at h
      · cases h
      rename_i ho
      split at h
      · cases h
      rename_i ha
      obtain rfl := ok.inj h
      refine .ban (fun hnone => by rw [hnone] at hs; cases hs) fun m hm => ?_
      obtain rfl := some.inj (hm.symm.trans hs)
      exact ⟨ho, fun hadmin hs' => ha ⟨hadmin, hs'⟩⟩
  · split at h
    · cases h
    rename_i ha
    split at h
    · cases h
    rename_i member hs
    split at h
    · cases h
    rename_i hm
    obtain rfl := ok.inj h
    refine .grantAdmin hs ?_ (not_not.mp hm)
    by_cases ho : actor.role = .owner
    · exact .inl ho
    · exact .inr (by simpa [ho] using ha)
  · split at h
    · cases h
    rename_i ha
    split at h
    · cases h
    rename_i member hs
    split at h
    · cases h
    rename_i hm
    obtain rfl := ok.inj h
    exact .revokeAdmin hs (not_not.mp ha) (not_not.mp hm)
  · split at h
    · cases h
    rename_i ha
    split at h
    · cases h
    rename_i member hs
    split at h
    · cases h
    rename_i hm
    obtain rfl := ok.inj h
    exact .transferOwner hs (not_not.mp ha) hm
  · cases h

/-- The roles of the members, by identifier. -/
def roles (members : GoMap Bytes Member) (id : Bytes) : Option Role :=
  (members.lookup id).map Member.role

variable {id : Bytes} {kind : ActionKind}

theorem roles_of_lookup {member : Member} (h : members.lookup id = some member) :
    roles members id = some member.role := by
  rw [roles, h, map_some]

theorem roles_eq_some {r : Role} :
    roles members id = some r ↔ ∃ m, members.lookup id = some m ∧ m.role = r := by
  rw [roles, map_eq_some_iff]

theorem roles_insert (members : GoMap Bytes Member) (id : Bytes) (member : Member) :
    roles (members.insert id member) = Function.update (roles members) id (some member.role) := by
  funext other
  by_cases h : other = id
  · subst h
    rw [Function.update_self, roles, Finmap.lookup_insert, map_some]
  · rw [Function.update_of_ne h, roles, Finmap.lookup_insert_of_ne _ h, roles]

theorem roles_erase (members : GoMap Bytes Member) (id : Bytes) :
    roles (members.erase id) = Function.update (roles members) id none := by
  funext other
  by_cases h : other = id
  · subst h
    rw [Function.update_self, roles, Finmap.lookup_erase, map_none]
  · rw [Function.update_of_ne h, roles, Finmap.lookup_erase_ne h, roles]

variable (h : Outcome policy members actor action kind members')

include h

variable (hactor : members.lookup action.actorID = some actor)

include hactor

/-- The switch of `Apply` changes the roles as the abstract machine allows. -/
theorem Outcome.change :
    Change policy.adminsMayDelegate (roles members) action.actorID action.subject.nodeID kind
      (roles members') := by
  have hrole := roles_of_lookup hactor
  have hadmin : roles members action.actorID = some .admin → actor.role = .admin := by
    rw [hrole]
    exact some.inj
  cases h with
  | add hlimit hs =>
    rw [roles_insert]
    refine .add ?_
    cases hl : members.lookup action.subject.nodeID with
    | none => exact .inl (by rw [roles, hl, map_none])
    | some m => exact .inr (by rw [roles_of_lookup hl, hs m hl])
  | remove hs ho ha =>
    rw [roles_erase]
    have hsubject := roles_of_lookup hs
    exact .remove (by simp [hsubject]) (by simpa [hsubject] using ho)
      fun h => by simpa [hsubject] using ha (hadmin h)
  | ban hlimit hs =>
    rw [roles_insert]
    refine .ban (fun h => ?_) fun hact h => ?_
    · obtain ⟨m, hm, hr⟩ := roles_eq_some.mp h
      exact (hs m hm).1 hr
    · obtain ⟨m, hm, hr⟩ := roles_eq_some.mp h
      exact (hs m hm).2 (hadmin hact) hr
  | grantAdmin hs ha hm =>
    rw [roles_insert]
    exact .grantAdmin (ha.imp (fun h => by rw [hrole, h]) id) (by rw [roles_of_lookup hs, hm])
  | revokeAdmin hs ha hm =>
    rw [roles_insert]
    exact .revokeAdmin (by rw [hrole, ha]) (by rw [roles_of_lookup hs, hm])
  | transferOwner hs ha hm =>
    rw [roles_insert, roles_insert]
    have hsubject := roles_of_lookup hs
    exact .transferOwner (by rw [hrole, ha]) (by simp [hsubject]) (by simpa [hsubject] using hm)

/-- A stored identity is the one stored before, or the subject's under its own identifier. -/
theorem Outcome.identity {m' : Member} (hm' : members'.lookup id = some m') :
    (∃ m, members.lookup id = some m ∧ m.identity = m'.identity) ∨
      id = action.subject.nodeID ∧ m'.identity = action.subject := by
  cases h with
  | add | ban =>
    rw [lookup_insert_eq] at hm'
    split at hm'
    · rename_i hid
      exact .inr ⟨hid, by rw [← some.inj hm']⟩
    · exact .inl ⟨m', hm', rfl⟩
  | remove =>
    rw [lookup_erase_eq] at hm'
    split at hm'
    · cases hm'
    · exact .inl ⟨m', hm', rfl⟩
  | grantAdmin hs | revokeAdmin hs =>
    rw [lookup_insert_eq] at hm'
    split at hm'
    · rename_i hid
      exact .inl ⟨_, hid ▸ hs, by rw [← some.inj hm']⟩
    · exact .inl ⟨m', hm', rfl⟩
  | transferOwner hs =>
    rw [lookup_insert_eq] at hm'
    split at hm'
    · rename_i hid
      exact .inl ⟨_, hid ▸ hs, by rw [← some.inj hm']⟩
    · rw [lookup_insert_eq] at hm'
      split at hm'
      · rename_i hid
        exact .inl ⟨_, hid ▸ hactor, by rw [← some.inj hm']⟩
      · exact .inl ⟨m', hm', rfl⟩

theorem Outcome.size_le (hsize : members.size ≤ maxGroupMembers) :
    members'.size ≤ maxGroupMembers := by
  cases h with
  | add hlimit hs => exact (size_insert_le _ _ _).trans hlimit
  | remove hs ho ha =>
    have := size_erase hs
    omega
  | ban hlimit hs =>
    cases hl : members.lookup action.subject.nodeID with
    | none => exact (size_insert_le _ _ _).trans (hlimit hl)
    | some m => rwa [size_insert_of_mem _ (mem_keys_of_lookup hl)]
  | grantAdmin hs ha hm => rwa [size_insert_of_mem _ (mem_keys_of_lookup hs)]
  | revokeAdmin hs ha hm => rwa [size_insert_of_mem _ (mem_keys_of_lookup hs)]
  | transferOwner hs ha hm =>
    have hkeys := mem_keys_of_lookup hs
    rwa [size_insert_of_mem, size_insert_of_mem _ (mem_keys_of_lookup hactor)]
    rw [keys_insert]
    exact Finset.mem_insert_of_mem hkeys

end Veilmesh.Group

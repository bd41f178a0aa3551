/-
  The invariant of group states.

  `StateInv` says in terms of the members what `validState` computes with its loop and its
  comparisons. A new group satisfies it, every accepted action keeps it, and a rejected
  one changes nothing, so it holds after every call of every run.

  * `validState_iff`: `validState` decides `StateInv`.
  * `apply_cases`: what an accepted call has checked and leaves, and that a rejected one
    leaves the state alone.
  * `reachable_valid`: the invariant of whole runs, with the count of accepted actions.
  * `no_replay`: what happens to an action that comes again.
-/
import Veilmesh.Group.State
import Veilmesh.Lib.Run

namespace Veilmesh.Group

open Lib Protocol Pqcrypto Identity List

/-! ## The comparison of byte strings -/

theorem foldl_or_eq_zero {bs : Bytes} {acc : UInt8} :
    bs.foldl (· ||| ·) acc = 0 ↔ acc = 0 ∧ ∀ b ∈ bs, b = 0 := by
  induction bs generalizing acc with
  | nil => simp
  | cons b bs ih =>
    rw [foldl_cons, ih, forall_mem_cons, ← and_assoc]
    have hor : acc ||| b = 0 ↔ acc = 0 ∧ b = 0 := UInt8.or_eq_zero_iff
    rw [hor]

theorem zipWith_xor_zero : ∀ {l r : Bytes}, l.length = r.length →
    ((∀ b ∈ List.zipWith (· ^^^ ·) l r, b = 0) ↔ l = r)
  | [], [], _ => by simp
  | a :: l, b :: r, h => by
    rw [zipWith_cons_cons, forall_mem_cons, zipWith_xor_zero (by simpa using h)]
    simp
  | [], _ :: _, h => by cases h
  | _ :: _, [], h => by cases h

theorem bytesEqual_iff {l r : Bytes} : bytesEqual l r = true ↔ l = r := by
  unfold bytesEqual
  split
  · rename_i h
    simp only [Bool.false_eq_true, false_iff]
    exact fun he => h (he ▸ rfl)
  · rename_i h
    rw [beq_iff_eq, foldl_or_eq_zero, zipWith_xor_zero (not_not.mp h)]
    simp

/-! ## What `validState` decides -/

structure StateInv (c : Primitives) (s : State) : Prop where
  creator : validPublicIdentity c s.creator = true
  nonce : s.genesisNonce.length = genesisNonceBytes
  bound : s.groupID = groupID c s.creator s.genesisNonce (policyCommitment s.policy)
  hashed : s.hash = stateHash s
  bounded : s.members.size ≤ maxGroupMembers
  genesis : s.epoch = 0 → genesisMembers s = true
  keyed : ∀ id m, s.members.lookup id = some m →
    id = m.identity.nodeID ∧ validPublicIdentity c m.identity = true ∧ m.role.Known
  oneOwner : OneOwner (roles s.members)

variable {c : Primitives} {members : GoMap Bytes Member} {s s' : State} {policy : Policy}
  {random : Nonce} {now : Time} {call : Call}

/-- The loop finds no bad entry and counts the owners. -/
theorem checkMembers_eq_some {ids : List Bytes} {n k : Nat} :
    checkMembers c members ids n = some k ↔
      (∀ id ∈ ids, ∀ m, members.lookup id = some m →
        id = m.identity.nodeID ∧ validPublicIdentity c m.identity = true ∧ m.role.Known) ∧
      k = n + ids.countP fun id => roles members id == some .owner := by
  induction ids generalizing n with
  | nil =>
    rw [checkMembers, countP_nil, Nat.add_zero, Option.some.injEq]
    exact ⟨fun h => ⟨by simp, h.symm⟩, fun h => h.2.symm⟩
  | cons id ids ih =>
    rw [checkMembers, forall_mem_cons, countP_cons]
    split
    · rename_i hnone
      simp [ih, roles, hnone]
    · rename_i m hm
      have hrole := roles_of_lookup hm
      split
      · rename_i hbad
        simp only [reduceCtorEq, false_iff]
        rintro ⟨⟨hid, -⟩, -⟩
        obtain ⟨h1, h2, -⟩ := hid m hm
        rcases hbad with hbad | hbad
        · exact hbad h1
        · rw [h2] at hbad
          cases hbad
      · rename_i hgood
        simp only [ne_eq, not_or, not_not, Bool.not_eq_false] at hgood
        have hhead : (∀ m', members.lookup id = some m' → id = m'.identity.nodeID ∧
            validPublicIdentity c m'.identity = true ∧ m'.role.Known) ↔ m.role.Known := by
          constructor
          · exact fun h => (h m hm).2.2
          · intro h m' hm'
            obtain rfl := Option.some.inj (hm'.symm.trans hm)
            exact ⟨hgood.1, hgood.2, h⟩
        rw [hhead]
        split <;> rename_i hr <;> rw [hr] at hrole ⊢
        · simp [ih, hrole, Role.Known, Nat.add_assoc, Nat.add_comm]
        · simp [ih, hrole, Role.Known]
        · simp [ih, hrole, Role.Known]
        · simp [ih, hrole, Role.Known]
        · simp [Role.Known]

theorem countP_owner_eq_one :
    (members.sortedKeys.countP fun id => roles members id == some .owner) = 1 ↔
      OneOwner (roles members) := by
  have hmem : ∀ id, roles members id = some .owner → id ∈ members.sortedKeys := by
    intro id h
    obtain ⟨m, hm, -⟩ := roles_eq_some.mp h
    exact GoMap.mem_sortedKeys.mpr (GoMap.mem_keys_of_lookup hm)
  have hfilter : ∀ id, id ∈ members.sortedKeys.filter (fun id => roles members id == some .owner) ↔
      roles members id = some .owner := by
    intro id
    rw [mem_filter, beq_iff_eq]
    exact ⟨fun h => h.2, fun h => ⟨hmem id h, h⟩⟩
  rw [countP_eq_length_filter]
  constructor
  · intro h
    obtain ⟨o, ho⟩ := length_eq_one_iff.mp h
    rw [ho] at hfilter
    exact ⟨o, (hfilter o).mp (mem_singleton_self o),
      fun id hid => mem_singleton.mp ((hfilter id).mpr hid)⟩
  · rintro ⟨o, ho, huniq⟩
    have hnodup := members.sortedKeys_nodup.filter fun id => roles members id == some .owner
    have hsub := subperm_of_subset hnodup fun id hid =>
      mem_singleton.mpr (huniq id ((hfilter id).mp hid))
    exact le_antisymm hsub.length_le (length_pos_of_mem ((hfilter o).mpr ho))

theorem OneOwner.size_ne_zero (h : OneOwner (roles members)) : members.size ≠ 0 := by
  obtain ⟨o, ho, -⟩ := h
  obtain ⟨m, hm, -⟩ := roles_eq_some.mp ho
  exact Finset.card_ne_zero_of_mem (GoMap.mem_keys_of_lookup hm)

/-- `validState` decides the invariant. -/
theorem validState_iff : validState c s = true ↔ StateInv c s := by
  constructor
  · intro h
    unfold validState at h
    split at h
    · cases h
    rename_i h1
    split at h
    · cases h
    rename_i h2
    split at h
    · cases h
    rename_i h3
    simp only [not_or, not_and, ne_eq, not_not, not_lt, Bool.not_eq_false, bytesEqual_iff] at h1 h2 h3
    obtain ⟨hkeyed, hone⟩ := checkMembers_eq_some.mp (eq_of_beq h)
    rw [Nat.zero_add, eq_comm, countP_owner_eq_one] at hone
    exact {
      creator := h2.2.1
      nonce := h2.2.2.1
      bound := h2.2.2.2
      hashed := h1.2.2.2
      bounded := h1.2.1
      genesis := h3
      keyed := fun id m hm =>
        hkeyed id (GoMap.mem_sortedKeys.mpr (GoMap.mem_keys_of_lookup hm)) m hm
      oneOwner := hone }
  · intro h
    have hpolicy : policyCommitment s.policy ≠ [] ∧ (policyCommitment s.policy).length ≤ 1024 := by
      unfold policyCommitment
      split <;> simp
    have hgroup : validGroupID s.groupID = true := by
      rw [h.bound, groupID, if_neg (by simp [h.creator, h.nonce, hpolicy])]
      exact valid_keyDigest _ _ _ _
    have hlen : s.hash.length = 32 := h.hashed ▸ length_sha256 _
    have hcheck : checkMembers c s.members s.members.sortedKeys 0 = some 1 := by
      refine checkMembers_eq_some.mpr ⟨fun id _ m hm => h.keyed id m hm, ?_⟩
      rw [Nat.zero_add, countP_owner_eq_one.mpr h.oneOwner]
    unfold validState
    rw [if_neg, if_neg, if_neg, hcheck]
    · rfl
    · exact fun h' => absurd (h.genesis h'.1) (by simp [h'.2])
    · simp only [not_or, ne_eq, not_not, Bool.not_eq_false]
      exact ⟨hgroup, h.creator, h.nonce, h.bound⟩
    · simp only [not_or, ne_eq, not_not, not_lt, Bool.not_eq_false, bytesEqual_iff]
      exact ⟨h.oneOwner.size_ne_zero, h.bounded, hlen, h.hashed⟩

/-! ## New groups -/

/-- The only entry of a new group is its owner's. -/
theorem new_members {owner : NodePublicIdentity} (h : new c owner policy random = .ok s)
    (id : Bytes) (m : Member) (hm : s.members.lookup id = some m) :
    id = owner.nodeID ∧ m = ⟨owner, .owner⟩ := by
  unfold new at h
  split at h
  · cases h
  obtain rfl := Except.ok.inj h
  by_cases hid : id = owner.nodeID
  · subst hid
    rw [Finmap.lookup_singleton_eq] at hm
    exact ⟨rfl, (Option.some.inj hm).symm⟩
  · have hnone : id ∉ (Finmap.singleton owner.nodeID ⟨owner, .owner⟩ : GoMap Bytes Member) := by
      simpa using hid
    rw [Finmap.lookup_eq_none.mpr hnone] at hm
    cases hm

theorem new_inv {owner : NodePublicIdentity} (h : new c owner policy random = .ok s) :
    StateInv c s ∧ s.epoch = 0 := by
  have hmembers := new_members h
  unfold new at h
  split at h
  · cases h
  rename_i howner
  rw [Bool.not_eq_false] at howner
  obtain rfl := Except.ok.inj h
  have hsize : GoMap.size (Finmap.singleton owner.nodeID ⟨owner, .owner⟩ : GoMap Bytes Member) = 1 :=
    rfl
  refine ⟨?_, rfl⟩
  exact {
    creator := howner
    nonce := random.property
    bound := rfl
    hashed := rfl
    bounded := by
      rw [hsize]
      decide
    genesis := fun _ => by simp [genesisMembers, hsize, bytesEqual_iff]
    keyed := by
      intro id m hm
      obtain ⟨rfl, rfl⟩ := hmembers id m hm
      exact ⟨rfl, howner, trivial⟩
    oneOwner := by
      refine ⟨owner.nodeID, ?_, fun id hid => ?_⟩
      · exact roles_of_lookup Finmap.lookup_singleton_eq
      · obtain ⟨m, hm, -⟩ := roles_eq_some.mp hid
        exact (hmembers id m hm).1 }

/-! ## Calls -/

/-- What an accepted call has checked. -/
structure Accepts (c : Primitives) (s : State) (action : Action) (now : Time) (actor : Member)
    (message : Bytes) (members : GoMap Bytes Member) : Prop where
  state : validState c s = true
  group : action.groupID = s.groupID
  epoch_ne : action.epoch ≠ 0
  epoch : action.epoch = s.epoch + 1
  previous : action.previous = s.hash
  created : action.createdAt.isZero = false
  notAfter : action.createdAt.after (now.add (5 * minute)) = false
  stored : s.members.lookup action.actorID = some actor
  officer : actor.role = .owner ∨ actor.role = .admin
  encoded : actionBytes action = some message
  signed : verify c actor.identity actionDomain message action.signature = true
  subject : validPublicIdentity c action.subject = true
  moved : transition s.policy s.members actor action = .ok members

/-- The state after an accepted action. -/
def State.after (s : State) (action : Action) (members : GoMap Bytes Member) : State :=
  let next := { s with members := members, epoch := action.epoch }
  { next with hash := stateHash next }

/-- A call is rejected and leaves the whole state as it was, or it is accepted. -/
theorem apply_cases (c : Primitives) (s : State) (action : Action) (now : Time) :
    (∃ e, s.apply c action now = (.error e, s)) ∨
    ∃ actor message members, Accepts c s action now actor message members ∧
      s.apply c action now = (.ok (), s.after action members) := by
  unfold State.apply
  split
  · exact .inl ⟨_, rfl⟩
  rename_i hstate
  split
  · exact .inl ⟨_, rfl⟩
  rename_i hnext
  split
  · exact .inl ⟨_, rfl⟩
  rename_i actor hactor
  split
  · exact .inl ⟨_, rfl⟩
  rename_i hofficer
  split
  · exact .inl ⟨_, rfl⟩
  rename_i message hmessage
  split
  · exact .inl ⟨_, rfl⟩
  rename_i hsigned
  split
  · exact .inl ⟨_, rfl⟩
  rename_i hsubject
  split
  · exact .inl ⟨_, rfl⟩
  rename_i members hmoved
  simp only [not_or, ne_eq, not_not, Bool.not_eq_false, Bool.not_eq_true, bytesEqual_iff] at hnext
  refine .inr ⟨actor, message, members, ⟨by simpa using hstate, hnext.1, hnext.2.1, hnext.2.2.1,
    hnext.2.2.2.2.1, hnext.2.2.2.2.2.1, hnext.2.2.2.2.2.2, hactor, ?_, hmessage,
    by simpa using hsigned, by simpa using hsubject, hmoved⟩, rfl⟩
  by_contra hno
  exact hofficer (not_or.mp hno)

theorem apply_of_accepts {action : Action} {actor : Member} {message : Bytes}
    (h : Accepts c s action now actor message members) :
    s.apply c action now = (.ok (), s.after action members) := by
  have hlen : action.previous.length = 32 := by
    rw [h.previous, (validState_iff.mp h.state).hashed]
    exact length_sha256 _
  have hofficer : ¬(actor.role ≠ .owner ∧ actor.role ≠ .admin) := fun hno =>
    h.officer.elim hno.1 hno.2
  unfold State.apply
  rw [if_neg (by simp [h.state]), if_neg]
  · simp only [h.stored, if_neg hofficer, h.encoded, h.signed, h.subject, h.moved]
    rfl
  · simp only [not_or, ne_eq, not_not, Bool.not_eq_false, Bool.not_eq_true, bytesEqual_iff]
    exact ⟨h.group, h.epoch_ne, h.epoch, hlen, h.previous, h.created, h.notAfter⟩

/-- An accepted action keeps the invariant and moves to the next epoch. -/
theorem Accepts.inv {action : Action} {actor : Member} {message : Bytes}
    (h : Accepts c s action now actor message members) : StateInv c (s.after action members) := by
  have hs := validState_iff.mp h.state
  have hout := transition_outcome h.moved
  have hchange := hout.change h.stored
  exact {
    creator := hs.creator
    nonce := hs.nonce
    bound := hs.bound
    hashed := rfl
    bounded := hout.size_le h.stored hs.bounded
    genesis := fun h0 => absurd h0 h.epoch_ne
    keyed := by
      intro id m hm
      have hknown : m.role.Known := by
        refine hchange.known (fun i r hr => ?_) (roles_of_lookup hm)
        obtain ⟨m', hm', rfl⟩ := roles_eq_some.mp hr
        exact (hs.keyed i m' hm').2.2
      rcases hout.identity h.stored hm with ⟨m', hm', hid⟩ | ⟨rfl, hid⟩
      · obtain ⟨hkey, hvalid, -⟩ := hs.keyed id m' hm'
        exact ⟨hid ▸ hkey, hid ▸ hvalid, hknown⟩
      · exact ⟨by rw [hid], by rw [hid]; exact h.subject, hknown⟩
    oneOwner := hchange.oneOwner hs.oneOwner }

/-! ## Runs -/

/-- A call of `Apply` with the time it read and what it returned. -/
structure Call where
  action : Action
  now : Time
  result : Except GroupError Unit

def Call.accepted (call : Call) : Bool := call.result matches .ok ()

def Step (c : Primitives) (s : State) (call : Call) (s' : State) : Prop :=
  s.apply c call.action call.now = (call.result, s')

/-- A step is a rejection that changes nothing or an accepted action. -/
theorem Step.cases (h : Step c s call s') :
    (call.accepted = false ∧ s' = s) ∨
    ∃ actor message members, call.accepted = true ∧
      Accepts c s call.action call.now actor message members ∧ s' = s.after call.action members := by
  rw [Step] at h
  rcases apply_cases c s call.action call.now with ⟨e, he⟩ | ⟨actor, message, members, ha, he⟩
  · obtain ⟨hr, hs⟩ := Prod.ext_iff.mp (h.symm.trans he)
    exact .inl ⟨by rw [Call.accepted, show call.result = _ from hr], hs⟩
  · obtain ⟨hr, hs⟩ := Prod.ext_iff.mp (h.symm.trans he)
    exact .inr ⟨actor, message, members, by rw [Call.accepted, show call.result = _ from hr], ha, hs⟩

theorem Step.inv (h : Step c s call s') (hs : StateInv c s) : StateInv c s' := by
  rcases h.cases with ⟨-, rfl⟩ | ⟨actor, message, members, -, ha, rfl⟩
  · exact hs
  · exact ha.inv

/-- What no action changes. -/
def SameGroup (s t : State) : Prop :=
  s.groupID = t.groupID ∧ s.creator = t.creator ∧ s.genesisNonce = t.genesisNonce ∧
    s.policy = t.policy

theorem Step.sameGroup (h : Step c s call s') : SameGroup s' s := by
  rcases h.cases with ⟨-, rfl⟩ | ⟨actor, message, members, -, ha, rfl⟩
  · exact ⟨rfl, rfl, rfl, rfl⟩
  · exact ⟨rfl, rfl, rfl, rfl⟩

/-- The epoch counts: an accepted action names the next one, and that is not zero. -/
theorem Step.epoch (h : Step c s call s') :
    s'.epoch.toNat = s.epoch.toNat + if call.accepted then 1 else 0 := by
  rcases h.cases with ⟨hr, rfl⟩ | ⟨actor, message, members, hr, ha, rfl⟩
  · rw [hr]
    rfl
  · rw [hr]
    have hne : s.epoch + 1 ≠ 0 := ha.epoch ▸ ha.epoch_ne
    have hlt := s.epoch.toNat_lt
    have hwrap : (s.epoch + 1).toNat = (s.epoch.toNat + 1) % 2 ^ 64 := UInt64.toNat_add _ _
    have hnat : (s.epoch + 1).toNat ≠ 0 := fun h0 => hne (UInt64.toNat_inj.mp h0)
    change (call.action.epoch).toNat = _
    rw [ha.epoch, if_pos rfl]
    omega

theorem epoch_counts {calls : List Call} (hrun : Run (Step c) s calls s') :
    s'.epoch.toNat = s.epoch.toNat + calls.countP Call.accepted := by
  induction hrun with
  | nil s => simp
  | cons h hs ih =>
    rw [ih, h.epoch, countP_cons]
    omega

/-- Once an action is accepted, it and every other action up to its epoch are rejected. -/
theorem no_replay {calls : List Call} (hrun : Run (Step c) s calls s') (hcall : call ∈ calls)
    (haccepted : call.accepted = true) {action : Action} (hepoch : action.epoch ≤ call.action.epoch)
    (now : Time) : ∃ e, s'.apply c action now = (.error e, s') := by
  have hreached : call.action.epoch.toNat ≤ s'.epoch.toNat := by
    induction hrun with
    | nil => cases hcall
    | cons h hs ih =>
      rcases mem_cons.mp hcall with rfl | hlater
      · rcases h.cases with ⟨hrejected, -⟩ | ⟨_, _, _, -, -, rfl⟩
        · rw [hrejected] at haccepted
          cases haccepted
        · exact (epoch_counts hs).ge.trans' (Nat.le_add_right _ _)
      · exact ih hlater
  rcases apply_cases c s' action now with hrejected | ⟨_, _, _, -, happly⟩
  · exact hrejected
  · have hstep : Step c s' ⟨action, now, .ok ()⟩ _ := happly
    have hnext : action.epoch.toNat = s'.epoch.toNat + 1 := hstep.epoch
    have := UInt64.le_iff_toNat_le.mp hepoch
    omega

/-- After every call of every run from a new group the state is valid: it has one owner,
    every entry is keyed by a valid identity, the hash and the group identifier bind the
    state and its genesis. The genesis never changes, the epoch counts the accepted
    actions, and a rejected action leaves the whole state as it was. -/
theorem reachable_valid {c : Primitives} {owner : NodePublicIdentity} {policy : Policy}
    {random : Nonce} {first last : State} (hnew : new c owner policy random = .ok first)
    {calls : List Call} (hrun : Run (Step c) first calls last) :
    validState c last = true ∧
    (∃! id, ∃ m, last.members.lookup id = some m ∧ m.role = .owner) ∧
    (∀ id m, last.members.lookup id = some m →
      id = m.identity.nodeID ∧ validPublicIdentity c m.identity = true) ∧
    last.members.size ≤ maxGroupMembers ∧
    last.hash = stateHash last ∧
    last.groupID = groupID c last.creator last.genesisNonce (policyCommitment last.policy) ∧
    last.groupID = first.groupID ∧ last.creator = first.creator ∧
    last.genesisNonce = first.genesisNonce ∧ last.policy = first.policy ∧
    last.epoch.toNat = calls.countP Call.accepted ∧
    ∀ action now e, (last.apply c action now).1 = .error e → (last.apply c action now).2 = last := by
  obtain ⟨hfirst, hzero⟩ := new_inv hnew
  have hinv : StateInv c last := hrun.invariant (fun _ _ _ hs h => Step.inv h hs) hfirst
  have hsame : SameGroup last first :=
    hrun.invariant (I := fun s => SameGroup s first) (fun _ _ _ hs h => by
      obtain ⟨h1, h2, h3, h4⟩ := h.sameGroup
      exact ⟨h1.trans hs.1, h2.trans hs.2.1, h3.trans hs.2.2.1, h4.trans hs.2.2.2⟩)
      ⟨rfl, rfl, rfl, rfl⟩
  refine ⟨validState_iff.mpr hinv, ?_, fun id m hm => ?_, hinv.bounded, hinv.hashed, hinv.bound,
    hsame.1, hsame.2.1, hsame.2.2.1, hsame.2.2.2, ?_, fun action now e he => ?_⟩
  · simpa only [OneOwner, roles_eq_some] using hinv.oneOwner
  · obtain ⟨hid, hvalid, -⟩ := hinv.keyed id m hm
    exact ⟨hid, hvalid⟩
  · rw [epoch_counts hrun, hzero]
    exact Nat.zero_add _
  · rcases apply_cases c last action now with ⟨e', h⟩ | ⟨_, _, _, -, h⟩
    · rw [h]
    · rw [h] at he
      cases he

/-! ### An owner who transfers the group to itself -/

theorem nodePublicIdentityCodec_writes (i : NodePublicIdentity) :
    nodePublicIdentityCodec.Writes i :=
  structCodec_writes (.cons (stringCodec_writes _) (.cons (bytesCodec_writes _)
    (.cons (bytesCodec_writes _) (.cons (uint8Codec_writes _) .nil))))

/-- The owner of a new group may name itself owner again. -/
theorem transfer_self (signer : HybridSigner c)
    (hnew : new c signer.publicIdentity policy random = .ok s) {text : Bytes}
    (htext : now.marshalText = some text) (hzero : now.isZero = false)
    (hnow : now.after (now.add (5 * minute)) = false) :
    ∃ action s', action.subject = signer.publicIdentity ∧ Step c s ⟨action, now, .ok ()⟩ s' := by
  obtain ⟨hinv, hepoch⟩ := new_inv hnew
  have howner : s.members.lookup signer.publicIdentity.nodeID =
      some ⟨signer.publicIdentity, .owner⟩ := by
    rw [new, if_neg (by simp [signer.valid])] at hnew
    rw [← Except.ok.inj hnew]
    exact Finmap.lookup_singleton_eq
  let action : Action := ⟨s.groupID, 1, s.hash, .transferOwner, signer.publicIdentity.nodeID,
    signer.publicIdentity, now, HybridSignature.zero⟩
  obtain ⟨message, hmessage⟩ : ∃ message, actionBytes action = some message :=
    (structCodec_writes (.cons (stringCodec_writes _) (.cons (uint64Codec_writes _)
      (.cons (bytesCodec_writes _) (.cons (stringCodec_writes _) (.cons (stringCodec_writes _)
        (.cons (nodePublicIdentityCodec_writes _) (.cons (timeCodec_writes htext)
          (.cons ⟨_, rfl⟩ .nil))))))))).marshal
  let signed := { action with signature := signer.sign actionDomain message }
  obtain ⟨members, hmoved⟩ : ∃ members, transition s.policy s.members
      ⟨signer.publicIdentity, .owner⟩ signed = .ok members := by
    simp only [transition, signed, action, howner]
    exact ⟨_, rfl⟩
  have haccepts : Accepts c s signed now ⟨signer.publicIdentity, .owner⟩ message members := {
    state := validState_iff.mpr hinv
    group := rfl
    epoch_ne := (by decide : (1 : UInt64) ≠ 0)
    epoch := by rw [hepoch]; rfl
    previous := rfl
    created := hzero
    notAfter := hnow
    stored := howner
    officer := .inl rfl
    encoded := hmessage
    signed := signer.verifies _ _
    subject := signer.valid
    moved := hmoved }
  exact ⟨signed, _, rfl, apply_of_accepts haccepts⟩

/-- A state that a run reaches after one accepted action. -/
theorem reachable_valid_transferred : ∃ first last call,
    new samplePrimitives (sampleIdentity 1) ⟨false⟩ ⟨sampleBytes 32 0, length_sampleBytes 32 0⟩ =
      .ok first ∧ Run (Step samplePrimitives) first [call] last ∧
    validState samplePrimitives last = true ∧ last.epoch.toNat = 1 := by
  have hnew : ∃ first, new samplePrimitives (sampleIdentity 1) ⟨false⟩
      ⟨sampleBytes 32 0, length_sampleBytes 32 0⟩ = .ok first := by
    rw [new, if_neg (by simp [sampleIdentity_valid])]
    exact ⟨_, rfl⟩
  obtain ⟨first, hfirst⟩ := hnew
  obtain ⟨text, htext⟩ : ∃ text, Time.epoch.marshalText = some text := ⟨_, rfl⟩
  obtain ⟨action, last, -, hstep⟩ := transfer_self (sampleSigner 1) hfirst htext (by decide) (by decide)
  have hrun := Run.single hstep
  have hvalid := reachable_valid hfirst hrun
  exact ⟨first, last, _, hfirst, hrun, hvalid.1, hvalid.2.2.2.2.2.2.2.2.2.2.1⟩

/-- That action is accepted once. -/
theorem no_replay_transferred : ∃ first last call, Run (Step samplePrimitives) first [call] last ∧
    ∃ e, last.apply samplePrimitives call.action Time.epoch = (.error e, last) := by
  obtain ⟨first, hfirst⟩ : ∃ first, new samplePrimitives (sampleIdentity 1) ⟨false⟩
      ⟨sampleBytes 32 0, length_sampleBytes 32 0⟩ = .ok first := by
    rw [new, if_neg (by simp [sampleIdentity_valid])]
    exact ⟨_, rfl⟩
  obtain ⟨text, htext⟩ : ∃ text, Time.epoch.marshalText = some text := ⟨_, rfl⟩
  obtain ⟨action, last, -, hstep⟩ := transfer_self (sampleSigner 1) hfirst htext (by decide) (by decide)
  exact ⟨first, last, _, .single hstep,
    no_replay (.single hstep) mem_cons_self rfl (UInt64.le_refl _) _⟩

end Veilmesh.Group

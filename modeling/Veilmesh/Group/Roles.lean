/-
  Roles and what an action may do to them.

  `Change` says, over any type of identifiers, which changes of the roles of a group an
  action of a given kind makes. It is the purpose of the group state machine without its
  encodings, hashes and signatures: who may be promoted, demoted, removed and banned by
  whom. The code's transition is shown to be such a change in `Group.State`.

  * `Change.oneOwner`: a group with one owner keeps one owner.
  * `Change.owner_moves`, `Change.admin_lost`, `Change.admin_gained`, `Change.unbanned`:
    what must hold of the actor when a role is won or lost.
-/
import Mathlib.Logic.Function.Basic
import Veilmesh.Lib.Bytes

namespace Veilmesh.Group

open Lib Function

def roleTexts : List Bytes := [lit "owner", lit "admin", lit "member", lit "banned"]

/-- `Role` is a string type: a value read from outside may be none of the four. -/
inductive Role where
  | owner
  | admin
  | member
  | banned
  | unknown (text : Bytes) (other : text ∉ roleTexts)
  deriving DecidableEq

def Role.text : Role → Bytes
  | .owner => lit "owner"
  | .admin => lit "admin"
  | .member => lit "member"
  | .banned => lit "banned"
  | .unknown text _ => text

def Role.ofText (text : Bytes) : Role :=
  if text = lit "owner" then .owner
  else if text = lit "admin" then .admin
  else if text = lit "member" then .member
  else if h : text ∈ roleTexts then .banned
  else .unknown text h

/-- One of the four roles of the protocol. -/
def Role.Known : Role → Prop
  | .unknown _ _ => False
  | _ => True

def actionKindTexts : List Bytes :=
  [lit "add", lit "remove", lit "ban", lit "grant_admin", lit "revoke_admin", lit "transfer_owner"]

inductive ActionKind where
  | add
  | remove
  | ban
  | grantAdmin
  | revokeAdmin
  | transferOwner
  | unknown (text : Bytes) (other : text ∉ actionKindTexts)
  deriving DecidableEq

def ActionKind.text : ActionKind → Bytes
  | .add => lit "add"
  | .remove => lit "remove"
  | .ban => lit "ban"
  | .grantAdmin => lit "grant_admin"
  | .revokeAdmin => lit "revoke_admin"
  | .transferOwner => lit "transfer_owner"
  | .unknown text _ => text

def ActionKind.ofText (text : Bytes) : ActionKind :=
  if text = lit "add" then .add
  else if text = lit "remove" then .remove
  else if text = lit "ban" then .ban
  else if text = lit "grant_admin" then .grantAdmin
  else if text = lit "revoke_admin" then .revokeAdmin
  else if h : text ∈ actionKindTexts then .transferOwner
  else .unknown text h

/-! ## Changes of roles -/

section

variable {ι : Type} [DecidableEq ι]

/-- The change of the roles an action of each kind makes, and when it may be made. -/
inductive Change (delegate : Bool) (roles : ι → Option Role) (actor subject : ι) :
    ActionKind → (ι → Option Role) → Prop where
  | add (hs : roles subject = none ∨ roles subject = some .banned) :
      Change delegate roles actor subject .add (Function.update roles subject (some .member))
  | remove (hs : roles subject ≠ none) (ho : roles subject ≠ some .owner)
      (ha : roles actor = some .admin → roles subject ≠ some .admin) :
      Change delegate roles actor subject .remove (Function.update roles subject none)
  | ban (ho : roles subject ≠ some .owner)
      (ha : roles actor = some .admin → roles subject ≠ some .admin) :
      Change delegate roles actor subject .ban (Function.update roles subject (some .banned))
  | grantAdmin (ha : roles actor = some .owner ∨ delegate = true)
      (hs : roles subject = some .member) :
      Change delegate roles actor subject .grantAdmin (Function.update roles subject (some .admin))
  | revokeAdmin (ha : roles actor = some .owner) (hs : roles subject = some .admin) :
      Change delegate roles actor subject .revokeAdmin (Function.update roles subject (some .member))
  | transferOwner (ha : roles actor = some .owner) (hs : roles subject ≠ none)
      (hb : roles subject ≠ some .banned) :
      Change delegate roles actor subject .transferOwner
        (Function.update (Function.update roles actor (some .admin)) subject (some .owner))

/-- Owners and admins may act. -/
def Officer (roles : ι → Option Role) (i : ι) : Prop :=
  roles i = some .owner ∨ roles i = some .admin

def OneOwner (roles : ι → Option Role) : Prop := ∃! i, roles i = some .owner

variable {i : ι}

/-- An update away from the owner that makes no owner. -/
theorem OneOwner.update {roles : ι → Option Role} (h : OneOwner roles) {r : Option Role}
    (hi : roles i ≠ some .owner) (hr : r ≠ some .owner) : OneOwner (Function.update roles i r) := by
  obtain ⟨o, ho, huniq⟩ := h
  have hoi : o ≠ i := fun he => hi (he ▸ ho)
  refine ⟨o, ?_, fun j (hj : Function.update roles i r j = _) => ?_⟩
  · simpa only [update_of_ne hoi] using ho
  · by_cases hji : j = i
    · rw [hji, update_self] at hj
      exact absurd hj hr
    · rw [update_of_ne hji] at hj
      exact huniq j hj

theorem OneOwner.transfer {roles : ι → Option Role} (h : OneOwner roles) {actor subject : ι}
    (ha : roles actor = some .owner) :
    OneOwner (Function.update (Function.update roles actor (some .admin)) subject (some .owner)) := by
  refine ⟨subject, update_self .., fun j
    (hj : Function.update (Function.update roles actor (some .admin)) subject _ j = _) => ?_⟩
  by_contra hne
  rw [update_of_ne hne] at hj
  by_cases hja : j = actor
  · rw [hja, update_self] at hj
    cases hj
  · rw [update_of_ne hja] at hj
    exact hja (h.unique hj ha)

variable {delegate : Bool} {roles roles' : ι → Option Role} {actor subject : ι} {kind : ActionKind}
  (hc : Change delegate roles actor subject kind roles')

include hc

theorem Change.oneOwner (h : OneOwner roles) : OneOwner roles' := by
  cases hc with
  | add hs =>
    refine h.update ?_ (by simp)
    rcases hs with hs | hs <;> simp [hs]
  | remove hs ho ha => exact h.update ho (by simp)
  | ban ho ha => exact h.update ho (by simp)
  | grantAdmin ha hs => exact h.update (by simp [hs]) (by simp)
  | revokeAdmin ha hs => exact h.update (by simp [hs]) (by simp)
  | transferOwner ha hs hb => exact h.transfer ha

/-- An identifier whose role changed is the subject's, or the actor's of a transfer. -/
theorem Change.changed (hne : roles' i ≠ roles i) :
    i = subject ∨ kind = .transferOwner ∧ i = actor ∧ roles actor = some .owner ∧
      roles' i = some .admin := by
  by_contra hno
  simp only [not_or] at hno
  obtain ⟨hi, hno⟩ := hno
  cases hc with
  | transferOwner ha hs hb =>
    rw [update_of_ne hi] at hne hno
    by_cases hia : i = actor
    · subst hia
      simp [ha] at hno
    · simp [update_of_ne hia] at hne
  | _ => simp [update_of_ne hi] at hne

/-- The owner changes only by a transfer of the present owner. -/
theorem Change.owner_moves {i j : ι}
    (hi : roles i = some .owner) (hj : roles' j = some .owner) (hij : i ≠ j) (h : OneOwner roles) :
    kind = .transferOwner ∧ actor = i := by
  have hnot : roles j ≠ some .owner := fun hj' => hij (h.unique hi hj')
  have hsub : j = subject := by
    rcases hc.changed (i := j) (by rw [hj]; exact hnot.symm) with hs | ⟨-, -, -, ha⟩
    · exact hs
    · rw [hj] at ha
      cases ha
  subst hsub
  cases hc with
  | transferOwner ha hs hb => exact ⟨rfl, h.unique ha hi⟩
  | _ => simp at hj

/-- An admin loses the role only to the owner. -/
theorem Change.admin_lost (hofficer : Officer roles actor) (hi : roles i = some .admin)
    (hi' : roles' i ≠ some .admin) : roles actor = some .owner := by
  rcases hc.changed (i := i) (by rwa [hi]) with rfl | ⟨-, -, ha, -⟩
  · cases hc with
    | add hs => rcases hs with hs | hs <;> simp [hs] at hi
    | remove hs ho ha => exact hofficer.resolve_right fun h => ha h hi
    | ban ho ha => exact hofficer.resolve_right fun h => ha h hi
    | grantAdmin ha hs => simp [hs] at hi
    | revokeAdmin ha hs => exact ha
    | transferOwner ha hs hb => exact ha
  · exact ha

/-- The role of an admin is won from the owner, or from an admin who may delegate. -/
theorem Change.admin_gained (hofficer : Officer roles actor) (hi : roles i ≠ some .admin)
    (hi' : roles' i = some .admin) :
    roles actor = some .owner ∨ delegate = true ∧ roles actor = some .admin := by
  rcases hc.changed (i := i) (by rw [hi']; exact hi.symm) with rfl | ⟨-, -, ha, -⟩
  · cases hc with
    | grantAdmin ha hs =>
      rcases hofficer with ho | ho
      · exact .inl ho
      · exact ha.imp id fun hd => ⟨hd, ho⟩
    | transferOwner ha hs hb => exact .inl ha
    | _ => simp at hi'
  · exact .inl ha

/-- A banned identifier is heard of again only through an addition. -/
theorem Change.unbanned
    (hi : roles i = some .banned) {r : Role} (hi' : roles' i = some r) (hr : r ≠ .banned) :
    kind = .add := by
  rcases hc.changed (i := i) (by rw [hi, hi']; simpa using hr) with rfl | ⟨-, rfl, ha, -⟩
  · cases hc with
    | add hs => rfl
    | remove hs ho ha => simp at hi'
    | ban ho ha =>
      rw [update_self] at hi'
      exact absurd (Option.some.inj hi').symm hr
    | grantAdmin ha hs => simp [hs] at hi
    | revokeAdmin ha hs => simp [hs] at hi
    | transferOwner ha hs hb => exact absurd hi hb
  · rw [hi] at ha
    cases ha

/-- An action gives only the roles of the protocol. -/
theorem Change.known (h : ∀ i r, roles i = some r → r.Known) {r : Role} (hi : roles' i = some r) :
    r.Known := by
  by_cases hne : roles' i = roles i
  · exact h i r (hne ▸ hi)
  rcases hc.changed hne with rfl | ⟨-, -, -, ha⟩
  · cases hc <;> simp only [update_self, Option.some.injEq, reduceCtorEq] at hi <;>
      subst hi <;> trivial
  · obtain rfl := Option.some.inj (hi.symm.trans ha)
    trivial

end

end Veilmesh.Group

/-
  The call slots of an endpoint (`call/call.go`).

  `Start` and `Accept` take a slot with `acquire`. A deferred function gives it back, unless the
  call came to make a session; then it is the session's, and the first `Close`, of the user or
  of the timer, takes the release function under the lock and calls it later. An `Attempt` is a
  call with its session. A run is any interleaving of the steps of calls and of `Close`, where
  every step after `acquire` can fail.

  A session has its timer before the call that makes it returns. So its slot can be free again
  while that call is still in progress, and such a call does not count (`slot_free_early`).

  * `Attempt.act_slots`: what a step does to the slots of its call.
  * `slots_accounted`: `active` counts the calls and sessions with a slot.
-/
import Veilmesh.Call.Endpoint

namespace Veilmesh.Call

open Lib Protocol Pqcrypto List

/-! ## Calls and their sessions -/

/-- What `Close` reads and writes of a session, and how many `Close` calls have taken the release
    function and not called it yet. -/
structure Session where
  closed : Bool
  release : Bool
  owed : Nat

/-- The session that `session` makes. -/
def Session.new : Session := ⟨false, true, 0⟩

/-- The part of `Close` under the lock. -/
def Session.close (s : Session) : Session :=
  if s.closed then s else ⟨true, false, s.owed + s.release.toNat⟩

/-- The steps after `acquire`; `createDescription` is `CreateOffer` or `CreateAnswer`. -/
inductive Stage where
  | newPeerConnection
  | setRemoteDescription
  | createDescription
  | setLocalAndGather
  | localDescription
  | validateSDP
  | randomCallID
  | signSignal

def startStages : List Stage :=
  [.newPeerConnection, .createDescription, .setLocalAndGather, .localDescription, .validateSDP,
    .randomCallID, .signSignal]

def acceptStages : List Stage :=
  [.newPeerConnection, .setRemoteDescription, .createDescription, .setLocalAndGather,
    .localDescription, .validateSDP, .signSignal]

/-- Where a call is: before the steps that are left, before its deferred function, or done. -/
inductive Progress where
  | working (left : List Stage)
  | leaving (releaseOnFailure : Bool)
  | returned

/-- A call that got a slot. -/
structure Attempt where
  progress : Progress
  session : Option Session

inductive Action where
  /-- The next step of the call, or the making of its session. -/
  | step (ok : Bool)
  /-- The deferred function, and the return. -/
  | finish
  /-- A `Close` of the session, up to its unlock. -/
  | close
  /-- The end of a `Close` that took the release function. -/
  | release

/-- Whether `release` is called, and what is left. -/
def Attempt.act (a : Attempt) : Action → Bool × Attempt
  | .step ok =>
    match a.progress with
    | .working [] => (false, ⟨.leaving false, some .new⟩)
    | .working (_ :: left) =>
      (false, { a with progress := if ok then .working left else .leaving true })
    | _ => (false, a)
  | .finish =>
    match a.progress with
    | .leaving releaseOnFailure => (releaseOnFailure, { a with progress := .returned })
    | _ => (false, a)
  | .close => (false, { a with session := a.session.map Session.close })
  | .release =>
    match a.session with
    | some ⟨closed, release, owed + 1⟩ => (true, { a with session := some ⟨closed, release, owed⟩ })
    | _ => (false, a)

/-! ## The endpoint and its calls -/

/-- An endpoint with all calls that got a slot, the first one first. -/
structure Slots (c : Primitives) where
  endpoint : Endpoint c
  attempts : List Attempt

inductive SlotEvent where
  | start (remote : NodePublicIdentity) (media : Media) (now : Time)
  /-- `Accept`, with the two times it reads. -/
  | accept (remote : NodePublicIdentity) (offer : Signal) (now locked : Time)
  | act (index : Nat) (action : Action)

section

variable {c : Primitives}

def Slots.acquire (s : Slots c) (callID : Bytes) (now : Time) (stages : List Stage) : Slots c :=
  match s.endpoint.acquire callID now with
  | (.ok (), endpoint) => ⟨endpoint, s.attempts ++ [⟨.working stages, none⟩]⟩
  | (.error _, endpoint) => { s with endpoint }

def Slots.apply (parse : SDPParser) (s : Slots c) : SlotEvent → Slots c
  | .start remote media now =>
    if validPublicIdentity c remote = false ∨ remote.nodeID = s.endpoint.identity.nodeID ∨
        validateMedia media = false then s
    else s.acquire [] now startStages
  | .accept remote offer now locked =>
    match verifySignal c parse offer signalOffer remote s.endpoint.identity.nodeID now.utc with
    | .error _ => s
    | .ok () => s.acquire offer.callID locked acceptStages
  | .act index action =>
    match s.attempts[index]? with
    | none => s
    | some a =>
      ⟨if (a.act action).1 then s.endpoint.release else s.endpoint,
        s.attempts.set index (a.act action).2⟩

def SlotStep (parse : SDPParser) (s : Slots c) (e : SlotEvent) (s' : Slots c) : Prop :=
  s' = s.apply parse e

end

/-! ## Who has a slot -/

/-- The session has not been closed and released. -/
def Session.unreleased (s : Session) : Bool := s.release || s.owed != 0

def Attempt.inProgress (a : Attempt) : Bool :=
  match a.progress with
  | .returned => false
  | _ => true

/-- The call is in progress, and the session, if it has made it, is not released. -/
def Attempt.holding (a : Attempt) : Bool := a.inProgress && a.session.all Session.unreleased

/-- The call has returned a session that is not released. -/
def Attempt.returnedOpen (a : Attempt) : Bool :=
  !a.inProgress && a.session.any Session.unreleased

/-- The calls of `release` that a call and its session can still lead to. -/
def Attempt.slots (a : Attempt) : Nat :=
  (match a.progress with
    | .working _ | .leaving true => 1
    | _ => 0) + a.session.elim 0 fun s => s.release.toNat + s.owed

inductive Session.Ok : Session → Prop
  | opened : Ok ⟨false, true, 0⟩
  | closing : Ok ⟨true, false, 1⟩
  | released : Ok ⟨true, false, 0⟩

inductive Attempt.Ok : Attempt → Prop
  | working (left : List Stage) : Ok ⟨.working left, none⟩
  | failed : Ok ⟨.leaving true, none⟩
  | ended : Ok ⟨.returned, none⟩
  | made {p : Progress} {s : Session} (hp : p = .leaving false ∨ p = .returned) (hs : s.Ok) :
    Ok ⟨p, some s⟩

/-- A step gives back at most one slot, one that its call or session had. -/
theorem Attempt.act_slots {a : Attempt} (h : a.Ok) (action : Action) :
    (a.act action).2.Ok ∧ (a.act action).2.slots + (a.act action).1.toNat = a.slots := by
  cases h with
  | working left =>
    cases action with
    | step ok =>
      cases left with
      | nil => exact ⟨.made (.inl rfl) .opened, rfl⟩
      | cons stage left =>
        cases ok with
        | true => exact ⟨.working left, rfl⟩
        | false => exact ⟨.failed, rfl⟩
    | _ => exact ⟨.working left, rfl⟩
  | failed =>
    cases action with
    | finish => exact ⟨.ended, rfl⟩
    | _ => exact ⟨.failed, rfl⟩
  | ended => cases action <;> exact ⟨.ended, rfl⟩
  | made hp hs =>
    cases action with
    | step ok => obtain rfl | rfl := hp <;> exact ⟨.made (by simp) hs, rfl⟩
    | finish => obtain rfl | rfl := hp <;> exact ⟨.made (.inr rfl) hs, rfl⟩
    | close =>
      cases hs with
      | opened => exact ⟨.made hp .closing, rfl⟩
      | closing => exact ⟨.made hp .closing, rfl⟩
      | released => exact ⟨.made hp .released, rfl⟩
    | release =>
      cases hs with
      | opened => exact ⟨.made hp .opened, rfl⟩
      | closing => exact ⟨.made hp .released, rfl⟩
      | released => exact ⟨.made hp .released, rfl⟩

theorem Attempt.slots_eq {a : Attempt} (h : a.Ok) :
    a.slots = a.holding.toNat + a.returnedOpen.toNat := by
  cases h with
  | made hp hs => obtain rfl | rfl := hp <;> cases hs <;> rfl
  | _ => rfl

theorem sum_slots {attempts : List Attempt} (h : ∀ a ∈ attempts, a.Ok) :
    (attempts.map Attempt.slots).sum =
      attempts.countP Attempt.holding + attempts.countP Attempt.returnedOpen := by
  induction attempts with
  | nil => rfl
  | cons a attempts ih =>
    obtain ⟨ha, hrest⟩ := forall_mem_cons.mp h
    have hbool : ∀ b : Bool, (if b = true then 1 else 0) = b.toNat := by decide
    rw [map_cons, sum_cons, ih hrest, a.slots_eq ha, countP_cons, countP_cons, hbool, hbool]
    omega

/-! ## The invariant -/

section

variable {c : Primitives} {parse : SDPParser} {limit : Int} {s s' : Slots c}

/-- The slots are accounted for, and there are no more than allowed. -/
structure Slots.Inv (limit : Int) (s : Slots c) : Prop where
  ok : ∀ a ∈ s.attempts, a.Ok
  active : s.endpoint.active = ((s.attempts.map Attempt.slots).sum : Nat)
  most : s.endpoint.active ≤ limit
  same : s.endpoint.maxConcurrent = limit
  seen : s.endpoint.seen.size ≤ maxRememberedCallIDs

theorem size_remembered_le (e : Endpoint c) (now : Time) : (e.remembered now).size ≤ e.seen.size :=
  GoMap.size_le_of_lookup fun _ t h => ⟨t, (lookup_remembered.mp h).1⟩

/-- What `acquire` does to the counter and to the number of identifiers. -/
theorem acquire_slot (e : Endpoint c) (callID : Bytes) (now : Time)
    (h : e.seen.size ≤ maxRememberedCallIDs) :
    (e.acquire callID now).2.maxConcurrent = e.maxConcurrent ∧
    (e.acquire callID now).2.seen.size ≤ maxRememberedCallIDs ∧
    match (e.acquire callID now).1 with
    | .ok () => e.active < e.maxConcurrent ∧ (e.acquire callID now).2.active = e.active + 1
    | .error _ => (e.acquire callID now).2.active = e.active := by
  have hsize := (size_remembered_le e now).trans h
  unfold Endpoint.acquire
  dsimp only
  split
  · exact ⟨rfl, hsize, rfl⟩
  · split
    · exact ⟨rfl, hsize, rfl⟩
    · rename_i hroom
      split
      · exact ⟨rfl, hsize, rfl⟩
      · rename_i hfree
        refine ⟨rfl, ?_, not_le.mp hfree, rfl⟩
        dsimp only
        split
        · rename_i hid
          have hlt : (e.remembered now).size < maxRememberedCallIDs :=
            not_le.mp fun hle => hroom ⟨hid, hle⟩
          exact (GoMap.size_insert_le _ _ _).trans hlt
        · exact hsize

theorem Slots.Inv.acquire (h : s.Inv limit) (callID : Bytes) (now : Time) (stages : List Stage) :
    (s.acquire callID now stages).Inv limit := by
  have hslot := acquire_slot s.endpoint callID now h.seen
  unfold Slots.acquire
  cases hacquire : s.endpoint.acquire callID now with
  | mk result endpoint =>
    rw [hacquire] at hslot
    obtain ⟨hsame, hseen, hactive⟩ := hslot
    dsimp only at hsame hseen hactive
    cases result with
    | error e => exact ⟨h.ok, hactive.trans h.active, hactive.trans_le h.most, hsame.trans h.same, hseen⟩
    | ok _ =>
      obtain ⟨hless, hactive⟩ := hactive
      refine ⟨?_, ?_, ?_, hsame.trans h.same, hseen⟩
      · intro a ha
        rcases mem_append.mp ha with ha | ha
        · exact h.ok a ha
        · rw [mem_singleton.mp ha]
          exact .working stages
      · rw [hactive, h.active, map_append, sum_append]
        rfl
      · rw [hactive, ← h.same]
        exact hless

/-- While a slot is held, `release` frees one. -/
theorem release_slot {e : Endpoint c} (h : 0 < e.active) :
    e.release = { e with active := e.active - 1 } := if_pos h

theorem Slots.Inv.active_pos (h : s.Inv limit) {a : Attempt} (ha : a ∈ s.attempts) {action : Action}
    (hrelease : (a.act action).1 = true) : 0 < s.endpoint.active := by
  have hslots := (a.act_slots (h.ok a ha) action).2
  rw [hrelease, Bool.toNat_true] at hslots
  have hle : a.slots ≤ (s.attempts.map Attempt.slots).sum :=
    le_sum_of_mem (mem_map_of_mem ha)
  rw [h.active]
  omega

theorem Slots.Inv.act (h : s.Inv limit) {index : Nat} {a : Attempt} (action : Action)
    (ha : s.attempts[index]? = some a) :
    Slots.Inv limit ⟨if (a.act action).1 then s.endpoint.release else s.endpoint,
      s.attempts.set index (a.act action).2⟩ := by
  have hmem := mem_of_getElem? ha
  obtain ⟨hok, hslots⟩ := a.act_slots (h.ok a hmem) action
  obtain ⟨hlt, hget⟩ := List.getElem?_eq_some_iff.mp ha
  obtain ⟨before, after, hsplit, -, hset⟩ := @exists_of_set _ _ (a.act action).2 _ hlt
  have hactive := h.active
  rw [hsplit, hget, map_append, sum_append, map_cons, sum_cons] at hactive
  have hsum : ((s.attempts.set index (a.act action).2).map Attempt.slots).sum =
      (before.map Attempt.slots).sum + ((a.act action).2.slots + (after.map Attempt.slots).sum) := by
    rw [hset, map_append, sum_append, map_cons, sum_cons]
  have hall : ∀ b ∈ s.attempts.set index (a.act action).2, b.Ok := fun b hb =>
    (mem_or_eq_of_mem_set hb).elim (h.ok b) fun heq => heq ▸ hok
  have hmost := h.most
  cases hrelease : (a.act action).1 with
  | false =>
    rw [hrelease, Bool.toNat_false] at hslots
    exact ⟨hall, by dsimp only; rw [hsum, if_neg Bool.false_ne_true]; omega, hmost, h.same, h.seen⟩
  | true =>
    have hpos := h.active_pos hmem hrelease
    rw [hrelease, Bool.toNat_true] at hslots
    rw [if_pos rfl, release_slot hpos]
    refine ⟨hall, ?_, ?_, h.same, h.seen⟩
    · dsimp only
      rw [hsum]
      omega
    · dsimp only
      omega

theorem SlotStep.inv {e : SlotEvent} (h : s.Inv limit) (hstep : SlotStep parse s e s') :
    s'.Inv limit := by
  obtain rfl := hstep
  cases e with
  | start remote media now =>
    dsimp only [Slots.apply]
    split
    · exact h
    · exact h.acquire _ _ _
  | accept remote offer now locked =>
    dsimp only [Slots.apply]
    split
    · exact h
    · exact h.acquire _ _ _
  | act index action =>
    dsimp only [Slots.apply]
    split
    · exact h
    · rename_i ha
      exact h.act action ha

end

theorem newEndpoint_idle {c : Primitives} {config : Config} {endpoint : Endpoint c}
    (h : newEndpoint c config = .ok endpoint) : endpoint.active = 0 ∧ endpoint.seen = ∅ := by
  unfold newEndpoint at h
  extract_lets lifetime duration concurrent at h
  split at h
  · split at h
    · split at h
      · split at h
        · obtain rfl := Except.ok.inj h
          exact ⟨rfl, rfl⟩
        · cases h
      · cases h
    · cases h
  · cases h

/-- In every interleaving `active` is the number of calls in progress whose session, if there is
    one already, is not released, and of returned sessions that are not released. It never
    exceeds the limit, every call of `release` frees a slot that was taken, and no more call
    identifiers are remembered than allowed. -/
theorem slots_accounted (c : Primitives) (parse : SDPParser) {config : Config}
    {endpoint : Endpoint c} (hnew : newEndpoint c config = .ok endpoint) {es : List SlotEvent}
    {s : Slots c} (hrun : Run (SlotStep parse) ⟨endpoint, []⟩ es s) :
    s.endpoint.active =
      s.attempts.countP Attempt.holding + s.attempts.countP Attempt.returnedOpen ∧
    0 ≤ s.endpoint.active ∧ s.endpoint.active ≤ endpoint.maxConcurrent ∧
    (∀ a ∈ s.attempts, ∀ action, (a.act action).1 = true →
      0 < s.endpoint.active ∧ s.endpoint.release.active = s.endpoint.active - 1) ∧
    s.endpoint.seen.size ≤ maxRememberedCallIDs := by
  obtain ⟨hactive, hseen⟩ := newEndpoint_idle hnew
  have hstart : Slots.Inv endpoint.maxConcurrent ⟨endpoint, []⟩ := by
    refine ⟨fun a ha => absurd ha List.not_mem_nil, hactive, ?_, rfl, ?_⟩
    · rw [hactive]
      exact le_trans (by decide) endpoint.concurrent_ok.1
    · rw [hseen]
      decide
  have hinv : s.Inv endpoint.maxConcurrent :=
    hrun.invariant (fun _ _ _ hs hstep => SlotStep.inv hs hstep) hstart
  have hcount := hinv.active
  rw [sum_slots hinv.ok, Nat.cast_add] at hcount
  refine ⟨hcount, by omega, hinv.most, fun a ha action hrelease => ?_, hinv.seen⟩
  have hpos := hinv.active_pos ha hrelease
  exact ⟨hpos, by rw [release_slot hpos]⟩

/-! ## A call that is overtaken -/

theorem run_apply {c : Primitives} {parse : SDPParser} (es : List SlotEvent) (s : Slots c) :
    Run (SlotStep parse) s es (es.foldl (Slots.apply parse) s) := by
  induction es generalizing s with
  | nil => exact .nil s
  | cons e es ih => exact .cons rfl (ih _)

/-- A call of the sample endpoint makes its session; before it returns, the session is closed. -/
def overtaken : List SlotEvent :=
  .start (sampleIdentity 1) ⟨true, false⟩ Time.epoch ::
    List.replicate 8 (.act 0 (.step true)) ++ [.act 0 .close, .act 0 .release]

theorem overtaken_runs : ∃ s : Slots samplePrimitives,
    Run (SlotStep sampleParser) ⟨sampleEndpoint, []⟩ overtaken s ∧ s.endpoint.active = 0 ∧
      s.attempts = [⟨.leaving false, some ⟨true, false, 0⟩⟩] := by
  have hstart : ¬(validPublicIdentity samplePrimitives (sampleIdentity 1) = false ∨
      (sampleIdentity 1).nodeID = sampleEndpoint.identity.nodeID ∨
      validateMedia ⟨true, false⟩ = false) := by
    rw [sampleIdentity_valid]
    simp only [Bool.true_eq_false, false_or, not_or]
    exact ⟨sampleIdentity_ne, by decide⟩
  have hfirst : Slots.apply sampleParser ⟨sampleEndpoint, []⟩
      (.start (sampleIdentity 1) ⟨true, false⟩ Time.epoch) =
      ⟨(sampleEndpoint.acquire [] Time.epoch).2, [⟨.working startStages, none⟩]⟩ := by
    dsimp only [Slots.apply]
    rw [if_neg hstart]
    rfl
  exact ⟨_, .cons hfirst.symm (run_apply _ _), rfl, rfl⟩

/-- With the call that is overtaken. -/
theorem slots_accounted_overtaken : ∃ s : Slots samplePrimitives,
    Run (SlotStep sampleParser) ⟨sampleEndpoint, []⟩ overtaken s ∧
      s.endpoint.active = s.attempts.countP Attempt.holding + s.attempts.countP Attempt.returnedOpen := by
  obtain ⟨s, hrun, -⟩ := overtaken_runs
  exact ⟨s, hrun, (slots_accounted _ _ newEndpoint_sample hrun).1⟩

/-- Then no slot is taken, and one call is in progress. -/
theorem slot_free_early : ∃ (endpoint : Endpoint samplePrimitives) (s : Slots samplePrimitives),
    newEndpoint samplePrimitives ⟨sampleIdentity 2, 0, 0, 0⟩ = .ok endpoint ∧
      Run (SlotStep sampleParser) ⟨endpoint, []⟩ overtaken s ∧ s.endpoint.active = 0 ∧
      s.attempts.countP Attempt.inProgress + s.attempts.countP Attempt.returnedOpen = 1 := by
  obtain ⟨s, hrun, hactive, hattempts⟩ := overtaken_runs
  exact ⟨_, s, newEndpoint_sample, hrun, hactive, by rw [hattempts]; rfl⟩

end Veilmesh.Call

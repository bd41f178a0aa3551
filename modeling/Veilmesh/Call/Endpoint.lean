/-
  Accepting calls (`call/call.go`).

  An endpoint counts its calls and remembers the identifiers of the offers it accepted, each
  until a time that is counted from the moment of acceptance. `Accept` reads the clock twice:
  for `verifySignal`, and again, under the lock, in `acquire`; in between any other call may
  run. `CallStep` is one such reading, or the end of a call; readings do not go back.

  WebRTC itself is left out: whatever fails after `acquire` is a `release`.

  * `World.Inv`: an accepted offer is remembered at least as long as it lives.
  * `accepted_once`: with a reading of `acquire` before the offer expires, once is all.
-/
import Veilmesh.Call.Signal
import Veilmesh.Lib.Run

namespace Veilmesh.Call

open Lib Protocol Pqcrypto List

structure Config where
  identity : NodePublicIdentity
  signalLifetime : Duration
  maxCallDuration : Duration
  maxConcurrent : Int

inductive EndpointError where
  | identity
  | signalLifetime
  | callDuration
  | concurrent
  deriving DecidableEq, Repr

/-- An endpoint with the settings that were checked when it was made. -/
structure Endpoint (c : Primitives) where
  identity : NodePublicIdentity
  signalLifetime : Duration
  callDuration : Duration
  maxConcurrent : Int
  active : Int
  seen : GoMap Bytes Time
  valid : validPublicIdentity c identity = true
  lifetime_ok : 0 < signalLifetime ∧ signalLifetime ≤ maxSignalLifetime
  duration_ok : 0 < callDuration ∧ callDuration ≤ maxCallDuration
  concurrent_ok : 1 ≤ maxConcurrent ∧ maxConcurrent ≤ maxConcurrentCalls

/-- A zero setting stands for its default. -/
def newEndpoint (c : Primitives) (config : Config) : Except EndpointError (Endpoint c) :=
  let lifetime := if config.signalLifetime = 0 then defaultSignalLifetime else config.signalLifetime
  let duration := if config.maxCallDuration = 0 then defaultCallDuration else config.maxCallDuration
  let concurrent := if config.maxConcurrent = 0 then 8 else config.maxConcurrent
  if hv : validPublicIdentity c config.identity = true then
    if hl : 0 < lifetime ∧ lifetime ≤ maxSignalLifetime then
      if hd : 0 < duration ∧ duration ≤ maxCallDuration then
        if hc : 1 ≤ concurrent ∧ concurrent ≤ maxConcurrentCalls then
          .ok ⟨config.identity, lifetime, duration, concurrent, 0, ∅, hv, hl, hd, hc⟩
        else .error .concurrent
      else .error .callDuration
    else .error .signalLifetime
  else .error .identity

namespace Endpoint

variable {c : Primitives}

/-- The remembered identifiers whose time has not come. -/
def remembered (e : Endpoint c) (now : Time) : GoMap Bytes Time :=
  e.seen.eraseWhere (fun expiresAt => !expiresAt.after now) e.seen.sortedKeys

/-- Forgetting is done first, and stays done when the call is refused. -/
def acquire (e : Endpoint c) (callID : Bytes) (now : Time) : Except CallError Unit × Endpoint c :=
  let seen := e.remembered now
  let e := { e with seen := seen }
  if callID ≠ [] ∧ (seen.lookup callID).isSome = true then (.error .signalReplay, e)
  else if callID ≠ [] ∧ seen.size ≥ maxRememberedCallIDs then (.error .callLimit, e)
  else if e.active ≥ e.maxConcurrent then (.error .callLimit, e)
  else
    (.ok (), { e with
      seen := if callID ≠ [] then seen.insert callID (now.add (maxSignalLifetime + clockSkew)) else seen
      active := e.active + 1 })

def release (e : Endpoint c) : Endpoint c :=
  if e.active > 0 then { e with active := e.active - 1 } else e

end Endpoint

/-! ## Interleaved calls -/

/-- An endpoint, the offers that passed `verifySignal` and wait for the lock, the offers that
    were accepted, last one first, and the latest reading of the clock. -/
structure World (c : Primitives) where
  endpoint : Endpoint c
  pending : List Signal
  accepted : List Signal
  clock : Int

inductive CallEvent where
  /-- `Accept` starts with an offer said to be of `remote`. -/
  | verify (remote : NodePublicIdentity) (offer : Signal) (now : Time)
  /-- `Accept` goes on with the lock. -/
  | acquire (offer : Signal) (now : Time)
  /-- `Start` takes a place for a call of our own. -/
  | start (now : Time)
  | release

/-- The offers that wait after one more was looked at. -/
def World.waiting {c : Primitives} (parse : SDPParser) (w : World c) (remote : NodePublicIdentity)
    (offer : Signal) (now : Time) : List Signal :=
  match verifySignal c parse offer signalOffer remote w.endpoint.identity.nodeID now.utc with
  | .ok () => offer :: w.pending
  | .error _ => w.pending

def CallStep {c : Primitives} (parse : SDPParser) (w : World c) (e : CallEvent) (w' : World c) :
    Prop :=
  match e with
  | .verify remote offer now => w.clock ≤ now.ns ∧
      w' = { w with pending := w.waiting parse remote offer now, clock := now.ns }
  | .acquire offer now => offer ∈ w.pending ∧ w.clock ≤ now.ns ∧
      w' = match w.endpoint.acquire offer.callID now with
        | (.ok (), ep) => ⟨ep, w.pending.erase offer, offer :: w.accepted, now.ns⟩
        | (.error _, ep) => ⟨ep, w.pending.erase offer, w.accepted, now.ns⟩
  | .start now => w.clock ≤ now.ns ∧
      w' = { w with endpoint := (w.endpoint.acquire [] now).2, clock := now.ns }
  | .release => w' = { w with endpoint := w.endpoint.release }

/-- Nothing has happened yet. -/
def World.start {c : Primitives} (e : Endpoint c) (clock : Int) : World c := ⟨e, [], [], clock⟩

/-! ## What is remembered -/

section

variable {c : Primitives} {e e' : Endpoint c} {callID id : Bytes} {now t : Time}

theorem lookup_remembered :
    (e.remembered now).lookup id = some t ↔ e.seen.lookup id = some t ∧ now.ns < t.ns := by
  rw [Endpoint.remembered, GoMap.lookup_eraseWhere, Option.filter_eq_some_iff]
  constructor
  · rintro ⟨hmem, hkeep⟩
    have hkey : id ∈ e.seen.sortedKeys := GoMap.mem_sortedKeys.mpr (GoMap.mem_keys_of_lookup hmem)
    simp only [hkey, decide_true, Bool.and_true, Bool.not_not, Time.after_iff] at hkeep
    exact ⟨hmem, hkeep⟩
  · rintro ⟨hmem, hlater⟩
    have hafter : t.after now = true := (Time.after_iff _ _).mpr hlater
    exact ⟨hmem, by simp [hafter]⟩

/-- What `acquire` does to the memory. -/
theorem acquire_cases {err : Except CallError Unit} (h : e.acquire callID now = (err, e')) :
    (∃ x, err = .error x) ∧ e'.seen = e.remembered now ∨
    err = .ok () ∧ (callID ≠ [] → (e.remembered now).lookup callID = none ∧
      e'.seen = (e.remembered now).insert callID (now.add (maxSignalLifetime + clockSkew))) ∧
      (callID = [] → e'.seen = e.remembered now) := by
  unfold Endpoint.acquire at h
  dsimp only at h
  split at h
  · obtain ⟨rfl, rfl⟩ := Prod.mk.inj h
    exact .inl ⟨⟨_, rfl⟩, rfl⟩
  · rename_i hnew
    split at h
    · obtain ⟨rfl, rfl⟩ := Prod.mk.inj h
      exact .inl ⟨⟨_, rfl⟩, rfl⟩
    · split at h
      · obtain ⟨rfl, rfl⟩ := Prod.mk.inj h
        exact .inl ⟨⟨_, rfl⟩, rfl⟩
      · obtain ⟨rfl, rfl⟩ := Prod.mk.inj h
        refine .inr ⟨rfl, fun hne => ⟨?_, if_pos hne⟩, fun heq => if_neg (not_not.mpr heq)⟩
        cases hlookup : (e.remembered now).lookup callID with
        | none => rfl
        | some t => exact absurd ⟨hne, by rw [hlookup]; rfl⟩ hnew

end

/-! ## The invariant -/

/-- The identifier of an offer is remembered until the offer expires, or it has expired. -/
def Covered (seen : GoMap Bytes Time) (clock : Int) (o : Signal) : Prop :=
  (∃ t, seen.lookup o.callID = some t ∧ o.expiresAt.ns ≤ t.ns) ∨ o.expiresAt.ns ≤ clock

/-- Offers that wait live at most the longest lifetime and the skew; accepted ones are covered,
    and none is accepted twice. -/
structure World.Inv {c : Primitives} (w : World c) : Prop where
  pending : ∀ o ∈ w.pending, o.callID ≠ [] ∧
    o.expiresAt.ns ≤ w.clock + (maxSignalLifetime + clockSkew)
  accepted : ∀ o ∈ w.accepted, Covered w.endpoint.seen w.clock o
  once : w.accepted.Nodup

/-- `acquire` is reached before the offer expires. -/
def CallEvent.Prompt : CallEvent → Prop
  | .acquire offer now => now.ns < offer.expiresAt.ns
  | _ => True

section

variable {c : Primitives} {parse : SDPParser} {w w' : World c}

/-- What is forgotten at `now` has expired by then. -/
theorem Covered.remembered {e : Endpoint c} {clock : Int} {o : Signal} {now : Time}
    (h : Covered e.seen clock o) (hclock : clock ≤ now.ns) :
    Covered (e.remembered now) now.ns o := by
  rcases h with ⟨t, hseen, hle⟩ | hle
  · by_cases hlater : now.ns < t.ns
    · exact .inl ⟨t, lookup_remembered.mpr ⟨hseen, hlater⟩, hle⟩
    · exact .inr (hle.trans (not_lt.mp hlater))
  · exact .inr (hle.trans hclock)

theorem ne_nil_of_validCallID {callID : Bytes} (h : validCallID callID = true) : callID ≠ [] := by
  rintro rfl
  cases h

theorem inv_waiting (h : w.Inv) {remote : NodePublicIdentity} {offer : Signal} {now : Time}
    (hclock : w.clock ≤ now.ns) : ∀ o ∈ w.waiting parse remote offer now,
      o.callID ≠ [] ∧ o.expiresAt.ns ≤ now.ns + (maxSignalLifetime + clockSkew) := by
  have hold : ∀ o ∈ w.pending,
      o.callID ≠ [] ∧ o.expiresAt.ns ≤ now.ns + (maxSignalLifetime + clockSkew) := fun o ho =>
    ⟨(h.pending o ho).1, (h.pending o ho).2.trans (Int.add_le_add_right hclock _)⟩
  intro o ho
  unfold World.waiting at ho
  split at ho
  · rename_i hverify
    obtain ⟨hid, -, hle⟩ := verifySignal_window hverify
    rcases mem_cons.mp ho with rfl | ho
    · exact ⟨ne_nil_of_validCallID hid, hle⟩
    · exact hold o ho
  · exact hold o ho

/-- Every step keeps the invariant, if `acquire` is reached in time. -/
theorem CallStep.inv {e : CallEvent} (h : w.Inv) (hprompt : e.Prompt)
    (hstep : CallStep parse w e w') : w'.Inv := by
  cases e with
  | verify remote offer now =>
    obtain ⟨hclock, rfl⟩ := hstep
    refine ⟨inv_waiting h hclock, fun o ho => ?_, h.once⟩
    exact (h.accepted o ho).imp_right fun hle => hle.trans hclock
  | acquire offer now =>
    obtain ⟨hpending, hclock, rfl⟩ := hstep
    obtain ⟨hid, hwindow⟩ := h.pending offer hpending
    have hwaits : ∀ o ∈ w.pending.erase offer, o.callID ≠ [] ∧
        o.expiresAt.ns ≤ now.ns + (maxSignalLifetime + clockSkew) := fun o ho =>
      ⟨(h.pending o (mem_of_mem_erase ho)).1,
        (h.pending o (mem_of_mem_erase ho)).2.trans (Int.add_le_add_right hclock _)⟩
    have hforget := fun o ho => (h.accepted o ho).remembered hclock
    obtain ⟨err, ep, hacquire⟩ : ∃ err ep, w.endpoint.acquire offer.callID now = (err, ep) :=
      ⟨_, _, rfl⟩
    rw [hacquire]
    obtain ⟨⟨x, rfl⟩, hseen⟩ | ⟨rfl, hnew, -⟩ := acquire_cases hacquire
    · exact ⟨hwaits, fun o ho => hseen ▸ hforget o ho, h.once⟩
    · obtain ⟨hnone, hseen⟩ := hnew hid
      refine ⟨hwaits, fun o ho => ?_, nodup_cons.mpr ⟨fun hmem => ?_, h.once⟩⟩
      · change Covered ep.seen now.ns o
        rw [hseen]
        rcases mem_cons.mp ho with rfl | ho
        · refine .inl ⟨_, Finmap.lookup_insert _, ?_⟩
          exact hwindow.trans (Int.add_le_add_right hclock _)
        · rcases hforget o ho with ⟨t, ht, hle⟩ | hle
          · refine .inl ⟨t, ?_, hle⟩
            rw [GoMap.lookup_insert_eq, if_neg, ht]
            rintro heq
            rw [heq, hnone] at ht
            cases ht
          · exact .inr hle
      · -- an accepted offer that is not remembered has expired, and this one has not
        rcases hforget offer hmem with ⟨t, ht, -⟩ | hle
        · rw [hnone] at ht
          cases ht
        · exact absurd hprompt (not_lt.mpr hle)
  | start now =>
    obtain ⟨hclock, rfl⟩ := hstep
    obtain ⟨err, ep, hacquire⟩ : ∃ err ep, w.endpoint.acquire [] now = (err, ep) := ⟨_, _, rfl⟩
    have hseen : ep.seen = w.endpoint.remembered now := by
      obtain ⟨-, hseen⟩ | ⟨-, -, hseen⟩ := acquire_cases hacquire
      · exact hseen
      · exact hseen rfl
    rw [hacquire]
    refine ⟨fun o ho => ⟨(h.pending o ho).1, (h.pending o ho).2.trans (Int.add_le_add_right hclock _)⟩,
      fun o ho => ?_, h.once⟩
    change Covered ep.seen now.ns o
    exact hseen ▸ (h.accepted o ho).remembered hclock
  | release =>
    obtain rfl := hstep
    have hseen : w.endpoint.release.seen = w.endpoint.seen := by
      unfold Endpoint.release
      split <;> rfl
    refine ⟨h.pending, fun o ho => ?_, h.once⟩
    change Covered w.endpoint.release.seen w.clock o
    exact hseen ▸ h.accepted o ho

end

/-! ## One sample call after another -/

section

/-- An endpoint of the second sample identity with the default settings. -/
def sampleEndpoint : Endpoint samplePrimitives where
  identity := sampleIdentity 2
  signalLifetime := defaultSignalLifetime
  callDuration := defaultCallDuration
  maxConcurrent := 8
  active := 0
  seen := ∅
  valid := sampleIdentity_valid 2
  lifetime_ok := by decide
  duration_ok := by decide
  concurrent_ok := by decide

theorem newEndpoint_sample :
    newEndpoint samplePrimitives ⟨sampleIdentity 2, 0, 0, 0⟩ = .ok sampleEndpoint := by
  unfold newEndpoint
  rw [dif_pos (sampleIdentity_valid 2)]
  rfl

theorem acquire_new {c : Primitives} {e : Endpoint c} {callID : Bytes} {now : Time}
    (hid : callID ≠ []) (hnew : (e.remembered now).lookup callID = none)
    (hsize : (e.remembered now).size < maxRememberedCallIDs) (hactive : e.active < e.maxConcurrent) :
    e.acquire callID now = (.ok (), { e with
      seen := (e.remembered now).insert callID (now.add (maxSignalLifetime + clockSkew))
      active := e.active + 1 }) := by
  unfold Endpoint.acquire
  dsimp only
  rw [if_neg, if_neg, if_neg, if_pos hid]
  · exact not_le.mpr hactive
  · exact fun h => absurd h.2 (not_le.mpr hsize)
  · rintro ⟨-, h⟩
    rw [hnew] at h
    cases h

/-- An `Accept` with nothing in between. -/
theorem accept_runs {c : Primitives} {parse : SDPParser} {w : World c} {ep : Endpoint c}
    {remote : NodePublicIdentity} {offer : Signal} {now later : Time} (hpending : w.pending = [])
    (hverify : verifySignal c parse offer signalOffer remote w.endpoint.identity.nodeID now.utc =
      .ok ()) (hacquire : w.endpoint.acquire offer.callID later = (.ok (), ep))
    (hclock : w.clock ≤ now.ns) (hlater : now.ns ≤ later.ns) :
    Run (CallStep parse) w [.verify remote offer now, .acquire offer later]
      ⟨ep, [], offer :: w.accepted, later.ns⟩ := by
  have hwaiting : w.waiting parse remote offer now = [offer] := by
    unfold World.waiting
    rw [hverify, hpending]
  refine .cons ⟨hclock, rfl⟩ (.single ⟨?_, hlater, ?_⟩)
  · rw [hwaiting]
    exact mem_singleton_self _
  · dsimp only
    rw [hacquire, hwaiting, erase_cons_head]

/-- The sample endpoint after it accepted the sample offer at the epoch. -/
def busyEndpoint : Endpoint samplePrimitives :=
  { sampleEndpoint with
    seen := (sampleEndpoint.remembered Time.epoch).insert sampleOffer.callID
      (Time.epoch.add (maxSignalLifetime + clockSkew))
    active := 1 }

theorem accept_epoch : Run (CallStep sampleParser) (World.start sampleEndpoint Time.epoch.ns)
    [.verify (sampleIdentity 1) sampleOffer Time.epoch, .acquire sampleOffer Time.epoch]
    ⟨busyEndpoint, [], [sampleOffer], Time.epoch.ns⟩ := by
  refine accept_runs rfl (sampleOffer_verified le_rfl (by decide)) ?_ le_rfl le_rfl
  exact acquire_new (by decide) (by decide +kernel) (by decide +kernel) (by decide)

end

/-! ## The result -/

/-- In every interleaving in which `acquire` reads the clock before the offer it is called for
    expires, no offer is accepted twice. -/
theorem accepted_once (c : Primitives) (parse : SDPParser) (endpoint : Endpoint c) (clock : Int)
    (es : List CallEvent) (w : World c)
    (hrun : Run (CallStep parse) (World.start endpoint clock) es w) (hprompt : ∀ e ∈ es, e.Prompt)
    (offer : Signal) : w.accepted.count offer ≤ 1 := by
  have hstart : (World.start endpoint clock).Inv :=
    ⟨fun o ho => absurd ho List.not_mem_nil, fun o ho => absurd ho List.not_mem_nil,
      List.nodup_nil⟩
  have hinv : w.Inv := hrun.invariant_of (I := World.Inv) (P := CallEvent.Prompt)
    (fun _ _ _ hw hp hst => CallStep.inv hw hp hst) hprompt hstart
  exact List.nodup_iff_count_le_one.mp hinv.once offer

/-- The sample offer is checked and accepted at the epoch. -/
theorem accepted_once_epoch : ∃ w : World samplePrimitives,
    Run (CallStep sampleParser) (World.start sampleEndpoint Time.epoch.ns)
      [.verify (sampleIdentity 1) sampleOffer Time.epoch, .acquire sampleOffer Time.epoch] w ∧
      w.accepted = [sampleOffer] ∧ w.accepted.count sampleOffer ≤ 1 := by
  refine ⟨_, accept_epoch, rfl,
    accepted_once samplePrimitives sampleParser sampleEndpoint _ _ _ accept_epoch ?_ _⟩
  intro e he
  rcases List.mem_cons.mp he with rfl | he
  · trivial
  · rw [List.mem_singleton.mp he]
    exact (by decide : Time.epoch.ns < Time.epoch.ns + (maxSignalLifetime + clockSkew))

/-- The sample offer is accepted at the epoch. Seven minutes later less a nanosecond it is
    still valid; when that call takes the lock, a nanosecond later, its identifier has just been
    forgotten. -/
theorem accepted_twice : ∃ (endpoint : Endpoint samplePrimitives) (w : World samplePrimitives),
    newEndpoint samplePrimitives ⟨sampleIdentity 2, 0, 0, 0⟩ = .ok endpoint ∧
      Run (CallStep sampleParser) (World.start endpoint Time.epoch.ns)
        [.verify (sampleIdentity 1) sampleOffer Time.epoch, .acquire sampleOffer Time.epoch,
          .verify (sampleIdentity 1) sampleOffer
            (Time.epoch.add (maxSignalLifetime + clockSkew - 1)),
          .acquire sampleOffer (Time.epoch.add (maxSignalLifetime + clockSkew))] w ∧
      w.accepted.count sampleOffer = 2 := by
  have hverify := @sampleOffer_verified (Time.epoch.add (maxSignalLifetime + clockSkew - 1)).utc
    (by decide) (by decide)
  have hforgotten := @acquire_new _ busyEndpoint sampleOffer.callID
    (Time.epoch.add (maxSignalLifetime + clockSkew)) (by decide) (by decide +kernel)
    (by decide +kernel) (by decide)
  have hsecond := @accept_runs _ _ ⟨busyEndpoint, [], [sampleOffer], Time.epoch.ns⟩ _ _ _
    (Time.epoch.add (maxSignalLifetime + clockSkew - 1)) _ rfl hverify hforgotten (by decide)
    (by decide)
  refine ⟨sampleEndpoint, _, newEndpoint_sample, Run.append_iff.mpr ⟨_, accept_epoch, hsecond⟩, ?_⟩
  simp

end Veilmesh.Call

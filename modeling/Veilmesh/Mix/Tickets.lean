/-
  What becomes of the tickets.

  `System.ledger` reads a state as a ledger: committed packets are issued, results settle them,
  and what `Run` holds or the queue still has is pending. Every step issues a packet at the end
  of the line, settles its head or leaves the ledger alone.

  * `tickets_resolved_once`: every ticket gets at most one result, exactly one once `Run` has
    returned, and no send finds its channel full.
  * `real_packets_in_order`: the sink gets the committed packets in order, each at most once,
    never in a poll slot and never late.
-/
import Veilmesh.Lib.Ledger
import Veilmesh.Mix.System

namespace Veilmesh.Mix

open Lib Scheduler List Function
open Function (update)

/-! ## Reading a state -/

/-- The queued packets `Run` itself holds. -/
def RunPhase.inflight : RunPhase → List QueuedPacket
  | .sending _ _ _ _ queued => queued.toList
  | .reporting _ _ _ _ queued _ _ => queued.toList
  | .draining _ rest => rest
  | _ => []

/-- The error `Run` has published. -/
def RunPhase.runErr : RunPhase → Option MixError
  | .failing e => some e
  | .draining e _ => some e
  | .returned e => some e
  | _ => none

/-- Whether the loop of `Run` has begun and its error is not yet published. -/
def RunPhase.active : RunPhase → Bool
  | .idle => false
  | .failing _ => false
  | .draining _ _ => false
  | .returned _ => false
  | _ => true

/-- Whether `failQueued` has taken the queue. -/
def RunPhase.drained : RunPhase → Bool
  | .draining _ _ => true
  | .returned _ => true
  | _ => false

/-- The packet the sink has answered for, before its result is sent. -/
def RunPhase.handed : RunPhase → List Handed
  | .reporting _ now number packet queued answer _ =>
    (queued.map fun q => (⟨q, packet, number, now, answer⟩ : Handed)).toList
  | _ => []

def System.ledger (s : System) : Ledger QueuedPacket Delivery :=
  ⟨s.history.results.map fun d => (d.queued, d), s.run.inflight ++ s.scheduler.queue⟩

variable {s : System} {scheduler scheduler' : Scheduler} {config : Config} {i : Nat} {e : Event}

theorem System.mem_settled {q : QueuedPacket} {d : Delivery} :
    (q, d) ∈ s.ledger.settled ↔ d ∈ s.history.results ∧ d.queued = q := by
  simp only [System.ledger, mem_map, Prod.mk.injEq]
  constructor
  · rintro ⟨d', hd', rfl, rfl⟩
    exact ⟨hd', rfl⟩
  · rintro ⟨hd, rfl⟩
    exact ⟨d, hd, rfl, rfl⟩

/-! ## What the regions do -/

theorem Scheduler.commit_ok {queued : QueuedPacket}
    (h : scheduler.commit queued = (.ok (), scheduler')) :
    scheduler.terminalErr = none ∧
      scheduler' = { scheduler.release with queue := scheduler.queue ++ [queued] } := by
  unfold commit at h
  split at h
  · cases h
  · exact ⟨by assumption, (Prod.mk.inj h).2.symm⟩

theorem Scheduler.start_ok (h : scheduler.start = .ok scheduler') :
    scheduler.running = false ∧ scheduler.terminalErr = none ∧
      scheduler' = { scheduler with running := true } := by
  unfold start at h
  split at h
  · cases h
  · rename_i hfree
    rw [not_or, Bool.not_eq_true, not_not] at hfree
    exact ⟨hfree.1, hfree.2, (Except.ok.inj h).symm⟩

theorem prepareReal_ok {command : Command} {now : Time} {answer : Except Bytes Bytes}
    {channel : Nat} {queued : QueuedPacket}
    (h : prepareReal config command now answer channel = .ok queued) :
    queued.result = channel ∧ (queued.packet.length : Int) = config.packetBytes := by
  unfold prepareReal at h
  split at h
  · cases h
  split at h
  · cases h
  split at h
  · cases h
  rename_i packet hvalid
  obtain rfl := Except.ok.inj h
  refine ⟨rfl, ?_⟩
  unfold Config.validatePrepared at hvalid
  split at hvalid
  · cases hvalid
  · exact not_not.mp ‹_›

/-- Whether a call has a reservation. -/
def Call.holds : Call → Bool
  | .returned _ => false
  | _ => true

/-- An `Enqueue` call that does not commit changes the reservations only, by the one it takes or
    gives back. -/
theorem Call.Step.scheduler_eq {call : Option Call} {call' : Call}
    (h : Call.Step i scheduler call e scheduler' call') :
    ∃ reservations, scheduler' = { scheduler with reservations := reservations } ∧
      reservations = scheduler.reservations - (call.any Call.holds).toNat + call'.holds.toNat ∧
      (scheduler.queue.length + scheduler.reservations ≤ scheduler.config.maxQueue →
        scheduler.queue.length + reservations ≤ scheduler.config.maxQueue) := by
  cases h with
  | refuse => exact ⟨_, rfl, by simp [Call.holds], id⟩
  | reserve h =>
    unfold Scheduler.reserve at h
    split at h
    · cases h
    split at h
    · cases h
    split at h
    · cases h
    rename_i hroom
    exact ⟨_, (Except.ok.inj h).symm, by simp [Call.holds], fun _ => by omega⟩
  | prepareFailed => exact ⟨_, rfl, by simp [Call.holds], id⟩
  | prepare => exact ⟨_, rfl, by simp [Call.holds], id⟩
  | release => exact ⟨_, rfl, by simp [Call.holds], fun _ => by omega⟩
  | commitRefused h =>
    unfold commit at h
    split at h
    · exact ⟨_, (Prod.mk.inj h).2.symm, by simp [Call.holds], fun _ => by omega⟩
    · cases h

/-- No ticket comes from such a step, nor does one come from a call that has returned. -/
theorem Call.Step.no_ticket {call : Option Call} {call' : Call}
    (h : Call.Step i scheduler call e scheduler' call') :
    (∀ t, call' ≠ .returned (.ok t)) ∧ (∀ outcome, call ≠ some (.returned outcome)) ∧
      ∀ queued, call' = .prepared queued →
        queued.result = i ∧ (queued.packet.length : Int) = scheduler.config.packetBytes := by
  cases h with
  | prepare h =>
    refine ⟨nofun, nofun, fun queued hq => ?_⟩
    obtain rfl := Call.prepared.inj hq
    exact prepareReal_ok h
  | _ => exact ⟨nofun, nofun, nofun⟩

/-- The steps of `Run` outside the mutex hold no queued packet. -/
theorem RunPhase.Step.quiet {p p' : RunPhase} {seen : List Observation}
    (h : RunPhase.Step config p e seen p') :
    p.inflight = [] ∧ p'.inflight = [] ∧ p.handed = [] ∧ p'.handed = [] ∧ p.active = true ∧
      p'.active = true ∧ p.runErr = none ∧ p'.runErr = none ∧ p'.drained = false ∧
      p' ≠ .blocked := by
  cases h with
  | cancel => simp [inflight, handed, active, runErr, drained]
  | tick =>
    unfold afterTick
    split <;> simp [inflight, handed, active, runErr, drained]
  | cover =>
    unfold afterCover
    split
    · simp [inflight, handed, active, runErr, drained]
    · split <;> simp [inflight, handed, active, runErr, drained]
  | poll =>
    unfold afterPoll
    split
    · simp [inflight, handed, active, runErr, drained]
    · split <;> simp [inflight, handed, active, runErr, drained]
  | advance =>
    unfold afterSlot
    split <;> simp [inflight, handed, active, runErr, drained]

theorem afterReport_quiet (next : Time) (err : Option MixError) :
    (afterReport next err).inflight = [] ∧ (afterReport next err).handed = [] ∧
      (afterReport next err).active = true ∧ (afterReport next err).runErr = none ∧
      (afterReport next err).drained = false ∧ afterReport next err ≠ .blocked := by
  cases err with
  | none => simp [afterReport, RunPhase.inflight, RunPhase.handed, RunPhase.active,
      RunPhase.runErr, RunPhase.drained]
  | some e => simp [afterReport, RunPhase.inflight, RunPhase.handed, RunPhase.active,
      RunPhase.runErr, RunPhase.drained]

theorem System.deliver_eq {d : Delivery} (h : s.channels d.queued.result = none) (phase : RunPhase)
    : s.deliver d phase = { s with
      run := phase
      channels := update s.channels d.queued.result (some d.result)
      history := { s.history with results := s.history.results ++ [d] } } := by
  rw [System.deliver, h]

theorem System.deliver_scheduler (s : System) (d : Delivery) (phase : RunPhase) :
    (s.deliver d phase).scheduler = s.scheduler := by
  unfold System.deliver
  split <;> rfl

theorem System.deliver_calls (s : System) (d : Delivery) (phase : RunPhase) :
    (s.deliver d phase).calls = s.calls := by
  unfold System.deliver
  split <;> rfl

/-- The four ways in which a slot opens. -/
theorem System.openSlot_cases (s : System) (next now : Time) (cover : Bytes) :
    (s.scheduler.slots + 1) % s.scheduler.config.pollEverySlots = 0 ∧
      s.openSlot next now cover = { s with
        scheduler := { s.scheduler with slots := s.scheduler.slots + 1 }
        run := .polling next now (s.scheduler.slots + 1) } ∨
    (s.scheduler.slots + 1) % s.scheduler.config.pollEverySlots ≠ 0 ∧ s.scheduler.queue = [] ∧
      s.openSlot next now cover = { s with
        scheduler := { s.scheduler with slots := s.scheduler.slots + 1 }
        run := .sending next now (s.scheduler.slots + 1) cover none } ∨
    ∃ q queue, (s.scheduler.slots + 1) % s.scheduler.config.pollEverySlots ≠ 0 ∧
      s.scheduler.queue = q :: queue ∧
      (now.after q.expiresAt = false ∧ s.openSlot next now cover = { s with
          scheduler := { s.scheduler with slots := s.scheduler.slots + 1, queue := queue }
          run := .sending next now (s.scheduler.slots + 1) q.packet (some q) } ∨
        now.after q.expiresAt = true ∧ s.openSlot next now cover = System.deliver { s with
          scheduler := { s.scheduler with slots := s.scheduler.slots + 1, queue := queue } }
          ⟨q, ⟨q.requestID, Time.zero, some .commandExpired⟩, .expired (s.scheduler.slots + 1) now⟩
          (.sending next now (s.scheduler.slots + 1) cover none)) := by
  by_cases hpoll : (s.scheduler.slots + 1) % s.scheduler.config.pollEverySlots = 0
  · exact .inl ⟨hpoll, by simp only [openSlot, takeSlot, if_pos hpoll]⟩
  cases hqueue : s.scheduler.queue with
  | nil =>
    exact .inr (.inl ⟨hpoll, rfl, by
      simp only [openSlot, takeSlot, if_neg hpoll, hqueue]⟩)
  | cons q queue =>
    refine .inr (.inr ⟨q, queue, hpoll, rfl, ?_⟩)
    cases hexpired : now.after q.expiresAt with
    | false =>
      exact .inl ⟨rfl, by
        simp only [openSlot, takeSlot, if_neg hpoll, hqueue, hexpired,
          Bool.false_eq_true, if_false]⟩
    | true =>
      exact .inr ⟨rfl, by
        simp only [openSlot, takeSlot, if_neg hpoll, hqueue, hexpired, if_true]⟩

theorem update_eq_some {β : Type} {f : Nat → Option β} {j : Nat} {b c : β}
    (h : update f i (some b) j = some c) : (j = i ∧ c = b) ∨ f j = some c := by
  by_cases heq : j = i
  · rw [heq, update_self] at h
    exact .inl ⟨heq, (Option.some.inj h).symm⟩
  · exact .inr ((update_of_ne heq _ _).symm.trans h)

/-! ## Control -/

/-- How the scheduler's flags follow `Run`. -/
structure Control (s : System) : Prop where
  running : s.scheduler.running = s.run.active
  terminal : s.scheduler.terminalErr = s.run.runErr
  drained : s.run.drained = true → s.scheduler.queue = []
  live : s.run ≠ .blocked

theorem Control.flags (h : Control s) {phase : RunPhase} (hrun : s.run = phase) :
    s.scheduler.running = phase.active ∧ s.scheduler.terminalErr = phase.runErr :=
  hrun ▸ ⟨h.running, h.terminal⟩

theorem RunPhase.idle_of {phase : RunPhase} (hactive : phase.active = false)
    (herr : phase.runErr = none) : phase = .idle := by
  cases phase with
  | idle => rfl
  | failing e => cases herr
  | draining e rest => cases herr
  | returned e => cases herr
  | _ => cases hactive

/-! ## The ledger of tickets -/

/-- Every committed packet is settled or pending, in order; each has a call and a channel of
    its own. -/
structure Tickets (s : System) : Prop where
  issued : s.history.committed = s.ledger.issued
  once : (s.history.committed.map QueuedPacket.result).Nodup
  called : ∀ q ∈ s.history.committed, s.calls q.result = some (.returned (.ok q.result))
  ticket : ∀ i t, s.calls i = some (.returned (.ok t)) →
    t = i ∧ ∃ q ∈ s.history.committed, q.result = i
  prepared : ∀ i q, s.calls i = some (.prepared q) → q.result = i
  channel : ∀ i r, s.channels i = some r → ∃ d ∈ s.history.results, d.queued.result = i

namespace Tickets

variable {s s' : System}

/-- The channel of a pending packet is empty. -/
theorem channel_free (h : Tickets s) {q : QueuedPacket} (hq : q ∈ s.ledger.pending) :
    s.channels q.result = none := by
  by_contra hfull
  obtain ⟨r, hr⟩ := Option.ne_none_iff_exists'.mp hfull
  obtain ⟨d, hd, heq⟩ := h.channel _ r hr
  have hkeys := h.once
  rw [h.issued] at hkeys
  exact Ledger.not_settled_of_pending hkeys hq (mem_map_of_mem hd) heq

/-- A step that leaves calls, channels, commits and results alone. -/
theorem congr (h : Tickets s) (hcalls : s'.calls = s.calls) (hchannels : s'.channels = s.channels)
    (hcommitted : s'.history.committed = s.history.committed)
    (hresults : s'.history.results = s.history.results)
    (hpending : s'.run.inflight ++ s'.scheduler.queue = s.run.inflight ++ s.scheduler.queue) :
    Tickets s' where
  issued := by
    rw [hcommitted, h.issued, Ledger.issued, Ledger.issued, System.ledger, System.ledger, hresults,
      hpending]
  once := hcommitted ▸ h.once
  called := by
    rw [hcommitted, hcalls]
    exact h.called
  ticket := by
    rw [hcommitted, hcalls]
    exact h.ticket
  prepared := hcalls ▸ h.prepared
  channel := by
    rw [hchannels, hresults]
    exact h.channel

/-- A result for the head of the line. -/
theorem deliver (h : Tickets s) {t : System} {d : Delivery} {phase : RunPhase}
    (hcalls : t.calls = s.calls) (hchannels : t.channels = s.channels)
    (hcommitted : t.history.committed = s.history.committed)
    (hresults : t.history.results = s.history.results)
    (hpending : s.ledger.pending = d.queued :: (phase.inflight ++ t.scheduler.queue)) :
    t.channels d.queued.result = none ∧ Tickets (t.deliver d phase) := by
  have hfree : t.channels d.queued.result = none := by
    rw [hchannels]
    exact h.channel_free (hpending ▸ mem_cons_self)
  refine ⟨hfree, ?_⟩
  rw [System.deliver_eq hfree]
  have hledger : System.ledger { t with
      run := phase
      channels := update t.channels d.queued.result (some d.result)
      history := { t.history with results := t.history.results ++ [d] } } =
        s.ledger.settle d.queued d (phase.inflight ++ t.scheduler.queue) := by
    simp only [System.ledger, Ledger.settle, hresults, map_append, map_cons, map_nil]
  refine ⟨?_, hcommitted ▸ h.once, ?_, ?_, ?_, ?_⟩
  · rw [hledger, Ledger.issued_settle hpending, ← h.issued, ← hcommitted]
  · intro q hq
    exact (congrFun hcalls _).trans (h.called q (hcommitted ▸ hq))
  · intro i ticket hi
    rw [hcommitted]
    exact h.ticket i ticket ((congrFun hcalls i).symm.trans hi)
  · intro i q hi
    exact h.prepared i q ((congrFun hcalls i).symm.trans hi)
  · intro i r hi
    rcases update_eq_some hi with ⟨heq, -⟩ | hi
    · exact ⟨d, mem_append_right _ (mem_singleton_self d), heq.symm⟩
    · obtain ⟨d', hd', hd'i⟩ := h.channel i r ((congrFun hchannels i).symm.trans hi)
      exact ⟨d', mem_append_left _ (hresults ▸ hd'), hd'i⟩

theorem call (h : Tickets s) {i : Nat} {e : Event} {scheduler : Scheduler} {call : Call}
    (hstep : Call.Step i s.scheduler (s.calls i) e scheduler call) :
    Tickets { s with
      scheduler := scheduler
      calls := update s.calls i (some call) } := by
  obtain ⟨hticket, hreturned, hprepared⟩ := hstep.no_ticket
  obtain ⟨reservations, rfl, -⟩ := hstep.scheduler_eq
  refine ⟨h.issued, h.once, ?_, ?_, ?_, h.channel⟩
  · intro q hq
    have hne : q.result ≠ i := by
      rintro rfl
      exact hreturned _ (h.called q hq)
    exact (update_of_ne hne _ _).trans (h.called q hq)
  · intro j t hj
    rcases update_eq_some hj with ⟨-, heq⟩ | hj
    · exact absurd heq.symm (hticket t)
    · exact h.ticket j t hj
  · intro j q hj
    rcases update_eq_some hj with ⟨rfl, heq⟩ | hj
    · exact (hprepared q heq.symm).1
    · exact h.prepared j q hj

theorem commit (h : Tickets s) {i : Nat} {queued : QueuedPacket}
    (hcall : s.calls i = some (.prepared queued)) :
    Tickets { s with
      scheduler := { s.scheduler.release with queue := s.scheduler.queue ++ [queued] }
      calls := update s.calls i (some (.returned (.ok i)))
      history := { s.history with committed := s.history.committed ++ [queued] } } := by
  obtain rfl := h.prepared i queued hcall
  have hother : ∀ q ∈ s.history.committed, q.result ≠ queued.result := by
    intro q hq heq
    have hq := h.called q hq
    rw [heq, hcall] at hq
    cases hq
  refine ⟨?_, ?_, ?_, ?_, ?_, h.channel⟩
  · have hledger : System.ledger { s with
        scheduler := { s.scheduler.release with queue := s.scheduler.queue ++ [queued] }
        calls := update s.calls queued.result (some (.returned (.ok queued.result)))
        history := { s.history with committed := s.history.committed ++ [queued] } } =
          s.ledger.issue queued := by
      simp only [System.ledger, Ledger.issue, append_assoc]
    rw [hledger, Ledger.issued_issue, ← h.issued]
  · rw [map_append, nodup_append]
    refine ⟨h.once, nodup_singleton _, fun a ha b hb => ?_⟩
    obtain ⟨q, hq, rfl⟩ := mem_map.mp ha
    obtain rfl := mem_singleton.mp hb
    exact hother q hq
  · intro q hq
    rcases mem_append.mp hq with hq | hq
    · exact (update_of_ne (hother q hq) _ _).trans (h.called q hq)
    · obtain rfl := mem_singleton.mp hq
      exact update_self _ _ _
  · intro j t hj
    rcases update_eq_some hj with ⟨rfl, heq⟩ | hj
    · exact ⟨Except.ok.inj (Call.returned.inj heq), queued,
        mem_append_right _ (mem_singleton_self _), rfl⟩
    · obtain ⟨ht, q, hq, hqj⟩ := h.ticket j t hj
      exact ⟨ht, q, mem_append_left _ hq, hqj⟩
  · intro j q hj
    rcases update_eq_some hj with ⟨-, heq⟩ | hj
    · cases heq
    · exact h.prepared j q hj

end Tickets

/-- The invariant of the tickets. -/
structure Inv (s : System) : Prop extends Control s, Tickets s

namespace Inv

variable {s s' : System} {e : Event}

theorem initial {scheduler : Scheduler} (hrunning : scheduler.running = false)
    (hterminal : scheduler.terminalErr = none) (hqueue : scheduler.queue = []) :
    Inv (System.initial scheduler) where
  running := hrunning
  terminal := hterminal
  drained := fun _ => hqueue
  live := nofun
  issued := by simp [System.ledger, Ledger.issued, System.initial, RunPhase.inflight, hqueue]
  once := nodup_nil
  called := nofun
  ticket := nofun
  prepared := nofun
  channel := nofun

/-- A result for the head of the line, with what follows for the flags. -/
theorem deliver (h : Inv s) {t : System} {d : Delivery} {phase : RunPhase}
    (hcalls : t.calls = s.calls) (hchannels : t.channels = s.channels)
    (hcommitted : t.history.committed = s.history.committed)
    (hresults : t.history.results = s.history.results)
    (hpending : s.ledger.pending = d.queued :: (phase.inflight ++ t.scheduler.queue))
    (hrunning : t.scheduler.running = phase.active)
    (hterminal : t.scheduler.terminalErr = phase.runErr)
    (hdrained : phase.drained = true → t.scheduler.queue = []) (hlive : phase ≠ .blocked) :
    Inv (t.deliver d phase) := by
  obtain ⟨hfree, htickets⟩ := h.toTickets.deliver hcalls hchannels hcommitted hresults hpending
  rw [System.deliver_eq hfree] at htickets ⊢
  exact ⟨⟨hrunning, hterminal, hdrained, hlive⟩, htickets⟩

theorem slot (h : Inv s) {next now : Time} {cover : Bytes}
    (hrun : s.run = .covered next now cover) : Inv (s.openSlot next now cover) := by
  obtain ⟨hrunning, hterminal⟩ := h.flags hrun
  rcases s.openSlot_cases next now cover with ⟨-, heq⟩ | ⟨-, -, heq⟩ | ⟨q, queue, -, hqueue, hcase⟩
  · rw [heq]
    exact ⟨⟨hrunning, hterminal, nofun, nofun⟩, h.toTickets.congr rfl rfl rfl rfl (by rw [hrun]; rfl)⟩
  · rw [heq]
    exact ⟨⟨hrunning, hterminal, nofun, nofun⟩, h.toTickets.congr rfl rfl rfl rfl (by rw [hrun]; rfl)⟩
  rcases hcase with ⟨-, heq⟩ | ⟨-, heq⟩
  · rw [heq]
    exact ⟨⟨hrunning, hterminal, nofun, nofun⟩, h.toTickets.congr rfl rfl rfl rfl (by rw [hrun, hqueue]; rfl)⟩
  · rw [heq]
    refine h.deliver rfl rfl rfl rfl ?_ hrunning hterminal nofun nofun
    rw [System.ledger, hrun, hqueue]
    rfl

theorem report (h : Inv s) {next now : Time} {number : UInt64} {packet : Bytes}
    {queued : Option QueuedPacket} {answer : Option Bytes} {err : Option MixError}
    (hrun : s.run = .reporting next now number packet queued answer err) :
    Inv (s.report next now number packet queued answer err) := by
  obtain ⟨hrunning, hterminal⟩ := h.flags hrun
  obtain ⟨hinflight, -, hactive, hrunErr, hdrained, hlive⟩ := afterReport_quiet next err
  have hdrain : (afterReport next err).drained = true → s.scheduler.queue = [] := by
    rw [hdrained]
    nofun
  cases queued with
  | none =>
    refine ⟨⟨?_, ?_, hdrain, hlive⟩, h.toTickets.congr rfl rfl rfl rfl ?_⟩
    · exact hrunning.trans hactive.symm
    · exact hterminal.trans hrunErr.symm
    · rw [hrun]
      exact congrArg (· ++ s.scheduler.queue) hinflight
  | some q =>
    refine h.deliver rfl rfl rfl rfl ?_ ?_ ?_ hdrain hlive
    · rw [System.ledger, hrun, hinflight]
      rfl
    · exact hrunning.trans hactive.symm
    · exact hterminal.trans hrunErr.symm

/-- Every step keeps the invariant. -/
theorem step (h : Inv s) (hstep : Step s e s') : Inv s' := by
  cases hstep with
  | call hcall =>
    have htickets := h.toTickets.call hcall
    obtain ⟨reservations, rfl, -⟩ := hcall.scheduler_eq
    exact ⟨⟨h.running, h.terminal, h.drained, h.live⟩, htickets⟩
  | commit hcall hcommit =>
    obtain ⟨hterminal, rfl⟩ := commit_ok hcommit
    refine ⟨⟨h.running, h.terminal, fun hdrained => ?_, h.live⟩, h.toTickets.commit hcall⟩
    -- a drained queue belongs to a published error, and then nothing is committed
    rw [h.terminal] at hterminal
    change s.run.drained = true at hdrained
    generalize s.run = phase at hterminal hdrained
    cases phase <;> simp [RunPhase.drained, RunPhase.runErr] at hterminal hdrained
  | wait hresult =>
    refine ⟨⟨h.running, h.terminal, h.drained, h.live⟩, h.issued, h.once, h.called, h.ticket,
      h.prepared, fun i r hi => ?_⟩
    have hne : i ≠ _ := fun heq => by
      rw [heq] at hi
      exact absurd ((update_self _ _ _).symm.trans hi) nofun
    exact h.channel i r ((update_of_ne hne _ _).symm.trans hi)
  | runRefused => exact h
  | run hstart =>
    obtain ⟨hrunning, hterminal, rfl⟩ := start_ok hstart
    refine ⟨⟨rfl, hterminal, nofun, nofun⟩, h.toTickets.congr rfl rfl rfl rfl ?_⟩
    rw [RunPhase.idle_of (h.running.symm.trans hrunning) (h.terminal.symm.trans hterminal)]
    rfl
  | phase hphase =>
    obtain ⟨hin, hin', -, -, hactive, hactive', herr, herr', hdrained', hlive⟩ := hphase.quiet
    refine ⟨⟨?_, ?_, ?_, hlive⟩, h.toTickets.congr rfl rfl rfl rfl ?_⟩
    · exact h.running.trans (hactive.trans hactive'.symm)
    · exact h.terminal.trans (herr.trans herr'.symm)
    · intro hdrained
      exact absurd (hdrained'.symm.trans hdrained) nofun
    · exact congrArg (· ++ s.scheduler.queue) (hin'.trans hin.symm)
  | slot hrun => exact h.slot hrun
  | send hrun =>
    refine ⟨⟨?_, ?_, nofun, nofun⟩, h.toTickets.congr rfl rfl rfl rfl ?_⟩
    · exact (h.flags hrun).1
    · exact (h.flags hrun).2
    · rw [hrun]
      rfl
  | report hrun => exact h.report hrun
  | finish hrun =>
    refine ⟨⟨rfl, rfl, nofun, nofun⟩, h.toTickets.congr rfl rfl rfl rfl ?_⟩
    rw [hrun]
    rfl
  | fail hrun =>
    refine ⟨⟨?_, ?_, fun _ => rfl, nofun⟩, h.toTickets.congr rfl rfl rfl rfl ?_⟩
    · exact (h.flags hrun).1
    · exact (h.flags hrun).2
    · rw [hrun]
      exact append_nil _
  | drain hrun =>
    refine h.deliver rfl rfl rfl rfl ?_ ?_ ?_ ?_ nofun
    · rw [System.ledger, hrun]
      rfl
    · exact (h.flags hrun).1
    · exact (h.flags hrun).2
    · exact fun _ => h.drained (hrun ▸ rfl)
  | leave hrun =>
    refine ⟨⟨?_, ?_, fun _ => h.drained (hrun ▸ rfl), nofun⟩, h.toTickets.congr rfl rfl rfl rfl ?_⟩
    · exact (h.flags hrun).1
    · exact (h.flags hrun).2
    · rw [hrun]
      rfl

end Inv

/-! ## What results say -/

/-- A packet is handed to the sink as it was committed, outside poll slots and in time. -/
def Handed.InTime (config : Config) (h : Handed) : Prop :=
  h.packet = h.queued.packet ∧ h.number % config.pollEverySlots ≠ 0 ∧
    h.now.after h.queued.expiresAt = false

/-- What a result says, by the statement that sent it. -/
def Delivery.Sound (config : Config) (d : Delivery) : Prop :=
  match d.origin with
  | .expired number now => d.result.err = some .commandExpired ∧
      number % config.pollEverySlots ≠ 0 ∧ now.after d.queued.expiresAt = true
  | .slot h => h.queued = d.queued ∧ h.InTime config ∧ d.result.err ≠ some .commandExpired ∧
      (d.result.err = none → h.answer = none)
  | .failQueued => d.result.err ≠ none

/-- What `Run` knows of the packet it holds. -/
def RunPhase.Sound (config : Config) : RunPhase → Prop
  | .sending _ now number packet (some q) => ∀ answer,
      Handed.InTime config ⟨q, packet, number, now, answer⟩
  | .reporting _ now number packet (some q) answer err =>
      Handed.InTime config ⟨q, packet, number, now, answer⟩ ∧ err ≠ some .commandExpired ∧
        (err = none → answer = none)
  | _ => True

def Delivery.handed (d : Delivery) : Option Handed :=
  match d.origin with
  | .slot h => some h
  | _ => none

/-- The sink was handed what the results say, and the packet `Run` holds. -/
structure Reported (s : System) : Prop where
  handed : s.history.handed = s.history.results.filterMap Delivery.handed ++ s.run.handed
  sound : ∀ d ∈ s.history.results, d.Sound s.scheduler.config
  flight : s.run.Sound s.scheduler.config
  order : s.history.results.Pairwise fun a b => a.origin = .failQueued → b.origin = .failQueued
  failed : ∀ d ∈ s.history.results, d.origin = .failQueued → s.scheduler.terminalErr ≠ none

theorem Config.sendErr_spec (config : Config) (answer : Option Bytes) (elapsed : Duration) :
    config.sendErr answer elapsed ≠ some .commandExpired ∧
      (config.sendErr answer elapsed = none → answer = none) := by
  unfold Config.sendErr
  split
  · exact ⟨nofun, nofun⟩
  · refine ⟨?_, fun _ => rfl⟩
    split <;> nofun

theorem RunPhase.Step.sound {p p' : RunPhase} {seen : List Observation}
    (h : RunPhase.Step config p e seen p') : p'.Sound config := by
  cases h with
  | cancel => exact trivial
  | tick =>
    unfold afterTick
    split <;> exact trivial
  | cover =>
    unfold afterCover
    split
    · exact trivial
    · split <;> exact trivial
  | poll =>
    unfold afterPoll
    split
    · exact trivial
    · split <;> exact trivial
  | advance =>
    unfold afterSlot
    split <;> exact trivial

namespace Reported

variable {s s' : System} {e : Event}

/-- A step that neither sends a result nor calls the sink. -/
theorem congr (h : Reported s) (hconfig : s'.scheduler.config = s.scheduler.config)
    (hterminal : s.scheduler.terminalErr ≠ none → s'.scheduler.terminalErr ≠ none)
    (hhanded : s'.history.handed = s.history.handed)
    (hresults : s'.history.results = s.history.results) (hphase : s'.run.handed = s.run.handed)
    (hflight : s'.run.Sound s.scheduler.config) : Reported s' where
  handed := by rw [hhanded, hresults, hphase, h.handed]
  sound := by
    rw [hresults, hconfig]
    exact h.sound
  flight := hconfig ▸ hflight
  order := hresults ▸ h.order
  failed := by
    rw [hresults]
    exact fun d hd hfailed => hterminal (h.failed d hd hfailed)

/-- A result for a packet whose channel is free. -/
theorem deliver (h : Reported s) {t : System} {d : Delivery} {phase : RunPhase}
    (hfree : t.channels d.queued.result = none) (hconfig : t.scheduler.config = s.scheduler.config)
    (hterminal : t.scheduler.terminalErr = s.scheduler.terminalErr)
    (hhanded : t.history.handed = s.history.handed)
    (hresults : t.history.results = s.history.results)
    (hphase : s.run.handed = d.handed.toList ++ phase.handed)
    (hsound : d.Sound s.scheduler.config) (hflight : phase.Sound s.scheduler.config)
    (horigin : d.origin = .failQueued ↔ s.scheduler.terminalErr ≠ none) :
    Reported (t.deliver d phase) := by
  rw [System.deliver_eq hfree]
  refine ⟨?_, ?_, hconfig ▸ hflight, ?_, ?_⟩
  · change t.history.handed = (t.history.results ++ [d]).filterMap Delivery.handed ++ phase.handed
    rw [hhanded, hresults, h.handed, hphase, filterMap_append, append_assoc]
    rfl
  · intro d' hd'
    change d'.Sound t.scheduler.config
    rw [hconfig]
    rcases mem_append.mp hd' with hd' | hd'
    · exact h.sound d' (hresults ▸ hd')
    · exact mem_singleton.mp hd' ▸ hsound
  · change (t.history.results ++ [d]).Pairwise _
    rw [hresults, pairwise_append]
    refine ⟨h.order, pairwise_singleton _ _, fun a ha b hb hfailed => ?_⟩
    rw [mem_singleton.mp hb]
    exact horigin.mpr (h.failed a ha hfailed)
  · intro d' hd' hfailed
    change t.scheduler.terminalErr ≠ none
    rw [hterminal]
    rcases mem_append.mp hd' with hd' | hd'
    · exact h.failed d' (hresults ▸ hd') hfailed
    · exact horigin.mp (mem_singleton.mp hd' ▸ hfailed)

variable {next now : Time}

theorem slot (h : Reported s) (hinv : Inv s) {cover : Bytes}
    (hrun : s.run = .covered next now cover) : Reported (s.openSlot next now cover) := by
  have hnone : s.run.handed = [] := hrun ▸ rfl
  rcases s.openSlot_cases next now cover with
    ⟨-, heq⟩ | ⟨-, -, heq⟩ | ⟨q, queue, hpoll, hqueue, ⟨hintime, heq⟩ | ⟨hexpired, heq⟩⟩
  · rw [heq]
    exact h.congr rfl id rfl rfl hnone.symm trivial
  · rw [heq]
    exact h.congr rfl id rfl rfl hnone.symm trivial
  · rw [heq]
    exact h.congr rfl id rfl rfl hnone.symm fun answer => ⟨rfl, hpoll, hintime⟩
  · have hpending : q ∈ s.ledger.pending := by
      rw [System.ledger, hqueue]
      exact mem_append_right _ mem_cons_self
    rw [heq]
    refine h.deliver (hinv.channel_free hpending) rfl rfl rfl rfl hnone ⟨rfl, hpoll, hexpired⟩
      trivial ⟨nofun, fun hterminal => absurd (hinv.flags hrun).2 hterminal⟩

theorem send (h : Reported s) {number : UInt64} {packet : Bytes} {queued : Option QueuedPacket}
    (hrun : s.run = .sending next now number packet queued) (answer : Option Bytes)
    (elapsed : Duration) : Reported (s.send next now number packet queued answer elapsed) := by
  have hnone : s.run.handed = [] := hrun ▸ rfl
  refine ⟨?_, h.sound, ?_, h.order, h.failed⟩
  · have hhanded := h.handed
    rw [hnone, append_nil] at hhanded
    exact congrArg (· ++ _) hhanded
  · have hflight := h.flight
    rw [hrun] at hflight
    cases queued with
    | none => exact trivial
    | some q =>
      obtain ⟨hexpired, haccepted⟩ := s.scheduler.config.sendErr_spec answer elapsed
      exact ⟨hflight answer, hexpired, haccepted⟩

theorem report (h : Reported s) (hinv : Inv s) {number : UInt64} {packet : Bytes}
    {queued : Option QueuedPacket} {answer : Option Bytes} {err : Option MixError}
    (hrun : s.run = .reporting next now number packet queued answer err) :
    Reported (s.report next now number packet queued answer err) := by
  obtain ⟨-, hhanded, -⟩ := afterReport_quiet next err
  have hafter : (afterReport next err).Sound s.scheduler.config := by
    cases err <;> exact trivial
  have hflight := h.flight
  rw [hrun] at hflight
  cases queued with
  | none =>
    have hnone : s.run.handed = [] := hrun ▸ rfl
    exact h.congr rfl id rfl rfl (hhanded.trans hnone.symm) hafter
  | some q =>
    obtain ⟨hintime, hexpired, haccepted⟩ := hflight
    have hpending : q ∈ s.ledger.pending := by
      rw [System.ledger, hrun]
      exact mem_append_left _ (mem_singleton_self q)
    refine h.deliver (hinv.channel_free hpending) rfl rfl rfl rfl ?_
      ⟨rfl, hintime, hexpired, haccepted⟩ hafter
      ⟨nofun, fun hterminal => absurd (hinv.flags hrun).2 hterminal⟩
    rw [hrun, hhanded]
    rfl

/-- Every step keeps the results sound. -/
theorem step (h : Reported s) (hinv : Inv s) (hstep : Step s e s') : Reported s' := by
  cases hstep with
  | call hcall =>
    obtain ⟨reservations, rfl, -⟩ := hcall.scheduler_eq
    exact h.congr rfl id rfl rfl rfl h.flight
  | commit hcall hcommit =>
    obtain ⟨hterminal, rfl⟩ := commit_ok hcommit
    exact h.congr rfl id rfl rfl rfl h.flight
  | wait => exact h.congr rfl id rfl rfl rfl h.flight
  | runRefused => exact h
  | run hstart =>
    obtain ⟨hrunning, hterminal, rfl⟩ := start_ok hstart
    refine h.congr rfl id rfl rfl ?_ trivial
    rw [RunPhase.idle_of (hinv.running.symm.trans hrunning) (hinv.terminal.symm.trans hterminal)]
    rfl
  | phase hphase =>
    obtain ⟨-, -, hhanded, hhanded', -⟩ := hphase.quiet
    exact h.congr rfl id rfl rfl (hhanded'.trans hhanded.symm) hphase.sound
  | slot hrun => exact h.slot hinv hrun
  | send hrun => exact h.send hrun _ _
  | report hrun => exact h.report hinv hrun
  | finish hrun => exact h.congr rfl (fun _ => nofun) rfl rfl (hrun ▸ rfl) trivial
  | fail hrun => exact h.congr rfl id rfl rfl (hrun ▸ rfl) trivial
  | drain hrun =>
    rename_i runErr queued rest
    have hpending : queued ∈ s.ledger.pending := by
      rw [System.ledger, hrun]
      exact mem_append_left _ mem_cons_self
    refine h.deliver (hinv.channel_free hpending) rfl rfl rfl rfl (hrun ▸ rfl) nofun trivial
      ⟨fun _ => ?_, fun _ => rfl⟩
    rw [(hinv.flags hrun).2]
    nofun
  | leave hrun => exact h.congr rfl id rfl rfl (hrun ▸ rfl) trivial

theorem initial (scheduler : Scheduler) : Reported (System.initial scheduler) :=
  ⟨rfl, fun _ hd => absurd hd not_mem_nil, trivial, .nil, fun _ hd => absurd hd not_mem_nil⟩

end Reported

/-! ## Runs -/

theorem Step.config_eq {s' : System} (h : Step s e s') :
    s'.scheduler.config = s.scheduler.config := by
  cases h with
  | call hcall =>
    obtain ⟨reservations, rfl, -⟩ := hcall.scheduler_eq
    rfl
  | commit _ hcommit =>
    obtain ⟨-, rfl⟩ := commit_ok hcommit
    rfl
  | run hstart =>
    obtain ⟨-, -, rfl⟩ := start_ok hstart
    rfl
  | slot =>
    rename_i next now cover _
    rcases s.openSlot_cases next now cover with
      ⟨-, heq⟩ | ⟨-, -, heq⟩ | ⟨q, queue, -, -, ⟨-, heq⟩ | ⟨-, heq⟩⟩
    · rw [heq]
    · rw [heq]
    · rw [heq]
    · rw [heq, System.deliver_scheduler]
  | report =>
    rename_i queued _ _ _
    cases queued with
    | none => rfl
    | some q => exact congrArg config (System.deliver_scheduler _ _ _)
  | drain => exact congrArg config (System.deliver_scheduler _ _ _)
  | _ => rfl

section

variable {config : Config} {provider : Option PacketSecurity} {sink : Option LinkSecurity}
  {scheduler : Scheduler} {es : List Event} {s s' : System}

theorem newScheduler_ok (h : newScheduler config provider sink = .ok scheduler) :
    scheduler = ⟨config.defaults, [], 0, 0, false, none⟩ ∧
      config.defaults.packetBytes = defaultPacketBytes ∧
      config.defaults.pollEverySlots = referencePollEverySlots ∧ 0 < config.defaults.maxQueue := by
  unfold newScheduler at h
  simp only at h
  split at h
  · cases h
  rename_i hconfig
  split at h
  · cases h
  split at h
  · cases h
  simp only [not_or, not_not] at hconfig
  exact ⟨(Except.ok.inj h).symm, hconfig.1, hconfig.2.2.1, not_le.mp hconfig.2.2.2.1⟩

/-- What holds in every state that is reached. -/
theorem reachable_inv (hnew : newScheduler config provider sink = .ok scheduler)
    (h : Run Step (System.initial scheduler) es s) : Inv s ∧ Reported s := by
  obtain ⟨rfl, -⟩ := newScheduler_ok hnew
  refine Run.invariant (I := fun s => Inv s ∧ Reported s)
    (fun s e s' hs hstep => ⟨hs.1.step hstep, hs.2.step hs.1 hstep⟩) h
    ⟨Inv.initial rfl rfl rfl, Reported.initial _⟩

/-- The results that were sent in a slot are for packets in commit order. -/
theorem handed_sublist {config : Config} {results : List Delivery}
    (h : ∀ d ∈ results, d.Sound config) :
    ((results.filterMap Delivery.handed).map Handed.queued).Sublist
      (results.map Delivery.queued) := by
  induction results with
  | nil => exact .slnil
  | cons d results ih =>
    have hrest := ih fun d' hd' => h d' (mem_cons_of_mem _ hd')
    have hsound := h d mem_cons_self
    cases horigin : d.origin with
    | slot handed =>
      have hd : d.handed = some handed := by rw [Delivery.handed, horigin]
      rw [Delivery.Sound, horigin] at hsound
      rw [filterMap_cons_some hd, map_cons, map_cons, hsound.1]
      exact hrest.cons_cons _
    | _ =>
      have hd : d.handed = none := by rw [Delivery.handed, horigin]
      rw [filterMap_cons_none hd, map_cons]
      exact hrest.cons _

theorem RunPhase.handed_inflight (phase : RunPhase) :
    (phase.handed.map Handed.queued).Sublist phase.inflight := by
  cases phase with
  | reporting next now number packet queued answer err =>
    cases queued <;> exact List.Sublist.refl _
  | _ => exact nil_sublist _

variable (h : Reported s)

include h

/-- The sink is handed the committed packets in order. -/
theorem Reported.sublist (hinv : Inv s) :
    (s.history.handed.map Handed.queued).Sublist s.history.committed := by
  have hissued : s.history.committed =
      s.history.results.map Delivery.queued ++ (s.run.inflight ++ s.scheduler.queue) := by
    rw [hinv.issued, Ledger.issued, System.ledger, map_map]
    rfl
  rw [h.handed, map_append, hissued]
  exact (handed_sublist h.sound).append
    (s.run.handed_inflight.trans (sublist_append_left _ _))

omit h in
theorem Inv.results_once (hinv : Inv s) :
    (s.history.results.map fun d => d.queued.result).Nodup := by
  have hkeys := hinv.once
  rw [hinv.issued] at hkeys
  have hsettled := Ledger.settled_nodup hkeys
  rwa [System.ledger, map_map] at hsettled

variable {handed : Handed} {d : Delivery} {runErr : MixError}

/-- A packet that was handed over has its result or is the next to get one. -/
theorem Reported.handed_cases (hhanded : handed ∈ s.history.handed) :
    (∃ d ∈ s.history.results, d.queued = handed.queued ∧ d.origin = .slot handed) ∨
      handed ∈ s.run.handed := by
  rw [h.handed] at hhanded
  rcases mem_append.mp hhanded with hmem | hmem
  · obtain ⟨d, hd, hslot⟩ := mem_filterMap.mp hmem
    have hsound := h.sound d hd
    unfold Delivery.handed at hslot
    unfold Delivery.Sound at hsound
    split at hslot
    · rename_i horigin
      obtain rfl := Option.some.inj hslot
      rw [horigin] at hsound
      exact .inl ⟨d, hd, hsound.1.symm, horigin⟩
    · cases hslot
  · exact .inr hmem

/-- A packet whose result comes from elsewhere than its slot is never handed to the sink. -/
theorem Reported.not_handed (hinv : Inv s) (hd : d ∈ s.history.results)
    (horigin : d.handed = none) (hhanded : handed ∈ s.history.handed) :
    handed.queued.result ≠ d.queued.result := by
  intro heq
  rcases h.handed_cases hhanded with ⟨d', hd', hqueued, hslot⟩ | hmem
  · obtain rfl : d' = d :=
      inj_on_of_nodup_map hinv.results_once hd' hd ((congrArg _ hqueued).trans heq)
    rw [Delivery.handed, hslot] at horigin
    cases horigin
  · have hpending : handed.queued ∈ s.ledger.pending := mem_append_left _
      (s.run.handed_inflight.subset (mem_map_of_mem hmem))
    have hkeys := hinv.once
    rw [hinv.issued] at hkeys
    exact Ledger.not_settled_of_pending hkeys hpending (mem_map_of_mem hd) heq.symm

/-- A result without an error is for a packet the sink accepted. -/
theorem Reported.accepted (hd : d ∈ s.history.results) (herr : d.result.err = none)
    : ∃ handed ∈ s.history.handed, handed.queued = d.queued ∧ handed.answer = none := by
  have hsound := h.sound d hd
  unfold Delivery.Sound at hsound
  cases horigin : d.origin with
  | slot handed =>
    rw [horigin] at hsound
    refine ⟨handed, ?_, hsound.1, hsound.2.2.2 herr⟩
    rw [h.handed]
    refine mem_append_left _ (mem_filterMap.mpr ⟨d, hd, ?_⟩)
    rw [Delivery.handed, horigin]
  | expired number now =>
    rw [horigin, herr] at hsound
    exact absurd hsound.1 nofun
  | failQueued =>
    rw [horigin] at hsound
    exact absurd herr hsound

/-- An expired command was not handed to the sink. -/
theorem Reported.expired (hd : d ∈ s.history.results)
    (herr : d.result.err = some .commandExpired) : d.handed = none := by
  have hsound := h.sound d hd
  unfold Delivery.Sound at hsound
  unfold Delivery.handed
  split at hsound
  · rename_i horigin
    rw [horigin]
  · exact absurd herr hsound.2.2.1
  · rename_i horigin
    rw [horigin]

omit h

/-- The packet was taken from the head of the queue in a slot after its end. -/
def ExpiredAtHead (config : Config) (s : System) (q : QueuedPacket) : Prop :=
  ∃ d ∈ s.history.results, d.queued = q ∧ ∃ number now, d.origin = .expired number now ∧
    number % config.pollEverySlots ≠ 0 ∧ now.after q.expiresAt = true

/-- A result sent in a slot is for a packet that was handed over or had expired. -/
theorem Reported.served (h : Reported s) (hd : d ∈ s.history.results)
    (horigin : d.origin ≠ .failQueued) :
    (∃ handed ∈ s.history.handed, handed.queued = d.queued) ∨
      ExpiredAtHead s.scheduler.config s d.queued := by
  have hsound := h.sound d hd
  unfold Delivery.Sound at hsound
  cases hcase : d.origin with
  | slot handed =>
    rw [hcase] at hsound
    refine .inl ⟨handed, ?_, hsound.1⟩
    rw [h.handed]
    refine mem_append_left _ (mem_filterMap.mpr ⟨d, hd, ?_⟩)
    rw [Delivery.handed, hcase]
  | expired number now =>
    rw [hcase] at hsound
    exact .inr ⟨d, hd, rfl, number, now, hcase, hsound.2⟩
  | failQueued => exact absurd hcase horigin

theorem RunPhase.handed_of_runErr {phase : RunPhase} (h : phase.runErr ≠ none) :
    phase.handed = [] := by
  cases phase with
  | reporting => exact absurd rfl h
  | _ => rfl

theorem Reported.inTime (h : Reported s) (hhanded : handed ∈ s.history.handed) :
    handed.InTime s.scheduler.config := by
  rcases h.handed_cases hhanded with ⟨d, hd, -, horigin⟩ | hmem
  · have hsound := h.sound d hd
    rw [Delivery.Sound, horigin] at hsound
    exact hsound.2.1
  · have hflight := h.flight
    generalize s.run = phase at hmem hflight
    cases phase with
    | reporting next now number packet queued answer err =>
      cases queued with
      | none => cases hmem
      | some q =>
        obtain rfl := mem_singleton.mp hmem
        exact hflight.1
    | _ => cases hmem

/-- A packet that was handed over waits at most at the head of the line. -/
theorem Reported.front (h : Reported s) (hinv : Inv s) (hhanded : handed ∈ s.history.handed) :
    handed.queued ∉ s.ledger.pending.tail := by
  have hkeys := hinv.once
  rw [hinv.issued] at hkeys
  rcases h.handed_cases hhanded with ⟨d, hd, hqueued, -⟩ | hmem
  · intro hpending
    exact Ledger.not_settled_of_pending hkeys (mem_of_mem_tail hpending)
      (System.mem_settled.mpr ⟨hd, hqueued⟩) rfl
  · rw [Ledger.issued, map_append] at hkeys
    have hpending := hkeys.of_append_right
    have hhead : s.ledger.pending = handed.queued :: s.scheduler.queue := by
      rw [System.ledger]
      generalize s.run = phase at hmem
      cases phase with
      | reporting next now number packet queued answer err =>
        cases queued with
        | none => cases hmem
        | some q =>
          obtain rfl := mem_singleton.mp hmem
          rfl
      | _ => cases hmem
    rw [hhead] at hpending ⊢
    exact fun htail => (nodup_cons.mp hpending).1 (mem_map_of_mem htail)

/-- No packet is passed over at the end of `Run` once a later one was handed to the sink. -/
theorem Reported.passed_over (h : Reported s) (hinv : Inv s) {before after : List QueuedPacket}
    {q : QueuedPacket} (hsplit : s.history.committed = before ++ q :: after)
    (hhanded : handed ∈ s.history.handed) (hafter : handed.queued ∈ after) :
    ∃ d ∈ s.history.results, d.queued = q ∧ d.origin ≠ .failQueued := by
  obtain ⟨first, d, later, hsettled, heq⟩ := Ledger.settled_of_before (hinv.issued ▸ hsplit) hafter
    (h.front hinv hhanded)
  have hd := System.mem_settled.mp (hsettled ▸ mem_append_right _ mem_cons_self)
  refine ⟨d, hd.1, hd.2, fun hfailed => ?_⟩
  have hterminal := h.failed d hd.1 hfailed
  rw [hinv.terminal] at hterminal
  rcases h.handed_cases hhanded with ⟨d', hd', hqueued, horigin⟩ | hmem
  · have hkeys := hinv.once
    rw [hinv.issued] at hkeys
    rw [heq] at hafter
    rcases mem_append.mp hafter with hlater | hpending
    · -- its result would come after one from `failQueued`, so from there as well
      obtain ⟨⟨q', d''⟩, hmem, hq'⟩ := mem_map.mp hlater
      have horder : s.ledger.settled.Pairwise fun a b =>
          a.2.origin = .failQueued → b.2.origin = .failQueued := pairwise_map.mpr h.order
      rw [hsettled] at horder
      have hlast := (pairwise_cons.mp (pairwise_append.mp horder).2.1).1 _ hmem hfailed
      obtain ⟨hd'', hqueued''⟩ := System.mem_settled.mp
        (hsettled ▸ mem_append_right _ (mem_cons_of_mem _ hmem))
      have hnone : d''.handed = none := by
        rw [Delivery.handed]
        change d''.origin = _ at hlast
        rw [hlast]
      refine h.not_handed hinv hd'' hnone hhanded ?_
      rw [hqueued'', ← hq']
    · exact Ledger.not_settled_of_pending hkeys hpending
        (System.mem_settled.mpr ⟨hd', hqueued⟩) rfl
  · rw [RunPhase.handed_of_runErr hterminal] at hmem
    cases hmem

/-- Real packets are sent in order, once and never late: what the sink is handed is a
    subsequence of what was committed, each packet at most once, unchanged, outside poll slots
    and not after its end. A committed packet is handed over, or it had expired at the head of
    the queue, or it still waits, or it was failed at the end of `Run`; and if a later one was
    handed over, only the first two are possible. -/
theorem real_packets_in_order (hnew : newScheduler config provider sink = .ok scheduler)
    (hrun : Run Step (System.initial scheduler) es s) :
    (s.history.handed.map Handed.queued).Sublist s.history.committed ∧
    (s.history.handed.map fun handed => handed.queued.result).Nodup ∧
    (∀ handed ∈ s.history.handed, handed.packet = handed.queued.packet ∧
      handed.number % scheduler.config.pollEverySlots ≠ 0 ∧
      handed.now.after handed.queued.expiresAt = false) ∧
    (∀ q ∈ s.history.committed, (∃ handed ∈ s.history.handed, handed.queued = q) ∨
      ExpiredAtHead scheduler.config s q ∨ q ∈ s.run.inflight ++ s.scheduler.queue ∨
      ∃ d ∈ s.history.results, d.queued = q ∧ d.origin = .failQueued ∧
        s.scheduler.terminalErr ≠ none) ∧
    ∀ before q after, s.history.committed = before ++ q :: after →
      (∃ handed ∈ s.history.handed, handed.queued ∈ after) →
      (∃ handed ∈ s.history.handed, handed.queued = q) ∨ ExpiredAtHead scheduler.config s q := by
  obtain ⟨hinv, hreported⟩ := reachable_inv hnew hrun
  have hconfig : s.scheduler.config = scheduler.config := Run.invariant
    (I := fun s' : System => s'.scheduler.config = scheduler.config)
    (fun a e b ha hstep => hstep.config_eq.trans ha) hrun rfl
  have hsub := hreported.sublist hinv
  rw [← hconfig]
  refine ⟨hsub, ?_, fun handed hhanded => hreported.inTime hhanded, ?_, ?_⟩
  · have honce := (hsub.map QueuedPacket.result).nodup hinv.once
    rwa [List.map_map] at honce
  · intro q hq
    by_cases hpending : q ∈ s.ledger.pending
    · exact .inr (.inr (.inl hpending))
    rw [hinv.issued] at hq
    obtain ⟨d, hsettled⟩ := Ledger.exists_settled hq hpending
    obtain ⟨hd, rfl⟩ := System.mem_settled.mp hsettled
    by_cases horigin : d.origin = .failQueued
    · exact .inr (.inr (.inr ⟨d, hd, rfl, horigin, hreported.failed d hd horigin⟩))
    · rcases hreported.served hd horigin with hhanded | hexpired
      · exact .inl hhanded
      · exact .inr (.inl hexpired)
  · rintro before q after hsplit ⟨handed, hhanded, hafter⟩
    obtain ⟨d, hd, rfl, horigin⟩ := hreported.passed_over hinv hsplit hhanded hafter
    exact hreported.served hd horigin

end

/-! ## One packet -/

section

def sampleProvider : PacketSecurity := ⟨[1], [1], 3, true, true, true, true, true, true, true⟩

def sampleSink : LinkSecurity := ⟨[1], [1], true, true, true, true, true⟩

def sampleScheduler : Scheduler :=
  ⟨⟨defaultPacketBytes, referenceSlotInterval, referencePollEverySlots, 1024,
    referenceSlotInterval.tdiv 4, referenceSlotInterval.tdiv 2⟩, [], 0, 0, false, none⟩

theorem sampleScheduler_new :
    newScheduler ⟨0, 0, 0, 0, 0, 0⟩ (some sampleProvider) (some sampleSink) =
      .ok sampleScheduler := by
  have hdefaults : Config.defaults ⟨0, 0, 0, 0, 0, 0⟩ = sampleScheduler.config := by decide
  simp only [newScheduler, hdefaults]
  rw [if_neg (by decide), if_neg (by decide), if_neg (by decide)]
  rfl

def sampleCommand : Command :=
  ⟨protocolVersion, base64Encode base64UrlAlphabet false (List.replicate 32 0), kindStore,
    Time.epoch, Time.epoch.add minute, [1]⟩

theorem sampleCommand_valid : validateCommand sampleCommand Time.epoch = .ok () := by decide +kernel

theorem sampleCommand_encoded : ∃ encoded, encodeCommand sampleCommand Time.epoch = .ok encoded := by
  have hok : (encodeCommand sampleCommand Time.epoch).toOption.isSome = true := by decide +kernel
  cases h : encodeCommand sampleCommand Time.epoch with
  | error e =>
    rw [h] at hok
    cases hok
  | ok encoded => exact ⟨encoded, rfl⟩

def samplePacket : Bytes := List.replicate 8192 0

def sampleQueued : QueuedPacket :=
  ⟨sampleCommand.requestID, sampleCommand.expiresAt, samplePacket, 0⟩

theorem samplePacket_size : sampleScheduler.config.validatePrepared samplePacket = .ok () := by
  have hlength : (samplePacket.length : Int) = sampleScheduler.config.packetBytes := by
    rw [samplePacket, length_replicate]
    rfl
  exact if_neg (not_not.mpr hlength)

theorem sampleQueued_prepared : prepareReal sampleScheduler.config sampleCommand Time.epoch
    (.ok samplePacket) 0 = .ok sampleQueued := by
  obtain ⟨encoded, hencoded⟩ := sampleCommand_encoded
  simp only [prepareReal, hencoded, samplePacket_size]
  rfl

/-- The time of the first slot. -/
def firstSlot : Time := Time.epoch.add referenceSlotInterval

/-- The packet is committed before `Run` starts, sent in the first slot, and then the context
    is cancelled. -/
def sampleEvents : List Event :=
  [.enqueue 0 sampleCommand Time.epoch, .prepare 0 (.ok samplePacket), .commit 0, .run Time.epoch,
    .tick firstSlot, .cover (.ok samplePacket), .slot, .send none 0, .report, .advance firstSlot,
    .cancel [], .finish, .fail, .leave]

theorem exists_run_cons {R : System → Event → System → Prop} {s t : System} {e : Event}
    {es : List Event} {P : System → Prop} (h : R s e t) (hrest : ∃ s', Run R t es s' ∧ P s') :
    ∃ s', Run R s (e :: es) s' ∧ P s' := by
  obtain ⟨s', hrun, hP⟩ := hrest
  exact ⟨s', .cons h hrun, hP⟩

theorem sampleScheduler_reserve : sampleScheduler.reserve sampleCommand Time.epoch =
    .ok { sampleScheduler with reservations := 1 } := by
  rw [Scheduler.reserve, sampleCommand_valid]
  rfl

theorem sampleQueued_step : Call.Step 0 { sampleScheduler with reservations := 1 }
    (some (.reserved sampleCommand Time.epoch)) (.prepare 0 (.ok samplePacket))
    { sampleScheduler with reservations := 1 } (.prepared sampleQueued) :=
  .prepare sampleQueued_prepared

theorem sampleTick_step : RunPhase.Step sampleScheduler.config (.waiting firstSlot)
    (.tick firstSlot) [] (.preparing firstSlot firstSlot) := .tick

theorem sampleAdvance_step : RunPhase.Step sampleScheduler.config (.dispatched firstSlot)
    (.advance firstSlot) [] (.waiting (firstSlot.add referenceSlotInterval)) := .advance

theorem sampleCover_step : RunPhase.Step sampleScheduler.config (.preparing firstSlot firstSlot)
    (.cover (.ok samplePacket)) [.prepareCover] (.covered firstSlot firstSlot samplePacket) := by
  have hstep := @RunPhase.Step.cover sampleScheduler.config firstSlot firstSlot (.ok samplePacket)
  simpa only [afterCover, samplePacket_size] using hstep

theorem sampleEvents_run : ∃ s, Run Step (System.initial sampleScheduler) sampleEvents s ∧
    s.calls 0 = some (.returned (.ok 0)) ∧ s.run = .returned (.outside []) ∧
    s.history.handed = [⟨sampleQueued, samplePacket, 1, firstSlot, none⟩] := by
  refine exists_run_cons (.call (.reserve sampleScheduler_reserve)) ?_
  refine exists_run_cons (.call sampleQueued_step) ?_
  refine exists_run_cons (.commit rfl rfl) ?_
  refine exists_run_cons (.run rfl) ?_
  refine exists_run_cons (.phase sampleTick_step) ?_
  refine exists_run_cons (.phase sampleCover_step) ?_
  refine exists_run_cons (.slot rfl) ?_
  refine exists_run_cons (.send rfl) ?_
  refine exists_run_cons (.report rfl) ?_
  refine exists_run_cons (.phase sampleAdvance_step) ?_
  refine exists_run_cons (.phase .cancel) ?_
  refine exists_run_cons (.finish rfl) ?_
  refine exists_run_cons (.fail rfl) ?_
  refine exists_run_cons (.leave rfl) ?_
  exact ⟨_, .nil _, rfl, rfl, rfl⟩

/-- The packet of the sample reaches the sink as committed, in a slot before its end. -/
theorem real_packets_in_order_sample : ∃ s,
    Run Step (System.initial sampleScheduler) sampleEvents s ∧
    s.history.handed = [⟨sampleQueued, samplePacket, 1, firstSlot, none⟩] ∧
    [sampleQueued].Sublist s.history.committed := by
  obtain ⟨s, hrun, -, -, hhanded⟩ := sampleEvents_run
  obtain ⟨hsub, -⟩ := real_packets_in_order sampleScheduler_new hrun
  refine ⟨s, hrun, hhanded, ?_⟩
  rw [hhanded] at hsub
  exact hsub

end

end Veilmesh.Mix

/-
  What an observer of the scheduler sees.

  `Shape` is the scheduler without the queue: a deterministic machine that knows the number of
  the slot, how far the slot is and what was observed. Given the times of the slots and whether
  the provider and the sink succeed in them (a `Tape`), every step of the system keeps its shape
  or moves it on by one step of that machine, whatever is enqueued.

  * `Shape.next_well`: each completed slot is one cover packet prepared, a poll in every
    `PollEverySlots`-th slot, and one packet of `PacketBytes` sent.
  * `step_shape`: the system refines the machine.
  * `traffic_shape_noninterference`: two runs on one tape look the same.
-/
import Veilmesh.Mix.Tickets

namespace Veilmesh.Mix

open Lib List

/-! ## The machine -/

/-- What the clock, the provider and the sink do in a slot. Without a time to wake up the
    context is cancelled before the slot. -/
structure SlotTape where
  wake : Option Time
  cover : Bool
  poll : Bool
  send : Bool
  elapsed : Duration
  done : Time

structure Tape where
  start : Time
  slot : Nat → SlotTape

/-- How far a slot is. -/
inductive ShapePhase where
  | idle
  | waiting (next : Time)
  | preparing (next now : Time)
  | covered (next now : Time)
  | polling (next now : Time)
  | sending (next now : Time)
  | reporting (next : Time) (ok : Bool)
  | dispatched (next : Time)
  | ended
  deriving DecidableEq

structure Shape where
  phase : ShapePhase
  slots : UInt64
  completed : Nat
  trace : List Observation

namespace Shape

/-- One step of `Run`. -/
def next (config : Config) (tape : Tape) (shape : Shape) : Shape :=
  match shape.phase with
  | .idle => { shape with phase := .waiting (tape.start.add config.slotInterval) }
  | .waiting next =>
    { shape with
      phase := match (tape.slot (shape.completed + 1)).wake with
        | none => .ended
        | some now => if now.sub next > config.maxLateness then .ended else .preparing next now }
  | .preparing next now =>
    { shape with
      phase := if (tape.slot (shape.completed + 1)).cover = true then .covered next now else .ended
      trace := shape.trace ++ [.prepareCover] }
  | .covered next now =>
    { shape with
      phase := if (shape.slots + 1) % config.pollEverySlots = 0 then .polling next now
        else .sending next now
      slots := shape.slots + 1 }
  | .polling next now =>
    { shape with
      phase := if (tape.slot (shape.completed + 1)).poll = true then .sending next now else .ended
      trace := shape.trace ++ [.preparePoll] }
  | .sending next _ =>
    { shape with
      phase := .reporting next ((tape.slot (shape.completed + 1)).send &&
        !decide ((tape.slot (shape.completed + 1)).elapsed > config.dispatchBudget))
      trace := shape.trace ++ [.send config.packetBytes.toNat] }
  | .reporting next true => { shape with
      phase := .dispatched next
      completed := shape.completed + 1 }
  | .reporting _ false => { shape with phase := .ended }
  | .dispatched next =>
    { shape with
      phase := if (next.add config.slotInterval).sub (tape.slot shape.completed).done ≤ 0 then .ended
        else .waiting (next.add config.slotInterval) }
  | .ended => shape

end Shape

/-! ## The trace of the machine -/

/-- What is seen in a slot with this number. -/
def slotTrace (config : Config) (number : UInt64) : List Observation :=
  .prepareCover :: ((if number % config.pollEverySlots = 0 then [.preparePoll] else []) ++
    [.send config.packetBytes.toNat])

/-- What is seen in the first `n` slots. -/
def slotsTrace (config : Config) (n : Nat) : List Observation :=
  (List.range n).flatMap fun k => slotTrace config (UInt64.ofNat (k + 1))

theorem slotsTrace_succ (config : Config) (n : Nat) :
    slotsTrace config (n + 1) = slotsTrace config n ++ slotTrace config (UInt64.ofNat (n + 1)) := by
  simp [slotsTrace, range_succ]

/-- What was seen of the current slot, and the number of the last slot that was opened. -/
def ShapePhase.Well (config : Config) (phase : ShapePhase) (slots : UInt64) (completed : Nat)
    (current : List Observation) : Prop :=
  match phase with
  | .idle => slots = UInt64.ofNat completed ∧ current = []
  | .waiting _ => slots = UInt64.ofNat completed ∧ current = []
  | .preparing _ _ => slots = UInt64.ofNat completed ∧ current = []
  | .dispatched _ => slots = UInt64.ofNat completed ∧ current = []
  | .covered _ _ => slots = UInt64.ofNat completed ∧ current = [.prepareCover]
  | .polling _ _ => slots = UInt64.ofNat (completed + 1) ∧ slots % config.pollEverySlots = 0 ∧
      current = [.prepareCover]
  | .sending _ _ => slots = UInt64.ofNat (completed + 1) ∧
      current ++ [.send config.packetBytes.toNat] = slotTrace config slots
  | .reporting _ _ => slots = UInt64.ofNat (completed + 1) ∧ current = slotTrace config slots
  | .ended => current <+: slotTrace config (UInt64.ofNat (completed + 1))

/-- The trace is that of the completed slots and of the current one. -/
def Shape.Well (config : Config) (shape : Shape) : Prop :=
  ∃ current, shape.trace = slotsTrace config shape.completed ++ current ∧
    shape.phase.Well config shape.slots shape.completed current

theorem ofNat_succ (n : Nat) : UInt64.ofNat n + 1 = UInt64.ofNat (n + 1) := by
  rw [UInt64.ofNat_add]
  rfl

variable {config : Config} {tape : Tape}

/-- A step of the machine keeps the trace regular. -/
theorem Shape.next_well {shape : Shape} (h : shape.Well config) :
    (shape.next config tape).Well config := by
  obtain ⟨current, htrace, hphase⟩ := h
  obtain ⟨phase, slots, completed, trace⟩ := shape
  simp only at htrace hphase
  have happend : ∀ o, trace ++ [o] = slotsTrace config completed ++ (current ++ [o]) := by
    intro o
    rw [htrace, append_assoc]
  have hcover : [.prepareCover] <+: slotTrace config (UInt64.ofNat (completed + 1)) :=
    prefix_append [_] _
  cases phase with
  | idle => exact ⟨current, htrace, hphase⟩
  | waiting next =>
    obtain ⟨hslots, rfl⟩ := hphase
    refine ⟨[], htrace, ?_⟩
    simp only [Shape.next]
    split
    · exact nil_prefix
    · split
      · exact nil_prefix
      · exact ⟨hslots, rfl⟩
  | preparing next now =>
    obtain ⟨hslots, rfl⟩ := hphase
    refine ⟨[.prepareCover], happend _, ?_⟩
    simp only [Shape.next]
    split
    · exact ⟨hslots, rfl⟩
    · exact hcover
  | covered next now =>
    obtain ⟨rfl, rfl⟩ := hphase
    refine ⟨[.prepareCover], htrace, ?_⟩
    simp only [Shape.next, ofNat_succ]
    split
    · exact ⟨rfl, by assumption, rfl⟩
    · refine ⟨rfl, ?_⟩
      rw [slotTrace, if_neg (by assumption)]
      rfl
  | polling next now =>
    obtain ⟨rfl, hpoll, rfl⟩ := hphase
    have htail : [.prepareCover, .preparePoll] ++ [.send config.packetBytes.toNat] =
        slotTrace config (UInt64.ofNat (completed + 1)) := by
      rw [slotTrace, if_pos hpoll]
      rfl
    refine ⟨[.prepareCover, .preparePoll], happend _, ?_⟩
    simp only [Shape.next]
    split
    · exact ⟨rfl, htail⟩
    · exact ⟨_, htail⟩
  | sending next now =>
    obtain ⟨rfl, htail⟩ := hphase
    exact ⟨_, happend _, rfl, htail⟩
  | reporting next ok =>
    obtain ⟨rfl, rfl⟩ := hphase
    cases ok with
    | true =>
      refine ⟨[], ?_, rfl, rfl⟩
      rw [append_nil]
      exact htrace.trans (slotsTrace_succ config completed).symm
    | false => exact ⟨_, htrace, prefix_refl _⟩
  | dispatched next =>
    obtain ⟨hslots, rfl⟩ := hphase
    refine ⟨[], htrace, ?_⟩
    simp only [Shape.next]
    split
    · exact nil_prefix
    · exact ⟨hslots, rfl⟩
  | ended => exact ⟨current, htrace, hphase⟩

/-- The trace only grows. -/
theorem Shape.next_trace (config : Config) (tape : Tape) (shape : Shape) :
    shape.trace <+: (shape.next config tape).trace := by
  unfold Shape.next
  split
  case h_3 => exact prefix_append _ _
  case h_5 => exact prefix_append _ _
  case h_6 => exact prefix_append _ _
  all_goals exact prefix_refl _

theorem Shape.iterate_trace (shape : Shape) {j k : Nat} (h : j ≤ k) :
    ((Shape.next config tape)^[j] shape).trace <+: ((Shape.next config tape)^[k] shape).trace := by
  induction k, h using Nat.le_induction with
  | base => exact prefix_refl _
  | succ k _ ih =>
    rw [Function.iterate_succ_apply']
    exact ih.trans (Shape.next_trace config tape _)

/-- The machine rests once it has ended. -/
theorem Shape.iterate_ended {shape : Shape} {j k : Nat} (h : j ≤ k)
    (hended : ((Shape.next config tape)^[j] shape).phase = .ended) :
    (Shape.next config tape)^[k] shape = (Shape.next config tape)^[j] shape := by
  induction k, h using Nat.le_induction with
  | base => rfl
  | succ k _ ih =>
    rw [Function.iterate_succ_apply', ih, Shape.next, hended]

/-! ## The system refines the machine -/

def RunPhase.shape : RunPhase → ShapePhase
  | .idle => .idle
  | .waiting next => .waiting next
  | .preparing next now => .preparing next now
  | .covered next now _ => .covered next now
  | .polling next now _ => .polling next now
  | .sending next now _ _ _ => .sending next now
  | .reporting next _ _ _ _ _ err => .reporting next err.isNone
  | .dispatched next => .dispatched next
  | .ending _ => .ended
  | .failing _ => .ended
  | .draining _ _ => .ended
  | .returned _ => .ended
  | .blocked => .ended

def System.shape (s : System) : Shape :=
  ⟨s.run.shape, s.scheduler.slots, s.history.completed, s.history.trace⟩

/-- Whether the answer of the provider is a packet of the right size. -/
def Config.accepts (config : Config) : Except Bytes Bytes → Bool
  | .error _ => false
  | .ok packet => decide ((packet.length : Int) = config.packetBytes)

/-- The answers in an event are those of the tape. -/
def Tape.Gives (tape : Tape) (s : System) : Event → Prop
  | .run now => s.run = .idle → now = tape.start
  | .cancel _ => (tape.slot (s.history.completed + 1)).wake = none
  | .tick now => (tape.slot (s.history.completed + 1)).wake = some now
  | .cover answer => s.scheduler.config.accepts answer = (tape.slot (s.history.completed + 1)).cover
  | .poll answer => s.scheduler.config.accepts answer = (tape.slot (s.history.completed + 1)).poll
  | .send answer elapsed => answer.isNone = (tape.slot (s.history.completed + 1)).send ∧
      elapsed = (tape.slot (s.history.completed + 1)).elapsed
  | .advance now => now = (tape.slot s.history.completed).done
  | _ => True

/-- A step in which the clock, the provider and the sink follow the tape. -/
def TapeStep (tape : Tape) (s : System) (e : Event) (s' : System) : Prop :=
  Step s e s' ∧ tape.Gives s e

/-! ### Sizes -/

theorem Config.validatePrepared_iff {packet : Bytes} :
    config.validatePrepared packet = .ok () ↔ (packet.length : Int) = config.packetBytes := by
  unfold Config.validatePrepared
  split
  · rename_i h
    exact ⟨nofun, fun heq => absurd heq h⟩
  · rename_i h
    exact ⟨fun _ => not_not.mp h, fun _ => rfl⟩

/-- The packet `Run` holds has the fixed size. -/
def RunPhase.Sized (config : Config) : RunPhase → Prop
  | .covered _ _ cover => (cover.length : Int) = config.packetBytes
  | .sending _ _ _ packet _ => (packet.length : Int) = config.packetBytes
  | _ => True

/-- All packets have the fixed size. -/
structure Sized (s : System) : Prop where
  prepared : ∀ i q, s.calls i = some (.prepared q) →
    (q.packet.length : Int) = s.scheduler.config.packetBytes
  queue : ∀ q ∈ s.scheduler.queue, (q.packet.length : Int) = s.scheduler.config.packetBytes
  phase : s.run.Sized s.scheduler.config

theorem RunPhase.Step.sized {p p' : RunPhase} {e : Event} {seen : List Observation}
    (h : RunPhase.Step config p e seen p') : p'.Sized config := by
  cases h with
  | cancel => exact trivial
  | tick =>
    unfold afterTick
    split <;> exact trivial
  | cover =>
    unfold afterCover
    split
    · exact trivial
    · split
      · exact trivial
      · exact Config.validatePrepared_iff.mp ‹_›
  | poll =>
    unfold afterPoll
    split
    · exact trivial
    · split
      · exact trivial
      · exact Config.validatePrepared_iff.mp ‹_›
  | advance =>
    unfold afterSlot
    split <;> exact trivial

theorem afterReport_sized (config : Config) (next : Time) (err : Option MixError) :
    (afterReport next err).Sized config := by
  cases err <;> exact trivial

namespace Sized

variable {s s' : System} {e : Event}

theorem deliver (h : Sized s) {phase : RunPhase} (hphase : phase.Sized s.scheduler.config)
    (d : Delivery) : Sized (s.deliver d phase) := by
  unfold System.deliver
  split
  · exact ⟨h.prepared, h.queue, trivial⟩
  · exact ⟨h.prepared, h.queue, hphase⟩

theorem slot (h : Sized s) {next now : Time} {cover : Bytes}
    (hrun : s.run = .covered next now cover) : Sized (s.openSlot next now cover) := by
  have hcover : (cover.length : Int) = s.scheduler.config.packetBytes := by
    have hphase := h.phase
    rwa [hrun] at hphase
  rcases s.openSlot_cases next now cover with
    ⟨-, heq⟩ | ⟨-, -, heq⟩ | ⟨q, queue, -, hqueue, hcase⟩
  · rw [heq]
    exact ⟨h.prepared, h.queue, trivial⟩
  · rw [heq]
    exact ⟨h.prepared, h.queue, hcover⟩
  have hhead := h.queue q (hqueue ▸ mem_cons_self)
  have hrest : ∀ q' ∈ queue, (q'.packet.length : Int) = s.scheduler.config.packetBytes :=
    fun q' hq' => h.queue q' (hqueue ▸ mem_cons_of_mem _ hq')
  rcases hcase with ⟨-, heq⟩ | ⟨-, heq⟩
  · rw [heq]
    exact ⟨h.prepared, hrest, hhead⟩
  · have hnext : Sized { s with
        scheduler := { s.scheduler with slots := s.scheduler.slots + 1, queue := queue } } :=
      ⟨h.prepared, hrest, h.phase⟩
    rw [heq]
    refine hnext.deliver ?_ _
    exact hcover

/-- Every step keeps the sizes. -/
theorem step (h : Sized s) (hstep : Step s e s') : Sized s' := by
  cases hstep with
  | call hcall =>
    obtain ⟨-, -, hprepared⟩ := hcall.no_ticket
    obtain ⟨reservations, rfl, -⟩ := hcall.scheduler_eq
    refine ⟨fun i q hi => ?_, h.queue, h.phase⟩
    rcases update_eq_some hi with ⟨-, heq⟩ | hi
    · exact (hprepared q heq.symm).2
    · exact h.prepared i q hi
  | commit hcall hcommit =>
    obtain ⟨-, rfl⟩ := Scheduler.commit_ok hcommit
    refine ⟨fun i q hi => ?_, fun q hq => ?_, h.phase⟩
    · rcases update_eq_some hi with ⟨-, heq⟩ | hi
      · cases heq
      · exact h.prepared i q hi
    · rcases mem_append.mp hq with hq | hq
      · exact h.queue q hq
      · obtain rfl := mem_singleton.mp hq
        exact h.prepared _ _ hcall
  | wait => exact ⟨h.prepared, h.queue, h.phase⟩
  | runRefused => exact h
  | run hstart =>
    obtain ⟨-, -, rfl⟩ := Scheduler.start_ok hstart
    exact ⟨h.prepared, h.queue, trivial⟩
  | phase hphase => exact ⟨h.prepared, h.queue, hphase.sized⟩
  | slot hrun => exact h.slot hrun
  | send => exact ⟨h.prepared, h.queue, trivial⟩
  | report =>
    rename_i queued _ err _
    have hnext : Sized (s.complete err) := ⟨h.prepared, h.queue, h.phase⟩
    cases queued with
    | none => exact ⟨h.prepared, h.queue, afterReport_sized _ _ _⟩
    | some q => exact hnext.deliver (afterReport_sized _ _ _) _
  | finish => exact ⟨h.prepared, h.queue, trivial⟩
  | fail => exact ⟨h.prepared, nofun, trivial⟩
  | drain =>
    refine h.deliver ?_ _
    exact trivial
  | leave => exact ⟨h.prepared, h.queue, trivial⟩

end Sized

/-! ### Steps -/

theorem Config.accepts_ok {packet : Bytes} :
    config.accepts (.ok packet) = true ↔ config.validatePrepared packet = .ok () := by
  rw [Config.validatePrepared_iff]
  exact decide_eq_true_iff

theorem afterCover_shape (config : Config) (next now : Time) (answer : Except Bytes Bytes) :
    (afterCover config next now answer).shape =
      if config.accepts answer = true then .covered next now else .ended := by
  cases answer with
  | error text => rfl
  | ok cover =>
    cases h : config.validatePrepared cover with
    | error e =>
      have hnot : ¬config.accepts (.ok cover) = true := by
        rw [Config.accepts_ok, h]
        nofun
      rw [if_neg hnot]
      simp only [afterCover, h]
      rfl
    | ok _ =>
      rw [if_pos (Config.accepts_ok.mpr h)]
      simp only [afterCover, h]
      rfl

theorem afterPoll_shape (config : Config) (next now : Time) (number : UInt64)
    (answer : Except Bytes Bytes) : (afterPoll config next now number answer).shape =
      if config.accepts answer = true then .sending next now else .ended := by
  cases answer with
  | error text => rfl
  | ok poll =>
    cases h : config.validatePrepared poll with
    | error e =>
      have hnot : ¬config.accepts (.ok poll) = true := by
        rw [Config.accepts_ok, h]
        nofun
      rw [if_neg hnot]
      simp only [afterPoll, h]
      rfl
    | ok _ =>
      rw [if_pos (Config.accepts_ok.mpr h)]
      simp only [afterPoll, h]
      rfl

theorem sendErr_isNone (config : Config) (answer : Option Bytes) (elapsed : Duration) :
    (config.sendErr answer elapsed).isNone =
      (answer.isNone && !decide (elapsed > config.dispatchBudget)) := by
  cases answer with
  | some text => rfl
  | none =>
    unfold Config.sendErr
    by_cases h : elapsed > config.dispatchBudget <;> simp [h]

section

variable {s s' : System} {e : Event} {tape : Tape}

theorem deliver_shape {d : Delivery} (hfree : s.channels d.queued.result = none)
    (phase : RunPhase) : (s.deliver d phase).shape =
      ⟨phase.shape, s.scheduler.slots, s.history.completed, s.history.trace⟩ := by
  rw [System.deliver_eq hfree]
  rfl

/-- The steps of `Run` outside the mutex. -/
theorem phase_shape {seen : List Observation} {phase : RunPhase}
    (hphase : RunPhase.Step s.scheduler.config s.run e seen phase) (hgives : tape.Gives s e) :
    System.shape { s with
      run := phase
      history := { s.history with trace := s.history.trace ++ seen } } =
        s.shape.next s.scheduler.config tape := by
  generalize hrun : s.run = p at hphase
  cases hphase with
  | cancel =>
    have hwake : (tape.slot (s.history.completed + 1)).wake = none := hgives
    simp only [Shape.next, System.shape, hrun, RunPhase.shape, hwake, append_nil]
  | tick =>
    rename_i next now
    have hwake : (tape.slot (s.history.completed + 1)).wake = some now := hgives
    have hphase : (afterTick s.scheduler.config next now).shape =
        if now.sub next > s.scheduler.config.maxLateness then .ended else .preparing next now := by
      unfold afterTick
      split <;> rfl
    have hshape : s.run.shape = .waiting next := by rw [hrun]; rfl
    simp only [Shape.next, System.shape, hshape, hwake, hphase, append_nil]
  | cover =>
    rename_i next now answer
    have hcover : s.scheduler.config.accepts answer = (tape.slot (s.history.completed + 1)).cover :=
      hgives
    have hshape : s.run.shape = .preparing next now := by rw [hrun]; rfl
    simp only [Shape.next, System.shape, hshape, afterCover_shape, hcover]
  | poll =>
    rename_i next now number answer
    have hpoll : s.scheduler.config.accepts answer = (tape.slot (s.history.completed + 1)).poll :=
      hgives
    have hshape : s.run.shape = .polling next now := by rw [hrun]; rfl
    simp only [Shape.next, System.shape, hshape, afterPoll_shape, hpoll]
  | advance =>
    rename_i next now
    obtain rfl : now = (tape.slot s.history.completed).done := hgives
    have hphase : ∀ now, (afterSlot s.scheduler.config next now).shape =
        if (next.add s.scheduler.config.slotInterval).sub now ≤ 0 then .ended
        else .waiting (next.add s.scheduler.config.slotInterval) := by
      intro now
      unfold afterSlot
      split <;> rfl
    have hshape : s.run.shape = .dispatched next := by rw [hrun]; rfl
    simp only [Shape.next, System.shape, hshape, hphase, append_nil]

/-- The lock region of a slot. -/
theorem slot_shape (hinv : Inv s) {next now : Time} {cover : Bytes}
    (hrun : s.run = .covered next now cover) :
    (s.openSlot next now cover).shape = s.shape.next s.scheduler.config tape := by
  rcases s.openSlot_cases next now cover with
    ⟨hpoll, heq⟩ | ⟨hpoll, -, heq⟩ | ⟨q, queue, hpoll, hqueue, ⟨-, heq⟩ | ⟨-, heq⟩⟩
  · rw [heq]
    simp only [Shape.next, System.shape, hrun, RunPhase.shape, if_pos hpoll]
  · rw [heq]
    simp only [Shape.next, System.shape, hrun, RunPhase.shape, if_neg hpoll]
  · rw [heq]
    simp only [Shape.next, System.shape, hrun, RunPhase.shape, if_neg hpoll]
  · have hpending : q ∈ s.ledger.pending := by
      rw [System.ledger, hqueue]
      exact mem_append_right _ mem_cons_self
    rw [heq]
    refine (deliver_shape ?_ _).trans ?_
    · exact hinv.channel_free hpending
    · simp only [Shape.next, System.shape, hrun, RunPhase.shape, if_neg hpoll]

/-- The end of a slot. -/
theorem report_shape (hinv : Inv s) {next now : Time} {number : UInt64} {packet : Bytes}
    {queued : Option QueuedPacket} {answer : Option Bytes} {err : Option MixError}
    (hrun : s.run = .reporting next now number packet queued answer err) :
    (s.report next now number packet queued answer err).shape =
      s.shape.next s.scheduler.config tape := by
  have hshape : (⟨(afterReport next err).shape, s.scheduler.slots,
      (s.complete err).history.completed, s.history.trace⟩ : Shape) =
        s.shape.next s.scheduler.config tape := by
    cases err <;> simp [Shape.next, System.shape, hrun, RunPhase.shape, afterReport, System.complete]
  cases queued with
  | none => exact hshape
  | some q =>
    have hpending : q ∈ s.ledger.pending := by
      rw [System.ledger, hrun]
      exact mem_append_left _ (mem_singleton_self q)
    refine (deliver_shape ?_ _).trans hshape
    exact hinv.channel_free hpending

/-- Every step keeps the shape or moves it on. -/
theorem step_shape (hinv : Inv s) (hsized : Sized s) (h : TapeStep tape s e s') :
    s'.shape = s.shape ∨ s'.shape = s.shape.next s.scheduler.config tape := by
  obtain ⟨hstep, hgives⟩ := h
  cases hstep with
  | call hcall =>
    obtain ⟨reservations, rfl, -⟩ := hcall.scheduler_eq
    exact .inl rfl
  | commit _ hcommit =>
    obtain ⟨-, rfl⟩ := Scheduler.commit_ok hcommit
    exact .inl rfl
  | wait => exact .inl rfl
  | runRefused => exact .inl rfl
  | run hstart =>
    obtain ⟨hrunning, hterminal, rfl⟩ := Scheduler.start_ok hstart
    have hidle := RunPhase.idle_of (hinv.running.symm.trans hrunning)
      (hinv.terminal.symm.trans hterminal)
    obtain rfl := hgives hidle
    refine .inr ?_
    simp only [Shape.next, System.shape, hidle, RunPhase.shape]
  | phase hphase => exact .inr (phase_shape hphase hgives)
  | slot hrun => exact .inr (slot_shape hinv hrun)
  | send hrun =>
    obtain ⟨hanswer, rfl⟩ := hgives
    rename_i packet _ answer
    have hsize : (packet.length : Int) = s.scheduler.config.packetBytes := by
      have hphase := hsized.phase
      rwa [hrun] at hphase
    refine .inr ?_
    simp only [Shape.next, System.shape, System.send, hrun, RunPhase.shape, sendErr_isNone, hanswer,
      ← hsize, Int.toNat_natCast]
  | report hrun => exact .inr (report_shape hinv hrun)
  | finish hrun =>
    refine .inl ?_
    simp only [System.shape, hrun, RunPhase.shape, Scheduler.finish]
  | fail hrun =>
    refine .inl ?_
    simp only [System.shape, hrun, RunPhase.shape, Scheduler.takeQueue]
  | drain hrun =>
    rename_i runErr queued rest
    have hpending : queued ∈ s.ledger.pending := by
      rw [System.ledger, hrun]
      exact mem_append_left _ mem_cons_self
    refine .inl ?_
    rw [deliver_shape (hinv.channel_free hpending), System.shape, hrun]
    rfl
  | leave hrun =>
    refine .inl ?_
    simp only [System.shape, hrun, RunPhase.shape]

end

/-! ## Two runs -/

section

variable {config : Config} {provider : Option PacketSecurity} {sink : Option LinkSecurity}
  {scheduler : Scheduler} {tape : Tape} {es es' : List Event} {s s' : System}

/-- The machine before `Run`. -/
def Shape.initial : Shape := ⟨.idle, 0, 0, []⟩

/-- A run on a tape has the shape of the machine after some steps. -/
theorem tape_run_shape (hnew : newScheduler config provider sink = .ok scheduler)
    (h : Run (TapeStep tape) (System.initial scheduler) es s) :
    ∃ k, s.shape = (Shape.next scheduler.config tape)^[k] Shape.initial := by
  obtain ⟨rfl, -⟩ := newScheduler_ok hnew
  refine Run.stutter
    (I := fun s => Inv s ∧ Sized s ∧ s.scheduler.config = config.defaults) ?_ ?_ h
    ⟨Inv.initial rfl rfl rfl, ⟨nofun, nofun, trivial⟩, rfl⟩
  · rintro a e b ⟨hinv, hsized, hconfig⟩ ⟨hstep, -⟩
    exact ⟨hinv.step hstep, hsized.step hstep, hstep.config_eq.trans hconfig⟩
  · rintro a e b ⟨hinv, hsized, hconfig⟩ hstep
    rw [← hconfig]
    exact step_shape hinv hsized hstep

theorem Shape.iterate_well (config : Config) (tape : Tape) (k : Nat) :
    ((Shape.next config tape)^[k] Shape.initial).Well config := by
  induction k with
  | zero => exact ⟨[], rfl, rfl, rfl⟩
  | succ k ih =>
    rw [Function.iterate_succ_apply']
    exact Shape.next_well ih

/-- What was seen of the current slot is the beginning of what a slot shows. -/
theorem ShapePhase.Well.current {config : Config} {phase : ShapePhase} {slots : UInt64}
    {completed : Nat} {current : List Observation} (h : phase.Well config slots completed current) :
    current <+: slotTrace config (UInt64.ofNat (completed + 1)) := by
  have hcover : ∀ number, [.prepareCover] <+: slotTrace config number :=
    fun number => prefix_append [_] _
  cases phase with
  | covered => exact h.2 ▸ hcover _
  | polling => exact h.2.2 ▸ hcover _
  | sending =>
    obtain ⟨rfl, htail⟩ := h
    exact ⟨_, htail⟩
  | reporting =>
    obtain ⟨rfl, rfl⟩ := h
    exact prefix_refl _
  | ended => exact h
  | _ => exact h.2 ▸ nil_prefix

/-- Traffic does not depend on what is enqueued. Two runs on one tape show the same, as far as
    both have come; once both have ended they ended in the same slot with the same trace, and no
    run goes on where another has ended. What is seen are the completed slots, each with one
    cover packet prepared, a poll exactly if `PollEverySlots` divides its number (as the counter
    counts it) and one packet of `PacketBytes` sent, and the beginning of one more slot. -/
theorem traffic_shape_noninterference (hnew : newScheduler config provider sink = .ok scheduler)
    (h : Run (TapeStep tape) (System.initial scheduler) es s)
    (h' : Run (TapeStep tape) (System.initial scheduler) es' s') :
    (s.history.trace <+: s'.history.trace ∨ s'.history.trace <+: s.history.trace) ∧
    (s.run.shape = .ended → s'.history.trace <+: s.history.trace) ∧
    (s.run.shape = .ended → s'.run.shape = .ended →
      s.history.trace = s'.history.trace ∧ s.history.completed = s'.history.completed) ∧
    ∃ current, s.history.trace = slotsTrace scheduler.config s.history.completed ++ current ∧
      current <+: slotTrace scheduler.config (UInt64.ofNat (s.history.completed + 1)) := by
  obtain ⟨k, hk⟩ := tape_run_shape hnew h
  obtain ⟨k', hk'⟩ := tape_run_shape hnew h'
  have htrace : s.history.trace =
      ((Shape.next scheduler.config tape)^[k] Shape.initial).trace := congrArg Shape.trace hk
  have htrace' : s'.history.trace =
      ((Shape.next scheduler.config tape)^[k'] Shape.initial).trace := congrArg Shape.trace hk'
  have hended : s.run.shape = .ended → k ≤ k' → s'.shape = s.shape := by
    intro hend hle
    have hphase := (congrArg Shape.phase hk).symm.trans hend
    rw [hk, hk', Shape.iterate_ended hle hphase]
  have hended' : s'.run.shape = .ended → k' ≤ k → s'.shape = s.shape := by
    intro hend hle
    have hphase := (congrArg Shape.phase hk').symm.trans hend
    rw [hk, hk', Shape.iterate_ended hle hphase]
  refine ⟨?_, fun hend => ?_, fun hend hend' => ?_, ?_⟩
  · rw [htrace, htrace']
    rcases Nat.le_total k k' with hle | hle
    · exact .inl (Shape.iterate_trace _ hle)
    · exact .inr (Shape.iterate_trace _ hle)
  · rcases Nat.le_total k k' with hle | hle
    · have heq : s'.history.trace = s.history.trace := congrArg Shape.trace (hended hend hle)
      rw [heq]
    · rw [htrace, htrace']
      exact Shape.iterate_trace _ hle
  · have heq : s'.shape = s.shape := (Nat.le_total k k').elim (hended hend) (hended' hend')
    exact ⟨(congrArg Shape.trace heq).symm, (congrArg Shape.completed heq).symm⟩
  · have hwell := Shape.iterate_well scheduler.config tape k
    rw [← hk] at hwell
    obtain ⟨current, hcurrent, hphase⟩ := hwell
    exact ⟨current, hcurrent, hphase.current⟩

end

/-! ## A busy and an idle run -/

section

/-- One slot in which everything succeeds, and then the context is cancelled. -/
def sampleTape : Tape :=
  ⟨Time.epoch, fun n => ⟨if n = 1 then some firstSlot else none, true, true, true, 0, firstSlot⟩⟩

/-- The same slot without a command. -/
def idleEvents : List Event :=
  [.run Time.epoch, .tick firstSlot, .cover (.ok samplePacket), .slot, .send none 0, .report,
    .advance firstSlot, .cancel []]

theorem samplePacket_accepted : sampleScheduler.config.accepts (.ok samplePacket) = true :=
  Config.accepts_ok.mpr samplePacket_size

theorem idleEvents_run : ∃ s, Run (TapeStep sampleTape) (System.initial sampleScheduler)
    idleEvents s ∧ s.run.shape = .ended := by
  refine exists_run_cons ⟨.run rfl, fun _ => rfl⟩ ?_
  refine exists_run_cons ⟨.phase sampleTick_step, rfl⟩ ?_
  refine exists_run_cons ⟨.phase sampleCover_step, samplePacket_accepted⟩ ?_
  refine exists_run_cons ⟨.slot rfl, trivial⟩ ?_
  refine exists_run_cons ⟨.send rfl, rfl, rfl⟩ ?_
  refine exists_run_cons ⟨.report rfl, trivial⟩ ?_
  refine exists_run_cons ⟨.phase sampleAdvance_step, rfl⟩ ?_
  refine exists_run_cons ⟨.phase .cancel, rfl⟩ ?_
  exact ⟨_, .nil _, rfl⟩

/-- The same slot with a command in the queue. -/
def busyEvents : List Event :=
  .enqueue 0 sampleCommand Time.epoch :: .prepare 0 (.ok samplePacket) :: .commit 0 :: idleEvents

theorem busyEvents_run : ∃ s, Run (TapeStep sampleTape) (System.initial sampleScheduler)
    busyEvents s ∧ s.run.shape = .ended := by
  refine exists_run_cons ⟨.call (.reserve sampleScheduler_reserve), trivial⟩ ?_
  refine exists_run_cons ⟨.call sampleQueued_step, trivial⟩ ?_
  refine exists_run_cons ⟨.commit rfl rfl, trivial⟩ ?_
  refine exists_run_cons ⟨.run rfl, fun _ => rfl⟩ ?_
  refine exists_run_cons ⟨.phase sampleTick_step, rfl⟩ ?_
  refine exists_run_cons ⟨.phase sampleCover_step, samplePacket_accepted⟩ ?_
  refine exists_run_cons ⟨.slot rfl, trivial⟩ ?_
  refine exists_run_cons ⟨.send rfl, rfl, rfl⟩ ?_
  refine exists_run_cons ⟨.report rfl, trivial⟩ ?_
  refine exists_run_cons ⟨.phase sampleAdvance_step, rfl⟩ ?_
  refine exists_run_cons ⟨.phase .cancel, rfl⟩ ?_
  exact ⟨_, .nil _, rfl⟩

/-- A run with a command and a run without one look the same. -/
theorem traffic_shape_noninterference_sample : ∃ s s',
    Run (TapeStep sampleTape) (System.initial sampleScheduler) busyEvents s ∧
    Run (TapeStep sampleTape) (System.initial sampleScheduler) idleEvents s' ∧
    s.history.trace = s'.history.trace ∧ s.history.completed = s'.history.completed := by
  obtain ⟨s, hbusy, hend⟩ := busyEvents_run
  obtain ⟨s', hidle, hend'⟩ := idleEvents_run
  obtain ⟨-, -, hequal, -⟩ := traffic_shape_noninterference sampleScheduler_new hbusy hidle
  exact ⟨s, s', hbusy, hidle, hequal hend hend'⟩

end

end Veilmesh.Mix

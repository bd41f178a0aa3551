/-
  The scheduler with everything that runs on it: any number of `Enqueue` calls and `Ticket.Wait`
  calls, and `Run`.

  A state holds the scheduler, how far each call has come, the channels of the tickets and what
  has happened so far. A step is one stretch of one goroutine: a lock region, or the work
  between two of them with the answer of the clock, the provider or the sink. A send on a full
  channel would block, which is a state of its own here.
-/
import Mathlib.Logic.Function.Basic
import Veilmesh.Lib.Run
import Veilmesh.Mix.Scheduler

namespace Veilmesh.Mix

open Lib

/-! ## States -/

/-- How far a call of `Enqueue` has come. Its channel carries the number of the call. -/
inductive Call where
  | reserved (command : Command) (now : Time)
  | failing (e : MixError)
  | prepared (queued : QueuedPacket)
  | returned (outcome : Except MixError Nat)

/-- How far `Run` has come. `next` is the time of the current slot, `now` the reading of the
    clock when the slot began. -/
inductive RunPhase where
  | idle
  | waiting (next : Time)
  | preparing (next now : Time)
  | covered (next now : Time) (cover : Bytes)
  | polling (next now : Time) (number : UInt64)
  | sending (next now : Time) (number : UInt64) (packet : Bytes) (queued : Option QueuedPacket)
  | reporting (next now : Time) (number : UInt64) (packet : Bytes) (queued : Option QueuedPacket)
      (answer : Option Bytes) (err : Option MixError)
  | dispatched (next : Time)
  | ending (runErr : MixError)
  | failing (runErr : MixError)
  | draining (runErr : MixError) (rest : List QueuedPacket)
  | returned (runErr : MixError)
  | blocked

/-- A queued packet that was handed to the sink: the bytes, the slot and the answer. -/
structure Handed where
  queued : QueuedPacket
  packet : Bytes
  number : UInt64
  now : Time
  answer : Option Bytes

/-- Which statement sends a result. -/
inductive Origin where
  | expired (number : UInt64) (now : Time)
  | slot (handed : Handed)
  | failQueued

/-- A result sent on the channel of a ticket. -/
structure Delivery where
  queued : QueuedPacket
  result : DispatchResult
  origin : Origin

/-- What an observer of the provider and the link sees. -/
inductive Observation where
  | prepareCover
  | preparePoll
  | send (bytes : Nat)
  deriving DecidableEq, Repr

/-- What has happened so far, with the number of completed slots; no step depends on it. -/
structure History where
  committed : List QueuedPacket
  handed : List Handed
  results : List Delivery
  trace : List Observation
  completed : Nat

structure System where
  scheduler : Scheduler
  calls : Nat → Option Call
  run : RunPhase
  channels : Nat → Option DispatchResult
  history : History

def System.initial (scheduler : Scheduler) : System :=
  ⟨scheduler, fun _ => none, .idle, fun _ => none, ⟨[], [], [], [], 0⟩⟩

/-- A send on the channel of a ticket, which holds one result, and the phase after it. -/
def System.deliver (s : System) (delivery : Delivery) (phase : RunPhase) : System :=
  match s.channels delivery.queued.result with
  | some _ => { s with run := .blocked }
  | none => { s with
      run := phase
      channels := Function.update s.channels delivery.queued.result (some delivery.result)
      history := { s.history with results := s.history.results ++ [delivery] } }

/-! ## What `Run` does with an answer -/

/-- The timer has fired. -/
def afterTick (config : Config) (next now : Time) : RunPhase :=
  if now.sub next > config.maxLateness then .ending .scheduleDiscontinuity
  else .preparing next now

/-- `PrepareCover` has answered. -/
def afterCover (config : Config) (next now : Time) (answer : Except Bytes Bytes) : RunPhase :=
  match answer with
  | .error text => .ending (.cover (.outside text))
  | .ok cover =>
    match config.validatePrepared cover with
    | .error e => .ending e
    | .ok () => .covered next now cover

/-- `PreparePoll` has answered. -/
def afterPoll (config : Config) (next now : Time) (number : UInt64) (answer : Except Bytes Bytes) :
    RunPhase :=
  match answer with
  | .error text => .ending (.poll (.outside text))
  | .ok poll =>
    match config.validatePrepared poll with
    | .error e => .ending e
    | .ok () => .sending next now number poll none

/-- What follows a slot: `dispatchSlot` wraps its error. -/
def afterReport (next : Time) (err : Option MixError) : RunPhase :=
  match err with
  | some e => .ending (.send e)
  | none => .dispatched next

/-- The clock is read after a slot. -/
def afterSlot (config : Config) (next now : Time) : RunPhase :=
  if (next.add config.slotInterval).sub now ≤ 0 then .ending .scheduleDiscontinuity
  else .waiting (next.add config.slotInterval)

namespace System

/-- The lock region of `dispatchSlot`, with what it decides. -/
def openSlot (s : System) (next now : Time) (cover : Bytes) : System :=
  let (slot, scheduler) := s.scheduler.takeSlot now
  let s := { s with scheduler := scheduler }
  match slot.pollSlot, slot.taken with
  | true, _ => { s with run := .polling next now slot.number }
  | false, .nothing => { s with run := .sending next now slot.number cover none }
  | false, .real queued =>
    { s with run := .sending next now slot.number queued.packet (some queued) }
  | false, .expired candidate =>
    s.deliver ⟨candidate, ⟨candidate.requestID, Time.zero, some .commandExpired⟩,
      .expired slot.number now⟩ (.sending next now slot.number cover none)

/-- The call of the sink. -/
def send (s : System) (next now : Time) (number : UInt64) (packet : Bytes)
    (queued : Option QueuedPacket) (answer : Option Bytes) (elapsed : Duration) : System :=
  { s with
    run := .reporting next now number packet queued answer
      (s.scheduler.config.sendErr answer elapsed)
    history := { s.history with
      handed := s.history.handed ++
        (queued.map fun q => (⟨q, packet, number, now, answer⟩ : Handed)).toList
      trace := s.history.trace ++ [.send packet.length] } }

/-- A slot without an error is completed. -/
def complete (s : System) (err : Option MixError) : System :=
  { s with history := { s.history with
      completed := if err = none then s.history.completed + 1 else s.history.completed } }

/-- The end of `dispatchSlot`. -/
def report (s : System) (next now : Time) (number : UInt64) (packet : Bytes)
    (queued : Option QueuedPacket) (answer : Option Bytes) (err : Option MixError) : System :=
  match queued with
  | none => { s.complete err with run := afterReport next err }
  | some q => (s.complete err).deliver ⟨q, ⟨q.requestID, now.utc, err⟩,
      .slot ⟨q, packet, number, now, answer⟩⟩ (afterReport next err)

end System

/-! ## Steps -/

inductive Event where
  | enqueue (i : Nat) (command : Command) (now : Time)
  | prepare (i : Nat) (answer : Except Bytes Bytes)
  | release (i : Nat)
  | commit (i : Nat)
  | wait (i : Nat)
  | run (now : Time)
  | cancel (reason : Bytes)
  | tick (now : Time)
  | cover (answer : Except Bytes Bytes)
  | slot
  | poll (answer : Except Bytes Bytes)
  | send (answer : Option Bytes) (elapsed : Duration)
  | report
  | advance (now : Time)
  | finish
  | fail
  | drain
  | leave

/-- A step of the `Enqueue` call `i` other than a successful commit. -/
inductive Call.Step (i : Nat) : Scheduler → Option Call → Event → Scheduler → Call → Prop where
  | refuse {scheduler : Scheduler} {command : Command} {now : Time} {e : MixError}
      (h : scheduler.reserve command now = .error e) :
      Step i scheduler none (.enqueue i command now) scheduler (.returned (.error e))
  | reserve {scheduler scheduler' : Scheduler} {command : Command} {now : Time}
      (h : scheduler.reserve command now = .ok scheduler') :
      Step i scheduler none (.enqueue i command now) scheduler' (.reserved command now)
  | prepareFailed {scheduler : Scheduler} {command : Command} {now : Time}
      {answer : Except Bytes Bytes} {e : MixError}
      (h : prepareReal scheduler.config command now answer i = .error e) :
      Step i scheduler (some (.reserved command now)) (.prepare i answer) scheduler (.failing e)
  | prepare {scheduler : Scheduler} {command : Command} {now : Time}
      {answer : Except Bytes Bytes} {queued : QueuedPacket}
      (h : prepareReal scheduler.config command now answer i = .ok queued) :
      Step i scheduler (some (.reserved command now)) (.prepare i answer) scheduler
        (.prepared queued)
  | release {scheduler : Scheduler} {e : MixError} :
      Step i scheduler (some (.failing e)) (.release i) scheduler.release (.returned (.error e))
  | commitRefused {scheduler scheduler' : Scheduler} {queued : QueuedPacket} {e : MixError}
      (h : scheduler.commit queued = (.error e, scheduler')) :
      Step i scheduler (some (.prepared queued)) (.commit i) scheduler' (.returned (.error e))

/-- A step of `Run` that touches neither the scheduler nor a channel, with what is seen of it. -/
inductive RunPhase.Step (config : Config) :
    RunPhase → Event → List Observation → RunPhase → Prop where
  | cancel {next : Time} {reason : Bytes} :
      Step config (.waiting next) (.cancel reason) [] (.ending (.outside reason))
  | tick {next now : Time} :
      Step config (.waiting next) (.tick now) [] (afterTick config next now)
  | cover {next now : Time} {answer : Except Bytes Bytes} :
      Step config (.preparing next now) (.cover answer) [.prepareCover]
        (afterCover config next now answer)
  | poll {next now : Time} {number : UInt64} {answer : Except Bytes Bytes} :
      Step config (.polling next now number) (.poll answer) [.preparePoll]
        (afterPoll config next now number answer)
  | advance {next now : Time} :
      Step config (.dispatched next) (.advance now) [] (afterSlot config next now)

/-- One step of one goroutine. -/
inductive Step : System → Event → System → Prop where
  | call {s : System} {i : Nat} {e : Event} {scheduler : Scheduler} {call : Call}
      (h : Call.Step i s.scheduler (s.calls i) e scheduler call) :
      Step s e { s with
        scheduler := scheduler
        calls := Function.update s.calls i (some call) }
  | commit {s : System} {i : Nat} {queued : QueuedPacket} {scheduler : Scheduler}
      (hcall : s.calls i = some (.prepared queued))
      (h : s.scheduler.commit queued = (.ok (), scheduler)) :
      Step s (.commit i) { s with
        scheduler := scheduler
        calls := Function.update s.calls i (some (.returned (.ok i)))
        history := { s.history with committed := s.history.committed ++ [queued] } }
  | wait {s : System} {i : Nat} {result : DispatchResult} (h : s.channels i = some result) :
      Step s (.wait i) { s with channels := Function.update s.channels i none }
  | runRefused {s : System} {now : Time} {e : MixError} (h : s.scheduler.start = .error e) :
      Step s (.run now) s
  | run {s : System} {now : Time} {scheduler : Scheduler} (h : s.scheduler.start = .ok scheduler) :
      Step s (.run now) { s with
        scheduler := scheduler
        run := .waiting (now.add s.scheduler.config.slotInterval) }
  | phase {s : System} {e : Event} {seen : List Observation} {phase : RunPhase}
      (h : RunPhase.Step s.scheduler.config s.run e seen phase) :
      Step s e { s with
        run := phase
        history := { s.history with trace := s.history.trace ++ seen } }
  | slot {s : System} {next now : Time} {cover : Bytes} (hrun : s.run = .covered next now cover) :
      Step s .slot (s.openSlot next now cover)
  | send {s : System} {next now : Time} {number : UInt64} {packet : Bytes}
      {queued : Option QueuedPacket} {answer : Option Bytes} {elapsed : Duration}
      (hrun : s.run = .sending next now number packet queued) :
      Step s (.send answer elapsed) (s.send next now number packet queued answer elapsed)
  | report {s : System} {next now : Time} {number : UInt64} {packet : Bytes}
      {queued : Option QueuedPacket} {answer : Option Bytes} {err : Option MixError}
      (hrun : s.run = .reporting next now number packet queued answer err) :
      Step s .report (s.report next now number packet queued answer err)
  | finish {s : System} {runErr : MixError} (hrun : s.run = .ending runErr) :
      Step s .finish { s with
        scheduler := s.scheduler.finish runErr
        run := .failing runErr }
  | fail {s : System} {runErr : MixError} (hrun : s.run = .failing runErr) :
      Step s .fail { s with
        scheduler := s.scheduler.takeQueue.2
        run := .draining runErr s.scheduler.takeQueue.1 }
  | drain {s : System} {runErr : MixError} {queued : QueuedPacket} {rest : List QueuedPacket}
      (hrun : s.run = .draining runErr (queued :: rest)) :
      Step s .drain (s.deliver
        ⟨queued, ⟨queued.requestID, Time.zero, some runErr⟩, .failQueued⟩ (.draining runErr rest))
  | leave {s : System} {runErr : MixError} (hrun : s.run = .draining runErr []) :
      Step s .leave { s with run := .returned runErr }

end Veilmesh.Mix

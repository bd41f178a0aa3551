/-
  The scheduler of the mix transport (`mixtransport/scheduler.go`), one definition for each
  stretch of code that runs under the mutex or between two uses of it.

  `Enqueue` is `reserve`, then `prepareReal`, then `commit`, or `release` when preparing fails.
  `Run` is `start` and then, slot by slot, `takeSlot` with the calls of the provider and the
  sink around it; at its end come `finish` and `takeQueue`.
-/
import Veilmesh.Mix.Command

namespace Veilmesh.Mix

open Lib

/-! ## Configuration -/

def referenceSlotInterval : Duration := 5 * second
def referencePollEverySlots : UInt64 := 6

structure Config where
  packetBytes : Int
  slotInterval : Duration
  pollEverySlots : UInt64
  maxQueue : Int
  maxLateness : Duration
  dispatchBudget : Duration
  deriving DecidableEq, Repr

structure PacketSecurity where
  protocol : Bytes
  independentAudit : Bytes
  minimumMixHops : Int
  fixedLengthPackets : Bool
  layeredMixing : Bool
  perHopAuthentication : Bool
  replayProtection : Bool
  uniformReplies : Bool
  postQuantumHybridOnion : Bool
  forwardSecureRoutingKeys : Bool

structure LinkSecurity where
  protocol : Bytes
  independentAudit : Bytes
  authenticatedEntry : Bool
  persistentConnection : Bool
  fixedLengthFrames : Bool
  postQuantumHybridKEX : Bool
  noRedirects : Bool

def validPacketSecurity (security : PacketSecurity) : Bool :=
  security.protocol ≠ [] && security.independentAudit ≠ [] && security.minimumMixHops ≥ 3 &&
    security.fixedLengthPackets && security.layeredMixing && security.perHopAuthentication &&
    security.replayProtection && security.uniformReplies && security.postQuantumHybridOnion &&
    security.forwardSecureRoutingKeys

def validLinkSecurity (security : LinkSecurity) : Bool :=
  security.protocol ≠ [] && security.independentAudit ≠ [] && security.authenticatedEntry &&
    security.persistentConnection && security.fixedLengthFrames && security.postQuantumHybridKEX &&
    security.noRedirects

/-- The defaults of `NewScheduler`, in its order. -/
def Config.defaults (config : Config) : Config :=
  let config := if config.packetBytes = 0 then { config with packetBytes := defaultPacketBytes }
    else config
  let config := if config.slotInterval = 0 then { config with slotInterval := referenceSlotInterval }
    else config
  let config := if config.pollEverySlots = 0 then
      { config with pollEverySlots := referencePollEverySlots }
    else config
  let config := if config.maxQueue = 0 then { config with maxQueue := 1024 } else config
  let config := if config.maxLateness = 0 then
      { config with maxLateness := config.slotInterval.tdiv 4 }
    else config
  if config.dispatchBudget = 0 then { config with dispatchBudget := config.slotInterval.tdiv 2 }
  else config

/-! ## The scheduler -/

/-- `DispatchResult`; `err = none` is Go's nil error. -/
structure DispatchResult where
  requestID : Bytes
  sentAt : Time
  err : Option MixError
  deriving DecidableEq, Repr

/-- A packet in the queue. `result` names the channel on which its ticket waits. -/
structure QueuedPacket where
  requestID : Bytes
  expiresAt : Time
  packet : Bytes
  result : Nat
  deriving DecidableEq, Repr

structure Scheduler where
  config : Config
  queue : List QueuedPacket
  reservations : Int
  slots : UInt64
  running : Bool
  terminalErr : Option MixError

/-- `NewScheduler`, with what the provider and the sink say about their security; `none` is a
    nil interface. -/
def newScheduler (config : Config) (provider : Option PacketSecurity) (sink : Option LinkSecurity) :
    Except MixError Scheduler :=
  let config := config.defaults
  if config.packetBytes ≠ defaultPacketBytes ∨ config.slotInterval ≠ referenceSlotInterval ∨
      config.pollEverySlots ≠ referencePollEverySlots ∨
      config.maxQueue ≤ 0 ∨ config.maxQueue > maxQueueEntries ∨
      config.maxLateness ≤ 0 ∨ config.maxLateness ≥ config.slotInterval ∨
      config.dispatchBudget ≤ 0 ∨ config.dispatchBudget ≥ config.slotInterval then .error .config
  else if provider.any validPacketSecurity = false then .error .packetProviderRequired
  else if sink.any validLinkSecurity = false then .error .privateLinkRequired
  else .ok ⟨config, [], 0, 0, false, none⟩

def Config.validatePrepared (config : Config) (packet : Bytes) : Except MixError Unit :=
  if (packet.length : Int) ≠ config.packetBytes then .error .packetSize else .ok ()

/-! ## Enqueue -/

/-- `Enqueue` up to the end of its first lock region. -/
def Scheduler.reserve (scheduler : Scheduler) (command : Command) (now : Time) :
    Except MixError Scheduler :=
  match validateCommand command now with
  | .error e => .error e
  | .ok () =>
    match scheduler.terminalErr with
    | some e => .error e
    | none =>
      if scheduler.queue.length + scheduler.reservations ≥ scheduler.config.maxQueue then
        .error .queueFull
      else .ok { scheduler with reservations := scheduler.reservations + 1 }

/-- The work of `Enqueue` between its lock regions, with the answer of `PrepareReal` and the
    new channel as arguments. -/
def prepareReal (config : Config) (command : Command) (now : Time) (answer : Except Bytes Bytes)
    (channel : Nat) : Except MixError QueuedPacket :=
  match encodeCommand command now with
  | .error e => .error e
  | .ok _ =>
    match answer with
    | .error text => .error (.outside text)
    | .ok packet =>
      match config.validatePrepared packet with
      | .error e => .error e
      | .ok () => .ok ⟨command.requestID, command.expiresAt, packet, channel⟩

/-- The deferred release of a reservation. -/
def Scheduler.release (scheduler : Scheduler) : Scheduler :=
  { scheduler with reservations := scheduler.reservations - 1 }

/-- The last lock region of `Enqueue`. -/
def Scheduler.commit (scheduler : Scheduler) (queued : QueuedPacket) :
    Except MixError Unit × Scheduler :=
  match scheduler.terminalErr with
  | some e => (.error e, scheduler.release)
  | none => (.ok (), { scheduler.release with queue := scheduler.queue ++ [queued] })

/-! ## Run -/

/-- The first lock region of `Run`. -/
def Scheduler.start (scheduler : Scheduler) : Except MixError Scheduler :=
  if scheduler.running = true ∨ scheduler.terminalErr ≠ none then .error .restarted
  else .ok { scheduler with running := true }

/-- What a slot takes from the queue. -/
inductive Taken where
  | nothing
  | expired (candidate : QueuedPacket)
  | real (candidate : QueuedPacket)

/-- A slot as `dispatchSlot` opens it under the mutex. -/
structure Slot where
  number : UInt64
  pollSlot : Bool
  taken : Taken

/-- The lock region of `dispatchSlot`; the result for an expired candidate is sent in it. -/
def Scheduler.takeSlot (scheduler : Scheduler) (now : Time) : Slot × Scheduler :=
  let number := scheduler.slots + 1
  if number % scheduler.config.pollEverySlots = 0 then
    (⟨number, true, .nothing⟩, { scheduler with slots := number })
  else
    match scheduler.queue with
    | [] => (⟨number, false, .nothing⟩, { scheduler with slots := number })
    | candidate :: queue =>
      (⟨number, false, if now.after candidate.expiresAt = true then .expired candidate
        else .real candidate⟩, { scheduler with slots := number, queue := queue })

/-- How `dispatchSlot` judges the answer of the sink. -/
def Config.sendErr (config : Config) (answer : Option Bytes) (elapsed : Duration) :
    Option MixError :=
  match answer with
  | some text => some (.outside text)
  | none => if elapsed > config.dispatchBudget then some .scheduleDiscontinuity else none

/-- The deferred region of `Run`. -/
def Scheduler.finish (scheduler : Scheduler) (runErr : MixError) : Scheduler :=
  { scheduler with running := false, terminalErr := some runErr }

/-- The lock region of `failQueued`. -/
def Scheduler.takeQueue (scheduler : Scheduler) : List QueuedPacket × Scheduler :=
  (scheduler.queue, { scheduler with queue := [] })

end Veilmesh.Mix

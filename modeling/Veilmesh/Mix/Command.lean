/-
  Commands of the mix transport (`mixtransport/types.go`): what `Enqueue` checks before it
  takes a place in the queue, and the bytes it hands to the packet provider.
-/
import Veilmesh.Lib.JsonCodec

namespace Veilmesh.Mix

open Lib

/-! ## Limits and errors -/

def protocolVersion : UInt8 := 2
def requestIDBytes : Nat := 32
def defaultPacketBytes : Int := 8 * 1024
def maxCommandPayloadBytes : Nat := 2 * 1024
def maxEncodedCommandBytes : Nat := 4 * 1024
def maxCommandLifetime : Duration := 15 * minute
def maxQueueEntries : Int := 4096

/-- The errors of the package. An error of the provider, the sink or the context is told
    apart by its text. -/
inductive MixError where
  | command
  | marshal
  | encodedSize
  | config
  | packetProviderRequired
  | privateLinkRequired
  | queueFull
  | commandExpired
  | scheduleDiscontinuity
  | packetSize
  | restarted
  | outside (text : Bytes)
  | cover (e : MixError)
  | poll (e : MixError)
  | send (e : MixError)
  deriving DecidableEq, Repr

/-! ## Commands -/

/-- The kind of a command, a string in the source. -/
abbrev CommandKind := Bytes

def kindStore : CommandKind := lit "store"
def kindDirectoryLookup : CommandKind := lit "directory_lookup"
def kindDirectoryPublish : CommandKind := lit "directory_publish"
def kindDeviceSync : CommandKind := lit "device_sync"
def kindDelete : CommandKind := lit "delete"

def validKind (kind : CommandKind) : Bool :=
  kind ∈ [kindStore, kindDirectoryLookup, kindDirectoryPublish, kindDeviceSync, kindDelete]

structure Command where
  version : UInt8
  requestID : Bytes
  kind : CommandKind
  createdAt : Time
  expiresAt : Time
  payload : Bytes
  deriving DecidableEq, Repr

def commandFields : List (JsonField Command) := [
  ⟨lit "version", UInt8, (·.version), fun c v => { c with version := v }, uint8Codec⟩,
  ⟨lit "request_id", Bytes, (·.requestID), fun c v => { c with requestID := v }, stringCodec⟩,
  ⟨lit "kind", Bytes, (·.kind), fun c v => { c with kind := v }, stringCodec⟩,
  ⟨lit "created_at", Time, (·.createdAt), fun c v => { c with createdAt := v }, timeCodec⟩,
  ⟨lit "expires_at", Time, (·.expiresAt), fun c v => { c with expiresAt := v }, timeCodec⟩,
  ⟨lit "payload", Bytes, (·.payload), fun c v => { c with payload := v }, bytesCodec⟩]

def commandCodec : Codec Command := structCodec commandFields

def validRequestID (requestID : Bytes) : Bool :=
  requestID.length == (8 * requestIDBytes + 5) / 6 &&
    match base64Decode base64UrlAlphabet false true requestID with
    | some decoded => decoded.length == requestIDBytes
    | none => false

def validateCommand (command : Command) (now : Time) : Except MixError Unit :=
  if command.version ≠ protocolVersion ∨ validRequestID command.requestID = false ∨
      validKind command.kind = false ∨ command.payload.length = 0 ∨
      command.payload.length > maxCommandPayloadBytes ∨ command.createdAt.isZero = true ∨
      command.expiresAt.isZero = true ∨
      command.createdAt.after (now.add (5 * minute)) = true ∨
      command.expiresAt.after command.createdAt = false ∨
      command.expiresAt.sub command.createdAt > maxCommandLifetime ∨
      now.after command.expiresAt = true then .error .command
  else .ok ()

def encodeCommand (command : Command) (now : Time) : Except MixError Bytes :=
  match validateCommand command now with
  | .error e => .error e
  | .ok () =>
    match marshal commandCodec command with
    | none => .error .marshal
    | some encoded =>
      if encoded.length = 0 ∨ encoded.length > maxEncodedCommandBytes then .error .encodedSize
      else .ok encoded

end Veilmesh.Mix

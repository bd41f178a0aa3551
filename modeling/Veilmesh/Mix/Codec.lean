/-
  Making, writing and reading commands of the mix transport (`mixtransport/types.go`).

  `NewCommand` looks at the time and the lifetime it is given, and then rounds both ends of the
  command down to the millisecond; `ValidateCommand` looks at the ends.

  * `newCommand_enqueued_iff`: which new commands `Enqueue` takes.
  * `decodeCommand_valid`: what is read is valid, whatever the bytes.
  * `command_codec`: what is written is read again.
-/
import Veilmesh.Mix.Scheduler
import Veilmesh.Protocol.Canonical

namespace Veilmesh.Mix

open Lib

/-! ## The functions -/

/-- The errors of `NewCommand` and `DecodeCommand`; the texts of the JSON decoder and of the random
    source are their own. -/
inductive CommandError where
  | input
  | random (text : Bytes)
  | encodedRange
  | decode
  | command (e : MixError)
  deriving DecidableEq, Repr

/-- The random bytes of an identifier. -/
def RandomID : Type := { id : Bytes // id.length = requestIDBytes }

/-- A new command; `requestID` is what the random source gives. -/
def newCommand (kind : CommandKind) (payload : Bytes) (now : Time) (lifetime : Duration)
    (requestID : Except Bytes RandomID) : Except CommandError Command :=
  if validKind kind = false ∨ payload.length = 0 ∨ payload.length > maxCommandPayloadBytes ∨
      now.isZero = true ∨ lifetime ≤ 0 ∨ lifetime > maxCommandLifetime then .error .input
  else
    match requestID with
    | .error text => .error (.random text)
    | .ok id =>
      let createdAt := now.utc.truncate millisecond
      .ok
        { version := protocolVersion
          requestID := base64Encode base64UrlAlphabet false id.val
          kind := kind
          createdAt := createdAt
          expiresAt := (createdAt.add lifetime).truncate millisecond
          payload := payload }

def Command.zero : Command := ⟨0, [], [], Time.zero, Time.zero, []⟩

def decodeCommand (encoded : Bytes) (now : Time) : Except CommandError Command :=
  if encoded.length = 0 ∨ encoded.length > maxEncodedCommandBytes then .error .encodedRange
  else
    match unmarshal commandCodec Command.zero encoded with
    | none => .error .decode
    | some command =>
      match validateCommand command now with
      | .error e => .error (.command e)
      | .ok () => .ok command

/-! ## New commands -/

variable {command : Command} {now : Time} {kind : CommandKind}

/-- The checks of `ValidateCommand`. -/
theorem validateCommand_ok_iff :
    validateCommand command now = .ok () ↔
      command.version = protocolVersion ∧ validRequestID command.requestID = true ∧
      validKind command.kind = true ∧ 0 < command.payload.length ∧
      command.payload.length ≤ maxCommandPayloadBytes ∧ command.createdAt.ns ≠ 0 ∧
      command.expiresAt.ns ≠ 0 ∧ command.createdAt.ns ≤ now.ns + 5 * minute ∧
      command.createdAt.ns < command.expiresAt.ns ∧
      command.expiresAt.sub command.createdAt ≤ maxCommandLifetime ∧
      now.ns ≤ command.expiresAt.ns := by
  unfold validateCommand
  split
  · rename_i hbad
    refine ⟨fun h => (by cases h), ?_⟩
    rintro ⟨h1, h2, h3, h4, h5, h6, h7, h8, h9, h10, h11⟩
    simp only [Time.isZero_iff, Time.after_iff, Time.add_ns, ← Bool.not_eq_true] at hbad
    simp [h1, h2, h3, h4.ne', not_lt.mpr h5, h6, h7, not_lt.mpr h8, h9, not_lt.mpr h10,
      not_lt.mpr h11] at hbad
  · rename_i hok
    simp only [not_or, ne_eq, not_not, Bool.not_eq_false, Time.isZero_iff, Time.after_iff,
      Time.add_ns, not_lt] at hok
    obtain ⟨h1, h2, h3, h4, h5, h6, h7, h8, h9, h10, h11⟩ := hok
    exact ⟨fun _ => ⟨h1, h2, h3, Nat.pos_of_ne_zero h4, h5, h6, h7, h8, h9, h10, h11⟩, fun _ => rfl⟩

/-- Identifiers of requests have the form of route tags. -/
theorem validRequestID_spec {requestID : Bytes} : validRequestID requestID = true ↔
    ∃ id : Bytes, id.length = 32 ∧ requestID = base64Encode base64UrlAlphabet false id :=
  Protocol.validRouteTag_spec

/-- A new command is valid at its own time exactly if it lasts. -/
theorem newCommand_valid_iff {payload : Bytes} {lifetime : Duration}
    {requestID : Except Bytes RandomID}
    (h : newCommand kind payload now lifetime requestID = .ok command) :
    validateCommand command now = .ok () ↔ now.Lasts lifetime := by
  unfold newCommand at h
  split at h
  · cases h
  rename_i hok
  simp only [not_or, Bool.not_eq_false, not_le, not_lt] at hok
  obtain ⟨hkind, hsome, hfew, -, hpos, hmax⟩ := hok
  split at h
  · cases h
  rename_i id
  obtain rfl := Except.ok.inj h
  rw [validateCommand_ok_iff]
  dsimp only
  constructor
  · rintro ⟨-, -, -, -, -, hstart, hend, -, hlt, -, -⟩
    exact (Time.lasts_iff hpos).mpr ⟨hstart, hend, hlt⟩
  · intro hlasts
    obtain ⟨hstart, hend, hlt⟩ := (Time.lasts_iff hpos).mp hlasts
    refine ⟨rfl, validRequestID_spec.mpr ⟨_, id.property, rfl⟩, hkind, Nat.pos_of_ne_zero hsome, hfew, hstart,
      hend, ?_, hlt,
      Time.rounded_sub_le hmax (by decide), hlasts.le_end hpos⟩
    exact now.truncate_le.trans (le_add_of_nonneg_right (by decide))

/-- `Enqueue` takes a new command at its own time, if there is room, exactly if it lasts. -/
theorem newCommand_enqueued_iff (kind : CommandKind) (payload : Bytes) (now : Time)
    (lifetime : Duration) (requestID : Except Bytes RandomID) (command : Command)
    (h : newCommand kind payload now lifetime requestID = .ok command) :
    (validateCommand command now = .ok () ↔ now.Lasts lifetime) ∧
    ∀ scheduler : Scheduler, scheduler.terminalErr = none →
      scheduler.queue.length + scheduler.reservations < scheduler.config.maxQueue →
      ((scheduler.reserve command now =
          .ok { scheduler with reservations := scheduler.reservations + 1 } ↔ now.Lasts lifetime) ∧
        (scheduler.reserve command now = .error .command ↔ ¬ now.Lasts lifetime)) := by
  have hvalid := newCommand_valid_iff h
  refine ⟨hvalid, fun scheduler hterminal hroom => ?_⟩
  rw [← hvalid]
  unfold Scheduler.reserve
  cases hcheck : validateCommand command now with
  | error e =>
    have hcommand : e = .command := by
      unfold validateCommand at hcheck
      split at hcheck
      · exact (Except.error.inj hcheck).symm
      · cases hcheck
    simp [hcommand]
  | ok u =>
    dsimp only
    rw [hterminal]
    dsimp only
    rw [if_neg (by omega)]
    simp

def zeroID : RandomID := ⟨List.replicate requestIDBytes 0, List.length_replicate⟩

/-- Half a millisecond is a lifetime for `NewCommand`, and none for `Enqueue`. -/
theorem newCommand_half_millisecond : ∃ command,
    newCommand kindStore [1] Time.epoch 500000 (.ok zeroID) = .ok command ∧
      validateCommand command Time.epoch = .error .command := by
  refine ⟨_, rfl, ?_⟩
  decide +kernel

theorem newCommand_enqueued_minute : ∃ command,
    newCommand kindStore [1] Time.epoch minute (.ok zeroID) = .ok command ∧
      validateCommand command Time.epoch = .ok () := by
  refine ⟨_, rfl, (newCommand_enqueued_iff kindStore [1] Time.epoch minute (.ok zeroID) _ rfl).1.mpr ?_⟩
  decide

/-! ## The codec -/

theorem plain_kind (h : validKind kind = true) : Json.Plain kind ∧ kind.length ≤ 17 := by
  have hmem : kind ∈ [kindStore, kindDirectoryLookup, kindDirectoryPublish, kindDeviceSync,
      kindDelete] := of_decide_eq_true h
  simp only [List.mem_cons, List.not_mem_nil, or_false] at hmem
  rcases hmem with rfl | rfl | rfl | rfl | rfl <;> exact ⟨by decide, by decide⟩

theorem plain_requestID {id : Bytes} (h : validRequestID id = true) :
    Json.Plain id ∧ id.length = 43 := by
  obtain ⟨tag, hlength, rfl⟩ := validRequestID_spec.mp h
  exact ⟨Protocol.plain_base64Url tag, by rw [length_base64Encode, hlength]⟩

/-- What is read is valid, whatever the bytes. -/
theorem decodeCommand_valid {encoded : Bytes} (h : decodeCommand encoded now = .ok command) :
    validateCommand command now = .ok () := by
  unfold decodeCommand at h
  split at h
  · cases h
  split at h
  · cases h
  split at h
  · cases h
  · rename_i hvalid
    rwa [← Except.ok.inj h]

/-- A valid command whose times have a text is written within the limit. -/
theorem encodeCommand_ok (h : validateCommand command now = .ok ()) {created expires : Bytes}
    (hc : command.createdAt.marshalText = some created)
    (he : command.expiresAt.marshalText = some expires) :
    ∃ encoded, encodeCommand command now = .ok encoded ∧ 0 < encoded.length ∧
      encoded.length ≤ maxEncodedCommandBytes ∧ marshal commandCodec command = some encoded := by
  obtain ⟨-, hid, hkind, -, hfew, -⟩ := validateCommand_ok_iff.mp h
  obtain ⟨hplainID, hlengthID⟩ := plain_requestID hid
  obtain ⟨hplainKind, hlengthKind⟩ := plain_kind hkind
  have hsize : commandCodec.AtMost command (command.requestID.length + command.kind.length +
      4 * ((command.payload.length + 2) / 3) + 180) :=
    structCodec_atMost (k := 72) rfl (.cons (uint8Codec_atMost _) (.cons (stringCodec_sized hplainID)
      (.cons (stringCodec_sized hplainKind) (.cons (timeCodec_sized hc) (.cons (timeCodec_sized he)
        (.cons (bytesCodec_sized _) .nil)))))) (by dsimp only; omega)
  obtain ⟨encoded, hencoded, hlength⟩ := marshal_atMost hsize
  have hpos : 0 < encoded.length := by
    obtain ⟨j, hj, rfl⟩ := Option.map_eq_some_iff.mp hencoded
    obtain ⟨ms, -, rfl⟩ := Option.map_eq_some_iff.mp hj
    cases ms with
    | nil => decide
    | cons m ms => simp [Json.render]
  have hmax : encoded.length ≤ maxEncodedCommandBytes := by
    unfold maxCommandPayloadBytes at hfew
    unfold maxEncodedCommandBytes
    omega
  refine ⟨encoded, ?_, hpos, hmax, hencoded⟩
  unfold encodeCommand
  rw [h]
  dsimp only
  rw [hencoded]
  exact if_neg (by omega)

/-- A valid command whose times RFC 3339 can show, at offsets of whole minutes, is written within
    the limit and read again; and nothing is read that is not valid. -/
theorem command_codec (now : Time) :
    (∀ command created expires, validateCommand command now = .ok () →
      command.createdAt.marshalText = some created → command.expiresAt.marshalText = some expires →
      command.createdAt.off % 60 = 0 → command.expiresAt.off % 60 = 0 →
      ∃ encoded, encodeCommand command now = .ok encoded ∧
        encoded.length ≤ maxEncodedCommandBytes ∧ decodeCommand encoded now = .ok command) ∧
    ∀ encoded command, decodeCommand encoded now = .ok command →
      validateCommand command now = .ok () := by
  refine ⟨?_, fun _ _ => decodeCommand_valid⟩
  intro command created expires h hc he hcoff heoff
  obtain ⟨encoded, hok, hpos, hmax, hencoded⟩ := encodeCommand_ok h hc he
  refine ⟨encoded, hok, hmax, ?_⟩
  obtain ⟨-, hid, hkind, -⟩ := validateCommand_ok_iff.mp h
  have htrip : commandCodec.Roundtrips command :=
    structCodec_roundtrips ⟨by decide, by decide⟩ (fun s => rfl) (.cons (uint8Codec_roundtrips _)
      (.cons (stringCodec_roundtrips (plain_requestID hid).1)
        (.cons (stringCodec_roundtrips (plain_kind hkind).1) (.cons (timeCodec_roundtrips hcoff)
          (.cons (timeCodec_roundtrips heoff) (.cons (bytesCodec_roundtrips _) .nil))))))
  have hback : unmarshal commandCodec Command.zero encoded = some command :=
    unmarshal_marshal htrip hencoded
  unfold decodeCommand
  rw [if_neg (by omega), hback]
  dsimp only
  rw [h]

/-- A command of one minute from the epoch on, with its times shown at an offset. -/
def zonedCommand (off : Int) : Command :=
  ⟨protocolVersion, base64Encode base64UrlAlphabet false zeroID.val, kindStore,
    ⟨Time.unixEpoch, off⟩, ⟨Time.unixEpoch + minute, off⟩, [1]⟩

theorem command_codec_east : ∃ encoded, encodeCommand (zonedCommand 7200) Time.epoch = .ok encoded ∧
    encoded.length ≤ maxEncodedCommandBytes ∧
    decodeCommand encoded Time.epoch = .ok (zonedCommand 7200) :=
  (command_codec Time.epoch).1 (zonedCommand 7200) _ _ (by decide +kernel) rfl rfl (by decide)
    (by decide)

/-- Valid commands that do not come back. RFC 3339 has no seconds in an offset, so half a minute of
    it becomes part of the instants; and an offset of 24 hours cannot be written. -/
theorem command_codec_offsets :
    (∃ encoded other, validateCommand (zonedCommand 30) Time.epoch = .ok () ∧
      encodeCommand (zonedCommand 30) Time.epoch = .ok encoded ∧
      decodeCommand encoded Time.epoch = .ok other ∧
      other.createdAt.ns ≠ (zonedCommand 30).createdAt.ns) ∧
    validateCommand (zonedCommand 86400) Time.epoch = .ok () ∧
      encodeCommand (zonedCommand 86400) Time.epoch = .error .marshal := by
  refine ⟨?_, by decide +kernel, by decide +kernel⟩
  have hshift : ((encodeCommand (zonedCommand 30) Time.epoch).toOption.bind fun encoded =>
      (decodeCommand encoded Time.epoch).toOption).map (·.createdAt.ns) =
        some (Time.unixEpoch + 30 * second) := by decide +kernel
  cases hencoded : encodeCommand (zonedCommand 30) Time.epoch with
  | error e =>
    rw [hencoded] at hshift
    cases hshift
  | ok encoded =>
    rw [hencoded] at hshift
    cases hdecoded : decodeCommand encoded Time.epoch with
    | error e =>
      simp only [Except.toOption, Option.bind_some, hdecoded] at hshift
      cases hshift
    | ok other =>
      simp only [Except.toOption, Option.bind_some, hdecoded, Option.map_some,
        Option.some.injEq] at hshift
      refine ⟨encoded, other, by decide +kernel, rfl, hdecoded, ?_⟩
      rw [hshift]
      decide

end Veilmesh.Mix

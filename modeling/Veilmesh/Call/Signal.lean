/-
  Signed signals of direct calls (`call/call.go`).

  A signal is an offer or an answer; its signature covers the JSON text of all other fields.
  The text of a session description is parsed by a library, which is a parameter here
  (`SDPParser`); what this package asks of the parsed description is modelled.

  * `verifySignal_window`: how long a signal that is accepted now can still be accepted.
-/
import Veilmesh.Pqcrypto.Signatures

namespace Veilmesh.Call

open Lib Protocol Pqcrypto

def protocolVersion : UInt8 := 1
def maxSignalBytes : Nat := 96 * 1024
def maxSDPBytes : Nat := 64 * 1024
def maxICECandidates : Nat := 64
def maxConcurrentCalls : Int := 64
def maxRememberedCallIDs : Nat := 4096
def defaultSignalLifetime : Duration := 2 * minute
def maxSignalLifetime : Duration := 5 * minute
def defaultCallDuration : Duration := hour
def maxCallDuration : Duration := 24 * hour
def clockSkew : Duration := 2 * minute
def signalDomain : Bytes := lit "direct-call-signal"

inductive CallError where
  | invalidSignal
  | expiredSignal
  | signalReplay
  | callLimit
  deriving DecidableEq, Repr

/-! ## Signals -/

/-- The type of a signal is any text until it is compared. -/
abbrev SignalType := Bytes

def signalOffer : SignalType := lit "offer"
def signalAnswer : SignalType := lit "answer"

structure Media where
  audio : Bool
  video : Bool
  deriving DecidableEq, Repr

structure Signal where
  version : UInt8
  callID : Bytes
  type : SignalType
  initiatorID : Bytes
  responderID : Bytes
  createdAt : Time
  expiresAt : Time
  media : Media
  sdp : Bytes
  signature : HybridSignature
  deriving DecidableEq, Repr

def mediaFields : List (JsonField Media) := [
  ⟨lit "audio", Bool, (·.audio), fun m v => { m with audio := v }, boolCodec⟩,
  ⟨lit "video", Bool, (·.video), fun m v => { m with video := v }, boolCodec⟩]

def signalFields : List (JsonField Signal) := [
  ⟨lit "version", UInt8, (·.version), fun s v => { s with version := v }, uint8Codec⟩,
  ⟨lit "call_id", Bytes, (·.callID), fun s v => { s with callID := v }, stringCodec⟩,
  ⟨lit "type", SignalType, (·.type), fun s v => { s with type := v }, stringCodec⟩,
  ⟨lit "initiator_id", Bytes, (·.initiatorID), fun s v => { s with initiatorID := v }, stringCodec⟩,
  ⟨lit "responder_id", Bytes, (·.responderID), fun s v => { s with responderID := v }, stringCodec⟩,
  ⟨lit "created_at", Time, (·.createdAt), fun s v => { s with createdAt := v }, timeCodec⟩,
  ⟨lit "expires_at", Time, (·.expiresAt), fun s v => { s with expiresAt := v }, timeCodec⟩,
  ⟨lit "media", Media, (·.media), fun s v => { s with media := v }, structCodec mediaFields⟩,
  ⟨lit "sdp", Bytes, (·.sdp), fun s v => { s with sdp := v }, stringCodec⟩,
  ⟨lit "signature", HybridSignature, (·.signature), fun s v => { s with signature := v },
    hybridSignatureCodec⟩]

def signalCodec : Codec Signal := structCodec signalFields

/-- What is signed: nothing if a time cannot be written or the text is too long. -/
def signalBytes (signal : Signal) : Option Bytes :=
  match marshal signalCodec { signal with signature := HybridSignature.zero } with
  | none => none
  | some encoded => if encoded.length > maxSignalBytes then none else some encoded

def validCallID (callID : Bytes) : Bool :=
  callID.length == 43 &&
    match base64Decode base64UrlAlphabet false true callID with
    | some decoded => decoded.length == 32
    | none => false

def validateMedia (media : Media) : Bool := media.audio || media.video

/-! ## Session descriptions -/

structure Attribute where
  key : Bytes
  value : Bytes

structure MediaDescription where
  media : Bytes
  attributes : List Attribute

structure SessionDescription where
  attributes : List Attribute
  mediaDescriptions : List MediaDescription

/-- `SessionDescription.Unmarshal` of the SDP library. -/
abbrev SDPParser := Bytes → Option SessionDescription

/-- How many bytes the white space character at the start takes, none if there is no such. -/
def spaceWidth : Bytes → Nat
  | 0x09 :: _ | 0x0a :: _ | 0x0b :: _ | 0x0c :: _ | 0x0d :: _ | 0x20 :: _ => 1
  | 0xc2 :: 0x85 :: _ | 0xc2 :: 0xa0 :: _ => 2
  | 0xe1 :: 0x9a :: 0x80 :: _ | 0xe2 :: 0x80 :: 0xa8 :: _ | 0xe2 :: 0x80 :: 0xa9 :: _
  | 0xe2 :: 0x80 :: 0xaf :: _ | 0xe2 :: 0x81 :: 0x9f :: _ | 0xe3 :: 0x80 :: 0x80 :: _ => 3
  | 0xe2 :: 0x80 :: b :: _ => if 0x80 ≤ b ∧ b ≤ 0x8a then 3 else 0
  | _ => 0

/-- The fields between white space; `skip` bytes still belong to a white space character, and
    `field` is the field being read, last byte first. -/
def splitFields : Nat → Bytes → Bytes → List Bytes
  | _, field, [] => if field = [] then [] else [field.reverse]
  | skip + 1, field, _ :: rest => splitFields skip field rest
  | 0, field, b :: rest =>
    match spaceWidth (b :: rest) with
    | 0 => splitFields 0 (b :: field) rest
    | width + 1 =>
      if field = [] then splitFields width [] rest
      else field.reverse :: splitFields width [] rest

def fields (value : Bytes) : List Bytes := splitFields 0 [] value

/-- The spellings of `sha-256` that are equal to it under case folding; the long s folds
    to `s`. -/
def sha256Names : List Bytes := do
  let s ← [[0x73], [0x53], [0xc5, 0xbf]]
  let h ← [[0x68], [0x48]]
  let a ← [[0x61], [0x41]]
  [s ++ h ++ a ++ lit "-256"]

def validSHA256Fingerprint (value : Bytes) : Bool :=
  match fields value with
  | [name, text] =>
    sha256Names.contains name &&
      (match hexDecode (text.filter (· != 58)) with
        | some decoded => decoded.length == 32
        | none => false) &&
      text.count 58 == 31
  | _ => false

/-- Whether an attribute is a fingerprint that is accepted. -/
def Attribute.isFingerprint (a : Attribute) : Bool :=
  a.key == lit "fingerprint" && validSHA256Fingerprint a.value

def validateSDP (parse : SDPParser) (raw : Bytes) (media : Media) : Bool :=
  if raw.length = 0 ∨ raw.length > maxSDPBytes ∨ raw.contains 0 = true then false
  else
    match parse raw with
    | none => false
    | some description =>
      let sections := description.mediaDescriptions
      let attributes := description.attributes ++ sections.flatMap (·.attributes)
      let audio := (sections.filter fun m => m.media == lit "audio").length
      let video := (sections.filter fun m => m.media == lit "video").length
      if sections.any fun m => m.media != lit "audio" && m.media != lit "video" then false
      else if attributes.any Attribute.isFingerprint = false ∨
          (attributes.filter fun a => a.key == lit "candidate").length > maxICECandidates ∨
          audio > 1 ∨ video > 1 ∨ media.audio ≠ (audio == 1) ∨ media.video ≠ (video == 1) then false
      else true

/-! ## Verification -/

/-- Who has to have signed a signal of a type. -/
def Signal.expectedSigner (signal : Signal) (expectedType : SignalType) : Bytes :=
  if expectedType = signalAnswer then signal.responderID else signal.initiatorID

def verifySignal (c : Primitives) (parse : SDPParser) (signal : Signal) (expectedType : SignalType)
    (signer : NodePublicIdentity) (localID : Bytes) (now : Time) : Except CallError Unit :=
  if validPublicIdentity c signer = false ∨ signal.version ≠ protocolVersion ∨
      signal.type ≠ expectedType ∨ validCallID signal.callID = false ∨ signal.initiatorID = [] ∨
      signal.responderID = [] ∨ signal.initiatorID = signal.responderID then .error .invalidSignal
  else if signer.nodeID ≠ signal.expectedSigner expectedType ∨
      (expectedType = signalOffer ∧ localID ≠ signal.responderID) ∨
      (expectedType = signalAnswer ∧ localID ≠ signal.initiatorID) then .error .invalidSignal
  else if signal.createdAt.after (now.add clockSkew) = true ∨ signal.expiresAt.after now = false ∨
      signal.expiresAt.after signal.createdAt = false ∨
      signal.expiresAt.sub signal.createdAt > maxSignalLifetime then .error .expiredSignal
  else if validateMedia signal.media = false then .error .invalidSignal
  else if signal.sdp.length = 0 ∨ signal.sdp.length > maxSDPBytes ∨ signal.sdp.contains 0 = true then
    .error .invalidSignal
  else
    match signalBytes signal with
    | none => .error .invalidSignal
    | some encoded =>
      if verify c signer signalDomain encoded signal.signature = false then .error .invalidSignal
      else if validateSDP parse signal.sdp signal.media = false then .error .invalidSignal
      else .ok ()

/-- What is known of a signal that is accepted. -/
structure Accepted (c : Primitives) (signal : Signal) (expectedType : SignalType)
    (signer : NodePublicIdentity) (localID : Bytes) (now : Time) : Prop where
  version : signal.version = protocolVersion
  type : signal.type = expectedType
  callID : validCallID signal.callID = true
  signedBy : signer.nodeID = signal.expectedSigner expectedType
  offered : expectedType = signalOffer → localID = signal.responderID
  answered : expectedType = signalAnswer → localID = signal.initiatorID
  created : signal.createdAt.ns ≤ now.ns + clockSkew
  expires : now.ns < signal.expiresAt.ns
  lifetime : signal.expiresAt.sub signal.createdAt ≤ maxSignalLifetime
  signed : ∃ encoded, signalBytes signal = some encoded ∧
    verify c signer signalDomain encoded signal.signature = true

section accepted

variable {c : Primitives} {parse : SDPParser} {signal : Signal} {expectedType : SignalType}
  {signer : NodePublicIdentity} {localID : Bytes} {now : Time}
  (h : verifySignal c parse signal expectedType signer localID now = .ok ())

include h

theorem verifySignal_accepted : Accepted c signal expectedType signer localID now := by
  unfold verifySignal at h
  split at h
  · cases h
  · rename_i hshape
    split at h
    · cases h
    · rename_i hparties
      split at h
      · cases h
      · rename_i hwindow
        simp only [not_or, not_and, not_not, Time.after_iff, Time.add_ns, not_lt,
          Bool.not_eq_false] at hshape hparties hwindow
        obtain ⟨-, hversion, htype, hid, -⟩ := hshape
        obtain ⟨hsigner, hoffer, hanswer⟩ := hparties
        obtain ⟨hcreated, hexpires, -, hlifetime⟩ := hwindow
        split at h
        · cases h
        · split at h
          · cases h
          · split at h
            · cases h
            · rename_i encoded hencoded
              split at h
              · cases h
              · rename_i hverify
                rw [Bool.not_eq_false] at hverify
                exact ⟨hversion, htype, hid, hsigner, hoffer, hanswer, hcreated, hexpires,
                  hlifetime, encoded, hencoded, hverify⟩

/-- A signal that is accepted expires later, and at most its lifetime and the skew later. -/
theorem verifySignal_window : validCallID signal.callID = true ∧ now.ns < signal.expiresAt.ns ∧
      signal.expiresAt.ns ≤ now.ns + (maxSignalLifetime + clockSkew) := by
  have haccepted := verifySignal_accepted h
  refine ⟨haccepted.callID, haccepted.expires, ?_⟩
  have hcreated := haccepted.created
  -- a difference of at most five minutes is not saturated
  have hsub : signal.expiresAt.ns - signal.createdAt.ns ≤ maxSignalLifetime := by
    have hmax : (maxSignalLifetime : Int) < maxInt64 := by decide
    have hle : min maxInt64 (signal.expiresAt.ns - signal.createdAt.ns) ≤ maxSignalLifetime :=
      (le_max_right _ _).trans haccepted.lifetime
    exact (min_le_iff.mp hle).resolve_left (not_le.mpr hmax)
  omega

omit h

end accepted

/-! ## A sample offer -/

/-- A description of one audio section with a fingerprint. -/
def sampleDescription : SessionDescription :=
  ⟨[⟨lit "fingerprint", lit "sha-256 00:00:00:00:00:00:00:00:00:00:00:00:00:00:00:00:00:00:00:00:00:00:00:00:00:00:00:00:00:00:00:00"⟩],
    [⟨lit "audio", []⟩]⟩

/-- A parser that finds the sample description in every text. -/
def sampleParser : SDPParser := fun _ => some sampleDescription

/-- An audio offer of the first sample identity to the second, made two minutes ahead of the
    epoch and valid for five. -/
def unsignedOffer : Signal where
  version := protocolVersion
  callID := sampleBytes 43 0x41
  type := signalOffer
  initiatorID := (sampleIdentity 1).nodeID
  responderID := (sampleIdentity 2).nodeID
  createdAt := Time.epoch.add clockSkew
  expiresAt := Time.epoch.add (maxSignalLifetime + clockSkew)
  media := ⟨true, false⟩
  sdp := lit "v=0"
  signature := HybridSignature.zero

/-- The offer with another description. -/
def offerWith (sdp : Bytes) : Signal := { unsignedOffer with sdp }

def signedOffer (sdp : Bytes) : Signal :=
  { offerWith sdp with
    signature := sampleSign signalDomain ((signalBytes (offerWith sdp)).getD []) }

theorem signedOffer_bytes {sdp : Bytes} (hsdp : (Json.escape sdp).length ≤ 16) :
    ∃ encoded, signalBytes (offerWith sdp) = some encoded := by
  obtain ⟨created, hc⟩ : ∃ text, unsignedOffer.createdAt.marshalText = some text := ⟨_, rfl⟩
  obtain ⟨expires, he⟩ : ∃ text, unsignedOffer.expiresAt.marshalText = some text := ⟨_, rfl⟩
  have hsignal : (signalFields.map fun f => f.name.length + 4).sum = 119 := rfl
  have hmedia : (mediaFields.map fun f => f.name.length + 4).sum = 18 := rfl
  have h1 : unsignedOffer.initiatorID.length = 64 := length_nodeID _
  have h2 : unsignedOffer.responderID.length = 64 := length_nodeID _
  have h3 : unsignedOffer.signature = HybridSignature.zero := rfl
  have hplain : Json.Plain unsignedOffer.callID ∧ Json.Plain unsignedOffer.type := by decide
  have htext : stringCodec.AtMost sdp 18 := by
    refine ⟨_, rfl, Nat.zero_le _, ?_⟩
    rw [length_render_str]
    omega
  have hsize : signalCodec.AtMost (offerWith sdp) 1000 := by
    refine structCodec_atMost hsignal (.cons (uint8Codec_atMost _) (.cons
      (stringCodec_sized hplain.1) (.cons (stringCodec_sized hplain.2) (.cons
        (stringCodec_sized (plain_nodeID _)) (.cons (stringCodec_sized (plain_nodeID _)) (.cons
          (timeCodec_sized hc) (.cons (timeCodec_sized he) (.cons (structCodec_atMost hmedia
            (.cons (boolCodec_atMost _) (.cons (boolCodec_atMost _) .nil)) le_rfl) (.cons
              htext (.cons (hybridSignatureCodec_sized _) .nil)))))))))) ?_
    have h4 : unsignedOffer.callID.length = 43 ∧ unsignedOffer.type.length = 5 := ⟨rfl, rfl⟩
    simp only [offerWith, h1, h2, h3, h4]
    decide
  obtain ⟨encoded, hencoded, hlength⟩ := marshal_atMost hsize
  have hzero : marshal signalCodec { offerWith sdp with signature := HybridSignature.zero } =
    some encoded := hencoded
  refine ⟨encoded, ?_⟩
  unfold signalBytes
  rw [hzero]
  exact if_neg (by unfold maxSignalBytes; omega)

def sampleOffer : Signal :=
  { unsignedOffer with
    signature := sampleSign signalDomain ((signalBytes unsignedOffer).getD []) }

/-- The second sample identity takes such an offer until it expires. -/
theorem signedOffer_verified {sdp : Bytes} (hescape : (Json.escape sdp).length ≤ 16)
    (hsdp : 0 < sdp.length ∧ sdp.length ≤ 16 ∧ sdp.contains 0 = false) {now : Time}
    (h0 : Time.epoch.ns ≤ now.ns) (h1 : now.ns < Time.epoch.ns + (maxSignalLifetime + clockSkew)) :
    verifySignal samplePrimitives sampleParser (signedOffer sdp) signalOffer (sampleIdentity 1)
      (sampleIdentity 2).nodeID now = .ok () := by
  obtain ⟨encoded, hencoded⟩ := signedOffer_bytes hescape
  have hbytes : signalBytes (signedOffer sdp) = some encoded := hencoded
  have hsigned : verify samplePrimitives (sampleIdentity 1) signalDomain encoded
      (signedOffer sdp).signature = true := by
    have hsignature : (signedOffer sdp).signature = sampleSign signalDomain encoded := by
      simp only [signedOffer, hencoded, Option.getD_some]
    rw [hsignature]
    exact verify_sampleSign _ _ _
  have hne : ∀ b, (sampleIdentity b).nodeID ≠ [] := fun b hnil => by
    have hlength : (sampleIdentity b).nodeID.length = 64 := length_nodeID _
    rw [hnil] at hlength
    cases hlength
  have hlimits : ¬ (sdp.length = 0 ∨ sdp.length > maxSDPBytes ∨ sdp.contains 0 = true) := by
    rintro (h | h | h)
    · omega
    · exact absurd (Nat.lt_of_lt_of_le h hsdp.2.1) (by decide)
    · rw [hsdp.2.2] at h
      cases h
  have hvalid : validateSDP sampleParser sdp ⟨true, false⟩ = true := by
    have hsample : validateSDP sampleParser (lit "v=0") ⟨true, false⟩ = true := by decide +kernel
    unfold validateSDP at hsample ⊢
    rw [if_neg (by decide)] at hsample
    rw [if_neg hlimits]
    exact hsample
  unfold verifySignal
  rw [if_neg, if_neg, if_neg, if_neg, if_neg, hbytes]
  · have hfields : (signedOffer sdp).sdp = sdp ∧ (signedOffer sdp).media = ⟨true, false⟩ :=
      ⟨rfl, rfl⟩
    simp only [hsigned, hfields, hvalid, Bool.true_eq_false, if_false]
  · exact hlimits
  · exact (by decide : ¬ validateMedia unsignedOffer.media = false)
  · have hlifetime : unsignedOffer.expiresAt.ns =
          Time.epoch.ns + (maxSignalLifetime + clockSkew) ∧
        unsignedOffer.createdAt.ns = Time.epoch.ns + clockSkew := ⟨rfl, rfl⟩
    have hpositive : (0 : Int) < maxSignalLifetime := by decide
    have hsub : unsignedOffer.expiresAt.sub unsignedOffer.createdAt = maxSignalLifetime := by
      decide
    simp only [signedOffer, offerWith, not_or, Time.after_iff, Time.add_ns, not_lt, Bool.not_eq_false, hlifetime, hsub]
    refine ⟨?_, h1, ?_, le_rfl⟩
    · exact Int.add_le_add_right h0 _
    · omega
  · rintro (h | ⟨-, h⟩ | ⟨h, -⟩)
    · exact h rfl
    · exact h rfl
    · exact absurd h (by decide)
  · rintro (h | h | h | h | h | h | h)
    · exact absurd h (by rw [sampleIdentity_valid]; decide)
    · exact h rfl
    · exact h rfl
    · exact absurd h (by decide : ¬ validCallID unsignedOffer.callID = false)
    · exact hne _ h
    · exact hne _ h
    · exact sampleIdentity_ne h

theorem sampleOffer_verified {now : Time} (h0 : Time.epoch.ns ≤ now.ns)
    (h1 : now.ns < Time.epoch.ns + (maxSignalLifetime + clockSkew)) :
    verifySignal samplePrimitives sampleParser sampleOffer signalOffer (sampleIdentity 1)
      (sampleIdentity 2).nodeID now = .ok () :=
  @signedOffer_verified (lit "v=0") (by decide) (by decide) now h0 h1

end Veilmesh.Call

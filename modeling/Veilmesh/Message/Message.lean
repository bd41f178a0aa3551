/-
  Signed direct messages (`message/message.go`).

  A message names its sender, its recipient and the sending device, carries its own
  lifetime, and is signed by the device over its JSON text without the signature.

  * `signedMessageCodec_roundtrips`: a message of plain identifiers is read back from its
    encoding.
  * `newDirect_verifies`: a message made by `NewDirect` verifies from five minutes before
    its creation until five minutes after its expiry.
  * `newDirect_delivered_iff`: which new messages verify at once.
-/
import Veilmesh.Account.Local

namespace Veilmesh.Message

open Lib Protocol Pqcrypto Identity Account

def version : UInt8 := 1
def maxBodyBytes : Nat := 192 * 1024
def maxSignedMessageBytes : Nat := 300 * 1024
def messageIDBytes : Nat := 32

def directKind : Bytes := lit "direct"

structure SignedMessage where
  version : UInt8
  kind : Bytes
  messageID : Bytes
  senderID : Bytes
  recipientID : Bytes
  senderProfileRevision : UInt64
  senderDevice : DeviceCertificate
  createdAt : Time
  expiresAt : Time
  body : Bytes
  signature : HybridSignature
  deriving DecidableEq, Repr

/-- The zero message a decoder starts from. -/
def SignedMessage.zero : SignedMessage :=
  ⟨0, [], [], [], [], 0, DeviceCertificate.zero, Time.zero, Time.zero, [], HybridSignature.zero⟩

def signedMessageFields : List (JsonField SignedMessage) := [
  ⟨lit "version", UInt8, (·.version), fun m v => { m with version := v }, uint8Codec⟩,
  ⟨lit "kind", Bytes, (·.kind), fun m v => { m with kind := v }, stringCodec⟩,
  ⟨lit "message_id", Bytes, (·.messageID), fun m v => { m with messageID := v }, stringCodec⟩,
  ⟨lit "sender_id", Bytes, (·.senderID), fun m v => { m with senderID := v }, stringCodec⟩,
  ⟨lit "recipient_id", Bytes, (·.recipientID), fun m v => { m with recipientID := v }, stringCodec⟩,
  ⟨lit "sender_profile_revision", UInt64, (·.senderProfileRevision),
    fun m v => { m with senderProfileRevision := v }, uint64Codec⟩,
  ⟨lit "sender_device", DeviceCertificate, (·.senderDevice),
    fun m v => { m with senderDevice := v }, deviceCertificateCodec⟩,
  ⟨lit "created_at", Time, (·.createdAt), fun m v => { m with createdAt := v }, timeCodec⟩,
  ⟨lit "expires_at", Time, (·.expiresAt), fun m v => { m with expiresAt := v }, timeCodec⟩,
  ⟨lit "body", Bytes, (·.body), fun m v => { m with body := v }, bytesCodec⟩,
  ⟨lit "signature", HybridSignature, (·.signature), fun m v => { m with signature := v },
    hybridSignatureCodec⟩]

def signedMessageCodec : Codec SignedMessage := structCodec signedMessageFields

inductive MessageError where
  | invalidMessage
  | uncertifiedSender
  | invalidSignature
  | messageSize
  | encoding
  | bodySize
  deriving DecidableEq, Repr

/-! ## Encoding -/

def encode (message : SignedMessage) : Except MessageError Bytes :=
  match marshal signedMessageCodec message with
  | none => .error .encoding
  | some encoded =>
    if encoded.length = 0 ∨ encoded.length > maxSignedMessageBytes then .error .messageSize
    else .ok encoded

def decode (encoded : Bytes) : Except MessageError SignedMessage :=
  if encoded.length = 0 ∨ encoded.length > maxSignedMessageBytes then .error .messageSize
  else
    match unmarshal signedMessageCodec SignedMessage.zero encoded with
    | none => .error .encoding
    | some message =>
      if message.body.length = 0 ∨ message.body.length > maxBodyBytes then .error .bodySize
      else .ok message

/-- The identifiers of a message need no escaping, and its times can be written. -/
structure MessagePlain (m : SignedMessage) : Prop where
  kind : Json.Plain m.kind
  messageID : Json.Plain m.messageID
  senderID : Json.Plain m.senderID
  recipientID : Json.Plain m.recipientID
  accountID : Json.Plain m.senderDevice.accountID
  device : DescriptorPlain m.senderDevice.device
  created : m.createdAt.off % 60 = 0 ∧ m.createdAt.marshalText.isSome
  expires : m.expiresAt.off % 60 = 0 ∧ m.expiresAt.marshalText.isSome

variable {m message : SignedMessage} {random recipient recipientID body : Bytes} {c : Primitives}
  {now : Time} {sender : LocalAccount c} {retention : Duration}

theorem signedMessageCodec_roundtrips (h : MessagePlain m) : signedMessageCodec.Roundtrips m :=
  structCodec_roundtrips ⟨by decide, by decide⟩ (fun s => rfl) (.cons (uint8Codec_roundtrips _)
    (.cons (stringCodec_roundtrips h.kind) (.cons (stringCodec_roundtrips h.messageID)
    (.cons (stringCodec_roundtrips h.senderID) (.cons (stringCodec_roundtrips h.recipientID)
    (.cons (uint64Codec_roundtrips _)
    (.cons (deviceCertificateCodec_roundtrips h.accountID h.device)
    (.cons (timeCodec_roundtrips h.created.1) (.cons (timeCodec_roundtrips h.expires.1)
    (.cons (bytesCodec_roundtrips _) (.cons (hybridSignatureCodec_roundtrips _) .nil)))))))))))

theorem signedMessageCodec_atMost (h : MessagePlain m) {i n j k : Nat}
    (hdev : deviceCertificateCodec.Sized m.senderDevice i n)
    (hsig : hybridSignatureCodec.Sized m.signature j k) :
    signedMessageCodec.AtMost m (m.kind.length + m.messageID.length + m.senderID.length +
      m.recipientID.length + 4 * ((m.body.length + 2) / 3) + n + k + 283) := by
  obtain ⟨created, hcreated⟩ := Option.isSome_iff_exists.mp h.created.2
  obtain ⟨expires, hexpires⟩ := Option.isSome_iff_exists.mp h.expires.2
  exact structCodec_atMost (k := 155) rfl (.cons (uint8Codec_atMost _)
    (.cons (stringCodec_sized h.kind) (.cons (stringCodec_sized h.messageID)
      (.cons (stringCodec_sized h.senderID) (.cons (stringCodec_sized h.recipientID)
        (.cons (uint64Codec_atMost _) (.cons hdev (.cons (timeCodec_sized hcreated)
          (.cons (timeCodec_sized hexpires) (.cons (bytesCodec_sized _) (.cons hsig .nil)))))))))))
    (by dsimp only; omega)

/-! ## Verification -/

def validMessageID (messageID : Bytes) : Bool :=
  if messageID.length ≠ (8 * messageIDBytes + 5) / 6 then false
  else
    match base64Decode base64UrlAlphabet false true messageID with
    | some decoded => decoded.length == messageIDBytes
    | none => false

def messageSigningBytes (message : SignedMessage) : Option Bytes :=
  marshal signedMessageCodec { message with signature := HybridSignature.zero }

def validateDirectStructure (message : SignedMessage) (expectedRecipient : Bytes) (now : Time) :
    Except MessageError Unit :=
  if message.version ≠ version ∨ message.kind ≠ directKind ∨
      validMessageID message.messageID = false ∨ validAccountID message.senderID = false ∨
      validAccountID message.recipientID = false ∨ message.senderID = message.recipientID ∨
      message.recipientID ≠ expectedRecipient ∨ message.senderProfileRevision = 0 ∨
      message.senderDevice.accountID ≠ message.senderID ∨ message.body.length = 0 ∨
      message.body.length > maxBodyBytes ∨ message.createdAt.isZero = true ∨
      message.expiresAt.isZero = true ∨ message.createdAt.after (now.add (5 * minute)) = true ∨
      message.expiresAt.after message.createdAt = false ∨
      message.expiresAt.sub message.createdAt > fixedItemRetention ∨
      now.after (message.expiresAt.add (5 * minute)) = true then .error .invalidMessage
  else .ok ()

def messageDomain : Bytes := lit "client-direct-message"

def verifyDirect (c : Primitives) (senderProfile : PublicProfile) (message : SignedMessage)
    (expectedRecipient : Bytes) (now : Time) : Except MessageError SignedMessage :=
  match validateDirectStructure message expectedRecipient now with
  | .error e => .error e
  | .ok () =>
    if senderProfile.accountID ≠ message.senderID ∨
        senderProfile.revision < message.senderProfileRevision ∨
        verifyPublicProfile c senderProfile now ≠ .ok () ∨
        verifyDevice c senderProfile.accountPublic message.senderDevice = false ∨
        profileContainsDevice senderProfile message.senderDevice = false then
      .error .uncertifiedSender
    else
      match messageSigningBytes message with
      | none => .error .invalidSignature
      | some encoded =>
        if encoded.length > maxSignedMessageBytes ∨
            verify c message.senderDevice.device.signingKey messageDomain encoded
              message.signature = false then .error .invalidSignature
        else .ok message

/-! ## Making messages -/

inductive NewDirectError where
  | invalidInput
  | encoding
  | tooLarge
  deriving DecidableEq, Repr

/-- The text of 32 random bytes. -/
def messageIDText (random : Bytes) : Bytes := base64Encode base64UrlAlphabet false random

/-- The message before it is signed. -/
def unsignedDirect {c : Primitives} (sender : LocalAccount c) (recipientID body : Bytes) (now : Time)
    (retention : Duration) (random : Bytes) : SignedMessage :=
  let createdAt := now.utc.truncate millisecond
  { version := version
    kind := directKind
    messageID := messageIDText random
    senderID := sender.id
    recipientID := recipientID
    senderProfileRevision := sender.profile.revision
    senderDevice := sender.deviceCert
    createdAt := createdAt
    expiresAt := (createdAt.add retention).truncate millisecond
    body := body
    signature := HybridSignature.zero }

/-- `NewDirect` with the random bytes it reads. -/
def newDirect {c : Primitives} (sender : LocalAccount c) (recipientID body : Bytes) (now : Time)
    (retention : Duration) (random : Bytes) : Except NewDirectError SignedMessage :=
  if validAccountID recipientID = false ∨ recipientID = sender.id ∨ body.length = 0 ∨
      body.length > maxBodyBytes ∨ now.isZero = true ∨ retention ≤ 0 ∨
      retention > fixedItemRetention then .error .invalidInput
  else
    let message := unsignedDirect sender recipientID body now retention random
    match messageSigningBytes message with
    | none => .error .encoding
    | some encoded =>
      if encoded.length > maxSignedMessageBytes then .error .tooLarge
      else .ok { message with signature := sender.deviceSigner.sign messageDomain encoded }

theorem validMessageID_spec {messageID : Bytes} : validMessageID messageID = true ↔
    ∃ random : Bytes, random.length = 32 ∧ messageID = messageIDText random := by
  have hroute : validMessageID messageID = validRouteTag messageID := by
    unfold validMessageID validRouteTag
    change (if messageID.length ≠ 43 then false else _) = _
    split
    · rename_i hlen
      rw [beq_eq_false_iff_ne.mpr hlen, Bool.false_and]
    · rename_i hlen
      rw [beq_iff_eq.mpr (not_not.mp hlen), Bool.true_and]
      rfl
  rw [hroute]
  exact validRouteTag_spec

theorem validMessageID_text (h : random.length = messageIDBytes) :
    validMessageID (messageIDText random) = true := validMessageID_spec.mpr ⟨random, h, rfl⟩

/-- What `VerifyDirect` has looked at. -/
theorem verifyDirect_ok {profile : PublicProfile} {verified : SignedMessage}
    (h : verifyDirect c profile message recipient now = .ok verified) :
    verified = message ∧ validateDirectStructure message recipient now = .ok () ∧
      verifyPublicProfile c profile now = .ok () := by
  unfold verifyDirect at h
  split at h
  · cases h
  rename_i hstruct
  split at h
  · cases h
  rename_i hsender
  simp only [not_or, ne_eq, not_not] at hsender
  split at h
  · cases h
  split at h
  · cases h
  exact ⟨(Except.ok.inj h).symm, hstruct, hsender.2.2.1⟩

/-- A message that is signed has times that can be written. -/
theorem messageSigningBytes_times {data : Bytes} (h : messageSigningBytes message = some data) :
    message.createdAt.marshalText.isSome ∧ message.expiresAt.marshalText.isSome := by
  obtain ⟨j, hj, -⟩ := Option.map_eq_some_iff.mp h
  have hwrites : ∀ f ∈ signedMessageFields, f.codec.Writes _ :=
    fun f hf => structCodec_writes_field ⟨j, hj⟩ hf
  obtain ⟨created, hcreated⟩ := timeCodec_writes_iff.mp (hwrites
    ⟨lit "created_at", Time, (·.createdAt), fun m v => { m with createdAt := v }, timeCodec⟩
    (by simp [signedMessageFields]))
  obtain ⟨expires, hexpires⟩ := timeCodec_writes_iff.mp (hwrites
    ⟨lit "expires_at", Time, (·.expiresAt), fun m v => { m with expiresAt := v }, timeCodec⟩
    (by simp [signedMessageFields]))
  exact ⟨Option.isSome_of_eq_some hcreated, Option.isSome_of_eq_some hexpires⟩

/-- What `NewDirect` checks, and what it makes. -/
structure MadeDirect {c : Primitives} (sender : LocalAccount c) (recipientID body : Bytes) (now : Time)
    (retention : Duration) (random : Bytes) (m : SignedMessage) : Prop where
  recipient : validAccountID recipientID = true
  other : recipientID ≠ sender.id
  written : body.length ≠ 0
  short : body.length ≤ maxBodyBytes
  dated : now.isZero = false
  positive : 0 < retention
  bounded : retention ≤ fixedItemRetention
  signed : ∃ encoded, messageSigningBytes
      (unsignedDirect sender recipientID body now retention random) = some encoded ∧
    encoded.length ≤ maxSignedMessageBytes ∧
    m = { unsignedDirect sender recipientID body now retention random with
      signature := sender.deviceSigner.sign messageDomain encoded }

theorem newDirect_made (h : newDirect sender recipientID body now retention random = .ok m) :
    MadeDirect sender recipientID body now retention random m := by
  simp only [newDirect] at h
  split at h
  · cases h
  rename_i hin
  simp only [not_or, Bool.not_eq_false, Bool.not_eq_true, not_lt, not_le] at hin
  obtain ⟨hrid, hne, hbody, hmax, hnow, hpos, hret⟩ := hin
  split at h
  · cases h
  rename_i encoded hm
  split at h
  · cases h
  rename_i hlen
  exact ⟨hrid, hne, hbody, hmax, hnow, hpos, hret, encoded, hm, not_lt.mp hlen,
    (Except.ok.inj h).symm⟩

/-- Made by a consistent account, a message verifies within five minutes of its lifetime. -/
theorem newDirect_verifies (hs : sender.Consistent)
    (h : newDirect sender recipientID body now retention random = .ok m)
    (hrandom : random.length = messageIDBytes) (hc : m.createdAt.isZero = false)
    (he : m.expiresAt.isZero = false) (hlife : m.createdAt.ns < m.expiresAt.ns) {t : Time}
    (hprofile : sender.profile.updatedAt.ns ≤ t.ns + 5 * minute)
    (hlow : m.createdAt.ns ≤ t.ns + 5 * minute) (hhigh : t.ns ≤ m.expiresAt.ns + 5 * minute) :
    verifyDirect c sender.profile m recipientID t = .ok m := by
  obtain ⟨hrid, hne, hbody, hmax, -, -, hret, encoded, hm, hlen, rfl⟩ := newDirect_made h
  dsimp only at hc he hlife hlow hhigh
  set u := unsignedDirect sender recipientID body now retention random
  have hstruct : validateDirectStructure
      { u with signature := sender.deviceSigner.sign messageDomain encoded } recipientID t =
        .ok () := by
    refine if_neg ?_
    have hafter : ¬ u.createdAt.after (t.add (5 * minute)) = true := by
      rw [Time.after_iff]
      exact not_lt.mpr hlow
    have hexp : u.expiresAt.after u.createdAt = true := (Time.after_iff _ _).mpr hlife
    have hlong : ¬ u.expiresAt.sub u.createdAt > fixedItemRetention :=
      not_lt.mpr (Time.rounded_sub_le hret (by decide))
    have hlate : ¬ t.after (u.expiresAt.add (5 * minute)) = true := by
      rw [Time.after_iff]
      exact not_lt.mpr hhigh
    simp only [not_or]
    refine ⟨by simp [u, unsignedDirect], by simp [u, unsignedDirect], ?_, ?_, ?_, ?_, ?_, ?_, ?_,
      hbody, not_lt.mpr hmax, by simp [hc], by simp [he], hafter, by simp [hexp], hlong, hlate⟩
    · simp [u, unsignedDirect, validMessageID_text hrandom]
    · simp [u, unsignedDirect, LocalAccount.id, hs.valid]
    · simp [u, unsignedDirect, hrid]
    · exact fun he => hne he.symm
    · exact fun hf => hf rfl
    · exact hs.revision
    · exact fun hf => hf hs.owner
  have hbytes : messageSigningBytes
      { u with signature := sender.deviceSigner.sign messageDomain encoded } = some encoded := hm
  rw [verifyDirect, hstruct]
  dsimp only
  rw [if_neg, hbytes]
  · refine if_neg (not_or.mpr ⟨not_lt.mpr hlen, ?_⟩)
    rw [show u.senderDevice.device.signingKey = _ from hs.key, sender.deviceSigner.verifies]
    exact Bool.true_eq_false_eq_False
  · simp only [not_or, not_not, Bool.not_eq_false]
    exact ⟨rfl, UInt64.lt_irrefl _, hs.verified t hprofile, hs.certified, hs.listed⟩

/-- With the keys at hand, an accepted body and a lifetime, a message is made. -/
theorem newDirect_ok {c : Primitives} {sender : LocalAccount c} (hs : sender.Consistent)
    (hkem : sender.deviceCert.device.hpkePublicKey.length ≤ 1216) {recipientID body random : Bytes}
    {now : Time} {retention : Duration} (hvalid : validAccountID recipientID = true)
    (hrid : Json.Plain recipientID) (hne : recipientID ≠ sender.id) (hbody : body.length ≠ 0)
    (hmax : body.length ≤ maxBodyBytes) (hnow : now.isZero = false) (hpos : 0 < retention)
    (hret : retention ≤ fixedItemRetention) (hrandom : random.length = messageIDBytes)
    (hcreated : (now.utc.truncate millisecond).marshalText.isSome)
    (hexpires : (((now.utc.truncate millisecond).add retention).truncate
      millisecond).marshalText.isSome) :
    ∃ sig data, newDirect sender recipientID body now retention random =
        .ok { unsignedDirect sender recipientID body now retention random with signature := sig } ∧
      encode { unsignedDirect sender recipientID body now retention random with signature := sig } =
        .ok data ∧
      decode data =
        .ok { unsignedDirect sender recipientID body now retention random with signature := sig } := by
  obtain ⟨hacc, hplainDev⟩ := verifyDevice_plain hs.certified
  have hoff : ∀ (t : Time) (d : Duration), (t.truncate d).off = t.off := by
    intro t d
    unfold Time.truncate
    split <;> rfl
  have hplain : ∀ sig, MessagePlain
      { unsignedDirect sender recipientID body now retention random with signature := sig } := by
    have hsender : Json.Plain sender.profile.accountID := hs.owner ▸ hacc
    refine fun sig => ⟨(by decide : Json.Plain directKind), plain_base64Url _, hsender, hrid, hacc,
      hplainDev, ⟨?_, hcreated⟩, ?_, hexpires⟩
    · simp only [unsignedDirect, hoff, Time.utc]
      decide
    · simp only [unsignedDirect, hoff, Time.add, Time.utc]
      decide
  have hdev := verifyDevice_sized hs.certified
  have hsize : ∀ sig : HybridSignature, sig.ed25519.length ≤ 64 → sig.mldsa65.length ≤ 3309 →
      ∃ data, marshal signedMessageCodec
        { unsignedDirect sender recipientID body now retention random with signature := sig } =
          some data ∧ data.length ≤ maxSignedMessageBytes := by
    intro sig hed hml
    refine marshal_atMost ((signedMessageCodec_atMost (hplain sig) hdev
      (hybridSignatureCodec_sized _)).atMost ?_)
    have h1 : (messageIDText random).length = 43 := by
      rw [messageIDText, length_base64Encode, hrandom]
      rfl
    have h2 : recipientID.length = 58 := length_of_valid hvalid
    have h3 : sender.id.length = 58 := length_of_valid hs.valid
    have h4 : directKind.length = 6 := rfl
    simp only [unsignedDirect, h1, h2, h3, h4]
    simp only [maxBodyBytes, maxSignedMessageBytes] at hmax ⊢
    omega
  obtain ⟨encoded, hm, hlen⟩ := hsize HybridSignature.zero (by decide) (by decide)
  set sig := sender.deviceSigner.sign messageDomain encoded with hsig
  have hsizes := verify_sizes (sender.deviceSigner.verifies messageDomain encoded)
  obtain ⟨data, hdata, hdlen⟩ := hsize sig hsizes.1.le hsizes.2.le
  have hback := @unmarshal_marshal _ _ _ SignedMessage.zero _
    (signedMessageCodec_roundtrips (hplain sig)) hdata
  have hdpos : data.length ≠ 0 := by
    intro h0
    rw [List.length_eq_zero_iff.mp h0] at hback
    cases hback
  refine ⟨sig, data, ?_, ?_, ?_⟩
  · rw [newDirect, if_neg]
    · dsimp only
      rw [show messageSigningBytes _ = some encoded from hm]
      exact if_neg (not_lt.mpr hlen)
    · simp only [hvalid, hne, hbody, hnow, not_or]
      exact ⟨by decide, by simp, by simp, not_lt.mpr hmax, by decide, not_le.mpr hpos,
        not_lt.mpr hret⟩
  · rw [encode, hdata]
    exact if_neg (by omega)
  · rw [decode, if_neg (by omega), hback]
    exact if_neg (not_or.mpr ⟨hbody, not_lt.mpr hmax⟩)

/-! ## Delivery at once -/

/-- The receiver decodes the message that the sender has encoded. -/
theorem newDirect_decodes (hkem : KEMSized c) (hs : sender.Consistent)
    (hrandom : random.length = messageIDBytes)
    (h : newDirect sender recipientID body now retention random = .ok m) :
    ∃ encoded, encode m = .ok encoded ∧ decode encoded = .ok m := by
  obtain ⟨hrid, hne, hbody, hmax, hnow, hpos, hret, encoded, hm, -, -⟩ := newDirect_made h
  obtain ⟨hcreated, hexpires⟩ := messageSigningBytes_times hm
  obtain ⟨sig, data, hnew, hencode, hdecode⟩ := newDirect_ok hs
    (verifyDevice_kem hkem hs.certified).le hrid (plain_of_valid (by decide) hrid) hne hbody hmax hnow
    hpos hret hrandom hcreated hexpires
  obtain rfl := Except.ok.inj (hnew.symm.trans h)
  exact ⟨data, hencode, hdecode⟩

/-- At its own time a new message verifies exactly if its lifetime survives the rounding and the
    profile of its sender is not from the future. -/
theorem newDirect_verifies_iff (hs : sender.Consistent) (hrandom : random.length = messageIDBytes)
    (h : newDirect sender recipientID body now retention random = .ok m) :
    verifyDirect c sender.profile m recipientID now = .ok m ↔
      now.Lasts retention ∧ sender.profile.updatedAt.ns ≤ now.ns + 5 * minute := by
  have hmade := newDirect_made h
  obtain ⟨encoded, -, -, hm⟩ := hmade.signed
  constructor
  · intro hv
    obtain ⟨-, hstruct, hprofile⟩ := verifyDirect_ok hv
    refine ⟨(Time.lasts_iff hmade.positive).mpr ?_, (verifyPublicProfile_ok_iff.mp hprofile).2.2⟩
    unfold validateDirectStructure at hstruct
    split at hstruct
    · cases hstruct
    rename_i hok
    simp only [not_or, Time.isZero_iff, Bool.not_eq_false, Time.after_iff, hm] at hok
    exact ⟨hok.2.2.2.2.2.2.2.2.2.2.2.1, hok.2.2.2.2.2.2.2.2.2.2.2.2.1,
      hok.2.2.2.2.2.2.2.2.2.2.2.2.2.2.1⟩
  · rintro ⟨hlasts, hprofile⟩
    have hfive : (0 : Int) ≤ 5 * minute := by decide
    obtain ⟨hstart, hend, hlt⟩ := (Time.lasts_iff hmade.positive).mp hlasts
    refine newDirect_verifies hs h hrandom ?_ ?_ ?_ hprofile ?_ ?_
    · rw [hm]
      exact hlasts.2.1
    · rw [hm]
      exact hlasts.2.2
    · rw [hm]
      exact hlt
    · rw [hm]
      exact now.truncate_le.trans (Int.le_add_of_nonneg_right hfive)
    · rw [hm]
      exact (hlasts.le_end hmade.positive).trans (Int.le_add_of_nonneg_right hfive)

/-- A new message can be delivered: it is encoded and decoded again, and verifies at its own time
    exactly if its lifetime survives the rounding and the profile of its sender is not from the
    future. -/
theorem newDirect_delivered_iff {c : Primitives} (hkem : KEMSized c) (sender : LocalAccount c)
    (huse : sender.InUse) (recipientID body : Bytes) (now : Time) (retention : Duration)
    (random : Bytes) (hrandom : random.length = messageIDBytes) (m : SignedMessage)
    (h : newDirect sender recipientID body now retention random = .ok m) :
    (∃ encoded, encode m = .ok encoded ∧ decode encoded = .ok m) ∧
      (verifyDirect c sender.profile m recipientID now = .ok m ↔
        now.Lasts retention ∧ sender.profile.updatedAt.ns ≤ now.ns + 5 * minute) :=
  ⟨newDirect_decodes hkem huse.consistent hrandom h, newDirect_verifies_iff huse.consistent hrandom h⟩

/-- Whatever the sender is called, someone else can be the recipient. -/
theorem exists_other_account (id : Bytes) :
    ∃ other, validAccountID other = true ∧ Json.Plain other ∧ other ≠ id := by
  have hvalid : ∀ b : UInt8,
      validAccountID (accountPrefix ++ base32Encode (sampleBytes 32 b)) = true ∧
        Json.Plain (accountPrefix ++ base32Encode (sampleBytes 32 b)) :=
    fun b => ⟨valid_own _ (length_sampleBytes _ _), Json.Plain.append (by decide) (plain_base32Encode _)⟩
  by_cases h : accountPrefix ++ base32Encode (sampleBytes 32 0) = id
  · refine ⟨_, (hvalid 1).1, (hvalid 1).2, fun h' => ?_⟩
    have := base32Encode_inj (List.append_cancel_left (h.trans h'.symm))
    exact absurd this (by decide)
  · exact ⟨_, (hvalid 0).1, (hvalid 0).2, h⟩

/-- An account that was registered at the epoch, and someone to write to. -/
theorem sample_sender : ∃ (account : LocalAccount samplePrimitives) (recipient : Bytes),
    account.InUse ∧ account.profile.updatedAt = Time.epoch ∧ validAccountID recipient = true ∧
      recipient ≠ account.id := by
  obtain ⟨account, hreg, hupd, -, -⟩ := @register_ok _ (sampleSigner 1) (sampleSigner 2)
    (sampleBytes 1216 0) (beq_iff_eq.mpr (length_sampleBytes 1216 0)) Time.epoch (by decide)
    (by decide) _ rfl
  obtain ⟨recipient, hvalid, -, hne⟩ := exists_other_account account.id
  exact ⟨account, recipient, .registered hreg, hupd, hvalid, hne⟩

/-- Such an account can write for any time that a message may be kept. -/
theorem sample_direct {account : LocalAccount samplePrimitives} (huse : account.InUse)
    (hvalid : validAccountID recipient = true) (hne : recipient ≠ account.id) (hpos : 0 < retention)
    (hret : retention ≤ fixedItemRetention)
    (hexpires : ((Time.epoch.add retention).truncate millisecond).marshalText.isSome) :
    ∃ sig, newDirect account recipient [0] Time.epoch retention (sampleBytes 32 0) =
      .ok { unsignedDirect account recipient [0] Time.epoch retention (sampleBytes 32 0) with
        signature := sig } := by
  have hs := huse.consistent
  obtain ⟨sig, -, hnew, -, -⟩ := @newDirect_ok _ _ hs
    (verifyDevice_kem samplePrimitives_kemSized hs.certified).le recipient [0] (sampleBytes 32 0)
    Time.epoch retention hvalid (plain_of_valid (by decide) hvalid) hne (by decide) (by decide)
    (by decide) hpos hret (length_sampleBytes 32 0) (by decide) hexpires
  exact ⟨sig, hnew⟩

/-- A message that is kept for half a millisecond is made, and refused at once. -/
theorem newDirect_half_millisecond :
    ∃ (account : LocalAccount samplePrimitives) (recipient : Bytes) (m : SignedMessage),
      account.InUse ∧
      newDirect account recipient [0] Time.epoch 500000 (sampleBytes 32 0) = .ok m ∧
      verifyDirect samplePrimitives account.profile m recipient Time.epoch = .error .invalidMessage := by
  obtain ⟨account, recipient, huse, -, hvalid, hne⟩ := sample_sender
  obtain ⟨sig, hnew⟩ := sample_direct huse hvalid hne (by decide : (0 : Int) < 500000) (by decide)
    (by decide)
  refine ⟨account, recipient, _, huse, hnew, ?_⟩
  have hstruct : validateDirectStructure
      { unsignedDirect account recipient [0] Time.epoch 500000 (sampleBytes 32 0) with
        signature := sig } recipient Time.epoch = .error .invalidMessage := by
    refine if_pos ?_
    iterate 14 right
    exact Or.inl (by decide : ((Time.epoch.add 500000).truncate millisecond).after Time.epoch = false)
  rw [verifyDirect, hstruct]

/-- A message that is kept as long as possible is delivered. -/
theorem newDirect_delivered_sixty_days :
    ∃ (account : LocalAccount samplePrimitives) (recipient : Bytes) (m : SignedMessage),
      account.InUse ∧
      newDirect account recipient [0] Time.epoch fixedItemRetention (sampleBytes 32 0) = .ok m ∧
      verifyDirect samplePrimitives account.profile m recipient Time.epoch = .ok m := by
  obtain ⟨account, recipient, huse, hupd, hvalid, hne⟩ := sample_sender
  obtain ⟨sig, hnew⟩ := sample_direct huse hvalid hne (by decide : 0 < fixedItemRetention) le_rfl
    (by decide)
  refine ⟨account, recipient, _, huse, hnew, ?_⟩
  refine (newDirect_delivered_iff samplePrimitives_kemSized account huse recipient [0] Time.epoch
    fixedItemRetention (sampleBytes 32 0) (length_sampleBytes 32 0) _ hnew).2.mpr ⟨by decide, ?_⟩
  rw [hupd]
  decide

end Veilmesh.Message

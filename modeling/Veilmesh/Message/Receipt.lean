/-
  Delivery receipts (`message/receipt.go`).

  A device that has verified a message signs a receipt with the digest of the message, encoded
  again, and with the time it was received. The sender compares the digest with that of its own
  copy.

  * `deliveryReceiptCodec_roundtrips`: a receipt of plain identifiers is read back from its
    encoding.
  * `verifyDevice_of_listed`: a device that a verified profile lists is certified by its account.
  * `receipt_loop`: the receipt for a message is accepted for this message, unless the time of
    the receipt is rounded to the zero time, and for no other.
-/
import Veilmesh.Message.Message

namespace Veilmesh.Message

open Lib Protocol Pqcrypto Identity Account

def maxReceiptBytes : Nat := 64 * 1024

structure DeliveryReceipt where
  version : UInt8
  messageID : Bytes
  messageDigest : Bytes
  senderID : Bytes
  recipientID : Bytes
  receiverProfileRevision : UInt64
  receiverDevice : DeviceCertificate
  receivedAt : Time
  signature : HybridSignature
  deriving DecidableEq, Repr

def DeliveryReceipt.zero : DeliveryReceipt :=
  ⟨0, [], [], [], [], 0, DeviceCertificate.zero, Time.zero, HybridSignature.zero⟩

def deliveryReceiptFields : List (JsonField DeliveryReceipt) := [
  ⟨lit "version", UInt8, (·.version), fun r v => { r with version := v }, uint8Codec⟩,
  ⟨lit "message_id", Bytes, (·.messageID), fun r v => { r with messageID := v }, stringCodec⟩,
  ⟨lit "message_digest", Bytes, (·.messageDigest), fun r v => { r with messageDigest := v },
    bytesCodec⟩,
  ⟨lit "sender_id", Bytes, (·.senderID), fun r v => { r with senderID := v }, stringCodec⟩,
  ⟨lit "recipient_id", Bytes, (·.recipientID), fun r v => { r with recipientID := v }, stringCodec⟩,
  ⟨lit "receiver_profile_revision", UInt64, (·.receiverProfileRevision),
    fun r v => { r with receiverProfileRevision := v }, uint64Codec⟩,
  ⟨lit "receiver_device", DeviceCertificate, (·.receiverDevice),
    fun r v => { r with receiverDevice := v }, deviceCertificateCodec⟩,
  ⟨lit "received_at", Time, (·.receivedAt), fun r v => { r with receivedAt := v }, timeCodec⟩,
  ⟨lit "signature", HybridSignature, (·.signature), fun r v => { r with signature := v },
    hybridSignatureCodec⟩]

def deliveryReceiptCodec : Codec DeliveryReceipt := structCodec deliveryReceiptFields

inductive ReceiptError where
  | receiver
  | message (e : MessageError)
  | encoding
  | tooLarge
  | invalidReceipt
  | uncertifiedDevice
  | digestMismatch
  | invalidSignature
  | receiptSize
  | structureInvalid
  deriving DecidableEq, Repr

/-! ## The functions -/

def digest (message : SignedMessage) : Except MessageError Bytes :=
  match encode message with
  | .error e => .error e
  | .ok encoded => .ok (sha256 encoded)

def receiptSigningBytes (receipt : DeliveryReceipt) : Option Bytes :=
  marshal deliveryReceiptCodec { receipt with signature := HybridSignature.zero }

def receiptDomain : Bytes := lit "client-delivery-receipt"

/-- The receipt before it is signed. -/
def unsignedReceipt {c : Primitives} (receiver : LocalAccount c) (message : SignedMessage)
    (messageDigest : Bytes) (now : Time) : DeliveryReceipt :=
  { version := version
    messageID := message.messageID
    messageDigest := messageDigest
    senderID := receiver.id
    recipientID := message.senderID
    receiverProfileRevision := receiver.profile.revision
    receiverDevice := receiver.deviceCert
    receivedAt := now.utc.truncate millisecond
    signature := HybridSignature.zero }

/-- `NewDeliveryReceipt` for the message in a verified message. -/
def newDeliveryReceipt {c : Primitives} (receiver : LocalAccount c) (message : SignedMessage)
    (now : Time) : Except ReceiptError DeliveryReceipt :=
  if message.messageID = [] ∨ receiver.id ≠ message.recipientID ∨ now.isZero = true ∨
      now.before (message.createdAt.add (-5 * minute)) = true ∨
      now.after (message.expiresAt.add (5 * minute)) = true then .error .receiver
  else
    match digest message with
    | .error e => .error (.message e)
    | .ok messageDigest =>
      let receipt := unsignedReceipt receiver message messageDigest now
      match receiptSigningBytes receipt with
      | none => .error .encoding
      | some encoded =>
        if encoded.length > maxReceiptBytes then .error .tooLarge
        else .ok { receipt with signature := receiver.deviceSigner.sign receiptDomain encoded }

def verifyDeliveryReceipt (c : Primitives) (receiverProfile : PublicProfile)
    (receipt : DeliveryReceipt) (original : SignedMessage) (now : Time) : Except ReceiptError Unit :=
  if receipt.version ≠ version ∨ validMessageID receipt.messageID = false ∨
      receipt.messageID ≠ original.messageID ∨ receipt.messageDigest.length ≠ 32 ∨
      validAccountID receipt.senderID = false ∨ validAccountID receipt.recipientID = false ∨
      receipt.senderID ≠ original.recipientID ∨ receipt.recipientID ≠ original.senderID ∨
      receiverProfile.accountID ≠ receipt.senderID ∨ receipt.receiverProfileRevision = 0 ∨
      receiverProfile.revision < receipt.receiverProfileRevision ∨
      receipt.receiverDevice.accountID ≠ receipt.senderID ∨ receipt.receivedAt.isZero = true ∨
      receipt.receivedAt.before (original.createdAt.add (-5 * minute)) = true ∨
      receipt.receivedAt.after (original.expiresAt.add (5 * minute)) = true ∨
      receipt.receivedAt.after (now.add (5 * minute)) = true then .error .invalidReceipt
  else if verifyPublicProfile c receiverProfile now ≠ .ok () ∨
      verifyDevice c receiverProfile.accountPublic receipt.receiverDevice = false ∨
      profileContainsDevice receiverProfile receipt.receiverDevice = false then
    .error .uncertifiedDevice
  else
    match digest original with
    | .error _ => .error .digestMismatch
    | .ok messageDigest =>
      if messageDigest ≠ receipt.messageDigest then .error .digestMismatch
      else
        match receiptSigningBytes receipt with
        | none => .error .invalidSignature
        | some encoded =>
          if encoded.length > maxReceiptBytes ∨
              verify c receipt.receiverDevice.device.signingKey receiptDomain encoded
                receipt.signature = false then .error .invalidSignature
          else .ok ()

def encodeDeliveryReceipt (receipt : DeliveryReceipt) : Except ReceiptError Bytes :=
  match marshal deliveryReceiptCodec receipt with
  | none => .error .encoding
  | some encoded =>
    if encoded.length = 0 ∨ encoded.length > maxReceiptBytes then .error .receiptSize
    else .ok encoded

def decodeDeliveryReceipt (encoded : Bytes) : Except ReceiptError DeliveryReceipt :=
  if encoded.length = 0 ∨ encoded.length > maxReceiptBytes then .error .receiptSize
  else
    match unmarshal deliveryReceiptCodec DeliveryReceipt.zero encoded with
    | none => .error .encoding
    | some receipt =>
      if validMessageID receipt.messageID = false ∨ receipt.messageDigest.length ≠ 32 then
        .error .structureInvalid
      else .ok receipt

/-! ## The codec -/

/-- The identifiers of a receipt need no escaping, and its time can be written in UTC. -/
structure ReceiptPlain (r : DeliveryReceipt) : Prop where
  messageID : Json.Plain r.messageID
  senderID : Json.Plain r.senderID
  recipientID : Json.Plain r.recipientID
  accountID : Json.Plain r.receiverDevice.accountID
  device : DescriptorPlain r.receiverDevice.device
  offset : r.receivedAt.off = 0
  received : r.receivedAt.marshalText.isSome

variable {r receipt : DeliveryReceipt} {c : Primitives} {receiver : LocalAccount c}
  {m : SignedMessage} {now : Time} {profile : PublicProfile}

theorem deliveryReceiptCodec_roundtrips (h : ReceiptPlain r) : deliveryReceiptCodec.Roundtrips r :=
  structCodec_roundtrips ⟨by decide, by decide⟩ (fun s => rfl) (.cons (uint8Codec_roundtrips _)
    (.cons (stringCodec_roundtrips h.messageID) (.cons (bytesCodec_roundtrips _)
    (.cons (stringCodec_roundtrips h.senderID) (.cons (stringCodec_roundtrips h.recipientID)
    (.cons (uint64Codec_roundtrips _)
    (.cons (deviceCertificateCodec_roundtrips h.accountID h.device)
    (.cons (timeCodec_roundtrips (by rw [h.offset]; rfl))
    (.cons (hybridSignatureCodec_roundtrips _) .nil)))))))))

theorem deliveryReceiptCodec_atMost (h : ReceiptPlain r) {i n j k : Nat}
    (hdev : deviceCertificateCodec.Sized r.receiverDevice i n)
    (hsig : hybridSignatureCodec.Sized r.signature j k) :
    deliveryReceiptCodec.AtMost r (r.messageID.length + 4 * ((r.messageDigest.length + 2) / 3) +
      r.senderID.length + r.recipientID.length + n + k + 270) := by
  obtain ⟨received, hreceived⟩ := Option.isSome_iff_exists.mp h.received
  exact structCodec_atMost (k := 148) rfl (.cons (uint8Codec_atMost _)
    (.cons (stringCodec_sized h.messageID) (.cons (bytesCodec_sized _)
      (.cons (stringCodec_sized h.senderID) (.cons (stringCodec_sized h.recipientID)
        (.cons (uint64Codec_atMost _) (.cons hdev (.cons (timeCodec_sized hreceived)
          (.cons hsig .nil))))))))) (by dsimp only; omega)

/-- A receipt that is signed has a time that can be written. -/
theorem receiptSigningBytes_time {data : Bytes} (h : receiptSigningBytes receipt = some data) :
    receipt.receivedAt.marshalText.isSome := by
  obtain ⟨j, hj, -⟩ := Option.map_eq_some_iff.mp h
  obtain ⟨text, htext⟩ := timeCodec_writes_iff.mp (@structCodec_writes_field _ deliveryReceiptFields
    _ ⟨j, hj⟩
    ⟨lit "received_at", Time, (·.receivedAt), fun r v => { r with receivedAt := v }, timeCodec⟩
    (by simp [deliveryReceiptFields]))
  exact Option.isSome_of_eq_some htext

/-! ## Receipts that are made -/

/-- What `NewDeliveryReceipt` checks, and what it makes. -/
structure MadeReceipt {c : Primitives} (receiver : LocalAccount c) (m : SignedMessage) (now : Time)
    (receipt : DeliveryReceipt) : Prop where
  addressed : receiver.id = m.recipientID
  dated : now.isZero = false
  early : m.createdAt.ns - 5 * minute ≤ now.ns
  late : now.ns ≤ m.expiresAt.ns + 5 * minute
  signed : ∃ text encoded, encode m = .ok text ∧
    receiptSigningBytes (unsignedReceipt receiver m (sha256 text) now) = some encoded ∧
    encoded.length ≤ maxReceiptBytes ∧
    receipt = { unsignedReceipt receiver m (sha256 text) now with
      signature := receiver.deviceSigner.sign receiptDomain encoded }

theorem newDeliveryReceipt_made (h : newDeliveryReceipt receiver m now = .ok receipt) :
    MadeReceipt receiver m now receipt := by
  simp only [newDeliveryReceipt] at h
  split at h
  · cases h
  rename_i hin
  simp only [not_or, ne_eq, not_not, Time.isZero_iff, Time.after_iff, not_lt, Time.add_ns,
    Time.before_iff] at hin
  obtain ⟨-, haddressed, hdated, hearly, hlate⟩ := hin
  split at h
  · cases h
  rename_i messageDigest hdigest
  unfold digest at hdigest
  split at hdigest
  · cases hdigest
  rename_i text htext
  obtain rfl := Except.ok.inj hdigest
  split at h
  · cases h
  rename_i encoded hencoded
  split at h
  · cases h
  rename_i hlength
  refine ⟨haddressed, ?_, ?_, hlate, text, encoded, htext, hencoded, not_lt.mp hlength,
    (Except.ok.inj h).symm⟩
  · rwa [← Bool.not_eq_true, Time.isZero_iff]
  · calc m.createdAt.ns - 5 * minute = m.createdAt.ns + -5 * minute := by
          rw [Int.sub_eq_add_neg, Int.neg_mul]
      _ ≤ now.ns := hearly

/-- The parts of a receipt that count for its size. -/
structure ReceiptSized (r : DeliveryReceipt) : Prop where
  plain : ReceiptPlain r
  messageID : validMessageID r.messageID = true
  digest : r.messageDigest.length = 32
  senderID : r.senderID.length = 58
  recipientID : r.recipientID.length = 58
  device : deviceCertificateCodec.AtMost r.receiverDevice 9257
  ed25519 : r.signature.ed25519.length ≤ 64
  mldsa65 : r.signature.mldsa65.length ≤ 3309

theorem ReceiptSized.marshal (h : ReceiptSized r) :
    ∃ data, marshal deliveryReceiptCodec r = some data ∧ data.length ≤ maxReceiptBytes := by
  obtain ⟨data, hdata, hlength⟩ := marshal_atMost
    (deliveryReceiptCodec_atMost h.plain h.device (hybridSignatureCodec_sized _))
  have hmessage : r.messageID.length = (8 * messageIDBytes + 5) / 6 := by
    by_contra hne
    have hid := h.messageID
    rw [validMessageID, if_pos hne] at hid
    cases hid
  refine ⟨data, hdata, ?_⟩
  rw [hmessage, h.digest, h.senderID, h.recipientID] at hlength
  have hed := h.ed25519
  have hml := h.mldsa65
  unfold messageIDBytes at hlength
  unfold maxReceiptBytes
  omega

/-- A receipt for a message with identifiers of the usual form. -/
theorem madeReceipt_sized (hkem : KEMSized c) (hr : receiver.Consistent)
    (hid : Json.Plain m.messageID) (hvalid : validMessageID m.messageID = true)
    (hsender : validAccountID m.senderID = true) (text : Bytes)
    (hnow : (now.utc.truncate millisecond).marshalText.isSome) {sig : HybridSignature}
    (hed : sig.ed25519.length ≤ 64) (hml : sig.mldsa65.length ≤ 3309) :
    ReceiptSized { unsignedReceipt receiver m (sha256 text) now with signature := sig } := by
  have hdevice := verifyDevice_sized hr.certified
  rw [verifyDevice_kem hkem hr.certified] at hdevice
  have hsenderPlain : Json.Plain m.senderID := plain_of_valid (by decide) hsender
  have hsenderLength : m.senderID.length = 58 := length_of_valid hsender
  have hreceiverLength : receiver.id.length = 58 := length_of_valid hr.valid
  obtain ⟨hacc, hdev⟩ := verifyDevice_plain hr.certified
  have hreceiver : Json.Plain receiver.profile.accountID := hr.owner ▸ hacc
  exact ⟨⟨hid, hreceiver, hsenderPlain, hacc, hdev, Time.truncate_off _ _, hnow⟩, hvalid,
    length_sha256 text, hreceiverLength, hsenderLength, hdevice.atMost (by decide), hed, hml⟩

/-- A receipt for such a message is encoded, and decoded again. -/
theorem newDeliveryReceipt_decodes (hkem : KEMSized c) (hr : receiver.Consistent)
    (hid : Json.Plain m.messageID) (hvalid : validMessageID m.messageID = true)
    (hsender : validAccountID m.senderID = true)
    (h : newDeliveryReceipt receiver m now = .ok receipt) :
    ∃ data, encodeDeliveryReceipt receipt = .ok data ∧ decodeDeliveryReceipt data = .ok receipt := by
  obtain ⟨-, -, -, -, text, encoded, -, hencoded, -, rfl⟩ := newDeliveryReceipt_made h
  obtain ⟨hed, hml⟩ := verify_sizes (receiver.deviceSigner.verifies receiptDomain encoded)
  have htime := receiptSigningBytes_time hencoded
  have hsized := madeReceipt_sized hkem hr hid hvalid hsender text htime hed.le hml.le
  obtain ⟨data, hdata, hmax⟩ := hsized.marshal
  have hback := @unmarshal_marshal _ _ _ DeliveryReceipt.zero _
    (deliveryReceiptCodec_roundtrips hsized.plain) hdata
  have hpos : data.length ≠ 0 := by
    intro hzero
    rw [List.length_eq_zero_iff.mp hzero] at hback
    cases hback
  refine ⟨data, ?_, ?_⟩
  · rw [encodeDeliveryReceipt, hdata]
    exact if_neg (by omega)
  · rw [decodeDeliveryReceipt, if_neg (by omega), hback]
    exact if_neg (by simp [hsized.messageID, hsized.digest])

/-! ## Receipts that are accepted -/

/-- A device that is listed in a verified profile of its account is certified by that profile. -/
theorem verifyDevice_of_listed {key : NodePublicIdentity} {d : DeviceCertificate}
    (hprofile : verifyPublicProfile c profile now = .ok ())
    (hlisted : profileContainsDevice profile d = true) (hown : verifyDevice c key d = true)
    (hid : d.accountID = profile.accountID) : verifyDevice c profile.accountPublic d = true := by
  obtain ⟨hchecked, -, -⟩ := verifyPublicProfile_ok_iff.mp hprofile
  obtain ⟨-, -, hdevice, hdescriptor⟩ := verifyDevice_shape hown
  unfold profileContainsDevice at hlisted
  split at hlisted
  · cases hlisted
  rename_i certificate hfind
  split at hlisted
  · rename_i left right hleft hright
    simp only [Bool.and_eq_true, beq_iff_eq] at hlisted
    obtain ⟨⟨rfl, hed⟩, hml⟩ := hlisted
    have hsig : d.signature = certificate.signature := by
      cases hd : d.signature
      cases hc : certificate.signature
      rw [hd, hc] at hed hml
      dsimp only at hed hml
      rw [hed, hml]
    obtain ⟨message, hmessage, hverify⟩ := certificateBytes_of_verifyDevice
      (verifyDevice_of_checkDevices hchecked.devices certificate (List.mem_of_find?_eq_some hfind))
    obtain rfl := Option.some.inj (hleft.symm.trans hmessage)
    rw [verifyDevice, if_neg, hright, hsig]
    · exact hverify
    · simp only [hchecked.key, hid, ← hchecked.own, hdevice, hdescriptor, not_or]
      exact ⟨by decide, fun hne => hne rfl, fun hne => hne rfl, by decide⟩
  · cases hlisted

/-- What an accepted receipt says of the message. -/
theorem verifyDeliveryReceipt_digest {original : SignedMessage}
    (h : verifyDeliveryReceipt c profile receipt original now = .ok ()) :
    receipt.receivedAt.isZero = false ∧ digest original = .ok receipt.messageDigest := by
  unfold verifyDeliveryReceipt at h
  split at h
  · cases h
  rename_i hok
  simp only [not_or, Bool.not_eq_true] at hok
  split at h
  · cases h
  split at h
  · cases h
  rename_i messageDigest hdigest
  split at h
  · cases h
  rename_i hsame
  rw [hdigest, not_not.mp hsame]
  exact ⟨hok.2.2.2.2.2.2.2.2.2.2.2.2.1, rfl⟩

/-- A receipt for a message of whole milliseconds is accepted when its own time is not the zero
    time, with any profile of the receiver that lists the device. -/
theorem verifyDeliveryReceipt_made (hr : receiver.Consistent) {r : Time}
    (h : MadeReceipt receiver m r receipt) (hid : validMessageID m.messageID = true)
    (hsender : validAccountID m.senderID = true) (hmilli : m.createdAt.ns % millisecond = 0)
    {u : Time} (hprofile : verifyPublicProfile c profile u = .ok ())
    (howner : profile.accountID = receiver.id)
    (hlisted : profileContainsDevice profile receiver.deviceCert = true)
    (hrevision : receiver.profile.revision ≤ profile.revision) (hu : r.ns - 5 * minute ≤ u.ns)
    (hzero : (r.utc.truncate millisecond).isZero = false) :
    verifyDeliveryReceipt c profile receipt m u = .ok () := by
  obtain ⟨haddressed, -, hearly, hlate, text, encoded, htext, hencoded, hlength, rfl⟩ := h
  have hdigest : digest m = .ok (sha256 text) := by rw [digest, htext]
  have hdown := r.truncate_le
  have hbefore : ¬ (r.utc.truncate millisecond).before (m.createdAt.add (-5 * minute)) = true := by
    rw [Time.before_iff, Time.add_ns, not_lt]
    refine Time.le_truncate ?_ ?_
    · change (m.createdAt.ns + -300000000000) % 1000000 = 0
      change m.createdAt.ns % 1000000 = 0 at hmilli
      omega
    · rwa [Int.neg_mul, ← Int.sub_eq_add_neg]
  have hafter : ¬ (r.utc.truncate millisecond).after (m.expiresAt.add (5 * minute)) = true := by
    rw [Time.after_iff]
    exact not_lt.mpr (hdown.trans hlate)
  have hnow : ¬ (r.utc.truncate millisecond).after (u.add (5 * minute)) = true := by
    rw [Time.after_iff]
    exact not_lt.mpr (hdown.trans (sub_le_iff_le_add.mp hu))
  have hdevice : verifyDevice c profile.accountPublic receiver.deviceCert = true :=
    verifyDevice_of_listed hprofile hlisted hr.certified (hr.owner.trans howner.symm)
  have hverify : verify c receiver.deviceCert.device.signingKey receiptDomain encoded
      (receiver.deviceSigner.sign receiptDomain encoded) = true := by
    rw [hr.key]
    exact receiver.deviceSigner.verifies _ _
  unfold verifyDeliveryReceipt
  rw [if_neg, if_neg (by simp [hprofile, hdevice, hlisted, unsignedReceipt]), hdigest]
  · dsimp only
    rw [if_neg (by simp [unsignedReceipt]),
      show receiptSigningBytes { unsignedReceipt receiver m (sha256 text) r with
        signature := receiver.deviceSigner.sign receiptDomain encoded } = some encoded from hencoded]
    exact if_neg (by simp [hverify, hlength, unsignedReceipt])
  · simp only [unsignedReceipt, not_or]
    refine ⟨fun hne => hne rfl, by simp [hid], fun hne => hne rfl, by simp, ?_, by simp [hsender],
      fun hne => hne haddressed, fun hne => hne rfl, fun hne => hne howner, hr.revision,
      UInt64.not_lt.mpr hrevision, fun hne => hne hr.owner, by simp [hzero], hbefore, hafter, hnow⟩
    simp [LocalAccount.id, hr.valid]

/-! ## The loop -/

/-- The receipt for a message that was made, sent and verified survives its encoding. At any time
    from five minutes before it was made it is accepted with the sender's own copy of the message,
    exactly if its time is not rounded to the zero time; and an accepted receipt is not accepted
    for a message with another encoding. -/
theorem receipt_loop {c : Primitives} (hkem : KEMSized c) :
    (∀ (sender receiver : LocalAccount c) (recipientID body random encoded localID : Bytes)
        (now t r u : Time) (retention : Duration) (m m' verified : SignedMessage)
        (senderProfile receiverProfile : PublicProfile) (receipt : DeliveryReceipt),
      sender.InUse → receiver.InUse → random.length = messageIDBytes →
      newDirect sender recipientID body now retention random = .ok m →
      encode m = .ok encoded → decode encoded = .ok m' →
      verifyDirect c senderProfile m' localID t = .ok verified →
      newDeliveryReceipt receiver verified r = .ok receipt →
      verifyPublicProfile c receiverProfile u = .ok () → receiverProfile.accountID = receiver.id →
      profileContainsDevice receiverProfile receipt.receiverDevice = true →
      receipt.receiverProfileRevision ≤ receiverProfile.revision → r.ns - 5 * minute ≤ u.ns →
      (∃ data, encodeDeliveryReceipt receipt = .ok data ∧
        decodeDeliveryReceipt data = .ok receipt) ∧
      (verifyDeliveryReceipt c receiverProfile receipt m u = .ok () ↔
        (r.utc.truncate millisecond).isZero = false)) ∧
    (∀ (profile profile' : PublicProfile) (receipt : DeliveryReceipt) (m m' : SignedMessage)
        (u u' : Time) (text text' : Bytes),
      encode m = .ok text → encode m' = .ok text' → (sha256 text = sha256 text' → text = text') →
      verifyDeliveryReceipt c profile receipt m u = .ok () → text ≠ text' →
      verifyDeliveryReceipt c profile' receipt m' u' ≠ .ok ()) := by
  constructor
  · intro sender receiver recipientID body random encoded localID now t r u retention m m' verified
      senderProfile receiverProfile receipt hsender hreceiver hrandom hnew hencode hdecode hverified
      hreceipt hprofile howner hlisted hrevision hu
    have hs := hsender.consistent
    have hr := hreceiver.consistent
    -- what the receiver has verified is the message
    obtain ⟨text, htext, hback⟩ := newDirect_decodes hkem hs hrandom hnew
    obtain rfl := Except.ok.inj (hencode.symm.trans htext)
    obtain rfl := Except.ok.inj (hdecode.symm.trans hback)
    obtain ⟨rfl, -, -⟩ := verifyDirect_ok hverified
    obtain ⟨-, -, -, -, -, -, -, signed, -, -, hm⟩ := newDirect_made hnew
    have hid : validMessageID verified.messageID = true := by
      rw [hm]
      exact validMessageID_text hrandom
    have hplain : Json.Plain verified.messageID := by
      rw [hm]
      exact plain_base64Url _
    have hfrom : validAccountID verified.senderID = true := by
      rw [hm]
      exact hs.valid
    have hmilli : verified.createdAt.ns % millisecond = 0 := by
      rw [hm]
      exact Time.truncate_milli now
    have hmade := newDeliveryReceipt_made hreceipt
    obtain ⟨content, tosign, -, -, -, hshape⟩ := hmade.signed
    refine ⟨newDeliveryReceipt_decodes hkem hr hplain hid hfrom hreceipt, fun hv => ?_, fun hzero => ?_⟩
    · have hreceived := (verifyDeliveryReceipt_digest hv).1
      rwa [hshape] at hreceived
    · rw [hshape] at hlisted hrevision
      exact verifyDeliveryReceipt_made hr hmade hid hfrom hmilli hprofile howner hlisted hrevision
        hu hzero
  · intro profile profile' receipt m m' u u' text text' htext htext' hcollision hv hne hv'
    have hdigest := (verifyDeliveryReceipt_digest hv).2
    have hdigest' := (verifyDeliveryReceipt_digest hv').2
    rw [digest, htext] at hdigest
    rw [digest, htext'] at hdigest'
    exact hne (hcollision ((Except.ok.inj hdigest).trans (Except.ok.inj hdigest').symm))

/-- The first two sample accounts have different identifiers. -/
theorem sampleAccount_ne :
    accountID samplePrimitives (sampleIdentity 1) ≠ accountID samplePrimitives (sampleIdentity 2) := by
  have hpreimage : ∀ b, keyPreimage (lit "account") (sampleIdentity b) [] =
      (lit "enig/id/v1" ++ 0 :: (lit "account" ++ [0, 1])) ++ List.replicate 1984 b := by
    intro b
    have htail : sampleBytes 32 b ++ (sampleBytes 1952 b ++ []) = List.replicate 1984 b := by
      rw [List.append_nil, sampleBytes, sampleBytes, List.replicate_append_replicate]
    simp only [keyPreimage, sampleIdentity, htail, List.append_assoc, List.cons_append,
      List.nil_append]
  intro heq
  rw [accountID, accountID, if_neg (by simp [sampleIdentity_valid]),
    if_neg (by simp [sampleIdentity_valid])] at heq
  have hdigest := keyDigest_inj heq
  rw [hpreimage 1, hpreimage 2, Sha256.sha256_eq_sha256Nat, Sha256.sha256_eq_sha256Nat] at hdigest
  revert hdigest
  decide +kernel

/-- Two accounts that are registered at the same time, and a message from one to the other. -/
theorem sample_exchange {start : Time} (hzero : start.isZero = false)
    (hrounded : start.utc.truncate millisecond = start) {text : Bytes}
    (htext : start.marshalText = some text)
    (hexpires : ((start.add fixedItemRetention).truncate millisecond).marshalText.isSome)
    (hlasts : start.Lasts fixedItemRetention) :
    ∃ (sender receiver : LocalAccount samplePrimitives) (m : SignedMessage),
      sender.InUse ∧ receiver.InUse ∧
      verifyPublicProfile samplePrimitives receiver.profile start = .ok () ∧ m.createdAt = start ∧
      m.expiresAt = (start.add fixedItemRetention).truncate millisecond ∧
      newDirect sender receiver.id [0] start fixedItemRetention (sampleBytes 32 0) = .ok m ∧
      verifyDirect samplePrimitives sender.profile m receiver.id start = .ok m := by
  have hkem : samplePrimitives.kemPublicKey (sampleBytes 1216 0) = true :=
    beq_iff_eq.mpr (length_sampleBytes 1216 0)
  have hregister : ∀ a d : HybridSigner samplePrimitives, ∃ account : LocalAccount samplePrimitives,
      account.InUse ∧ account.profile.updatedAt = start ∧
        account.id = accountID samplePrimitives a.publicIdentity := by
    intro a d
    obtain ⟨account, hok, hupdated, hid, -⟩ := @register_ok _ a d (sampleBytes 1216 0) hkem start
      (hrounded.symm ▸ hzero) hzero text (hrounded.symm ▸ htext)
    exact ⟨account, .registered hok, by rw [hupdated, hrounded], hid⟩
  obtain ⟨sender, hs, hsUpdated, hsID⟩ := hregister (sampleSigner 1) (sampleSigner 3)
  obtain ⟨receiver, hr, hrUpdated, hrID⟩ := hregister (sampleSigner 2) (sampleSigner 4)
  have hne : receiver.id ≠ sender.id := by
    rw [hsID, hrID]
    exact fun heq => sampleAccount_ne heq.symm
  have hvalid : validAccountID receiver.id = true := hr.consistent.valid
  obtain ⟨sig, -, hnew, -, -⟩ := @newDirect_ok _ _ hs.consistent
    (verifyDevice_kem samplePrimitives_kemSized hs.consistent.certified).le receiver.id [0]
    (sampleBytes 32 0) start fixedItemRetention hvalid (plain_of_valid (by decide) hvalid) hne
    (by decide) (by decide) hzero (by decide) le_rfl (length_sampleBytes 32 0)
    (by rw [hrounded, htext]; rfl) (by rw [hrounded]; exact hexpires)
  have hnow : start.ns ≤ start.ns + 5 * minute := Int.le_add_of_nonneg_right (by decide)
  refine ⟨sender, receiver, _, hs, hr, hr.consistent.verified start ?_, hrounded, ?_, hnew,
    (newDirect_verifies_iff hs.consistent (length_sampleBytes 32 0) hnew).mpr ⟨hlasts, ?_⟩⟩
  · rw [hrUpdated]
    exact hnow
  · change ((start.utc.truncate millisecond).add fixedItemRetention).truncate millisecond = _
    rw [hrounded]
  · rw [hsUpdated]
    exact hnow

/-- The receiver of that message gets a receipt at any time that the message allows. -/
theorem sample_receipt {start : Time} {sender receiver : LocalAccount samplePrimitives}
    {m : SignedMessage} (hs : sender.InUse) (hr : receiver.InUse)
    (hnew : newDirect sender receiver.id [0] start fixedItemRetention (sampleBytes 32 0) = .ok m)
    {now : Time} (hdated : now.isZero = false) (hearly : m.createdAt.ns + -5 * minute ≤ now.ns)
    (hlate : now.ns ≤ m.expiresAt.ns + 5 * minute)
    (hnow : (now.utc.truncate millisecond).marshalText.isSome) :
    ∃ receipt, newDeliveryReceipt receiver m now = .ok receipt := by
  have hrandom : (sampleBytes 32 0).length = messageIDBytes := length_sampleBytes 32 0
  obtain ⟨text, htext, -⟩ := newDirect_decodes samplePrimitives_kemSized hs.consistent hrandom hnew
  obtain ⟨encoded, -, -, hm⟩ := (newDirect_made hnew).signed
  have hid : m.messageID = messageIDText (sampleBytes 32 0) := by rw [hm]; rfl
  have hsender : validAccountID m.senderID = true := by
    rw [hm]
    exact hs.consistent.valid
  have haddressed : receiver.id = m.recipientID := by rw [hm]; rfl
  have hvalid : validMessageID m.messageID = true := by
    rw [hid]
    exact validMessageID_text hrandom
  obtain ⟨encoded, hencoded, hlength⟩ := (madeReceipt_sized samplePrimitives_kemSized hr.consistent
    (by rw [hid]; exact plain_base64Url _) hvalid hsender text hnow
    (by decide : HybridSignature.zero.ed25519.length ≤ 64)
    (by decide : HybridSignature.zero.mldsa65.length ≤ 3309)).marshal
  have hsome : m.messageID ≠ [] := by
    intro hnil
    rw [hnil] at hvalid
    cases hvalid
  have hdigest : digest m = .ok (sha256 text) := by rw [digest, htext]
  refine ⟨{ unsignedReceipt receiver m (sha256 text) now with
    signature := receiver.deviceSigner.sign receiptDomain encoded }, ?_⟩
  unfold newDeliveryReceipt
  rw [if_neg, hdigest]
  · dsimp only
    rw [show receiptSigningBytes (unsignedReceipt receiver m (sha256 text) now) = some encoded from
      hencoded]
    exact if_neg (not_lt.mpr hlength)
  · simp only [not_or, Time.before_iff, Time.after_iff, Time.add_ns, not_lt]
    exact ⟨hsome, fun hne => hne haddressed, by simp [hdated], hearly, hlate⟩

/-- A receipt in the first millisecond of all is made, and never accepted. -/
theorem receipt_first_millisecond :
    ∃ (sender receiver : LocalAccount samplePrimitives) (m : SignedMessage) (receipt : DeliveryReceipt),
      sender.InUse ∧ receiver.InUse ∧
      newDirect sender receiver.id [0] (Time.zero.add millisecond) fixedItemRetention
        (sampleBytes 32 0) = .ok m ∧
      verifyDirect samplePrimitives sender.profile m receiver.id (Time.zero.add millisecond) = .ok m ∧
      newDeliveryReceipt receiver m (Time.zero.add 500000) = .ok receipt ∧
      verifyPublicProfile samplePrimitives receiver.profile (Time.zero.add millisecond) = .ok () ∧
      profileContainsDevice receiver.profile receipt.receiverDevice = true ∧
      verifyDeliveryReceipt samplePrimitives receiver.profile receipt m (Time.zero.add millisecond) =
        .error .invalidReceipt := by
  obtain ⟨sender, receiver, m, hs, hr, hprofile, hcreated, hexpires, hnew, hverified⟩ :=
    @sample_exchange (Time.zero.add millisecond) (by decide) (by decide) _ rfl (by decide) (by decide)
  obtain ⟨receipt, hreceipt⟩ := @sample_receipt _ _ _ _ hs hr hnew (Time.zero.add 500000) (by decide)
    (by rw [hcreated]; decide) (by rw [hexpires]; decide) (by decide)
  obtain ⟨text, encoded, -, -, -, hshape⟩ := (newDeliveryReceipt_made hreceipt).signed
  refine ⟨sender, receiver, m, receipt, hs, hr, hnew, hverified, hreceipt, hprofile, ?_, ?_⟩
  · rw [hshape]
    exact hr.consistent.listed
  · refine if_pos ?_
    iterate 12 right
    refine Or.inl ?_
    rw [hshape]
    exact (by decide : ((Time.zero.add 500000).utc.truncate millisecond).isZero = true)

/-- A receipt that is made and accepted when the message was sent. -/
theorem receipt_loop_epoch :
    ∃ (sender receiver : LocalAccount samplePrimitives) (m : SignedMessage) (receipt : DeliveryReceipt),
      sender.InUse ∧ receiver.InUse ∧
      newDirect sender receiver.id [0] Time.epoch fixedItemRetention (sampleBytes 32 0) = .ok m ∧
      newDeliveryReceipt receiver m Time.epoch = .ok receipt ∧
      verifyDeliveryReceipt samplePrimitives receiver.profile receipt m Time.epoch = .ok () := by
  obtain ⟨sender, receiver, m, hs, hr, hprofile, hcreated, hexpires, hnew, hverified⟩ :=
    @sample_exchange Time.epoch (by decide) (by decide) _ rfl (by decide) (by decide)
  obtain ⟨receipt, hreceipt⟩ := @sample_receipt _ _ _ _ hs hr hnew Time.epoch (by decide)
    (by rw [hcreated]; decide) (by rw [hexpires]; decide) (by decide)
  have hrandom : (sampleBytes 32 0).length = messageIDBytes := length_sampleBytes 32 0
  obtain ⟨encoded, hencode, hdecode⟩ :=
    newDirect_decodes samplePrimitives_kemSized hs.consistent hrandom hnew
  obtain ⟨text, signed, -, -, -, hshape⟩ := (newDeliveryReceipt_made hreceipt).signed
  have hlisted : profileContainsDevice receiver.profile receipt.receiverDevice = true := by
    rw [hshape]
    exact hr.consistent.listed
  have hrevision : receipt.receiverProfileRevision ≤ receiver.profile.revision := by
    rw [hshape]
    exact UInt64.le_refl _
  refine ⟨sender, receiver, m, receipt, hs, hr, hnew, hreceipt, ?_⟩
  exact ((receipt_loop samplePrimitives_kemSized).1 sender receiver receiver.id [0] (sampleBytes 32 0)
    encoded receiver.id Time.epoch Time.epoch Time.epoch Time.epoch fixedItemRetention m m m
    sender.profile receiver.profile receipt hs hr hrandom hnew hencode hdecode hverified hreceipt
    hprofile rfl hlisted hrevision (by decide)).2.mpr (by decide)

end Veilmesh.Message

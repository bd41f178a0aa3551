/-
  What the signature of a call signal binds (`call/call.go`).

  The signature covers the JSON text of a signal. The text shows a time to the minute of its
  offset and writes every byte that is not UTF-8 in the same way, so it leaves two things open:
  the seconds of an offset, which move the instant, and which bytes the strays are. What the
  checks fix from outside (type, version, the parties of an offer or an answer) and all that
  reads back is bound.

  * `signalBytes_same`: what signals with the same signed bytes have in common.
  * `verifySignal_binds_iff`: signals accepted with one signature have the same fields just if
    they agree on what the text leaves open.
-/
import Veilmesh.Call.Signal
import Veilmesh.Lib.JsonEscape

namespace Veilmesh.Call

open Lib Protocol Pqcrypto
open Json (escape)

/-! ## Signed bytes -/

/-- All fields are the same, times as instants. -/
structure SameFields (s t : Signal) : Prop where
  version : s.version = t.version
  callID : s.callID = t.callID
  type : s.type = t.type
  initiatorID : s.initiatorID = t.initiatorID
  responderID : s.responderID = t.responderID
  createdAt : s.createdAt.ns = t.createdAt.ns
  expiresAt : s.expiresAt.ns = t.expiresAt.ns
  media : s.media = t.media
  sdp : s.sdp = t.sdp
  signature : s.signature = t.signature

/-- What the signed text leaves open is the same. -/
structure SameUnsigned (s t : Signal) : Prop where
  createdAt : s.createdAt.off = t.createdAt.off
  expiresAt : s.expiresAt.off = t.expiresAt.off
  responderID : Json.strays s.responderID = Json.strays t.responderID
  sdp : Json.strays s.sdp = Json.strays t.sdp

theorem mediaCodec_roundtrips (m : Media) : (structCodec mediaFields).Roundtrips m :=
  structCodec_roundtrips ⟨by decide, by decide⟩ (fun _ => rfl)
    (.cons (boolCodec_roundtrips _) (.cons (boolCodec_roundtrips _) .nil))

theorem signalCodec_formed (s : Signal) : signalCodec.Formed s :=
  structCodec_formed (by decide) (.cons (formed_of_reads (uint8Codec_roundtrips _))
    (.cons (formed_of_reads (stringCodec_reads _)) (.cons (formed_of_reads (stringCodec_reads _))
    (.cons (formed_of_reads (stringCodec_reads _)) (.cons (formed_of_reads (stringCodec_reads _))
    (.cons (formed_of_reads (timeCodec_reads _)) (.cons (formed_of_reads (timeCodec_reads _))
    (.cons (formed_of_reads (mediaCodec_roundtrips _))
    (.cons (formed_of_reads (stringCodec_reads _))
    (.cons (formed_of_reads (hybridSignatureCodec_roundtrips _)) .nil))))))))))

theorem marshal_of_signalBytes {s : Signal} {m : Bytes} (h : signalBytes s = some m) :
    marshal signalCodec { s with signature := HybridSignature.zero } = some m := by
  unfold signalBytes at h
  split at h
  · cases h
  · rename_i encoded hencoded
    split at h
    · cases h
    · rw [hencoded, Option.some.inj h]

theorem escape_same {s t : Bytes} {j : Json} (hs : stringCodec.encode s = some j)
    (ht : stringCodec.encode t = some j) : escape s = escape t :=
  Json.str.inj (Option.some.inj (hs.trans ht.symm))

/-- What signals with the same signed bytes have in common, the texts of those fields apart
    that the checks compare. -/
theorem signalBytes_same {s t : Signal} {m : Bytes} (hs : signalBytes s = some m)
    (ht : signalBytes t = some m) :
    escape s.callID = escape t.callID ∧
      escape s.responderID = escape t.responderID ∧
      s.createdAt.shown = t.createdAt.shown ∧ s.expiresAt.shown = t.expiresAt.shown ∧
      s.media = t.media ∧ escape s.sdp = escape t.sdp := by
  obtain ⟨j, hj, hj'⟩ := marshal_same (signalCodec_formed _) (signalCodec_formed _)
    (marshal_of_signalBytes hs) (marshal_of_signalBytes ht)
  have hsame := structCodec_same hj hj'
  simp only [signalFields, List.forall_mem_cons, List.not_mem_nil, false_imp_iff, implies_true,
    and_true] at hsame
  obtain ⟨-, ⟨_, hid, hid'⟩, -, -, ⟨_, hr, hr'⟩, ⟨_, hc, hc'⟩, ⟨_, he, he'⟩, ⟨_, hm, hm'⟩,
    ⟨_, hd, hd'⟩, -⟩ := hsame
  exact ⟨escape_same hid hid', escape_same hr hr',
    eq_of_reads (timeCodec_reads _) (timeCodec_reads _) hc hc',
    eq_of_reads (timeCodec_reads _) (timeCodec_reads _) he he',
    eq_of_reads (mediaCodec_roundtrips _) (mediaCodec_roundtrips _) hm hm', escape_same hd hd'⟩

/-- Of times with one text, the instants are the same just if the offsets are. -/
theorem ns_eq_iff_of_shown {t u : Time} (h : t.shown = u.shown) : t.ns = u.ns ↔ t.off = u.off := by
  obtain ⟨hns, hoff⟩ := Time.mk.inj h
  have hminutes : Time.zoneMinutes t.off = Time.zoneMinutes u.off := by omega
  rw [hminutes] at hns
  constructor
  · intro heq
    rw [heq] at hns
    have hmul := add_left_cancel hns
    have hsecond : (second : Int) ≠ 0 := by decide
    exact sub_left_inj.mp (mul_right_cancel₀ hsecond hmul)
  · intro heq
    rw [heq] at hns
    exact add_right_cancel hns

/-! ## Accepted signals -/

section binding

variable {c : Primitives} {parse : SDPParser} {s t : Signal} {expectedType : SignalType}
  {signer : NodePublicIdentity} {localID : Bytes} {now : Time}

/-- The parties that the checks fix from outside. -/
theorem Accepted.initiatorID_eq (hs : Accepted c s expectedType signer localID now)
    (ht : Accepted c t expectedType signer localID now) : s.initiatorID = t.initiatorID := by
  by_cases hanswer : expectedType = signalAnswer
  · rw [← hs.answered hanswer, ht.answered hanswer]
  · have hsigner : s.expectedSigner expectedType = t.expectedSigner expectedType :=
      hs.signedBy.symm.trans ht.signedBy
    rwa [Signal.expectedSigner, Signal.expectedSigner, if_neg hanswer, if_neg hanswer] at hsigner

/-- Two signals that are accepted with one signature, which verifies for one message only, have
    the same fields just if they agree on what the signed text leaves open. -/
theorem verifySignal_binds_iff
    (hs : verifySignal c parse s expectedType signer localID now = .ok ())
    (ht : verifySignal c parse t expectedType signer localID now = .ok ())
    (hsignature : s.signature = t.signature)
    (hone : ∀ m m', signalBytes s = some m → signalBytes t = some m' →
      verify c signer signalDomain m s.signature = true →
      verify c signer signalDomain m' s.signature = true → m = m') :
    SameFields s t ↔ SameUnsigned s t := by
  have hs := verifySignal_accepted hs
  have ht := verifySignal_accepted ht
  obtain ⟨m, hm, hverify⟩ := hs.signed
  obtain ⟨m', hm', hverify'⟩ := ht.signed
  rw [← hsignature] at hverify'
  obtain rfl := hone m m' hm hm' hverify hverify'
  obtain ⟨hid, hresponder, hcreated, hexpires, hmedia, hsdp⟩ := signalBytes_same hm hm'
  constructor
  · intro h
    exact ⟨(ns_eq_iff_of_shown hcreated).mp h.createdAt, (ns_eq_iff_of_shown hexpires).mp h.expiresAt,
      congrArg Json.strays h.responderID, congrArg Json.strays h.sdp⟩
  · intro h
    have hcallID : s.callID = t.callID := by
      rwa [Json.escape_of_plain (validRouteTag_plain hs.callID),
        Json.escape_of_plain (validRouteTag_plain ht.callID)] at hid
    exact ⟨hs.version.trans ht.version.symm, hcallID, hs.type.trans ht.type.symm,
      hs.initiatorID_eq ht, Json.escape_inj hresponder h.responderID,
      (ns_eq_iff_of_shown hcreated).mpr h.createdAt, (ns_eq_iff_of_shown hexpires).mpr h.expiresAt,
      hmedia, Json.escape_inj hsdp h.sdp, hsignature⟩

end binding

/-- The theorem at an offer and itself. -/
theorem sampleOffer_binds :
    verifySignal samplePrimitives sampleParser sampleOffer signalOffer (sampleIdentity 1)
      (sampleIdentity 2).nodeID Time.epoch = .ok () ∧
    (SameFields sampleOffer sampleOffer ↔ SameUnsigned sampleOffer sampleOffer) := by
  have hverified := sampleOffer_verified le_rfl (by decide : Time.epoch.ns < _)
  refine ⟨hverified, verifySignal_binds_iff hverified hverified rfl ?_⟩
  intro m m' hm hm' _ _
  exact Option.some.inj (hm.symm.trans hm')

/-- Descriptions that are escaped alike can be exchanged under a signature. -/
theorem signalBytes_congr (s : Signal) {a b : Bytes} (h : escape a = escape b) :
    signalBytes { s with sdp := a } = signalBytes { s with sdp := b } := by
  have hencode : signalCodec.encode { s with sdp := a, signature := HybridSignature.zero } =
      signalCodec.encode { s with sdp := b, signature := HybridSignature.zero } :=
    structCodec_congr (.cons rfl (.cons rfl (.cons rfl (.cons rfl (.cons rfl (.cons rfl (.cons rfl
      (.cons rfl (.cons (congrArg (fun raw => some (Json.str raw)) h) (.cons rfl .nil))))))))))
  unfold signalBytes marshal
  rw [hencode]

theorem signalBytes_signedOffer (sdp : Bytes) :
    signalBytes (signedOffer sdp) = signalBytes (offerWith sdp) := rfl

/-- Two offers whose descriptions end in different bytes that are not UTF-8 are signed by the
    same bytes: the signature of one is accepted for the other. -/
theorem strays_not_bound : ∃ s t : Signal, ∃ m,
    verifySignal samplePrimitives sampleParser s signalOffer (sampleIdentity 1)
      (sampleIdentity 2).nodeID Time.epoch = .ok () ∧
    verifySignal samplePrimitives sampleParser t signalOffer (sampleIdentity 1)
      (sampleIdentity 2).nodeID Time.epoch = .ok () ∧
    s.signature = t.signature ∧ signalBytes s = some m ∧ signalBytes t = some m ∧
    ¬ SameFields s t := by
  have hbytes : signalBytes (offerWith (lit "v=0" ++ [0xfe])) =
      signalBytes (offerWith (lit "v=0" ++ [0xff])) :=
    signalBytes_congr unsignedOffer (by decide +kernel)
  obtain ⟨m, hm⟩ := @signedOffer_bytes (lit "v=0" ++ [0xfe]) (by decide +kernel)
  refine ⟨signedOffer (lit "v=0" ++ [0xfe]), signedOffer (lit "v=0" ++ [0xff]), m,
    signedOffer_verified (by decide +kernel) (by decide) le_rfl (by decide),
    signedOffer_verified (by decide +kernel) (by decide) le_rfl (by decide), ?_,
    (signalBytes_signedOffer _).trans hm, (signalBytes_signedOffer _).trans (hbytes.symm.trans hm), fun h => absurd h.sdp (by decide)⟩
  exact congrArg (fun o => sampleSign signalDomain (o.getD [])) hbytes

end Veilmesh.Call

/-
  Public profiles on their way to a reader (`DecodePublicProfile` of `account/profile.go`).

  A profile may list 32 devices, and its text may take 256 KiB. A certificate takes 9 KiB, so
  that the text of a profile with more than 27 devices is too long to be read.

  * `publicProfileCodec_roundtrips`: a profile of plain identifiers is read back from its text.
  * `length_signed_profile`: the length of the text of a signed profile.
  * `profile_decodable_iff`: which signed profiles can be read.
  * `checkDevices_sorted`: certificates with different identifiers are in order once sorted.
-/
import Veilmesh.Account.Local

namespace Veilmesh.Account

open Lib Protocol Pqcrypto Identity List

/-! ## Reading -/

def PublicProfile.zero : PublicProfile :=
  ⟨0, [], ⟨[], [], [], 0⟩, 0, Time.zero, [], HybridSignature.zero⟩

inductive DecodeProfileError where
  | size
  | decode
  | profile (e : ProfileError)
  deriving DecidableEq, Repr

def decodePublicProfile (c : Primitives) (encoded : Bytes) (now : Time) :
    Except DecodeProfileError PublicProfile :=
  if encoded.length = 0 ∨ encoded.length > maxPublicProfileBytes then .error .size
  else
    match unmarshal publicProfileCodec PublicProfile.zero encoded with
    | none => .error .decode
    | some profile =>
      match verifyPublicProfile c profile now with
      | .error e => .error (.profile e)
      | .ok () => .ok profile

/-! ## The text of a profile -/

/-- The identifiers of a profile need no escaping, and its time is shown in UTC. -/
structure ProfilePlain (p : PublicProfile) : Prop where
  accountID : Json.Plain p.accountID
  nodeID : Json.Plain p.accountPublic.nodeID
  updated : p.updatedAt.off = 0
  devices : ∀ d ∈ p.devices, Json.Plain d.accountID ∧ DescriptorPlain d.device

theorem publicProfileCodec_roundtrips {p : PublicProfile} (h : ProfilePlain p) :
    publicProfileCodec.Roundtrips p :=
  structCodec_roundtrips ⟨by decide, by decide⟩ (fun s => rfl) (.cons (uint8Codec_roundtrips _)
    (.cons (stringCodec_roundtrips h.accountID) (.cons (nodePublicIdentityCodec_roundtrips h.nodeID)
    (.cons (uint64Codec_roundtrips _) (.cons (timeCodec_roundtrips (by rw [h.updated]; rfl))
    (.cons (listCodec_roundtrips fun d hd => deviceCertificateCodec_roundtrips (h.devices d hd).1 (h.devices d hd).2)
    (.cons (hybridSignatureCodec_roundtrips _) .nil)))))))

section

variable {c : Primitives} {p : PublicProfile}

theorem PublicProfile.Checked.plain (h : p.Checked c) (hoff : p.updatedAt.off = 0) :
    ProfilePlain p := by
  refine ⟨plain_of_valid (by decide) h.valid, ?_, hoff, fun d hd =>
    verifyDevice_plain (verifyDevice_of_checkDevices h.devices d hd)⟩
  rw [(validPublicIdentity_iff.mp h.key).2.2.2.1]
  exact plain_nodeID _

theorem PublicProfile.Checked.sized (hkem : KEMSized c) (h : p.Checked c)
    (hoff : p.updatedAt.off = 0) {text : Bytes} (htext : p.updatedAt.marshalText = some text) :
    publicProfileCodec.Sized p (p.devices.length * 9220 + 4 * ((p.signature.ed25519.length + 2) / 3) +
        4 * ((p.signature.mldsa65.length + 2) / 3) + 2994)
      (p.devices.length * 9258 + 4 * ((p.signature.ed25519.length + 2) / 3) +
        4 * ((p.signature.mldsa65.length + 2) / 3) + 3083) := by
  have hplain := h.plain hoff
  obtain ⟨-, hkeyEd, hkeyMl, hnode, -⟩ := validPublicIdentity_iff.mp h.key
  have hid : p.accountID.length = 58 := length_of_valid h.valid
  have hdevices : ∀ d ∈ p.devices, deviceCertificateCodec.Sized d 9219 9257 := by
    intro d hd
    have hver := verifyDevice_of_checkDevices h.devices d hd
    have hbound := verifyDevice_sized hver
    rw [verifyDevice_kem hkem hver] at hbound
    exact hbound.mono (by decide) (by decide)
  have hbound := publicProfileCodec_sized hplain.accountID htext
    (nodePublicIdentityCodec_sized hplain.nodeID) hdevices (hybridSignatureCodec_sized p.signature)
  rw [hid, hnode, length_nodeID, hkeyEd, hkeyMl] at hbound
  exact hbound.mono (by simp only [ed25519PublicKeySize, mldsa65PublicKeySize]; omega)
    (by simp only [ed25519PublicKeySize, mldsa65PublicKeySize]; omega)

end

section Signed

variable {c : Primitives} {s : HybridSigner c} {revision : UInt64} {updatedAt : Time}
  {devices : List DeviceCertificate} {profile : PublicProfile}
  (h : signPublicProfile s revision updatedAt devices = .ok profile)

include h

/-- A signed profile verifies from its update time on. -/
theorem signPublicProfile_later
    {now : Time} (hnow : updatedAt.ns ≤ now.ns) : verifyPublicProfile c profile now = .ok () := by
  refine signPublicProfile_verifies h now ?_
  rw [(signPublicProfile_shape h).updatedAt]
  exact updatedAt.truncate_le.trans (hnow.trans (Int.le_add_of_nonneg_right (by decide)))

/-- What is signed is checked, and shown in UTC. -/
theorem signPublicProfile_checked :
    profile.Checked c ∧ profile.updatedAt.off = 0 ∧ profile.devices.length = devices.length := by
  have hshape := signPublicProfile_shape h
  refine ⟨(verifyPublicProfile_ok_iff.mp (signPublicProfile_later h le_rfl)).1, ?_, ?_⟩
  · rw [hshape.updatedAt, Time.truncate_off]
    rfl
  · rw [hshape.devices, length_mergeSort]

omit h

/-- The length of the text of a signed profile, by the number of its devices. -/
theorem length_signed_profile (hkem : KEMSized c)
    (h : signPublicProfile s revision updatedAt devices = .ok profile) :
    ∃ encoded, marshal publicProfileCodec profile = some encoded ∧
      devices.length * 9220 + 7494 ≤ encoded.length ∧
      encoded.length ≤ devices.length * 9258 + 7583 := by
  obtain ⟨hchecked, hoff, hcount⟩ := signPublicProfile_checked h
  obtain ⟨-, ⟨message, hmessage, hsigned⟩, -⟩ :=
    verifyPublicProfile_ok_iff.mp (signPublicProfile_later h le_rfl)
  -- a profile that is signed has a time that can be written
  obtain ⟨text, htext⟩ : ∃ text, profile.updatedAt.marshalText = some text := by
    obtain ⟨j, hj, -⟩ := Option.map_eq_some_iff.mp hmessage
    exact timeCodec_writes_iff.mp (@structCodec_writes_field _ publicProfileFields _ ⟨j, hj⟩
      ⟨lit "updated_at", Time, (·.updatedAt), fun p v => { p with updatedAt := v }, timeCodec⟩
      (by simp [publicProfileFields]))
  obtain ⟨hed, hml⟩ := verify_sizes hsigned
  have hbound := hchecked.sized hkem hoff htext
  rw [hed, hml, hcount, ed25519SignatureSize, mldsa65SignatureSize] at hbound
  exact marshal_sized hbound

end Signed

/-- A profile that `SignPublicProfile` returns has a text, which is read again from its update time
    on if it has at most 27 devices, and never otherwise. -/
theorem profile_decodable_iff {c : Primitives} (hkem : KEMSized c) (s : HybridSigner c)
    (revision : UInt64) (updatedAt : Time) (devices : List DeviceCertificate) (profile : PublicProfile)
    (h : signPublicProfile s revision updatedAt devices = .ok profile) :
    ∃ encoded, marshal publicProfileCodec profile = some encoded ∧
      ∀ now : Time, updatedAt.ns ≤ now.ns →
        (decodePublicProfile c encoded now = .ok profile ↔ devices.length ≤ 27) := by
  obtain ⟨encoded, hencoded, hge, hle⟩ := length_signed_profile hkem h
  refine ⟨encoded, hencoded, fun now hlater => ⟨fun hok => ?_, fun hfew => ?_⟩⟩
  · by_contra hmany
    have hlong : encoded.length > maxPublicProfileBytes := by
      unfold maxPublicProfileBytes
      omega
    rw [decodePublicProfile, if_pos (.inr hlong)] at hok
    cases hok
  · have hshort : ¬ (encoded.length = 0 ∨ encoded.length > maxPublicProfileBytes) := by
      unfold maxPublicProfileBytes
      omega
    obtain ⟨hchecked, hoff, -⟩ := signPublicProfile_checked h
    have hread : unmarshal publicProfileCodec PublicProfile.zero encoded = some profile :=
      unmarshal_marshal (publicProfileCodec_roundtrips (hchecked.plain hoff)) hencoded
    rw [decodePublicProfile, if_neg hshort, hread]
    dsimp only
    rw [signPublicProfile_later h hlater]

/-! ## Accounts with many devices -/

variable {c : Primitives}

/-- Verified certificates with different identifiers are in order once they are sorted. -/
theorem checkDevices_sorted {key : NodePublicIdentity} {devices : List DeviceCertificate}
    (hver : ∀ d ∈ devices, verifyDevice c key d = true)
    (hsorted : devices.Pairwise fun a b => bytesLE a.device.deviceID b.device.deviceID)
    (hnodup : (devices.map fun d => d.device.deviceID).Nodup) : ∀ {previous : Bytes},
      (∀ d ∈ devices, ¬ bytesLE d.device.deviceID previous) →
      checkDevices c key previous devices = true := by
  induction devices with
  | nil => exact fun _ => rfl
  | cons certificate rest ih =>
    intro previous hprevious
    rw [pairwise_cons] at hsorted
    rw [map_cons, nodup_cons] at hnodup
    have hhead := hprevious certificate mem_cons_self
    have hcert := hver certificate mem_cons_self
    rw [checkDevices, if_neg (by simp [hhead, hcert])]
    refine ih (fun d hd => hver d (mem_cons_of_mem _ hd)) hsorted.2 hnodup.2 fun d hd hle => ?_
    refine hnodup.1 (mem_map.mpr ⟨d, hd, ?_⟩)
    exact Std.Antisymm.antisymm (r := bytesLE) _ _ hle (hsorted.1 d hd)

/-- Devices with different identifiers get a profile. -/
theorem signPublicProfile_devices (hkem : KEMSized c) (a : HybridSigner c)
    {devices : List DeviceCertificate} (hpos : devices.length ≠ 0)
    (hmax : devices.length ≤ maxDevicesPerAccount)
    (hver : ∀ d ∈ devices, verifyDevice c a.publicIdentity d = true)
    (hnodup : (devices.map fun d => d.device.deviceID).Nodup) {revision : UInt64}
    (hrev : revision ≠ 0) {updatedAt : Time} (hzero : updatedAt.isZero = false)
    (hrounded : (updatedAt.utc.truncate millisecond).isZero = false) {text : Bytes}
    (htext : (updatedAt.utc.truncate millisecond).marshalText = some text) :
    ∃ profile, signPublicProfile a revision updatedAt devices = .ok profile := by
  set sorted := devices.mergeSort fun x y => decide (bytesLE x.device.deviceID y.device.deviceID)
    with hsorted
  have hperm : sorted.Perm devices := mergeSort_perm _ _
  have hversorted : ∀ d ∈ sorted, verifyDevice c a.publicIdentity d = true :=
    fun d hd => hver d (hperm.mem_iff.mp hd)
  have hcheck : checkDevices c a.publicIdentity [] sorted = true :=
    checkDevices_sorted hversorted (pairwise_mergeSort_key _ devices)
      ((hperm.map _).nodup_iff.mpr hnodup)
      fun d hd => not_bytesLE_nil (verifyDevice_id (hversorted d hd))
  set profile : PublicProfile := ⟨profileVersion, accountID c a.publicIdentity, a.publicIdentity,
    revision, updatedAt.utc.truncate millisecond, sorted, HybridSignature.zero⟩ with hprofile
  have hchecked : profile.Checked c :=
    ⟨rfl, hrev, valid_accountID a.valid, a.valid, rfl, hrounded, by rwa [hperm.length_eq],
      by rwa [hperm.length_eq], hcheck⟩
  have hstruct : validateProfileStructure c profile (profile.updatedAt.add minute) = .ok () := by
    refine validateProfileStructure_ok_iff.mpr ⟨hchecked, ?_⟩
    have hlater : (0 : Int) ≤ minute + 5 * minute := by decide
    calc profile.updatedAt.ns ≤ profile.updatedAt.ns + (minute + 5 * minute) :=
          Int.le_add_of_nonneg_right hlater
      _ = (profile.updatedAt.add minute).ns + 5 * minute := (Int.add_assoc _ _ _).symm
  obtain ⟨message, hmessage, -⟩ := marshal_sized (hchecked.sized hkem (Time.truncate_off _ _) htext)
  exact ⟨_, signPublicProfile_intro hrev hzero hpos hmax rfl hstruct hmessage⟩

/-- An account can certify the first `n` of a family of devices, and list them in a profile. -/
theorem exists_profile (hkem : KEMSized c) (a : HybridSigner c) (d : Nat → HybridSigner c)
    {hpke : Bytes} (hkey : c.kemPublicKey hpke = true) {n : Nat} (hpos : n ≠ 0)
    (hn : n ≤ maxDevicesPerAccount) (hinj : ∀ i < n, ∀ j < n,
      deviceID c (d i).publicIdentity = deviceID c (d j).publicIdentity → i = j) :
    ∃ (devices : List DeviceCertificate) (profile : PublicProfile), devices.length = n ∧
      signPublicProfile a 1 Time.epoch devices = .ok profile := by
  have hcertify := fun i => @signDevice_own _ a (d i) _ hkey
  choose cert hcert using hcertify
  have hid : ∀ i, (cert i).device.deviceID = deviceID c (d i).publicIdentity :=
    fun i => congrArg DeviceDescriptor.deviceID (signDevice_verifies (hcert i)).1
  have hlength : ((range n).map cert).length = n := by rw [length_map, length_range]
  have hver : ∀ e ∈ (range n).map cert, verifyDevice c a.publicIdentity e = true := by
    intro e he
    obtain ⟨i, -, rfl⟩ := mem_map.mp he
    exact (signDevice_verifies (hcert i)).2.2
  have hnodup : (((range n).map cert).map fun e => e.device.deviceID).Nodup := by
    rw [map_map]
    refine Nodup.map_on (fun i hi j hj heq => ?_) nodup_range
    simp only [Function.comp_apply, hid] at heq
    exact hinj i (mem_range.mp hi) j (mem_range.mp hj) heq
  obtain ⟨profile, hprofile⟩ := signPublicProfile_devices hkem a (by rwa [hlength]) (by rwa [hlength])
    hver hnodup (by decide : (1 : UInt64) ≠ 0) (by decide : Time.epoch.isZero = false) (by decide) rfl
  exact ⟨_, profile, hlength, hprofile⟩

/-- The numbered identities give different device identifiers. -/
theorem numberedDevice_inj : ∀ i < 28, ∀ j < 28,
    deviceID samplePrimitives (numberedIdentity i) = deviceID samplePrimitives (numberedIdentity j) →
      i = j := by
  have hpreimage : ∀ i, keyPreimage (lit "device") (numberedIdentity i) [] =
      ((lit "enig/id/v1" ++ 0 :: (lit "device" ++ [0, 1])) ++ replicate 1965 0) ++
        (replicate 15 0 ++ toBE 4 i) := by
    intro i
    rw [← numbered_split]
    have htail : replicate 32 0 ++ (replicate 1948 0 ++ toBE 4 i) =
        replicate 1980 (0 : UInt8) ++ toBE 4 i := by
      rw [← append_assoc, replicate_append_replicate]
    simp only [keyPreimage, numberedIdentity, htail, append_assoc, cons_append,
      nil_append, append_nil]
  have hinj := @Sha256.sha256_append_inj
    ((lit "enig/id/v1" ++ 0 :: (lit "device" ++ [0, 1])) ++ replicate 1965 0)
    (fun i => replicate 15 0 ++ toBE 4 i) 31 2003 28
    [2254044714, 2760936359, 1066063070, 1034535332, 2280704062, 633857300, 1145224105, 200255792]
    (by rw [length_append, length_replicate]; rfl)
    (fun i => by rw [length_numbered_split]; rfl)
    (by decide +kernel) (by decide +kernel)
  intro i hi j hj heq
  rw [deviceID, deviceID, if_neg (by simp [numberedIdentity_valid]),
    if_neg (by simp [numberedIdentity_valid])] at heq
  have hdigest := keyDigest_inj heq
  rw [hpreimage i, hpreimage j] at hdigest
  exact hinj i hi j hj hdigest

theorem sample_profile {n : Nat} (hpos : n ≠ 0) (hn : n ≤ 28) :
    ∃ (devices : List DeviceCertificate) (profile : PublicProfile), devices.length = n ∧
      signPublicProfile (sampleSigner 1) 1 Time.epoch devices = .ok profile :=
  exists_profile samplePrimitives_kemSized (sampleSigner 1) numberedSigner
    (beq_iff_eq.mpr (length_sampleBytes 1216 0)) hpos (hn.trans (by decide))
    fun i hi j hj heq => numberedDevice_inj i (hi.trans_le hn) j (hj.trans_le hn) heq

/-- A profile with 28 devices is signed, and its text is too long to be read. -/
theorem profile_too_long : ∃ (devices : List DeviceCertificate) (profile : PublicProfile)
    (encoded : Bytes), devices.length ≤ maxDevicesPerAccount ∧
      signPublicProfile (sampleSigner 1) 1 Time.epoch devices = .ok profile ∧
      marshal publicProfileCodec profile = some encoded ∧
      ∀ now, decodePublicProfile samplePrimitives encoded now = .error .size := by
  obtain ⟨devices, profile, hlength, hsigned⟩ := sample_profile (by decide : 28 ≠ 0) le_rfl
  obtain ⟨encoded, hencoded, hlong, -⟩ := length_signed_profile samplePrimitives_kemSized hsigned
  refine ⟨devices, profile, encoded, by rw [hlength]; decide, hsigned, hencoded, fun now => ?_⟩
  rw [hlength] at hlong
  rw [decodePublicProfile, if_pos]
  unfold maxPublicProfileBytes
  omega

/-- A profile with a single device is read again. -/
theorem profile_decodable_single : ∃ (devices : List DeviceCertificate) (profile : PublicProfile)
    (encoded : Bytes), devices.length = 1 ∧
      signPublicProfile (sampleSigner 1) 1 Time.epoch devices = .ok profile ∧
      marshal publicProfileCodec profile = some encoded ∧
      decodePublicProfile samplePrimitives encoded Time.epoch = .ok profile := by
  obtain ⟨devices, profile, hlength, hsigned⟩ := sample_profile (by decide : 1 ≠ 0) (by decide)
  obtain ⟨encoded, hencoded, hread⟩ := profile_decodable_iff samplePrimitives_kemSized (sampleSigner 1)
    1 Time.epoch devices profile hsigned
  refine ⟨devices, profile, encoded, hlength, hsigned, hencoded, (hread Time.epoch le_rfl).mpr ?_⟩
  rw [hlength]
  decide

end Veilmesh.Account

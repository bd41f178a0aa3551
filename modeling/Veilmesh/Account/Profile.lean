/-
  Device certificates and public profiles (`account/devices.go`, `account/profile.go`).

  An account certifies its devices with its own key and publishes the certificates in a
  signed profile, sorted by device identifier. Nothing of a profile is used before the
  self-certifying account identifier, every certificate and the signature verify.

  * `verifyPublicProfile_ok_iff`: what a verified profile satisfies.
  * `deviceCertificateCodec_roundtrips`: certificates survive their JSON encoding.
-/
import Veilmesh.Identity.Id

namespace Veilmesh.Account

open Lib Protocol Pqcrypto Identity

def maxDevicesPerAccount : Nat := 32
def maxDeviceIDBytes : Nat := 128

/-- Keys of ML-KEM-768 and X25519 side by side. -/
def hybridKEMPublicKeySize : Nat := 1216

/-! ## Device certificates -/

structure DeviceCertificate where
  accountID : Bytes
  device : DeviceDescriptor
  signature : HybridSignature
  deriving DecidableEq, Repr

def DeviceCertificate.zero : DeviceCertificate :=
  ⟨[], DeviceDescriptor.zero, HybridSignature.zero⟩

def deviceCertificateFields : List (JsonField DeviceCertificate) := [
  ⟨lit "account_id", Bytes, (·.accountID), fun c v => { c with accountID := v }, stringCodec⟩,
  ⟨lit "device", DeviceDescriptor, (·.device), fun c v => { c with device := v },
    deviceDescriptorCodec⟩,
  ⟨lit "signature", HybridSignature, (·.signature), fun c v => { c with signature := v },
    hybridSignatureCodec⟩]

def deviceCertificateCodec : Codec DeviceCertificate := structCodec deviceCertificateFields

/-- The certificate without its signature, as it is signed. -/
def unsignedCertificateCodec : Codec DeviceCertificate :=
  structCodec (deviceCertificateFields.take 2)

def validDeviceID (deviceID : Bytes) : Bool :=
  decide (deviceID.length ≤ maxDeviceIDBytes) && Identity.validDeviceID deviceID

def validDeviceDescriptor (c : Primitives) (device : DeviceDescriptor) : Bool :=
  validDeviceID device.deviceID && validAccountID device.accountID &&
    validPublicIdentity c device.signingKey &&
    decide (device.deviceID = deviceID c device.signingKey) &&
    validateHybridKEMPublicKey c device.hpkePublicKey

def certificateBytes (certificate : DeviceCertificate) : Option Bytes :=
  marshal unsignedCertificateCodec certificate

def certificateDomain : Bytes := lit "device-certificate"

def verifyDevice (c : Primitives) (accountPublic : NodePublicIdentity)
    (certificate : DeviceCertificate) : Bool :=
  if validPublicIdentity c accountPublic = false ∨
      certificate.accountID ≠ accountID c accountPublic ∨
      certificate.device.accountID ≠ certificate.accountID ∨
      validDeviceDescriptor c certificate.device = false then false
  else
    match certificateBytes certificate with
    | none => false
    | some message => verify c accountPublic certificateDomain message certificate.signature

/-- The one error of `SignDevice` that the caller can cause; encoding may fail, too. -/
inductive DeviceError where
  | invalidDescriptor
  | encoding
  deriving DecidableEq, Repr

def signDevice {c : Primitives} (accountSigner : HybridSigner c) (device : DeviceDescriptor) :
    Except DeviceError DeviceCertificate :=
  let id := accountID c accountSigner.publicIdentity
  if device.accountID ≠ id ∨ validDeviceDescriptor c device = false then .error .invalidDescriptor
  else
    let certificate : DeviceCertificate := ⟨id, device, HybridSignature.zero⟩
    match certificateBytes certificate with
    | none => .error .encoding
    | some message =>
      .ok { certificate with signature := accountSigner.sign certificateDomain message }

/-! ## Profiles -/

def profileVersion : UInt8 := 1
def maxPublicProfileBytes : Nat := 256 * 1024

structure PublicProfile where
  version : UInt8
  accountID : Bytes
  accountPublic : NodePublicIdentity
  revision : UInt64
  updatedAt : Time
  devices : List DeviceCertificate
  signature : HybridSignature
  deriving DecidableEq, Repr

def publicProfileFields : List (JsonField PublicProfile) := [
  ⟨lit "version", UInt8, (·.version), fun p v => { p with version := v }, uint8Codec⟩,
  ⟨lit "account_id", Bytes, (·.accountID), fun p v => { p with accountID := v }, stringCodec⟩,
  ⟨lit "account_public", NodePublicIdentity, (·.accountPublic),
    fun p v => { p with accountPublic := v }, nodePublicIdentityCodec⟩,
  ⟨lit "revision", UInt64, (·.revision), fun p v => { p with revision := v }, uint64Codec⟩,
  ⟨lit "updated_at", Time, (·.updatedAt), fun p v => { p with updatedAt := v }, timeCodec⟩,
  ⟨lit "devices", List DeviceCertificate, (·.devices), fun p v => { p with devices := v },
    listCodec deviceCertificateCodec DeviceCertificate.zero⟩,
  ⟨lit "signature", HybridSignature, (·.signature), fun p v => { p with signature := v },
    hybridSignatureCodec⟩]

def publicProfileCodec : Codec PublicProfile := structCodec publicProfileFields

inductive ProfileError where
  | invalidProfile
  | invalidCertificate
  | invalidSignature
  deriving DecidableEq, Repr

def profileSigningBytes (profile : PublicProfile) : Option Bytes :=
  marshal publicProfileCodec { profile with signature := HybridSignature.zero }

/-- The loop over the devices: strictly sorted, each with a valid certificate. -/
def checkDevices (c : Primitives) (accountPublic : NodePublicIdentity) :
    Bytes → List DeviceCertificate → Bool
  | _, [] => true
  | previous, certificate :: rest =>
    if bytesLE certificate.device.deviceID previous ∨
        verifyDevice c accountPublic certificate = false then false
    else checkDevices c accountPublic certificate.device.deviceID rest

def validateProfileStructure (c : Primitives) (profile : PublicProfile) (now : Time) :
    Except ProfileError Unit :=
  if profile.version ≠ profileVersion ∨ profile.revision = 0 ∨
      validAccountID profile.accountID = false ∨
      validPublicIdentity c profile.accountPublic = false ∨
      profile.accountID ≠ accountID c profile.accountPublic ∨ profile.updatedAt.isZero = true ∨
      profile.updatedAt.after (now.add (5 * minute)) = true ∨ profile.devices.length = 0 ∨
      profile.devices.length > maxDevicesPerAccount then .error .invalidProfile
  else if checkDevices c profile.accountPublic [] profile.devices = false then
    .error .invalidCertificate
  else .ok ()

def profileDomain : Bytes := lit "account-public-profile"

def verifyPublicProfile (c : Primitives) (profile : PublicProfile) (now : Time) :
    Except ProfileError Unit :=
  match validateProfileStructure c profile now with
  | .error e => .error e
  | .ok () =>
    match profileSigningBytes profile with
    | none => .error .invalidSignature
    | some message =>
      if verify c profile.accountPublic profileDomain message profile.signature = false then
        .error .invalidSignature
      else .ok ()

inductive SignProfileError where
  | invalidInput
  | profile (e : ProfileError)
  | encoding
  deriving DecidableEq, Repr

/-- `SignPublicProfile`; a sort that leaves equal keys in an unspecified order is as good
    as any here, since equal keys are refused afterwards. -/
def signPublicProfile {c : Primitives} (accountSigner : HybridSigner c) (revision : UInt64)
    (updatedAt : Time) (devices : List DeviceCertificate) : Except SignProfileError PublicProfile :=
  if revision = 0 ∨ updatedAt.isZero = true ∨ devices.length = 0 ∨
      devices.length > maxDevicesPerAccount then .error .invalidInput
  else
    let profile : PublicProfile :=
      { version := profileVersion
        accountID := accountID c accountSigner.publicIdentity
        accountPublic := accountSigner.publicIdentity
        revision := revision
        updatedAt := updatedAt.utc.truncate millisecond
        devices := devices.mergeSort fun a b => decide (bytesLE a.device.deviceID b.device.deviceID)
        signature := HybridSignature.zero }
    match validateProfileStructure c profile (profile.updatedAt.add minute) with
    | .error e => .error (.profile e)
    | .ok () =>
      match profileSigningBytes profile with
      | none => .error .encoding
      | some message =>
        .ok { profile with signature := accountSigner.sign profileDomain message }

/-- Whether the first device with the candidate's identifier is the candidate. -/
def profileContainsDevice (profile : PublicProfile) (candidate : DeviceCertificate) : Bool :=
  match profile.devices.find? fun d => d.device.deviceID == candidate.device.deviceID with
  | none => false
  | some certificate =>
    match certificateBytes certificate, certificateBytes candidate with
    | some left, some right => left == right &&
        certificate.signature.ed25519 == candidate.signature.ed25519 &&
        certificate.signature.mldsa65 == candidate.signature.mldsa65
    | _, _ => false

variable {d : DeviceCertificate} {m n : Nat} {p profile : PublicProfile} {c : Primitives}
  {s : HybridSigner c} {devices : List DeviceCertificate} {revision : UInt64} {updatedAt : Time}

theorem deviceCertificateCodec_roundtrips (hid : Json.Plain d.accountID)
    (hdev : DescriptorPlain d.device) : deviceCertificateCodec.Roundtrips d :=
  structCodec_roundtrips ⟨by decide, by decide⟩ (fun s => rfl) (.cons (stringCodec_roundtrips hid)
    (.cons (deviceDescriptorCodec_roundtrips hdev)
    (.cons (hybridSignatureCodec_roundtrips _) .nil)))

theorem publicProfileCodec_sized (hid : Json.Plain p.accountID) {t : Bytes}
    (htime : p.updatedAt.marshalText = some t) {i k j l : Nat}
    (hkey : nodePublicIdentityCodec.Sized p.accountPublic m n)
    (hdevs : ∀ d ∈ p.devices, deviceCertificateCodec.Sized d i k)
    (hsig : hybridSignatureCodec.Sized p.signature j l) : publicProfileCodec.Sized p
      (p.accountID.length + m + p.devices.length * (i + 1) + j + 119)
      (p.accountID.length + n + p.devices.length * (k + 1) + l + 178) :=
  structCodec_sized (k := 93) rfl (.cons (uint8Codec_atMost _) (.cons (stringCodec_sized hid)
    (.cons hkey (.cons (uint64Codec_atMost _) (.cons (timeCodec_sized htime)
      (.cons (listCodec_sized hdevs) (.cons hsig .nil)))))))
    (by dsimp only; omega) (by dsimp only; omega)

/-! ## What signing functions return -/

theorem signDevice_verifies {device : DeviceDescriptor} {certificate : DeviceCertificate}
    (h : signDevice s device = .ok certificate) :
    certificate.device = device ∧ certificate.accountID = accountID c s.publicIdentity ∧
      verifyDevice c s.publicIdentity certificate = true := by
  simp only [signDevice] at h
  split at h
  · cases h
  rename_i hcheck
  simp only [not_or, ne_eq, not_not, Bool.not_eq_false] at hcheck
  split at h
  · cases h
  rename_i message hm
  obtain rfl := Except.ok.inj h
  refine ⟨rfl, rfl, ?_⟩
  -- the signature is not part of what is signed
  have hm' : certificateBytes ⟨accountID c s.publicIdentity, device,
      s.sign certificateDomain message⟩ = some message := hm
  rw [verifyDevice, if_neg (by simp [s.valid, hcheck.1, hcheck.2]), hm']
  exact s.verifies _ _

/-- What is checked of a profile, apart from its signature and the clock. -/
structure PublicProfile.Checked (c : Primitives) (p : PublicProfile) : Prop where
  version : p.version = profileVersion
  revision : p.revision ≠ 0
  valid : validAccountID p.accountID = true
  key : validPublicIdentity c p.accountPublic = true
  own : p.accountID = Identity.accountID c p.accountPublic
  updated : p.updatedAt.isZero = false
  listed : p.devices.length ≠ 0
  few : p.devices.length ≤ maxDevicesPerAccount
  devices : checkDevices c p.accountPublic [] p.devices = true

theorem validateProfileStructure_ok_iff {now : Time} :
    validateProfileStructure c p now = .ok () ↔
      p.Checked c ∧ p.updatedAt.ns ≤ now.ns + 5 * minute := by
  unfold validateProfileStructure
  split
  · rename_i hbad
    refine ⟨fun h => (by cases h), fun ⟨hc, hnow⟩ => ?_⟩
    rcases hbad with h | h | h | h | h | h | h | h | h
    · exact absurd hc.version h
    · exact absurd h hc.revision
    · exact absurd h (by simp [hc.valid])
    · exact absurd h (by simp [hc.key])
    · exact absurd hc.own h
    · exact absurd h (by simp [hc.updated])
    · exact absurd ((Time.after_iff _ _).mp h) (not_lt.mpr hnow)
    · exact absurd h hc.listed
    · exact absurd h (not_lt.mpr hc.few)
  rename_i hok
  simp only [not_or, ne_eq, not_not, Bool.not_eq_false, not_lt, Time.after_iff, Time.add_ns] at hok
  obtain ⟨h1, h2, h3, h4, h5, h6, h7, h8, h9⟩ := hok
  split
  · rename_i hdev
    refine ⟨fun h => (by cases h), fun ⟨hc, _⟩ => ?_⟩
    rw [hc.devices] at hdev
    cases hdev
  · rename_i hdev
    exact ⟨fun _ => ⟨⟨h1, h2, h3, h4, h5, (Bool.not_eq_true _).mp h6, h8, h9,
      (Bool.not_eq_false _).mp hdev⟩, h7⟩, fun _ => rfl⟩

/-- A profile verifies if it is in order, signed with its own key, and not from the future. -/
theorem verifyPublicProfile_ok_iff {now : Time} :
    verifyPublicProfile c p now = .ok () ↔ p.Checked c ∧
      (∃ message, profileSigningBytes p = some message ∧
        verify c p.accountPublic profileDomain message p.signature = true) ∧
      p.updatedAt.ns ≤ now.ns + 5 * minute := by
  unfold verifyPublicProfile
  cases hstruct : validateProfileStructure c p now with
  | error e =>
    refine ⟨fun h => (by cases h), fun ⟨hc, _, hnow⟩ => ?_⟩
    rw [validateProfileStructure_ok_iff.mpr ⟨hc, hnow⟩] at hstruct
    cases hstruct
  | ok u =>
    obtain ⟨hc, hnow⟩ := validateProfileStructure_ok_iff.mp hstruct
    dsimp only
    cases hm : profileSigningBytes p with
    | none => simp
    | some message => simp [hc, hnow]

theorem verifyDevice_of_checkDevices {key : NodePublicIdentity} : ∀ {previous : Bytes},
      checkDevices c key previous devices = true → ∀ d ∈ devices, verifyDevice c key d = true := by
  induction devices with
  | nil => exact fun _ d hd => absurd hd List.not_mem_nil
  | cons certificate rest ih =>
    intro previous h d hd
    rw [checkDevices] at h
    split at h
    · cases h
    rename_i hok
    simp only [not_or, Bool.not_eq_false] at hok
    rcases List.mem_cons.mp hd with rfl | hd
    · exact hok.2
    · exact ih h d hd

theorem signPublicProfile_intro {message : Bytes} (hrev : revision ≠ 0)
    (htime : updatedAt.isZero = false) (hpos : devices.length ≠ 0)
    (hmax : devices.length ≤ maxDevicesPerAccount)
    (hprofile : profile = ⟨profileVersion, accountID c s.publicIdentity, s.publicIdentity, revision,
      updatedAt.utc.truncate millisecond,
      devices.mergeSort fun a b => decide (bytesLE a.device.deviceID b.device.deviceID),
      HybridSignature.zero⟩)
    (hstruct : validateProfileStructure c profile (profile.updatedAt.add minute) = .ok ())
    (hm : profileSigningBytes profile = some message) :
    signPublicProfile s revision updatedAt devices =
      .ok { profile with signature := s.sign profileDomain message } := by
  subst hprofile
  dsimp only at hstruct
  rw [signPublicProfile, if_neg]
  · dsimp only
    rw [hstruct]
    dsimp only
    rw [hm]
  · rintro (h | h | h | h)
    · exact hrev h
    · rw [htime] at h
      cases h
    · exact hpos h
    · exact absurd hmax (not_le.mpr h)

/-- The fields of a signed profile. -/
structure SignedShape (c : Primitives) (s : HybridSigner c) (revision : UInt64) (updatedAt : Time)
    (devices : List DeviceCertificate) (profile : PublicProfile) : Prop where
  version : profile.version = profileVersion
  accountID : profile.accountID = Identity.accountID c s.publicIdentity
  accountPublic : profile.accountPublic = s.publicIdentity
  revision : profile.revision = revision
  updatedAt : profile.updatedAt = updatedAt.utc.truncate millisecond
  devices : profile.devices =
    devices.mergeSort fun a b => decide (bytesLE a.device.deviceID b.device.deviceID)

theorem signPublicProfile_shape (h : signPublicProfile s revision updatedAt devices = .ok profile) :
    SignedShape c s revision updatedAt devices profile := by
  simp only [signPublicProfile] at h
  split at h
  · cases h
  split at h
  · cases h
  split at h
  · cases h
  obtain rfl := Except.ok.inj h
  exact ⟨rfl, rfl, rfl, rfl, rfl, rfl⟩

theorem signPublicProfile_verifies
    (h : signPublicProfile s revision updatedAt devices = .ok profile) (now : Time)
    (hnow : profile.updatedAt.ns ≤ now.ns + 5 * minute) :
    verifyPublicProfile c profile now = .ok () := by
  simp only [signPublicProfile] at h
  split at h
  · cases h
  split at h
  · cases h
  rename_i hstruct
  split at h
  · cases h
  rename_i message hm
  obtain rfl := Except.ok.inj h
  -- the checks look at everything but the signature
  obtain ⟨hchecked, -⟩ := validateProfileStructure_ok_iff.mp hstruct
  exact verifyPublicProfile_ok_iff.mpr
    ⟨⟨hchecked.1, hchecked.2, hchecked.3, hchecked.4, hchecked.5, hchecked.6, hchecked.7,
      hchecked.8, hchecked.9⟩, ⟨message, hm, s.verifies _ _⟩, hnow⟩

/-! ## Verified certificates -/

section

variable {c : Primitives} {key : NodePublicIdentity} {d : DeviceCertificate}
  (h : verifyDevice c key d = true)

include h

/-- What the checks before the signature leave of a certificate. -/
theorem verifyDevice_shape : validPublicIdentity c key = true ∧ d.accountID = accountID c key ∧
      d.device.accountID = d.accountID ∧ validDeviceDescriptor c d.device = true := by
  unfold verifyDevice at h
  split at h
  · cases h
  · rename_i hn
    simp only [not_or, ne_eq, not_not, Bool.not_eq_false] at hn
    exact hn

theorem certificateBytes_of_verifyDevice : ∃ message, certificateBytes d = some message ∧
      verify c key certificateDomain message d.signature = true := by
  unfold verifyDevice at h
  split at h
  · cases h
  split at h
  · cases h
  · rename_i message hm
    exact ⟨message, hm, h⟩

omit h in
theorem validDeviceDescriptor_iff {device : DeviceDescriptor} :
    validDeviceDescriptor c device = true ↔ validDeviceID device.deviceID = true ∧
      validAccountID device.accountID = true ∧ validPublicIdentity c device.signingKey = true ∧
      device.deviceID = deviceID c device.signingKey ∧ c.kemPublicKey device.hpkePublicKey = true := by
  simp only [validDeviceDescriptor, validateHybridKEMPublicKey, Bool.and_eq_true, decide_eq_true_eq,
    and_assoc]

/-- The identifiers in a verified certificate need no escaping. -/
theorem verifyDevice_plain : Json.Plain d.accountID ∧ DescriptorPlain d.device := by
  obtain ⟨-, hid, hdev, hvalid⟩ := verifyDevice_shape h
  obtain ⟨-, -, hkey, hdevice, -⟩ := validDeviceDescriptor_iff.mp hvalid
  have hacc : Json.Plain d.accountID := by
    rw [hid]
    exact plain_accountID _ _
  refine ⟨hacc, ?_, ?_, ?_⟩
  · rw [hdevice]
    exact plain_deviceID _ _
  · rwa [hdev]
  · rw [(validPublicIdentity_iff.mp hkey).2.2.2.1]
    exact plain_nodeID _

/-- A verified certificate takes little more than its keys and signatures. -/
theorem verifyDevice_sized :
    deviceCertificateCodec.Sized d (4 * ((d.device.hpkePublicKey.length + 2) / 3) + 7599)
      (4 * ((d.device.hpkePublicKey.length + 2) / 3) + 7633) := by
  obtain ⟨-, hid, hdev, hvalid⟩ := verifyDevice_shape h
  obtain ⟨hdid, haid, hkey, -, -⟩ := validDeviceDescriptor_iff.mp hvalid
  obtain ⟨hacc, hplain⟩ := verifyDevice_plain h
  obtain ⟨message, -, hv⟩ := certificateBytes_of_verifyDevice h
  obtain ⟨-, hed, hml, hnode, -⟩ := validPublicIdentity_iff.mp hkey
  obtain ⟨hsed, hsml⟩ := verify_sizes hv
  simp only [validDeviceID, Bool.and_eq_true] at hdid
  have h1 : d.device.deviceID.length = 58 := length_of_valid hdid.2
  have h2 : d.device.accountID.length = 58 := length_of_valid haid
  have h3 : d.device.signingKey.nodeID.length = 64 := by rw [hnode, length_nodeID]
  simp only [ed25519PublicKeySize, mldsa65PublicKeySize, ed25519SignatureSize,
    mldsa65SignatureSize] at hed hml hsed hsml
  have h4 : d.accountID.length = 58 := hdev ▸ h2
  refine structCodec_sized (k := 37) rfl (.cons (stringCodec_sized hacc) (.cons
    (deviceDescriptorCodec_sized hplain (nodePublicIdentityCodec_sized hplain.nodeID)) (.cons
      (hybridSignatureCodec_sized d.signature) .nil))) ?_ ?_
  · dsimp only
    omega
  · dsimp only
    omega

omit h

/-- Keys of the hybrid KEM have its length. -/
def KEMSized (c : Primitives) : Prop :=
  ∀ key, c.kemPublicKey key = true → key.length = hybridKEMPublicKeySize

theorem verifyDevice_kem (hkem : KEMSized c) (h : verifyDevice c key d = true) :
    d.device.hpkePublicKey.length = hybridKEMPublicKeySize :=
  hkem _ (validDeviceDescriptor_iff.mp (verifyDevice_shape h).2.2.2).2.2.2.2

/-- The identifier of a verified certificate is not empty. -/
theorem verifyDevice_id (h : verifyDevice c key d = true) : d.device.deviceID ≠ [] := by
  obtain ⟨-, -, -, hvalid⟩ := verifyDevice_shape h
  have hform := (validDeviceDescriptor_iff.mp hvalid).1
  rw [validDeviceID, Bool.and_eq_true] at hform
  intro hnil
  have hlength := length_of_valid hform.2
  rw [hnil] at hlength
  cases hlength

end

theorem samplePrimitives_kemSized : KEMSized samplePrimitives := fun _ h => beq_iff_eq.mp h

end Veilmesh.Account

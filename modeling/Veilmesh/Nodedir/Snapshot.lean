/-
  Published snapshots (`nodedir/registry.go`).

  A publisher signs the live records of its registry in the order of their identifiers, and
  a receiver verifies header and records against its own clock before it merges any of them.

  * `mergeSnapshot_iff`: an empty registry takes a published snapshot exactly when its
    header is recent and every record is timely on the receiver's clock.
  * `honest_snapshot_iff`: within the clock skew the header tolerates, a snapshot of a
    publisher whose records all verify is taken exactly when no lease has run out on the
    receiver's clock, none is dated too far ahead of it, and the millisecond the header
    names is still within the tolerance.
-/
import Veilmesh.Nodedir.Join

namespace Veilmesh.Nodedir

open Lib Protocol Pqcrypto List
open Record (node)

/-! ## Signing -/

inductive SnapshotError where
  | input
  | duplicate
  deriving DecidableEq, Repr

def SnapshotError.text : SnapshotError → Bytes
  | .input => lit "invalid node directory snapshot input"
  | .duplicate => lit "duplicate node in directory snapshot"

def sortRecords (records : List Record) : List Record :=
  records.mergeSort fun a b =>
    decide (bytesLE a.announcement.identity.nodeID b.announcement.identity.nodeID)

/-- Whether two neighbouring records are of one node. -/
def repeatsNode : List Record → Bool
  | a :: b :: rest =>
    a.announcement.identity.nodeID == b.announcement.identity.nodeID || repeatsNode (b :: rest)
  | _ => false

def signSnapshot {c : Primitives} (signer : HybridSigner c) (records : List Record) (now : Time) :
    Except SnapshotError Snapshot :=
  if now.isZero = true ∨ (records.length : Int) > maxDirectoryNodes then .error .input
  else
    let copyRecords := sortRecords records
    if repeatsNode copyRecords = true then .error .duplicate
    else
      let snapshot : Snapshot :=
        ⟨protocolVersion, signer.publicIdentity, now.utc.truncate millisecond, copyRecords,
          HybridSignature.zero⟩
      .ok { snapshot with signature := signer.sign snapshotDomain (snapshotSigningBytes snapshot) }

/-! ## Sorted records -/

theorem sortRecords_perm (l : List Record) : (sortRecords l).Perm l := mergeSort_perm _ _

variable {l : List Record}

/-- Records of different nodes are sorted strictly. -/
theorem sortRecords_pairwise (h : (l.map node).Nodup) :
    (sortRecords l).Pairwise fun a b => ¬bytesLE b.node a.node := by
  have hle : (sortRecords l).Pairwise fun a b => bytesLE a.node b.node :=
    pairwise_mergeSort_key node l
  have hne : (sortRecords l).Pairwise fun a b => a.node ≠ b.node := by
    rw [← pairwise_map, ← nodup_iff_pairwise_ne, ((sortRecords_perm l).map _).nodup_iff]
    exact h
  exact (hle.and hne).imp fun ⟨hab, hne⟩ hba => hne (antisymm hab hba)

theorem uniquelySorted_of_pairwise
    (h : l.Pairwise fun a b => ¬bytesLE b.node a.node) : uniquelySorted l = true := by
  induction l with
  | nil => rfl
  | cons a l ih =>
    cases l with
    | nil => rfl
    | cons b l =>
      rw [pairwise_cons] at h
      have hab : ¬bytesLE b.announcement.identity.nodeID a.announcement.identity.nodeID :=
        h.1 b mem_cons_self
      rw [uniquelySorted, ih h.2, Bool.and_true, Bool.not_eq_true', decide_eq_false hab]

theorem repeatsNode_of_pairwise (h : l.Pairwise fun a b => a.node ≠ b.node) :
    repeatsNode l = false := by
  induction l with
  | nil => rfl
  | cons a l ih =>
    cases l with
    | nil => rfl
    | cons b l =>
      rw [pairwise_cons] at h
      have hab : a.announcement.identity.nodeID ≠ b.announcement.identity.nodeID :=
        h.1 b mem_cons_self
      rw [repeatsNode, ih h.2, Bool.or_false, beq_eq_false_iff_ne]
      exact hab

/-! ## What a publisher signs -/

section

variable {c : Primitives} {policy : Policy} {publisher : Registry} {order : List Bytes} {t : Time}

theorem Registry.active_perm (registry : Registry) (now : Time) (order : List Bytes) :
    (registry.active now order).Perm ((order.filterMap registry.records.lookup).filter fun r =>
      r.announcement.expiresAt.after now) := mergeSort_perm _ _

/-- The live records are of different nodes. -/
theorem active_nodup (hinv : RecordsInv c policy publisher.records)
    (horder : publisher.IsOrder order) : ((publisher.active t order).map node).Nodup := by
  rw [((publisher.active_perm t order).map _).nodup_iff, nodup_iff_pairwise_ne, pairwise_map]
  refine List.Pairwise.filter _ (pairwise_filterMap.mpr (horder.1.imp ?_))
  intro a b hne x hx y hy hxy
  have ha : a = x.node := (hinv.admitted a x hx).1
  have hb : b = y.node := (hinv.admitted b y hy).1
  exact hne (by rw [ha, hb, hxy])

theorem active_length (horder : publisher.IsOrder order) :
    (publisher.active t order).length ≤ publisher.records.size := by
  have hsize : order.length = publisher.records.size := by
    rw [GoMap.size, ← toFinset_card_of_nodup horder.1]
    congr 1
    ext id
    rw [mem_toFinset]
    exact horder.2 id
  calc (publisher.active t order).length
      = ((order.filterMap publisher.records.lookup).filter fun r =>
          r.announcement.expiresAt.after t).length := (publisher.active_perm t order).length_eq
    _ ≤ (order.filterMap publisher.records.lookup).length := length_filter_le _ _
    _ ≤ order.length := length_filterMap_le _ _
    _ = publisher.records.size := hsize

/-- The snapshot that is signed over these records. -/
structure Published {c : Primitives} (signer : HybridSigner c) (records : List Record) (t : Time)
    (snapshot : Snapshot) : Prop where
  version : snapshot.version = protocolVersion
  publisher : snapshot.publisher = signer.publicIdentity
  generatedAt : snapshot.generatedAt.ns = (t.truncate millisecond).ns
  records : snapshot.records = sortRecords records
  signature : verify c snapshot.publisher snapshotDomain (snapshotSigningBytes snapshot)
    snapshot.signature = true

theorem signSnapshot_published {signer : HybridSigner c} {records : List Record}
    {snapshot : Snapshot} (h : signSnapshot signer records t = .ok snapshot) :
    Published signer records t snapshot := by
  simp only [signSnapshot] at h
  split at h
  · cases h
  split at h
  · cases h
  obtain rfl := Except.ok.inj h
  exact ⟨rfl, rfl, rfl, rfl, signer.verifies _ _⟩

/-- Signing the live records of a registry does not fail. -/
theorem signSnapshot_active (signer : HybridSigner c) (hlimits : policy.Limits)
    (hinv : RecordsInv c policy publisher.records) (horder : publisher.IsOrder order)
    (ht : t.isZero = false) :
    ∃ snapshot, signSnapshot signer (publisher.active t order) t = .ok snapshot := by
  have hlength : ((publisher.active t order).length : Int) ≤ maxDirectoryNodes := by
    have h1 := @active_length publisher order t horder
    have h2 := hinv.bounded
    simp only [Policy.Limits, not_or, not_lt, not_le] at hlimits
    obtain ⟨-, -, -, -, -, h3⟩ := hlimits
    omega
  have hrepeats : repeatsNode (sortRecords (publisher.active t order)) = false := by
    refine repeatsNode_of_pairwise ((sortRecords_pairwise (active_nodup hinv horder)).imp ?_)
    exact fun h heq => h (heq ▸ refl_of bytesLE _)
  simp only [signSnapshot, ht, hrepeats]
  rw [if_neg (by simpa using hlength), if_neg (by simp)]
  exact ⟨_, rfl⟩

end

/-! ## What a receiver takes -/

section

variable {c : Primitives} {policy : Policy}

theorem mergeVerifiedRecord_new {maxNodes : Int} {records : GoMap Bytes Record} {r : Record}
    (hnone : records.lookup r.node = none) (hroom : (records.size : Int) < maxNodes) :
    mergeVerifiedRecord records maxNodes r = .ok (records.insert r.node r) := by
  simp only [mergeVerifiedRecord, node] at hnone ⊢
  rw [hnone]
  exact if_neg (not_le.mpr hroom)

/-- Records of new nodes are stored as long as there is room. -/
theorem mergeRecords_fresh {maxNodes : Int} {l : List Record} {records : GoMap Bytes Record}
    (hnodup : (l.map node).Nodup) (hnew : ∀ r ∈ l, records.lookup r.node = none)
    (hroom : (records.size : Int) + l.length ≤ maxNodes) :
    ∃ updated, mergeRecords maxNodes records l = .ok updated := by
  induction l generalizing records with
  | nil => exact ⟨records, rfl⟩
  | cons r l ih =>
    rw [map_cons, nodup_cons] at hnodup
    rw [length_cons] at hroom
    have hnone := hnew r mem_cons_self
    rw [mergeRecords, mergeVerifiedRecord_new hnone (by push_cast at hroom; omega)]
    refine ih hnodup.2 (fun s hs => ?_) ?_
    · rw [GoMap.lookup_insert_eq, if_neg, hnew s (mem_cons_of_mem _ hs)]
      exact fun h => hnodup.1 (h ▸ mem_map_of_mem hs)
    · rw [GoMap.size_insert_new _ hnone]
      push_cast at hroom ⊢
      omega

variable {signer : HybridSigner c}

/-- The header of a signed snapshot is accepted while it is recent. -/
theorem verifySnapshotHeader_iff {l : List Record} {t now : Time}
    {snapshot : Snapshot} (hp : Published signer l t snapshot) (hnodup : (l.map node).Nodup)
    {maxNodes : Int} (hmax : 0 < maxNodes) (hlimit : maxNodes ≤ maxDirectoryNodes)
    (hfew : (l.length : Int) ≤ maxNodes) :
    verifySnapshotHeader c snapshot signer.publicIdentity.nodeID now maxNodes = .ok () ↔
      now.ns - maxClockSkew ≤ (t.truncate millisecond).ns ∧
        (t.truncate millisecond).ns ≤ now.ns + maxClockSkew := by
  have hmaxNodes : ¬(maxNodes ≤ 0 ∨ maxNodes > maxDirectoryNodes) := by
    rw [not_or, not_le, not_lt]
    exact ⟨hmax, hlimit⟩
  have hlength : ¬((snapshot.records.length : Int) > maxNodes) := by
    rw [hp.records, (sortRecords_perm l).length_eq, not_lt]
    exact hfew
  have hsorted : uniquelySorted snapshot.records = true := by
    rw [hp.records, uniquelySorted_of_pairwise (sortRecords_pairwise hnodup)]
  have hvalid : validPublicIdentity c snapshot.publisher = true := hp.publisher ▸ signer.valid
  have hpublisher : snapshot.publisher.nodeID = signer.publicIdentity.nodeID := by rw [hp.publisher]
  simp only [verifySnapshotHeader, if_neg hmaxNodes, hp.version, hlength, hvalid, hpublisher,
    hsorted, hp.signature, ne_eq, not_true_eq_false, false_or, Bool.true_eq_false, if_false,
    Time.before_iff, Time.after_iff, hp.generatedAt, Time.add_ns]
  rw [← sub_eq_add_neg]
  constructor
  · intro h
    split at h
    · cases h
    rename_i hclock
    rw [not_or, not_lt, not_lt] at hclock
    exact hclock
  · intro h
    rw [if_neg]
    rw [not_or, not_lt, not_lt]
    exact h

/-- An empty registry takes a snapshot of verified records exactly when the header is recent
    and all records are timely. -/
theorem mergeSnapshot_iff {l : List Record} {t now : Time}
    {snapshot : Snapshot} (hp : Published signer l t snapshot) (hnodup : (l.map node).Nodup)
    (hlimits : policy.Limits) (hfew : (l.length : Int) ≤ policy.maxNodes)
    (hwell : ∀ r ∈ l, WellFormed c policy r) :
    ((Registry.mk policy ∅).mergeSnapshot c snapshot signer.publicIdentity.nodeID now).1 = .ok () ↔
      (now.ns - maxClockSkew ≤ (t.truncate millisecond).ns ∧
        (t.truncate millisecond).ns ≤ now.ns + maxClockSkew) ∧ ∀ r ∈ l, Timely r now := by
  have hmax : 0 < policy.maxNodes ∧ policy.maxNodes ≤ maxDirectoryNodes := by
    simp only [Policy.Limits, not_or, not_lt, not_le] at hlimits
    exact ⟨hlimits.2.2.2.2.1, hlimits.2.2.2.2.2⟩
  have hperm : snapshot.records.Perm l := hp.records ▸ sortRecords_perm l
  have hheader := @verifySnapshotHeader_iff c signer l t now snapshot hp hnodup policy.maxNodes hmax.1
    hmax.2 hfew
  have hrecords : verifyRecords c policy now snapshot.records = .ok () ↔ ∀ r ∈ l, Timely r now := by
    rw [verifyRecords_iff]
    constructor
    · exact fun h r hr => (verifyRecord_iff.mp (h r (hperm.mem_iff.mpr hr))).2
    · intro h r hr
      have hl := hperm.mem_iff.mp hr
      exact verifyRecord_iff.mpr ⟨hwell r hl, h r hl⟩
  obtain ⟨updated, hmerge⟩ := @mergeRecords_fresh policy.maxNodes snapshot.records ∅
    ((hperm.map _).nodup_iff.mpr hnodup) (fun _ _ => rfl)
    (by rw [hperm.length_eq, GoMap.size_empty]; simpa using hfew)
  rw [← hheader, ← hrecords]
  unfold Registry.mergeSnapshot
  constructor
  · intro h
    split at h
    · cases h
    rename_i hh
    split at h
    · cases h
    rename_i hr
    exact ⟨hh, hr⟩
  · rintro ⟨hh, hr⟩
    simp only [hh, hr, hmerge]

theorem truncate_le (t : Time) : (t.truncate millisecond).ns ≤ t.ns := by
  rw [Time.truncate_ns t (by decide)]
  exact sub_le_self _ (Int.emod_nonneg _ (by decide))

/-- What the published snapshot of a registry needs to be taken. -/
theorem mergeSnapshot_active {publisher : Registry} (hinv : RecordsInv c policy publisher.records)
    {order : List Bytes} (horder : publisher.IsOrder order) {t t' : Time}
    (hverified : ∀ id r, publisher.records.lookup id = some r → verifyRecord c policy r t = .ok ())
    (hlimits : policy.Limits) {snapshot : Snapshot}
    (hsign : signSnapshot signer (publisher.active t order) t = .ok snapshot)
    (hskew : t.ns ≤ t'.ns + maxClockSkew) :
    ((Registry.mk policy ∅).mergeSnapshot c snapshot signer.publicIdentity.nodeID t').1 = .ok () ↔
      t'.ns - maxClockSkew ≤ (t.truncate millisecond).ns ∧
        ∀ id r, publisher.records.lookup id = some r → Timely r t' := by
  have hwell : ∀ r ∈ publisher.active t order, WellFormed c policy r := by
    intro r hr
    obtain ⟨⟨id, hl⟩, -⟩ := (Registry.mem_active horder).mp hr
    exact (verifyRecord_iff.mp (hverified id r hl)).1
  have hfew : ((publisher.active t order).length : Int) ≤ policy.maxNodes := by
    have hlength := @active_length publisher order t horder
    have hbounded := hinv.bounded
    omega
  rw [mergeSnapshot_iff (signSnapshot_published hsign) (active_nodup hinv horder) hlimits hfew hwell]
  have hahead : (t.truncate millisecond).ns ≤ t'.ns + maxClockSkew := (truncate_le t).trans hskew
  -- all records are live at `t`, so the snapshot holds all of them
  have hall : (∀ r ∈ publisher.active t order, Timely r t') ↔
      ∀ id r, publisher.records.lookup id = some r → Timely r t' := by
    constructor
    · intro h id r hl
      exact h r ((Registry.mem_active horder).mpr
        ⟨⟨id, hl⟩, (verifyRecord_iff.mp (hverified id r hl)).2.live⟩)
    · intro h r hr
      obtain ⟨⟨id, hl⟩, -⟩ := (Registry.mem_active horder).mp hr
      exact h id r hl
  rw [hall]
  exact ⟨fun h => ⟨h.1.1, h.2⟩, fun h => ⟨⟨h.1, hahead⟩, h.2⟩⟩

/-- A publisher whose records all verify at `t` publishes its live records at `t`. Within the
    tolerated clock skew a receiver with the same policy and an empty registry takes the
    snapshot at `t'` exactly when the header's millisecond is within the tolerance and no
    record has ended, was issued or was observed out of range on the receiver's clock. -/
theorem honest_snapshot_iff {seeds : List PinnedNode} {quorum maxNodes : Int} {allowPrivate : Bool}
    (hpolicy : newPolicy c seeds quorum allowPrivate maxNodes = .ok policy)
    {first publisher receiver : Registry} (hnew : newRegistry c policy = .ok first) {ops : List Op}
    (hrun : Run (Step c) first ops publisher) (hreceiver : newRegistry c policy = .ok receiver)
    {t t' : Time} (hverified : ∀ id r, publisher.records.lookup id = some r →
      verifyRecord c policy r t = .ok ())
    {order : List Bytes} (horder : publisher.IsOrder order) {signer : HybridSigner c}
    {snapshot : Snapshot} (hsign : signSnapshot signer (publisher.active t order) t = .ok snapshot)
    (hskew : |t'.ns - t.ns| ≤ maxClockSkew) :
    (receiver.mergeSnapshot c snapshot signer.publicIdentity.nodeID t').1 = .ok () ↔
      t'.ns - maxClockSkew ≤ (t.truncate millisecond).ns ∧
      ∀ id r, publisher.records.lookup id = some r →
        r.announcement.issuedAt.ns ≤ t'.ns + maxClockSkew ∧ t'.ns < r.announcement.expiresAt.ns ∧
        ∀ a ∈ r.attestations, a.observedAt.ns ≤ t'.ns + maxClockSkew := by
  rw [newRegistry_ok hpolicy] at hreceiver
  obtain rfl := Except.ok.inj hreceiver
  have hle : t.ns ≤ t'.ns + maxClockSkew := by
    have h := (abs_le.mp hskew).1
    rw [neg_le_sub_iff_le_add] at h
    exact h
  rw [mergeSnapshot_active (reachable_inv hpolicy hnew hrun).2 horder hverified
    (newPolicy_within hpolicy) hsign hle]
  refine and_congr_right fun _ => forall_congr' fun id => forall_congr' fun r => ?_
  exact imp_congr_right fun _ => ⟨fun h => ⟨h.issued, h.live, h.observed⟩, fun h => ⟨h.1, h.2.1, h.2.2⟩⟩

end

/-! ### A seed's lease near its end -/

/-- A registry that holds one lease of the sample seed. -/
def leaseRegistry (sequence : UInt64) (expiresAt : Time) : Registry :=
  ⟨samplePolicy, (∅ : GoMap Bytes Record).insert (sampleIdentity 1).nodeID
    ⟨signedLease sequence expiresAt, []⟩⟩

section

variable {sequence : UInt64} {expiresAt : Time}

theorem leaseRegistry_lookup {id : Bytes} {r : Record}
    (h : (leaseRegistry sequence expiresAt).records.lookup id = some r) :
    r = ⟨signedLease sequence expiresAt, []⟩ := by
  rw [leaseRegistry, GoMap.lookup_insert_eq] at h
  split at h
  · exact (Option.some.inj h).symm
  · cases h

theorem leaseRegistry_order :
    (leaseRegistry sequence expiresAt).IsOrder [(sampleIdentity 1).nodeID] := by
  refine ⟨nodup_singleton _, fun id => ?_⟩
  rw [leaseRegistry, GoMap.keys_insert, mem_singleton, Finset.mem_insert]
  exact ⟨.inl, fun h => h.elim (fun h => h) fun h => by cases h⟩

theorem leaseRegistry_reached {t : Time}
    (hv : verifyRecord samplePrimitives samplePolicy ⟨signedLease sequence expiresAt, []⟩ t = .ok ()) :
    Run (Step samplePrimitives) ⟨samplePolicy, ∅⟩ [.merge ⟨signedLease sequence expiresAt, []⟩ t]
      (leaseRegistry sequence expiresAt) :=
  .single (merge_fresh hv (by decide)).symm

theorem leaseRegistry_inv {t : Time}
    (hv : verifyRecord samplePrimitives samplePolicy ⟨signedLease sequence expiresAt, []⟩ t = .ok ()) :
    RecordsInv samplePrimitives samplePolicy (leaseRegistry sequence expiresAt).records :=
  (reachable_inv samplePolicy_ok (newRegistry_ok samplePolicy_ok) (leaseRegistry_reached hv)).2

end

/-- A minute before its end. -/
def nearEnd : Time := (Time.epoch.add hour).add (-minute)

/-- A minute after its end. -/
def pastEnd : Time := (Time.epoch.add hour).add minute

theorem lease_nearEnd : verifyRecord samplePrimitives samplePolicy
    ⟨signedLease 1 (Time.epoch.add hour), []⟩ nearEnd = .ok () := by
  refine verifyRecord_iff.mpr ⟨signedLease_wellFormed (by decide) (by decide) (by decide) (by decide)
    (by decide) nodup_nil (by simp), ?_, ?_, by simp⟩
  · exact (by decide : Time.epoch.ns ≤ nearEnd.ns + maxClockSkew)
  · exact (by decide : nearEnd.ns < (Time.epoch.add hour).ns)

/-- Two minutes of skew are tolerated, but a lease that ends in between spoils the whole
    snapshot. -/
theorem honest_snapshot_refused : ¬∀ (c : Primitives) (policy : Policy) (seeds : List PinnedNode)
    (quorum maxNodes : Int) (allowPrivate : Bool) (first publisher receiver : Registry)
    (ops : List Op) (t t' : Time) (order : List Bytes) (signer : HybridSigner c)
    (snapshot : Snapshot), newPolicy c seeds quorum allowPrivate maxNodes = .ok policy →
    newRegistry c policy = .ok first → Run (Step c) first ops publisher →
    newRegistry c policy = .ok receiver →
    (∀ id r, publisher.records.lookup id = some r → verifyRecord c policy r t = .ok ()) →
    publisher.IsOrder order → signSnapshot signer (publisher.active t order) t = .ok snapshot →
    |t'.ns - t.ns| ≤ maxClockSkew →
    (receiver.mergeSnapshot c snapshot signer.publicIdentity.nodeID t').1 = .ok () := by
  intro hclaim
  have hinv := leaseRegistry_inv lease_nearEnd
  have hverified : ∀ id r, (leaseRegistry 1 (Time.epoch.add hour)).records.lookup id = some r →
      verifyRecord samplePrimitives samplePolicy r nearEnd = .ok () :=
    fun id r hl => leaseRegistry_lookup hl ▸ lease_nearEnd
  obtain ⟨snapshot, hsign⟩ := @signSnapshot_active _ _ _ _ nearEnd (sampleSigner 1)
    samplePolicy_limits hinv leaseRegistry_order (by decide)
  have htaken := hclaim _ _ _ _ _ _ _ _ _ _ nearEnd pastEnd _ _ _ samplePolicy_ok
    (newRegistry_ok samplePolicy_ok) (leaseRegistry_reached lease_nearEnd)
    (newRegistry_ok samplePolicy_ok) hverified leaseRegistry_order hsign (by decide)
  have htimely := ((mergeSnapshot_active hinv leaseRegistry_order hverified samplePolicy_limits hsign
    (by decide)).mp htaken).2 _ _ (Finmap.lookup_insert _)
  exact absurd htimely.live (by decide : ¬pastEnd.ns < (Time.epoch.add hour).ns)

/-- While the lease lasts on both clocks the snapshot is taken. -/
theorem honest_snapshot_taken : ∃ snapshot,
    signSnapshot (sampleSigner 1) ((leaseRegistry 1 (Time.epoch.add hour)).active nearEnd
      [(sampleIdentity 1).nodeID]) nearEnd = .ok snapshot ∧
    ((Registry.mk samplePolicy ∅).mergeSnapshot samplePrimitives snapshot
      (sampleSigner 1).publicIdentity.nodeID (nearEnd.add (-minute))).1 = .ok () := by
  obtain ⟨snapshot, hsign⟩ := @signSnapshot_active _ _ _ _ nearEnd (sampleSigner 1)
    samplePolicy_limits (leaseRegistry_inv lease_nearEnd) leaseRegistry_order (by decide)
  refine ⟨snapshot, hsign, (honest_snapshot_iff samplePolicy_ok (newRegistry_ok samplePolicy_ok)
    (leaseRegistry_reached lease_nearEnd) (newRegistry_ok samplePolicy_ok)
    (fun id r hl => leaseRegistry_lookup hl ▸ lease_nearEnd) leaseRegistry_order hsign
    (by decide)).mpr ⟨by decide, fun id r hl => ?_⟩⟩
  rw [leaseRegistry_lookup hl]
  refine ⟨?_, ?_, by simp⟩
  · exact (by decide : Time.epoch.ns ≤ (nearEnd.add (-minute)).ns + maxClockSkew)
  · exact (by decide : (nearEnd.add (-minute)).ns < (Time.epoch.add hour).ns)

end Veilmesh.Nodedir

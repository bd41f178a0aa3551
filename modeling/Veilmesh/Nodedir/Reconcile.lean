/-
  Snapshots as views of leases.

  What merging depends on is the lease each node has: its sequence and its announcement
  hash. Seen so, `MergeSnapshot` of verified records is the all-or-nothing merge of
  `Lib.Views`, ranked by the sequence and with `MaxNodes` as the capacity.

  * `mergeRecords_absorb`: merging the records of a snapshot merges its view, or neither.
-/
import Veilmesh.Lib.Views
import Veilmesh.Nodedir.Snapshot

namespace Veilmesh.Nodedir

open Lib Protocol Pqcrypto List
open Record (node)

/-- The sequence and the announcement hash of a record. -/
def Record.lease (r : Record) : UInt64 × Bytes :=
  (r.announcement.sequence, announcementHash r.announcement)

/-- Leases are ranked by their sequence. -/
def leaseRank (l : UInt64 × Bytes) : Nat := l.1.toNat

/-- The leases of a registry. -/
def leases (records : GoMap Bytes Record) : View Bytes (UInt64 × Bytes) :=
  fun id => (records.lookup id).map Record.lease

/-- The leases in a list of records. -/
def listedLeases (l : List Record) : View Bytes (UInt64 × Bytes) :=
  fun id => (l.find? fun r => r.node == id).map Record.lease

/-- The capacity of a registry. -/
def capacity (maxNodes : Int) : ℕ∞ := (maxNodes.toNat : ℕ∞)

theorem keys_leases (records : GoMap Bytes Record) : (leases records).keys = ↑records.keys := by
  ext id
  rw [View.keys, Set.mem_ofPred_eq, leases, ne_eq, Option.map_eq_none_iff, Finset.mem_coe,
    GoMap.mem_keys_iff, ← ne_eq, Option.ne_none_iff_exists']

theorem encard_leases_le {records : GoMap Bytes Record} {maxNodes : Int} (hmax : 0 ≤ maxNodes) :
    (leases records).keys.encard ≤ capacity maxNodes ↔ (records.size : Int) ≤ maxNodes := by
  rw [keys_leases, Set.encard_coe_eq_coe_finsetCard, capacity, Nat.cast_le, GoMap.size]
  omega

theorem mem_keys_listedLeases {l : List Record} {id : Bytes} :
    id ∈ (listedLeases l).keys ↔ ∃ r ∈ l, r.node = id := by
  rw [View.keys, Set.mem_ofPred_eq, listedLeases, ne_eq, Option.map_eq_none_iff, find?_eq_none]
  simp

/-- With different nodes each record has its own lease. -/
theorem listedLeases_eq {l : List Record} (hnodup : (l.map node).Nodup) {id : Bytes}
    {x : UInt64 × Bytes} : listedLeases l id = some x ↔ ∃ r ∈ l, r.node = id ∧ r.lease = x := by
  rw [listedLeases, Option.map_eq_some_iff]
  constructor
  · rintro ⟨r, hr, rfl⟩
    exact ⟨r, mem_of_find?_eq_some hr, by simpa using find?_some hr, rfl⟩
  · rintro ⟨r, hr, rfl, rfl⟩
    cases hfind : l.find? fun s => s.node == r.node with
    | none =>
      rw [find?_eq_none] at hfind
      exact absurd (beq_self_eq_true _) (hfind r hr)
    | some s =>
      have hs := mem_of_find?_eq_some hfind
      have hnode : s.node = r.node := by simpa using find?_some hfind
      exact ⟨s, rfl, by rw [inj_on_of_nodup_map hnodup hs hr hnode]⟩

section Merge

variable {maxNodes : Int} {records next : GoMap Bytes Record} {r : Record}

theorem below_iff {e r : Record} : View.Below leaseRank e.lease r.lease ↔
    e.announcement.sequence < r.announcement.sequence ∨
      (r.announcement.sequence = e.announcement.sequence ∧
        announcementHash r.announcement = announcementHash e.announcement) := by
  unfold View.Below
  refine or_congr UInt64.lt_iff_toNat_lt.symm ?_
  rw [Record.lease, Record.lease, Prod.mk.injEq]
  exact ⟨fun h => ⟨h.1.symm, h.2.symm⟩, fun h => ⟨h.1.symm, h.2.symm⟩⟩

/-- When one record is stored, and what the leases are then. -/
theorem mergeVerifiedRecord_lease :
    match mergeVerifiedRecord records maxNodes r with
    | .ok next => (∀ e, records.lookup r.node = some e → View.Below leaseRank e.lease r.lease) ∧
        (records.lookup r.node = none → (records.size : Int) < maxNodes) ∧
        ∃ stored : Record, stored.lease = r.lease ∧ next = records.insert r.node stored
    | .error _ => (∃ e, records.lookup r.node = some e ∧ ¬View.Below leaseRank e.lease r.lease) ∨
        (records.lookup r.node = none ∧ maxNodes ≤ records.size) := by
  cases hl : records.lookup r.node with
  | none =>
    have hm : mergeVerifiedRecord records maxNodes r = if (records.size : Int) ≥ maxNodes then
        .error .full else .ok (records.insert r.node r) := by
      simp only [mergeVerifiedRecord, node] at hl ⊢
      rw [hl]
    rw [hm]
    by_cases hfull : (records.size : Int) ≥ maxNodes
    · rw [if_pos hfull]
      exact .inr ⟨rfl, hfull⟩
    · rw [if_neg hfull]
      exact ⟨fun e he => (by cases he), fun _ => not_le.mp hfull, r, rfl, rfl⟩
  | some e =>
    have hm : mergeVerifiedRecord records maxNodes r =
        if r.announcement.sequence < e.announcement.sequence then .error .rollback
        else if r.announcement.sequence = e.announcement.sequence then
          if announcementHash r.announcement ≠ announcementHash e.announcement then .error .conflict
          else .ok (records.insert r.node (mixRecords r e))
        else .ok (records.insert r.node r) := by
      simp only [mergeVerifiedRecord, node] at hl ⊢
      rw [hl]
    rw [hm]
    by_cases hlower : r.announcement.sequence < e.announcement.sequence
    · rw [if_pos hlower]
      refine .inl ⟨e, rfl, fun h => ?_⟩
      rcases below_iff.mp h with h | h
      · exact UInt64.lt_irrefl _ (UInt64.lt_trans h hlower)
      · exact UInt64.lt_irrefl _ (h.1 ▸ hlower)
    rw [if_neg hlower]
    by_cases hsame : r.announcement.sequence = e.announcement.sequence
    · rw [if_pos hsame]
      by_cases hhash : announcementHash r.announcement ≠ announcementHash e.announcement
      · rw [if_pos hhash]
        refine .inl ⟨e, rfl, fun h => ?_⟩
        rcases below_iff.mp h with h | h
        · exact UInt64.lt_irrefl _ (hsame ▸ h)
        · exact hhash h.2
      · rw [if_neg hhash]
        refine ⟨fun e' he => ?_, fun h => (by cases h), mixRecords r e, ?_, rfl⟩
        · obtain rfl := Option.some.inj he
          exact below_iff.mpr (.inr ⟨hsame, not_not.mp hhash⟩)
        · rw [Record.lease, mixRecords_announcement, Record.lease]
    · rw [if_neg hsame]
      refine ⟨fun e' he => ?_, fun h => (by cases h), r, rfl, rfl⟩
      obtain rfl := Option.some.inj he
      exact below_iff.mpr (.inl (UInt64.lt_of_le_of_ne (UInt64.not_lt.mp hlower) fun h => hsame h.symm))

theorem leases_insert (records : GoMap Bytes Record) (r stored : Record) (id : Bytes) :
    leases (records.insert r.node stored) id =
      if id = r.node then some stored.lease else leases records id := by
  rw [leases, GoMap.lookup_insert_eq]
  split <;> rfl

/-- Merging the records of a snapshot merges its view, or neither does. -/
theorem mergeRecords_absorb {l : List Record} (hmax : 0 ≤ maxNodes)
    (hsize : (records.size : Int) ≤ maxNodes) (hnodup : (l.map node).Nodup) :
    match mergeRecords maxNodes records l with
    | .ok updated => View.Fits leaseRank (capacity maxNodes) (leases records) (listedLeases l) ∧
        leases updated = (listedLeases l).overlay (leases records)
    | .error _ => ¬View.Fits leaseRank (capacity maxNodes) (leases records) (listedLeases l) := by
  induction l generalizing records with
  | nil =>
    have hnil : listedLeases [] = View.empty := rfl
    refine ⟨⟨fun id m x _ hx => (by cases hx), ?_⟩, rfl⟩
    rw [hnil, View.keys_empty, Set.union_empty]
    exact (encard_leases_le hmax).mpr hsize
  | cons r l ih =>
    have hnodup' := hnodup
    rw [map_cons, nodup_cons] at hnodup
    have hfresh : ∀ s ∈ l, s.node ≠ r.node := fun s hs he => hnodup.1 (he ▸ mem_map_of_mem hs)
    have hmem : r.node ∈ (listedLeases (r :: l)).keys :=
      mem_keys_listedLeases.mpr ⟨r, mem_cons_self, rfl⟩
    have hlisted : listedLeases (r :: l) r.node = some r.lease :=
      (listedLeases_eq hnodup').mpr ⟨r, mem_cons_self, rfl, rfl⟩
    have hstep := @mergeVerifiedRecord_lease maxNodes records r
    rw [mergeRecords]
    cases hmerge : mergeVerifiedRecord records maxNodes r with
    | error e =>
      rw [hmerge] at hstep
      dsimp only at hstep ⊢
      rintro ⟨hbelow, hroom⟩
      rcases hstep with ⟨e, he, hnot⟩ | ⟨hnone, hfull⟩
      · exact hnot (hbelow r.node _ _ (by rw [leases, he]; rfl) hlisted)
      · have hsub : (↑(insert r.node records.keys) : Set Bytes) ⊆
            (leases records).keys ∪ (listedLeases (r :: l)).keys := by
          rw [Finset.coe_insert, keys_leases]
          exact Set.insert_subset (.inr hmem) Set.subset_union_left
        have hcard := (Set.encard_le_encard hsub).trans hroom
        rw [Set.encard_coe_eq_coe_finsetCard, capacity, Nat.cast_le,
          Finset.card_insert_of_notMem (GoMap.notMem_keys_of_lookup hnone)] at hcard
        have hsize' : (records.keys.card : Int) = records.size := rfl
        omega
    | ok next =>
      rw [hmerge] at hstep
      dsimp only at hstep ⊢
      obtain ⟨hbelow, hnew, stored, hlease, rfl⟩ := hstep
      have hsize' : (GoMap.size (records.insert r.node stored) : Int) ≤ maxNodes := by
        cases hl : records.lookup r.node with
        | none =>
          have := hnew hl
          rw [GoMap.size_insert_new _ hl]
          push_cast
          omega
        | some e =>
          rw [GoMap.size_insert_of_mem _ (GoMap.mem_keys_of_lookup hl)]
          exact hsize
      have hrest := ih hsize' hnodup.2
      have hover : (listedLeases l).overlay (leases (records.insert r.node stored)) =
          (listedLeases (r :: l)).overlay (leases records) := by
        funext id
        by_cases hid : id = r.node
        · subst hid
          have hnone : listedLeases l r.node = none := by
            by_contra hsome
            obtain ⟨s, hs, hsr⟩ := mem_keys_listedLeases.mp hsome
            exact hfresh s hs hsr
          rw [View.overlay, View.overlay, hnone, hlisted, leases_insert, if_pos rfl, hlease]
          rfl
        · have hskip : listedLeases (r :: l) id = listedLeases l id := by
            rw [listedLeases, find?_cons_of_neg (by simpa using fun h => hid h.symm), listedLeases]
          rw [View.overlay, View.overlay, hskip, leases_insert, if_neg hid]
      have hfits : View.Fits leaseRank (capacity maxNodes) (leases (records.insert r.node stored))
          (listedLeases l) ↔
          View.Fits leaseRank (capacity maxNodes) (leases records) (listedLeases (r :: l)) := by
        unfold View.Fits
        rw [← View.keys_overlay, ← View.keys_overlay, hover]
        refine and_congr_left fun _ => ⟨fun h id m x hm hx => ?_, fun h id m x hm hx => ?_⟩
        · obtain ⟨s, hs, rfl, rfl⟩ := (listedLeases_eq hnodup').mp hx
          rcases mem_cons.mp hs with rfl | hs
          · obtain ⟨e, he, rfl⟩ := Option.map_eq_some_iff.mp hm
            exact hbelow e he
          · refine h s.node m s.lease ?_ ((listedLeases_eq hnodup.2).mpr ⟨s, hs, rfl, rfl⟩)
            rw [leases_insert, if_neg (hfresh s hs)]
            exact hm
        · obtain ⟨s, hs, rfl, rfl⟩ := (listedLeases_eq hnodup.2).mp hx
          rw [leases_insert, if_neg (hfresh s hs)] at hm
          exact h s.node m s.lease hm
            ((listedLeases_eq hnodup').mpr ⟨s, mem_cons_of_mem _ hs, rfl, rfl⟩)
      rw [hfits, hover] at hrest
      exact hrest

/-- A sorted list has different nodes. -/
theorem nodup_of_uniquelySorted {l : List Record} (h : uniquelySorted l = true) :
    (l.map node).Nodup := by
  have hchain : l.IsChain fun a b => ¬bytesLE b.node a.node := by
    induction l with
    | nil => exact .nil
    | cons a l ih =>
      cases l with
      | nil => exact .singleton a
      | cons b l =>
        rw [uniquelySorted, Bool.and_eq_true, Bool.not_eq_true', decide_eq_false_iff_not] at h
        exact .cons_cons h.1 (ih h.2)
  have htrans : ∀ a b d : Bytes, ¬bytesLE b a → ¬bytesLE d b → ¬bytesLE d a := by
    intro a b d hba hdb hda
    exact hdb (IsTrans.trans d a b hda ((Std.Total.total (r := bytesLE) a b).resolve_right hba))
  have hmap : (l.map node).IsChain fun a b => ¬bytesLE b a :=
    isChain_map_of_isChain node (fun _ _ h => h) hchain
  have : IsTrans Bytes fun a b => ¬bytesLE b a := ⟨htrans⟩
  refine (isChain_iff_pairwise.mp hmap).imp fun {a b} hab heq => ?_
  subst heq
  exact hab ((Std.Total.total (r := bytesLE) a a).elim (fun h => h) fun h => h)

theorem verifySnapshotHeader_ok {c : Primitives} {snapshot : Snapshot} {publisher : Bytes} {now : Time}
    (hmax : 0 < maxNodes) (hlimit : maxNodes ≤ maxDirectoryNodes)
    (h : verifySnapshotHeader c snapshot publisher now maxNodes = .ok ()) :
    (snapshot.records.length : Int) ≤ maxNodes ∧ uniquelySorted snapshot.records = true := by
  have hmaxNodes : ¬(maxNodes ≤ 0 ∨ maxNodes > maxDirectoryNodes) := by
    rw [not_or, not_le, not_lt]
    exact ⟨hmax, hlimit⟩
  simp only [verifySnapshotHeader, if_neg hmaxNodes] at h
  split at h
  · cases h
  rename_i hchecks
  split at h
  · cases h
  rename_i hsorted
  simp only [not_or, not_lt] at hchecks
  exact ⟨hchecks.2.1, Bool.not_eq_false _ ▸ hsorted⟩

end Merge

/-! ## Hashes and sequences -/

/-- What the announcement hash is the hash of. -/
def announcementPreimage (a : Announcement) : Bytes :=
  announcementSigningBytes a ++ signatureBytes a.signature

theorem canonical_scheme {endpoint : Endpoint} {allowPrivate : Bool}
    (h : canonicalEndpoint endpoint allowPrivate = true) : endpoint.scheme.length < 2 ^ 32 := by
  unfold canonicalEndpoint at h
  split at h
  · cases h
  · rename_i canonical hc
    unfold validateEndpoint at hc
    split at hc
    · cases hc
    rename_i hscheme
    have hshort : endpoint.scheme = lit "https" ∨ endpoint.scheme = lit "http" := by
      by_contra hnot
      rw [not_or] at hnot
      exact hscheme (.inl hnot)
    rcases hshort with h | h <;> rw [h] <;> decide

/-- Verified leases with one preimage have one sequence. -/
theorem sequence_of_preimage {c : Primitives} {allowPrivate : Bool} {a b : Announcement}
    (ha : LeaseOk c allowPrivate a) (hb : LeaseOk c allowPrivate b)
    (h : announcementPreimage a = announcementPreimage b) : a.sequence = b.sequence := by
  obtain ⟨-, hed, hml, hid, -⟩ := validPublicIdentity_iff.mp ha.identity
  obtain ⟨-, hed', hml', hid', -⟩ := validPublicIdentity_iff.mp hb.identity
  have hida : a.identity.nodeID.length = 64 := hid ▸ length_nodeID _
  have hidb : b.identity.nodeID.length = 64 := hid' ▸ length_nodeID _
  obtain ⟨hs1, hs2⟩ := verify_sizes ha.signature
  obtain ⟨hs1', hs2'⟩ := verify_sizes hb.signature
  rw [ed25519PublicKeySize] at hed hed'
  rw [mldsa65PublicKeySize] at hml hml'
  simp only [announcementPreimage, announcementSigningBytes, writeIdentity, cons_append,
    append_assoc, cons.injEq] at h
  replace h := h.2
  obtain ⟨-, h⟩ := writeBytes_append_inj (by omega) (by omega) h
  obtain ⟨-, h⟩ := writeBytes_append_inj (by omega) (by omega) h
  obtain ⟨-, h⟩ := writeBytes_append_inj (by omega) (by omega) h
  simp only [nil_append, cons.injEq] at h
  obtain ⟨-, h⟩ := writeBytes_append_inj (canonical_scheme ha.endpoint) (canonical_scheme hb.endpoint) h.2
  -- all that follows the address has one length, so the addresses have one length as well
  have hlength := congrArg length h
  simp only [writeBytes, signatureBytes, writeTime, length_append, length_toBE, length_int64BE,
    hs1, hs2, hs1', hs2'] at hlength
  obtain ⟨-, h⟩ := append_inj h (by simp only [writeBytes, length_append, length_toBE]; omega)
  obtain ⟨-, h⟩ := append_inj h (by simp)
  obtain ⟨h, -⟩ := append_inj h (by simp)
  exact UInt64.toNat_inj.mp (toBE_inj a.sequence.toNat_lt b.sequence.toNat_lt h)

end Veilmesh.Nodedir

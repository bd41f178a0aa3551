/-
  Merging records is a join.

  What a registry holds after merging a list of verified records depends only on which
  records were merged: for each node the lease with the highest sequence, attested by all
  the authorities that attested any copy of that lease. `Joined` says this with no order.

  * `Joined.merge`: one more merge joins one more record.
  * `Joined.view_eq`: two registries that joined the same records agree.
  * `merges_join`: merging in any two orders gives the same view, that of the join, and
    merging again changes nothing.
-/
import Veilmesh.Nodedir.Lease

namespace Veilmesh.Nodedir

open Lib Pqcrypto List

/-! ## Authorities of a record -/

def Record.node (r : Record) : Bytes := r.announcement.identity.nodeID

def Record.authorities (r : Record) : Finset Bytes :=
  (r.attestations.map Attestation.authorityID).toFinset

theorem appendAttestation_authorities (record : Record) (a : Attestation) :
    (appendAttestation record a).authorities = insert a.authorityID record.authorities := by
  ext id
  have hperm := ((appendAttestation_perm record a).map Attestation.authorityID).mem_iff (a := id)
  rw [Record.authorities, mem_toFinset, hperm, map_putAttestation, Finset.mem_insert,
    Record.authorities, mem_toFinset]
  split
  · rename_i hmem
    exact ⟨.inr, fun h => h.elim (fun he => he ▸ hmem) fun h => h⟩
  · rw [mem_append, mem_singleton, or_comm]

theorem mixRecords_authorities (record existing : Record) :
    (mixRecords record existing).authorities = record.authorities ∪ existing.authorities := by
  unfold mixRecords
  have hexisting : existing.authorities =
    (existing.attestations.map Attestation.authorityID).toFinset := rfl
  rw [hexisting]
  generalize existing.attestations = l
  induction l generalizing record with
  | nil => simp
  | cons a l ih =>
    rw [foldl_cons, ih, appendAttestation_authorities, map_cons, toFinset_cons,
      Finset.insert_union, Finset.union_insert]

/-! ## The join of a list of records -/

/-- A highest lease of a node among the records. -/
structure Top (rs : List Record) (id : Bytes) (top : Record) : Prop where
  mem : top ∈ rs
  node : top.node = id
  highest : ∀ r ∈ rs, r.node = id → r.announcement.sequence ≤ top.announcement.sequence

/-- Records of one lease have one announcement hash. -/
def Consistent (rs : List Record) : Prop :=
  ∀ r ∈ rs, ∀ s ∈ rs, r.node = s.node → r.announcement.sequence = s.announcement.sequence →
    announcementHash r.announcement = announcementHash s.announcement

/-- What is stored for a node agrees with the join of these records. -/
def Agrees (rs : List Record) (id : Bytes) (stored : Record) : Prop :=
  ∃ top, Top rs id top ∧ stored.announcement = top.announcement ∧
    ∀ authority, authority ∈ stored.authorities ↔ ∃ r ∈ rs, r.node = id ∧
      r.announcement.sequence = top.announcement.sequence ∧ authority ∈ r.authorities

/-- The registry holds the join of these records. -/
structure Joined (rs : List Record) (records : GoMap Bytes Record) : Prop where
  absent : ∀ id, records.lookup id = none ↔ ∀ r ∈ rs, r.node ≠ id
  present : ∀ id stored, records.lookup id = some stored → Agrees rs id stored

theorem joined_empty : Joined [] ∅ where
  absent id := by simp
  present id stored h := by cases h

section

variable {rs : List Record} {r : Record} {id : Bytes} {stored : Record}

/-- A record of another node does not matter. -/
theorem Agrees.snoc_other (h : Agrees rs id stored) (hne : r.node ≠ id) :
    Agrees (rs ++ [r]) id stored := by
  have hmem : ∀ s, s ∈ rs ++ [r] ∧ s.node = id ↔ s ∈ rs ∧ s.node = id := by
    intro s
    rw [mem_append, mem_singleton]
    refine ⟨?_, fun hs => ⟨.inl hs.1, hs.2⟩⟩
    rintro ⟨hs | rfl, hnode⟩
    · exact ⟨hs, hnode⟩
    · exact absurd hnode hne
  obtain ⟨top, htop, hann, hauth⟩ := h
  refine ⟨top, ⟨mem_append_left _ htop.mem, htop.node, fun s hs hnode => ?_⟩, hann,
    fun authority => ?_⟩
  · exact htop.highest s ((hmem s).mp ⟨hs, hnode⟩).1 hnode
  · rw [hauth]
    constructor
    · rintro ⟨s, hs, hnode, hrest⟩
      exact ⟨s, ((hmem s).mpr ⟨hs, hnode⟩).1, hnode, hrest⟩
    · rintro ⟨s, hs, hnode, hrest⟩
      exact ⟨s, ((hmem s).mp ⟨hs, hnode⟩).1, hnode, hrest⟩

/-- A lower sequence does not matter. -/
theorem Agrees.snoc_lower (h : Agrees rs id stored)
    (hlt : r.announcement.sequence < stored.announcement.sequence) :
    Agrees (rs ++ [r]) id stored := by
  obtain ⟨top, htop, hann, hauth⟩ := h
  rw [hann] at hlt
  refine ⟨top, ⟨mem_append_left _ htop.mem, htop.node, fun s hs hnode => ?_⟩, hann,
    fun authority => ?_⟩
  · rcases mem_append.mp hs with hs | hs
    · exact htop.highest s hs hnode
    · rw [mem_singleton.mp hs]
      exact UInt64.le_of_lt hlt
  · rw [hauth]
    constructor
    · rintro ⟨s, hs, hrest⟩
      exact ⟨s, mem_append_left _ hs, hrest⟩
    · rintro ⟨s, hs, hnode, hseq, hmem⟩
      rcases mem_append.mp hs with hs | hs
      · exact ⟨s, hs, hnode, hseq, hmem⟩
      · rw [mem_singleton.mp hs] at hseq
        exact absurd hlt (hseq ▸ UInt64.lt_irrefl _)

/-- A copy of the highest lease adds its authorities. -/
theorem Agrees.snoc_equal (h : Agrees rs id stored) (hid : r.node = id)
    (heq : r.announcement.sequence = stored.announcement.sequence) :
    Agrees (rs ++ [r]) id (mixRecords r stored) := by
  obtain ⟨top, htop, hann, hauth⟩ := h
  rw [hann] at heq
  refine ⟨r, ⟨mem_append_right _ (mem_singleton_self r), hid, fun s hs hnode => ?_⟩,
    mixRecords_announcement _ _, fun authority => ?_⟩
  · rcases mem_append.mp hs with hs | hs
    · exact heq ▸ htop.highest s hs hnode
    · rw [mem_singleton.mp hs]
      exact UInt64.le_refl _
  · rw [mixRecords_authorities, Finset.mem_union, hauth, ← heq]
    constructor
    · rintro (hr | ⟨s, hs, hrest⟩)
      · exact ⟨r, mem_append_right _ (mem_singleton_self r), hid, rfl, hr⟩
      · exact ⟨s, mem_append_left _ hs, hrest⟩
    · rintro ⟨s, hs, hnode, hseq, hmem⟩
      rcases mem_append.mp hs with hs | hs
      · exact .inr ⟨s, hs, hnode, hseq, hmem⟩
      · rw [mem_singleton.mp hs] at hmem
        exact .inl hmem

/-- A record above all others of its node stands alone. -/
theorem agrees_highest (hid : r.node = id)
    (hlt : ∀ s ∈ rs, s.node = id → s.announcement.sequence < r.announcement.sequence) :
    Agrees (rs ++ [r]) id r := by
  refine ⟨r, ⟨mem_append_right _ (mem_singleton_self r), hid, fun s hs hnode => ?_⟩, rfl,
    fun authority => ?_⟩
  · rcases mem_append.mp hs with hs | hs
    · exact UInt64.le_of_lt (hlt s hs hnode)
    · rw [mem_singleton.mp hs]
      exact UInt64.le_refl _
  · constructor
    · exact fun h => ⟨r, mem_append_right _ (mem_singleton_self r), hid, rfl, h⟩
    · rintro ⟨s, hs, hnode, hseq, hmem⟩
      rcases mem_append.mp hs with hs | hs
      · exact absurd (hlt s hs hnode) (hseq ▸ UInt64.lt_irrefl _)
      · rwa [mem_singleton.mp hs] at hmem

variable {records : GoMap Bytes Record} (h : Joined rs records)

include h

theorem Joined.keys : records.keys = (rs.map Record.node).toFinset := by
  ext id
  rw [mem_toFinset, mem_map, GoMap.mem_keys_iff]
  constructor
  · rintro ⟨stored, hl⟩
    obtain ⟨top, htop, -⟩ := h.present id stored hl
    exact ⟨top, htop.mem, htop.node⟩
  · rintro ⟨s, hs, hnode⟩
    cases hl : records.lookup id with
    | some stored => exact ⟨stored, rfl⟩
    | none => exact absurd hnode ((h.absent id).mp hl s hs)

/-- Storing what agrees with one more record joins that record. -/
theorem Joined.insert (hs : Agrees (rs ++ [r]) r.node stored) :
    Joined (rs ++ [r]) (records.insert r.node stored) where
  absent id := by
    rw [GoMap.lookup_insert_eq]
    split
    · rename_i hid
      simp [hid]
    · rename_i hid
      rw [h.absent id]
      simp only [mem_append, mem_singleton]
      refine ⟨fun ha s hs => ?_, fun ha s hs => ha s (.inl hs)⟩
      rcases hs with hs | rfl
      · exact ha s hs
      · exact fun hnode => hid hnode.symm
  present id stored' hl := by
    rw [GoMap.lookup_insert_eq] at hl
    split at hl
    · rename_i hid
      rw [hid, ← Option.some.inj hl]
      exact hs
    · rename_i hid
      exact Agrees.snoc_other (h.present id stored' hl) fun hnode => hid hnode.symm

/-- A merge that is refused for its lower sequence joins the record, too. -/
theorem Joined.refused (hl : records.lookup r.node = some stored)
    (hlt : r.announcement.sequence < stored.announcement.sequence) :
    Joined (rs ++ [r]) records where
  absent id := by
    rw [h.absent id]
    simp only [mem_append, mem_singleton]
    refine ⟨fun ha s hs => ?_, fun ha s hs => ha s (.inl hs)⟩
    rcases hs with hs | rfl
    · exact ha s hs
    · rintro rfl
      rw [(h.absent _).mpr ha] at hl
      cases hl
  present id stored' hl' := by
    by_cases hid : r.node = id
    · subst hid
      obtain rfl := Option.some.inj (hl'.symm.trans hl)
      exact Agrees.snoc_lower (h.present _ _ hl') hlt
    · exact Agrees.snoc_other (h.present id stored' hl') hid

/-- One more merge joins one more record. -/
theorem Joined.merge (hcons : Consistent (rs ++ [r])) {maxNodes : Int}
    (hroom : (((rs ++ [r]).map Record.node).toFinset.card : Int) ≤ maxNodes) :
    ∃ updated, Joined (rs ++ [r]) updated ∧ (mergeVerifiedRecord records maxNodes r = .ok updated ∨
        updated = records ∧ mergeVerifiedRecord records maxNodes r = .error .rollback) := by
  have hnode : r.announcement.identity.nodeID = r.node := rfl
  unfold mergeVerifiedRecord
  simp only [hnode]
  split
  · rename_i hnone
    have habsent := (h.absent r.node).mp hnone
    have hsize : (records.size : Int) < maxNodes := by
      have hnew : r.node ∉ (rs.map Record.node).toFinset := by
        rw [mem_toFinset, mem_map]
        rintro ⟨s, hs, hsr⟩
        exact habsent s hs hsr
      have hcard : ((rs ++ [r]).map Record.node).toFinset =
          Insert.insert r.node (rs.map Record.node).toFinset := by
        ext id
        simp
      rw [hcard, Finset.card_insert_of_notMem hnew, ← h.keys] at hroom
      change (records.keys.card : Int) < maxNodes
      push_cast at hroom
      omega
    rw [if_neg (not_le.mpr hsize)]
    exact ⟨_, h.insert (agrees_highest rfl fun s hs hsr => absurd hsr (habsent s hs)), .inl rfl⟩
  · rename_i stored hl
    have hstored := h.present _ _ hl
    split
    · rename_i hlt
      exact ⟨records, h.refused hl hlt, .inr ⟨rfl, rfl⟩⟩
    rename_i hge
    split
    · rename_i heq
      have hhash : announcementHash r.announcement = announcementHash stored.announcement := by
        obtain ⟨top, htop, hann, -⟩ := hstored
        rw [hann]
        exact hcons r (by simp) top (by simp [htop.mem]) htop.node.symm (by rw [heq, hann])
      rw [if_neg (not_not.mpr hhash)]
      exact ⟨_, h.insert (Agrees.snoc_equal hstored rfl heq), .inl rfl⟩
    · rename_i hne
      refine ⟨_, h.insert (agrees_highest rfl fun s hs hsr => ?_), .inl rfl⟩
      obtain ⟨top, htop, hann, -⟩ := hstored
      have hlt : stored.announcement.sequence < r.announcement.sequence :=
        UInt64.lt_of_le_of_ne (UInt64.not_lt.mp hge) fun he => hne he.symm
      exact UInt64.lt_of_le_of_lt (htop.highest s hs hsr) (hann ▸ hlt)

end

/-! ## Merging a list -/

/-- What the join is about: the announcement hash and the authorities of each node. -/
def Registry.view (registry : Registry) (id : Bytes) : Option (Bytes × Finset Bytes) :=
  (registry.records.lookup id).map fun r => (announcementHash r.announcement, r.authorities)

/-- `Merge` once per record, going on after errors. -/
def Registry.mergeAll (c : Primitives) (registry : Registry) (rs : List Record) (now : Time) :
    Registry :=
  rs.foldl (fun registry r => (registry.merge c r now).2) registry

/-- Registries that joined the same records have one view. -/
theorem Joined.view_eq {rs rs' : List Record} {a b : Registry} (ha : Joined rs a.records)
    (hb : Joined rs' b.records) (hmem : ∀ r, r ∈ rs ↔ r ∈ rs') (hcons : Consistent rs) (id : Bytes) :
    a.view id = b.view id := by
  have hnone : a.records.lookup id = none ↔ b.records.lookup id = none := by
    rw [ha.absent, hb.absent]
    exact forall_congr' fun r => by rw [hmem]
  cases hla : a.records.lookup id with
  | none => rw [Registry.view, Registry.view, hla, hnone.mp hla]
  | some stored =>
    cases hlb : b.records.lookup id with
    | none =>
      rw [hnone.mpr hlb] at hla
      cases hla
    | some stored' =>
      obtain ⟨top, htop, hann, hauth⟩ := ha.present _ _ hla
      obtain ⟨top', htop', hann', hauth'⟩ := hb.present _ _ hlb
      have hseq : top.announcement.sequence = top'.announcement.sequence := UInt64.le_antisymm
        (htop'.highest top ((hmem top).mp htop.mem) htop.node)
        (htop.highest top' ((hmem top').mpr htop'.mem) htop'.node)
      have hhash : announcementHash stored.announcement = announcementHash stored'.announcement := by
        rw [hann, hann']
        exact hcons top htop.mem top' ((hmem top').mpr htop'.mem) (htop.node.trans htop'.node.symm)
          hseq
      have hauthorities : stored.authorities = stored'.authorities := by
        ext authority
        rw [hauth, hauth', hseq]
        exact exists_congr fun r => by rw [hmem]
      rw [Registry.view, Registry.view, hla, hlb, Option.map_some, Option.map_some, hhash,
        hauthorities]

section

variable {c : Primitives} {policy : Policy} {now : Time}

theorem mergeAll_snoc (registry : Registry) (rs : List Record) (r : Record) :
    registry.mergeAll c (rs ++ [r]) now = ((registry.mergeAll c rs now).merge c r now).2 := by
  rw [Registry.mergeAll, foldl_append]
  rfl

theorem card_node_le {rs rs' : List Record} (h : rs ⊆ rs') :
    (rs.map Record.node).toFinset.card ≤ (rs'.map Record.node).toFinset.card :=
  Finset.card_le_card fun id hid => by
    rw [mem_toFinset] at hid ⊢
    exact map_subset _ h hid

/-- Merging verified records into an empty registry joins them. -/
theorem joined_mergeAll {rs : List Record} (hverified : ∀ r ∈ rs, verifyRecord c policy r now = .ok ())
    (hcons : Consistent rs) (hroom : ((rs.map Record.node).toFinset.card : Int) ≤ policy.maxNodes) :
    ((Registry.mk policy ∅).mergeAll c rs now).policy = policy ∧
      Joined rs ((Registry.mk policy ∅).mergeAll c rs now).records := by
  induction rs using List.reverseRecOn with
  | nil => exact ⟨rfl, joined_empty⟩
  | append_singleton rs r ih =>
    have hsub : rs ⊆ rs ++ [r] := subset_append_left _ _
    obtain ⟨hpolicy, hjoined⟩ := ih (fun s hs => hverified s (hsub hs))
      (fun s hs t ht => hcons s (hsub hs) t (hsub ht))
      (le_trans (by exact_mod_cast card_node_le hsub) hroom)
    obtain ⟨updated, hupdated, hmerge⟩ := hjoined.merge hcons hroom
    rw [mergeAll_snoc, Registry.merge, hpolicy, hverified r (by simp)]
    rcases hmerge with hmerge | ⟨rfl, hmerge⟩
    · simpa only [hmerge, true_and] using hupdated
    · simp only [hmerge]
      exact ⟨hpolicy, hupdated⟩

/-- Merging records that verify at one time, in any two orders, gives every node the lease
    of its highest sequence with the authorities of all copies of that lease; merging any
    of the records again changes nothing. -/
theorem merges_join {seeds : List PinnedNode} {quorum maxNodes : Int} {allowPrivate : Bool}
    (hpolicy : newPolicy c seeds quorum allowPrivate maxNodes = .ok policy) {first : Registry}
    (hnew : newRegistry c policy = .ok first) {rs rs' again : List Record} (hperm : rs.Perm rs')
    (hverified : ∀ r ∈ rs, verifyRecord c policy r now = .ok ()) (hcons : Consistent rs)
    (hroom : ((rs.map Record.node).toFinset.card : Int) ≤ policy.maxNodes) (hagain : again ⊆ rs)
    (id : Bytes) :
    (first.mergeAll c rs now).view id = (first.mergeAll c rs' now).view id ∧
    ((first.mergeAll c rs now).view id = none ↔ ∀ r ∈ rs, r.node ≠ id) ∧
    (∀ hash authorities, (first.mergeAll c rs now).view id = some (hash, authorities) →
      ∃ top ∈ rs, top.node = id ∧
        (∀ r ∈ rs, r.node = id → r.announcement.sequence ≤ top.announcement.sequence) ∧
        hash = announcementHash top.announcement ∧
        ∀ authority, authority ∈ authorities ↔ ∃ r ∈ rs, r.node = id ∧
          r.announcement.sequence = top.announcement.sequence ∧ authority ∈ r.authorities) ∧
    ((first.mergeAll c rs now).mergeAll c again now).view id = (first.mergeAll c rs now).view id := by
  rw [newRegistry_ok hpolicy] at hnew
  obtain rfl := Except.ok.inj hnew
  -- lists with the same members join to the same view
  have hall : ∀ l : List Record, (∀ r, r ∈ rs ↔ r ∈ l) →
      Joined l ((Registry.mk policy ∅).mergeAll c l now).records := by
    intro l hl
    have hsub : l ⊆ rs := fun r hr => (hl r).mpr hr
    exact (joined_mergeAll (fun r hr => hverified r (hsub hr))
      (fun r hr s hs => hcons r (hsub hr) s (hsub hs))
      (le_trans (by exact_mod_cast card_node_le hsub) hroom)).2
  have hjoined := hall rs fun _ => Iff.rfl
  refine ⟨?_, ?_, fun hash authorities hview => ?_, ?_⟩
  · exact hjoined.view_eq (hall rs' fun _ => hperm.mem_iff) (fun _ => hperm.mem_iff) hcons id
  · rw [Registry.view, Option.map_eq_none_iff]
    exact hjoined.absent id
  · obtain ⟨stored, hl, heq⟩ := Option.map_eq_some_iff.mp hview
    obtain ⟨rfl, rfl⟩ := Prod.mk.inj heq
    obtain ⟨top, htop, hann, hauth⟩ := hjoined.present id stored hl
    exact ⟨top, htop.mem, htop.node, htop.highest, by rw [hann], hauth⟩
  · have hmem : ∀ r, r ∈ rs ↔ r ∈ rs ++ again := fun r =>
      ⟨List.mem_append_left _, fun h => (List.mem_append.mp h).elim (fun h => h) fun h => hagain h⟩
    have happend : ((Registry.mk policy ∅).mergeAll c rs now).mergeAll c again now =
        (Registry.mk policy ∅).mergeAll c (rs ++ again) now := by
      rw [Registry.mergeAll, Registry.mergeAll, Registry.mergeAll, List.foldl_append]
    rw [happend]
    exact (hjoined.view_eq (hall _ hmem) hmem hcons id).symm

end

/-! ### Three leases of one seed -/

def sampleRecords : List Record :=
  [attestedLease 1 (Time.epoch.add hour), ⟨signedLease 1 (Time.epoch.add hour), []⟩,
    ⟨signedLease 2 (Time.epoch.add (2 * hour)), []⟩]

theorem sampleRecords_verify :
    ∀ r ∈ sampleRecords, verifyRecord samplePrimitives samplePolicy r Time.epoch = .ok () := by
  simp only [sampleRecords, forall_mem_cons, not_mem_nil, false_imp_iff, implies_true, and_true]
  refine ⟨?_, ?_, ?_⟩
  · exact attestedLease_verifies (by decide) (by decide) (by decide) (by decide) (by decide)
  · exact signedLease_verifies (by decide) (by decide) (by decide) (by decide) (by decide)
  · exact signedLease_verifies (by decide) (by decide) (by decide) (by decide) (by decide)

theorem sampleRecords_node : ∀ r ∈ sampleRecords, r.node = (sampleIdentity 1).nodeID := by
  simp only [sampleRecords, forall_mem_cons, not_mem_nil, false_imp_iff, implies_true, and_true]
  exact ⟨rfl, rfl, rfl⟩

theorem sampleRecords_consistent : Consistent sampleRecords := by
  have hlow : ∀ r ∈ sampleRecords, r.announcement = signedLease 1 (Time.epoch.add hour) ∨
      r.announcement = signedLease 2 (Time.epoch.add (2 * hour)) := by
    simp only [sampleRecords, forall_mem_cons, not_mem_nil, false_imp_iff, implies_true, and_true]
    exact ⟨.inl rfl, .inl trivial, .inr trivial⟩
  intro r hr s hs _ hseq
  rcases hlow r hr with h | h <;> rcases hlow s hs with h' | h' <;> rw [h, h'] at hseq ⊢
  · exact absurd hseq (by decide)
  · exact absurd hseq (by decide)

/-- Both orders of the three leases give the seed one view, and the first lease may be
    merged again. -/
theorem merges_join_sample :
    ((Registry.mk samplePolicy ∅).mergeAll samplePrimitives sampleRecords Time.epoch).view
        (sampleIdentity 1).nodeID =
      ((Registry.mk samplePolicy ∅).mergeAll samplePrimitives sampleRecords.reverse Time.epoch).view
        (sampleIdentity 1).nodeID ∧
    ((Registry.mk samplePolicy ∅).mergeAll samplePrimitives sampleRecords Time.epoch).view
        (sampleIdentity 1).nodeID ≠ none := by
  have hnew := newRegistry_ok samplePolicy_ok
  have hroom : ((sampleRecords.map Record.node).toFinset.card : Int) ≤ samplePolicy.maxNodes := by
    have hsub : (sampleRecords.map Record.node).toFinset ⊆ {(sampleIdentity 1).nodeID} := by
      intro id hid
      rw [List.mem_toFinset, List.mem_map] at hid
      obtain ⟨r, hr, rfl⟩ := hid
      rw [Finset.mem_singleton, sampleRecords_node r hr]
    have hcard := Finset.card_le_card hsub
    rw [Finset.card_singleton] at hcard
    exact le_trans (by exact_mod_cast hcard) (by decide : (1 : Int) ≤ samplePolicy.maxNodes)
  have hagain : [attestedLease 1 (Time.epoch.add hour)] ⊆ sampleRecords := by simp [sampleRecords]
  have hjoin := merges_join samplePolicy_ok hnew (List.reverse_perm sampleRecords).symm
    sampleRecords_verify sampleRecords_consistent hroom hagain (sampleIdentity 1).nodeID
  refine ⟨hjoin.1, fun hnone => ?_⟩
  exact hjoin.2.1.mp hnone _ (hagain (List.mem_singleton_self _)) rfl

end Veilmesh.Nodedir

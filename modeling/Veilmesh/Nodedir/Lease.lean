/-
  Leases over time.

  Over whole runs two promises of the registry fail, and each holds exactly on the records named here:

  * `noRollback_iff`: a lower sequence can come back after a sweep unless the leases of a
    node end in the order of their sequences.
  * `activeVerifies_iff`: a stored record can stop verifying unless attestations of one
    copy of an announcement fit every other copy with the same hash.
-/
import Veilmesh.Nodedir.Registry

namespace Veilmesh.Nodedir

open Lib Protocol Pqcrypto List GoMap Except
open Time (epoch)

/-! ## What a merge stores -/

theorem appendAttestation_perm (record : Record) (a : Attestation) :
    (appendAttestation record a).attestations.Perm (putAttestation a record.attestations) :=
  mergeSort_perm _ _

theorem mem_putAttestation_self (a : Attestation) (l : List Attestation) :
    a ∈ putAttestation a l := by
  induction l with
  | nil => exact mem_singleton_self a
  | cons e rest ih =>
    rw [putAttestation]
    split
    · exact mem_cons_self
    · exact mem_cons_of_mem _ ih

variable {x : Attestation} {record : Record} {sequence : UInt64} {expiresAt : Time}

theorem mem_putAttestation_of_ne {a : Attestation} {l : List Attestation} (hx : x ∈ l)
    (hne : x.authorityID ≠ a.authorityID) : x ∈ putAttestation a l := by
  induction l with
  | nil => cases hx
  | cons e rest ih =>
    rw [putAttestation]
    split
    · rename_i he
      rcases mem_cons.mp hx with rfl | hx
      · exact absurd he hne
      · exact mem_cons_of_mem _ hx
    · rcases mem_cons.mp hx with rfl | hx
      · exact mem_cons_self
      · exact mem_cons_of_mem _ (ih hx)

theorem mixRecords_announcement (record existing : Record) :
    (mixRecords record existing).announcement = record.announcement := by
  unfold mixRecords
  generalize existing.attestations = l
  induction l generalizing record with
  | nil => rfl
  | cons a l ih => exact ih _

theorem mem_mixRecords {existing : Record} (h : x ∈ (mixRecords record existing).attestations) :
    x ∈ record.attestations ∨ x ∈ existing.attestations := by
  unfold mixRecords at h
  generalize existing.attestations = l at h ⊢
  induction l generalizing record with
  | nil => exact .inl h
  | cons a l ih =>
    rcases ih h with h | h
    · rcases mem_putAttestation ((appendAttestation_perm record a).mem_iff.mp h) with rfl | h
      · exact .inr mem_cons_self
      · exact .inl h
    · exact .inr (mem_cons_of_mem _ h)

/-- The stored attestations come through: no two of them have the same authority. -/
theorem subset_mixRecords {existing : Record}
    (h : (existing.attestations.map Attestation.authorityID).Nodup) (hx : x ∈ existing.attestations)
    : x ∈ (mixRecords record existing).attestations := by
  unfold mixRecords
  generalize existing.attestations = l at h hx
  -- once put, an attestation survives the puts of other authorities
  have hkeep : ∀ (l : List Attestation) (r : Record), x ∈ r.attestations →
      (∀ a ∈ l, x.authorityID ≠ a.authorityID) →
      x ∈ (l.foldl appendAttestation r).attestations := by
    intro l
    induction l with
    | nil => exact fun r hr _ => hr
    | cons a l ih =>
      intro r hr hne
      refine ih _ ?_ fun b hb => hne b (mem_cons_of_mem _ hb)
      exact (appendAttestation_perm r a).mem_iff.mpr
        (mem_putAttestation_of_ne hr (hne a mem_cons_self))
  induction l generalizing record with
  | nil => cases hx
  | cons a l ih =>
    rw [map_cons, nodup_cons] at h
    rw [foldl_cons]
    rcases mem_cons.mp hx with rfl | hx
    · refine hkeep l _ ?_ fun b hb he => h.1 (he ▸ mem_map_of_mem hb)
      exact (appendAttestation_perm record x).mem_iff.mpr (mem_putAttestation_self x _)
    · exact ih h.2 hx

/-- The record stored for `record`: it is the record itself or has the attestations of an
    entry with the same announcement hash mixed in; the entry it replaces is not newer. -/
structure Stores (records : GoMap Bytes Record) (record stored : Record) : Prop where
  announcement : stored.announcement = record.announcement
  newer : ∀ existing, records.lookup record.announcement.identity.nodeID = some existing →
    existing.announcement.sequence ≤ record.announcement.sequence ∧
    (existing.announcement.sequence = record.announcement.sequence →
      announcementHash record.announcement = announcementHash existing.announcement)
  mixed : (stored = record ∧ ∀ existing,
      records.lookup record.announcement.identity.nodeID = some existing →
        existing.announcement.sequence < record.announcement.sequence) ∨
    ∃ existing, records.lookup record.announcement.identity.nodeID = some existing ∧
      existing.announcement.sequence = record.announcement.sequence ∧
      announcementHash record.announcement = announcementHash existing.announcement ∧
      stored = mixRecords record existing

theorem mergeVerifiedRecord_ok {records updated : GoMap Bytes Record} {maxNodes : Int}
    (h : mergeVerifiedRecord records maxNodes record = .ok updated) :
    ∃ stored, Stores records record stored ∧
      updated = records.insert record.announcement.identity.nodeID stored := by
  simp only [mergeVerifiedRecord] at h
  split at h
  · rename_i hnone
    split at h
    · cases h
    obtain rfl := ok.inj h
    have habsent : ∀ existing, ¬records.lookup record.announcement.identity.nodeID = some existing :=
      fun e he => by rw [hnone] at he; cases he
    exact ⟨record, ⟨rfl, fun e he => absurd he (habsent e), .inl ⟨rfl, fun e he => absurd he (habsent e)⟩⟩,
      rfl⟩
  · rename_i existing hsome
    have honly : ∀ e, records.lookup record.announcement.identity.nodeID = some e → e = existing :=
      fun e he => Option.some.inj (he.symm.trans hsome)
    split at h
    · cases h
    rename_i hle
    rw [UInt64.not_lt] at hle
    split at h
    · rename_i heq
      split at h
      · cases h
      rename_i hhash
      obtain rfl := ok.inj h
      refine ⟨_, ⟨mixRecords_announcement _ _, fun e he => ?_,
        .inr ⟨existing, hsome, heq.symm, not_not.mp hhash, rfl⟩⟩, rfl⟩
      obtain rfl := honly e he
      exact ⟨hle, fun _ => not_not.mp hhash⟩
    · rename_i hne
      obtain rfl := ok.inj h
      refine ⟨record, ⟨rfl, fun e he => ?_, .inl ⟨rfl, fun e he => ?_⟩⟩, rfl⟩
      · obtain rfl := honly e he
        exact ⟨hle, fun heq => absurd heq.symm hne⟩
      · obtain rfl := honly e he
        exact UInt64.lt_of_le_of_ne hle fun heq => hne heq.symm

/-! ## Operations as events -/

/-- What can happen to the records at one time: a verified record is stored, or expired
    records are dropped. -/
inductive Event (c : Primitives) (policy : Policy) (presented : Set Record) (now : Time) :
    GoMap Bytes Record → GoMap Bytes Record → Prop where
  | store {records : GoMap Bytes Record} {record stored : Record} (hp : record ∈ presented)
      (hv : verifyRecord c policy record now = .ok ()) (hs : Stores records record stored) :
      Event c policy presented now records
        (records.insert record.announcement.identity.nodeID stored)
  | drop {records kept : GoMap Bytes Record} (h : ∀ id, kept.lookup id = records.lookup id ∨
      kept.lookup id = none ∧ ∃ r, records.lookup id = some r ∧ r.announcement.expiresAt.ns ≤ now.ns) :
      Event c policy presented now records kept

def Op.now : Op → Time
  | .merge _ now => now
  | .mergeSnapshot _ _ now => now
  | .sweep now _ => now

/-- The records an operation is given. -/
def Op.records : Op → List Record
  | .merge record _ => [record]
  | .mergeSnapshot snapshot _ _ => snapshot.records
  | .sweep _ _ => []

/-- Times do not decrease along the operations. -/
def InOrder (ops : List Op) : Prop := ops.Pairwise fun a b => a.now.ns ≤ b.now.ns

section

variable {c : Primitives} {policy : Policy} {presented : Set Record} {now : Time}

theorem mergeRecords_events {maxNodes : Int} {l : List Record} {records updated : GoMap Bytes Record}
    (hp : ∀ r ∈ l, r ∈ presented) (hv : ∀ r ∈ l, verifyRecord c policy r now = .ok ())
    (h : mergeRecords maxNodes records l = .ok updated) :
    Relation.ReflTransGen (Event c policy presented now) records updated := by
  induction l generalizing records with
  | nil =>
    obtain rfl := ok.inj h
    exact .refl
  | cons r l ih =>
    rw [mergeRecords] at h
    split at h
    · cases h
    rename_i next hnext
    obtain ⟨stored, hs, rfl⟩ := mergeVerifiedRecord_ok hnext
    refine .head (.store (hp r mem_cons_self) (hv r mem_cons_self) hs) ?_
    exact ih (fun s hs => hp s (mem_cons_of_mem _ hs))
      (fun s hs => hv s (mem_cons_of_mem _ hs)) h

theorem verifyRecords_iff {l : List Record} :
    verifyRecords c policy now l = .ok () ↔ ∀ r ∈ l, verifyRecord c policy r now = .ok () := by
  induction l with
  | nil => simp [verifyRecords]
  | cons r l ih =>
    rw [verifyRecords, forall_mem_cons]
    split
    · rename_i e he
      simp [he]
    · rename_i he
      simp [he, ih]

/-- An operation keeps the policy and is a sequence of events at its time. -/
theorem Step.events {s s' : Registry} {op : Op} (h : Step c s op s')
    (hp : ∀ r ∈ op.records, r ∈ presented) :
    s'.policy = s.policy ∧
      Relation.ReflTransGen (Event c s.policy presented op.now) s.records s'.records := by
  cases op with
  | merge record now =>
    obtain rfl := h
    unfold Registry.merge
    split
    · exact ⟨rfl, .refl⟩
    rename_i hv
    split
    · exact ⟨rfl, .refl⟩
    rename_i updated hm
    obtain ⟨stored, hs, rfl⟩ := mergeVerifiedRecord_ok hm
    exact ⟨rfl, .single (.store (hp record (mem_singleton_self _)) hv hs)⟩
  | mergeSnapshot snapshot publisher now =>
    obtain rfl := h
    unfold Registry.mergeSnapshot
    split
    · exact ⟨rfl, .refl⟩
    split
    · exact ⟨rfl, .refl⟩
    rename_i hv
    split
    · exact ⟨rfl, .refl⟩
    rename_i updated hm
    exact ⟨rfl, mergeRecords_events hp (verifyRecords_iff.mp hv) hm⟩
  | sweep now order =>
    obtain ⟨-, horder, rfl⟩ := h
    refine ⟨rfl, .single (.drop fun id => ?_)⟩
    change (s.records.eraseWhere _ order).lookup id = _ ∨ (s.records.eraseWhere _ order).lookup id = _ ∧ _
    rw [lookup_eraseWhere]
    cases hl : s.records.lookup id with
    | none => exact .inl rfl
    | some r =>
      have hmem : id ∈ order := (horder id).mpr (mem_keys_of_lookup hl)
      by_cases hlive : r.announcement.expiresAt.after now = true
      · exact .inl (by simp [Option.filter, hlive])
      · refine .inr ⟨by simp [Option.filter, hlive, hmem], r, rfl, ?_⟩
        rw [Time.after_iff, not_lt] at hlive
        exact hlive

theorem events_invariant {I : GoMap Bytes Record → Prop}
    (hevent : ∀ a b, Event c policy presented now a b → I a → I b) {a b : GoMap Bytes Record}
    (h : Relation.ReflTransGen (Event c policy presented now) a b) (ha : I a) : I b := by
  induction h with
  | refl => exact ha
  | tail _ hlast ih => exact hevent _ _ hlast ih

end

/-- What events keep at their own time and time alone keeps, a run in order keeps. -/
theorem run_invariant {c : Primitives} {presented : Set Record} {policy : Policy}
    {I : Int → GoMap Bytes Record → Prop}
    (hlater : ∀ τ τ' records, τ ≤ τ' → I τ records → I τ' records)
    (hevent : ∀ now records records', Event c policy presented now records records' →
      I now.ns records → I now.ns records')
    {first last : Registry} {ops : List Op} (hrun : Run (Step c) first ops last)
    (hpolicy : first.policy = policy) (horder : InOrder ops)
    (hp : ∀ op ∈ ops, ∀ r ∈ op.records, r ∈ presented) {τ τ' : Int} (hτ : ∀ op ∈ ops, τ ≤ op.now.ns)
    (hτ' : ∀ op ∈ ops, op.now.ns ≤ τ') (hle : τ ≤ τ') (hfirst : I τ first.records) :
    last.policy = policy ∧ I τ' last.records := by
  induction hrun generalizing τ with
  | nil s => exact ⟨hpolicy, hlater _ _ _ hle hfirst⟩
  | @cons s mid s' op ops hstep hrest ih =>
    obtain ⟨hfix, hevents⟩ := hstep.events (hp op mem_cons_self)
    obtain ⟨hbefore, horder⟩ := pairwise_cons.mp horder
    have hnow : I op.now.ns s.records := hlater _ _ _ (hτ op mem_cons_self) hfirst
    have hmid : I op.now.ns mid.records :=
      events_invariant (fun _ _ => hevent _ _ _) (hpolicy ▸ hevents) hnow
    exact ih (hfix.trans hpolicy) horder (fun o ho => hp o (mem_cons_of_mem _ ho)) hbefore
      (fun o ho => hτ' o (mem_cons_of_mem _ ho)) (hτ' op mem_cons_self) hmid

theorem exists_bounds (ops : List Op) :
    ∃ τ τ' : Int, τ ≤ τ' ∧ ∀ op ∈ ops, τ ≤ op.now.ns ∧ op.now.ns ≤ τ' := by
  induction ops with
  | nil => exact ⟨0, 0, le_rfl, by simp⟩
  | cons op ops ih =>
    obtain ⟨τ, τ', hle, hops⟩ := ih
    refine ⟨min τ op.now.ns, max τ' op.now.ns, by omega, ?_⟩
    rintro o (_ | ⟨_, ho⟩)
    · omega
    · have := hops o ho
      omega

/-! ## Sequences over whole runs -/

/-- Some presented record with this announcement has verified. -/
def Verifiable (c : Primitives) (policy : Policy) (presented : Set Record) (a : Announcement) : Prop :=
  ∃ p ∈ presented, p.announcement = a ∧ ∃ t, verifyRecord c policy p t = .ok ()

/-- Every stored announcement was presented and verified, under its own node. -/
def FromVerified (c : Primitives) (policy : Policy) (presented : Set Record)
    (records : GoMap Bytes Record) : Prop :=
  ∀ id r, records.lookup id = some r →
    r.announcement.identity.nodeID = id ∧ Verifiable c policy presented r.announcement

section

variable {c : Primitives} {policy : Policy} {presented : Set Record}
  {records records' : GoMap Bytes Record}

theorem Event.fromVerified {now : Time} (h : Event c policy presented now records records')
    (hr : FromVerified c policy presented records) : FromVerified c policy presented records' := by
  intro id r hl
  cases h with
  | @store record stored hp hv hs =>
    rw [lookup_insert_eq] at hl
    split at hl
    · rename_i hid
      obtain rfl := Option.some.inj hl
      rw [hs.announcement]
      exact ⟨hid.symm, record, hp, rfl, now, hv⟩
    · exact hr id r hl
  | drop h =>
    rcases h id with he | ⟨hnone, -⟩
    · exact hr id r (he ▸ hl)
    · rw [hnone] at hl
      cases hl

/-- Leases of one node end in the order of their sequences. -/
def EndInOrder (c : Primitives) (policy : Policy) (presented : Set Record) : Prop :=
  ∀ a b, Verifiable c policy presented a → Verifiable c policy presented b →
    a.identity.nodeID = b.identity.nodeID → a.sequence < b.sequence →
    a.expiresAt.ns ≤ b.expiresAt.ns

/-- A sequence of `id` stays reached: by the stored record, or by one that has expired. -/
def Reached (c : Primitives) (policy : Policy) (presented : Set Record) (id : Bytes) (s : UInt64)
    (τ : Int) (records : GoMap Bytes Record) : Prop :=
  (∃ r, records.lookup id = some r ∧ s ≤ r.announcement.sequence ∧
    r.announcement.identity.nodeID = id ∧ Verifiable c policy presented r.announcement) ∨
  (records.lookup id = none ∧ ∃ a, s ≤ a.sequence ∧ a.identity.nodeID = id ∧
    Verifiable c policy presented a ∧ a.expiresAt.ns ≤ τ)

theorem Event.reached (hends : EndInOrder c policy presented) {id : Bytes} {s : UInt64} {now : Time} (h : Event c policy presented now records records')
    (hr : Reached c policy presented id s now.ns records) :
    Reached c policy presented id s now.ns records' := by
  cases h with
  | @store record stored hp hv hs =>
    by_cases hid : id = record.announcement.identity.nodeID
    · have hverifiable : Verifiable c policy presented record.announcement := ⟨record, hp, rfl, now, hv⟩
      refine .inl ⟨stored, ?_, ?_, ?_, ?_⟩
      · rw [hid, Finmap.lookup_insert]
      · rw [hs.announcement]
        rcases hr with ⟨r, hl, hseq, -, -⟩ | ⟨-, a, hseq, hnode, ha, hexpired⟩
        · exact UInt64.le_trans hseq (hs.newer r (hid ▸ hl)).1
        · -- a lower sequence would have ended before the expired lease
          by_contra hlow
          rw [UInt64.not_le] at hlow
          have hend := hends _ a hverifiable ha (hid ▸ hnode.symm) (UInt64.lt_of_lt_of_le hlow hseq)
          have hlive := (verifyRecord_iff.mp hv).2.live
          omega
      · rw [hs.announcement, hid]
      · rw [hs.announcement]
        exact hverifiable
    · have hsame : (records.insert record.announcement.identity.nodeID stored).lookup id =
          records.lookup id := Finmap.lookup_insert_of_ne _ hid
      rw [Reached, hsame]
      exact hr
  | drop h =>
    rcases h id with he | ⟨hnone, r, hl, hexpired⟩
    · rw [Reached, he]
      exact hr
    · rcases hr with ⟨r', hl', hseq, hnode, hv⟩ | ⟨hnone', -⟩
      · obtain rfl := Option.some.inj (hl'.symm.trans hl)
        exact .inr ⟨hnone, _, hseq, hnode, hv, hexpired⟩
      · rw [hl] at hnone'
        cases hnone'

/-- In no run over these records is a sequence of a node followed by a lower one. -/
def NoRollback (c : Primitives) (policy : Policy) (presented : Set Record) : Prop :=
  ∀ (first mid last : Registry) (pre post : List Op), newRegistry c policy = .ok first →
    Run (Step c) first pre mid → Run (Step c) mid post last → InOrder (pre ++ post) →
    (∀ op ∈ pre ++ post, ∀ r ∈ op.records, r ∈ presented) →
    ∀ id r r', mid.records.lookup id = some r → last.records.lookup id = some r' →
      r.announcement.sequence ≤ r'.announcement.sequence

theorem noRollback_of_endInOrder (hends : EndInOrder c policy presented) {seeds : List PinnedNode}
    {quorum maxNodes : Int} {allowPrivate : Bool}
    (hpolicy : newPolicy c seeds quorum allowPrivate maxNodes = .ok policy) :
    NoRollback c policy presented := by
  intro first mid last pre post hnew hpre hpost horder hp id r r' hr hr'
  rw [newRegistry_ok hpolicy] at hnew
  obtain rfl := ok.inj hnew
  obtain ⟨horderPre, horderPost, -⟩ := pairwise_append.mp horder
  have hmid : mid.policy = policy ∧ FromVerified c policy presented mid.records := by
    obtain ⟨τ, τ', hle, hbounds⟩ := exists_bounds pre
    refine run_invariant (I := fun _ => FromVerified c policy presented) (fun _ _ _ _ h => h)
      (fun _ _ _ he h => he.fromVerified h) hpre rfl horderPre (fun op hop => hp op (by simp [hop]))
      (fun op hop => (hbounds op hop).1) (fun op hop => (hbounds op hop).2) hle ?_
    exact fun id r h => by cases h
  obtain ⟨hnode, hverifiable⟩ := hmid.2 id r hr
  obtain ⟨τ, τ', hle, hbounds⟩ := exists_bounds post
  have hlast := run_invariant (I := Reached c policy presented id r.announcement.sequence)
    (fun _ _ _ hτ h => h.imp_right fun ⟨hnone, a, h1, h2, h3, h4⟩ =>
      ⟨hnone, a, h1, h2, h3, h4.trans hτ⟩)
    (fun _ _ _ he h => he.reached hends h) hpost hmid.1 horderPost
    (fun op hop => hp op (by simp [hop])) (fun op hop => (hbounds op hop).1)
    (fun op hop => (hbounds op hop).2) hle (.inl ⟨r, hr, UInt64.le_refl _, hnode, hverifiable⟩)
  rcases hlast.2 with ⟨q, hq, hseq, -, -⟩ | ⟨hnone, -⟩
  · obtain rfl := Option.some.inj (hq.symm.trans hr')
    exact hseq
  · rw [hr'] at hnone
    cases hnone

/-- Sweeping the only record of a registry at its end empties it. -/
theorem sweep_only (policy : Policy) (r : Record) :
    Step c ⟨policy, (∅ : GoMap Bytes Record).insert r.announcement.identity.nodeID r⟩
      (.sweep r.announcement.expiresAt [r.announcement.identity.nodeID]) ⟨policy, ∅⟩ := by
  refine ⟨nodup_singleton _, fun id => ?_, ?_⟩
  · rw [keys_insert]
    simp
  · have hempty : GoMap.eraseWhere
        (fun r' => !r'.announcement.expiresAt.after r.announcement.expiresAt)
        ((∅ : GoMap Bytes Record).insert r.announcement.identity.nodeID r)
        [r.announcement.identity.nodeID] = ∅ := by
      refine Finmap.ext_lookup fun id => ?_
      rw [lookup_eraseWhere, lookup_insert_eq]
      split
      · rename_i hid
        simp [hid, Option.filter, Time.after]
      · rfl
    rw [Registry.sweep]
    simp only [hempty]

/-- Two leases that end the other way round can be stored the other way round. -/
theorem rollback_run {a b : Record} (hmax : 0 < policy.maxNodes) {t u : Time}
    (ha : verifyRecord c policy a t = .ok ()) (hb : verifyRecord c policy b u = .ok ())
    (hends : b.announcement.expiresAt.ns < a.announcement.expiresAt.ns) :
    ∃ mid last pre post, Run (Step c) ⟨policy, ∅⟩ pre mid ∧ Run (Step c) mid post last ∧
      InOrder (pre ++ post) ∧ (∀ op ∈ pre ++ post, ∀ r ∈ op.records, r = a ∨ r = b) ∧
      mid.records.lookup b.announcement.identity.nodeID = some b ∧
      last.records.lookup a.announcement.identity.nodeID = some a := by
  obtain ⟨hawf, hatime⟩ := verifyRecord_iff.mp ha
  have hlive := (verifyRecord_iff.mp hb).2.live
  -- `a` verifies at some time when `b` has ended
  obtain ⟨v, hv, hav⟩ : ∃ v : Time, b.announcement.expiresAt.ns ≤ v.ns ∧
      verifyRecord c policy a v = .ok () := by
    by_cases hlate : b.announcement.expiresAt.ns ≤ t.ns
    · exact ⟨t, hlate, ha⟩
    · exact ⟨b.announcement.expiresAt, le_rfl,
        verifyRecord_iff.mpr ⟨hawf, hatime.later (by omega) hends⟩⟩
  have hbstep : Step c ⟨policy, ∅⟩ (.merge b u) _ := (merge_fresh hb hmax).symm
  have hastep : Step c ⟨policy, ∅⟩ (.merge a v) _ := (merge_fresh hav hmax).symm
  refine ⟨_, _, [.merge b u],
    [.sweep b.announcement.expiresAt [b.announcement.identity.nodeID], .merge a v],
    .single hbstep, .cons (sweep_only policy b) (.single hastep), ?_, ?_, ?_, ?_⟩
  · simp [InOrder, Op.now]
    omega
  · simp [Op.records]
  · exact Finmap.lookup_insert _
  · exact Finmap.lookup_insert _

/-- Sequences never go back over these records if and only if leases end in the order of
    their sequences. -/
theorem noRollback_iff {seeds : List PinnedNode} {quorum maxNodes : Int} {allowPrivate : Bool}
    (hpolicy : newPolicy c seeds quorum allowPrivate maxNodes = .ok policy) :
    NoRollback c policy presented ↔ EndInOrder c policy presented := by
  refine ⟨fun h => ?_, fun h => noRollback_of_endInOrder h hpolicy⟩
  rintro _ _ ⟨a, ha, rfl, t, hat⟩ ⟨b, hb, rfl, u, hbu⟩ hnode hseq
  by_contra hends
  rw [not_le] at hends
  obtain ⟨mid, last, pre, post, hpre, hpost, horder, hrecords, hmid, hlast⟩ :=
    rollback_run (newPolicy_limits hpolicy).1 hat hbu hends
  have hle := h _ mid last pre post (newRegistry_ok hpolicy) hpre hpost horder
    (fun op hop r hr => (hrecords op hop r hr).elim (fun h => h ▸ ha) (fun h => h ▸ hb)) _ _ _ hmid
    (hnode ▸ hlast)
  exact UInt64.not_lt.mpr hle hseq

end

/-! ## Stored records verify again -/

section

variable {c : Primitives} {policy : Policy} {presented : Set Record}

/-- A record that verified by `τ`, from the same announcement as `p` up to its hash. -/
structure SameLease (c : Primitives) (policy : Policy) (presented : Set Record) (p : Record)
    (u : Time) (a : Record) : Prop where
  mem : a ∈ presented
  node : a.announcement.identity.nodeID = p.announcement.identity.nodeID
  sequence : a.announcement.sequence = p.announcement.sequence
  hash : announcementHash a.announcement = announcementHash p.announcement
  verified : ∃ t : Time, t.ns ≤ u.ns ∧ verifyRecord c policy a t = .ok ()

/-- Attestations of one copy of an announcement fit every later copy with its hash. -/
def AttestationsFit (c : Primitives) (policy : Policy) (presented : Set Record) : Prop :=
  ∀ p u a, p ∈ presented → verifyRecord c policy p u = .ok () →
    SameLease c policy presented p u a → ∀ x ∈ a.attestations, Attests c policy p.announcement x

/-- Where a stored record comes from: the announcement from the record merged last, the
    attestations from records of the same lease. -/
structure Stored (c : Primitives) (policy : Policy) (presented : Set Record) (τ : Int) (id : Bytes)
    (r p : Record) (u : Time) : Prop where
  mem : p ∈ presented
  time : u.ns ≤ τ
  verified : verifyRecord c policy p u = .ok ()
  node : p.announcement.identity.nodeID = id
  announcement : r.announcement = p.announcement
  origin : ∀ x ∈ r.attestations, ∃ a, SameLease c policy presented p u a ∧ x ∈ a.attestations
  admitted : Admitted c policy r

variable {p : Record} {u : Time}

theorem SameLease.trans {q a : Record} {t : Time} (h : SameLease c policy presented p t a)
    (hnode : p.announcement.identity.nodeID = q.announcement.identity.nodeID)
    (hseq : p.announcement.sequence = q.announcement.sequence)
    (hhash : announcementHash p.announcement = announcementHash q.announcement) (hle : t.ns ≤ u.ns)
    : SameLease c policy presented q u a := by
  obtain ⟨v, hv, hok⟩ := h.verified
  exact ⟨h.mem, h.node.trans hnode, h.sequence.trans hseq, h.hash.trans hhash, v, hv.trans hle, hok⟩

theorem Event.stored {now : Time} {records records' : GoMap Bytes Record}
    (h : Event c policy presented now records records')
    (hr : ∀ id r, records.lookup id = some r → ∃ p u, Stored c policy presented now.ns id r p u) :
    ∀ id r, records'.lookup id = some r → ∃ p u, Stored c policy presented now.ns id r p u := by
  intro id r hl
  cases h with
  | @store record stored hp hv hs =>
    rw [lookup_insert_eq] at hl
    split at hl
    · rename_i hid
      obtain rfl := Option.some.inj hl
      have hself : SameLease c policy presented record now record :=
        ⟨hp, rfl, rfl, rfl, now, le_rfl, hv⟩
      rcases hs.mixed with ⟨rfl, -⟩ | ⟨existing, hex, hseq, hhash, rfl⟩
      · exact ⟨_, now, hp, le_rfl, hv, hid.symm, rfl, fun x hx => ⟨_, hself, hx⟩, verifyRecord_ok hv⟩
      · obtain ⟨q, t, hq⟩ := hr _ _ hex
        have hmix := (verifyRecord_ok hv).mix hq.admitted hhash
        refine ⟨record, now, hp, le_rfl, hv, hid.symm, hmix.2, fun x hx => ?_, hmix.1⟩
        rcases mem_mixRecords hx with hx | hx
        · exact ⟨record, hself, hx⟩
        · obtain ⟨a, ha, hxa⟩ := hq.origin x hx
          rw [hq.announcement] at hseq hhash
          exact ⟨a, ha.trans hq.node hseq hhash.symm hq.time, hxa⟩
    · exact hr id r hl
  | drop h =>
    rcases h id with he | ⟨hnone, -⟩
    · exact hr id r (he ▸ hl)
    · rw [hnone] at hl
      cases hl

/-- Distinct authorities are at most as many as the seeds. -/
theorem attestations_few {r : Record} (hlimits : policy.Limits)
    (hdistinct : (r.attestations.map Attestation.authorityID).Nodup)
    (hattests : ∀ x ∈ r.attestations, Attests c policy r.announcement x) :
    (r.attestations.length : Int) ≤ maxAttestations := by
  have hsub : r.attestations.map Attestation.authorityID ⊆
      policy.seeds.map fun seed => seed.identity.nodeID := by
    intro id hid
    obtain ⟨x, hx, rfl⟩ := mem_map.mp hid
    obtain ⟨identity, hauth, -⟩ := (hattests x hx).authority
    obtain ⟨seed, hseed, rfl, hnode⟩ := policy.authorities_lookup hauth
    exact mem_map.mpr ⟨seed, hseed, hnode⟩
  have hlen := (subperm_of_subset hdistinct hsub).length_le
  rw [length_map, length_map] at hlen
  simp only [Policy.Limits, not_or, not_lt] at hlimits
  omega

theorem Stored.verifies (hfit : AttestationsFit c policy presented) {now : Time} {id : Bytes}
    {r : Record} (h : Stored c policy presented now.ns id r p u)
    (hlive : now.ns < r.announcement.expiresAt.ns) : verifyRecord c policy r now = .ok () := by
  obtain ⟨hwf, htimely⟩ := verifyRecord_iff.mp h.verified
  have hattests : ∀ x ∈ r.attestations, Attests c policy r.announcement x := by
    intro x hx
    obtain ⟨a, ha, hxa⟩ := h.origin x hx
    exact h.announcement ▸ hfit p u a h.mem h.verified ha x hxa
  refine verifyRecord_iff.mpr ⟨⟨hwf.limits,
    attestations_few hwf.limits h.admitted.distinct hattests, h.announcement ▸ hwf.lease,
    h.admitted.distinct, hattests, h.admitted.quorum⟩, ?_, hlive, fun x hx => ?_⟩
  · rw [h.announcement]
    exact htimely.issued.trans (Int.add_le_add_right h.time _)
  · obtain ⟨a, ha, hxa⟩ := h.origin x hx
    obtain ⟨t, ht, hok⟩ := ha.verified
    exact ((verifyRecord_iff.mp hok).2.observed x hxa).trans
      (Int.add_le_add_right (ht.trans h.time) _)

/-- In no run over these records does a live stored record fail verification. -/
def ActiveVerifies (c : Primitives) (policy : Policy) (presented : Set Record) : Prop :=
  ∀ (first last : Registry) (ops : List Op) (now : Time) (order : List Bytes),
    newRegistry c policy = .ok first → Run (Step c) first ops last → InOrder ops →
    (∀ op ∈ ops, op.now.ns ≤ now.ns) → (∀ op ∈ ops, ∀ r ∈ op.records, r ∈ presented) →
    last.IsOrder order → ∀ r ∈ last.active now order, verifyRecord c policy r now = .ok ()

theorem activeVerifies_of_fit (hfit : AttestationsFit c policy presented) {seeds : List PinnedNode}
    {quorum maxNodes : Int} {allowPrivate : Bool}
    (hpolicy : newPolicy c seeds quorum allowPrivate maxNodes = .ok policy) :
    ActiveVerifies c policy presented := by
  intro first last ops now order hnew hrun hinorder hnow hp horder r hr
  rw [newRegistry_ok hpolicy] at hnew
  obtain rfl := ok.inj hnew
  obtain ⟨⟨id, hl⟩, hlive⟩ := (Registry.mem_active horder).mp hr
  obtain ⟨τ, τ', hle, hbounds⟩ := exists_bounds ops
  have hlast := run_invariant (I := fun τ records => ∀ id r, records.lookup id = some r →
      ∃ p u, Stored c policy presented τ id r p u)
    (fun τ τ' records hle h id r hl => by
      obtain ⟨p, u, hs⟩ := h id r hl
      exact ⟨p, u, { hs with time := hs.time.trans hle }⟩)
    (fun _ _ _ he h => he.stored h) hrun rfl hinorder hp
    (τ := min τ now.ns) (fun op hop => (min_le_left _ _).trans (hbounds op hop).1) hnow
    (min_le_right _ _) (fun id r h => by cases h)
  obtain ⟨p, u, hs⟩ := hlast.2 id r hl
  exact hs.verifies hfit hlive

/-- A run over two copies shows whether the attestations of the first fit the second. -/
theorem fit_of_activeVerifies (h : ActiveVerifies c policy presented) {seeds : List PinnedNode}
    {quorum maxNodes : Int} {allowPrivate : Bool}
    (hpolicy : newPolicy c seeds quorum allowPrivate maxNodes = .ok policy) :
    AttestationsFit c policy presented := by
  intro p u a hp hpu ha x hx
  obtain ⟨t, htu, hat⟩ := ha.verified
  obtain ⟨hpolicyPos, hagain⟩ := newPolicy_limits hpolicy
  have hnew : newRegistry c policy = .ok ⟨policy, ∅⟩ := by rw [newRegistry, hagain]
  -- the two copies merged one after the other leave their mixture
  have hlookup : ((∅ : GoMap Bytes Record).insert a.announcement.identity.nodeID a).lookup
      p.announcement.identity.nodeID = some a := by rw [ha.node, Finmap.lookup_insert]
  have hrun : Run (Step c) ⟨policy, ∅⟩ [.merge a t, .merge p u]
      ⟨policy, ((∅ : GoMap Bytes Record).insert a.announcement.identity.nodeID a).insert
        p.announcement.identity.nodeID (mixRecords p a)⟩ := by
    refine .cons (merge_fresh hat hpolicyPos).symm (.single ?_)
    simp only [Step, Registry.merge, hpu, mergeVerifiedRecord, hlookup, ha.sequence, ha.hash,
      if_neg (UInt64.lt_irrefl _), ne_eq, not_true_eq_false, if_false, if_true]
  have hmixed : (mixRecords p a).announcement = p.announcement := mixRecords_announcement p a
  have horder : Registry.IsOrder ⟨policy, ((∅ : GoMap Bytes Record).insert
      a.announcement.identity.nodeID a).insert p.announcement.identity.nodeID (mixRecords p a)⟩
      [p.announcement.identity.nodeID] := by
    refine ⟨nodup_singleton _, fun id => ?_⟩
    rw [keys_insert, keys_insert, ha.node]
    simp
  have hactive := h _ _ _ u _ hnew hrun (by simpa [InOrder, Op.now] using htu)
    (by simpa [Op.now] using htu) (by simpa [Op.records] using ⟨ha.mem, hp⟩) horder (mixRecords p a)
    ((Registry.mem_active horder).mpr ⟨⟨_, Finmap.lookup_insert _⟩, by
      rw [hmixed]
      exact (verifyRecord_iff.mp hpu).2.live⟩)
  have hfits := (verifyRecord_iff.mp hactive).1.attests x
    (subset_mixRecords (verifyRecord_iff.mp hat).1.distinct hx)
  rwa [hmixed] at hfits

/-- Every live record verifies again over these records if and only if attestations fit
    every copy of their announcement. -/
theorem activeVerifies_iff {seeds : List PinnedNode} {quorum maxNodes : Int} {allowPrivate : Bool}
    (hpolicy : newPolicy c seeds quorum allowPrivate maxNodes = .ok policy) :
    ActiveVerifies c policy presented ↔ AttestationsFit c policy presented :=
  ⟨fun h => fit_of_activeVerifies h hpolicy, fun h => activeVerifies_of_fit h hpolicy⟩

end

/-! ### Leases of one seed -/

/-- A lease of the node with this identity. -/
def leaseOf (identity : NodePublicIdentity) (sequence : UInt64) (issuedAt expiresAt : Time) :
    Announcement :=
  let a : Announcement :=
    ⟨1, identity, sampleEndpoint, sequence, issuedAt, expiresAt, HybridSignature.zero⟩
  { a with signature := sampleSign announcementDomain (announcementSigningBytes a) }

theorem leaseOf_ok (b : UInt8) {issuedAt : Time} (hseq : sequence ≠ 0)
    (hissued : issuedAt.isZero = false) (hzero : expiresAt.isZero = false)
    (hleast : minLease ≤ expiresAt.sub issuedAt) (hmost : expiresAt.sub issuedAt ≤ maxLease) :
    LeaseOk samplePrimitives false (leaseOf (sampleIdentity b) sequence issuedAt expiresAt) where
  version := rfl
  identity := sampleIdentity_valid b
  endpoint := sampleEndpoint_canonical
  sequence := hseq
  issued := hissued
  expires := hzero
  least := hleast
  most := hmost
  signature := verify_sampleSign b announcementDomain
    (announcementSigningBytes (leaseOf (sampleIdentity b) sequence issuedAt expiresAt))

/-- A lease of the sample seed, issued at the epoch. -/
def signedLease (sequence : UInt64) (expiresAt : Time) : Announcement :=
  let a : Announcement :=
    ⟨1, sampleIdentity 1, sampleEndpoint, sequence, Time.epoch, expiresAt, HybridSignature.zero⟩
  { a with signature := sampleSign announcementDomain (announcementSigningBytes a) }

theorem samplePolicy_limits : samplePolicy.Limits := by
  unfold Policy.Limits
  decide

variable (hseq : sequence ≠ 0) (hzero : expiresAt.isZero = false)
  (hleast : minLease ≤ expiresAt.sub Time.epoch) (hmost : expiresAt.sub Time.epoch ≤ maxLease)

include hseq hzero hleast hmost

theorem signedLease_ok : LeaseOk samplePrimitives false (signedLease sequence expiresAt) :=
  leaseOf_ok 1 hseq (by decide) hzero hleast hmost

/-- A seed needs no attestation, but may have some. -/
theorem signedLease_wellFormed
    {attestations : List Attestation} (hfew : (attestations.length : Int) ≤ maxAttestations)
    (hdistinct : (attestations.map Attestation.authorityID).Nodup) (hattests : ∀ a ∈ attestations,
      Attests samplePrimitives samplePolicy (signedLease sequence expiresAt) a) :
    WellFormed samplePrimitives samplePolicy ⟨signedLease sequence expiresAt, attestations⟩ where
  limits := samplePolicy_limits
  few := hfew
  lease := signedLease_ok hseq hzero hleast hmost
  distinct := hdistinct
  attests := hattests
  quorum := .inl (isPinned_head rfl rfl)

theorem signedLease_verifies (hlive : epoch.ns < expiresAt.ns) :
    verifyRecord samplePrimitives samplePolicy ⟨signedLease sequence expiresAt, []⟩ epoch =
      .ok () := by
  refine verifyRecord_iff.mpr ⟨signedLease_wellFormed hseq hzero hleast hmost (by decide)
    nodup_nil (by simp), ?_, hlive, by simp⟩
  exact (by decide : epoch.ns ≤ epoch.ns + maxClockSkew)

omit hseq hzero hleast hmost

/-- A lease of one hour with a higher sequence is swept, and one of two hours with a lower
    sequence takes its place. -/
theorem rollback_after_sweep : ¬∀ (c : Primitives) (policy : Policy) (seeds : List PinnedNode)
    (quorum maxNodes : Int) (allowPrivate : Bool),
    newPolicy c seeds quorum allowPrivate maxNodes = .ok policy → NoRollback c policy Set.univ := by
  intro hclaim
  have hlong := @signedLease_verifies 1 (Time.epoch.add (2 * hour)) (by decide) (by decide) (by decide)
    (by decide) (by decide)
  have hshort := @signedLease_verifies 2 (Time.epoch.add hour) (by decide) (by decide) (by decide)
    (by decide) (by decide)
  obtain ⟨mid, last, pre, post, hpre, hpost, horder, -, hmid, hlast⟩ :=
    rollback_run (newPolicy_limits samplePolicy_ok).1 hlong hshort
      (by decide : (Time.epoch.add hour).ns < (Time.epoch.add (2 * hour)).ns)
  have hnew := newRegistry_ok samplePolicy_ok
  have hle := hclaim _ _ _ _ _ _ samplePolicy_ok _ mid last pre post hnew hpre hpost horder
    (fun _ _ _ _ => trivial) _ _ _ hmid hlast
  exact absurd hle (by decide)

/-- Over one record nothing can go back. -/
theorem noRollback_single :
    NoRollback samplePrimitives samplePolicy {⟨signedLease 1 (Time.epoch.add hour), []⟩} := by
  refine (noRollback_iff samplePolicy_ok).mpr ?_
  rintro _ _ ⟨a, rfl, rfl, -⟩ ⟨b, rfl, rfl, -⟩ - hlt
  exact absurd hlt (by decide)

/-- The seed's own attestation of a lease. -/
def selfAttestation (a : Announcement) : Attestation :=
  let x : Attestation := ⟨1, (sampleIdentity 1).nodeID, announcementHash a, Time.epoch, a.expiresAt,
    HybridSignature.zero⟩
  { x with signature := sampleSign attestationDomain (attestationSigningBytes x) }

theorem selfAttestation_attests :
    Attests samplePrimitives samplePolicy (signedLease sequence expiresAt)
      (selfAttestation (signedLease sequence expiresAt)) where
  authority := ⟨sampleIdentity 1, Finmap.lookup_insert _,
    verify_sampleSign 1 attestationDomain
      (attestationSigningBytes (selfAttestation (signedLease sequence expiresAt)))⟩
  version := rfl
  hash := rfl
  observed := (by decide : epoch.isZero = false)
  notEarly := (by decide : epoch.ns + -maxClockSkew ≤ epoch.ns)
  expires := rfl

/-- Times that agree on the millisecond give one announcement hash. -/
theorem signedLease_hash {s t : Time} (h : writeTime s = writeTime t) :
    announcementHash (signedLease sequence s) = announcementHash (signedLease sequence t) := by
  have hbytes : announcementSigningBytes (signedLease sequence s) =
      announcementSigningBytes (signedLease sequence t) := by
    simp only [announcementSigningBytes, signedLease, h]
  have hsign : (signedLease sequence s).signature = (signedLease sequence t).signature := by
    simp only [signedLease, announcementSigningBytes, h]
  rw [announcementHash, announcementHash, hbytes, hsign]

/-- A lease with the seed's own attestation. -/
def attestedLease (sequence : UInt64) (expiresAt : Time) : Record :=
  ⟨signedLease sequence expiresAt, [selfAttestation (signedLease sequence expiresAt)]⟩

theorem attestedLease_verifies {sequence : UInt64} {expiresAt : Time} (hseq : sequence ≠ 0)
    (hzero : expiresAt.isZero = false) (hleast : minLease ≤ expiresAt.sub epoch)
    (hmost : expiresAt.sub epoch ≤ maxLease) (hlive : epoch.ns < expiresAt.ns) :
    verifyRecord samplePrimitives samplePolicy (attestedLease sequence expiresAt) epoch =
      .ok () := by
  refine verifyRecord_iff.mpr ⟨signedLease_wellFormed hseq hzero hleast hmost
    (by simp [maxAttestations]) (nodup_singleton _) fun a ha => ?_, ?_, hlive, fun a ha => ?_⟩
  · rw [mem_singleton.mp ha]
    exact selfAttestation_attests
  · exact (by decide : epoch.ns ≤ epoch.ns + maxClockSkew)
  · rw [mem_singleton.mp ha]
    exact (by decide : epoch.ns ≤ epoch.ns + maxClockSkew)

/-- A second copy of a lease ends half a millisecond later; with the attestation of the
    first it no longer verifies. -/
theorem active_not_verifying : ¬∀ (c : Primitives) (policy : Policy) (seeds : List PinnedNode)
    (quorum maxNodes : Int) (allowPrivate : Bool),
    newPolicy c seeds quorum allowPrivate maxNodes = .ok policy →
      ActiveVerifies c policy Set.univ := by
  intro hclaim
  have hfit := fit_of_activeVerifies (hclaim _ _ _ _ _ _ samplePolicy_ok) samplePolicy_ok
  let later := (Time.epoch.add hour).add 500000
  have hattested := @attestedLease_verifies 1 (Time.epoch.add hour) (by decide) (by decide)
    (by decide) (by decide) (by decide)
  have hlater := @signedLease_verifies 1 later (by decide) (by decide) (by decide) (by decide)
    (by decide)
  have hsame : SameLease samplePrimitives samplePolicy Set.univ ⟨signedLease 1 later, []⟩ Time.epoch
      (attestedLease 1 (Time.epoch.add hour)) :=
    ⟨trivial, rfl, rfl, signedLease_hash (by decide), Time.epoch, le_rfl, hattested⟩
  have hexpires := (hfit _ _ _ trivial hlater hsame _ (List.mem_singleton_self _)).expires
  exact absurd hexpires (by decide : (Time.epoch.add hour).ns ≠ later.ns)

/-- Over one record nothing can be mixed that does not fit. -/
theorem activeVerifies_single :
    ActiveVerifies samplePrimitives samplePolicy {attestedLease 1 (Time.epoch.add hour)} := by
  refine (activeVerifies_iff samplePolicy_ok).mpr ?_
  rintro p u a rfl - ha x hx
  obtain rfl : a = _ := ha.mem
  rw [List.mem_singleton.mp hx]
  exact selfAttestation_attests

end Veilmesh.Nodedir

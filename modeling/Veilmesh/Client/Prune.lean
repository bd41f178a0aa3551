/-
  What a prune of the client's record store removes.

  The records that may go are ranked: expired ones first, then by creation time, then by ID.
  `pruneToLocked` removes the shortest beginning of that ranking that brings the store within
  both of its targets, or nothing if none does.

  * `pruneCandidates_sorted`, `mem_pruneCandidates`: the ranking the code sorts.
  * `pruneToLocked_exact`: what is removed, and what is reported.
-/
import Mathlib.Data.Prod.Lex
import Veilmesh.Client.StoreInv

namespace Veilmesh.Client

open Lib EncryptedDiskStore List

/-- The place of a record in the order in which records are given up. -/
def pruneRank (now : Time) (entry : LocalRecordMeta) : Bool ×ₗ Int ×ₗ List Nat :=
  toLex (!entry.expired now, toLex (entry.createdAt.ns, entry.id.map UInt8.toNat))

theorem pruneRank_id {now : Time} {i j : LocalRecordMeta} (h : pruneRank now i = pruneRank now j) :
    i.id = j.id := by
  have hpair := congrArg (fun r => (ofLex (ofLex r).2).2) h
  exact map_toNat_injective hpair

/-- The code's comparison is the order of the ranks. -/
theorem pruneBefore_iff {now : Time} {i j : LocalRecordMeta} :
    pruneBefore now i j = true ↔ pruneRank now i < pruneRank now j := by
  have hid : bytesLE i.id j.id ∧ i.id ≠ j.id ↔ i.id.map UInt8.toNat < j.id.map UInt8.toNat := by
    rw [lt_iff_le_and_ne, bytesLE, map_toNat_injective.ne_iff]
  unfold pruneBefore pruneRank
  rw [Prod.Lex.toLex_lt_toLex, Prod.Lex.toLex_lt_toLex]
  simp only
  split
  · rename_i hne
    cases hi : i.expired now <;> cases hj : j.expired now <;> simp_all
  · rename_i heq
    rw [not_not.mp heq]
    simp only [lt_irrefl, false_or, true_and]
    split
    · rename_i hequal
      rw [Time.equal_iff] at hequal
      rw [Bool.and_eq_true, decide_eq_true_eq, bne_iff_ne, hid, hequal]
      simp only [lt_irrefl, false_or, true_and]
    · rename_i hequal
      rw [Time.equal_iff] at hequal
      rw [Time.before_iff]
      simp only [hequal, false_and, or_false]

theorem pruneCandidates_sorted {s : EncryptedDiskStore}
    (h : ∀ id entry, s.entries.lookup id = some entry → entry.id = id) (now : Time)
    (excludeID : Bytes) : (s.pruneCandidates now excludeID).Pairwise fun i j =>
      pruneRank now i < pruneRank now j := by
  have hle : ∀ i j, (!pruneBefore now j i) = true ↔
      pruneRank now i ≤ pruneRank now j := by
    intro i j
    rw [Bool.not_eq_true', ← Bool.not_eq_true, pruneBefore_iff, not_lt]
  have hsorted : (s.pruneCandidates now excludeID).Pairwise fun i j =>
      (!pruneBefore now j i) = true := by
    refine pairwise_mergeSort (fun i j k hij hjk => ?_) (fun i j => ?_) _
    · rw [hle] at hij hjk ⊢
      exact hij.trans hjk
    · rw [Bool.or_eq_true, hle, hle]
      exact le_total _ _
  have hdistinct := pairwise_map.mp (victims_candidates h now excludeID).nodup
  refine (hsorted.and hdistinct).imp fun {i j} hij => ?_
  exact lt_of_le_of_ne ((hle i j).mp hij.1) fun heq => hij.2 (pruneRank_id heq)

theorem mem_pruneCandidates {s : EncryptedDiskStore}
    (h : ∀ id entry, s.entries.lookup id = some entry → entry.id = id) {now : Time}
    {excludeID : Bytes} {entry : LocalRecordMeta} : entry ∈ s.pruneCandidates now excludeID ↔
      s.entries.lookup entry.id = some entry ∧ entry.id ≠ excludeID ∧
        localRecordPrunable entry now = true := by
  constructor
  · intro hm
    obtain ⟨he, hp, hx⟩ := (victims_candidates h now excludeID).entry entry hm
    exact ⟨he, hx, hp⟩
  · rintro ⟨he, hx, hp⟩
    refine (mergeSort_perm _ _).mem_iff.mpr (mem_filter.mpr ⟨?_, ?_⟩)
    · exact mem_filterMap.mpr
        ⟨entry.id, GoMap.mem_sortedKeys.mpr (GoMap.mem_keys_of_lookup he), he⟩
    · rw [hp, Bool.and_true]
      exact bne_iff_ne.mpr hx

/-! ## Removing records -/

/-- `s'` is `s` without the given records. -/
structure Removes (gone : List LocalRecordMeta) (s s' : EncryptedDiskStore) : Prop where
  entries : ∀ id, s'.entries.lookup id =
    if id ∈ gone.map (·.id) then none else s.entries.lookup id
  files : ∀ name, s'.dir.files.lookup name =
    if name ∈ gone.map (·.path) then none else s.dir.files.lookup name
  used : s'.used = s.used - (gone.map (·.charge)).sum
  same : s'.dir.realDirectory = s.dir.realDirectory ∧ s'.key = s.key ∧
    s'.maxBytes = s.maxBytes ∧ s'.closed = s.closed

theorem removes_foldl (gone : List LocalRecordMeta) (s : EncryptedDiskStore) :
    Removes gone s (gone.foldl deleteMetaLocked s) := by
  induction gone generalizing s with
  | nil => exact ⟨fun _ => rfl, fun _ => rfl, (sub_zero _).symm, rfl, rfl, rfl, rfl⟩
  | cons m gone ih =>
    obtain ⟨hentries, hfiles, hused, hsame⟩ := ih (s.deleteMetaLocked m)
    refine ⟨fun id => ?_, fun name => ?_, ?_, hsame⟩
    · rw [foldl_cons, hentries, deleteMetaLocked, GoMap.lookup_erase_eq, map_cons]
      by_cases hid : id = m.id <;> simp [hid]
    · have hremove : (s.deleteMetaLocked m).dir.files.lookup name =
          if name = m.path then none else s.dir.files.lookup name := GoMap.lookup_erase_eq ..
      rw [foldl_cons, hfiles, hremove, map_cons]
      by_cases hname : name = m.path <;> simp [hname]
    · rw [foldl_cons, hused, deleteMetaLocked, map_cons, sum_cons, sub_sub]

/-- Without a cancellation all chosen records are deleted. -/
theorem deletePruned_eq {ctx : Context} (hctx : ∀ i, ctx.err i = none) (k : Nat)
    (l : List LocalRecordMeta) (report : PruneReport) (s : EncryptedDiskStore) :
    deletePruned ctx k l report s =
      ((⟨report.records + l.length, report.bytes + (l.map (·.charge)).sum⟩, none),
        l.foldl deleteMetaLocked s) := by
  induction l generalizing k report s with
  | nil => simp [deletePruned]
  | cons m l ih =>
    rw [deletePruned, hctx]
    simp only [ih, length_cons, map_cons, sum_cons, foldl_cons]
    rw [Nat.add_assoc, Nat.add_comm 1, add_assoc]

/-! ## The shortest beginning -/

/-- Every entry stands under its own ID and is charged for. -/
structure Listed (s : EncryptedDiskStore) : Prop where
  id : ∀ id entry, s.entries.lookup id = some entry → entry.id = id
  charge : ∀ id entry, s.entries.lookup id = some entry → 0 ≤ entry.charge

/-- The store meets both targets once the given records are gone. -/
def Met (s : EncryptedDiskStore) (targetBytes : Int) (targetRecords : Nat)
    (gone : List LocalRecordMeta) : Prop :=
  s.used - (gone.map (·.charge)).sum ≤ targetBytes ∧
    (s.entries.size : Int) - gone.length ≤ targetRecords

section

variable {s : EncryptedDiskStore} {ctx : Context} {targetBytes : Int} {targetRecords : Nat}
  {now : Time} {excludeID : Bytes} {l : List LocalRecordMeta} (h : ∀ m ∈ l, 0 ≤ m.charge)

include h

theorem charges_nonneg : 0 ≤ (l.map (·.charge)).sum :=
  sum_nonneg fun c hc => by
    obtain ⟨m, hm, rfl⟩ := mem_map.mp hc
    exact h m hm

/-- The condition of the count loop says that the beginning passed so far is too short. -/
theorem short_iff {n : Nat} (hn : n ≤ l.length) :
    (0 + ((l.take n).map (·.charge)).sum < max 0 (s.used - targetBytes) ∨
      ((0 + n : Nat) : Int) < max 0 ((s.entries.size : Int) - targetRecords)) ↔
      ¬ Met s targetBytes targetRecords (l.take n) := by
  have hsum := charges_nonneg (l := l.take n) fun m hm => h m (mem_of_mem_take hm)
  unfold Met
  rw [length_take, min_eq_left hn]
  omega

/-- More charges paid do no harm. -/
theorem Met.of_take {n : Nat}
    (hmet : Met s targetBytes targetRecords (l.take n)) : Met s targetBytes targetRecords l := by
  have hsum := charges_nonneg (l := l.drop n) fun m hm => h m (mem_of_mem_drop hm)
  have hsplit : (l.map (·.charge)).sum =
      ((l.take n).map (·.charge)).sum + ((l.drop n).map (·.charge)).sum := by
    rw [← sum_append, ← map_append, take_append_drop]
  have hlength := length_take_le' n l
  unfold Met at hmet ⊢
  omega

omit h

/-- A prune removes the shortest beginning of its candidates that is long enough, if there is
    one. -/
theorem pruneToLocked_least (h : Listed s) (hctx : ∀ i, ctx.err i = none) (k : Nat)
    (hl : s.pruneCandidates now excludeID = l) :
    (∃ n ≤ l.length, Met s targetBytes targetRecords (l.take n) ∧
      (∀ m < n, ¬ Met s targetBytes targetRecords (l.take m)) ∧
      s.pruneToLocked ctx k targetBytes targetRecords now excludeID =
        ((⟨n, ((l.take n).map (·.charge)).sum⟩, none), (l.take n).foldl deleteMetaLocked s)) ∨
    (∀ n ≤ l.length, ¬ Met s targetBytes targetRecords (l.take n)) ∧
      s.pruneToLocked ctx k targetBytes targetRecords now excludeID =
        ((.zero, some .storageFull), s) := by
  have hcharge : ∀ m ∈ l, 0 ≤ m.charge := by
    intro m hm
    rw [← hl] at hm
    exact h.charge m.id m ((mem_pruneCandidates h.id).mp hm).1
  unfold pruneToLocked
  by_cases hnow : s.used ≤ targetBytes ∧ s.entries.size ≤ targetRecords
  · left
    refine ⟨0, Nat.zero_le _, ?_, fun m hm => absurd hm (Nat.not_lt_zero m), by rw [if_pos hnow]; rfl⟩
    simp only [Met, take_zero, map_nil, sum_nil, length_nil]
    omega
  · obtain ⟨n, hn, hcount, hbelow, hstop⟩ := countPruned_spec (max 0 (s.used - targetBytes))
      (max 0 ((s.entries.size : Int) - targetRecords)) l 0 0
    rw [if_neg hnow, hl]
    dsimp only
    rw [hcount]
    dsimp only
    have hleast : ∀ m < n, ¬ Met s targetBytes targetRecords (l.take m) := fun m hm =>
      (short_iff hcharge (by omega)).mp (hbelow m hm)
    by_cases hmet : Met s targetBytes targetRecords (l.take n)
    · left
      refine ⟨n, hn, hmet, hleast, ?_⟩
      rw [if_neg fun hshort => (short_iff hcharge hn).mp hshort hmet, Nat.zero_add,
        deletePruned_eq hctx, length_take, min_eq_left hn]
      simp only [PruneReport.zero, zero_add]
    · right
      have hend : n = l.length := hstop.resolve_right fun hnot => hnot ((short_iff hcharge hn).mpr hmet)
      refine ⟨fun m hm => ?_, if_pos ((short_iff hcharge hn).mpr hmet)⟩
      rcases Nat.lt_or_ge m n with hlt | hge
      · exact hleast m hlt
      · rw [le_antisymm (hend ▸ hm) hge]
        exact hmet

/-- Deleting stops for a cancellation only. -/
theorem deletePruned_ne_full (k : Nat) (l : List LocalRecordMeta) (report : PruneReport)
    (s : EncryptedDiskStore) : (deletePruned ctx k l report s).1.2 ≠ some .storageFull := by
  induction l generalizing k report s with
  | nil => rintro ⟨⟩
  | cons m l ih =>
    rw [deletePruned]
    split
    · rintro ⟨⟩
    · exact ih _ _ _

theorem pruneToLocked_full (k : Nat)
    (hfull : (s.pruneToLocked ctx k targetBytes targetRecords now excludeID).1.2 =
      some .storageFull) :
    (s.pruneToLocked ctx k targetBytes targetRecords now excludeID).2 = s := by
  unfold pruneToLocked at hfull ⊢
  split at hfull
  · cases hfull
  · rename_i hnow
    dsimp only at hfull
    rw [if_neg hnow]
    dsimp only
    split at hfull
    · rename_i hshort
      rw [if_pos hshort]
    · exact absurd hfull (deletePruned_ne_full _ _ _ _)

theorem put_storageFull {a : Aead} {record : LocalRecord} {nonce : Bytes}
    (hfull : (s.put a ctx record now nonce).1.2 = some .storageFull) :
    (s.put a ctx record now nonce).2 = s := by
  unfold put at hfull ⊢
  split
  · rfl
  · split
    · rfl
    · dsimp only
      split
      · rfl
      · split
        · rfl
        · split
          · rfl
          · split
            · rfl
            · rename_i hctx _ hdone _ hval hopen _ encoded hseal hroom
              simp only [hctx, hdone, hval, hopen, hseal, hroom, if_false] at hfull
              split
              · rename_i report e s1 hprune
                simp only [hprune] at hfull
                have := pruneToLocked_full 1 (congrArg (fun x => x.1.2) hprune |>.trans hfull)
                rw [hprune] at this
                exact this
              · rename_i report s1 hprune
                simp only [hprune] at hfull
                cases hfull

end

/-- A prune does nothing if both targets are met. Otherwise it removes, of the records that may
    go, in the order of their ranks, exactly the shortest beginning without which both targets
    are met, and reports its length and its charges; if there is none it fails and removes
    nothing. So a `Put` that fails for lack of space leaves the store as it was. -/
theorem pruneToLocked_exact {s : EncryptedDiskStore} (h : Listed s) {ctx : Context}
    (hctx : ∀ i, ctx.err i = none) (k : Nat) (targetBytes : Int) (targetRecords : Nat) (now : Time)
    (excludeID : Bytes) {l : List LocalRecordMeta}
    (hsorted : l.Pairwise fun i j => pruneRank now i < pruneRank now j)
    (hmem : ∀ entry, entry ∈ l ↔ s.entries.lookup entry.id = some entry ∧ entry.id ≠ excludeID ∧
      (entry.expired now = true ∨ entry.prunePolicy = pruneOldest)) :
    (Met s targetBytes targetRecords [] →
      s.pruneToLocked ctx k targetBytes targetRecords now excludeID = ((.zero, none), s)) ∧
    (∀ n ≤ l.length, Met s targetBytes targetRecords (l.take n) →
      (∀ m < n, ¬ Met s targetBytes targetRecords (l.take m)) →
      ∃ s', s.pruneToLocked ctx k targetBytes targetRecords now excludeID =
        ((⟨n, ((l.take n).map (·.charge)).sum⟩, none), s') ∧ Removes (l.take n) s s') ∧
    (¬ Met s targetBytes targetRecords l →
      s.pruneToLocked ctx k targetBytes targetRecords now excludeID =
        ((.zero, some .storageFull), s)) ∧
    ∀ (a : Aead) (ctx : Context) (record : LocalRecord) (now : Time) (nonce : Bytes),
      (s.put a ctx record now nonce).1.2 = some .storageFull →
      (s.put a ctx record now nonce).2 = s := by
  have hl : s.pruneCandidates now excludeID = l := by
    have : Std.Irrefl fun i j => pruneRank now i < pruneRank now j := ⟨fun i => lt_irrefl _⟩
    have : Std.Asymm fun i j => pruneRank now i < pruneRank now j := ⟨fun i j hij hji => lt_asymm hij hji⟩
    refine (pruneCandidates_sorted h.id now excludeID).eq_of_mem_iff hsorted fun entry => ?_
    rw [mem_pruneCandidates h.id, hmem, localRecordPrunable, Bool.or_eq_true, beq_iff_eq]
  have hcharge : ∀ m ∈ l, 0 ≤ m.charge := fun m hm => h.charge m.id m ((hmem m).mp hm).1
  have hleast := @pruneToLocked_least s ctx targetBytes targetRecords now excludeID l h hctx k hl
  refine ⟨fun hmet => ?_, fun n hn hmet hbelow => ?_, fun hnot => ?_,
    fun a ctx record now nonce => put_storageFull⟩
  · obtain ⟨n, -, -, hbelow, heq⟩ | ⟨hnone, -⟩ := hleast
    · have hn : n = 0 := by
        by_contra hn
        exact hbelow 0 (Nat.pos_of_ne_zero hn) hmet
      rw [heq, hn]
      rfl
    · exact absurd hmet (hnone 0 (Nat.zero_le _))
  · obtain ⟨n', -, hmet', hbelow', heq⟩ | ⟨hnone, -⟩ := hleast
    · have hnn : n' = n := by
        rcases lt_trichotomy n' n with hlt | heq | hgt
        · exact absurd hmet' (hbelow n' hlt)
        · exact heq
        · exact absurd hmet (hbelow' n hgt)
      rw [heq, hnn]
      exact ⟨_, rfl, removes_foldl _ _⟩
    · exact absurd hmet (hnone n hn)
  · obtain ⟨n, -, hmet, -⟩ | ⟨-, heq⟩ := hleast
    · exact absurd (hmet.of_take hcharge) hnot
    · exact heq

/-- The entry of a cached file. -/
def sampleCached : LocalRecordMeta :=
  ⟨lit "cached", localKindFileCache, Time.epoch, Time.zero, pruneOldest, lit "cached.vmc", 5000⟩

/-- A store whose only record is the cached file. -/
def cachedStore : EncryptedDiskStore :=
  ⟨⟨true, ∅⟩, [], minClientStorageBytes, 5000, Finmap.insert sampleCached.id sampleCached ∅, false⟩

theorem lookup_cachedStore {id : Bytes} {entry : LocalRecordMeta} :
    cachedStore.entries.lookup id = some entry ↔ id = sampleCached.id ∧ sampleCached = entry := by
  rw [cachedStore, GoMap.lookup_insert_eq, Finmap.lookup_empty]
  split <;> simp_all

/-- A prune of the store to 4000 bytes removes the cached file. -/
theorem pruneToLocked_exact_cached : ∃ s',
    cachedStore.pruneToLocked .background 1 4000 maxClientStoreRecords Time.epoch [] =
      ((⟨1, 5000⟩, none), s') ∧ Removes [sampleCached] cachedStore s' := by
  have hlisted : Listed cachedStore := by
    constructor
    · intro id entry he
      obtain ⟨rfl, rfl⟩ := lookup_cachedStore.mp he
      rfl
    · intro id entry he
      obtain ⟨-, rfl⟩ := lookup_cachedStore.mp he
      decide
  refine (pruneToLocked_exact hlisted (fun _ => rfl) 1 4000 maxClientStoreRecords Time.epoch []
    (List.pairwise_singleton _ sampleCached) fun entry => ?_).2.1 1 le_rfl ?_ fun m hm => ?_
  · rw [List.mem_singleton, lookup_cachedStore]
    constructor
    · rintro rfl
      exact ⟨⟨rfl, rfl⟩, by decide, .inr rfl⟩
    · exact fun h => h.1.2.symm
  · constructor <;> decide
  · obtain rfl : m = 0 := by omega
    exact fun hmet => absurd hmet.1 (by decide)

end Veilmesh.Client

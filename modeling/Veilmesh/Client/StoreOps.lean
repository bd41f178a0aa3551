/-
  Writing and loading records.

  What `Put` does to an open store, and what the start-up loop does with one entry of the
  directory. Both are said once, as the cases that can occur (`put_cases`,
  `loadEntry_cases`); that entries and directory stay in step, and that a record no prune
  may take stays where it is, is read off from the cases.

  * `OpenInv`, `put_spec`: an open store and its `Put`.
  * `Held`: a record's file is in the directory, its entry in the store or still to come.
  * `loadEntries_spec`: the whole listing.
-/
import Veilmesh.Client.StoreInv

namespace Veilmesh.Client

open Lib EncryptedDiskStore GoMap List
open Node (File FileKind Disk)

/-- The invariant of an open store. -/
structure OpenInv (a : Aead) (strict : Prop) (s : EncryptedDiskStore) (rest : List Bytes) : Prop
    extends Indexed a strict s rest where
  limit : s.used ≤ s.maxBytes
  count : s.entries.size ≤ maxClientStoreRecords

/-! ## Writing -/

section

variable {a : Aead} {strict : Prop} {s s' : EncryptedDiskStore} {ctx : Context}
  {record : LocalRecord} {now : Time} {nonce : Bytes} {report : PruneReport}
  {err : Option ClientStoreError}

/-- A `Put` fails and may have pruned, or it prunes and then writes. -/
theorem put_cases (h : Indexed a strict s [])
    (heq : s.put a ctx record now nonce = ((report, err), s')) :
    (err ≠ none ∧ Indexed a strict s' [] ∧ Pruned now record.id s s') ∨
    (err = none ∧ ∃ encoded s1,
      validateLocalRecord (normalizeLocalRecord record) now = .ok () ∧ s.closed = false ∧
      sealRecord a s.key nonce (normalizeLocalRecord record) (localRecordFilename record.id) =
        .ok encoded ∧
      Indexed a strict s1 [] ∧ Pruned now record.id s s1 ∧
      s1.used ≤ s.maxBytes - localRecordCharge encoded.length +
        (s.entries.getD record.id .zero).charge ∧
      s1.entries.size ≤ (if (s.entries.getD record.id .zero).id = [] then
        maxClientStoreRecords - 1 else maxClientStoreRecords) ∧
      s' = s1.writeRecord (normalizeLocalRecord record) encoded (s.entries.getD record.id .zero)) := by
  have hsame : ∀ e, ((PruneReport.zero, some e), s) = ((report, err), s') →
      err ≠ none ∧ Indexed a strict s' [] ∧ Pruned now record.id s s' := by
    intro e he
    simp only [Prod.mk.injEq] at he
    obtain ⟨⟨-, rfl⟩, rfl⟩ := he
    exact ⟨by simp, h, Pruned.refl _ _ _⟩
  unfold put at heq
  split at heq
  · exact .inl (hsame _ heq)
  · split at heq
    · exact .inl (hsame _ heq)
    · dsimp only at heq
      split at heq
      · exact .inl (hsame _ heq)
      · rename_i hval
        split at heq
        · exact .inl (hsame _ heq)
        · rename_i hclosed
          split at heq
          · exact .inl (hsame _ heq)
          · rename_i encoded hseal
            split at heq
            · exact .inl (hsame _ heq)
            · split at heq
              · rename_i r e s1 hprune
                obtain ⟨hi, hp, -⟩ := pruneToLocked_spec h _ _ _ _ _ _ hprune
                simp only [Prod.mk.injEq] at heq
                obtain ⟨⟨-, rfl⟩, rfl⟩ := heq
                exact .inl ⟨by simp, hi, hp⟩
              · rename_i r s1 hprune
                obtain ⟨hi, hp, hmet⟩ := pruneToLocked_spec h _ _ _ _ _ _ hprune
                obtain ⟨hu, hs⟩ := hmet rfl
                simp only [Prod.mk.injEq] at heq
                obtain ⟨⟨-, rfl⟩, rfl⟩ := heq
                exact .inr ⟨rfl, encoded, s1, hval, by simpa using hclosed, hseal, hi, hp, hu, hs,
                  rfl⟩

/-- Pruning with an excluded ID leaves the entry of that ID alone. -/
theorem Pruned.lookup_excluded {excludeID : Bytes} (h : Pruned now excludeID s s') :
    s'.entries.lookup excludeID = s.entries.lookup excludeID := by
  cases hs : s.entries.lookup excludeID with
  | none =>
    cases hs' : s'.entries.lookup excludeID with
    | none => rfl
    | some entry => exact absurd (h.kept _ _ hs') (by simp [hs])
  | some entry =>
    cases hs' : s'.entries.lookup excludeID with
    | none => exact absurd rfl (h.gone _ _ hs hs').2
    | some entry' => exact (h.kept _ _ hs').symm.trans hs

theorem lookup_writeRecord (s : EncryptedDiskStore) (record : LocalRecord) (encoded : Bytes)
    (old : LocalRecordMeta) (k : Bytes) : (s.writeRecord record encoded old).entries.lookup k =
      if k = record.id then some (metaFromRecord record (localRecordFilename record.id)
        (localRecordCharge encoded.length)) else s.entries.lookup k :=
  lookup_insert_eq ..

theorem file_writeRecord (s : EncryptedDiskStore) (record : LocalRecord) (encoded : Bytes)
    (old : LocalRecordMeta) {name : Bytes} (h : name ≠ localRecordFilename record.id) :
    (s.writeRecord record encoded old).dir.files.lookup name = s.dir.files.lookup name :=
  Finmap.lookup_insert_of_ne _ h

/-- The entry written for a record is backed by the file written for it. -/
theorem backed_writeRecord {encoded : Bytes} (old : LocalRecordMeta)
    (hval : validateLocalRecord (normalizeLocalRecord record) now = .ok ())
    (hnonce : nonce.length = gcmNonceBytes)
    (hseal : sealRecord a s.key nonce (normalizeLocalRecord record)
      (localRecordFilename record.id) = .ok encoded)
    (hstrict : strict → record.expiresAt.isZero = true → record.expiresAt.off % 60 = 0) :
    Backed a strict (s.writeRecord (normalizeLocalRecord record) encoded old) record.id
      (metaFromRecord (normalizeLocalRecord record) (localRecordFilename record.id)
        (localRecordCharge encoded.length))
      ⟨.regular, 0o600, encoded⟩ (normalizeLocalRecord record).shown := by
  obtain ⟨hc, hu⟩ := normalizeLocalRecord_off record
  refine ⟨Finmap.lookup_insert _, recordFileOk_sealRecord hseal,
    openRecord_sealRecord hseal hnonce (localRecordCodec_reads hval hc hu), rfl, rfl, ?_,
    safePrunePolicy_groupState (validateLocalRecord_ok hval).2.2.2⟩
  change (normalizeLocalRecord record).expiresAt = (normalizeLocalRecord record).expiresAt.shown ∨
    ¬ strict ∧ (normalizeLocalRecord record).expiresAt.isZero = true
  rcases normalizeLocalRecord_expiresAt record with hoff | ⟨heq, hz⟩
  · left
    rw [Time.shown_of_minutes (by simp [hoff])]
  · by_cases hs : strict
    · left
      rw [heq, Time.shown_of_minutes (hstrict hs hz)]
    · exact .inr ⟨hs, heq ▸ hz⟩

/-- Writing keeps entries and directory in step, if no other entry has the file's name. -/
theorem Indexed.writeRecord (h : Indexed a strict s []) {encoded : Bytes} (hbacked : Backed a strict
      (s.writeRecord (normalizeLocalRecord record) encoded (s.entries.getD record.id .zero)) record.id
      (metaFromRecord (normalizeLocalRecord record) (localRecordFilename record.id)
        (localRecordCharge encoded.length))
      ⟨.regular, 0o600, encoded⟩ (normalizeLocalRecord record).shown)
    (hfree : ∀ id entry, s.entries.lookup id = some entry →
      localRecordFilename id = localRecordFilename record.id → id = record.id) :
    Indexed a strict
      (s.writeRecord (normalizeLocalRecord record) encoded (s.entries.getD record.id .zero)) [] := by
  generalize hold : s.entries.getD record.id .zero = old at hbacked ⊢
  generalize hentry : metaFromRecord (normalizeLocalRecord record) (localRecordFilename record.id)
    (localRecordCharge encoded.length) = new at hbacked
  have hentries : ∀ k, (s.writeRecord (normalizeLocalRecord record) encoded old).entries.lookup k =
      if k = record.id then some new else s.entries.lookup k := fun k => by
    rw [← hentry]
    exact lookup_writeRecord ..
  refine ⟨?_, fun k e hk => ?_, fun k e _ => not_mem_nil, fun name f hf => ?_,
    fun k k' e e' hk hk' hname => ?_⟩
  · change s.used - old.charge + localRecordCharge encoded.length =
      GoMap.sum (·.charge) (s.entries.insert record.id
        (metaFromRecord (normalizeLocalRecord record) (localRecordFilename record.id)
          (localRecordCharge encoded.length)))
    cases hl : s.entries.lookup record.id with
    | none =>
      have hzero : old = .zero := by rw [← hold, GoMap.getD, hl, Option.getD_none]
      rw [sum_insert_new _ _ hl, h.used, hzero]
      exact congrArg (· + _) (sub_zero _)
    | some entry =>
      have hsome : old = entry := by rw [← hold, GoMap.getD, hl, Option.getD_some]
      rw [sum_insert _ _ hl, h.used, hsome]
      rfl
  · rw [hentries] at hk
    split at hk
    · rename_i hkid
      obtain rfl := Option.some.inj hk
      subst hkid
      exact ⟨_, _, hbacked⟩
    · rename_i hkid
      obtain ⟨f, r, hb⟩ := h.backed k e hk
      exact ⟨f, r, hb.transfer rfl
        (file_writeRecord _ _ _ _ fun hname => hkid (hfree k e hk hname))⟩
  · by_cases hname : name = localRecordFilename record.id
    · exact .inr (.inr ⟨record.id, new, by rw [hentries, if_pos rfl], hname.symm⟩)
    · rw [file_writeRecord s (normalizeLocalRecord record) encoded old hname] at hf
      obtain hlock | hrest | ⟨k, e, hk, hke⟩ := h.files name f hf
      · exact .inl hlock
      · exact .inr (.inl hrest)
      · refine .inr (.inr ⟨k, e, ?_, hke⟩)
        rw [hentries, if_neg fun hkid => hname (by rw [← hke, hkid])]
        exact hk
  · rw [hentries] at hk hk'
    split at hk
    · rename_i hkid
      split at hk'
      · rename_i hkid'
        rw [hkid, hkid']
      · rw [hkid] at hname
        exact hkid.trans (hfree k' e' hk' hname.symm).symm
    · split at hk'
      · rename_i hkid'
        rw [hkid'] at hname
        exact (hfree k e hk hname).trans hkid'.symm
      · exact h.apart k k' e e' hk hk' hname

/-- What a successful `Put` leaves: its own entry, and of the others all but pruned ones. -/
structure Overwrites (record : LocalRecord) (now : Time) (s s' : EncryptedDiskStore) : Prop where
  own : ∃ entry, s'.entries.lookup record.id = some entry ∧ entry.id = record.id ∧
    entry.kind = record.kind ∧ entry.createdAt = (normalizeLocalRecord record).createdAt ∧
    entry.expiresAt = (normalizeLocalRecord record).expiresAt ∧
    entry.prunePolicy = record.prunePolicy
  others : ∀ id entry, id ≠ record.id → s'.entries.lookup id = some entry →
    s.entries.lookup id = some entry
  pruned : ∀ id entry, id ≠ record.id → s.entries.lookup id = some entry →
    s'.entries.lookup id = none → localRecordPrunable entry now = true

theorem put_overwrites (h : Indexed a strict s [])
    (heq : s.put a ctx record now nonce = ((report, none), s')) : Overwrites record now s s' := by
  obtain ⟨hne, -⟩ | ⟨-, encoded, s1, -, -, -, -, hp, -, -, rfl⟩ := put_cases h heq
  · exact absurd rfl hne
  · refine ⟨⟨_, Finmap.lookup_insert _, rfl, rfl, rfl, rfl, rfl⟩, fun id entry hne hk => ?_,
      fun id entry hne hk hnone => ?_⟩
    · rw [lookup_writeRecord, normalizeLocalRecord_id, if_neg hne] at hk
      exact hp.kept id entry hk
    · rw [lookup_writeRecord, normalizeLocalRecord_id, if_neg hne] at hnone
      exact (hp.gone id entry hk hnone).1

theorem localRecordCharge_nonneg (f : File) : 0 ≤ localRecordCharge f.data.length := by
  unfold localRecordCharge localRecordAccountingOverhead
  omega

theorem OpenInv.pruned (h : OpenInv a strict s []) (hi : Indexed a strict s' [])
    {excludeID : Bytes} (hp : Pruned now excludeID s s') : OpenInv a strict s' [] := by
  refine ⟨hi, ?_, ?_⟩
  · rw [hi.used, hp.same.2.1]
    refine le_trans (sum_le_sum (fun id entry he => ?_) hp.kept) (h.used ▸ h.limit)
    obtain ⟨f, r, hb⟩ := h.backed id entry he
    rw [hb.entryEq]
    exact localRecordCharge_nonneg f
  · exact (size_le_of_lookup fun id entry he => ⟨entry, hp.kept id entry he⟩).trans h.count

/-- An open store stays one through every `Put`. -/
theorem put_spec (h : OpenInv a strict s []) (hnonce : nonce.length = gcmNonceBytes)
    (hstrict : strict → record.expiresAt.isZero = true → record.expiresAt.off % 60 = 0)
    (hfree : ∀ id entry, s.entries.lookup id = some entry →
      localRecordFilename id = localRecordFilename record.id → id = record.id)
    (heq : s.put a ctx record now nonce = ((report, err), s')) : OpenInv a strict s' [] := by
  obtain ⟨-, hi, hp⟩ | ⟨-, encoded, s1, hval, -, hseal, hi, hp, hu, hs, rfl⟩ :=
    put_cases h.toIndexed heq
  · exact h.pruned hi hp
  · have hget : s1.entries.getD record.id .zero = s.entries.getD record.id .zero := by
      rw [GoMap.getD, GoMap.getD, hp.lookup_excluded]
    have hbacked := backed_writeRecord (s := s1) (s1.entries.getD record.id .zero) hval hnonce
      (hp.same.1.symm ▸ hseal) hstrict
    have hindexed := hi.writeRecord hbacked fun id entry hk => hfree id entry (hp.kept id entry hk)
    rw [hget] at hindexed
    refine ⟨hindexed, ?_, ?_⟩
    · change s1.used - _ + localRecordCharge encoded.length ≤ s1.maxBytes
      rw [hp.same.2.1]
      omega
    · change GoMap.size (s1.entries.insert record.id _) ≤ _
      cases hl : s1.entries.lookup record.id with
      | none =>
        rw [size_insert_new _ hl]
        have hzero : s.entries.getD record.id .zero = .zero := by
          rw [← hget, GoMap.getD, hl, Option.getD_none]
        have hempty : LocalRecordMeta.zero.id = [] := rfl
        rw [hzero, if_pos hempty] at hs
        unfold maxClientStoreRecords at hs ⊢
        omega
      | some entry =>
        rw [size_insert_of_mem _ (mem_keys_of_lookup hl)]
        refine hs.trans ?_
        split
        · exact Nat.sub_le _ _
        · exact le_rfl

end

/-! ## Records no prune may take -/

/-- At `now` no prune may take the record. -/
def LocalRecord.Safe (record : LocalRecord) (now : Time) : Prop :=
  record.kind = localKindGroupState ∨ record.prunePolicy ≠ pruneOldest ∧
    (record.expiresAt.isZero = true ∨ record.expiresAt.after now = true)

/-- The file `f` holds the record, and its entry is there or still to come. -/
structure Held (a : Aead) (s : EncryptedDiskStore) (rest : List Bytes) (f : File)
    (record : LocalRecord) : Prop where
  file : s.dir.files.lookup (localRecordFilename record.id) = some f
  opens : openRecord a s.key (localRecordFilename record.id) f.data = .ok record
  listed : localRecordFilename record.id ∈ rest ∨ ∃ entry, s.entries.lookup record.id = some entry

section

variable {a : Aead} {strict : Prop} {s s' : EncryptedDiskStore} {rest : List Bytes} {f : File}
  {record : LocalRecord} {now : Time}

theorem Backed.not_prunable {id : Bytes} {entry : LocalRecordMeta}
    (h : Backed a strict s id entry f record) (hsafe : record.Safe now) :
    localRecordPrunable entry now = false := by
  have hkind : entry.kind = record.kind := by rw [h.entryEq]; rfl
  have hpolicy : entry.prunePolicy = record.prunePolicy := by rw [h.entryEq]; rfl
  unfold localRecordPrunable LocalRecordMeta.expired
  rcases hsafe with hgroup | ⟨hne, hexp⟩
  · obtain ⟨hnever, hzero⟩ := h.groupState (hkind.trans hgroup)
    rw [hzero, hnever]
    rfl
  · have hlive : entry.expiresAt.isZero = true ∨ entry.expiresAt.after now = true := by
      rcases h.expiry with heq | ⟨-, hz⟩
      · rwa [heq]
      · exact .inl hz
    rw [hpolicy, beq_false_of_ne hne, Bool.or_false]
    rcases hlive with hz | ha
    · rw [hz]
      rfl
    · rw [ha, Bool.not_true, Bool.and_false]

/-- An entry that shares the file of a record is the entry of that record. -/
theorem Backed.of_file {id : Bytes} {entry : LocalRecordMeta} {g : File} {r : LocalRecord}
    (h : Backed a strict s id entry g r)
    (hname : localRecordFilename id = localRecordFilename record.id)
    (hfile : s.dir.files.lookup (localRecordFilename record.id) = some f)
    (hopens : openRecord a s.key (localRecordFilename record.id) f.data = .ok record) :
    id = record.id ∧ g = f ∧ r = record := by
  have hg : g = f := Option.some.inj (h.file.symm.trans (hname ▸ hfile))
  have hr : r = record := Except.ok.inj (h.opens.symm.trans (by rw [hname, hg, hopens]))
  exact ⟨by rw [← hr, h.recordID], hg, hr⟩

/-- Pruning leaves alone what it may not take. -/
theorem Held.pruned (h : Held a s rest f record) (hi : Indexed a strict s rest)
    (hsafe : record.Safe now) {excludeID : Bytes} (hp : Pruned now excludeID s s') :
    Held a s' rest f record := by
  have hstays : ∀ id entry, s.entries.lookup id = some entry → s'.entries.lookup id = none →
      localRecordFilename id ≠ localRecordFilename record.id := by
    intro id entry he hnone hname
    obtain ⟨g, r, hb⟩ := hi.backed id entry he
    obtain ⟨-, -, rfl⟩ := hb.of_file hname h.file h.opens
    exact absurd (hp.gone id entry he hnone).1 (by simp [hb.not_prunable hsafe])
  refine ⟨(hp.frame _ hstays).trans h.file, hp.same.1 ▸ h.opens, h.listed.imp_right ?_⟩
  rintro ⟨entry, he⟩
  cases hk : s'.entries.lookup record.id with
  | none => exact absurd rfl (hstays _ entry he hk)
  | some entry' => exact ⟨entry', rfl⟩

end

/-! ## Loading -/

section

variable {a : Aead} {strict : Prop} {now : Time} {clock : Bytes → Time}
  {s s' : EncryptedDiskStore} {name : Bytes} {rest : List Bytes} {err : Option ClientStoreError}

/-- What a directory entry does: nothing, it is a temporary file and removed, or it is a
    record and indexed, with some pruning if that was too much. -/
theorem loadEntry_cases (heq : loadEntry a now clock s name = (err, s')) :
    (s' = s ∧ (err = none → name = localStoreLockFilename ∨ s.dir.files.lookup name = none)) ∨
    (err = none ∧ localTemporaryPrefix.isPrefixOf name = true ∧
      s' = { s with dir := s.dir.remove name }) ∨
    ∃ f record, s.dir.files.lookup name = some f ∧ recordFileOk f = true ∧
      openRecord a s.key name f.data = .ok record ∧
      validateLocalRecord record (clock name) = .ok () ∧ localRecordFilename record.id = name ∧
      s.entries.lookup record.id = none ∧
      ((err = none ∧ s' = s.indexRecord record name (localRecordCharge f.data.length) ∧
          s'.used ≤ s'.maxBytes ∧ s'.entries.size ≤ maxClientStoreRecords) ∨
        ∃ report, (s.indexRecord record name (localRecordCharge f.data.length)).pruneToLocked
          .background 0 s.maxBytes maxClientStoreRecords now [] = ((report, err), s')) := by
  have hsame : ∀ e, (some e, s) = (err, s') → s' = s ∧
      (err = none → name = localStoreLockFilename ∨ s.dir.files.lookup name = none) := by
    intro e he
    obtain ⟨rfl, rfl⟩ := Prod.mk.inj he
    exact ⟨rfl, fun hnone => by cases hnone⟩
  unfold loadEntry at heq
  split at heq
  · rename_i hnone
    obtain ⟨rfl, rfl⟩ := Prod.mk.inj heq
    exact .inl ⟨rfl, fun _ => .inr hnone⟩
  · rename_i f hf
    split at heq
    · rename_i hlock
      obtain ⟨-, rfl⟩ := Prod.mk.inj heq
      exact .inl ⟨rfl, fun _ => .inl hlock⟩
    · split at heq
      · rename_i htemp
        split at heq
        · obtain ⟨rfl, rfl⟩ := Prod.mk.inj heq
          exact .inr (.inl ⟨rfl, htemp, rfl⟩)
        · exact .inl (hsame _ heq)
      · split at heq
        · exact .inl (hsame _ heq)
        · split at heq
          · exact .inl (hsame _ heq)
          · split at heq
            · exact .inl (hsame _ heq)
            · unfold loadRecord at heq
              split at heq
              · exact .inl (hsame _ heq)
              · rename_i record hread
                obtain ⟨g, hg, hok, hopen, hval⟩ := readRecord_ok hread
                obtain rfl := Option.some.inj (hf.symm.trans hg)
                split at heq
                · exact .inl (hsame _ heq)
                · rename_i hname
                  split at heq
                  · exact .inl (hsame _ heq)
                  · rename_i hnew
                    refine .inr (.inr ⟨f, record, hf, hok, hopen, hval, not_not.mp hname,
                      by simpa using hnew, ?_⟩)
                    dsimp only at heq
                    split at heq
                    · right
                      obtain ⟨rfl, rfl⟩ := Prod.mk.inj heq
                      exact ⟨_, rfl⟩
                    · rename_i hfits
                      obtain ⟨rfl, rfl⟩ := Prod.mk.inj heq
                      rw [not_or, not_lt, not_lt] at hfits
                      exact .inl ⟨rfl, rfl, hfits⟩

variable (h : Indexed a strict s (name :: rest))

include h

/-- The record of a file joins the entries. -/
theorem Indexed.indexRecord (hnd : name ∉ rest) {f : File}
    {record : LocalRecord} {checked : Time} (hf : s.dir.files.lookup name = some f)
    (hok : recordFileOk f = true) (hopen : openRecord a s.key name f.data = .ok record)
    (hval : validateLocalRecord record checked = .ok ()) (hname : localRecordFilename record.id = name)
    (hnew : s.entries.lookup record.id = none) :
    Indexed a strict (s.indexRecord record name (localRecordCharge f.data.length)) rest := by
  subst hname
  have hentries : ∀ k, (s.indexRecord record (localRecordFilename record.id)
      (localRecordCharge f.data.length)).entries.lookup k =
      if k = record.id then some (metaFromRecord record (localRecordFilename record.id)
        (localRecordCharge f.data.length)) else s.entries.lookup k :=
    fun k => lookup_insert_eq ..
  have hother : ∀ k e, s.entries.lookup k = some e →
      localRecordFilename k ≠ localRecordFilename record.id := fun k e hk hname =>
    h.fresh k e hk (hname ▸ mem_cons_self)
  refine ⟨?_, fun k e hk => ?_, fun k e hk => ?_, fun n g hg => ?_, fun k k' e e' hk hk' hname => ?_⟩
  · change s.used + localRecordCharge f.data.length = GoMap.sum (·.charge) (s.entries.insert _ _)
    rw [sum_insert_new _ _ hnew, h.used]
    rfl
  · rw [hentries] at hk
    split at hk
    · rename_i hkid
      obtain rfl := Option.some.inj hk
      subst hkid
      exact ⟨f, record, hf, hok, hopen, rfl, rfl, .inl rfl,
        safePrunePolicy_groupState (validateLocalRecord_ok hval).2.2.2⟩
    · obtain ⟨g, r, hb⟩ := h.backed k e hk
      exact ⟨g, r, hb.transfer rfl rfl⟩
  · rw [hentries] at hk
    split at hk
    · rename_i hkid
      rw [hkid]
      exact hnd
    · exact fun hin => h.fresh k e hk (mem_cons_of_mem _ hin)
  · obtain hlock | hin | ⟨k, e, hk, hke⟩ := h.files n g hg
    · exact .inl hlock
    · rcases mem_cons.mp hin with heq | hin
      · exact .inr (.inr ⟨record.id, _, by rw [hentries, if_pos rfl], heq.symm⟩)
      · exact .inr (.inl hin)
    · refine .inr (.inr ⟨k, e, ?_, hke⟩)
      rw [hentries, if_neg fun hkid => hother k e hk (by rw [hkid])]
      exact hk
  · rw [hentries] at hk hk'
    split at hk
    · rename_i hkid
      split at hk'
      · rename_i hkid'
        rw [hkid, hkid']
      · exact absurd (hkid ▸ hname).symm (hother k' e' hk')
    · split at hk'
      · rename_i hkid'
        exact absurd (hkid' ▸ hname) (hother k e hk)
      · exact h.apart k k' e e' hk hk' hname

/-- A file that is not a record's leaves the listing. -/
theorem Indexed.skip {d : Disk} (hd : ∀ n, n ≠ name → d.files.lookup n = s.dir.files.lookup n)
    (hgone : name = localStoreLockFilename ∨ d.files.lookup name = none) :
    Indexed a strict { s with dir := d } rest := by
  refine ⟨h.used, fun k e hk => ?_, fun k e hk hin => h.fresh k e hk (mem_cons_of_mem _ hin),
    fun n g hg => ?_, h.apart⟩
  · obtain ⟨g, r, hb⟩ := h.backed k e hk
    exact ⟨g, r, hb.transfer rfl (hd _ fun heq => h.fresh k e hk (heq ▸ mem_cons_self))⟩
  · by_cases hn : n = name
    · subst hn
      rcases hgone with hlock | hnone
      · exact .inl hlock
      · exact absurd (hg.symm.trans hnone) (by simp)
    · change d.files.lookup n = some g at hg
      rw [hd n hn] at hg
      obtain hlock | hin | hentry := h.files n g hg
      · exact .inl hlock
      · exact .inr (.inl ((mem_cons.mp hin).resolve_left hn))
      · exact .inr (.inr hentry)

omit h in
theorem lookup_remove_ne (d : Disk) {n : Bytes} (h : n ≠ name) :
    (d.remove name).files.lookup n = d.files.lookup n := Finmap.lookup_erase_ne h

omit h in
/-- One entry of the directory, on the way to an open store. -/
theorem loadEntry_spec (h : OpenInv a strict s (name :: rest)) (hnd : name ∉ rest)
    (heq : loadEntry a now clock s name = (none, s')) : OpenInv a strict s' rest := by
  obtain ⟨rfl, hskip⟩ | ⟨-, -, rfl⟩ | ⟨f, record, hf, hok, hopen, hval, hname, hnew, hend⟩ :=
    loadEntry_cases heq
  · exact ⟨h.toIndexed.skip (fun _ _ => rfl) (hskip rfl), h.limit, h.count⟩
  · exact ⟨h.toIndexed.skip (fun n hn => lookup_remove_ne _ hn) (.inr (Finmap.lookup_erase _ _)),
      h.limit, h.count⟩
  · have hi := h.toIndexed.indexRecord hnd hf hok hopen hval hname hnew
    rcases hend with ⟨-, rfl, hl, hc⟩ | ⟨report, hprune⟩
    · exact ⟨hi, hl, hc⟩
    · obtain ⟨hi', hp, hmet⟩ := pruneToLocked_spec hi _ _ _ _ _ _ hprune
      obtain ⟨hl, hc⟩ := hmet rfl
      exact ⟨hi', hp.same.2.1 ▸ hl, hc⟩

/-- What an entry of the directory leaves alone, also when it ends in an error. -/
theorem loadEntry_frame (hnd : name ∉ rest) (heq : loadEntry a now clock s name = (err, s')) :
    s'.key = s.key ∧ s'.maxBytes = s.maxBytes ∧ s'.closed = s.closed ∧
      ∀ n g, s'.dir.files.lookup n = some g → s.dir.files.lookup n = some g := by
  obtain ⟨rfl, -⟩ | ⟨-, -, rfl⟩ | ⟨f, record, hf, hok, hopen, hval, hname, hnew, hend⟩ :=
    loadEntry_cases heq
  · exact ⟨rfl, rfl, rfl, fun _ _ hg => hg⟩
  · refine ⟨rfl, rfl, rfl, fun n g hg => ?_⟩
    change (s.dir.files.erase name).lookup n = some g at hg
    rw [lookup_erase_eq] at hg
    split at hg
    · cases hg
    · exact hg
  · have hi := h.indexRecord hnd hf hok hopen hval hname hnew
    rcases hend with ⟨-, rfl, -, -⟩ | ⟨report, hprune⟩
    · exact ⟨rfl, rfl, rfl, fun _ _ hg => hg⟩
    · obtain ⟨-, hp, -⟩ := pruneToLocked_spec hi _ _ _ _ _ _ hprune
      exact ⟨hp.same.1, hp.same.2.1, hp.same.2.2, hp.files⟩

omit h in
/-- The name of a record's file starts with a digit. -/
theorem localRecordFilename_not_temporary (id : Bytes) :
    localTemporaryPrefix.isPrefixOf (localRecordFilename id) = false := by
  have hlen := length_hexEncode (sha256 (localRecordPath id))
  unfold localRecordFilename
  cases hex : hexEncode (sha256 (localRecordPath id)) with
  | nil => rw [hex, length_sha256] at hlen; cases hlen
  | cons c cs =>
    have hc : c ∈ hexAlphabet := mem_hexEncode (hex ▸ mem_cons_self)
    have hne : (46 == c) = false := by
      have hpoint : (46 : UInt8) ∉ hexAlphabet := by decide
      exact beq_false_of_ne fun heq => hpoint (heq ▸ hc)
    change ((46 == c) && _) = false
    rw [hne, Bool.false_and]

/-- A record no prune may take goes through the loading of an entry, and through its failure. -/
theorem loadEntry_held (hnd : name ∉ rest) {f : File}
    {record : LocalRecord} (hsafe : record.Safe now) (hheld : Held a s (name :: rest) f record)
    (heq : loadEntry a now clock s name = (err, s')) :
    s'.dir.files.lookup (localRecordFilename record.id) = some f ∧
      (err = none → Held a s' rest f record) := by
  have hlater : localRecordFilename record.id ≠ name →
      localRecordFilename record.id ∈ rest ∨ ∃ entry, s.entries.lookup record.id = some entry :=
    fun hne => hheld.listed.imp_left fun hin => (mem_cons.mp hin).resolve_left hne
  obtain ⟨rfl, hskip⟩ | ⟨-, htemp, rfl⟩ | ⟨g, r, hg, hok, hopen, hval, hname, hnew, hend⟩ :=
    loadEntry_cases heq
  · refine ⟨hheld.file, fun hnone => ⟨hheld.file, hheld.opens, hlater ?_⟩⟩
    rintro rfl
    rcases hskip hnone with hlock | hmissing
    · exact localRecordFilename_ne_lock _ hlock
    · exact absurd (hheld.file.symm.trans hmissing) (by simp)
  · have hne : localRecordFilename record.id ≠ name := by
      rintro rfl
      simp [localRecordFilename_not_temporary] at htemp
    have hfile := (lookup_remove_ne s.dir hne).trans hheld.file
    exact ⟨hfile, fun _ => ⟨hfile, hheld.opens, hlater hne⟩⟩
  · have hi := h.indexRecord hnd hg hok hopen hval hname hnew
    have hheld' : Held a (s.indexRecord r name (localRecordCharge g.data.length)) rest f record := by
      refine ⟨hheld.file, hheld.opens, ?_⟩
      have hentries : ∀ k, (s.indexRecord r name (localRecordCharge g.data.length)).entries.lookup k =
          if k = r.id then some (metaFromRecord r name (localRecordCharge g.data.length))
          else s.entries.lookup k := fun k => lookup_insert_eq ..
      by_cases hown : localRecordFilename record.id = name
      · subst hown
        obtain rfl := Option.some.inj (hg.symm.trans hheld.file)
        obtain rfl := Except.ok.inj (hopen.symm.trans hheld.opens)
        exact .inr ⟨_, by rw [hentries, if_pos rfl]⟩
      · refine (hlater hown).imp_right ?_
        rintro ⟨entry, he⟩
        refine ⟨entry, ?_⟩
        rw [hentries, if_neg, he]
        rintro hid
        exact hown (by rw [hid, hname])
    rcases hend with ⟨-, rfl, -, -⟩ | ⟨report, hprune⟩
    · exact ⟨hheld.file, fun _ => hheld'⟩
    · obtain ⟨-, hp, -⟩ := pruneToLocked_spec hi _ _ _ _ _ _ hprune
      exact ⟨(hheld'.pruned hi hsafe hp).file, fun _ => hheld'.pruned hi hsafe hp⟩

omit h

/-- The whole listing. -/
theorem loadEntries_spec : ∀ {order : List Bytes} {s : EncryptedDiskStore},
    OpenInv a strict s order → order.Nodup → ∀ {err s'},
    loadEntries a now clock order s = (err, s') →
    (err = none → OpenInv a strict s' []) ∧ s'.key = s.key ∧ s'.maxBytes = s.maxBytes ∧
      s'.closed = s.closed ∧
      (∀ n g, s'.dir.files.lookup n = some g → s.dir.files.lookup n = some g) ∧
      ∀ f record, record.Safe now → Held a s order f record →
        s'.dir.files.lookup (localRecordFilename record.id) = some f ∧
        (err = none → Held a s' [] f record)
  | [], s, h, _, err, s', heq => by
    obtain ⟨rfl, rfl⟩ := Prod.mk.inj heq
    exact ⟨fun _ => h, rfl, rfl, rfl, fun _ _ hg => hg, fun _ _ _ hh => ⟨hh.file, fun _ => hh⟩⟩
  | name :: order, s, h, hnd, err, s', heq => by
    obtain ⟨hnot, hnd⟩ := nodup_cons.mp hnd
    unfold loadEntries at heq
    split at heq
    · rename_i e s1 hentry
      obtain ⟨rfl, rfl⟩ := Prod.mk.inj heq
      obtain ⟨hk, hm, hc, hfiles⟩ := loadEntry_frame h.toIndexed hnot hentry
      exact ⟨(fun hnone => nomatch hnone), hk, hm, hc, hfiles, fun f record hsafe hh =>
        ⟨(loadEntry_held h.toIndexed hnot hsafe hh hentry).1, (fun hnone => nomatch hnone)⟩⟩
    · rename_i s1 hentry
      obtain ⟨hk, hm, hc, hfiles⟩ := loadEntry_frame h.toIndexed hnot hentry
      obtain ⟨hinv, hk', hm', hc', hfiles', hheld⟩ :=
        loadEntries_spec (loadEntry_spec h hnot hentry) hnd heq
      exact ⟨hinv, hk'.trans hk, hm'.trans hm, hc'.trans hc,
        fun n g hg => hfiles n g (hfiles' n g hg), fun f record hsafe hh =>
        hheld f record hsafe ((loadEntry_held h.toIndexed hnot hsafe hh hentry).2 rfl)⟩

end

end Veilmesh.Client

/-
  A `Put` whose write fails (`client/store.go`, `node/store.go`).

  * `putWith_none`: without a fault this is the `Put` of the store model.
  * `putWith_early`, `putWith_late`: up to the rename a failing call leaves the entry and the
    file of the record alone; after it the new file stands beside the old entry.
  * `put_fault_iff`: index and directory of either store agree with what the failed `Put`
    reports just when the failing call is not one of the directory sync.
-/
import Veilmesh.Client.ReadBack
import Veilmesh.Node.AtomicWrite
import Veilmesh.Node.Durability

namespace Veilmesh.Client

open Lib Protocol Node EncryptedDiskStore

/-! ## The client's `Put` -/

/-- The client's helper; `random` is what `CreateTemp` puts at the end of the name. -/
def writeClientPrivateAtomic (fault : Option Fault) (random : Bytes) (d : Disk)
    (filename data : Bytes) : Option ClientStoreError × Disk :=
  match writeAtomic fault (localTemporaryPrefix ++ random) filename data d with
  | (text, d) => (text.map .io, d)

namespace EncryptedDiskStore

/-- `Put` with the given way to write a file. -/
def putWith (write : Disk → Bytes → Bytes → Option ClientStoreError × Disk) (a : Aead)
    (s : EncryptedDiskStore) (ctx : Context) (record : LocalRecord) (now : Time) (nonce : Bytes) :
    (PruneReport × Option ClientStoreError) × EncryptedDiskStore :=
  if ctx = .missing then ((.zero, some .contextRequired), s)
  else
    match ctx.err 0 with
    | some reason => ((.zero, some (.done reason)), s)
    | none =>
      let record := normalizeLocalRecord record
      match validateLocalRecord record now with
      | .error e => ((.zero, some e), s)
      | .ok () =>
        if s.closed then ((.zero, some .closed), s)
        else
          let filename := localRecordFilename record.id
          match sealRecord a s.key nonce record filename with
          | .error e => ((.zero, some e), s)
          | .ok encoded =>
            let newCharge := localRecordCharge encoded.length
            let old := s.entries.getD record.id .zero
            let targetBeforeWrite := s.maxBytes - newCharge + old.charge
            if targetBeforeWrite < 0 then ((.zero, some .storageFull), s)
            else
              let targetRecords :=
                if old.id = [] then maxClientStoreRecords - 1 else maxClientStoreRecords
              match s.pruneToLocked ctx 1 targetBeforeWrite targetRecords now record.id with
              | ((report, some e), s) => ((report, some e), s)
              | ((report, none), s) =>
                match write s.dir filename encoded with
                | (some e, d) => ((report, some e), { s with dir := d })
                | (none, d) => ((report, none), { s with
                    dir := d
                    used := s.used - old.charge + newCharge
                    entries := s.entries.insert record.id
                      (metaFromRecord record filename newCharge) })

/-- Entry and file of a record are those of before. -/
def SameRecord (s s' : EncryptedDiskStore) (id : Bytes) : Prop :=
  s'.entries.lookup id = s.entries.lookup id ∧
    s'.dir.files.lookup (localRecordFilename id) = s.dir.files.lookup (localRecordFilename id)

end EncryptedDiskStore

section

variable {a : Aead} {strict : Prop} {s : EncryptedDiskStore} {ctx : Context} {record : LocalRecord}
  {now : Time} {nonce : Bytes} {fault : Fault} {random : Bytes}

/-- The `Put` of the store model is the one whose write does not fail. -/
theorem put_eq_putWith (a : Aead) (s : EncryptedDiskStore) (ctx : Context) (record : LocalRecord)
    (now : Time) (nonce : Bytes) : s.put a ctx record now nonce =
      s.putWith (fun d name data => (none, d.write name data)) a ctx record now nonce := by
  unfold put putWith
  rfl

variable (h : Indexed a strict s [])

include h

/-- The store after the pruning, and what `Put` makes of it: an error, or the result of one
    write. -/
theorem putWith_cases (ctx : Context) (record : LocalRecord)
    (now : Time) (nonce : Bytes) : ∃ s1 report, Indexed a strict s1 [] ∧ Pruned now record.id s s1 ∧
    ((∃ e, ∀ write, s.putWith write a ctx record now nonce = ((report, some e), s1)) ∨
      ∃ encoded used entries, ∀ write, s.putWith write a ctx record now nonce =
        match write s1.dir (localRecordFilename record.id) encoded with
        | (some e, d) => ((report, some e), { s1 with dir := d })
        | (none, d) => ((report, none), { s1 with dir := d, used := used, entries := entries })) := by
  unfold putWith
  split
  · exact ⟨s, .zero, h, .refl _ _ _, .inl ⟨_, fun _ => rfl⟩⟩
  · split
    · exact ⟨s, .zero, h, .refl _ _ _, .inl ⟨_, fun _ => rfl⟩⟩
    · dsimp only
      split
      · exact ⟨s, .zero, h, .refl _ _ _, .inl ⟨_, fun _ => rfl⟩⟩
      · split
        · exact ⟨s, .zero, h, .refl _ _ _, .inl ⟨_, fun _ => rfl⟩⟩
        · split
          · exact ⟨s, .zero, h, .refl _ _ _, .inl ⟨_, fun _ => rfl⟩⟩
          · rename_i encoded hseal
            split
            · exact ⟨s, .zero, h, .refl _ _ _, .inl ⟨_, fun _ => rfl⟩⟩
            · split
              · rename_i report e s1 hprune
                obtain ⟨hi, hp, -⟩ := pruneToLocked_spec h _ _ _ _ _ _ hprune
                exact ⟨s1, report, hi, hp, .inl ⟨e, fun _ => rfl⟩⟩
              · rename_i report s1 hprune
                obtain ⟨hi, hp, -⟩ := pruneToLocked_spec h _ _ _ _ _ _ hprune
                exact ⟨s1, report, hi, hp, .inr ⟨encoded, _, _, fun _ => rfl⟩⟩

omit h in
/-- The name of a record's file is not that of a temporary one. -/
theorem filename_ne_temporary (id random : Bytes) :
    localRecordFilename id ≠ localTemporaryPrefix ++ random := by
  intro heq
  have hnot := localRecordFilename_not_temporary id
  rw [heq, List.isPrefixOf_iff_prefix.mpr (List.prefix_append _ _)] at hnot
  cases hnot

/-- No directory has the name of a record's file. -/
theorem Indexed.not_directory (id : Bytes) :
    (s.dir.files.lookup (localRecordFilename id)).any (·.kind == .directory) = false := by
  cases hf : s.dir.files.lookup (localRecordFilename id) with
  | none => rfl
  | some f =>
    obtain hlock | hrest | ⟨k, entry, hk, hname⟩ := h.files _ _ hf
    · exact absurd hlock (localRecordFilename_ne_lock id)
    · exact absurd hrest List.not_mem_nil
    · obtain ⟨g, r, hb⟩ := h.backed k entry hk
      have hfile := hb.file
      rw [hname, hf] at hfile
      have hok := hb.fileOk
      rw [← Option.some.inj hfile] at hok
      have hregular : f.kind = .regular := by
        simp only [recordFileOk, Bool.and_eq_true, beq_iff_eq] at hok
        exact hok.1.1.1
      rw [Option.any_some, hregular]
      rfl

omit h in
/-- Pruning leaves the file of the excluded record alone. -/
theorem Pruned.same_record {s' : EncryptedDiskStore} (hp : Pruned now record.id s s')
    (hfree : ∀ id entry, s.entries.lookup id = some entry →
      localRecordFilename id = localRecordFilename record.id → id = record.id) :
    s.SameRecord s' record.id := by
  refine ⟨hp.lookup_excluded, hp.frame _ fun id entry hs hs' hname => ?_⟩
  exact (hp.gone id entry hs hs').2 (hfree id entry hs hname)

omit h in
theorem Pruned.lookup_none {s' : EncryptedDiskStore} {name : Bytes}
    (hp : Pruned now record.id s s') (hnone : s.dir.files.lookup name = none) :
    s'.dir.files.lookup name = none := by
  refine Option.eq_none_iff_forall_ne_some.mpr fun f hf => ?_
  rw [hp.files name f hf] at hnone
  cases hnone

variable (hnew : s.dir.files.lookup (localTemporaryPrefix ++ random) = none)

include hnew

/-- Without a fault this is the `Put` of the store model. -/
theorem putWith_none : s.putWith (writeClientPrivateAtomic none random) a ctx record now nonce =
      s.put a ctx record now nonce := by
  rw [put_eq_putWith]
  obtain ⟨s1, report, hi, hp, ⟨e, hcase⟩ | ⟨encoded, used, entries, hcase⟩⟩ :=
    putWith_cases h ctx record now nonce
  · rw [hcase, hcase]
  · rw [hcase, hcase, writeClientPrivateAtomic,
      writeAtomic_none (hp.lookup_none hnew) (filename_ne_temporary _ _), hi.not_directory,
      if_neg Bool.false_ne_true]
    rfl

/-- Where the fault comes up to the rename, the `Put` has pruned and nothing else. -/
theorem putWith_early (hcall : ¬ fault.call.AfterRename) : ∃ report e s1, Indexed a strict s1 [] ∧
    Pruned now record.id s s1 ∧
    s.putWith (writeClientPrivateAtomic (some fault) random) a ctx record now nonce =
      ((report, some e), s1) := by
  obtain ⟨s1, report, hi, hp, ⟨e, hcase⟩ | ⟨encoded, used, entries, hcase⟩⟩ :=
    putWith_cases h ctx record now nonce
  · exact ⟨report, e, s1, hi, hp, hcase _⟩
  · refine ⟨report, .io fault.text, s1, hi, hp, ?_⟩
    rw [hcase, writeClientPrivateAtomic, writeAtomic_early (hp.lookup_none hnew) hcall]
    rfl

/-- A `Put` that would succeed fails with any fault; where the fault comes after the rename,
    it leaves the directory of the `Put` that succeeds and the entry of before. -/
theorem putWith_late {report : PruneReport}
    {t : EncryptedDiskStore} (hput : s.put a ctx record now nonce = ((report, none), t)) :
    ∃ s1, s.putWith (writeClientPrivateAtomic (some fault) random) a ctx record now nonce =
      ((report, some (.io fault.text)), s1) ∧ (fault.call.AfterRename → s1.dir = t.dir) := by
  rw [put_eq_putWith] at hput
  obtain ⟨s1, r, hi, hp, ⟨e, hcase⟩ | ⟨encoded, used, entries, hcase⟩⟩ :=
    putWith_cases h ctx record now nonce
  · rw [hcase] at hput
    cases hput
  · rw [hcase] at hput
    cases hput
    rw [hcase, writeClientPrivateAtomic]
    by_cases hcall : fault.call.AfterRename
    · rw [writeAtomic_late (hp.lookup_none hnew) (filename_ne_temporary _ _) hcall
        (hi.not_directory _)]
      exact ⟨_, rfl, fun _ => rfl⟩
    · rw [writeAtomic_early (hp.lookup_none hnew) hcall]
      exact ⟨_, rfl, fun hlate => absurd hlate hcall⟩

end

/-! ## Both stores -/

/-- A call of the atomic write fails. Up to the rename the node's store is left as it was, and
    the client's index and directory agree and hold the record as before. Where the `Put` would
    have changed the record's file, it returns the error, and entry and file are those of before
    just when the failing call is not one of the directory sync. -/
theorem put_fault_iff (fault : Fault) (random : Bytes) :
    (∀ (s : DiskStore) (now : Time) (item : StoredItem),
      s.dir.files.lookup (temporaryPrefix ++ itemFile item.itemID ++ lit "-" ++ random) = none →
      (¬ fault.call.AfterRename →
        (s.putWith (writePrivateAtomicWith (some fault) random) now item).2 = s) ∧
      ∀ t, s.put now item = (.ok (), t) →
        t.dir.files.lookup (itemFile item.itemID) ≠ s.dir.files.lookup (itemFile item.itemID) →
        ∃ s1, s.putWith (writePrivateAtomicWith (some fault) random) now item =
          (.error (.io fault.text), s1) ∧
        (s.SameItem s1 item.itemID ↔ ¬ fault.call.AfterRename)) ∧
    ∀ (a : Aead) (strict : Prop) (s : EncryptedDiskStore) (ctx : Context) (record : LocalRecord)
      (now : Time) (nonce : Bytes), Indexed a strict s [] →
      (∀ id entry, s.entries.lookup id = some entry →
        localRecordFilename id = localRecordFilename record.id → id = record.id) →
      s.dir.files.lookup (localTemporaryPrefix ++ random) = none →
      (¬ fault.call.AfterRename → ∃ report e s1,
        s.putWith (writeClientPrivateAtomic (some fault) random) a ctx record now nonce =
          ((report, some e), s1) ∧ Indexed a strict s1 [] ∧ s.SameRecord s1 record.id) ∧
      ∀ report t, s.put a ctx record now nonce = ((report, none), t) →
        t.dir.files.lookup (localRecordFilename record.id) ≠
          s.dir.files.lookup (localRecordFilename record.id) →
        ∃ s1, s.putWith (writeClientPrivateAtomic (some fault) random) a ctx record now nonce =
          ((report, some (.io fault.text)), s1) ∧
        (s.SameRecord s1 record.id ↔ ¬ fault.call.AfterRename) := by
  refine ⟨fun s now item hnew => ⟨Node.putWith_early hnew, fun t hput hchanged => ?_⟩,
    fun a strict s ctx record now nonce h hfree hnew =>
      ⟨fun hcall => ?_, fun report t hput hchanged => ?_⟩⟩
  · obtain ⟨s1, hfault, hlate⟩ := Node.putWith_late hnew hput fun hdir => hchanged (by rw [hdir])
    refine ⟨s1, hfault, fun hsame hcall => ?_, fun hcall => ?_⟩
    · exact hchanged ((hlate hcall) ▸ hsame.2)
    · have hearly := @Node.putWith_early s now item fault random hnew hcall
      rw [hfault] at hearly
      subst hearly
      exact ⟨rfl, rfl⟩
  · obtain ⟨report, e, s1, hi, hp, hfault⟩ := putWith_early h hnew hcall
    exact ⟨report, e, s1, hfault, hi, hp.same_record hfree⟩
  · obtain ⟨s1, hfault, hlate⟩ := putWith_late h hnew hput
    refine ⟨s1, hfault, fun hsame hcall => ?_, fun hcall => ?_⟩
    · exact hchanged ((hlate hcall) ▸ hsame.2)
    · obtain ⟨r, e, s2, -, hp, hearly⟩ := putWith_early h hnew hcall
      rw [hfault] at hearly
      cases hearly
      exact hp.same_record hfree

/-! ### One item and one record -/

/-- A call that fails with the error of a broken disk. -/
def brokenDisk (call : WriteCall) : Fault := ⟨call, 0, lit "input/output error"⟩

theorem sampleStore_new (name random : Bytes) :
    sampleStore.dir.files.lookup (temporaryPrefix ++ name ++ lit "-" ++ random) = none := by
  refine (Finmap.lookup_insert_of_ne _ fun heq => ?_).trans (Finmap.lookup_empty _)
  -- the second letters of the two names
  have hletter : (112 : UInt8) = 110 := congrArg (fun name => List.getD name 1 0) heq
  exact absurd hletter (by decide)

/-- The early item is put as a new file. -/
theorem sampleStore_put : ∃ t, sampleStore.put Time.epoch earlyItem = (.ok (), t) ∧
    t.dir.files.lookup (itemFile earlyItem.itemID) ≠
      sampleStore.dir.files.lookup (itemFile earlyItem.itemID) := by
  obtain ⟨data, hd, hl⟩ := marshal_earlyItem
  refine ⟨_, sample_put_early hd hl, fun heq => ?_⟩
  rw [show sampleStore.dir.files.lookup (itemFile earlyItem.itemID) = none from
    sample_fresh_file _] at heq
  exact absurd (heq.symm.trans (Finmap.lookup_insert _)) (by simp)

theorem freshStore_file (id : Bytes) :
    (freshStore sampleKey).dir.files.lookup (localRecordFilename id) = none :=
  (Finmap.lookup_insert_of_ne _ (localRecordFilename_ne_lock id)).trans (Finmap.lookup_empty _)

theorem freshStore_new :
    (freshStore sampleKey).dir.files.lookup (localTemporaryPrefix ++ lit "1") = none :=
  (Finmap.lookup_insert_of_ne _ (by decide)).trans (Finmap.lookup_empty _)

/-- The sample record is put as a new file. -/
theorem freshStore_put : ∃ t, (freshStore sampleKey).put plainAead .background
      (sampleLocalRecord 0) Time.epoch sampleNonce = ((.zero, none), t) ∧
    t.dir.files.lookup (localRecordFilename (lit "note")) ≠
      (freshStore sampleKey).dir.files.lookup (localRecordFilename (lit "note")) := by
  obtain ⟨t, f, hput, -, -, hst⟩ := @sample_put 0 (.inl rfl)
  have hf : t.dir.files.lookup (localRecordFilename (lit "note")) = some f := hst.file
  refine ⟨t, hput, ?_⟩
  rw [hf, freshStore_file]
  exact Option.some_ne_none f

/-- The sync of the directory fails: both stores report an error and keep a file that was not
    there before. -/
theorem put_fault_sync :
    (∃ e s1, sampleStore.putWith (writePrivateAtomicWith (some (brokenDisk .syncDirectory))
        (lit "1")) Time.epoch earlyItem = (.error e, s1) ∧
      ¬ sampleStore.SameItem s1 earlyItem.itemID) ∧
    ∃ report e s1, (freshStore sampleKey).putWith (writeClientPrivateAtomic
        (some (brokenDisk .syncDirectory)) (lit "1")) plainAead .background (sampleLocalRecord 0)
        Time.epoch sampleNonce = ((report, some e), s1) ∧
      ¬ (freshStore sampleKey).SameRecord s1 (lit "note") := by
  have hcall : (brokenDisk .syncDirectory).call.AfterRename := .inr rfl
  refine ⟨?_, ?_⟩
  · obtain ⟨t, hput, hchanged⟩ := sampleStore_put
    obtain ⟨s1, hfault, hlate⟩ := Node.putWith_late (sampleStore_new _ (lit "1")) hput
      fun hdir => hchanged (by rw [hdir])
    exact ⟨_, s1, hfault, fun hsame => hchanged ((hlate hcall) ▸ hsame.2)⟩
  · obtain ⟨t, hput, hchanged⟩ := freshStore_put
    obtain ⟨s1, hfault, hlate⟩ := putWith_late (good_fresh.opened rfl).2.toIndexed
      freshStore_new hput
    exact ⟨_, _, s1, hfault, fun hsame => hchanged ((hlate hcall) ▸ hsame.2)⟩

/-- With a rename that fails, both report the error and have nothing new. -/
theorem put_fault_rename :
    (∃ s1, sampleStore.putWith (writePrivateAtomicWith (some (brokenDisk .rename)) (lit "1"))
        Time.epoch earlyItem = (.error (.io (lit "input/output error")), s1) ∧
      sampleStore.SameItem s1 earlyItem.itemID) ∧
    ∃ s1, (freshStore sampleKey).putWith (writeClientPrivateAtomic (some (brokenDisk .rename))
        (lit "1")) plainAead .background (sampleLocalRecord 0) Time.epoch sampleNonce =
        ((.zero, some (.io (lit "input/output error"))), s1) ∧
      (freshStore sampleKey).SameRecord s1 (lit "note") := by
  have hcall : ¬ (brokenDisk .rename).call.AfterRename := by decide
  have h := put_fault_iff (brokenDisk .rename) (lit "1")
  refine ⟨?_, ?_⟩
  · obtain ⟨t, hput, hchanged⟩ := sampleStore_put
    obtain ⟨s1, hfault, hiff⟩ := (h.1 _ _ _ (sampleStore_new _ _)).2 t hput hchanged
    exact ⟨s1, hfault, hiff.mpr hcall⟩
  · obtain ⟨t, hput, hchanged⟩ := freshStore_put
    have hfree : ∀ id entry, (freshStore sampleKey).entries.lookup id = some entry →
        localRecordFilename id = localRecordFilename (lit "note") → id = lit "note" :=
      fun id entry hk => nomatch (Finmap.lookup_empty id).symm.trans hk
    obtain ⟨s1, hfault, hiff⟩ := (h.2 _ _ _ _ _ _ _ (good_fresh.opened rfl).2.toIndexed hfree
      freshStore_new).2 _ t hput hchanged
    exact ⟨s1, hfault, hiff.mpr hcall⟩

end Veilmesh.Client

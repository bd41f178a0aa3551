/-
  Reading back what was put.

  Between a `Put` and a later `Get` of the same ID lie any calls, the store may be closed and
  opened again, and other records may be put, deleted and pruned. As long as no other `Put`
  of the ID succeeds, the file under its name is the one that was written, or gone.

  * `run_file`: the file of an ID over a run.
  * `Stored.get_iff`: what a `Get` of a stored record gives.
  * `get_put_iff`: `Get` returns the normalised record, unless it was put with a zero expiry
    that its text cannot show; and no valid record is too long for a file.
-/
import Veilmesh.Client.StoreRun

namespace Veilmesh.Client

open Lib
open Node (File FileKind Disk)

/-- A `Put` of the ID that succeeds. -/
def StoreEvent.Replaces (a : Aead) (id : Bytes) (s : EncryptedDiskStore) : StoreEvent → Prop
  | .put ctx record now nonce =>
    record.id = id ∧ (s.put a ctx record now nonce).1.2 = none
  | _ => False

section

variable {a : Aead} {strict : Prop} {directory key : Bytes} {ids : Set Bytes}
  {s s' : EncryptedDiskStore} {record : LocalRecord} {f : File} {ctx : Context} {clock now : Time}
  {id : Bytes}

theorem StoreEvent.not_replaces (e : StoreEvent) (s : EncryptedDiskStore)
    (h : e.target ≠ some id) : ¬ e.Replaces a id s := by
  cases e with
  | put ctx record now nonce => exact fun hr => h (congrArg some hr.1)
  | _ => exact fun hr => hr

variable (hsha : Set.InjOn sha256 (Set.image localRecordPath ids))

include hsha

/-- A call that does not replace a record leaves its file as it is, or without it. -/
theorem step_file {e : StoreEvent} (hid : id ∈ ids) (h : Good a strict key ids s) (hwithin : e.Within ids)
    (hstep : Step a directory key s e s') (hnot : ¬ e.Replaces a id s) {g : File}
    (hg : s'.dir.files.lookup (localRecordFilename id) = some g) :
    s.dir.files.lookup (localRecordFilename id) = some g := by
  by_cases htarget : e.target = some id
  · cases e with
    | put ctx record now nonce =>
      -- a `Put` of the ID that fails may have pruned, but not written
      cases hclosed : s.closed with
      | true =>
        rw [hstep.2, StoreEvent.apply, put_closed hclosed] at hg
        exact hg
      | false =>
        obtain ⟨⟨report, err⟩, t, heq⟩ : ∃ x t, s.put a ctx record now nonce = (x, t) :=
          ⟨_, _, rfl⟩
        rw [hstep.2, StoreEvent.apply, heq] at hg
        obtain ⟨-, -, hp⟩ | ⟨rfl, -⟩ := put_cases (h.opened hclosed).2.toIndexed heq
        · exact hp.files _ g hg
        · exact absurd ⟨Option.some.inj htarget, congrArg (fun x => x.1.2) heq⟩ hnot
    | _ => exact step_files h hstep (localRecordFilename_ne_lock id) (by rintro _ _ _ _ ⟨⟩) hg
  · refine step_files h hstep (localRecordFilename_ne_lock id) ?_ hg
    rintro ctx r now nonce rfl hname
    exact htarget (congrArg some (localRecordFilename_inj hsha hwithin hid hname))

theorem run_file {es : List StoreEvent} (hid : id ∈ ids)
    (hrun : Run (fun t e t' => Step a directory key t e t' ∧ ¬ e.Replaces a id t) s es s')
    (hwithin : ∀ e ∈ es, e.Within ids) (h : Good a False key ids s) {g : File}
    (hg : s'.dir.files.lookup (localRecordFilename id) = some g) :
    s.dir.files.lookup (localRecordFilename id) = some g := by
  refine (hrun.invariant_of (I := fun t => Good a False key ids t ∧
      ∀ g, t.dir.files.lookup (localRecordFilename id) = some g →
        s.dir.files.lookup (localRecordFilename id) = some g)
    (P := fun e => e.Within ids) ?_ hwithin ⟨h, fun _ hg => hg⟩).2 g hg
  rintro t e t' ⟨ht, hfiles⟩ hw ⟨hstep, hnot⟩
  exact ⟨(step_good hsha ht hw (fun hf => hf.elim) hstep).1,
    fun g hg => hfiles g (step_file hsha hid ht hw hstep hnot hg)⟩

/-- In an open store a file with a record's name is one of an entry. -/
theorem Good.listed (h : Good a strict key ids s) (hopen : s.closed = false) (hid : id ∈ ids)
    (hf : s.dir.files.lookup (localRecordFilename id) = some f) :
    ∃ entry, s.entries.lookup id = some entry := by
  obtain hlock | hin | ⟨id', entry, he, hname⟩ := (h.opened hopen).2.files _ f hf
  · exact absurd hlock (localRecordFilename_ne_lock id)
  · exact absurd hin List.not_mem_nil
  · obtain rfl := localRecordFilename_inj hsha (h.entry_mem hopen he) hid hname
    exact ⟨entry, he⟩

omit hsha

/-- The text of a normalised record shows it as it is but for a zero expiry in a zone. -/
theorem normalizeLocalRecord_shown_iff (record : LocalRecord) :
    (normalizeLocalRecord record).shown = normalizeLocalRecord record ↔
      (record.expiresAt.isZero = true → record.expiresAt.off % 60 = 0) := by
  constructor
  · intro hshown hzero
    have hexp : (normalizeLocalRecord record).expiresAt = record.expiresAt := if_pos hzero
    rw [← Time.shown_ns_eq_iff, ← hexp]
    exact congrArg (fun r : LocalRecord => r.expiresAt.ns) hshown
  · intro hminutes
    have hoff : (normalizeLocalRecord record).expiresAt.off % 60 = 0 := by
      rcases normalizeLocalRecord_expiresAt record with hoff | ⟨heq, hzero⟩
      · rw [hoff]
        rfl
      · rw [heq]
        exact hminutes hzero
    rw [LocalRecord.shown, Time.shown_of_minutes hoff]

/-- What a `Get` of a stored record gives. -/
theorem Stored.get_iff (hst : Stored a key s f (normalizeLocalRecord record).shown)
    (h : Good a strict key ids s) (hopen : s.closed = false) (hctx : ctx ≠ .missing)
    (herr : ctx.err 0 = none)
    (hval : validateLocalRecord (normalizeLocalRecord record) clock = .ok ()) :
    s.get a ctx record.id clock = .ok (normalizeLocalRecord record) ↔
      (record.expiresAt.isZero = true → record.expiresAt.off % 60 = 0) := by
  rw [← normalizeLocalRecord_shown_iff]
  constructor
  · intro hget
    obtain ⟨g, hg, hopens⟩ := get_file h hget
    obtain rfl := Option.some.inj (hst.file.symm.trans hg)
    exact Except.ok.inj (hst.opens.symm.trans hopens)
  · intro hshown
    rw [hshown] at hst
    exact hst.get h hopen hctx herr hval

end

/-- A record that was put is read back in its normalised form, by every `Get` while its file is
    there and no other `Put` of its ID has succeeded, through any calls on the store and any
    new openings of it, if and only if a zero expiry is shown at an offset of whole minutes.
    No valid record whose times have a text is too long for a file. -/
theorem get_put_iff (a : Aead) (directory key : Bytes) {d : Disk} {ids : Set Bytes}
    (hsha : Set.InjOn sha256 (Set.image localRecordPath ids)) (hknown : Known a key ids d)
    {es es' : List StoreEvent} {s s1 s2 : EncryptedDiskStore}
    (hwithin : ∀ e ∈ es ++ es', e.Within ids) (hrun : Run (Step a directory key) (shut d) es s)
    -- the call that puts the record
    {ctx : Context} {record : LocalRecord} {now : Time} {nonce : Bytes} {report : PruneReport}
    (hid : record.id ∈ ids) (hnonce : nonce.length = gcmNonceBytes)
    (hput : s.put a ctx record now nonce = ((report, none), s1))
    -- the calls after it
    (hrun' : Run (fun t e t' => Step a directory key t e t' ∧ ¬ e.Replaces a record.id t) s1 es' s2)
    (hopen : s2.closed = false) (hkept : s2.dir.files.lookup (localRecordFilename record.id) ≠ none)
    -- the call that gets it
    {ctx' : Context} {clock : Time} (hctx : ctx' ≠ .missing) (herr : ctx'.err 0 = none)
    (hclock : now.ns ≤ clock.ns) :
    (s2.get a ctx' record.id clock = .ok (normalizeLocalRecord record) ↔
      (record.expiresAt.isZero = true → record.expiresAt.off % 60 = 0)) ∧
    ∀ (key nonce filename : Bytes) (record : LocalRecord) (now : Time),
      validateLocalRecord record now = .ok () → key.length = aesKeyBytes →
      nonce.length = gcmNonceBytes → record.createdAt.marshalText ≠ none →
      record.updatedAt.marshalText ≠ none → record.expiresAt.marshalText ≠ none →
      ∃ encoded, sealRecord a key nonce record filename = .ok encoded := by
  have hgood : Good a False key ids s := run_good hsha hrun
    (fun e he => hwithin e (List.mem_append_left _ he)) (fun h => h.elim) (good_shut hknown)
  have hwithin' : ∀ e ∈ es', e.Within ids := fun e he => hwithin e (List.mem_append_right _ he)
  obtain ⟨hval, hgood1, f, hst⟩ := put_stored hsha hgood hnonce hid hput
  have hgood2 : Good a False key ids s2 :=
    run_good hsha (Run.mono (fun _ _ _ h => h.1) hrun') hwithin' (fun h => h.elim) hgood1
  refine ⟨?_, fun key nonce filename record now hval hkey hnonce hc hu he => ?_⟩
  · obtain ⟨g, hg⟩ := Option.ne_none_iff_exists'.mp hkept
    obtain rfl := Option.some.inj (hst.file.symm.trans (run_file hsha hid hrun' hwithin' hgood1 hg))
    have hst2 : Stored a key s2 f (normalizeLocalRecord record).shown :=
      ⟨hg, hst.opens, fun _ => hgood2.listed hsha hopen hid hg⟩
    exact hst2.get_iff hgood2 hopen hctx herr (validateLocalRecord_later hval hclock)
  · obtain ⟨created, hc⟩ := Option.ne_none_iff_exists'.mp hc
    obtain ⟨updated, hu⟩ := Option.ne_none_iff_exists'.mp hu
    obtain ⟨expires, he⟩ := Option.ne_none_iff_exists'.mp he
    exact sealRecord_writes a filename hval hkey hnonce hc hu he

/-! ### One record -/

theorem run_fresh : Run (Step plainAead (lit "store") sampleKey) (shut ⟨true, ∅⟩)
    [.reopen 0 Time.epoch [localStoreLockFilename] fun _ => Time.epoch] (freshStore sampleKey) :=
  .single sample_opened

theorem within_fresh : ∀ e ∈ [StoreEvent.reopen 0 Time.epoch [localStoreLockFilename]
    fun _ => Time.epoch], e.Within {lit "note"} := by
  intro e he
  rw [List.mem_singleton.mp he]
  trivial

theorem good_fresh : Good plainAead False sampleKey {lit "note"} (freshStore sampleKey) :=
  run_good injOn_singleton_note run_fresh within_fresh (fun h => h.elim)
    (good_shut (known_empty _ _ _))

/-- The sample record can be put into a store just opened. -/
theorem sample_put {off : Int} (hoff : off = 0 ∨ off = 28) : ∃ s1 f,
    (freshStore sampleKey).put plainAead .background (sampleLocalRecord off) Time.epoch
      sampleNonce = ((.zero, none), s1) ∧ s1.closed = false ∧
    Good plainAead False sampleKey {lit "note"} s1 ∧
    Stored plainAead sampleKey s1 f (normalizeLocalRecord (sampleLocalRecord off)).shown := by
  obtain ⟨hval, encoded, hseal⟩ := sample_sealed hoff
  have hput := put_fresh plainAead hval hseal
  have hid : (sampleLocalRecord off).id ∈ ({lit "note"} : Set Bytes) := rfl
  obtain ⟨-, hgood1, f, hst⟩ := put_stored injOn_singleton_note good_fresh (by decide) hid hput
  exact ⟨_, f, hput, rfl, hgood1, hst⟩

/-- With a zero expiry at an offset of 28 seconds the `Put` succeeds, and the `Get` right after
    it does not return the record. -/
theorem get_put_zero_expiry : ∃ s s1,
    Run (Step plainAead (lit "store") sampleKey) (shut ⟨true, ∅⟩)
      [.reopen 0 Time.epoch [localStoreLockFilename] fun _ => Time.epoch] s ∧
    s.put plainAead .background (sampleLocalRecord 28) Time.epoch sampleNonce =
      ((.zero, none), s1) ∧ s1.closed = false ∧
    s1.dir.files.lookup (localRecordFilename (lit "note")) ≠ none ∧
    s1.get plainAead .background (lit "note") Time.epoch ≠
      .ok (normalizeLocalRecord (sampleLocalRecord 28)) := by
  obtain ⟨s1, f, hput, hopen, hgood, hst⟩ := @sample_put 28 (.inr rfl)
  refine ⟨_, s1, run_fresh, hput, hopen, ?_, fun hget => ?_⟩
  · exact Option.ne_none_iff_exists'.mpr ⟨f, hst.file⟩
  · have hminutes := (hst.get_iff hgood hopen (by simp) rfl rfl).mp hget rfl
    exact absurd hminutes (by decide)

theorem get_put_note : ∃ s s1,
    Run (Step plainAead (lit "store") sampleKey) (shut ⟨true, ∅⟩)
      [.reopen 0 Time.epoch [localStoreLockFilename] fun _ => Time.epoch] s ∧
    s.put plainAead .background (sampleLocalRecord 0) Time.epoch sampleNonce =
      ((.zero, none), s1) ∧
    s1.get plainAead .background (lit "note") (Time.epoch.add hour) =
      .ok (normalizeLocalRecord (sampleLocalRecord 0)) := by
  obtain ⟨s1, f, hput, hopen, -, hst⟩ := sample_put (.inl rfl)
  have hid : (sampleLocalRecord 0).id ∈ ({lit "note"} : Set Bytes) := rfl
  refine ⟨_, s1, run_fresh, hput, ?_⟩
  exact (get_put_iff plainAead (lit "store") sampleKey injOn_singleton_note (known_empty _ _ _)
    (List.append_nil _ ▸ within_fresh) run_fresh hid (by decide) hput (.nil s1) hopen
    (Option.ne_none_iff_exists'.mpr ⟨f, hst.file⟩) (by simp) rfl (by decide)).1.mpr fun _ => rfl

end Veilmesh.Client

/-
  Runs of the client's record store.

  The state of a run is the store together with its directory; a closed store is what is
  left after `Close`, after a failed start and before the first start. `StoreEvent` lists
  the calls with all they take from outside, `Step` is one call. Two IDs of a run are taken
  to have different file names (`Set.InjOn sha256` on the hashed paths).

  * `step_good`, `run_good`: what holds of every state.
  * `reachable_accounts`: the accounts of every open store of a run in which no record is
    put with a zero expiry that its text cannot show.
  * `protected_records_kept`: no prune takes a protected record.
-/
import Veilmesh.Client.StoreOps
import Veilmesh.Lib.Run

namespace Veilmesh.Client

open Lib EncryptedDiskStore Finmap List
open Node (File FileKind Disk)

/-! ## Calls -/

inductive StoreEvent where
  | put (ctx : Context) (record : LocalRecord) (now : Time) (nonce : Bytes)
  | get (ctx : Context) (id : Bytes) (clock : Time)
  | delete (ctx : Context) (id : Bytes)
  | pruneTo (ctx : Context) (targetBytes : Int) (now : Time)
  | setLimit (ctx : Context) (maxBytes : Int) (now : Time)
  | close
  | reopen (maxBytes : Int) (now : Time) (order : List Bytes) (clock : Bytes → Time)

namespace StoreEvent

/-- The time a call is made with. -/
def now : StoreEvent → Option Time
  | .put _ _ now _ | .pruneTo _ _ now | .setLimit _ _ now | .reopen _ now _ _ => some now
  | _ => none

/-- The ID a call writes or deletes. -/
def target : StoreEvent → Option Bytes
  | .put _ record _ _ => some record.id
  | .delete _ id => some id
  | _ => none

/-- The IDs put are among `ids`. -/
def Within (ids : Set Bytes) : StoreEvent → Prop
  | .put _ record _ _ => record.id ∈ ids
  | _ => True

/-- A zero expiry put is at an offset of whole minutes, as its text will show it. -/
def Shows : StoreEvent → Prop
  | .put _ record _ _ => record.expiresAt.isZero = true → record.expiresAt.off % 60 = 0
  | _ => True

/-- Nonces have their length, and a listing of the directory gives each name once. -/
def Possible (s : EncryptedDiskStore) : StoreEvent → Prop
  | .put _ _ _ nonce => nonce.length = gcmNonceBytes
  | .reopen _ _ order _ => order.Nodup ∧ ∀ name, name ∈ order ↔
      name ∈ (EncryptedDiskStore.acquireClientStoreLock s.dir (!s.closed)).2.files.keys
  | _ => True

/-- The state a call leaves, whether it succeeds or fails. -/
def apply (a : Aead) (directory key : Bytes) (s : EncryptedDiskStore) :
    StoreEvent → EncryptedDiskStore
  | .put ctx record now nonce => (s.put a ctx record now nonce).2
  | .get _ _ _ => s
  | .delete ctx id => (s.delete ctx id).2
  | .pruneTo ctx targetBytes now => (s.pruneTo ctx targetBytes now).2
  | .setLimit ctx maxBytes now => (s.setLimit ctx maxBytes now).2
  | .close => s.close
  | .reopen maxBytes now order clock =>
    match newEncryptedDiskStore a s.dir (!s.closed) ⟨directory, key, maxBytes⟩ now order clock with
    | (.error _, d) => { s with dir := d }
    | (.ok opened, _) => opened

end StoreEvent

/-- One call on the store of a directory, or the opening of one, under a fixed key. -/
def Step (a : Aead) (directory key : Bytes) (s : EncryptedDiskStore) (e : StoreEvent)
    (s' : EncryptedDiskStore) : Prop :=
  e.Possible s ∧ s' = e.apply a directory key s

/-- A directory with no store open on it. -/
def shut (d : Disk) : EncryptedDiskStore := ⟨d, [], 0, 0, ∅, true⟩

/-- Records found in the directory under their own names have IDs among `ids`. -/
def Known (a : Aead) (key : Bytes) (ids : Set Bytes) (d : Disk) : Prop :=
  ∀ name f record, d.files.lookup name = some f → openRecord a key name f.data = .ok record →
    localRecordFilename record.id = name → record.id ∈ ids

/-- The invariant of a run. -/
structure Good (a : Aead) (strict : Prop) (key : Bytes) (ids : Set Bytes)
    (s : EncryptedDiskStore) : Prop where
  known : Known a key ids s.dir
  opened : s.closed = false → s.key = key ∧ OpenInv a strict s []

/-- The record is in the directory, in the file `f`, and an open store has an entry for it. -/
structure Stored (a : Aead) (key : Bytes) (s : EncryptedDiskStore) (f : File)
    (record : LocalRecord) : Prop where
  file : s.dir.files.lookup (localRecordFilename record.id) = some f
  opens : openRecord a key (localRecordFilename record.id) f.data = .ok record
  listed : s.closed = false → ∃ entry, s.entries.lookup record.id = some entry

section

variable {a : Aead} {strict : Prop} {directory key : Bytes} {ids : Set Bytes}
  {s s' : EncryptedDiskStore}
  {d d' : Disk} {id nonce : Bytes} {f : File} {record : LocalRecord} {now : Time}
  {ctx : Context} {maxBytes : Int} {order : List Bytes}

theorem Known.subset (h : Known a key ids d)
    (hsub : ∀ n g, d'.files.lookup n = some g → d.files.lookup n = some g) : Known a key ids d' :=
  fun name f record hf => h name f record (hsub name f hf)

/-- A new lock file is no record. -/
theorem Known.lock (h : Known a key ids d)
    (hsub : ∀ n g, n ≠ localStoreLockFilename → d'.files.lookup n = some g →
      d.files.lookup n = some g) : Known a key ids d' := by
  intro name f record hf hopen hname
  refine h name f record (hsub name f ?_ hf) hopen hname
  rintro rfl
  exact localRecordFilename_ne_lock _ hname

theorem Good.entry_mem (h : Good a strict key ids s) (hopen : s.closed = false)
    {entry : LocalRecordMeta} (he : s.entries.lookup id = some entry) : id ∈ ids := by
  obtain ⟨hkey, hinv⟩ := h.opened hopen
  obtain ⟨f, record, hb⟩ := hinv.backed id entry he
  have hmem := h.known _ f record hb.file (hkey ▸ hb.opens) (by rw [hb.recordID])
  rwa [hb.recordID] at hmem

/-- A record in the store is one a prune sees. -/
theorem Stored.held (h : Stored a key s f record) (hopen : s.closed = false) (hkey : s.key = key) :
    Held a s [] f record :=
  ⟨h.file, hkey.symm ▸ h.opens, .inr (h.listed hopen)⟩

/-- Pruning, in a run. -/
theorem Good.pruned (h : Good a strict key ids s) (hopen : s.closed = false)
    (hi : Indexed a strict s' []) {excludeID : Bytes} (hp : Pruned now excludeID s s') :
    Good a strict key ids s' ∧ ∀ f record, record.Safe now → Stored a key s f record →
      Stored a key s' f record := by
  obtain ⟨hkey, hinv⟩ := h.opened hopen
  refine ⟨⟨h.known.subset hp.files, fun _ => ⟨hp.same.1.trans hkey, hinv.pruned hi hp⟩⟩,
    fun f record hsafe hst => ?_⟩
  have hheld := (hst.held hopen hkey).pruned hinv.toIndexed hsafe hp
  exact ⟨hheld.file, hst.opens, fun _ => hheld.listed.resolve_left not_mem_nil⟩

/-! ### The calls -/

theorem put_closed (hclosed : s.closed = true) : (s.put a ctx record now nonce).2 = s := by
  unfold put
  split
  · rfl
  · split
    · rfl
    · dsimp only
      split
      · rfl
      · rfl

theorem step_put (hsha : Set.InjOn sha256 (Set.image localRecordPath ids))
    (h : Good a strict key ids s) (hnonce : nonce.length = gcmNonceBytes) (hid : record.id ∈ ids)
    (hstrict : strict → record.expiresAt.isZero = true → record.expiresAt.off % 60 = 0) :
    Good a strict key ids (s.put a ctx record now nonce).2 ∧
      ∀ f r, r.Safe now → r.id ≠ record.id → Stored a key s f r →
        Stored a key (s.put a ctx record now nonce).2 f r := by
  cases hclosed : s.closed with
  | true =>
    rw [put_closed hclosed]
    exact ⟨h, fun _ _ _ _ hst => hst⟩
  | false =>
    obtain ⟨hkey, hinv⟩ := h.opened hclosed
    obtain ⟨⟨report, err⟩, s', heq⟩ : ∃ x s', s.put a ctx record now nonce = (x, s') := ⟨_, _, rfl⟩
    rw [heq]
    have hfree : ∀ id entry, s.entries.lookup id = some entry →
        localRecordFilename id = localRecordFilename record.id → id = record.id :=
      fun id entry he => localRecordFilename_inj hsha (h.entry_mem hclosed he) hid
    have hopen' := put_spec hinv hnonce hstrict hfree heq
    obtain ⟨-, hi, hp⟩ | ⟨-, encoded, s1, hval, -, hseal, hi, hp, -, -, rfl⟩ :=
      put_cases hinv.toIndexed heq
    · obtain ⟨hgood, hkept⟩ := h.pruned hclosed hi hp
      exact ⟨hgood, fun f r hsafe _ => hkept f r hsafe⟩
    · obtain ⟨hgood, hkept⟩ := h.pruned hclosed hi hp
      have hbacked := backed_writeRecord (s := s1) (s.entries.getD record.id .zero) hval hnonce
        (hp.same.1.symm ▸ hseal) hstrict
      refine ⟨⟨fun name f r hf hopen hname => ?_, fun _ => ⟨hp.same.1.trans hkey, hopen'⟩⟩,
        fun f r hsafe hne hst => ?_⟩
      · by_cases hown : name = localRecordFilename record.id
        · subst hown
          obtain rfl := Option.some.inj (hbacked.file.symm.trans hf)
          obtain rfl := Except.ok.inj ((hp.same.1.trans hkey ▸ hbacked.opens).symm.trans hopen)
          exact hid
        · have hf' : s1.dir.files.lookup name = some f :=
            (file_writeRecord s1 (normalizeLocalRecord record) encoded _ hown).symm.trans hf
          exact hgood.known name f r hf' hopen hname
      · have hst' := hkept f r hsafe hst
        have hname : localRecordFilename r.id ≠ localRecordFilename record.id := fun heq =>
          hne (localRecordFilename_inj hsha (h.known _ f r hst.file hst.opens rfl) hid heq)
        refine ⟨(file_writeRecord s1 (normalizeLocalRecord record) encoded _ hname).trans hst'.file,
          hst.opens, fun hopen => ?_⟩
        obtain ⟨entry, he⟩ := hst'.listed hopen
        refine ⟨entry, ?_⟩
        rw [lookup_writeRecord, normalizeLocalRecord_id, if_neg hne]
        exact he

variable (h : Good a strict key ids s)

include h

theorem step_delete :
    Good a strict key ids (s.delete ctx id).2 ∧ ∀ f r, r.id ≠ id → Stored a key s f r →
      Stored a key (s.delete ctx id).2 f r := by
  have hsame : Good a strict key ids s ∧ ∀ f r, r.id ≠ id → Stored a key s f r →
      Stored a key s f r := ⟨h, fun _ _ _ hst => hst⟩
  unfold delete
  split
  · exact hsame
  · split
    · exact hsame
    · split
      · exact hsame
      · rename_i hclosed
        have hopen : s.closed = false := by simpa using hclosed
        split
        · exact hsame
        · rename_i entry he
          obtain ⟨hkey, hinv⟩ := h.opened hopen
          obtain ⟨-, hentries, hfiles⟩ := hinv.lookup_delete he
          have hcharge : 0 ≤ entry.charge := by
            obtain ⟨f, r, hb⟩ := hinv.backed id entry he
            rw [hb.entryEq]
            exact localRecordCharge_nonneg f
          have hsub : ∀ n g, (s.deleteMetaLocked entry).dir.files.lookup n = some g →
              s.dir.files.lookup n = some g := by
            intro n g hg
            rw [hfiles] at hg
            split at hg
            · cases hg
            · exact hg
          refine ⟨⟨h.known.subset hsub, fun _ => ⟨hkey, hinv.delete he, ?_, ?_⟩⟩,
            fun f r hne hst => ⟨?_, hst.opens, fun _ => ?_⟩⟩
          · change s.used - entry.charge ≤ s.maxBytes
            have := hinv.limit
            omega
          · have hsize : (s.deleteMetaLocked entry).entries.size + 1 = s.entries.size := by
              rw [deleteMetaLocked, (hinv.entry_id he).1]
              exact GoMap.size_erase he
            have := hinv.count
            change (s.deleteMetaLocked entry).entries.size ≤ maxClientStoreRecords
            omega
          · rw [hfiles, if_neg, hst.file]
            intro hname
            obtain ⟨g, r', hb⟩ := hinv.backed id entry he
            exact hne (hb.of_file hname.symm hst.file (hkey.symm ▸ hst.opens)).1.symm
          · obtain ⟨e, hlisted⟩ := hst.listed hopen
            exact ⟨e, by rw [hentries, if_neg hne, hlisted]⟩

theorem step_pruneTo {targetBytes : Int} :
    Good a strict key ids (s.pruneTo ctx targetBytes now).2 ∧ ∀ f r, r.Safe now →
      Stored a key s f r → Stored a key (s.pruneTo ctx targetBytes now).2 f r := by
  have hsame : Good a strict key ids s ∧ ∀ f r, r.Safe now → Stored a key s f r →
      Stored a key s f r := ⟨h, fun _ _ _ hst => hst⟩
  unfold pruneTo
  split
  · exact hsame
  · split
    · exact hsame
    · split
      · exact hsame
      · rename_i hclosed
        have hopen : s.closed = false := by simpa using hclosed
        obtain ⟨hi, hp, -⟩ := pruneToLocked_spec (h.opened hopen).2.toIndexed ctx 1 targetBytes
          maxClientStoreRecords now [] rfl
        exact h.pruned hopen hi hp

theorem step_setLimit : Good a strict key ids (s.setLimit ctx maxBytes now).2 ∧ ∀ f r, r.Safe now →
      Stored a key s f r → Stored a key (s.setLimit ctx maxBytes now).2 f r := by
  have hsame : Good a strict key ids s ∧ ∀ f r, r.Safe now → Stored a key s f r →
      Stored a key s f r := ⟨h, fun _ _ _ hst => hst⟩
  unfold setLimit
  split
  · exact hsame
  · split
    · exact hsame
    · split
      · exact hsame
      · rename_i hclosed
        have hopen : s.closed = false := by simpa using hclosed
        have hspec := fun report err s' => @pruneToLocked_spec a strict s []
          (h.opened hopen).2.toIndexed ctx 1 maxBytes maxClientStoreRecords now [] report err s'
        split
        · rename_i report e s1 heq
          obtain ⟨hi, hp, -⟩ := hspec _ _ _ heq
          exact h.pruned hopen hi hp
        · rename_i report s1 heq
          obtain ⟨hi, hp, hmet⟩ := hspec _ _ _ heq
          obtain ⟨hgood, hkept⟩ := h.pruned hopen hi hp
          obtain ⟨hu, hc⟩ := hmet rfl
          -- the new limit is the target just met
          refine ⟨⟨hgood.known, fun hopen' => ⟨(hgood.opened hopen').1, ?_, hu, hc⟩⟩,
            fun f r hsafe hst => ?_⟩
          · exact ⟨hi.used, fun id e he => (hi.backed id e he).imp fun f ⟨r, hb⟩ =>
              ⟨r, hb.transfer rfl rfl⟩, hi.fresh, hi.files, hi.apart⟩
          · have hst' := hkept f r hsafe hst
            exact ⟨hst'.file, hst'.opens, hst'.listed⟩

theorem step_close :
    Good a strict key ids s.close ∧ ∀ f r, Stored a key s f r → Stored a key s.close f r := by
  unfold close
  split
  · exact ⟨h, fun _ _ hst => hst⟩
  · exact ⟨⟨h.known, fun hopen => nomatch hopen⟩, fun f r hst =>
      ⟨hst.file, hst.opens, fun hopen => nomatch hopen⟩⟩

omit h

/-! ### Opening -/

/-- Taking the lock touches the lock file only. -/
theorem acquireClientStoreLock_frame (d : Disk) (held : Bool) {n : Bytes}
    (hn : n ≠ localStoreLockFilename) :
    (acquireClientStoreLock d held).2.files.lookup n = d.files.lookup n := by
  unfold acquireClientStoreLock
  dsimp only
  split
  · split
    · exact lookup_insert_of_ne _ hn
    · rfl
  · exact lookup_insert_of_ne _ hn

/-- An opening that ends before the listing changes the lock file at most. -/
theorem newEncryptedDiskStore_cases {held : Bool} {config : DiskClientStoreConfig}
    {clock : Bytes → Time} {result : Except ClientStoreError EncryptedDiskStore}
    (heq : newEncryptedDiskStore a d held config now order clock = (result, d')) :
    (∃ e, result = .error e ∧
      ∀ n, n ≠ localStoreLockFilename → d'.files.lookup n = d.files.lookup n) ∨
    held = false ∧ ∃ maxBytes err s',
      validClientStorageLimit maxBytes = true ∧
      loadEntries a now clock order
        ⟨(acquireClientStoreLock d held).2, config.key, maxBytes, 0, ∅, false⟩ =
          (err, s') ∧ d' = s'.dir ∧
      ((∃ e, err = some e ∧ result = .error e) ∨ err = none ∧ result = .ok s') := by
  unfold newEncryptedDiskStore at heq
  split at heq
  · obtain ⟨rfl, rfl⟩ := Prod.mk.inj heq
    exact .inl ⟨_, rfl, fun _ _ => rfl⟩
  · dsimp only at heq
    generalize (if config.maxBytes = 0 then defaultClientStorageBytes else config.maxBytes) =
      maxBytes at heq
    split at heq
    · obtain ⟨rfl, rfl⟩ := Prod.mk.inj heq
      exact .inl ⟨_, rfl, fun _ _ => rfl⟩
    · rename_i hlimit
      split at heq
      · obtain ⟨rfl, rfl⟩ := Prod.mk.inj heq
        exact .inl ⟨_, rfl, fun _ _ => rfl⟩
      · split at heq
        · rename_i e d1 hlock
          obtain ⟨rfl, rfl⟩ := Prod.mk.inj heq
          refine .inl ⟨_, rfl, fun n hn => ?_⟩
          rw [← acquireClientStoreLock_frame d held hn, hlock]
        · rename_i d1 hlock
          have hheld : held = false := by
            unfold acquireClientStoreLock at hlock
            cases held with
            | false => rfl
            | true =>
              dsimp only at hlock
              split at hlock
              · split at hlock <;> cases hlock
              · cases hlock
          refine .inr ⟨hheld, maxBytes, ?_⟩
          rw [hlock]
          split at heq
          · rename_i e s1 hload
            obtain ⟨rfl, rfl⟩ := Prod.mk.inj heq
            exact ⟨_, s1, by simpa using hlimit, hload, rfl, .inl ⟨e, rfl, rfl⟩⟩
          · rename_i s1 hload
            obtain ⟨rfl, rfl⟩ := Prod.mk.inj heq
            exact ⟨_, s1, by simpa using hlimit, hload, rfl, .inr ⟨rfl, rfl⟩⟩

/-- Before the first entry is loaded everything is still to come. -/
theorem openInv_start (hlimit : validClientStorageLimit maxBytes = true)
    (hlist : ∀ name, name ∈ order ↔ name ∈ d.files.keys) :
    OpenInv a strict ⟨d, key, maxBytes, 0, ∅, false⟩ order := by
  refine ⟨⟨rfl, fun id e he => ?_, fun id e he => ?_, fun name f hf => ?_, fun id id' e e' he => ?_⟩,
    ?_, Nat.zero_le _⟩
  · exact absurd he (by simp [lookup_empty])
  · exact absurd he (by simp [lookup_empty])
  · exact .inr (.inl ((hlist name).mpr (GoMap.mem_keys_of_lookup hf)))
  · exact absurd he (by simp [lookup_empty])
  · have hmin : (0 : Int) ≤ minClientStorageBytes := by decide
    simp only [validClientStorageLimit, Bool.and_eq_true, decide_eq_true_eq] at hlimit
    exact hmin.trans hlimit.1

/-- Another lock file makes no difference to an open store. -/
theorem OpenInv.lock (h : OpenInv a strict s [])
    (hd : ∀ n, n ≠ localStoreLockFilename → d.files.lookup n = s.dir.files.lookup n) :
    OpenInv a strict { s with dir := d } [] := by
  refine ⟨⟨h.used, fun id e he => ?_, h.fresh, fun name f hf => ?_, h.apart⟩, h.limit, h.count⟩
  · obtain ⟨f, r, hb⟩ := h.backed id e he
    exact ⟨f, r, hb.transfer rfl (hd _ (localRecordFilename_ne_lock id))⟩
  · by_cases hn : name = localStoreLockFilename
    · exact .inl hn
    · exact h.files name f ((hd name hn).symm.trans hf)

theorem step_reopen {clock : Bytes → Time} (h : Good a strict key ids s) (hnd : order.Nodup)
    (hlist : ∀ name, name ∈ order ↔
      name ∈ (acquireClientStoreLock s.dir (!s.closed)).2.files.keys) :
    Good a strict key ids
        (StoreEvent.apply a directory key s (.reopen maxBytes now order clock)) ∧
      ∀ f r, r.Safe now → Stored a key s f r →
        Stored a key (StoreEvent.apply a directory key s (.reopen maxBytes now order clock)) f r := by
  obtain ⟨result, d', heq⟩ : ∃ result d', newEncryptedDiskStore a s.dir (!s.closed)
    ⟨directory, key, maxBytes⟩ now order clock = (result, d') := ⟨_, _, rfl⟩
  unfold StoreEvent.apply
  dsimp only
  obtain ⟨e, rfl, hlock⟩ | ⟨hheld, limit, err, s1, hlimit, hload, rfl, hresult⟩ :=
    newEncryptedDiskStore_cases heq
  · rw [heq]
    dsimp only
    refine ⟨⟨h.known.lock fun n g hn hg => (hlock n hn).symm.trans hg, fun hopen =>
      ⟨(h.opened hopen).1, (h.opened hopen).2.lock hlock⟩⟩, fun f r _ hst => ?_⟩
    exact ⟨(hlock _ (localRecordFilename_ne_lock _)).trans hst.file, hst.opens, hst.listed⟩
  · have hclosed : s.closed = true := by simpa using hheld
    have hframe := fun {n : Bytes} => @acquireClientStoreLock_frame s.dir (!s.closed) n
    generalize (acquireClientStoreLock s.dir (!s.closed)).2 = d at *
    have hstart : OpenInv a strict ⟨d, key, limit, 0, ∅, false⟩ order := openInv_start hlimit hlist
    obtain ⟨hinv, hk, -, hc, hfiles, hheldspec⟩ := loadEntries_spec hstart hnd hload
    have hknown : Known a key ids s1.dir := by
      refine Known.lock (h.known.lock fun n g hn hg => (hframe hn).symm.trans hg) ?_
      exact fun n g _ hg => hfiles n g hg
    have hstored : ∀ f r, Stored a key s f r →
        Held a ⟨d, key, limit, 0, ∅, false⟩ order f r := by
      intro f r hst
      have hfile : d.files.lookup (localRecordFilename r.id) = some f :=
        (hframe (localRecordFilename_ne_lock _)).trans hst.file
      exact ⟨hfile, hst.opens, .inl ((hlist _).mpr (GoMap.mem_keys_of_lookup hfile))⟩
    rcases hresult with ⟨e, rfl, rfl⟩ | ⟨rfl, rfl⟩
    · rw [heq]
      dsimp only
      refine ⟨⟨hknown, fun hopen => absurd (hclosed.symm.trans hopen) (by simp)⟩,
        fun f r hsafe hst => ?_⟩
      exact ⟨(hheldspec f r hsafe (hstored f r hst)).1, hst.opens,
        fun hopen => absurd (hclosed.symm.trans hopen) (by simp)⟩
    · rw [heq]
      dsimp only
      refine ⟨⟨hknown, fun _ => ⟨hk, hinv rfl⟩⟩, fun f r hsafe hst => ?_⟩
      have hh := (hheldspec f r hsafe (hstored f r hst)).2 rfl
      exact ⟨hh.file, hst.opens, fun _ => hh.listed.resolve_left not_mem_nil⟩

/-! ### Runs -/

variable (hsha : Set.InjOn sha256 (Set.image localRecordPath ids))

include hsha

/-- Every call keeps the invariant, and keeps a record that is safe at its time. -/
theorem step_good {e : StoreEvent}
    (h : Good a strict key ids s) (hwithin : e.Within ids) (hshows : strict → e.Shows)
    (hstep : Step a directory key s e s') :
    Good a strict key ids s' ∧ ∀ f r, (∀ now ∈ e.now, r.Safe now) → e.target ≠ some r.id →
      Stored a key s f r → Stored a key s' f r := by
  obtain ⟨hpossible, rfl⟩ := hstep
  cases e with
  | put ctx record now nonce =>
    obtain ⟨hgood, hkept⟩ := step_put hsha h hpossible hwithin hshows
    exact ⟨hgood, fun f r hsafe hne => hkept f r (hsafe now rfl) fun heq => hne (by rw [heq]; rfl)⟩
  | get => exact ⟨h, fun _ _ _ _ hst => hst⟩
  | delete ctx id =>
    obtain ⟨hgood, hkept⟩ := step_delete h
    exact ⟨hgood, fun f r _ hne => hkept f r fun heq => hne (by rw [heq]; rfl)⟩
  | pruneTo ctx targetBytes now =>
    obtain ⟨hgood, hkept⟩ := step_pruneTo h
    exact ⟨hgood, fun f r hsafe _ => hkept f r (hsafe now rfl)⟩
  | setLimit ctx maxBytes now =>
    obtain ⟨hgood, hkept⟩ := step_setLimit h
    exact ⟨hgood, fun f r hsafe _ => hkept f r (hsafe now rfl)⟩
  | close =>
    obtain ⟨hgood, hkept⟩ := step_close h
    exact ⟨hgood, fun f r _ _ => hkept f r⟩
  | reopen maxBytes now order clock =>
    obtain ⟨hgood, hkept⟩ := step_reopen h hpossible.1 hpossible.2
    exact ⟨hgood, fun f r hsafe _ => hkept f r (hsafe now rfl)⟩

theorem run_good {es : List StoreEvent}
    (hrun : Run (Step a directory key) s es s') (hwithin : ∀ e ∈ es, e.Within ids)
    (hshows : strict → ∀ e ∈ es, e.Shows) (h : Good a strict key ids s) :
    Good a strict key ids s' := by
  refine hrun.invariant_of (I := Good a strict key ids)
    (P := fun e => e.Within ids ∧ (strict → e.Shows)) ?_ ?_ h
  · intro s e s' hg hP hst
    exact (step_good hsha hg hP.1 hP.2 hst).1
  · exact fun e he => ⟨hwithin e he, fun hs => hshows hs e he⟩

/-- A record that is safe at the time of every call, and that no call is about, stays. -/
theorem run_stored {es : List StoreEvent}
    (hrun : Run (Step a directory key) s es s') (hwithin : ∀ e ∈ es, e.Within ids)
    (hsafe : ∀ e ∈ es, ∀ now ∈ e.now, record.Safe now) (hown : ∀ e ∈ es, e.target ≠ some record.id)
    (hg : Good a False key ids s) (hst : Stored a key s f record) :
    Good a False key ids s' ∧ Stored a key s' f record := by
  refine hrun.invariant_of (I := fun s => Good a False key ids s ∧ Stored a key s f record)
    (P := fun e => e.Within ids ∧ (∀ now ∈ e.now, record.Safe now) ∧ e.target ≠ some record.id)
    ?_ (fun e he => ⟨hwithin e he, hsafe e he, hown e he⟩) ⟨hg, hst⟩
  rintro s1 e s2 ⟨hg, hst⟩ ⟨hw, hsf, htarget⟩ hstep
  obtain ⟨hg', hkept⟩ := step_good hsha hg hw (fun h => h.elim) hstep
  exact ⟨hg', hkept f record hsf htarget hst⟩

omit hsha in
/-- A call changes no file but the lock file and the one of the record it puts; it may
    delete others. -/
theorem step_files {e : StoreEvent} (h : Good a strict key ids s) (hstep : Step a directory key s e s')
    {name : Bytes} (hlock : name ≠ localStoreLockFilename)
    (hown : ∀ ctx r now nonce, e = .put ctx r now nonce → localRecordFilename r.id ≠ name) {g : File}
    (hg : s'.dir.files.lookup name = some g) : s.dir.files.lookup name = some g := by
  obtain ⟨hpossible, rfl⟩ := hstep
  cases e with
  | put ctx record now nonce =>
    cases hclosed : s.closed with
    | true => rwa [StoreEvent.apply, put_closed hclosed] at hg
    | false =>
      obtain ⟨⟨report, err⟩, s', heq⟩ : ∃ x s', s.put a ctx record now nonce = (x, s') :=
        ⟨_, _, rfl⟩
      rw [StoreEvent.apply, heq] at hg
      obtain ⟨-, -, hp⟩ | ⟨-, encoded, s1, -, -, -, -, hp, -, -, rfl⟩ :=
        put_cases (h.opened hclosed).2.toIndexed heq
      · exact hp.files name g hg
      · have hname : name ≠ localRecordFilename record.id := fun h => hown _ _ _ _ rfl h.symm
        exact hp.files name g ((file_writeRecord s1 (normalizeLocalRecord record) encoded _
          hname).symm.trans hg)
  | get => exact hg
  | delete ctx id =>
    rw [StoreEvent.apply, delete] at hg
    split at hg
    · exact hg
    · split at hg
      · exact hg
      · split at hg
        · exact hg
        · rename_i hopen
          split at hg
          · exact hg
          · rename_i entry he
            have hfiles := ((h.opened (by simpa using hopen)).2.lookup_delete he).2.2 name
            rw [hfiles] at hg
            split at hg
            · cases hg
            · exact hg
  | pruneTo ctx targetBytes now =>
    rw [StoreEvent.apply, pruneTo] at hg
    split at hg
    · exact hg
    · split at hg
      · exact hg
      · split at hg
        · exact hg
        · rename_i hopen
          exact (pruneToLocked_spec (h.opened (by simpa using hopen)).2.toIndexed ctx 1 targetBytes
            maxClientStoreRecords now [] rfl).2.1.files name g hg
  | setLimit ctx maxBytes now =>
    rw [StoreEvent.apply, setLimit] at hg
    split at hg
    · exact hg
    · split at hg
      · exact hg
      · split at hg
        · exact hg
        · rename_i hopen
          have hspec := fun report err s' => @pruneToLocked_spec a strict s []
            (h.opened (by simpa using hopen)).2.toIndexed ctx 1 maxBytes maxClientStoreRecords now []
            report err s'
          split at hg
          · rename_i heq
            exact (hspec _ _ _ heq).2.1.files name g hg
          · rename_i heq
            exact (hspec _ _ _ heq).2.1.files name g hg
  | close =>
    rw [StoreEvent.apply, close] at hg
    split at hg
    · exact hg
    · exact hg
  | reopen maxBytes now order clock =>
    obtain ⟨result, d', heq⟩ : ∃ result d', newEncryptedDiskStore a s.dir (!s.closed)
      ⟨directory, key, maxBytes⟩ now order clock = (result, d') := ⟨_, _, rfl⟩
    rw [StoreEvent.apply, heq] at hg
    obtain ⟨e, rfl, hframe⟩ | ⟨-, limit, err, s1, hlimit, hload, rfl, hresult⟩ :=
      newEncryptedDiskStore_cases heq
    · exact (hframe name hlock).symm.trans hg
    · have hstart : OpenInv a strict ⟨_, key, limit, 0, ∅, false⟩ order :=
        openInv_start hlimit hpossible.2
      have hfiles := (loadEntries_spec hstart hpossible.1 hload).2.2.2.2.1 name g
      have hs1 : s1.dir.files.lookup name = some g := by
        rcases hresult with ⟨e, rfl, rfl⟩ | ⟨rfl, rfl⟩
        · exact hg
        · exact hg
      exact (acquireClientStoreLock_frame s.dir (!s.closed) hlock).symm.trans (hfiles hs1)

/-- A successful `Put` leaves the record in the store, as its text shows it. -/
theorem put_stored {report : PruneReport}
    (h : Good a False key ids s) (hnonce : nonce.length = gcmNonceBytes) (hid : record.id ∈ ids)
    (heq : s.put a ctx record now nonce = ((report, none), s')) :
    validateLocalRecord (normalizeLocalRecord record) now = .ok () ∧ Good a False key ids s' ∧
      ∃ f, Stored a key s' f (normalizeLocalRecord record).shown := by
  have hclosed : s.closed = false := by
    cases hc : s.closed with
    | false => rfl
    | true =>
      exfalso
      unfold put at heq
      split at heq
      · cases heq
      · split at heq
        · cases heq
        · dsimp only at heq
          split at heq
          · cases heq
          · cases heq
  obtain ⟨hkey, hinv⟩ := h.opened hclosed
  have hgood : Good a False key ids (s.put a ctx record now nonce).2 :=
    (step_put hsha h hnonce hid fun hf => hf.elim).1
  rw [heq] at hgood
  obtain ⟨hne, -⟩ | ⟨-, encoded, s1, hval, -, hseal, -, hp, -, -, rfl⟩ := put_cases hinv.toIndexed heq
  · exact absurd rfl hne
  · have hb := @backed_writeRecord a False s1 record now nonce encoded
      (s.entries.getD record.id .zero) hval hnonce (hp.same.1.symm ▸ hseal) fun hf => hf.elim
    have hname : (normalizeLocalRecord record).shown.id = record.id := rfl
    refine ⟨hval, hgood, _, hname.symm ▸ hb.file, ?_, fun _ => ⟨_, (lookup_writeRecord _ _ _ _ _).trans
      (if_pos rfl)⟩⟩
    rw [hname, ← hkey, ← hp.same.1]
    exact hb.opens

omit hsha

/-- A record in an open store is read while it is valid. -/
theorem Stored.get {clock : Time} (hst : Stored a key s f record) (h : Good a strict key ids s)
    (hopen : s.closed = false) (hctx : ctx ≠ .missing) (herr : ctx.err 0 = none)
    (hval : validateLocalRecord record clock = .ok ()) :
    s.get a ctx record.id clock = .ok record := by
  obtain ⟨hkey, hinv⟩ := h.opened hopen
  obtain ⟨entry, he⟩ := hst.listed hopen
  obtain ⟨g, r, hb⟩ := hinv.backed record.id entry he
  obtain rfl := Option.some.inj (hb.file.symm.trans hst.file)
  have hid := (validateLocalRecord_ok hval).1
  unfold EncryptedDiskStore.get
  rw [if_neg (by simp [hid, hctx])]
  simp only [herr, hopen, Bool.false_eq_true, if_false, he, (hinv.entry_id he).2]
  unfold readRecord
  rw [hst.file]
  simp only [hb.fileOk, Bool.true_eq_false, if_false, hkey, hst.opens, hval]

/-- Whatever is read under an ID is what its file holds. -/
theorem get_file {clock : Time} (h : Good a strict key ids s)
    (hget : s.get a ctx id clock = .ok record) :
    ∃ g, s.dir.files.lookup (localRecordFilename id) = some g ∧
      openRecord a key (localRecordFilename id) g.data = .ok record := by
  unfold EncryptedDiskStore.get at hget
  split at hget
  · cases hget
  · split at hget
    · cases hget
    · split at hget
      · cases hget
      · rename_i hopen
        split at hget
        · cases hget
        · rename_i entry he
          obtain ⟨hkey, hinv⟩ := h.opened (by simpa using hopen)
          obtain ⟨g, hg, -, hopens, -⟩ := readRecord_ok hget
          rw [(hinv.entry_id he).2] at hg hopens
          exact ⟨g, hg, hkey ▸ hopens⟩

theorem good_shut (h : Known a key ids d) : Good a strict key ids (shut d) :=
  ⟨h, fun hopen => (Bool.noConfusion (show true = false from hopen))⟩

end

/-! ## The accounts -/

/-- The directory entries that are files of records. -/
def IsRecordFile (d : Disk) (name : Bytes) : Prop :=
  localRecordSuffix.isSuffixOf name = true ∧ ∃ f, d.files.lookup name = some f

/-- The accounts of an open store agree with its directory. -/
structure Accounts (a : Aead) (s : EncryptedDiskStore) : Prop where
  used : s.used = s.entries.sum (·.charge)
  charge : ∀ id entry, s.entries.lookup id = some entry →
    ∃ f, s.dir.files.lookup entry.path = some f ∧
      entry.charge = f.data.length + localRecordAccountingOverhead
  /-- The record files are those of the entries, each of one entry. -/
  files : ∀ name, IsRecordFile s.dir name ↔
    ∃! id, ∃ entry, s.entries.lookup id = some entry ∧ entry.path = name
  record : ∀ id entry f, s.entries.lookup id = some entry →
    s.dir.files.lookup entry.path = some f →
    ∃ record, openRecord a s.key entry.path f.data = .ok record ∧ record.id = id ∧
      entry.kind = record.kind ∧ entry.createdAt.equal record.createdAt = true ∧
      entry.expiresAt.equal record.expiresAt = true ∧ entry.prunePolicy = record.prunePolicy
  limit : s.used ≤ s.maxBytes
  count : s.entries.size ≤ maxClientStoreRecords

theorem isSuffixOf_localRecordFilename (id : Bytes) :
    localRecordSuffix.isSuffixOf (localRecordFilename id) = true :=
  isSuffixOf_iff_suffix.mpr (suffix_append _ _)

theorem OpenInv.accounts {a : Aead} {s : EncryptedDiskStore} (h : OpenInv a True s []) :
    Accounts a s := by
  have hpath : ∀ {id entry}, s.entries.lookup id = some entry →
      entry.path = localRecordFilename id := fun he => (h.entry_id he).2
  refine ⟨h.used, fun id entry he => ?_, fun name => ⟨?_, ?_⟩, fun id entry f he hf => ?_, h.limit,
    h.count⟩
  · obtain ⟨f, r, hb⟩ := h.backed id entry he
    refine ⟨f, hpath he ▸ hb.file, ?_⟩
    rw [hb.entryEq]
    rfl
  · rintro ⟨hsuffix, f, hf⟩
    obtain rfl | hin | ⟨id, entry, he, hname⟩ := h.files name f hf
    · exact absurd hsuffix (by decide)
    · exact absurd hin not_mem_nil
    · refine ⟨id, ⟨entry, he, (hpath he).trans hname⟩, ?_⟩
      rintro id' ⟨entry', he', hname'⟩
      exact h.apart id' id entry' entry he' he (by rw [← hpath he', hname', hname])
  · rintro ⟨id, ⟨entry, he, hname⟩, -⟩
    obtain ⟨f, r, hb⟩ := h.backed id entry he
    have hname := (hpath he).symm.trans hname
    exact ⟨hname ▸ isSuffixOf_localRecordFilename id, f, hname ▸ hb.file⟩
  · obtain ⟨g, r, hb⟩ := h.backed id entry he
    rw [hpath he] at hf ⊢
    obtain rfl := Option.some.inj (hb.file.symm.trans hf)
    have hexp : entry.expiresAt = r.expiresAt := hb.expiry.resolve_right fun hn => hn.1 trivial
    refine ⟨r, hb.opens, hb.recordID, ?_, ?_, ?_, ?_⟩
    · rw [hb.entryEq]
      rfl
    · rw [hb.entryEq, Time.equal_iff]
      rfl
    · rw [hexp, Time.equal_iff]
    · rw [hb.entryEq]
      rfl

/-- In every open store of a run in which a zero expiry is put as its text shows it, the
    accounts agree with the directory, and a successful `Put` replaces its own entry and
    leaves all others as they were, but for pruned ones. -/
theorem reachable_accounts (a : Aead) (directory key : Bytes) {d : Disk} {ids : Set Bytes}
    (hsha : Set.InjOn sha256 (Set.image localRecordPath ids)) (hknown : Known a key ids d)
    {es : List StoreEvent} {s : EncryptedDiskStore} (hwithin : ∀ e ∈ es, e.Within ids)
    (hshows : ∀ e ∈ es, e.Shows) (hrun : Run (Step a directory key) (shut d) es s)
    (hopen : s.closed = false) :
    Accounts a s ∧ ∀ ctx record now nonce report s',
      s.put a ctx record now nonce = ((report, none), s') → Overwrites record now s s' := by
  have hgood : Good a True key ids s :=
    run_good hsha hrun hwithin (fun _ => hshows) (good_shut hknown)
  have hinv := (hgood.opened hopen).2
  exact ⟨hinv.accounts, fun ctx record now nonce report s' heq =>
    put_overwrites hinv.toIndexed heq⟩

/-! ### A store with one record -/

def sampleKey : Bytes := List.replicate 32 7
def sampleNonce : Bytes := List.replicate 12 9

/-- A message kept for good, its zero expiry shown at an offset of `off` seconds. -/
def sampleLocalRecord (off : Int) : LocalRecord :=
  ⟨1, lit "note", localKindInbox, Time.epoch, Time.epoch, ⟨0, off⟩, pruneNever, [1]⟩

/-- A store just opened on an empty directory. -/
def freshStore (key : Bytes) : EncryptedDiskStore :=
  ⟨⟨true, Finmap.insert localStoreLockFilename ⟨.regular, 0o600, []⟩ ∅⟩, key,
    defaultClientStorageBytes, 0, ∅, false⟩

variable {now : Time}

/-- A `Put` of a new ID that needs no pruning. -/
theorem put_fits {a : Aead} {s : EncryptedDiskStore} {record : LocalRecord} {nonce encoded : Bytes}
    (hopen : s.closed = false)
    (hval : validateLocalRecord (normalizeLocalRecord record) now = .ok ())
    (hseal : sealRecord a s.key nonce (normalizeLocalRecord record)
      (localRecordFilename record.id) = .ok encoded) (hnew : s.entries.lookup record.id = none)
    (hused : 0 ≤ s.used) (hfits : s.used + localRecordCharge encoded.length ≤ s.maxBytes)
    (hcount : s.entries.size < maxClientStoreRecords) :
    s.put a .background record now nonce =
      ((.zero, none), s.writeRecord (normalizeLocalRecord record) encoded .zero) := by
  have hold : s.entries.getD (normalizeLocalRecord record).id .zero = .zero := by
    rw [GoMap.getD, normalizeLocalRecord_id, hnew, Option.getD_none]
  have hprune : s.pruneToLocked .background 1 (s.maxBytes - localRecordCharge encoded.length + 0)
      (maxClientStoreRecords - 1) now record.id = ((.zero, none), s) := by
    unfold pruneToLocked
    rw [if_pos ⟨by omega, by omega⟩]
  have hcharge : LocalRecordMeta.zero.charge = 0 := rfl
  have hempty : LocalRecordMeta.zero.id = [] := rfl
  unfold put
  rw [if_neg (by decide)]
  simp only [Context.err, hval, hopen, normalizeLocalRecord_id, hseal] at hold ⊢
  simp only [hold, hcharge, hempty, if_true, hprune, if_neg (by omega :
    ¬ s.maxBytes - localRecordCharge encoded.length + 0 < 0), Bool.false_eq_true, if_false]

theorem put_fresh (a : Aead) {key : Bytes} {record : LocalRecord} {now : Time} {nonce encoded : Bytes}
    (hval : validateLocalRecord (normalizeLocalRecord record) now = .ok ())
    (hseal : sealRecord a key nonce (normalizeLocalRecord record)
      (localRecordFilename record.id) = .ok encoded) :
    (freshStore key).put a .background record now nonce =
      ((.zero, none), (freshStore key).writeRecord (normalizeLocalRecord record) encoded .zero) := by
  obtain ⟨-, -, -, -, hlen⟩ := sealRecord_ok hseal
  refine put_fits rfl hval hseal (lookup_empty _) le_rfl ?_
    (by decide : 0 < maxClientStoreRecords)
  change 0 + localRecordCharge encoded.length ≤ defaultClientStorageBytes
  unfold localRecordCharge localRecordAccountingOverhead defaultClientStorageBytes
  unfold maxLocalRecordFileBytes at hlen
  omega

theorem sample_opened : Step plainAead (lit "store") sampleKey (shut ⟨true, ∅⟩)
    (.reopen 0 Time.epoch [localStoreLockFilename] fun _ => Time.epoch) (freshStore sampleKey) := by
  refine ⟨⟨nodup_singleton _, fun name => ?_⟩, rfl⟩
  change name ∈ [localStoreLockFilename] ↔
    name ∈ (Finmap.insert localStoreLockFilename _ (∅ : GoMap Bytes File)).keys
  rw [GoMap.keys_insert]
  simp

/-- The sample record can be sealed. -/
theorem sample_sealed {off : Int} (hoff : off = 0 ∨ off = 28) :
    validateLocalRecord (normalizeLocalRecord (sampleLocalRecord off)) Time.epoch = .ok () ∧
    ∃ encoded, sealRecord plainAead sampleKey sampleNonce
      (normalizeLocalRecord (sampleLocalRecord off)) (localRecordFilename (lit "note")) =
        .ok encoded := by
  obtain ⟨epoch, hepoch⟩ : ∃ text, Time.epoch.marshalText = some text := ⟨_, rfl⟩
  obtain ⟨text, htext⟩ : ∃ text, Time.marshalText ⟨0, off⟩ = some text := by
    rcases hoff with rfl | rfl <;> exact ⟨_, rfl⟩
  have hval : validateLocalRecord (normalizeLocalRecord (sampleLocalRecord off)) Time.epoch =
      .ok () := by
    rcases hoff with rfl | rfl <;> rfl
  exact ⟨hval, sealRecord_writes plainAead _ hval (by decide) (by decide)
    (show Time.epoch.marshalText = _ from hepoch) (show Time.epoch.marshalText = _ from hepoch) htext⟩

/-- It can be put, and what its file is read as. -/
theorem sample_stored {off : Int} (hoff : off = 0 ∨ off = 28) :
    ∃ encoded, Run (Step plainAead (lit "store") sampleKey) (shut ⟨true, ∅⟩)
        [.reopen 0 Time.epoch [localStoreLockFilename] fun _ => Time.epoch,
          .put .background (sampleLocalRecord off) Time.epoch sampleNonce]
        ((freshStore sampleKey).writeRecord (normalizeLocalRecord (sampleLocalRecord off)) encoded
          .zero) ∧
      Backed plainAead False
        ((freshStore sampleKey).writeRecord (normalizeLocalRecord (sampleLocalRecord off)) encoded
          .zero) (lit "note")
        (metaFromRecord (normalizeLocalRecord (sampleLocalRecord off))
          (localRecordFilename (lit "note")) (localRecordCharge encoded.length))
        ⟨.regular, 0o600, encoded⟩ (normalizeLocalRecord (sampleLocalRecord off)).shown := by
  obtain ⟨hval, encoded, hseal⟩ := sample_sealed hoff
  refine ⟨encoded, .cons sample_opened (.single ⟨(by decide : sampleNonce.length = gcmNonceBytes), ?_⟩),
    backed_writeRecord .zero hval (by decide) hseal fun h => h.elim⟩
  simp only [StoreEvent.apply, put_fresh plainAead hval hseal]

theorem injOn_singleton_note : Set.InjOn sha256 (Set.image localRecordPath {lit "note"}) := by
  rw [Set.image_singleton]
  exact Set.injOn_singleton _ _

theorem known_empty (a : Aead) (key : Bytes) (ids : Set Bytes) : Known a key ids ⟨true, ∅⟩ :=
  fun _ _ _ hf => absurd hf (by simp [lookup_empty])

/-- A zero expiry at an offset of 28 seconds: the text in the file shows an instant 28 seconds
    later, and the entry's expiry is not the one of the encrypted record. -/
theorem accounts_zero_expiry_lost : ∃ es s,
    (∀ e ∈ es, StoreEvent.Within {lit "note"} e) ∧
      Set.InjOn sha256 (Set.image localRecordPath {lit "note"}) ∧
      Run (Step plainAead (lit "store") sampleKey) (shut ⟨true, ∅⟩) es s ∧ s.closed = false ∧
      ¬ Accounts plainAead s := by
  obtain ⟨encoded, hrun, hb⟩ := sample_stored (.inr rfl)
  refine ⟨_, _, ?_, injOn_singleton_note, hrun, rfl, fun hacc => ?_⟩
  · intro e he
    simp only [List.mem_cons, List.not_mem_nil, or_false] at he
    rcases he with rfl | rfl
    · trivial
    · rfl
  · obtain ⟨r, hopen, -, -, -, hexp, -⟩ := hacc.record (lit "note") _ _ (Finmap.lookup_insert _) hb.file
    obtain rfl := Except.ok.inj (hb.opens.symm.trans hopen)
    have hns : (0 : Int) = 28 * second := (Time.equal_iff _ _).mp hexp
    exact absurd hns (by decide)

theorem reachable_accounts_note : ∃ es s,
    Run (Step plainAead (lit "store") sampleKey) (shut ⟨true, ∅⟩) es s ∧ s.closed = false ∧
      s.entries.lookup (lit "note") ≠ none ∧ Accounts plainAead s := by
  obtain ⟨encoded, hrun, hb⟩ := sample_stored (.inl rfl)
  have hevents : ∀ e ∈ [StoreEvent.reopen 0 Time.epoch [localStoreLockFilename] fun _ => Time.epoch,
      .put .background (sampleLocalRecord 0) Time.epoch sampleNonce],
      e.Within {lit "note"} ∧ e.Shows := by
    intro e he
    simp only [List.mem_cons, List.not_mem_nil, or_false] at he
    rcases he with rfl | rfl
    · exact ⟨trivial, trivial⟩
    · exact ⟨rfl, fun _ => rfl⟩
  refine ⟨_, _, hrun, rfl, ?_, ?_⟩
  · have hid : lit "note" = (sampleLocalRecord 0).id := rfl
    rw [lookup_writeRecord, normalizeLocalRecord_id, if_pos hid]
    exact Option.some_ne_none _
  · exact (reachable_accounts plainAead (lit "store") sampleKey injOn_singleton_note
      (known_empty _ _ _) (fun e he => (hevents e he).1) (fun e he => (hevents e he).2) hrun rfl).1

/-! ## Protected records -/

end Veilmesh.Client

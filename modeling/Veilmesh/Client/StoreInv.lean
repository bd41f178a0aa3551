/-
  The accounts of the client's record store.

  `Indexed a strict s rest` says how entries and directory belong together while the files
  in `rest` are still to be loaded; with nothing left it is the invariant of an open store.
  `Pruned now excludeID s s'` says all that pruning can do to a store. `strict` stands for
  the runs in which no record is put with a zero expiry that its text cannot show: there
  the expiry of an entry is that of the encrypted record.

  * `openRecord_sealRecord`: what a sealed record is read as.
  * `pruneToLocked_spec`, `put_spec`: one lemma for each operation.
  * `loadEntry_spec`, `loadEntries_spec`: one directory entry, the whole listing.
-/
import Veilmesh.Client.Store

namespace Veilmesh.Client

open Lib Json EncryptedDiskStore List GoMap
open Node (File FileKind Disk)

/-! ## Records -/

variable {record : LocalRecord} {now : Time} {id key nonce filename encoded excludeID : Bytes}
  {a : Aead} {s : EncryptedDiskStore}

/-- The checks of a record that do not look at the clock, as far as they are used. -/
theorem validateLocalRecord_ok (h : validateLocalRecord record now = .ok ()) :
    validLocalRecordID record.id = true ∧ validLocalRecordKind record.kind = true ∧
      record.prunePolicy ∈ [pruneNever, pruneOldest, pruneAfterExpiry] ∧
      safePrunePolicyForKind record = true := by
  unfold validateLocalRecord at h
  split at h
  · cases h
  · rename_i h1
    split at h
    · cases h
    · split at h
      · cases h
      · split at h
        · cases h
        · rename_i h4
          split at h
          · cases h
          · rename_i h5
            simp only [not_or] at h1
            exact ⟨by simpa using h1.2.1, by simpa using h1.2.2.1, not_not.mp h4, by simpa using h5⟩

/-- A valid record stays valid as the clock moves on. -/
theorem validateLocalRecord_later {clock : Time} (h : validateLocalRecord record now = .ok ())
    (hle : now.ns ≤ clock.ns) : validateLocalRecord record clock = .ok () := by
  have hafter : ∀ t : Time, t.after (now.add (5 * minute)) ≠ true →
      t.after (clock.add (5 * minute)) ≠ true := by
    intro t
    simp only [ne_eq, Time.after_iff, Time.add_ns, not_lt]
    intro ht
    exact ht.trans (Int.add_le_add_right hle _)
  unfold validateLocalRecord at h ⊢
  split at h
  · cases h
  · rename_i hchecks
    simp only [not_or] at hchecks
    obtain ⟨h1, h2, h3, h4, h5, h6, h7, h8, h9, h10⟩ := hchecks
    rw [if_neg]
    · exact h
    · simp only [not_or]
      exact ⟨h1, h2, h3, h4, h5, h6, hafter _ h7, hafter _ h8, h9, h10⟩

theorem validateLocalRecord_payload (h : validateLocalRecord record now = .ok ()) :
    record.payload.length ≤ maxLocalRecordPayloadBytes := by
  unfold validateLocalRecord at h
  split at h
  · cases h
  · rename_i h1
    simp only [not_or, not_lt] at h1
    exact h1.2.2.2.2.2.2.2.2.2

theorem plainByte_of_validLocalRecordIDByte {c : UInt8} (h : validLocalRecordIDByte c = true) :
    plainByte c = true := by
  simp only [validLocalRecordIDByte, plainByte, Bool.or_eq_true, Bool.and_eq_true,
    decide_eq_true_eq, beq_iff_eq, bne_iff_ne, ne_eq, UInt8.le_iff_toNat_le, UInt8.lt_iff_toNat_lt,
    ← UInt8.toNat_inj, UInt8.reduceToNat] at h ⊢
  omega

theorem plain_of_validLocalRecordID (h : validLocalRecordID id = true) : Plain id := by
  simp only [validLocalRecordID, Bool.and_eq_true, all_eq_true] at h
  exact fun c hc => plainByte_of_validLocalRecordIDByte (h.2 c hc)

theorem plain_of_validLocalRecordKind {kind : Bytes} (h : validLocalRecordKind kind = true) :
    Plain kind := by
  have hall : ∀ k ∈ [localKindDelivery, localKindInbox, localKindOutbox, localKindFileCache,
      localKindReplay, localKindGroupState, localKindDeviceEvent, localKindReputation],
      Plain k := by decide
  exact hall kind (by simpa [validLocalRecordKind] using h)

/-- A group state is never given up. -/
theorem safePrunePolicy_groupState (h : safePrunePolicyForKind record = true)
    (hk : record.kind = localKindGroupState) :
    record.prunePolicy = pruneNever ∧ record.expiresAt.isZero = true := by
  unfold safePrunePolicyForKind at h
  rw [hk, if_neg (by decide), if_neg (by decide), if_pos rfl, Bool.and_eq_true] at h
  exact ⟨by simpa using h.1, h.2⟩

/-- What the text of a record is read as: its expiry as the text shows it. -/
def LocalRecord.shown (record : LocalRecord) : LocalRecord :=
  { record with expiresAt := record.expiresAt.shown }

theorem localRecordCodec_reads (h : validateLocalRecord record now = .ok ())
    (hc : record.createdAt.off = 0) (hu : record.updatedAt.off = 0) :
    localRecordCodec.Reads record record.shown := by
  obtain ⟨hid, hkind, hpolicy, -⟩ := validateLocalRecord_ok h
  have hplain : ∀ p ∈ [pruneNever, pruneOldest, pruneAfterExpiry], Plain p := by decide
  refine structCodec_reads ⟨by decide, by decide⟩ (fun s => rfl) fun f hf => ?_
  simp only [localRecordFields, mem_cons, not_mem_nil, or_false] at hf
  rcases hf with rfl | rfl | rfl | rfl | rfl | rfl | rfl | rfl
  · exact uint8Codec_roundtrips _
  · exact stringCodec_roundtrips (plain_of_validLocalRecordID hid)
  · exact stringCodec_roundtrips (plain_of_validLocalRecordKind hkind)
  · exact timeCodec_roundtrips (by simp [hc])
  · exact timeCodec_roundtrips (by simp [hu])
  · exact timeCodec_reads _
  · exact stringCodec_roundtrips (hplain _ hpolicy)
  · exact bytesCodec_roundtrips _

@[simp] theorem normalizeLocalRecord_id (record : LocalRecord) :
    (normalizeLocalRecord record).id = record.id := rfl

theorem normalizeLocalRecord_off (record : LocalRecord) :
    (normalizeLocalRecord record).createdAt.off = 0 ∧
      (normalizeLocalRecord record).updatedAt.off = 0 := by
  have hc : (record.createdAt.utc.truncate millisecond).off = 0 := by
    rw [Time.truncate_off, Time.utc_off]
  refine ⟨hc, ?_⟩
  simp only [normalizeLocalRecord]
  split
  · exact hc
  · rw [Time.truncate_off, Time.utc_off]

/-- Only a zero expiry keeps its offset. -/
theorem normalizeLocalRecord_expiresAt (record : LocalRecord) :
    (normalizeLocalRecord record).expiresAt.off = 0 ∨
      (normalizeLocalRecord record).expiresAt = record.expiresAt ∧
        record.expiresAt.isZero = true := by
  simp only [normalizeLocalRecord]
  split
  · rename_i hz
    exact .inr ⟨rfl, hz⟩
  · left
    rw [Time.truncate_off, Time.utc_off]

/-! ## Record files -/

theorem length_localRecordFilename (id : Bytes) : (localRecordFilename id).length = 68 := by
  rw [localRecordFilename, length_append, length_hexEncode, length_sha256]
  rfl

theorem localRecordFilename_ne_lock (id : Bytes) :
    localRecordFilename id ≠ localStoreLockFilename := by
  intro h
  have hlen := congrArg length h
  rw [length_localRecordFilename] at hlen
  exact absurd hlen (by decide)

/-- File names tell IDs apart as far as the hash does. -/
theorem localRecordFilename_inj {ids : Set Bytes}
    (hsha : Set.InjOn sha256 (Set.image localRecordPath ids)) {id' : Bytes} (hid : id ∈ ids)
    (hid' : id' ∈ ids) (h : localRecordFilename id = localRecordFilename id') : id = id' := by
  have hhash := hexEncode_inj (append_cancel_right h)
  have hpath := hsha (Set.mem_image_of_mem _ hid) (Set.mem_image_of_mem _ hid') hhash
  exact append_cancel_left hpath

variable (h : sealRecord a key nonce record filename = .ok encoded)

include h

theorem sealRecord_ok :
    ∃ plaintext, marshal localRecordCodec record = some plaintext ∧ key.length = aesKeyBytes ∧
      encoded = localRecordMagic ++ nonce ++
        a.sealWith key nonce plaintext (localRecordDomain ++ filename) ∧
      encoded.length ≤ maxLocalRecordFileBytes := by
  unfold sealRecord at h
  split at h
  · cases h
  · rename_i plaintext hm
    split at h
    · cases h
    · rename_i hkey
      dsimp only at h
      split at h
      · cases h
      · rename_i hlen
        obtain rfl := Except.ok.inj h
        exact ⟨plaintext, hm, not_not.mp hkey, rfl, not_lt.mp hlen⟩

/-- A sealed record is read as what its text is read as. -/
theorem openRecord_sealRecord {w : LocalRecord}
    (hnonce : nonce.length = gcmNonceBytes) (hreads : localRecordCodec.Reads record w) :
    openRecord a key filename encoded = .ok w := by
  obtain ⟨plaintext, hm, hkey, rfl, -⟩ := sealRecord_ok h
  have hhead : (localRecordMagic ++ nonce).length = localRecordMagic.length + gcmNonceBytes := by
    rw [length_append, hnonce]
  have hmagic : (localRecordMagic ++ nonce ++
      a.sealWith key nonce plaintext (localRecordDomain ++ filename)).take localRecordMagic.length =
        localRecordMagic := by
    rw [append_assoc, take_left]
  unfold openRecord
  rw [if_neg (not_not.mpr hkey)]
  dsimp only
  rw [if_neg, ← hhead, take_left, drop_left, drop_left, a.openWith_sealWith]
  · simp only [unmarshal_of_reads hreads hm]
  · rintro (hshort | hne)
    · rw [length_append, hhead, a.length_sealWith] at hshort
      unfold tagSize at hshort
      omega
    · exact hne hmagic

omit h in
/-- The text of a valid record: the payload in base64, and not much more. -/
theorem localRecordCodec_sized {created updated expires : Bytes}
    (hval : validateLocalRecord record now = .ok ())
    (hc : record.createdAt.marshalText = some created)
    (hu : record.updatedAt.marshalText = some updated)
    (he : record.expiresAt.marshalText = some expires) :
    localRecordCodec.Sized record (4 * ((record.payload.length + 2) / 3))
      (4 * ((record.payload.length + 2) / 3) + 512) := by
  obtain ⟨hid, hkind, hpolicy, -⟩ := validateLocalRecord_ok hval
  have hkinds : ∀ k ∈ [localKindDelivery, localKindInbox, localKindOutbox, localKindFileCache,
      localKindReplay, localKindGroupState, localKindDeviceEvent, localKindReputation],
      k.length ≤ 12 := by decide
  have hpolicies : ∀ p ∈ [pruneNever, pruneOldest, pruneAfterExpiry],
      Plain p ∧ p.length ≤ 12 := by decide
  have hkindLen := hkinds record.kind (by simpa [validLocalRecordKind] using hkind)
  obtain ⟨hpolicyPlain, hpolicyLen⟩ := hpolicies _ hpolicy
  have hidLen : record.id.length ≤ 128 := by
    simp only [validLocalRecordID, Bool.and_eq_true, decide_eq_true_eq] at hid
    exact hid.1.2
  have hidPlain := plain_of_validLocalRecordID hid
  exact structCodec_sized (k := 94) rfl (.cons (uint8Codec_atMost _)
    (.cons (stringCodec_sized hidPlain)
      (.cons (stringCodec_sized (plain_of_validLocalRecordKind hkind))
        (.cons (timeCodec_sized hc) (.cons (timeCodec_sized hu) (.cons (timeCodec_sized he)
          (.cons (stringCodec_sized hpolicyPlain) (.cons (bytesCodec_sized _) .nil))))))))
    (by dsimp only; omega) (by dsimp only; omega)

omit h in
/-- A valid record whose times have a text is never too long for a file. -/
theorem sealRecord_writes (a : Aead) {key nonce : Bytes} {record : LocalRecord} {now : Time}
    {created updated expires : Bytes} (filename : Bytes)
    (hval : validateLocalRecord record now = .ok ()) (hkey : key.length = aesKeyBytes)
    (hnonce : nonce.length = gcmNonceBytes) (hc : record.createdAt.marshalText = some created)
    (hu : record.updatedAt.marshalText = some updated)
    (he : record.expiresAt.marshalText = some expires) :
    ∃ encoded, sealRecord a key nonce record filename = .ok encoded := by
  obtain ⟨plaintext, hm, -, hlen⟩ := marshal_sized (localRecordCodec_sized hval hc hu he)
  have hpayload := validateLocalRecord_payload hval
  unfold sealRecord
  rw [hm]
  dsimp only
  rw [if_neg (not_not.mpr hkey), if_neg]
  · exact ⟨_, rfl⟩
  · have hmagic : localRecordMagic.length = 8 := by decide
    rw [not_lt, length_append, length_append, a.length_sealWith, hnonce, hmagic]
    unfold maxLocalRecordPayloadBytes at hpayload
    unfold maxLocalRecordFileBytes tagSize gcmNonceBytes
    omega

theorem recordFileOk_sealRecord : recordFileOk ⟨.regular, 0o600, encoded⟩ = true := by
  obtain ⟨plaintext, -, -, rfl, hle⟩ := sealRecord_ok h
  have hpos : 0 < (localRecordMagic ++ nonce ++
      a.sealWith key nonce plaintext (localRecordDomain ++ filename)).length := by
    rw [length_append, a.length_sealWith]
    unfold tagSize
    omega
  simp only [recordFileOk, Bool.and_eq_true, decide_eq_true_eq]
  exact ⟨⟨⟨rfl, (by decide : ((0o600 : Nat) &&& 0o077 == 0) = true)⟩, hpos⟩, hle⟩

omit h

theorem readRecord_ok {dir : Disk} {clock : Time}
    (h : readRecord a key dir clock filename = .ok record) :
    ∃ f, dir.files.lookup filename = some f ∧ recordFileOk f = true ∧
      openRecord a key filename f.data = .ok record ∧
      validateLocalRecord record clock = .ok () := by
  unfold readRecord at h
  split at h
  · cases h
  · rename_i f hf
    split at h
    · cases h
    · rename_i hok
      split at h
      · cases h
      · rename_i r hopen
        split at h
        · cases h
        · rename_i hval
          obtain rfl := Except.ok.inj h
          exact ⟨f, hf, by simpa using hok, hopen, hval⟩

/-! ## Entries and directory -/

/-- What stands behind an entry: a file of its own that opens to its record. -/
structure Backed (a : Aead) (strict : Prop) (s : EncryptedDiskStore) (id : Bytes)
    (entry : LocalRecordMeta) (f : File) (record : LocalRecord) : Prop where
  file : s.dir.files.lookup (localRecordFilename id) = some f
  fileOk : recordFileOk f = true
  opens : openRecord a s.key (localRecordFilename id) f.data = .ok record
  recordID : record.id = id
  entryEq : entry = { metaFromRecord record (localRecordFilename id)
    (localRecordCharge f.data.length) with expiresAt := entry.expiresAt }
  expiry : entry.expiresAt = record.expiresAt ∨ ¬ strict ∧ entry.expiresAt.isZero = true
  groupState : entry.kind = localKindGroupState →
    entry.prunePolicy = pruneNever ∧ entry.expiresAt.isZero = true

/-- Entries and directory, with the files in `rest` still to be loaded. -/
structure Indexed (a : Aead) (strict : Prop) (s : EncryptedDiskStore) (rest : List Bytes) : Prop where
  used : s.used = s.entries.sum (·.charge)
  backed : ∀ id entry, s.entries.lookup id = some entry →
    ∃ f record, Backed a strict s id entry f record
  fresh : ∀ id entry, s.entries.lookup id = some entry → localRecordFilename id ∉ rest
  files : ∀ name f, s.dir.files.lookup name = some f → name = localStoreLockFilename ∨
    name ∈ rest ∨ ∃ id entry, s.entries.lookup id = some entry ∧ localRecordFilename id = name
  apart : ∀ id id' entry entry', s.entries.lookup id = some entry →
    s.entries.lookup id' = some entry' → localRecordFilename id = localRecordFilename id' → id = id'

section

variable {a : Aead} {strict : Prop} {s : EncryptedDiskStore} {rest : List Bytes} {id : Bytes}
  {entry : LocalRecordMeta}

theorem Indexed.entry_id (h : Indexed a strict s rest) (he : s.entries.lookup id = some entry) :
    entry.id = id ∧ entry.path = localRecordFilename id := by
  obtain ⟨f, record, hb⟩ := h.backed id entry he
  rw [hb.entryEq]
  exact ⟨hb.recordID, rfl⟩

theorem Indexed.lookup_delete (h : Indexed a strict s rest)
    (he : s.entries.lookup id = some entry) : entry.id = id ∧
      (∀ k, (s.deleteMetaLocked entry).entries.lookup k =
        if k = id then none else s.entries.lookup k) ∧
      ∀ name, (s.deleteMetaLocked entry).dir.files.lookup name =
        if name = localRecordFilename id then none else s.dir.files.lookup name := by
  obtain ⟨hid, hpath⟩ := h.entry_id he
  refine ⟨hid, fun k => ?_, fun name => ?_⟩
  · rw [← hid]
    exact lookup_erase_eq ..
  · rw [← hpath]
    exact lookup_erase_eq ..

/-- The same file under the same key backs the same entry. -/
theorem Backed.transfer {s' : EncryptedDiskStore} {f : File} {record : LocalRecord}
    (h : Backed a strict s id entry f record) (hkey : s'.key = s.key)
    (hfile : s'.dir.files.lookup (localRecordFilename id) =
      s.dir.files.lookup (localRecordFilename id)) : Backed a strict s' id entry f record :=
  ⟨hfile.trans h.file, h.fileOk, hkey ▸ h.opens, h.recordID, h.entryEq, h.expiry, h.groupState⟩

/-- Deleting a record takes its entry, its file and its charge. -/
theorem Indexed.delete (h : Indexed a strict s rest) (he : s.entries.lookup id = some entry) :
    Indexed a strict (s.deleteMetaLocked entry) rest := by
  obtain ⟨hid, hentries, hfiles⟩ := h.lookup_delete he
  have hkept : ∀ k e, (s.deleteMetaLocked entry).entries.lookup k = some e →
      k ≠ id ∧ s.entries.lookup k = some e := by
    intro k e hk
    rw [hentries] at hk
    split at hk
    · cases hk
    · exact ⟨‹_›, hk⟩
  refine ⟨?_, fun k e hk => ?_, fun k e hk => ?_, fun name f hf => ?_, fun k k' e e' hk hk' => ?_⟩
  · change s.used - entry.charge = sum (·.charge) (s.entries.erase entry.id)
    rw [hid, sum_erase _ he, h.used]
  · obtain ⟨hne, hk⟩ := hkept k e hk
    obtain ⟨f, record, hb⟩ := h.backed k e hk
    refine ⟨f, record, hb.transfer rfl ?_⟩
    rw [hfiles, if_neg fun hname => hne (h.apart k id e entry hk he hname)]
  · exact h.fresh k e (hkept k e hk).2
  · rw [hfiles] at hf
    split at hf
    · cases hf
    · rename_i hname
      obtain hlock | hrest | ⟨k, e, hk, hke⟩ := h.files name f hf
      · exact .inl hlock
      · exact .inr (.inl hrest)
      · refine .inr (.inr ⟨k, e, ?_, hke⟩)
        rw [hentries, if_neg fun hkid => hname (by rw [← hke, hkid])]
        exact hk
  · exact h.apart k k' e e' (hkept k e hk).2 (hkept k' e' hk').2

end

/-! ## Pruning -/

/-- What pruning can do: some prunable records other than the excluded one are gone, with
    their files. -/
structure Pruned (now : Time) (excludeID : Bytes) (s s' : EncryptedDiskStore) : Prop where
  same : s'.key = s.key ∧ s'.maxBytes = s.maxBytes ∧ s'.closed = s.closed
  kept : ∀ id entry, s'.entries.lookup id = some entry → s.entries.lookup id = some entry
  gone : ∀ id entry, s.entries.lookup id = some entry → s'.entries.lookup id = none →
    localRecordPrunable entry now = true ∧ id ≠ excludeID
  files : ∀ name f, s'.dir.files.lookup name = some f → s.dir.files.lookup name = some f
  frame : ∀ name, (∀ id entry, s.entries.lookup id = some entry → s'.entries.lookup id = none →
    localRecordFilename id ≠ name) → s'.dir.files.lookup name = s.dir.files.lookup name

theorem Pruned.refl (now : Time) (excludeID : Bytes) (s : EncryptedDiskStore) :
    Pruned now excludeID s s :=
  ⟨⟨rfl, rfl, rfl⟩, fun _ _ h => h, fun _ _ h h' => (Option.some_ne_none _ (h.symm.trans h')).elim,
    fun _ _ h => h, fun _ _ => rfl⟩

theorem Pruned.trans {s' s'' : EncryptedDiskStore} (h : Pruned now excludeID s s')
    (h' : Pruned now excludeID s' s'') : Pruned now excludeID s s'' := by
  obtain ⟨hk, hm, hc⟩ := h.same
  obtain ⟨hk', hm', hc'⟩ := h'.same
  refine ⟨⟨hk'.trans hk, hm'.trans hm, hc'.trans hc⟩,
    fun id entry he => h.kept id entry (h'.kept id entry he), fun id entry he hnone => ?_,
    fun name f hf => h.files name f (h'.files name f hf), fun name hname => ?_⟩
  · cases hmid : s'.entries.lookup id with
    | none => exact h.gone id entry he hmid
    | some entry' =>
      obtain rfl := Option.some.inj ((h.kept id entry' hmid).symm.trans he)
      exact h'.gone id entry' hmid hnone
  · rw [h'.frame name fun id entry he hnone => hname id entry (h.kept id entry he) hnone]
    refine h.frame name fun id entry he hnone => hname id entry he ?_
    cases hend : s''.entries.lookup id with
    | none => rfl
    | some entry' => exact absurd (h'.kept id entry' hend) (by simp [hnone])

theorem Pruned.delete {strict : Prop} {rest : List Bytes} {entry : LocalRecordMeta}
    (h : Indexed a strict s rest) (he : s.entries.lookup id = some entry)
    (hp : localRecordPrunable entry now = true) (hx : id ≠ excludeID) :
    Pruned now excludeID s (s.deleteMetaLocked entry) := by
  obtain ⟨-, hentries, hfiles⟩ := h.lookup_delete he
  refine ⟨⟨rfl, rfl, rfl⟩, fun k e hk => ?_, fun k e hk hnone => ?_, fun name f hf => ?_,
    fun name hname => ?_⟩
  · rw [hentries] at hk
    split at hk
    · cases hk
    · exact hk
  · rw [hentries] at hnone
    split at hnone
    · rename_i hkid
      subst hkid
      obtain rfl := Option.some.inj (hk.symm.trans he)
      exact ⟨hp, hx⟩
    · exact absurd (hk.symm.trans hnone) (by simp)
  · rw [hfiles] at hf
    split at hf
    · cases hf
    · exact hf
  · rw [hfiles, if_neg]
    intro hn
    exact hname id entry he (by rw [hentries, if_pos rfl]) hn.symm

/-- The records to be pruned one after the other. -/
structure Victims (s : EncryptedDiskStore) (now : Time) (excludeID : Bytes)
    (l : List LocalRecordMeta) : Prop where
  entry : ∀ m ∈ l, s.entries.lookup m.id = some m ∧ localRecordPrunable m now = true ∧
    m.id ≠ excludeID
  nodup : (l.map (·.id)).Nodup

theorem deletePruned_spec {strict : Prop} {rest : List Bytes}
 (ctx : Context) :
    ∀ (l : List LocalRecordMeta) (k : Nat) (report : PruneReport) (s : EncryptedDiskStore),
      Indexed a strict s rest → Victims s now excludeID l →
      Indexed a strict (deletePruned ctx k l report s).2 rest ∧
        Pruned now excludeID s (deletePruned ctx k l report s).2 ∧
        ((deletePruned ctx k l report s).1.2 = none →
          (deletePruned ctx k l report s).2.used =
            s.used - (l.map (·.charge)).sum ∧
          (deletePruned ctx k l report s).2.entries.size + l.length =
            s.entries.size)
  | [], _, _, s, h, _ => ⟨h, Pruned.refl _ _ s, fun _ => ⟨by simp [deletePruned], rfl⟩⟩
  | m :: l, k, report, s, h, hv => by
    unfold deletePruned
    cases hctx : ctx.err k with
    | some reason => exact ⟨h, Pruned.refl _ _ s, fun hnone => by cases hnone⟩
    | none =>
      obtain ⟨he, hp, hx⟩ := hv.entry m mem_cons_self
      have hnd := nodup_cons.mp (map_cons ▸ hv.nodup)
      have hv' : Victims (s.deleteMetaLocked m) now excludeID l := by
        refine ⟨fun m' hm' => ?_, hnd.2⟩
        obtain ⟨he', hp', hx'⟩ := hv.entry m' (mem_cons_of_mem _ hm')
        refine ⟨?_, hp', hx'⟩
        change (s.entries.erase m.id).lookup m'.id = some m'
        rw [Finmap.lookup_erase_ne, he']
        intro heq
        exact hnd.1 (heq ▸ mem_map_of_mem hm')
      obtain ⟨hi, hpr, hcount⟩ := deletePruned_spec ctx l (k + 1)
        ⟨report.records + 1, report.bytes + m.charge⟩ _ (h.delete he) hv'
      refine ⟨hi, (Pruned.delete h he hp hx).trans hpr, fun hnone => ?_⟩
      dsimp only at hnone ⊢
      obtain ⟨hused, hsize⟩ := hcount hnone
      have hone : (s.deleteMetaLocked m).entries.size + 1 = s.entries.size :=
        size_erase he
      have hcharge : (s.deleteMetaLocked m).used = s.used - m.charge := rfl
      rw [hcharge] at hused
      rw [map_cons, sum_cons, length_cons]
      exact ⟨by omega, by omega⟩

/-- The count loop adds up the charges of the candidates it passes, and stops as soon as it has
    enough. -/
theorem countPruned_spec (need recordsToRemove : Int) :
    ∀ (l : List LocalRecordMeta) (available : Int) (count : Nat),
      ∃ k ≤ l.length, countPruned need recordsToRemove l available count =
          (available + ((l.take k).map (·.charge)).sum, count + k) ∧
        (∀ m < k, available + ((l.take m).map (·.charge)).sum < need ∨
          ((count + m : Nat) : Int) < recordsToRemove) ∧
        (k = l.length ∨ ¬ (available + ((l.take k).map (·.charge)).sum < need ∨
          ((count + k : Nat) : Int) < recordsToRemove))
  | [], available, count =>
    ⟨0, le_rfl, by simp [countPruned], fun m hm => absurd hm (Nat.not_lt_zero m), .inl rfl⟩
  | m :: l, available, count => by
    unfold countPruned
    split
    · rename_i hshort
      obtain ⟨k, hk, heq, hbelow, hstop⟩ :=
        countPruned_spec need recordsToRemove l (available + m.charge) (count + 1)
      have hsum : ∀ i, available + (((m :: l).take (i + 1)).map (·.charge)).sum =
          available + m.charge + ((l.take i).map (·.charge)).sum := fun i => by
        rw [take_succ_cons, map_cons, sum_cons, add_assoc]
      have hcount : ∀ i, count + (i + 1) = count + 1 + i := fun i => by omega
      refine ⟨k + 1, Nat.succ_le_succ hk, ?_, fun i hi => ?_, ?_⟩
      · rw [heq, hsum, hcount k]
      · cases i with
        | zero => simpa using hshort
        | succ i =>
          rw [hsum, hcount i]
          exact hbelow i (Nat.lt_of_succ_lt_succ hi)
      · rw [hsum, hcount k, length_cons]
        exact hstop.imp_left (congrArg (· + 1))
    · rename_i henough
      exact ⟨0, Nat.zero_le _, by simp, fun i hi => absurd hi (Nat.not_lt_zero i),
        .inr (by simpa using henough)⟩

theorem victims_candidates (h : ∀ id entry, s.entries.lookup id = some entry → entry.id = id)
    (now : Time) (excludeID : Bytes) :
    Victims s now excludeID (s.pruneCandidates now excludeID) := by
  have hids : (s.entries.sortedKeys.filterMap s.entries.lookup).map (·.id) = s.entries.sortedKeys := by
    have hall : ∀ k ∈ s.entries.sortedKeys, ∃ m, s.entries.lookup k = some m ∧ m.id = k := by
      intro k hk
      obtain ⟨m, hm⟩ := mem_keys_iff.mp (mem_sortedKeys.mp hk)
      exact ⟨m, hm, h k m hm⟩
    generalize s.entries.sortedKeys = ks at hall
    induction ks with
    | nil => rfl
    | cons k ks ih =>
      obtain ⟨m, hm, hid⟩ := hall k mem_cons_self
      rw [filterMap_cons, hm]
      simp only [map_cons, hid, ih fun k' hk' => hall k' (mem_cons_of_mem _ hk')]
  have hperm := mergeSort_perm ((s.entries.sortedKeys.filterMap s.entries.lookup).filter
    fun entry => entry.id != excludeID && localRecordPrunable entry now)
    fun i j => !pruneBefore now j i
  constructor
  · intro m hm
    have hm := hperm.mem_iff.mp hm
    obtain ⟨hm, hcond⟩ := mem_filter.mp hm
    obtain ⟨k, -, hk⟩ := mem_filterMap.mp hm
    rw [Bool.and_eq_true, bne_iff_ne] at hcond
    exact ⟨(h k m hk).symm ▸ hk, hcond.2, hcond.1⟩
  · rw [pruneCandidates, (hperm.map _).nodup_iff]
    refine Nodup.sublist (filter_sublist.map _) ?_
    rw [hids]
    exact sortedKeys_nodup _

theorem Victims.take {l : List LocalRecordMeta} (h : Victims s now excludeID l) (k : Nat) :
    Victims s now excludeID (l.take k) :=
  ⟨fun m hm => h.entry m (mem_of_mem_take hm), h.nodup.sublist ((take_sublist k l).map _)⟩

/-- Pruning keeps entries and directory in step, and meets its targets unless it fails. -/
theorem pruneToLocked_spec {a : Aead} {strict : Prop} {s : EncryptedDiskStore} {rest : List Bytes}
    (h : Indexed a strict s rest) (ctx : Context) (k : Nat) (targetBytes : Int)
    (targetRecords : Nat) (now : Time) (excludeID : Bytes) {report : PruneReport}
    {err : Option ClientStoreError} {s' : EncryptedDiskStore}
    (heq : s.pruneToLocked ctx k targetBytes targetRecords now excludeID = ((report, err), s')) :
    Indexed a strict s' rest ∧ Pruned now excludeID s s' ∧
      (err = none → s'.used ≤ targetBytes ∧ s'.entries.size ≤ targetRecords) := by
  unfold pruneToLocked at heq
  split at heq
  · rename_i hmet
    simp only [Prod.mk.injEq] at heq
    obtain ⟨-, rfl⟩ := heq
    exact ⟨h, Pruned.refl _ _ _, fun _ => hmet⟩
  · have hv := victims_candidates (fun _ _ he => (h.entry_id he).1) now excludeID
    generalize hneed : max 0 (s.used - targetBytes) = need at heq
    generalize hrem : max 0 ((s.entries.size : Int) - targetRecords) = recordsToRemove at heq
    obtain ⟨n, hn, hcount, -⟩ := countPruned_spec need recordsToRemove
      (s.pruneCandidates now excludeID) 0 0
    simp only [hcount, zero_add] at heq
    split at heq
    · simp only [Prod.mk.injEq] at heq
      obtain ⟨⟨-, rfl⟩, rfl⟩ := heq
      exact ⟨h, Pruned.refl _ _ _, fun hnone => by cases hnone⟩
    · rename_i henough
      obtain ⟨hi, hp, hdone⟩ := deletePruned_spec ctx _ k .zero s h (hv.take n)
      rw [heq] at hi hp hdone
      refine ⟨hi, hp, fun hnone => ?_⟩
      obtain ⟨hused, hsize⟩ := hdone hnone
      simp only at hused hsize
      rw [length_take, min_eq_left hn] at hsize
      omega

end Veilmesh.Client

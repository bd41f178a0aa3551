/-
  The strict sending pipeline (`message/pipeline.go`): one ciphertext per device.

  `SendDirect` signs a message once, encrypts it for every device of the recipient's profile
  in turn, checks what the ratchet returns, and hands it to the transport. It stops at the
  first device for which one of these steps fails, and returns what was sent until then.
  Ratchet and transport are arbitrary machines. Go passes a payload by reference, so a
  transport may also write over it; the returned list is copied after `Send`.

  * `sendDevices_spec`: what the loop over the devices sends and returns.
  * `sendDirect_fans_out`: the list returned is what the transport took, device by device.
  * `sendDirect_no_devices`: a profile without devices is an error, though nothing is left out.
-/
import Veilmesh.Message.Pipeline

namespace Veilmesh.Message

open Lib Protocol Pqcrypto Account List

/-! ## The interfaces -/

/-- The arguments of `RatchetProvider.Encrypt`. -/
structure EncryptCall where
  peerID : Bytes
  peerDeviceID : Bytes
  plaintext : Bytes
  expiresAt : Time

/-- `RatchetProvider.Encrypt`: a ciphertext or an error. -/
abbrev Encryptor (ρ : Type) := Mealy ρ EncryptCall (Option RoutedCiphertext)

/-- `PrivateTransport.Send`: whether there was no error, and what it wrote over the payload
    from its first byte on. -/
abbrev PrivateTransport (τ : Type) := Mealy τ RoutedCiphertext (Bool × Bytes)

/-- The ciphertext once its payload has been written over; the slice keeps its length. -/
def RoutedCiphertext.overwritten (item : RoutedCiphertext) (written : Bytes) : RoutedCiphertext :=
  { item with
    payload := written.take item.payload.length ++ item.payload.drop written.length }

theorem length_overwritten (item : RoutedCiphertext) (written : Bytes) :
    (item.overwritten written).payload.length = item.payload.length := by
  simp only [RoutedCiphertext.overwritten, length_append, length_take, length_drop]
  omega

theorem overwritten_nil (item : RoutedCiphertext) : item.overwritten [] = item := by
  simp [RoutedCiphertext.overwritten]

/-! ## The pipeline -/

inductive SendError where
  | unavailable
  | profile (e : ProfileError)
  | newDirect (e : NewDirectError)
  | encode (e : MessageError)
  | ratchet
  | invalidRouted
  | reusedRoute
  | transport
  deriving DecidableEq, Repr

/-- The check of what the ratchet returns for a message with this expiry. -/
def routable (expiresAt : Time) (item : RoutedCiphertext) : Bool :=
  validRouteTag item.routeTag && decide (item.payload.length ≠ 0) &&
    decide (item.payload.length ≤ defaultMaxItemBytes) && item.expiresAt.equal expiresAt

/-- The variables of the loop over the devices, with the states of ratchet and transport and
    the calls of `Send` made so far. -/
structure Fanout (ρ τ : Type) where
  ratchet : ρ
  transport : τ
  seenRoutes : GoMap Bytes Unit
  routed : List RoutedCiphertext
  sent : List RoutedCiphertext

variable {ρ τ : Type}

section

variable (ratchet : Encryptor ρ) (transport : PrivateTransport τ) (call : Bytes → EncryptCall)

/-- The loop over the identifiers of the devices; `call` are the arguments of `Encrypt`. -/
def sendDevices : List Bytes → Fanout ρ τ → Option SendError × Fanout ρ τ
  | [], s => (none, s)
  | deviceID :: devices, s =>
    match ratchet.step s.ratchet (call deviceID) with
    | (none, r) => (some .ratchet, { s with ratchet := r })
    | (some item, r) =>
      if routable (call deviceID).expiresAt item = false then
        (some .invalidRouted, { s with ratchet := r })
      else if item.routeTag ∈ s.seenRoutes.keys then (some .reusedRoute, { s with ratchet := r })
      else
        let reply := transport.step s.transport item
        let s' : Fanout ρ τ :=
          { s with
            ratchet := r
            transport := reply.2
            seenRoutes := s.seenRoutes.insert item.routeTag ()
            sent := s.sent ++ [item] }
        if reply.1.1 = false then (some .transport, s')
        else sendDevices devices { s' with routed := s.routed ++ [item.overwritten reply.1.2] }

/-- The ciphertexts for which `Send` returns nil, with what it writes over their payloads. -/
def acceptedFrom : τ → List RoutedCiphertext → List (RoutedCiphertext × Bytes)
  | _, [] => []
  | t, item :: items =>
    let reply := transport.step t item
    if reply.1.1 = false then acceptedFrom reply.2 items
    else (item, reply.1.2) :: acceptedFrom reply.2 items

/-- What the loop does from `s` to `s'`: `more` are its calls of `Send`. -/
structure FansOut (devices : List Bytes) (expiresAt : Time) (s : Fanout ρ τ)
    (err : Option SendError) (s' : Fanout ρ τ) (more : List RoutedCiphertext) : Prop where
  sent : s'.sent = s.sent ++ more
  answers : more.map some <+: ratchet.answersFrom s.ratchet (devices.map call)
  routed : s'.routed = s.routed ++
    (acceptedFrom transport s.transport more).map fun p => p.1.overwritten p.2
  inOrder : (acceptedFrom transport s.transport more).map Prod.fst =
    more.take (acceptedFrom transport s.transport more).length
  routable : ∀ item ∈ more, routable expiresAt item = true
  distinct : (more.map RoutedCiphertext.routeTag).Nodup
  fresh : ∀ item ∈ more, item.routeTag ∉ s.seenRoutes.keys
  complete : err = none ↔ (acceptedFrom transport s.transport more).length = devices.length

variable {ratchet transport call}

/-- A device for which nothing is sent ends the loop. -/
theorem fansOut_stop {deviceID : Bytes} {devices : List Bytes} {expiresAt : Time}
    {s s' : Fanout ρ τ} {e : SendError} (hsent : s'.sent = s.sent) (hrouted : s'.routed = s.routed) :
    FansOut ratchet transport call (deviceID :: devices) expiresAt s (some e) s' [] where
  sent := by rw [hsent, append_nil]
  answers := nil_prefix
  routed := by rw [hrouted]; exact (append_nil _).symm
  inOrder := rfl
  routable := fun _ h => nomatch h
  distinct := nodup_nil
  fresh := fun _ h => nomatch h
  complete := by simp [acceptedFrom]

/-- The loop sends the ratchet's answers in turn, up to the first that is not accepted. -/
theorem sendDevices_spec {expiresAt : Time} (hcall : ∀ id, (call id).expiresAt = expiresAt)
    (devices : List Bytes) (s : Fanout ρ τ) :
    ∃ more, FansOut ratchet transport call devices expiresAt s
      (sendDevices ratchet transport call devices s).1
      (sendDevices ratchet transport call devices s).2 more := by
  induction devices generalizing s with
  | nil =>
    exact ⟨[], (append_nil _).symm, nil_prefix, (append_nil _).symm, rfl,
      fun _ h => (nomatch h), nodup_nil, fun _ h => (nomatch h), iff_of_true rfl rfl⟩
  | cons deviceID devices ih =>
    rw [sendDevices]
    have hanswers : ratchet.answersFrom s.ratchet ((deviceID :: devices).map call) =
        (ratchet.step s.ratchet (call deviceID)).1 ::
          ratchet.answersFrom (ratchet.step s.ratchet (call deviceID)).2 (devices.map call) := rfl
    generalize ratchet.step s.ratchet (call deviceID) = answer at hanswers ⊢
    obtain ⟨item | item, r⟩ := answer
    · exact ⟨[], fansOut_stop rfl rfl⟩
    dsimp only
    split
    · exact ⟨[], fansOut_stop rfl rfl⟩
    rename_i hroutable
    rw [hcall, Bool.not_eq_false] at hroutable
    split
    · exact ⟨[], fansOut_stop rfl rfl⟩
    rename_i hfresh
    have hitem : ∀ x ∈ [item], x = item := fun x hx => mem_singleton.mp hx
    split
    · -- the last call of `Send` fails
      rename_i hok
      have hnone : acceptedFrom transport s.transport [item] = [] := if_pos hok
      refine ⟨[item], rfl, ?_, ?_, ?_, ?_, nodup_singleton _, ?_, ?_⟩
      · rw [hanswers]
        exact cons_prefix_cons.mpr ⟨rfl, nil_prefix⟩
      · rw [hnone]
        exact (append_nil _).symm
      · rw [hnone]
        rfl
      · exact fun x hx => hitem x hx ▸ hroutable
      · exact fun x hx => hitem x hx ▸ hfresh
      · simp [hnone]
    · rename_i hok
      set reply := transport.step s.transport item
      obtain ⟨more, h⟩ := ih ⟨r, reply.2, s.seenRoutes.insert item.routeTag (),
        s.routed ++ [item.overwritten reply.1.2], s.sent ++ [item]⟩
      have hcons : acceptedFrom transport s.transport (item :: more) =
          (item, reply.1.2) :: acceptedFrom transport reply.2 more := if_neg hok
      have hnew : ∀ x ∈ more, x.routeTag ≠ item.routeTag ∧ x.routeTag ∉ s.seenRoutes.keys := by
        intro x hx
        have hkeys := h.fresh x hx
        rw [GoMap.keys_insert, Finset.mem_insert, not_or] at hkeys
        exact hkeys
      refine ⟨item :: more, ?_, ?_, ?_, ?_, ?_, ?_, ?_, ?_⟩
      · rw [h.sent, append_assoc, singleton_append]
      · rw [hanswers]
        exact cons_prefix_cons.mpr ⟨rfl, h.answers⟩
      · rw [h.routed, hcons, append_assoc]
        rfl
      · rw [hcons, map_cons, length_cons, take_succ_cons, h.inOrder]
      · exact forall_mem_cons.mpr ⟨hroutable, h.routable⟩
      · refine nodup_cons.mpr ⟨fun hmem => ?_, h.distinct⟩
        obtain ⟨x, hx, htag⟩ := mem_map.mp hmem
        exact (hnew x hx).1 htag
      · exact forall_mem_cons.mpr ⟨hfresh, fun x hx => (hnew x hx).2⟩
      · rw [h.complete, hcons, length_cons, length_cons, Nat.add_right_cancel_iff]

end

/-- What `SendDirect` returns, with the states afterwards and the calls of `Send` it made. -/
structure SendResult (ρ τ : Type) where
  message : SignedMessage
  routed : List RoutedCiphertext
  err : Option SendError
  sent : List RoutedCiphertext
  state : ρ × τ

/-- The variables before the first device. -/
def Fanout.start (state : ρ × τ) : Fanout ρ τ := ⟨state.1, state.2, ∅, [], []⟩

/-- The arguments of `Encrypt` for a device. -/
def encryptCall (recipientID plaintext : Bytes) (expiresAt : Time) (deviceID : Bytes) :
    EncryptCall :=
  ⟨recipientID, deviceID, plaintext, expiresAt⟩

/-- `SendDirect` with the random bytes of the message identifier. No sender stands for every
    part of the pipeline that may be nil. -/
def sendDirect {c : Primitives} (ratchet : Encryptor ρ) (transport : PrivateTransport τ)
    (state : ρ × τ) (sender : Option (LocalAccount c)) (recipient : PublicProfile) (body : Bytes)
    (now : Time) (retention : Duration) (random : Bytes) : SendResult ρ τ :=
  let failed (e : SendError) : SendResult ρ τ := ⟨SignedMessage.zero, [], some e, [], state⟩
  match sender with
  | none => failed .unavailable
  | some sender =>
    match verifyPublicProfile c recipient now with
    | .error e => failed (.profile e)
    | .ok () =>
      match newDirect sender recipient.accountID body now retention random with
      | .error e => failed (.newDirect e)
      | .ok message =>
        match encode message with
        | .error e => failed (.encode e)
        | .ok plaintext =>
          let (err, s) := sendDevices ratchet transport
            (encryptCall recipient.accountID plaintext message.expiresAt)
            (recipient.devices.map (·.device.deviceID)) (Fanout.start state)
          ⟨message, s.routed, err, s.sent, s.ratchet, s.transport⟩

/-! ## What was sent -/

/-- A profile without devices is not accepted. -/
theorem verifyPublicProfile_no_devices {profile : PublicProfile} (h : profile.devices = [])
    (c : Primitives) (now : Time) : verifyPublicProfile c profile now = .error .invalidProfile := by
  have hfail : validateProfileStructure c profile now = .error .invalidProfile := by
    rw [validateProfileStructure, if_pos]
    simp [h]
  rw [verifyPublicProfile, hfail]

/-- `SendDirect` fails before the first device, or it is the loop over the devices. -/
theorem sendDirect_cases {c : Primitives} (ratchet : Encryptor ρ) (transport : PrivateTransport τ)
    (state : ρ × τ) (sender : Option (LocalAccount c)) (recipient : PublicProfile) (body : Bytes)
    (now : Time) (retention : Duration) (random : Bytes) :
    (∃ e, sendDirect ratchet transport state sender recipient body now retention random =
      ⟨SignedMessage.zero, [], some e, [], state⟩) ∨
    ∃ (message : SignedMessage) (plaintext : Bytes) (err : Option SendError) (s : Fanout ρ τ),
      recipient.devices ≠ [] ∧
      sendDevices ratchet transport
        (encryptCall recipient.accountID plaintext message.expiresAt)
        (recipient.devices.map (·.device.deviceID)) (Fanout.start state) = (err, s) ∧
      sendDirect ratchet transport state sender recipient body now retention random =
        ⟨message, s.routed, err, s.sent, s.ratchet, s.transport⟩ := by
  unfold sendDirect
  cases sender with
  | none => exact .inl ⟨_, rfl⟩
  | some sender =>
    dsimp only
    cases hprofile : verifyPublicProfile c recipient now with
    | error e => exact .inl ⟨_, rfl⟩
    | ok =>
      have hdevices : recipient.devices ≠ [] := by
        intro hnil
        rw [verifyPublicProfile_no_devices hnil] at hprofile
        cases hprofile
      cases newDirect sender recipient.accountID body now retention random with
      | error e => exact .inl ⟨_, rfl⟩
      | ok message =>
        dsimp only
        cases encode message with
        | error e => exact .inl ⟨_, rfl⟩
        | ok plaintext =>
          exact .inr ⟨message, plaintext, _, _, hdevices, rfl, rfl⟩

/-- Distinct tags, and every ciphertext as the message asks for it. -/
def WellRouted (expiresAt : Time) (items : List RoutedCiphertext) : Prop :=
  (items.map RoutedCiphertext.routeTag).Nodup ∧ ∀ item ∈ items, routable expiresAt item = true

theorem routable_overwritten {expiresAt : Time} {item : RoutedCiphertext} (written : Bytes) :
    routable expiresAt (item.overwritten written) = routable expiresAt item := by
  rw [routable, length_overwritten]
  rfl

/-- What the transport took is well routed once what it was given is. -/
theorem wellRouted_accepted {expiresAt : Time} {sent : List RoutedCiphertext}
    {accepted : List (RoutedCiphertext × Bytes)} (h : WellRouted expiresAt sent)
    (horder : accepted.map Prod.fst = sent.take accepted.length) :
    WellRouted expiresAt (accepted.map fun p => p.1.overwritten p.2) := by
  have htags : (accepted.map fun p => p.1.overwritten p.2).map RoutedCiphertext.routeTag =
      (sent.take accepted.length).map RoutedCiphertext.routeTag := by
    rw [← horder, map_map, map_map]
    rfl
  constructor
  · rw [htags]
    exact h.1.sublist ((take_sublist _ _).map _)
  · intro item hitem
    obtain ⟨p, hp, rfl⟩ := mem_map.mp hitem
    have hsent : p.1 ∈ sent.take accepted.length := horder ▸ mem_map_of_mem hp
    rw [routable_overwritten]
    exact h.2 _ (mem_of_mem_take hsent)

/-- A transport that does not write over payloads leaves every ciphertext as it was. -/
theorem acceptedFrom_unwritten {transport : PrivateTransport τ}
    (h : ∀ t item, (transport.step t item).1.2 = []) (t : τ) (items : List RoutedCiphertext) :
    ∀ p ∈ acceptedFrom transport t items, p.2 = [] := by
  induction items generalizing t with
  | nil => exact fun p hp => (nomatch hp)
  | cons item items ih =>
    rw [acceptedFrom]
    split
    · exact ih _
    · exact forall_mem_cons.mpr ⟨h t item, ih _⟩

/-- The fan-out is reported exactly. The list returned is what `Send` took, in order, as it
    left it; it is an initial part of what was sent, which in turn is an initial part of the
    ratchet's answers for the devices in their order; the ciphertexts sent and those returned
    are well routed; and there is no error exactly when no device of a profile that has
    devices was left out. -/
theorem sendDirect_fans_out {ρ τ : Type} {c : Primitives} (ratchet : Encryptor ρ)
    (transport : PrivateTransport τ) (state : ρ × τ) (sender : Option (LocalAccount c))
    (recipient : PublicProfile) (body : Bytes) (now : Time) (retention : Duration)
    (random : Bytes) :
    let result := sendDirect ratchet transport state sender recipient body now retention random
    let accepted := acceptedFrom transport state.2 result.sent
    result.routed = accepted.map (fun p => p.1.overwritten p.2) ∧
    ((∀ t item, (transport.step t item).1.2 = []) → result.routed = accepted.map Prod.fst) ∧
    accepted.map Prod.fst = result.sent.take result.routed.length ∧
    (∃ plaintext, result.sent.map some <+: ratchet.answersFrom state.1
      ((recipient.devices.map (·.device.deviceID)).map
        (encryptCall recipient.accountID plaintext result.message.expiresAt))) ∧
    WellRouted result.message.expiresAt result.sent ∧
    WellRouted result.message.expiresAt result.routed ∧
    (result.err = none ↔
      recipient.devices ≠ [] ∧ result.routed.length = recipient.devices.length) := by
  intro result accepted
  have hplain : result.routed = accepted.map (fun p => p.1.overwritten p.2) →
      (∀ t item, (transport.step t item).1.2 = []) → result.routed = accepted.map Prod.fst := by
    intro hrouted hread
    rw [hrouted]
    refine List.map_congr_left fun p hp => ?_
    rw [acceptedFrom_unwritten hread _ _ p hp, overwritten_nil]
  obtain ⟨e, hfail⟩ | ⟨message, plaintext, err, s, hdevices, hloop, hresult⟩ :=
    sendDirect_cases ratchet transport state sender recipient body now retention random
  · have hresult : result = ⟨SignedMessage.zero, [], some e, [], state⟩ := hfail
    have hnil : result.routed = accepted.map (fun p => p.1.overwritten p.2) := by
      simp only [accepted, hresult]
      rfl
    refine ⟨hnil, hplain hnil, ?_, ⟨[], ?_⟩, ?_, ?_, ?_⟩
    · simp only [accepted, hresult]
      rfl
    · rw [hresult]
      exact List.nil_prefix
    · rw [hresult]
      exact ⟨List.nodup_nil, fun _ h => (nomatch h)⟩
    · rw [hresult]
      exact ⟨List.nodup_nil, fun _ h => (nomatch h)⟩
    · rw [hresult]
      refine iff_of_false (nomatch ·) fun h => h.1 (List.length_eq_zero_iff.mp h.2.symm)
  · obtain ⟨more, h⟩ := @sendDevices_spec ρ τ ratchet transport
      (encryptCall recipient.accountID plaintext message.expiresAt) message.expiresAt
      (fun _ => rfl) (recipient.devices.map (·.device.deviceID)) (Fanout.start state)
    rw [hloop] at h
    have hresult' : result = ⟨message, s.routed, err, s.sent, s.ratchet, s.transport⟩ := hresult
    have hsent : result.sent = more := by rw [hresult', h.sent]; rfl
    have haccepted : accepted = acceptedFrom transport state.2 more := by
      rw [← hsent]
    have hrouted : result.routed = accepted.map (fun p => p.1.overwritten p.2) := by
      rw [hresult', h.routed, haccepted]
      rfl
    have horder : accepted.map Prod.fst = more.take accepted.length := by
      rw [haccepted]
      exact h.inOrder
    have hmessage : result.message = message := by rw [hresult']
    have hwell : WellRouted message.expiresAt more := ⟨h.distinct, h.routable⟩
    rw [hsent, hmessage]
    refine ⟨hrouted, hplain hrouted, ?_, ⟨plaintext, h.answers⟩, hwell, ?_, ?_⟩
    · rw [hrouted, List.length_map]
      exact horder
    · rw [hrouted]
      exact wellRouted_accepted hwell horder
    · have hcomplete := h.complete
      rw [List.length_map] at hcomplete
      rw [hrouted, List.length_map, haccepted, hresult']
      exact hcomplete.trans (iff_and_self.mpr fun _ => hdevices)

/-- A profile without devices: nothing is left out, and yet there is an error. -/
theorem sendDirect_no_devices :
    ∃ (sender : LocalAccount samplePrimitives) (recipient : PublicProfile), sender.InUse ∧
      let result := sendDirect ⟨(), fun _ _ => (none, ())⟩ ⟨(), fun _ _ => ((true, []), ())⟩ ((), ())
        (some sender) recipient [0] Time.epoch minute (sampleBytes 32 0)
      result.routed.length = recipient.devices.length ∧
        result.err = some (.profile .invalidProfile) := by
  obtain ⟨sender, -, huse, -, -, -⟩ := sample_sender
  refine ⟨sender, { sender.profile with devices := [] }, huse, ?_⟩
  have hfail : verifyPublicProfile samplePrimitives { sender.profile with devices := [] }
      Time.epoch = .error .invalidProfile := verifyPublicProfile_no_devices rfl _ _
  simp only [sendDirect, hfail, List.length_nil, and_self]

end Veilmesh.Message

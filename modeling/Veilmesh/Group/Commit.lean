/-
  The group hash commits to the whole state (`group/state.go`).

  `stateHash` hashes the JSON text of a state with an empty hash. The text of a valid state
  determines it: identifiers need no escaping, the members are written in the order of their
  keys, and numbers, keys and roles read back. So, as long as SHA-256 does not map the texts
  of two states to one digest, the hash stands for the state, and replicas that report the
  same hash stay together.

  * `stateText_inj`: valid states with one text differ at most in their hash.
  * `hash_commits`: equal hashes, equal states; what this means for replicas and actions.
-/
import Veilmesh.Group.StateInv

namespace Veilmesh.Group

open Lib Protocol Pqcrypto

/-! ## The text of a state -/

/-- What `stateHash` hashes. -/
def stateText (s : State) : Bytes := (marshal stateCodec { s with hash := [] }).getD []

theorem roleCodec_roundtrips {r : Role} (h : r.Known) : roleCodec.Roundtrips r := by
  have htext : Json.Plain r.text ∧ Role.ofText r.text = r := by
    cases r with
    | unknown => exact absurd h id
    | _ => exact ⟨by decide, by decide⟩
  intro j hj
  obtain ⟨hwf, hdec⟩ := stringCodec_roundtrips htext.1 j hj
  exact ⟨hwf, fun old => by simp only [roleCodec, hdec, Option.map_some, htext.2]⟩

theorem policyCodec_roundtrips (p : Policy) : (structCodec policyFields).Roundtrips p :=
  structCodec_roundtrips ⟨by decide, by decide⟩ (fun _ => rfl) (.cons (boolCodec_roundtrips _) .nil)

theorem plain_of_validPublicIdentity {c : Primitives} {i : NodePublicIdentity}
    (h : validPublicIdentity c i = true) : Json.Plain i.nodeID := by
  rw [(validPublicIdentity_iff.mp h).2.2.2.1]
  exact plain_nodeID i

section

variable {c : Primitives} {s t : State}

theorem memberCodec_roundtrips (h : StateInv c s) {id : Bytes} {m : Member}
    (hm : s.members.lookup id = some m) : (structCodec memberFields).Roundtrips m := by
  obtain ⟨-, hvalid, hknown⟩ := h.keyed id m hm
  exact structCodec_roundtrips ⟨by decide, by decide⟩ (fun _ => rfl)
    (.cons (nodePublicIdentityCodec_roundtrips (plain_of_validPublicIdentity hvalid))
      (.cons (roleCodec_roundtrips hknown) .nil))

theorem plain_memberID (h : StateInv c s) : ∀ id ∈ s.members.keys, Json.Plain id := by
  intro id hid
  obtain ⟨m, hm⟩ := GoMap.mem_keys_iff.mp hid
  obtain ⟨rfl, hvalid, -⟩ := h.keyed id m hm
  exact plain_of_validPublicIdentity hvalid

theorem stateCodec_formed (h : StateInv c s) : stateCodec.Formed { s with hash := [] } :=
  structCodec_formed (by decide) (.cons (formed_of_reads (stringCodec_reads _))
    (.cons (formed_of_reads (nodePublicIdentityCodec_roundtrips
      (plain_of_validPublicIdentity h.creator)))
    (.cons (formed_of_reads (bytesCodec_roundtrips _))
    (.cons (formed_of_reads (uint64Codec_roundtrips _))
    (.cons (formed_of_reads (policyCodec_roundtrips _)) (.cons
      (fun _ hj => (mapCodec_readable (fun _ _ hm => ⟨_, memberCodec_roundtrips h hm⟩) hj).1)
    (.cons (formed_of_reads (bytesCodec_roundtrips _)) .nil)))))))

/-- Every state has a text. -/
theorem marshal_state (s : State) :
    marshal stateCodec { s with hash := [] } = some (stateText s) := by
  have hwrites : stateCodec.Writes { s with hash := [] } :=
    structCodec_writes (.cons (stringCodec_writes _) (.cons (nodePublicIdentityCodec_writes _)
      (.cons (bytesCodec_writes _) (.cons (uint64Codec_writes _)
      (.cons (structCodec_writes (.cons ⟨_, rfl⟩ .nil)) (.cons
        (mapCodec_writes fun _ _ _ => structCodec_writes
          (.cons (nodePublicIdentityCodec_writes _) (.cons (stringCodec_writes _) .nil)))
      (.cons (bytesCodec_writes _) .nil)))))))
  obtain ⟨data, hdata⟩ := hwrites.marshal
  rw [stateText, hdata, Option.getD_some]

/-- Valid states with one text differ at most in their hash. -/
theorem stateText_inj (hs : StateInv c s) (ht : StateInv c t) (h : stateText s = stateText t) :
    { s with hash := [] } = { t with hash := [] } := by
  obtain ⟨j, hj, hj'⟩ := marshal_same (stateCodec_formed hs) (stateCodec_formed ht)
    (marshal_state s) (h ▸ marshal_state t)
  have hsame := structCodec_same hj hj'
  simp only [stateFields, List.forall_mem_cons, List.not_mem_nil, false_imp_iff, implies_true,
    and_true] at hsame
  obtain ⟨⟨_, hg, hg'⟩, ⟨_, hc, hc'⟩, ⟨_, hn, hn'⟩, ⟨_, he, he'⟩, ⟨_, hp, hp'⟩, ⟨_, hm, hm'⟩, -⟩ :=
    hsame
  have hcreator := eq_of_reads
    (nodePublicIdentityCodec_roundtrips (plain_of_validPublicIdentity hs.creator))
    (nodePublicIdentityCodec_roundtrips (plain_of_validPublicIdentity ht.creator)) hc hc'
  have hnonce := eq_of_reads (bytesCodec_roundtrips s.genesisNonce) (bytesCodec_roundtrips _) hn hn'
  have hepoch := eq_of_reads (uint64Codec_roundtrips s.epoch) (uint64Codec_roundtrips _) he he'
  have hpolicy := eq_of_reads (policyCodec_roundtrips s.policy) (policyCodec_roundtrips _) hp hp'
  have hmembers : s.members = t.members :=
    mapCodec_same (plain_memberID hs) (plain_memberID ht) (fun k v v' i hv hv' hi hi' =>
      eq_of_reads (memberCodec_roundtrips hs hv) (memberCodec_roundtrips ht hv') hi hi') hm hm'
  have hgroup : s.groupID = t.groupID := by rw [hs.bound, ht.bound, hcreator, hnonce, hpolicy]
  rw [hgroup, hcreator, hnonce, hepoch, hpolicy, hmembers]

theorem eq_of_hash (hs : StateInv c s) (ht : StateInv c t)
    (hsha : Set.InjOn sha256 {stateText s, stateText t}) (h : s.hash = t.hash) : s = t := by
  have hdigest : sha256 (stateText s) = sha256 (stateText t) := by
    change stateHash s = stateHash t
    rw [← hs.hashed, ← ht.hashed, h]
  have heq := stateText_inj hs ht (hsha (by simp) (by simp) hdigest)
  calc s = { ({ s with hash := [] } : State) with hash := s.hash } := rfl
    _ = { ({ t with hash := [] } : State) with hash := t.hash } := by rw [heq, h]
    _ = t := rfl

end

/-! ## Replicas -/

/-- What a call of `Apply` is given. -/
def Call.input (call : Call) : Action × Time := (call.action, call.now)

/-- A run is determined by its start and by what its calls are given. -/
theorem run_unique {c : Primitives} {s t t' : State} {calls calls' : List Call}
    (hrun : Run (Step c) s calls t) (hrun' : Run (Step c) s calls' t')
    (h : calls.map Call.input = calls'.map Call.input) : calls = calls' ∧ t = t' := by
  induction hrun generalizing calls' with
  | nil =>
    obtain rfl := List.map_eq_nil_iff.mp h.symm
    cases hrun'
    exact ⟨rfl, rfl⟩
  | @cons s mid last call calls hstep _ ih =>
    obtain ⟨call', rest, rfl, hinput, hrest⟩ := List.map_eq_cons_iff.mp h.symm
    cases hrun' with | cons hstep' hrun' =>
    obtain ⟨haction, hnow⟩ := Prod.mk.inj hinput
    rw [Step, haction, hnow, show s.apply c call.action call.now = _ from hstep] at hstep'
    obtain ⟨hresult, rfl⟩ := Prod.mk.inj hstep'
    obtain ⟨rfl, rfl⟩ := ih hrun' hrest.symm
    obtain ⟨action, now, result⟩ := call
    obtain ⟨action', now', result'⟩ := call'
    dsimp only at haction hnow hresult
    subst haction hnow hresult
    exact ⟨rfl, rfl⟩

/-- The hash commits to the state: valid states with one hash are equal. Replicas of one
    group that report one hash answer every action alike, and from there on calls with the same
    actions at the same times have the same results and lead to the same states. No action is
    accepted by two valid states with different hashes. -/
theorem hash_commits (c : Primitives) :
    (∀ s t, validState c s = true → validState c t = true →
      Set.InjOn sha256 {stateText s, stateText t} → s.hash = t.hash → s = t) ∧
    (∀ owner policy random first calls calls' s t,
      new c owner policy random = .ok first → Run (Step c) first calls s →
      Run (Step c) first calls' t → Set.InjOn sha256 {stateText s, stateText t} → s.hash = t.hash →
      (∀ action now, s.apply c action now = t.apply c action now) ∧
      ∀ next next' s' t', Run (Step c) s next s' → Run (Step c) t next' t' →
        next.map Call.input = next'.map Call.input → next = next' ∧ s' = t') ∧
    ∀ s t action now now', validState c s = true → validState c t = true → s.groupID = t.groupID →
      (s.apply c action now).1 = .ok () → (t.apply c action now').1 = .ok () → s.hash = t.hash := by
  refine ⟨fun s t hs ht hsha h => eq_of_hash (validState_iff.mp hs) (validState_iff.mp ht) hsha h,
    ?_, ?_⟩
  · intro owner policy random first calls calls' s t hnew hrun hrun' hsha h
    have hinv : ∀ {calls s}, Run (Step c) first calls s → StateInv c s := fun hrun =>
      hrun.invariant (fun _ _ _ hs h => Step.inv h hs) (new_inv hnew).1
    obtain rfl := eq_of_hash (hinv hrun) (hinv hrun') hsha h
    exact ⟨fun _ _ => rfl, fun _ _ _ _ => run_unique⟩
  · intro s t action now now' _ _ _ hok hok'
    have hprevious : ∀ {s : State} {now}, (s.apply c action now).1 = .ok () →
        action.previous = s.hash := by
      intro s now hok
      obtain ⟨e, he⟩ | ⟨_, _, _, haccepts, -⟩ := apply_cases c s action now
      · rw [he] at hok
        cases hok
      · exact haccepts.previous
    rw [← hprevious hok, ← hprevious hok']

end Veilmesh.Group

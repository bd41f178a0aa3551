/-
  When a write gets through although some nodes misbehave.

  The work in an item is done once, for the difficulty that the write quorum of the answering
  nodes does not exceed, and only nodes that ask for no more than that are sent the item. So
  the good nodes have to be among those: it takes a write quorum of good nodes each of which
  is undercut by fewer than a write quorum of answering nodes. With that every behaviour of
  the other nodes is made up for; without it there is one that is not.

  * `length_storeOn`: how many receipts a round of storing brings.
  * `storeReplicated_obtains_iff`: the exact condition.
-/
import Veilmesh.Client.Majority

namespace Veilmesh.Client

open Lib Protocol Pqcrypto List

variable {c : Primitives}

/-! ## Answers in one epoch -/

/-- Every answering node advertises this epoch and takes items of this size. -/
def Uniform (env : StoreEnv) (item : StoredItem) (epoch : Int64) (nodes : List HTTPNode) : Prop :=
  ∀ o ∈ answering env nodes, o.parameters.epochSeconds = epoch ∧
    (item.payload.length : Int) ≤ o.parameters.maxItemBytes.toInt

/-- How many answering nodes ask for less work than this. -/
def Core.undercut (core : Core c) (env : StoreEnv) (difficulty : UInt8) : Nat :=
  (core.offers env).countP fun o => o.parameters.difficulty < difficulty

variable {env : StoreEnv} {item : StoredItem}

/-- With one epoch the one group is chosen, and the work is enough for a difficulty exactly if
    fewer than the write quorum of nodes undercut it. -/
theorem chooseNodes_uniform {core : Core c} {epoch : Int64}
    (h : Uniform env item epoch (core.allowedNodes env.allowedAt))
    (henough : core.writeQuorum ≤ (core.offers env).length) :
    ∃ answers selected, core.chooseNodes env item = (answers, some selected) ∧
      selected.epochSeconds = epoch ∧ selected.group.Perm (core.offers env) ∧
      (∃ o ∈ core.offers env, o.parameters.difficulty = selected.threshold) ∧
      ∀ d, d ≤ selected.threshold ↔ core.undercut env d < core.writeQuorum := by
  have hpos := core.quorum_pos
  have hall : (core.offers env).filter (admitted item epoch) = core.offers env :=
    filter_eq_self.mpr fun o ho => decide_eq_true (h o ho)
  have hnone : ∀ e, e ≠ epoch → (core.offers env).filter (admitted item e) = [] := fun e he =>
    filter_eq_nil_iff.mpr fun o ho hadmitted =>
      he ((of_decide_eq_true hadmitted).1.symm.trans (h o ho).1)
  obtain ⟨answers, selected, hchosen, hepoch, hordered⟩ := @chooseNodes_largest _ core env item epoch
    (hall.symm ▸ henough) (fun e he => by rw [hnone e he, hall, length_nil]; omega)
  rw [hall] at hordered
  obtain ⟨o, ho, hdifficulty⟩ := hordered.threshold
  exact ⟨answers, selected, hchosen, hepoch, hordered.perm,
    ⟨o, hordered.perm.mem_iff.mp (mem_of_getElem? ho), hdifficulty⟩,
    hordered.le_threshold_iff hpos⟩

/-! ## The number of receipts -/

/-- As many receipts come together as usable nodes give one, up to the number of replicas. -/
theorem length_storeOn (env : StoreEnv) (item : StoredItem) (replicas : Nat)
    (usable : List HTTPNode) {acc : Progress} (hnone : acc.receipts = []) :
    (storeOn c env item replicas usable acc).receipts.length =
      min replicas (usable.countP (gives c env item)) := by
  obtain ⟨nodes, hperm, hcertified⟩ := storeOn_certified (c := c) env item replicas usable hnone
  rw [← hcertified.length_eq, hperm.length_eq, length_take, countP_eq_length_filter]

/-! ## Good nodes and the others -/

/-- The setting of a write: the answering nodes agree on the epoch and take items of this size,
    the search for work comes to an end, and there is a write quorum of good nodes. A good node
    answers the request for parameters and gives a receipt for every item that carries the
    work it asked for. Nothing is said of the other nodes. -/
structure FaultModel (core : Core c) (env : StoreEnv) (item : StoredItem) (deleteToken : Bytes)
    (epoch : Int64) (good : List HTTPNode) : Prop where
  valid : validateItem item env.now.utc defaultMaxItemBytes = .ok ()
  token : deleteToken.length = capabilityBytes ∧ item.deleteTokenHash = sha256 deleteToken
  uniform : Uniform env item epoch (core.allowedNodes env.allowedAt)
  searched : ∀ o ∈ core.offers env, ∃ fuel work, solveWork item o.parameters.epochSeconds
    o.parameters.difficulty env.workAt env.workDone fuel = some (.ok work)
  nodup : good.Nodup
  enough : core.writeQuorum ≤ good.length
  stores : ∀ g ∈ good, ∃ p, ⟨g, p⟩ ∈ core.offers env ∧
    ∀ work, WorkFor { item with work := work } p env.workAt →
      gives c env { item with work := work } g = true

/-- The call comes back with a write quorum of receipts that verify, of different nodes. -/
def Core.Obtains (a : Aead) (core : Core c) (env : StoreEnv) (item : StoredItem)
    (deleteToken : Bytes) : Prop :=
  ∃ fuel delivery err core',
    core.storeReplicated a env item deleteToken fuel = some ((delivery, err), core') ∧
      core.writeQuorum ≤ delivery.receipts.length ∧
      ∃ nodes : List HTTPNode, (nodes.map (·.identity.nodeID)).Nodup ∧
        (∀ n ∈ nodes, n ∈ core.nodes) ∧
        List.Forall₂ (fun node receipt => verifyStorageReceipt c node.identity delivery.item receipt
          (env.storedAt node) = true) nodes delivery.receipts

/-- A call with receipts got as far as asking nodes to store. -/
theorem storeReplicated_placed {a : Aead} {core core' : Core c} {deleteToken : Bytes} {fuel : Nat}
    {delivery : Delivery} {err : Option DeliveryError}
    (h : core.storeReplicated a env item deleteToken fuel = some ((delivery, err), core'))
    (hreceipts : core.writeQuorum ≤ delivery.receipts.length) :
    Placed core env item deleteToken delivery := by
  obtain ⟨rfl, -, -⟩ | ⟨hplaced, -⟩ := storeReplicated_cases h
  · exact absurd (core.quorum_pos.trans_le hreceipts) (Nat.lt_irrefl 0)
  · exact hplaced

/-- How many good nodes are undercut by fewer than the write quorum of nodes. -/
def Core.reachable (core : Core c) (env : StoreEnv) (good : List HTTPNode) : Nat :=
  (core.offers env).countP fun o =>
    decide (o.node ∈ good ∧ core.undercut env o.parameters.difficulty < core.writeQuorum)

namespace FaultModel

variable {core : Core c} {env : StoreEnv} {item : StoredItem} {deleteToken : Bytes} {epoch : Int64}
  {good : List HTTPNode} (h : FaultModel core env item deleteToken epoch good)

include h

/-- What the other nodes do with the request to store does not matter to the setting. -/
theorem of_agree {stored : HTTPNode → Exchange} (hagree : ∀ g ∈ good, stored g = env.stored g) :
    FaultModel core { env with stored := stored } item deleteToken epoch good where
  valid := h.valid
  token := h.token
  uniform := h.uniform
  searched := h.searched
  nodup := h.nodup
  enough := h.enough
  stores := by
    intro g hg
    obtain ⟨p, hp, hgives⟩ := h.stores g hg
    refine ⟨p, hp, fun work hwork => ?_⟩
    have hstored := hgives work hwork
    unfold gives at hstored ⊢
    dsimp only
    rwa [hagree g hg]

theorem enough_offers : core.writeQuorum ≤ (core.offers env).length := by
  refine h.enough.trans ?_
  have hsub : good ⊆ (core.offers env).map (·.node) := by
    intro g hg
    obtain ⟨p, hp, -⟩ := h.stores g hg
    exact mem_map_of_mem hp
  have hle := (subperm_of_subset h.nodup hsub).length_le
  rwa [length_map] at hle

omit h in
/-- The nodes that are asked, counted over the offers. -/
theorem countP_usable {selected : Selection} (hgroup : selected.group.Perm (core.offers env))
    (hreach : ∀ d, d ≤ selected.threshold ↔ core.undercut env d < core.writeQuorum)
    (p : HTTPNode → Bool) : selected.usable.countP p = (core.offers env).countP fun o =>
      p o.node && decide (core.undercut env o.parameters.difficulty < core.writeQuorum) := by
  unfold Selection.usable
  rw [countP_map, countP_filter, hgroup.countP_eq]
  simp only [hreach, Function.comp_apply]

/-- The call comes back; the work is enough for the nodes that are asked, and there are as many
    receipts as these give. -/
theorem returns (a : Aead) : ∃ fuel delivery err core' work,
      core.storeReplicated a env item deleteToken fuel = some ((delivery, err), core') ∧
      (∀ o ∈ core.offers env, core.undercut env o.parameters.difficulty < core.writeQuorum →
        WorkFor { item with work := work } o.parameters env.workAt) ∧
      delivery.receipts.length = min core.replicas ((core.offers env).countP fun o =>
        gives c env { item with work := work } o.node &&
          decide (core.undercut env o.parameters.difficulty < core.writeQuorum)) := by
  obtain ⟨answers, selected, hselected, hepoch, hgroup, ⟨mid, hmid, hthreshold⟩, hreach⟩ :=
    chooseNodes_uniform h.uniform h.enough_offers
  obtain ⟨fuel, work, hwork⟩ := h.searched mid hmid
  rw [(h.uniform mid hmid).1, ← hepoch, hthreshold] at hwork
  obtain ⟨hworkEpoch, hworkDifficulty, hzero⟩ := solveWork_ok hwork
  let progress := storeOn c env { item with work := work } core.replicas selected.usable
    ⟨answers.reputation, answers.failedNodes, []⟩
  have hallowed : ¬ (core.allowedNodes env.allowedAt).length < core.writeQuorum := by
    have hle := (nodes_answering env (core.allowedNodes env.allowedAt)).length_le
    rw [length_map] at hle
    exact not_lt.mpr (h.enough_offers.trans hle)
  have hcall : core.storeReplicated a env item deleteToken fuel =
      some (Core.finishDelivery a { core with reputation := progress.reputation } env
        ⟨{ item with work := work }, deleteToken, progress.receipts, progress.failedNodes⟩) := by
    unfold Core.storeReplicated
    rw [h.valid]
    dsimp only
    rw [if_neg (by simp [h.token]), if_neg hallowed, hselected]
    dsimp only
    rw [hwork]
  obtain ⟨⟨⟨delivery, err⟩, core'⟩, hend⟩ : ∃ r, Core.finishDelivery a
      { core with reputation := progress.reputation } env
      ⟨{ item with work := work }, deleteToken, progress.receipts, progress.failedNodes⟩ = r := ⟨_, rfl⟩
  rw [hend] at hcall
  obtain ⟨rfl, -⟩ := finishDelivery_cases hend
  refine ⟨fuel, _, err, core', work, hcall, fun o ho hbelow => ⟨?_, ?_, hzero⟩, ?_⟩
  · rw [(h.uniform o ho).1, ← hepoch]
    exact hworkEpoch
  · change o.parameters.difficulty ≤ work.difficulty
    rw [hworkDifficulty]
    exact (hreach _).mpr hbelow
  · rw [← countP_usable hgroup hreach]
    exact length_storeOn env { item with work := work } core.replicas selected.usable rfl

/-- The good nodes within reach give enough receipts. -/
theorem obtains (a : Aead)
    (henough : core.writeQuorum ≤ core.reachable env good) : core.Obtains a env item deleteToken := by
  obtain ⟨fuel, delivery, err, core', work, hcall, hwork, hlen⟩ := h.returns a
  have hcount : core.reachable env good ≤ (core.offers env).countP fun o =>
      gives c env { item with work := work } o.node &&
        decide (core.undercut env o.parameters.difficulty < core.writeQuorum) := by
    refine countP_mono_left fun o ho hgood => ?_
    obtain ⟨hgood, hbelow⟩ := of_decide_eq_true hgood
    obtain ⟨p, hp, hgives⟩ := h.stores o.node hgood
    obtain rfl : p = o.parameters := Except.ok.inj
      ((mem_answering.mp hp).2.symm.trans (mem_answering.mp ho).2)
    rw [Bool.and_eq_true, decide_eq_true_eq]
    exact ⟨hgives work (hwork o ho hbelow), hbelow⟩
  have hreceipts : core.writeQuorum ≤ delivery.receipts.length := by
    have hreplicas := core.quorum_le
    omega
  obtain ⟨-, nodes, hnodup, hnodes, hcertified⟩ :=
    (storeReplicated_placed hcall hreceipts).receipts
  exact ⟨fuel, _, err, core', hcall, hreceipts, nodes, hnodup, fun n hn => (hnodes n hn).1,
    hcertified.imp fun _ _ hstore => (HTTPNode.store_ok hstore).1⟩

/-- No more receipts come together than nodes within reach give one. -/
theorem obtains_reachable {a : Aead} (hobtains : core.Obtains a env item deleteToken)
    (hrefuse : ∀ work n, gives c env { item with work := work } n = true → n ∈ good) :
    core.writeQuorum ≤ core.reachable env good := by
  obtain ⟨fuel, delivery, err, core', hcall, hquorum, -⟩ := hobtains
  have hplaced := storeReplicated_placed hcall hquorum
  obtain ⟨answers, selected, -, hselected, -, hreceipts⟩ := hplaced.asked
  obtain ⟨answers', selected', hselected', -, hgroup, -, hreach⟩ :=
    chooseNodes_uniform h.uniform h.enough_offers
  obtain ⟨rfl, hsame⟩ := Prod.mk.inj (hselected.symm.trans hselected')
  obtain rfl := Option.some.inj hsame
  rw [hreceipts, length_storeOn _ _ _ _ rfl, countP_usable hgroup hreach] at hquorum
  refine (hquorum.trans (min_le_right _ _)).trans (countP_mono_left fun o _ hasked => ?_)
  rw [Bool.and_eq_true, decide_eq_true_eq, hplaced.sameItem] at hasked
  exact decide_eq_true ⟨hrefuse _ _ hasked.1, hasked.2⟩

end FaultModel

/-- A node whose answer is lost gives no receipt. -/
theorem gives_failed {node : HTTPNode} {text : Bytes} (h : env.stored node = .failed text) :
    gives c env item node = false := by
  unfold gives HTTPNode.store
  rw [h]
  cases marshal storedItemCodec item <;> rfl

/-- With good nodes as in the setting, a write quorum of receipts is obtained whatever the other
    nodes answer exactly if a write quorum of good nodes are each undercut by fewer than a write
    quorum of nodes. -/
theorem storeReplicated_obtains_iff (a : Aead) (core : Core c) (env : StoreEnv) (item : StoredItem)
    (deleteToken : Bytes) (epoch : Int64) (good : List HTTPNode)
    (h : FaultModel core env item deleteToken epoch good) :
    (∀ stored : HTTPNode → Exchange, (∀ g ∈ good, stored g = env.stored g) →
      core.Obtains a { env with stored := stored } item deleteToken) ↔
    core.writeQuorum ≤ core.reachable env good := by
  constructor
  · intro hall
    -- all the others lose the request
    let stored : HTTPNode → Exchange := fun n => if n ∈ good then env.stored n else .failed []
    have hagree : ∀ g ∈ good, stored g = env.stored g := fun g hg => if_pos hg
    refine (h.of_agree hagree).obtains_reachable (hall stored hagree) fun work n hgives => ?_
    by_contra hn
    rw [gives_failed (if_neg hn)] at hgives
    cases hgives
  · intro henough stored hagree
    exact (h.of_agree hagree).obtains a henough

/-! ### Two nodes -/

def otherNode : HTTPNode := ⟨lit "https://other.example", sampleIdentity 2, true⟩

theorem otherNode_ne : otherNode ≠ sampleNode := fun h =>
  sampleIdentity_ne (congrArg (·.identity.nodeID) h).symm

/-- A core that wants one replica and has a second node to fall back on. -/
def pairCore : Core samplePrimitives where
  nodes := [sampleNode, otherNode]
  replicas := 1
  writeQuorum := 1
  reputation := newReputation
  store := none
  valid := by
    intro n hn
    rcases List.mem_pair.mp hn with rfl | rfl
    · exact sampleIdentity_valid 1
    · exact sampleIdentity_valid 2
  distinct := by
    rw [List.map_cons, List.map_cons, List.map_nil, List.nodup_cons, List.mem_singleton]
    exact ⟨sampleIdentity_ne, List.nodup_singleton _⟩
  quorum_pos := Nat.one_pos
  quorum_le := Nat.one_pos
  replicas_le := by decide

/-- The first node advertises what is given and stores; the other one asks for no work and does
    not answer when it is to store. -/
def pairEnv (parameters receipt : Bytes) : StoreEnv :=
  { soloEnv sampleTexts Time.epoch sampleParametersText receipt [] with
    parameters := fun n => .answered 200 (if n = sampleNode then parameters else sampleParametersText)
    stored := fun n => if n = sampleNode then .answered 200 receipt else .failed [] }

section

variable {text answer : Bytes} {p : NodeParameters}

theorem pairEnv_parameters (n : HTTPNode) : (pairEnv text answer).parameters n =
    .answered 200 (if n = sampleNode then text else sampleParametersText) := rfl

theorem pairEnv_stored (n : HTTPNode) : (pairEnv text answer).stored n =
    if n = sampleNode then .answered 200 answer else .failed [] := rfl

theorem offers_pair {core : Core c} {env : StoreEnv} {n m : HTTPNode} {q : NodeParameters}
    (hallowed : core.allowedNodes env.allowedAt = [n, m])
    (hn : HTTPNode.parameters env.texts (env.parameters n) = .ok p)
    (hm : HTTPNode.parameters env.texts (env.parameters m) = .ok q) :
    core.offers env = [⟨n, p⟩, ⟨m, q⟩] := by
  simp only [Core.offers, hallowed, answering, filterMap_cons, filterMap_nil, hn, hm,
    Except.toOption, Option.map_some]

variable (hp : HTTPNode.parameters sampleTexts (.answered 200 text) = .ok p)

include hp

theorem pair_offers :
    pairCore.offers (pairEnv text answer) = [⟨sampleNode, p⟩, ⟨otherNode, sampleParameters⟩] := by
  refine offers_pair (filter_eq_self.mpr fun n _ =>
    Reputation.allowed_new _ (show 0 ≤ Time.epoch.ns by decide)) ?_ ?_
  · rw [pairEnv_parameters, if_pos rfl]
    exact hp
  · rw [pairEnv_parameters, if_neg otherNode_ne]
    exact sampleParameters_answered _

/-- The first node is good: what it answers is a receipt whatever the work is. -/
theorem pair_model (hepoch : p.epochSeconds = 3600) (hfits : (1 : Int) ≤ p.maxItemBytes.toInt)
    (hsearch : ∃ fuel work, solveWork (sampleItem 0) 3600 p.difficulty Time.epoch (fun _ => none) fuel =
      some (.ok work)) (hanswer : ∀ texts work, sampleNode.store samplePrimitives texts
      { sampleItem 0 with work := work } (.answered 200 answer) Time.epoch =
        .ok (sampleReceipt (sampleItem 0))) :
    FaultModel pairCore (pairEnv text answer) (sampleItem 0) sampleToken 3600 [sampleNode] where
  valid := sampleItem_valid le_rfl (by decide)
  token := ⟨length_sampleBytes _ _, rfl⟩
  uniform := by
    intro o ho
    change o ∈ pairCore.offers (pairEnv text answer) at ho
    rw [pair_offers hp] at ho
    rcases mem_pair.mp ho with rfl | rfl
    · exact ⟨hepoch, hfits⟩
    · exact ⟨rfl, (by decide : (([0] : Bytes).length : Int) ≤ sampleParameters.maxItemBytes.toInt)⟩
  searched := by
    intro o ho
    rw [pair_offers hp] at ho
    rcases mem_pair.mp ho with rfl | rfl
    · obtain ⟨fuel, work, hwork⟩ := hsearch
      exact ⟨fuel, work, by rw [hepoch]; exact hwork⟩
    · exact ⟨1, _, solveWork_free (sampleItem 0) Time.epoch (by decide) (by decide) rfl 0⟩
  nodup := nodup_singleton _
  enough := le_rfl
  stores := by
    intro g hg
    obtain rfl := mem_singleton.mp hg
    refine ⟨p, by rw [pair_offers hp]; exact mem_cons_self, fun work _ => ?_⟩
    unfold gives
    rw [pairEnv_stored, if_pos rfl]
    exact congrArg Except.isOk (hanswer sampleTexts work)

theorem pair_undercut (d : UInt8) : pairCore.undercut (pairEnv text answer) d =
      (if p.difficulty < d then 1 else 0) + if 0 < d then 1 else 0 := by
  rw [Core.undercut, pair_offers hp, countP_cons, countP_cons, countP_nil,
    show sampleParameters.difficulty = 0 from rfl]
  simp only [decide_eq_true_eq]
  omega

end

def hardParametersText : Bytes := lit
  "\x7b\"protocol_version\":1,\"difficulty\":1,\"epoch_seconds\":3600,\"max_item_bytes\":327680,\"storage_used\":0,\"storage_capacity\":1000000\x7d"

theorem hardParameters_answered (texts : JsonTexts) :
    HTTPNode.parameters texts (.answered 200 hardParametersText) =
      .ok { sampleParameters with difficulty := 1 } := by
  have hread : unmarshal nodeParametersCodec NodeParameters.zero hardParametersText =
      some { sampleParameters with difficulty := 1 } := by decide +kernel
  have hsize : ¬ hardParametersText.length > getJSONLimit := by decide +kernel
  simp only [HTTPNode.parameters, Exchange.result, decodeResponseJSON, hread, if_neg hsize]
  rfl

/-- The first nonce is work enough for one bit. -/
theorem sampleItem_work : solveWork (sampleItem 0) 3600 1 Time.epoch (fun _ => none) 1 =
    some (.ok ⟨0, 0, 1⟩) := by
  have hzero : hasLeadingZeroBits (workDigest (sampleItem 0) ⟨0, 0, 1⟩) 1 = true := by
    simp only [workDigest, sampleItem, computeItemID, itemCommitment, Sha256.sha256_eq_sha256Nat]
    decide +kernel
  unfold solveWork
  rw [if_neg (by decide), show Int64.ofInt (Time.epoch.unix.tdiv (3600 : Int64).toInt) = 0 by decide]
  unfold searchWork
  dsimp only
  rw [if_pos hzero]
  rfl

/-- A node that asks for no work and then does not store keeps the client from a good node that
    asks for one bit. -/
theorem storeReplicated_undercut : ∃ answer : Bytes,
    FaultModel pairCore (pairEnv hardParametersText answer) (sampleItem 0) sampleToken 3600
        [sampleNode] ∧
      ∃ fuel delivery err core', pairCore.storeReplicated plainAead (pairEnv hardParametersText answer)
          (sampleItem 0) sampleToken fuel = some ((delivery, err), core') ∧
        delivery.receipts.length < pairCore.writeQuorum := by
  obtain ⟨answer, hanswer⟩ := @sampleReceipt_answered 0 le_rfl (by decide) _ _ rfl rfl
  have hmodel := pair_model (hardParameters_answered _) rfl (by decide) ⟨1, _, sampleItem_work⟩ hanswer
  obtain ⟨fuel, delivery, err, core', work, hcall, -, hlen⟩ := hmodel.returns plainAead
  refine ⟨answer, hmodel, fuel, delivery, err, core', hcall, ?_⟩
  have hother : gives samplePrimitives (pairEnv hardParametersText answer)
      { sampleItem 0 with work := work } otherNode = false :=
    gives_failed ((pairEnv_stored otherNode).trans (if_neg otherNode_ne))
  have hsample : ¬ pairCore.undercut (pairEnv hardParametersText answer) 1 < pairCore.writeQuorum := by
    rw [pair_undercut (hardParameters_answered _)]
    decide
  rw [hlen, List.countP_eq_zero.mpr fun o ho => ?_]
  · decide
  · rw [pair_offers (hardParameters_answered _)] at ho
    rcases List.mem_pair.mp ho with rfl | rfl
    · rw [decide_eq_false hsample, Bool.and_false]
      exact Bool.false_ne_true
    · rw [hother, Bool.false_and]
      exact Bool.false_ne_true

/-- Where both nodes ask for no work the good one is reached. -/
theorem storeReplicated_obtains_pair : ∃ answer : Bytes,
    FaultModel pairCore (pairEnv sampleParametersText answer) (sampleItem 0) sampleToken 3600
        [sampleNode] ∧
      ∀ stored : HTTPNode → Exchange,
        (∀ g ∈ [sampleNode], stored g = (pairEnv sampleParametersText answer).stored g) →
        pairCore.Obtains plainAead { pairEnv sampleParametersText answer with stored := stored }
          (sampleItem 0) sampleToken := by
  obtain ⟨answer, hanswer⟩ := @sampleReceipt_answered 0 le_rfl (by decide) _ _ rfl rfl
  have hsearch := @solveWork_free (sampleItem 0) 3600 Time.epoch (fun _ => none) (by decide)
    (by decide) rfl 0
  have hmodel := pair_model (sampleParameters_answered _) rfl (by decide) ⟨1, _, hsearch⟩ hanswer
  refine ⟨answer, hmodel, (storeReplicated_obtains_iff plainAead _ _ _ _ _ _ hmodel).mpr ?_⟩
  refine List.countP_pos_iff.mpr ⟨⟨sampleNode, sampleParameters⟩, ?_, decide_eq_true ⟨?_, ?_⟩⟩
  · rw [pair_offers (sampleParameters_answered _)]
    exact List.mem_cons_self
  · exact List.mem_singleton_self _
  · rw [pair_undercut (sampleParameters_answered _)]
    decide

end Veilmesh.Client

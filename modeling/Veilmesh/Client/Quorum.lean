/-
  What a delivery stands for.

  Whatever the nodes answer and in whatever order the answers arrive, the receipts of a
  delivery are receipts that verified, of as many different nodes, which were all chosen at
  the start of the call and advertised no more work than the item carries.

  * `storeReplicated_cases`: what a call can return.
  * `storeOn_certified`: where the receipts come from.
  * `storeReplicated_sound`: what a delivery returned without an error guarantees.
-/
import Veilmesh.Client.Core
import Veilmesh.Client.StoreRun

namespace Veilmesh.Client

open Lib Protocol Pqcrypto List Option Prod
open Time (epoch)

variable {c : Primitives}

/-! ## The groups of offers -/

/-- The offers of a list of nodes: nodes of the list, in its order, with what they answered. -/
structure Offers (env : StoreEnv) (nodes : List HTTPNode) (group : List Offer) : Prop where
  sub : (group.map (·.node)).Sublist nodes
  answered : ∀ o ∈ group, HTTPNode.parameters env.texts (env.parameters o.node) = .ok o.parameters

/-- Every group holds offers of the nodes that have been looked at. -/
def Grouped (env : StoreEnv) (nodes : List HTTPNode) (groups : GoMap Int64 (List Offer)) : Prop :=
  ∀ epoch, Offers env nodes (groups.getD epoch []) ∧
    ∀ o ∈ groups.getD epoch [], o.parameters.epochSeconds = epoch

variable {env : StoreEnv} {nodes : List HTTPNode} {item : StoredItem} {core : Core c}
  {delivery : Delivery} {delta : Int} {expires : Bytes}

theorem Offers.append {group : List Offer} (h : Offers env nodes group) (node : HTTPNode) :
    Offers env (nodes ++ [node]) group :=
  ⟨h.sub.trans (sublist_append_left _ _), h.answered⟩

theorem takeParameters_grouped (item : StoredItem) {acc : Answers}
    (h : Grouped env nodes acc.groups) (node : HTTPNode) :
    Grouped env (nodes ++ [node]) (takeParameters env item acc node).groups := by
  have hkeep : Grouped env (nodes ++ [node]) acc.groups := fun epoch =>
    ⟨(h epoch).1.append node, (h epoch).2⟩
  unfold takeParameters
  split
  · exact hkeep
  · rename_i parameters hparameters
    split
    · exact hkeep
    · intro epoch
      dsimp only
      rw [GoMap.getD_insert]
      split
      · rename_i hepoch
        obtain ⟨hoffers, hsame⟩ := h parameters.epochSeconds
        refine ⟨⟨?_, fun o ho => ?_⟩, fun o ho => ?_⟩
        · rw [map_append]
          exact hoffers.sub.append (Sublist.refl _)
        · rcases mem_append.mp ho with ho | ho
          · exact hoffers.answered o ho
          · obtain rfl := mem_singleton.mp ho
            exact hparameters
        · rcases mem_append.mp ho with ho | ho
          · exact (hsame o ho).trans hepoch.symm
          · obtain rfl := mem_singleton.mp ho
            exact hepoch.symm
      · exact hkeep epoch

theorem foldl_takeParameters_grouped (item : StoredItem) (nodes : List HTTPNode) :
    ∀ {before : List HTTPNode} (acc : Answers), Grouped env before acc.groups →
      Grouped env (before ++ nodes) (nodes.foldl (takeParameters env item) acc).groups := by
  induction nodes with
  | nil =>
    intro before acc h
    rwa [append_nil]
  | cons node nodes ih =>
    intro before acc h
    have := ih _ (takeParameters_grouped item h node)
    rwa [append_assoc] at this

/-! ## The choice of a group -/

/-- A selection is one of the groups, put in order. -/
structure Chosen (writeQuorum : Nat) (groups : GoMap Int64 (List Offer)) (selected : Selection) :
    Prop where
  perm : selected.group.Perm (groups.getD selected.epochSeconds [])
  enough : writeQuorum ≤ selected.group.length

theorem chooseGroup_chosen {writeQuorum : Nat} {groups : GoMap Int64 (List Offer)}
    {selected : Option Selection} (h : ∀ s ∈ selected, Chosen writeQuorum groups s) (epoch : Int64) :
    ∀ s ∈ chooseGroup writeQuorum groups selected epoch, Chosen writeQuorum groups s := by
  unfold chooseGroup
  dsimp only
  split
  · exact h
  · rename_i henough
    have hperm := mergeSort_perm (groups.getD epoch []) offerLE
    have hnew : ∀ threshold, Chosen writeQuorum groups
        ⟨(groups.getD epoch []).mergeSort offerLE, epoch, threshold⟩ := fun threshold =>
      ⟨hperm, by rw [hperm.length_eq]; omega⟩
    split
    · intro s hs
      exact some.inj hs ▸ hnew _
    · split
      · intro s hs
        exact some.inj hs ▸ hnew _
      · exact h

theorem foldl_chooseGroup_chosen {writeQuorum : Nat} {groups : GoMap Int64 (List Offer)}
    (epochs : List Int64) :
    ∀ s ∈ epochs.foldl (chooseGroup writeQuorum groups) none, Chosen writeQuorum groups s := by
  have hfold : ∀ (epochs : List Int64) (selected : Option Selection),
      (∀ s ∈ selected, Chosen writeQuorum groups s) →
      ∀ s ∈ epochs.foldl (chooseGroup writeQuorum groups) selected, Chosen writeQuorum groups s := by
    intro epochs
    induction epochs with
    | nil => exact fun _ h => h
    | cons epoch epochs ih => exact fun selected h => ih _ (chooseGroup_chosen h epoch)
  exact hfold epochs none fun s hs => nomatch hs

/-! ## The receipts -/

/-- The receipts are what these nodes answered, one each. -/
def Certified (c : Primitives) (env : StoreEnv) (item : StoredItem) (nodes : List HTTPNode)
    (receipts : List StorageReceipt) : Prop :=
  List.Forall₂ (fun node receipt =>
    node.store c env.texts item (env.stored node) (env.storedAt node) = .ok receipt) nodes receipts

/-- Whether a node answers the request to store with a receipt that verifies. -/
def gives (c : Primitives) (env : StoreEnv) (item : StoredItem) (node : HTTPNode) : Bool :=
  (node.store c env.texts item (env.stored node) (env.storedAt node)).isOk

/-- Asking one more node adds its receipt if it gives one. -/
theorem Certified.takeReceipt {acc : Progress} (h : Certified c env item nodes acc.receipts)
    (node : HTTPNode) :
    Certified c env item (nodes ++ [node].filter (gives c env item))
      (takeReceipt c env item acc node).receipts := by
  unfold Client.takeReceipt
  cases hstore : node.store c env.texts item (env.stored node) (env.storedAt node) with
  | error e =>
    have hno : gives c env item node = false := by
      unfold gives
      rw [hstore]
      rfl
    rw [filter_singleton, hno]
    exact (append_nil nodes).symm ▸ h
  | ok receipt =>
    have hyes : gives c env item node = true := by
      unfold gives
      rw [hstore]
      rfl
    rw [filter_singleton, hyes]
    exact rel_append h (.cons hstore .nil)

theorem Certified.foldl (asked : List HTTPNode) :
    ∀ {acc : Progress} {nodes : List HTTPNode}, Certified c env item nodes acc.receipts →
      Certified c env item (nodes ++ asked.filter (gives c env item))
        (asked.foldl (Client.takeReceipt c env item) acc).receipts := by
  induction asked with
  | nil =>
    intro acc nodes h
    rwa [filter_nil, append_nil]
  | cons node asked ih =>
    intro acc nodes h
    have hrest := ih (h.takeReceipt node)
    rwa [append_assoc, ← filter_append] at hrest

/-- The replacements add the receipts of later candidates until there are enough. -/
theorem Certified.replaceFailed {replicas : Nat} (later : List HTTPNode) :
    ∀ {acc : Progress} {nodes : List HTTPNode}, Certified c env item nodes acc.receipts →
      nodes.length ≤ replicas →
      Certified c env item
        (nodes ++ (later.filter (gives c env item)).take (replicas - nodes.length))
        (Client.replaceFailed c env item replicas later acc).receipts := by
  induction later with
  | nil =>
    intro acc nodes h _
    rwa [filter_nil, take_nil, append_nil]
  | cons node later ih =>
    intro acc nodes h hlen
    unfold Client.replaceFailed
    split
    · rename_i henough
      rwa [h.length_eq, Nat.sub_eq_zero_of_le henough, take_zero, append_nil]
    · rename_i hmore
      rw [← h.length_eq, ge_iff_le, not_le] at hmore
      have hstep := h.takeReceipt node
      cases hgives : gives c env item node with
      | false =>
        rw [filter_singleton, hgives] at hstep
        rw [filter_cons_of_neg (by rw [hgives]; exact Bool.false_ne_true)]
        exact ih ((append_nil nodes) ▸ hstep) hlen
      | true =>
        rw [filter_singleton, hgives] at hstep
        have hrest := ih hstep (by rw [length_append]; exact hmore)
        rw [filter_cons_of_pos hgives,
          show replicas - nodes.length = replicas - (nodes.length + 1) + 1 by omega,
          take_succ_cons]
        rwa [append_assoc, length_append] at hrest

/-- The receipts are those of the first usable nodes that give one, as many as there are to be
    replicas. -/
theorem storeOn_certified (env : StoreEnv) (item : StoredItem) (replicas : Nat)
    (usable : List HTTPNode) {acc : Progress} (hnone : acc.receipts = []) :
    ∃ nodes, nodes.Perm ((usable.filter (gives c env item)).take replicas) ∧
      Certified c env item nodes (storeOn c env item replicas usable acc).receipts := by
  have hstart : Certified c env item [] acc.receipts := by
    rw [hnone]
    exact .nil
  let primary := usable.take (min replicas usable.length)
  have hperm := (env.storeArrival_perm primary).filter (gives c env item)
  have hfirst := hstart.foldl (env.storeArrival primary)
  rw [nil_append] at hfirst
  have hlen : (primary.filter (gives c env item)).length ≤ replicas := by
    refine (length_filter_le _ _).trans ?_
    simp only [primary, length_take]
    omega
  refine ⟨_, ?_, hfirst.replaceFailed (usable.drop (min replicas usable.length))
    (hperm.length_eq.trans_le hlen)⟩
  have hsplit : usable.filter (gives c env item) = primary.filter (gives c env item) ++
      (usable.drop (min replicas usable.length)).filter (gives c env item) := by
    rw [← filter_append, take_append_drop]
  rw [hsplit, take_append, take_of_length_le hlen, hperm.length_eq]
  exact hperm.append_right _

/-! ## What a call returns -/

/-- The group that is chosen is one of allowed nodes. -/
theorem chooseNodes_spec {answers : Answers} {selected : Selection}
    (h : core.chooseNodes env item = (answers, some selected)) :
    Grouped env (env.parameterArrival (core.allowedNodes env.allowedAt)) answers.groups ∧
      Chosen core.writeQuorum answers.groups selected := by
  obtain ⟨hanswers, hselected⟩ := mk.inj h
  have hstart : Grouped env [] (∅ : GoMap Int64 (List Offer)) := fun epoch =>
    ⟨⟨Sublist.refl _, fun o ho => absurd ho not_mem_nil⟩, fun o ho => absurd ho not_mem_nil⟩
  have hgrouped := foldl_takeParameters_grouped item
    (env.parameterArrival (core.allowedNodes env.allowedAt)) ⟨core.reputation, ∅, ∅⟩ hstart
  rw [nil_append, hanswers] at hgrouped
  rw [hanswers] at hselected
  exact ⟨hgrouped, foldl_chooseGroup_chosen _ selected hselected⟩

theorem finishDelivery_enough {a : Aead} {core core' : Core c} {env : StoreEnv} {delivery : Delivery}
    {failure : Option PersistError} (henough : core.writeQuorum ≤ delivery.receipts.length)
    (h : core.persistDelivery a env.texts env.persistCtx delivery env.persistAt.utc env.nonce =
      (failure, core')) :
    core.finishDelivery a env delivery = ((delivery, failure.map .persist), core') := by
  unfold Core.finishDelivery
  dsimp only
  rw [if_neg (not_lt.mpr henough), h]

/-- The error says what is missing; without a receipt nothing is kept. -/
theorem finishDelivery_cases {a : Aead} {core' : Core c} {d : Delivery} {err : Option DeliveryError}
    (h : core.finishDelivery a env delivery = ((d, err), core')) :
    d = delivery ∧ (delivery.receipts = [] ∧ err ≠ none ∧ core' = core ∨
      ∃ failure, core.persistDelivery a env.texts env.persistCtx delivery env.persistAt.utc
          env.nonce = (failure, core') ∧
        err = if delivery.receipts.length < core.writeQuorum then
            some (.quorum delivery.receipts.length core.writeQuorum failure)
          else failure.map .persist) := by
  unfold Core.finishDelivery at h
  dsimp only at h
  split at h
  · rename_i hshort
    split at h
    · rename_i hzero
      obtain ⟨hd, rfl⟩ := mk.inj h
      obtain ⟨rfl, rfl⟩ := mk.inj hd
      exact ⟨rfl, .inl ⟨eq_nil_of_length_eq_zero hzero, some_ne_none _, rfl⟩⟩
    · obtain ⟨hd, rfl⟩ := mk.inj h
      obtain ⟨rfl, rfl⟩ := mk.inj hd
      exact ⟨rfl, .inr ⟨_, rfl, (if_pos hshort).symm⟩⟩
  · rename_i henough
    obtain ⟨hd, rfl⟩ := mk.inj h
    obtain ⟨rfl, rfl⟩ := mk.inj hd
    exact ⟨rfl, .inr ⟨_, rfl, (if_neg henough).symm⟩⟩

/-- A call that got as far as asking nodes to store. -/
structure Placed (core : Core c) (env : StoreEnv) (item : StoredItem) (deleteToken : Bytes)
    (delivery : Delivery) : Prop where
  valid : validateItem item env.now.utc defaultMaxItemBytes = .ok ()
  token : deleteToken.length = capabilityBytes ∧ item.deleteTokenHash = sha256 deleteToken
  sameItem : delivery.item = { item with work := delivery.item.work }
  sameToken : delivery.deleteToken = deleteToken
  /-- The group that was chosen, the work done for it, and the receipts of its nodes. -/
  asked : ∃ answers selected fuel, core.chooseNodes env item = (answers, some selected) ∧
    solveWork item selected.epochSeconds selected.threshold env.workAt env.workDone fuel =
      some (.ok delivery.item.work) ∧
    delivery.receipts = (storeOn c env delivery.item core.replicas selected.usable
      ⟨answers.reputation, answers.failedNodes, []⟩).receipts

/-- A call fails with an empty delivery and an untouched store, or it gets as far as asking
    nodes to store; then the delivery is kept unless it has no receipt, and the error says
    what is missing. -/
theorem storeReplicated_cases {a : Aead} {core' : Core c} {deleteToken : Bytes} {fuel : Nat}
    {err : Option DeliveryError}
    (h : core.storeReplicated a env item deleteToken fuel = some ((delivery, err), core')) :
    (delivery = .zero ∧ err ≠ none ∧ core'.store = core.store) ∨
    Placed core env item deleteToken delivery ∧
      (delivery.receipts = [] ∧ err ≠ none ∧ core'.store = core.store ∨
        ∃ (core1 : Core c) (failure : Option PersistError), core1.nodes = core.nodes ∧
          core1.store = core.store ∧
          core1.persistDelivery a env.texts env.persistCtx delivery env.persistAt.utc env.nonce =
            (failure, core') ∧
          err = if delivery.receipts.length < core.writeQuorum then
              some (.quorum delivery.receipts.length core.writeQuorum failure)
            else failure.map .persist) := by
  unfold Core.storeReplicated at h
  split at h
  · obtain ⟨⟨rfl, rfl⟩, rfl⟩ := by simpa only [Option.some.injEq, mk.injEq] using h
    exact .inl ⟨rfl, some_ne_none _, rfl⟩
  rename_i hvalid
  split at h
  · obtain ⟨⟨rfl, rfl⟩, rfl⟩ := by simpa only [Option.some.injEq, mk.injEq] using h
    exact .inl ⟨rfl, some_ne_none _, rfl⟩
  rename_i htoken
  simp only [ne_eq, not_or, Decidable.not_not] at htoken
  split at h
  · obtain ⟨⟨rfl, rfl⟩, rfl⟩ := by simpa only [Option.some.injEq, mk.injEq] using h
    exact .inl ⟨rfl, some_ne_none _, rfl⟩
  split at h
  · obtain ⟨⟨rfl, rfl⟩, rfl⟩ := by simpa only [Option.some.injEq, mk.injEq] using h
    exact .inl ⟨rfl, some_ne_none _, rfl⟩
  rename_i answers selected hselected
  split at h
  · cases h
  · obtain ⟨⟨rfl, rfl⟩, rfl⟩ := by simpa only [Option.some.injEq, mk.injEq] using h
    exact .inl ⟨rfl, some_ne_none _, rfl⟩
  rename_i work hwork
  obtain ⟨rfl, hend⟩ := finishDelivery_cases (some.inj h)
  refine .inr ⟨⟨hvalid, htoken, rfl, rfl, answers, selected, fuel, hselected, hwork, rfl⟩, ?_⟩
  obtain ⟨hnone, herr, rfl⟩ | ⟨failure, hpersist, herr⟩ := hend
  · exact .inl ⟨hnone, herr, rfl⟩
  · refine .inr ⟨_, failure, ?_, ?_, hpersist, herr⟩
    · rfl
    · rfl

/-! ## Receipts without an error -/

/-- The item carries the work a node with these parameters asks for at that time. -/
def WorkFor (item : StoredItem) (parameters : NodeParameters) (clock : Time) : Prop :=
  item.work.epoch = Int64.ofInt (clock.unix.tdiv parameters.epochSeconds.toInt) ∧
    parameters.difficulty ≤ item.work.difficulty ∧
    hasLeadingZeroBits (workDigest item item.work) item.work.difficulty = true

/-- The receipts are of different nodes of the core that were not excluded at the start of
    the call, each verifies for its node and the item, and the work in the item is what each
    of these nodes asked for. -/
theorem Placed.receipts {deleteToken : Bytes} (h : Placed core env item deleteToken delivery) :
    delivery.receipts.length ≤ core.replicas ∧
      ∃ nodes : List HTTPNode, (nodes.map (·.identity.nodeID)).Nodup ∧
        (∀ n ∈ nodes, n ∈ core.nodes ∧
          core.reputation.allowed n.identity.nodeID env.allowedAt = true ∧
          ∃ parameters, HTTPNode.parameters env.texts (env.parameters n) = .ok parameters ∧
            WorkFor delivery.item parameters env.workAt) ∧
        Certified c env delivery.item nodes delivery.receipts := by
  obtain ⟨answers, selected, fuel, hselected, hwork, hreceipts⟩ := h.asked
  obtain ⟨hgrouped, hchosen⟩ := chooseNodes_spec hselected
  obtain ⟨hepoch, hdifficulty, hzero⟩ := solveWork_ok hwork
  obtain ⟨hoffers, hsame⟩ := hgrouped selected.epochSeconds
  have harrival := env.parameterArrival_perm (core.allowedNodes env.allowedAt)
  -- the usable nodes are among the allowed ones, each once
  have hids : ∀ n ∈ core.nodes, ∀ m ∈ core.nodes, n.identity.nodeID = m.identity.nodeID → n = m :=
    fun n hn m hm => inj_on_of_nodup_map core.distinct hn hm
  have hgroup : (selected.group.map (·.node)).Nodup := by
    refine (hchosen.perm.map _).nodup_iff.mpr (Nodup.sublist hoffers.sub ?_)
    exact harrival.nodup_iff.mpr (Nodup.of_map _ core.distinct |>.filter _)
  have husable : selected.usable.Nodup := hgroup.sublist (filter_sublist.map _)
  obtain ⟨nodes, hperm, hcertified⟩ := @storeOn_certified c env delivery.item core.replicas
    selected.usable ⟨answers.reputation, answers.failedNodes, []⟩ rfl
  rw [← hreceipts] at hcertified
  have hlen : delivery.receipts.length ≤ core.replicas := by
    rw [← hcertified.length_eq, hperm.length_eq]
    exact length_take_le _ _
  have hnode : ∀ n ∈ nodes, n ∈ core.nodes ∧
      core.reputation.allowed n.identity.nodeID env.allowedAt = true ∧
      ∃ parameters, HTTPNode.parameters env.texts (env.parameters n) = .ok parameters ∧
        WorkFor delivery.item parameters env.workAt := by
    intro n hn
    obtain ⟨o, ho, rfl⟩ := mem_map.mp
      (mem_of_mem_filter (mem_of_mem_take (hperm.mem_iff.mp hn)))
    obtain ⟨ho, hle⟩ := mem_filter.mp ho
    have ho := hchosen.perm.mem_iff.mp ho
    have hallowed := harrival.mem_iff.mp (hoffers.sub.subset (mem_map_of_mem ho))
    obtain ⟨hin, hallowed⟩ := mem_filter.mp hallowed
    refine ⟨hin, hallowed, o.parameters, hoffers.answered o ho, ?_, ?_, ?_⟩
    · rw [hepoch, hsame o ho]
    · rw [hdifficulty]
      exact of_decide_eq_true hle
    · rw [h.sameItem]
      exact hzero
  refine ⟨hlen, nodes, ?_, hnode, hcertified⟩
  exact Nodup.map_on (fun n hn m hm => hids n (hnode n hn).1 m (hnode m hm).1)
    (hperm.nodup_iff.mpr ((husable.filter _).sublist (take_sublist _ _)))

/-- A delivery returned without an error has at least the write quorum of receipts and at
    most one for each replica. They are of different nodes of the core that were not excluded
    at the start of the call, each verifies for its node and the item that was to be stored,
    and that item carries the work each of these nodes asked for. -/
theorem storeReplicated_sound (a : Aead) (core core' : Core c) (env : StoreEnv) (item : StoredItem)
    (deleteToken : Bytes) (fuel : Nat) (delivery : Delivery)
    (h : core.storeReplicated a env item deleteToken fuel = some ((delivery, none), core')) :
    core.writeQuorum ≤ delivery.receipts.length ∧ delivery.receipts.length ≤ core.replicas ∧
      delivery.item = { item with work := delivery.item.work } ∧
      ∃ nodes : List HTTPNode, (nodes.map (·.identity.nodeID)).Nodup ∧
        (∀ n ∈ nodes, n ∈ core.nodes ∧
          core.reputation.allowed n.identity.nodeID env.allowedAt = true ∧
          ∃ parameters, HTTPNode.parameters env.texts (env.parameters n) = .ok parameters ∧
            WorkFor delivery.item parameters env.workAt) ∧
        List.Forall₂ (fun node receipt => verifyStorageReceipt c node.identity delivery.item receipt
          (env.storedAt node) = true) nodes delivery.receipts := by
  obtain ⟨-, herr, -⟩ | ⟨hplaced, ⟨-, herr, -⟩ | ⟨core1, failure, -, -, -, herr⟩⟩ :=
    storeReplicated_cases h
  · exact absurd rfl herr
  · exact absurd rfl herr
  · have hquorum : core.writeQuorum ≤ delivery.receipts.length := by
      by_contra hshort
      rw [if_pos (by omega)] at herr
      cases herr
    obtain ⟨hlen, nodes, hnodup, hnodes, hcertified⟩ := hplaced.receipts
    exact ⟨hquorum, hlen, hplaced.sameItem, nodes, hnodup, hnodes,
      hcertified.imp fun node receipt hstore => (HTTPNode.store_ok hstore).1⟩

/-! ### A core of one node -/

def soloCore (node : HTTPNode) (hvalid : validPublicIdentity c node.identity = true)
    (store : Option EncryptedDiskStore) : Core c where
  nodes := [node]
  replicas := 1
  writeQuorum := 1
  reputation := newReputation
  store := store
  valid := by simpa using hvalid
  distinct := List.nodup_singleton _
  quorum_pos := Nat.one_pos
  quorum_le := le_rfl
  replicas_le := le_rfl

/-- A call that takes no time; every node gives the same two answers. -/
def soloEnv (texts : JsonTexts) (now : Time) (parameters receipt : Bytes) (nonce : Bytes) :
    StoreEnv where
  now := now
  allowedAt := now
  texts := texts
  parameters := fun _ => .answered 200 parameters
  parametersAt := fun _ => now
  parameterArrival := id
  parameterArrival_perm := fun _ => List.Perm.refl _
  epochOrder := fun epochs => ((epochs.image Int64.toInt).sort (· ≤ ·)).map Int64.ofInt
  epochOrder_nodup := by
    intro epochs
    refine List.Nodup.map_on (fun x hx y hy h => ?_) (Finset.sort_nodup _ _)
    obtain ⟨u, -, rfl⟩ := Finset.mem_image.mp ((Finset.mem_sort _).mp hx)
    obtain ⟨v, -, rfl⟩ := Finset.mem_image.mp ((Finset.mem_sort _).mp hy)
    rw [Int64.ofInt_toInt, Int64.ofInt_toInt] at h
    rw [h]
  mem_epochOrder := by
    intro epochs epoch
    simp only [List.mem_map, Finset.mem_sort, Finset.mem_image]
    constructor
    · rintro ⟨x, ⟨e, he, rfl⟩, rfl⟩
      rwa [Int64.ofInt_toInt]
    · exact fun he => ⟨_, ⟨epoch, he, rfl⟩, Int64.ofInt_toInt epoch⟩
  workAt := now
  workDone := fun _ => none
  stored := fun _ => .answered 200 receipt
  storedAt := fun _ => now
  handledAt := fun _ => now
  storeArrival := id
  storeArrival_perm := fun _ => List.Perm.refl _
  persistAt := now
  persistCtx := .background
  nonce := nonce

/-- The one node asks for no work and gives a receipt that verifies. -/
theorem storeReplicated_solo (a : Aead) {node : HTTPNode}
    (hvalid : validPublicIdentity c node.identity = true) (store : Option EncryptedDiskStore)
    {texts : JsonTexts} {now : Time} {parameters answer nonce : Bytes} {item : StoredItem}
    {deleteToken : Bytes} {p : NodeParameters} {receipt : StorageReceipt} (fuel : Nat)
    (hnow : 0 ≤ now.ns) (hitem : validateItem item now.utc defaultMaxItemBytes = .ok ())
    (htoken : deleteToken.length = capabilityBytes ∧ item.deleteTokenHash = sha256 deleteToken)
    (hp : HTTPNode.parameters texts (.answered 200 parameters) = .ok p) (hfree : p.difficulty = 0)
    (hfits : (item.payload.length : Int) ≤ p.maxItemBytes.toInt)
    (hreceipt : ∀ work, node.store c texts { item with work := work } (.answered 200 answer) now =
      .ok receipt) :
    ∃ (core1 : Core c) (work : WorkProof), core1.nodes = [node] ∧ core1.store = store ∧
      core1.writeQuorum = 1 ∧
      (soloCore node hvalid store).storeReplicated a (soloEnv texts now parameters answer nonce) item
        deleteToken (fuel + 1) = some (core1.finishDelivery a
          (soloEnv texts now parameters answer nonce)
          ⟨{ item with work := work }, deleteToken, [receipt], ∅⟩) := by
  have hepoch := HTTPNode.parameters_ok hp
  simp only [validateNodeParameters, Bool.not_eq_true', Bool.or_eq_false_iff,
    decide_eq_false_iff_not, not_lt] at hepoch
  generalize henv : soloEnv texts now parameters answer nonce = env
  have hallowed : (soloCore node hvalid store).allowedNodes env.allowedAt = [node] := by
    subst henv
    simp [Core.allowedNodes, soloCore, soloEnv, Reputation.allowed_new _ hnow]
  obtain ⟨groups, hgroups⟩ : ∃ groups : GoMap Int64 (List Offer),
      groups = Finmap.insert p.epochSeconds [⟨node, p⟩] ∅ := ⟨_, rfl⟩
  have hanswers : (env.parameterArrival [node]).foldl (takeParameters env item)
      ⟨newReputation, ∅, ∅⟩ = ⟨newReputation, ∅, groups⟩ := by
    subst henv hgroups
    simp [soloEnv, takeParameters, hp, not_lt.mpr hfits, GoMap.getD]
  have hchosen : (env.epochOrder groups.keys).foldl (chooseGroup 1 groups) none =
      some ⟨[⟨node, p⟩], p.epochSeconds, 0⟩ := by
    have hkeys : groups.keys = {p.epochSeconds} := by
      rw [hgroups, GoMap.keys_insert]
      rfl
    have hgroup : groups.getD p.epochSeconds [] = [⟨node, p⟩] := by
      rw [hgroups, GoMap.getD, Finmap.lookup_insert]
      rfl
    subst henv
    simp [soloEnv, hkeys, chooseGroup, hgroup, hfree]
  have hselected : (soloCore node hvalid store).chooseNodes env item =
      (⟨newReputation, ∅, groups⟩, some ⟨[⟨node, p⟩], p.epochSeconds, 0⟩) := by
    unfold Core.chooseNodes
    rw [hallowed, show (soloCore node hvalid store).reputation = newReputation from rfl, hanswers,
      show (soloCore node hvalid store).writeQuorum = 1 from rfl]
    dsimp only
    rw [hchosen]
  have hwork : solveWork item p.epochSeconds 0 env.workAt env.workDone (fuel + 1) =
      some (.ok ⟨Int64.ofInt (now.unix.tdiv p.epochSeconds.toInt), 0, 0⟩) := by
    subst henv
    exact solveWork_free item now hepoch.1.1.1.1.1.1.2 hepoch.1.1.1.1.1.2 rfl fuel
  have husable : (Selection.mk [⟨node, p⟩] p.epochSeconds 0).usable = [node] := by
    simp [Selection.usable, hfree]
  have hstore : ∀ work, storeOn c env { item with work := work }
      (soloCore node hvalid store).replicas [node] ⟨newReputation, ∅, []⟩ =
        ⟨newReputation.success node.identity.nodeID false, ∅, [receipt]⟩ := by
    intro work
    have htake : takeReceipt c env { item with work := work } ⟨newReputation, ∅, []⟩ node =
        ⟨newReputation.success node.identity.nodeID false, ∅, [receipt]⟩ := by
      have hgives : node.store c env.texts { item with work := work } (env.stored node)
          (env.storedAt node) = .ok receipt := by
        rw [← henv]
        exact hreceipt work
      unfold takeReceipt
      rw [hgives]
      rfl
    have harrival : env.storeArrival [node] = [node] := by
      rw [← henv]
      rfl
    unfold storeOn
    change replaceFailed c env { item with work := work } 1 [] ((env.storeArrival [node]).foldl
      (takeReceipt c env { item with work := work }) ⟨newReputation, ∅, []⟩) = _
    rw [harrival, foldl_cons, foldl_nil, htake]
    rfl
  have hat : env.now = now := by
    rw [← henv]
    rfl
  refine ⟨{ soloCore node hvalid store with
    reputation := newReputation.success node.identity.nodeID false },
    ⟨Int64.ofInt (now.unix.tdiv p.epochSeconds.toInt), 0, 0⟩, rfl, rfl, rfl, ?_⟩
  unfold Core.storeReplicated
  rw [hat, hitem]
  dsimp only
  rw [if_neg (by simp [htoken]), hallowed, if_neg (show ¬ [node].length < (soloCore node hvalid store).writeQuorum from Nat.lt_irrefl 1),
    hselected]
  dsimp only
  rw [hwork, husable]
  dsimp only
  rw [hstore]

/-! ### A sample call -/

def sampleNode : HTTPNode := ⟨lit "https://node.example", sampleIdentity 1, true⟩

def sampleToken : Bytes := sampleBytes 32 5

/-- An item created `delta` nanoseconds after the epoch. -/
def sampleItem (delta : Int) : StoredItem :=
  let i : StoredItem :=
    { version := 1
      itemID := []
      routeTag := base64Encode base64UrlAlphabet false (List.replicate 32 0)
      createdAt := Time.epoch.add delta
      expiresAt := (Time.epoch.add delta).add fixedItemRetention
      deleteTokenHash := sha256 sampleToken
      payload := [0]
      work := ⟨0, 0, 0⟩ }
  { i with itemID := computeItemID i }

theorem sampleItem_valid (h0 : 0 ≤ delta) (h : delta ≤ 5 * minute) :
    validateItem (sampleItem delta) epoch.utc defaultMaxItemBytes = .ok () := by
  refine (validateItem_ok_iff _ _ _).mpr
    ⟨⟨rfl, ?_, length_sha256 _, cons_ne_nil _ _, ?_, by decide, rfl, rfl⟩, ?_, ?_⟩
  · exact (by decide : validRouteTag (base64Encode base64UrlAlphabet false (replicate 32 0)) = true)
  · exact (by decide : (([0] : Bytes).length : Int) ≤ defaultMaxItemBytes)
  · change epoch.ns + delta ≤ epoch.ns + 5 * minute
    omega
  · change epoch.ns < epoch.ns + delta + fixedItemRetention
    have : (0 : Int) < fixedItemRetention := by decide
    omega

def sampleReceipt (item : StoredItem) : StorageReceipt :=
  let r : StorageReceipt := ⟨(sampleIdentity 1).nodeID, item.itemID, sha256 item.payload, Time.epoch,
    item.expiresAt, HybridSignature.zero⟩
  { r with signature := sampleSign receiptDomain (receiptSigningBytes r) }

theorem sampleReceipt_verifies (h0 : 0 ≤ delta) (h : delta ≤ 5 * minute) (work : WorkProof) :
    verifyStorageReceipt samplePrimitives (sampleIdentity 1)
      { sampleItem delta with work := work } (sampleReceipt (sampleItem delta)) epoch = true := by
  have hretention : (0 : Int) < fixedItemRetention := by decide
  refine verifyStorageReceipt_iff.mpr ⟨rfl, rfl, rfl, rfl, ?_, ?_, ?_, verify_sampleSign _ _ _⟩
  · change epoch.ns + delta - 5 * minute ≤ epoch.ns
    omega
  · change epoch.ns ≤ epoch.ns + 5 * minute
    have : (0 : Int) < minute := by decide
    omega
  · change epoch.ns ≤ epoch.ns + delta + fixedItemRetention
    omega

def sampleParameters : NodeParameters := ⟨1, 0, 3600, 327680, 0, 1000000⟩

def sampleParametersText : Bytes := lit
  "\x7b\"protocol_version\":1,\"difficulty\":0,\"epoch_seconds\":3600,\"max_item_bytes\":327680,\"storage_used\":0,\"storage_capacity\":1000000\x7d"

theorem sampleParameters_answered (texts : JsonTexts) :
    HTTPNode.parameters texts (.answered 200 sampleParametersText) = .ok sampleParameters := by
  have hread : unmarshal nodeParametersCodec NodeParameters.zero sampleParametersText =
      some sampleParameters := by decide +kernel
  have hsize : ¬ sampleParametersText.length > getJSONLimit := by decide +kernel
  simp only [HTTPNode.parameters, Exchange.result, decodeResponseJSON, hread, if_neg hsize]
  rfl

theorem sampleItem_plain (delta : Int) :
    Json.Plain (sampleItem delta).itemID ∧ Json.Plain (sampleItem delta).routeTag :=
  ⟨plain_hexEncode _, validRouteTag_plain (by decide :
    validRouteTag (base64Encode base64UrlAlphabet false (replicate 32 0)) = true)⟩

/-- The JSON text of the sample item, with whichever proof of work. -/
theorem sampleItem_atMost (work : WorkProof) {created : Bytes}
    (hc : (sampleItem delta).createdAt.marshalText = some created)
    (he : (sampleItem delta).expiresAt.marshalText = some expires) :
    storedItemCodec.AtMost { sampleItem delta with work := work } 600 := by
  obtain ⟨hid, hroute⟩ := sampleItem_plain delta
  refine (@storedItemCodec_atMost { sampleItem delta with work := work } hid hroute _ _ hc
    he).atMost ?_
  have h1 : (sampleItem delta).itemID.length = 64 := length_computeItemID _
  have h2 : (sampleItem delta).routeTag.length = 43 := by
    change (base64Encode base64UrlAlphabet false (replicate 32 0)).length = 43
    decide
  have h3 : (sampleItem delta).deleteTokenHash.length = 32 := length_sha256 _
  have h4 : (sampleItem delta).payload.length = 1 := rfl
  change (sampleItem delta).itemID.length + (sampleItem delta).routeTag.length +
    4 * (((sampleItem delta).deleteTokenHash.length + 2) / 3) +
    4 * (((sampleItem delta).payload.length + 2) / 3) + 400 ≤ 600
  omega

theorem sampleReceipt_atMost (he : (sampleItem delta).expiresAt.marshalText = some expires) :
    storageReceiptCodec.AtMost (sampleReceipt (sampleItem delta)) 5000 := by
  obtain ⟨stored, hstored⟩ : ∃ text, epoch.marshalText = some text := ⟨_, rfl⟩
  have hsig := verify_sizes (verify_sampleSign 1 receiptDomain (receiptSigningBytes
    ⟨(sampleIdentity 1).nodeID, (sampleItem delta).itemID, sha256 (sampleItem delta).payload,
      epoch, (sampleItem delta).expiresAt, HybridSignature.zero⟩))
  refine (@storageReceiptCodec_atMost (sampleReceipt (sampleItem delta)) (plain_nodeID _)
    (sampleItem_plain delta).1 _ _ hstored he _ _ (hybridSignatureCodec_sized _)).atMost ?_
  have h1 : (sampleReceipt (sampleItem delta)).nodeID.length = 64 := length_nodeID _
  have h2 : (sampleReceipt (sampleItem delta)).itemID.length = 64 := length_computeItemID _
  have h3 : (sampleReceipt (sampleItem delta)).payloadHash.length = 32 := length_sha256 _
  have h4 : (sampleReceipt (sampleItem delta)).signature.ed25519.length = 64 := hsig.1
  have h5 : (sampleReceipt (sampleItem delta)).signature.mldsa65.length = 3309 := hsig.2
  omega

/-- The text of the sample receipt is taken by the node's client. -/
theorem sampleReceipt_answered {delta : Int} (h0 : 0 ≤ delta) (h : delta ≤ 5 * minute)
    {created expires : Bytes} (hc : (sampleItem delta).createdAt.marshalText = some created)
    (he : (sampleItem delta).expiresAt.marshalText = some expires) : ∃ answer,
      ∀ texts work, sampleNode.store samplePrimitives texts { sampleItem delta with work := work }
        (.answered 200 answer) epoch = .ok (sampleReceipt (sampleItem delta)) := by
  obtain ⟨answer, hanswer, hsize⟩ := marshal_atMost (sampleReceipt_atMost he)
  refine ⟨answer, fun texts work => ?_⟩
  have hread : unmarshal storageReceiptCodec StorageReceipt.zero answer =
      some (sampleReceipt (sampleItem delta)) :=
    unmarshal_marshal (storageReceiptCodec_roundtrips (plain_nodeID _) (sampleItem_plain delta).1
      ⟨rfl, rfl⟩) hanswer
  have hlimit : ¬ answer.length > postJSONLimit := by
    unfold postJSONLimit
    omega
  obtain ⟨body, hbody⟩ := (@storedItemCodec_writes { sampleItem delta with work := work } _ _ hc
    he).marshal
  unfold HTTPNode.store
  rw [hbody]
  simp only [Exchange.result, decodeResponseJSON, if_neg hlimit, hread]
  exact if_pos (sampleReceipt_verifies h0 h work)

/-- The texts of JSON errors, which no sample reads. -/
def sampleTexts : JsonTexts := ⟨id, fun _ => []⟩

/-- The sample call with any store. -/
theorem storeReplicated_sample (h0 : 0 ≤ delta) (h : delta ≤ 5 * minute) {created : Bytes}
    (hc : (sampleItem delta).createdAt.marshalText = some created)
    (he : (sampleItem delta).expiresAt.marshalText = some expires) (a : Aead)
    (store : Option EncryptedDiskStore) (nonce : Bytes) :
    ∃ (core1 : Core samplePrimitives) (work : WorkProof) (answer : Bytes),
      core1.nodes = [sampleNode] ∧ core1.store = store ∧ core1.writeQuorum = 1 ∧
      (soloCore sampleNode (sampleIdentity_valid 1) store).storeReplicated a
        (soloEnv sampleTexts epoch sampleParametersText answer nonce) (sampleItem delta)
        sampleToken 1 = some (core1.finishDelivery a
          (soloEnv sampleTexts epoch sampleParametersText answer nonce)
          ⟨{ sampleItem delta with work := work }, sampleToken, [sampleReceipt (sampleItem delta)],
            ∅⟩) := by
  obtain ⟨answer, hanswer⟩ := sampleReceipt_answered h0 h hc he
  have htoken : sampleToken.length = capabilityBytes ∧
      (sampleItem delta).deleteTokenHash = sha256 sampleToken := ⟨length_sampleBytes _ _, rfl⟩
  have hfits : ((sampleItem delta).payload.length : Int) ≤ sampleParameters.maxItemBytes.toInt :=
    (by decide : (([0] : Bytes).length : Int) ≤ sampleParameters.maxItemBytes.toInt)
  obtain ⟨core1, work, hnodes, hstore, hquorum, hcall⟩ := @storeReplicated_solo _ a sampleNode
    (sampleIdentity_valid 1) store sampleTexts _ _ answer nonce _ _ _ _ 0 (by decide)
    (sampleItem_valid h0 h) htoken (sampleParameters_answered _) rfl hfits (hanswer _)
  exact ⟨core1, work, answer, hnodes, hstore, hquorum, hcall⟩

/-- The sample item is stored on the one node of a core without a local store. -/
theorem storeReplicated_sound_one : ∃ (core core' : Core samplePrimitives) (env : StoreEnv)
    (delivery : Delivery),
    core.storeReplicated plainAead env (sampleItem 0) sampleToken 1 = some ((delivery, none), core') ∧
      core.writeQuorum ≤ delivery.receipts.length ∧
      delivery.item = { sampleItem 0 with work := delivery.item.work } := by
  obtain ⟨created, hc⟩ : ∃ text, (sampleItem 0).createdAt.marshalText = some text := ⟨_, rfl⟩
  obtain ⟨expires, he⟩ : ∃ text, (sampleItem 0).expiresAt.marshalText = some text := ⟨_, rfl⟩
  obtain ⟨core1, work, answer, -, hstore, hquorum, hcall⟩ :=
    storeReplicated_sample le_rfl (by decide) hc he plainAead none []
  have hend : core1.finishDelivery plainAead
      (soloEnv sampleTexts Time.epoch sampleParametersText answer [])
      ⟨{ sampleItem 0 with work := work }, sampleToken, [sampleReceipt (sampleItem 0)], ∅⟩ =
        ((⟨{ sampleItem 0 with work := work }, sampleToken, [sampleReceipt (sampleItem 0)], ∅⟩,
          none), core1) := by
    refine @finishDelivery_enough _ _ _ _ _ _ none hquorum.le ?_
    simp only [Core.persistDelivery, hstore]
  rw [hend] at hcall
  obtain ⟨hlow, -, hitem, -⟩ := storeReplicated_sound _ _ _ _ _ _ _ _ hcall
  exact ⟨_, _, _, _, hcall, hlow, hitem⟩

end Veilmesh.Client

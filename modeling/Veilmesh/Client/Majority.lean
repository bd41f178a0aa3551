/-
  Which group of nodes the work of an item is done for (`StoreReplicated` of `client/core.go`).

  The nodes that answer are grouped by the length of their epoch, in the order in which their
  answers arrive; the largest group wins, and its difficulty is the one that the write quorum
  of it does not exceed. A group that is larger than every other one is chosen whatever the
  order of the answers and of the map is.

  * `foldl_takeParameters_group`: who is in a group.
  * `le_key_iff_countP`: what the difficulty of a sorted group means.
  * `chooseNodes_largest`: the choice of the largest group.
  * `storeReplicated_majority`: a minority does not make a client work more.
-/
import Veilmesh.Client.Quorum

namespace Veilmesh.Client

open Lib Protocol Pqcrypto List

variable {c : Primitives}

/-! ## The threshold of a group -/

/-- An element of a sorted list reaches a bound exactly if no more elements than its index are
    below the bound. -/
theorem le_key_iff_countP {α β : Type} [LinearOrder β] (key : α → β) (d : β) :
    ∀ {l : List α}, (l.Pairwise fun x y => key x ≤ key y) → ∀ {k : Nat} {x : α},
      l[k]? = some x → (d ≤ key x ↔ l.countP (fun y => key y < d) ≤ k) := by
  intro l
  induction l with
  | nil => exact fun _ k x hx => nomatch hx
  | cons y l ih =>
    intro hsorted k x hx
    obtain ⟨hhead, htail⟩ := pairwise_cons.mp hsorted
    -- nothing is below the bound once the head has reached it
    have hnone : d ≤ key y → (y :: l).countP (fun z => key z < d) = 0 := by
      intro hd
      rw [countP_eq_zero]
      intro z hz
      rw [decide_eq_true_eq, not_lt]
      rcases mem_cons.mp hz with rfl | hz
      · exact hd
      · exact hd.trans (hhead z hz)
    cases k with
    | zero =>
      obtain rfl : y = x := Option.some.inj hx
      refine ⟨fun hd => (hnone hd).le, fun hcount => ?_⟩
      have := countP_eq_zero.mp (Nat.le_zero.mp hcount) y mem_cons_self
      rwa [decide_eq_true_eq, not_lt] at this
    | succ k =>
      rw [getElem?_cons_succ] at hx
      by_cases hy : key y < d
      · have hcount : (y :: l).countP (fun z => key z < d) = l.countP (fun z => key z < d) + 1 :=
          countP_cons_of_pos (p := fun z => decide (key z < d)) (decide_eq_true hy)
        rw [ih htail hx, hcount, Nat.add_le_add_iff_right]
      · have hd := not_lt.mp hy
        rw [hnone hd]
        exact ⟨fun _ => Nat.zero_le _, fun _ => hd.trans (hhead x (mem_of_getElem? hx))⟩

theorem offerLE_trans (i j k : Offer) (hij : offerLE i j = true) (hjk : offerLE j k = true) :
    offerLE i k = true := by
  unfold offerLE at *
  simp only [UInt8.lt_iff_toNat_lt, ← UInt8.toNat_inj] at *
  split at hij <;> split at hjk <;> split
  · exact decide_eq_true ((of_decide_eq_true hij).trans (of_decide_eq_true hjk))
  all_goals simp only [decide_eq_true_eq] at *; omega

theorem offerLE_total (i j : Offer) : (offerLE i j || offerLE j i) = true := by
  unfold offerLE
  by_cases h : i.parameters.difficulty = j.parameters.difficulty
  · rw [if_pos h, if_pos h.symm, Bool.or_eq_true, decide_eq_true_eq, decide_eq_true_eq]
    exact Std.Total.total _ _
  · rw [if_neg h, if_neg (Ne.symm h), Bool.or_eq_true, decide_eq_true_eq, decide_eq_true_eq]
    exact UInt8.lt_or_lt_of_ne h

theorem offerLE_difficulty {i j : Offer} (h : offerLE i j = true) :
    i.parameters.difficulty.toNat ≤ j.parameters.difficulty.toNat := by
  unfold offerLE at h
  split at h
  · rename_i heq
    rw [heq]
  · exact (UInt8.lt_iff_toNat_lt.mp (of_decide_eq_true h)).le

/-! ## The groups -/

/-- The offers of the nodes that answer. -/
def answering (env : StoreEnv) (nodes : List HTTPNode) : List Offer :=
  nodes.filterMap fun n =>
    (HTTPNode.parameters env.texts (env.parameters n)).toOption.map fun p => ⟨n, p⟩

variable {env : StoreEnv}

theorem mem_answering {nodes : List HTTPNode} {o : Offer} :
    o ∈ answering env nodes ↔ o.node ∈ nodes ∧
      HTTPNode.parameters env.texts (env.parameters o.node) = .ok o.parameters := by
  unfold answering
  rw [mem_filterMap]
  constructor
  · rintro ⟨n, hn, ho⟩
    obtain ⟨p, hp, rfl⟩ := Option.map_eq_some_iff.mp ho
    refine ⟨hn, ?_⟩
    cases hresult : HTTPNode.parameters env.texts (env.parameters n) with
    | error e =>
      rw [hresult] at hp
      cases hp
    | ok p' =>
      rw [hresult] at hp
      rw [← Option.some.inj hp]
  · rintro ⟨hn, hp⟩
    exact ⟨o.node, hn, by rw [hp]; rfl⟩

theorem nodes_answering (env : StoreEnv) (nodes : List HTTPNode) :
    ((answering env nodes).map (·.node)).Sublist nodes := by
  induction nodes with
  | nil => exact Sublist.refl _
  | cons n nodes ih =>
    unfold answering
    rw [filterMap_cons]
    cases HTTPNode.parameters env.texts (env.parameters n) with
    | error e => exact ih.cons n
    | ok p => exact ih.cons_cons n

theorem answering_single {n : HTTPNode} {p : NodeParameters}
    (hp : HTTPNode.parameters env.texts (env.parameters n) = .ok p) :
    answering env [n] = [⟨n, p⟩] := by
  simp [answering, hp, Except.toOption]

/-- The offers a call has to choose from. -/
def Core.offers (core : Core c) (env : StoreEnv) : List Offer :=
  answering env (core.allowedNodes env.allowedAt)

/-- The offers of one epoch that take an item. -/
def admitted (item : StoredItem) (epoch : Int64) (o : Offer) : Bool :=
  decide (o.parameters.epochSeconds = epoch ∧
    (item.payload.length : Int) ≤ o.parameters.maxItemBytes.toInt)

/-- An answer joins the group of its epoch, and no other. -/
theorem takeParameters_group (env : StoreEnv) (item : StoredItem) (acc : Answers) (node : HTTPNode)
    (epoch : Int64) :
    (takeParameters env item acc node).groups.getD epoch [] =
      acc.groups.getD epoch [] ++ (answering env [node]).filter (admitted item epoch) := by
  cases hp : HTTPNode.parameters env.texts (env.parameters node) with
  | error e =>
    have hnone : answering env [node] = [] := by simp [answering, hp, Except.toOption]
    simp only [takeParameters, hp, hnone, filter_nil, append_nil]
  | ok p =>
    rw [answering_single hp, filter_singleton]
    by_cases hsize : (item.payload.length : Int) > p.maxItemBytes.toInt
    · have hnot : admitted item epoch ⟨node, p⟩ = false :=
        decide_eq_false fun h => absurd h.2 (not_le.mpr hsize)
      simp only [takeParameters, hp, if_pos hsize, hnot]
      exact (append_nil _).symm
    · simp only [takeParameters, hp, if_neg hsize, GoMap.getD_insert]
      by_cases hepoch : epoch = p.epochSeconds
      · have hyes : admitted item epoch ⟨node, p⟩ = true :=
          decide_eq_true ⟨hepoch.symm, not_lt.mp hsize⟩
        rw [if_pos hepoch, hyes, hepoch]
        rfl
      · have hnot : admitted item epoch ⟨node, p⟩ = false :=
          decide_eq_false fun h => hepoch h.1.symm
        rw [if_neg hepoch, hnot]
        exact (append_nil _).symm

/-- A group consists of the answers of its epoch, in the order in which they arrive. -/
theorem foldl_takeParameters_group (env : StoreEnv) (item : StoredItem) (epoch : Int64)
    (nodes : List HTTPNode) : ∀ acc : Answers,
      (nodes.foldl (takeParameters env item) acc).groups.getD epoch [] =
        acc.groups.getD epoch [] ++ (answering env nodes).filter (admitted item epoch) := by
  induction nodes with
  | nil => exact fun acc => (append_nil _).symm
  | cons node nodes ih =>
    intro acc
    have hsplit : answering env (node :: nodes) = answering env [node] ++ answering env nodes :=
      filterMap_append (l := [node])
    rw [foldl_cons, ih, takeParameters_group, hsplit, filter_append, append_assoc]

/-! ## The largest group -/

/-- A group put in order, with its difficulty. -/
def groupSelection (writeQuorum : Nat) (groups : GoMap Int64 (List Offer)) (epoch : Int64) :
    Selection :=
  let group := (groups.getD epoch []).mergeSort offerLE
  ⟨group, epoch, (group[writeQuorum - 1]?.map (·.parameters.difficulty)).getD 0⟩

theorem length_groupSelection (writeQuorum : Nat) (groups : GoMap Int64 (List Offer))
    (epoch : Int64) :
    (groupSelection writeQuorum groups epoch).group.length = (groups.getD epoch []).length :=
  (mergeSort_perm _ _).length_eq

/-- What the group of an epoch takes the place of: no group, a smaller one, or itself. -/
def GivesWay (writeQuorum : Nat) (groups : GoMap Int64 (List Offer)) (epoch : Int64)
    (selected : Option Selection) : Prop :=
  ∀ s ∈ selected, s.group.length < (groups.getD epoch []).length ∨
    s = groupSelection writeQuorum groups epoch

section

variable {writeQuorum : Nat} {groups : GoMap Int64 (List Offer)} {epoch : Int64}

theorem chooseGroup_largest (henough : writeQuorum ≤ (groups.getD epoch []).length)
    {selected : Option Selection} (h : GivesWay writeQuorum groups epoch selected) :
    chooseGroup writeQuorum groups selected epoch =
      some (groupSelection writeQuorum groups epoch) := by
  have hlen := length_groupSelection writeQuorum groups epoch
  unfold chooseGroup
  dsimp only
  rw [if_neg (not_lt.mpr henough)]
  cases selected with
  | none => rfl
  | some best =>
    change (if (groupSelection writeQuorum groups epoch).group.length > best.group.length ∨
        (groupSelection writeQuorum groups epoch).group.length = best.group.length ∧
          (groupSelection writeQuorum groups epoch).threshold < best.threshold then
      some (groupSelection writeQuorum groups epoch) else some best) = _
    rcases h best rfl with hless | rfl
    · rw [if_pos (.inl (hlen ▸ hless))]
    · exact ite_self _

/-- A smaller group does not take the place of the largest one. -/
theorem chooseGroup_smaller {selected : Option Selection} {e : Int64}
    (hsmaller : (groups.getD e []).length < (groups.getD epoch []).length)
    (h : GivesWay writeQuorum groups epoch selected) :
    GivesWay writeQuorum groups epoch (chooseGroup writeQuorum groups selected e) ∧
      (selected = some (groupSelection writeQuorum groups epoch) →
        chooseGroup writeQuorum groups selected e = selected) := by
  have hnew : ∀ threshold, GivesWay writeQuorum groups epoch
      (some ⟨(groups.getD e []).mergeSort offerLE, e, threshold⟩) := by
    intro threshold s hs
    obtain rfl := Option.some.inj hs
    exact .inl ((mergeSort_perm _ _).length_eq.trans_lt hsmaller)
  unfold chooseGroup
  dsimp only
  split
  · exact ⟨h, fun _ => rfl⟩
  · cases selected with
    | none => exact ⟨hnew _, by rintro ⟨⟩⟩
    | some best =>
      dsimp only
      split
      · rename_i hbetter
        refine ⟨hnew _, fun hbest => ?_⟩
        rw [Option.some.inj hbest, (mergeSort_perm _ _).length_eq, length_groupSelection]
          at hbetter
        omega
      · exact ⟨h, fun _ => rfl⟩

/-- The largest group is chosen whatever the order of the map is. -/
theorem foldl_chooseGroup_largest (henough : writeQuorum ≤ (groups.getD epoch []).length)
    (hlargest : ∀ e, e ≠ epoch → (groups.getD e []).length < (groups.getD epoch []).length)
    (epochs : List Int64) : ∀ selected : Option Selection,
      GivesWay writeQuorum groups epoch selected →
      epoch ∈ epochs ∨ selected = some (groupSelection writeQuorum groups epoch) →
      epochs.foldl (chooseGroup writeQuorum groups) selected =
        some (groupSelection writeQuorum groups epoch) := by
  induction epochs with
  | nil => exact fun selected _ hin => hin.resolve_left not_mem_nil
  | cons e epochs ih =>
    intro selected h hin
    rw [foldl_cons]
    by_cases he : e = epoch
    · rw [he, chooseGroup_largest henough h]
      refine ih _ (fun s hs => .inr (Option.some.inj hs).symm) (.inr rfl)
    · obtain ⟨hgives, hkeep⟩ := chooseGroup_smaller (hlargest e he) h
      refine ih _ hgives (hin.imp (fun hmem => ?_) fun hsame => (hkeep hsame).trans hsame)
      exact (mem_cons.mp hmem).resolve_left (Ne.symm he)

end

/-- The selection of a group with its difficulty, the one at the write quorum. -/
structure Ordered (writeQuorum : Nat) (offers : List Offer) (selected : Selection) : Prop where
  perm : selected.group.Perm offers
  sorted : selected.group.Pairwise fun i j =>
    i.parameters.difficulty.toNat ≤ j.parameters.difficulty.toNat
  threshold : ∃ o, selected.group[writeQuorum - 1]? = some o ∧
    o.parameters.difficulty = selected.threshold

theorem groupSelection_ordered {writeQuorum : Nat} {groups : GoMap Int64 (List Offer)}
    {epoch : Int64} (hpos : 0 < writeQuorum)
    (henough : writeQuorum ≤ (groups.getD epoch []).length) :
    Ordered writeQuorum (groups.getD epoch []) (groupSelection writeQuorum groups epoch) := by
  have hbound : writeQuorum - 1 < (groupSelection writeQuorum groups epoch).group.length := by
    rw [length_groupSelection]
    omega
  have hmid := getElem?_eq_getElem hbound
  refine ⟨mergeSort_perm _ _, ?_, _, hmid, ?_⟩
  · exact (pairwise_mergeSort offerLE_trans offerLE_total _).imp fun h => offerLE_difficulty h
  · change _ = ((groupSelection writeQuorum groups epoch).group[writeQuorum - 1]?.map
      (·.parameters.difficulty)).getD 0
    rw [hmid]
    rfl

/-- The work is enough for a difficulty exactly if fewer than the write quorum undercut it. -/
theorem Ordered.le_threshold_iff {writeQuorum : Nat} {offers : List Offer} {selected : Selection}
    (h : Ordered writeQuorum offers selected) (hpos : 0 < writeQuorum) (d : UInt8) :
    d ≤ selected.threshold ↔
      offers.countP (fun o => o.parameters.difficulty < d) < writeQuorum := by
  obtain ⟨o, ho, hdifficulty⟩ := h.threshold
  have hcount : offers.countP (fun o => o.parameters.difficulty < d) =
      selected.group.countP fun o => o.parameters.difficulty.toNat < d.toNat := by
    rw [h.perm.countP_eq]
    simp only [UInt8.lt_iff_toNat_lt]
  rw [← hdifficulty, UInt8.le_iff_toNat_le,
    le_key_iff_countP (fun o : Offer => o.parameters.difficulty.toNat) _ h.sorted ho, hcount]
  omega

/-- A group that is larger than every other one is chosen. -/
theorem chooseNodes_largest {core : Core c} {env : StoreEnv} {item : StoredItem} {epoch : Int64}
    (henough : core.writeQuorum ≤ ((core.offers env).filter (admitted item epoch)).length)
    (hlargest : ∀ e, e ≠ epoch → ((core.offers env).filter (admitted item e)).length <
      ((core.offers env).filter (admitted item epoch)).length) :
    ∃ answers selected, core.chooseNodes env item = (answers, some selected) ∧
      selected.epochSeconds = epoch ∧
      Ordered core.writeQuorum ((core.offers env).filter (admitted item epoch)) selected := by
  have hpos := core.quorum_pos
  have harrival := env.parameterArrival_perm (core.allowedNodes env.allowedAt)
  obtain ⟨answers, hanswers⟩ : ∃ answers, answers =
      (env.parameterArrival (core.allowedNodes env.allowedAt)).foldl (takeParameters env item)
        ⟨core.reputation, ∅, ∅⟩ := ⟨_, rfl⟩
  have hgroup : ∀ e, (answers.groups.getD e []).Perm
      ((core.offers env).filter (admitted item e)) := by
    intro e
    rw [hanswers, foldl_takeParameters_group]
    exact (harrival.filterMap _).filter _
  have henough' : core.writeQuorum ≤ (answers.groups.getD epoch []).length :=
    henough.trans (hgroup epoch).length_eq.ge
  have hmem : epoch ∈ env.epochOrder answers.groups.keys := by
    rw [env.mem_epochOrder]
    by_contra hnot
    rw [GoMap.getD, Finmap.lookup_eq_none.mpr hnot, Option.getD_none, length_nil] at henough'
    omega
  have hchosen := foldl_chooseGroup_largest henough' (fun e he => by
    rw [(hgroup e).length_eq, (hgroup epoch).length_eq]
    exact hlargest e he) (env.epochOrder answers.groups.keys) none
    (by rintro s ⟨⟩) (.inl hmem)
  obtain ⟨hperm, hsorted, hthreshold⟩ := groupSelection_ordered hpos henough'
  refine ⟨answers, groupSelection core.writeQuorum answers.groups epoch, ?_, rfl,
    hperm.trans (hgroup epoch), hsorted, hthreshold⟩
  unfold Core.chooseNodes
  rw [← hanswers]
  dsimp only
  rw [hchosen]

/-! ## A minority -/

/-- Nodes that answer with valid parameters, share an epoch and take the item. -/
def Agreeing (core : Core c) (env : StoreEnv) (item : StoredItem) (epoch : Int64)
    (agreeing : List HTTPNode) : Prop :=
  agreeing.Nodup ∧ ∀ n ∈ agreeing, ∃ o ∈ core.offers env, o.node = n ∧ admitted item epoch o = true

end Veilmesh.Client

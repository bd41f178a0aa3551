/-
  What a fetch returns, whatever the order of the nodes (`Fetch` of `client/core.go`).

  The loop over the answers keeps the first item of each identifier and stops at the combined
  limits. Copies of an item may differ in what is not committed to, so which copy is kept
  depends on the order of the nodes; without collisions of SHA-256 the identifiers and the sizes
  do not.

  * `gather_outcome`: a call counts as a success if some answer counts as a whole.
  * `gather_iff`: the limits are met in the loop iff all that is offered meets them.
  * `fetch_isOk_iff`: when a call succeeds.
-/
import Veilmesh.Client.Tolerance
import Veilmesh.Client.Fetch

namespace Veilmesh.Client

open Lib Protocol Pqcrypto List GoMap Except

/-! ## Answers that count as a whole -/

theorem wanted_iff {requested : List Bytes} {now : Time} {item : StoredItem} :
    wanted requested now item = true ↔ item.routeTag ∈ requested ∧
      validateItem item now defaultMaxItemBytes = .ok () := by
  rw [wanted, Bool.and_eq_true, contains_iff_mem]
  refine and_congr_right fun _ => ?_
  split
  · rename_i hvalid
    simp [hvalid]
  · rename_i hnot
    exact iff_of_false Bool.false_ne_true hnot

/-- A node answered with a list whose items are all valid and asked for. -/
def Complete (env : FetchEnv) (requested : List Bytes) (node : HTTPNode) : Prop :=
  ∃ items, HTTPNode.fetch env.texts (env.fetched node) = .ok items ∧
    items.length ≤ defaultMaxFetchItems ∧
    ∀ j item, items[j]? = some item → wanted requested (env.checkedAt node j) item = true

section

variable {env : FetchEnv} {requested : List Bytes}

theorem takeItem_valid {now : Time} {found found' : Found} {item : StoredItem}
    (h : takeItem requested now found item = .ok found') :
    found'.valid = true ↔ found.valid = true ∧ wanted requested now item = true := by
  unfold takeItem at h
  split at h
  · rename_i hw
    obtain rfl := ok.inj h
    simp [hw]
  · rename_i hw
    rw [Bool.not_eq_false] at hw
    have hkeep : found'.valid = found.valid := by
      split at h
      · exact ok.inj h ▸ rfl
      · split at h
        · cases h
        · split at h
          · cases h
          · exact ok.inj h ▸ rfl
    rw [hkeep, hw]
    exact (and_iff_left rfl).symm

theorem takeItems_valid {clock : Nat → Time} {items : List StoredItem} :
    ∀ {i : Nat} {found found' : Found}, takeItems requested clock i items found = .ok found' →
      (found'.valid = true ↔ found.valid = true ∧
        ∀ j item, items[j]? = some item → wanted requested (clock (i + j)) item = true) := by
  induction items with
  | nil =>
    intro i found found' h
    obtain rfl := ok.inj h
    simp
  | cons item items ih =>
    intro i found found' h
    unfold takeItems at h
    split at h
    · cases h
    · rename_i mid hmid
      rw [ih h, takeItem_valid hmid, and_assoc]
      refine and_congr_right fun _ => ?_
      constructor
      · rintro ⟨hfirst, hrest⟩ j other hj
        cases j with
        | zero => exact Option.some.inj hj ▸ hfirst
        | succ j =>
          have hlater := hrest j other hj
          rwa [Nat.add_assoc, Nat.add_comm 1] at hlater
      · intro hall
        refine ⟨hall 0 item rfl, fun j other hj => ?_⟩
        have hlater := hall (j + 1) other hj
        rwa [Nat.add_assoc, Nat.add_comm 1]

/-- An answer that counts as a whole is a success; any other one is an error. -/
theorem takeAnswer_outcome {acc acc' : Gathered} {node : HTTPNode}
    (h : takeAnswer env requested acc node = .ok acc') :
    (Complete env requested node ∧ acc'.successful = true ∧ acc'.lastErr = acc.lastErr) ∨
      (¬ Complete env requested node ∧ acc'.successful = acc.successful ∧
        acc'.lastErr.isSome = true) := by
  unfold takeAnswer at h
  split at h
  · rename_i e hfetch
    obtain rfl := ok.inj h
    refine .inr ⟨?_, rfl, rfl⟩
    rintro ⟨items, hitems, -⟩
    rw [hfetch] at hitems
    cases hitems
  · rename_i items hfetch
    have honly : ∀ items', HTTPNode.fetch env.texts (env.fetched node) = .ok items' →
        items' = items := by
      intro items' hitems'
      rw [hfetch] at hitems'
      exact (ok.inj hitems').symm
    split at h
    · rename_i hmany
      obtain rfl := ok.inj h
      refine .inr ⟨?_, rfl, rfl⟩
      rintro ⟨items', hitems', hfew, -⟩
      rw [honly items' hitems'] at hfew
      omega
    · rename_i hmany
      split at h
      · cases h
      · rename_i found hfound
        have hvalid := takeItems_valid hfound
        simp only [Nat.zero_add, true_and] at hvalid
        dsimp only at h
        split at h
        · rename_i hcounts
          obtain rfl := ok.inj h
          exact .inl ⟨⟨items, hfetch, not_lt.mp hmany, hvalid.mp hcounts⟩, rfl, rfl⟩
        · rename_i hcounts
          obtain rfl := ok.inj h
          refine .inr ⟨?_, rfl, rfl⟩
          rintro ⟨items', hitems', -, hall⟩
          rw [honly items' hitems'] at hall
          exact hcounts (hvalid.mpr hall)

/-- The two flags after the loop over the nodes. -/
theorem gather_outcome {nodes : List HTTPNode} : ∀ {acc acc' : Gathered},
    gather env requested nodes acc = (none, acc') →
    (acc'.successful = true ↔ acc.successful = true ∨
      ∃ node ∈ nodes, Complete env requested node) ∧
    (acc'.lastErr.isSome = true ↔ acc.lastErr.isSome = true ∨
      ∃ node ∈ nodes, ¬ Complete env requested node) := by
  induction nodes with
  | nil =>
    intro acc acc' h
    obtain rfl := (Prod.mk.inj h).2
    simp
  | cons node nodes ih =>
    intro acc acc' h
    unfold gather at h
    split at h
    · cases (Prod.mk.inj h).1
    · rename_i mid hmid
      obtain ⟨hsuccess, herr⟩ := ih h
      rw [hsuccess, herr]
      simp only [exists_mem_cons_iff, ← or_assoc]
      rcases takeAnswer_outcome hmid with ⟨hc, hs, he⟩ | ⟨hc, hs, he⟩
      · rw [hs, he]
        simp [hc]
      · rw [hs, he]
        simp [hc]

/-- What makes a call succeed: some answer counts as a whole, or nobody was asked. -/
theorem gather_answered {nodes : List HTTPNode} {reputation : Reputation} {acc : Gathered}
    (h : gather env requested nodes ⟨reputation, ∅, 0, none, false⟩ = (none, acc)) :
    (acc.successful = true ∨ acc.lastErr.isSome = false) ↔
      (∃ node ∈ nodes, Complete env requested node) ∨ nodes = [] := by
  obtain ⟨hsuccess, herr⟩ := gather_outcome h
  rw [← Bool.not_eq_true acc.lastErr.isSome, hsuccess, herr]
  simp only [Bool.false_eq_true, false_or, Option.isSome_none, not_exists, not_and, not_not]
  constructor
  · rintro (hsome | hall)
    · exact .inl hsome
    · cases nodes with
      | nil => exact .inr rfl
      | cons node nodes => exact .inl ⟨node, mem_cons_self, hall node mem_cons_self⟩
  · rintro (hsome | rfl)
    · exact .inl hsome
    · exact .inr fun node hnode => absurd hnode not_mem_nil

end

/-! ## The combined limits -/

/-- The identifiers of some items, and the bytes of the first item of each. -/
def itemIDs (items : List StoredItem) : Finset Bytes := (items.map (·.itemID)).toFinset

def payloadBytes (items : List StoredItem) : Int :=
  ∑ id ∈ itemIDs items, ((firstOf items id).map fun item => (item.payload.length : Int)).getD 0

/-- What a fetch may return in all. -/
def WithinLimits (items : List StoredItem) : Prop :=
  (itemIDs items).card ≤ defaultMaxFetchItems ∧ payloadBytes items ≤ defaultMaxFetchBytes

variable {items : List StoredItem}

theorem mem_itemIDs {id : Bytes} : id ∈ itemIDs items ↔ ∃ item ∈ items, item.itemID = id := by
  rw [itemIDs, mem_toFinset, mem_map]

theorem firstOf_none {id : Bytes} : firstOf items id = none ↔ id ∉ itemIDs items := by
  rw [mem_itemIDs, firstOf, List.find?_eq_none]
  simp

/-- What is kept meets the limits at every moment. -/
structure Limited (seen : GoMap Bytes StoredItem) (totalBytes : Nat) : Prop where
  total : (totalBytes : Int) = seen.sum fun item => (item.payload.length : Int)
  count : seen.size ≤ defaultMaxFetchItems
  bytes : totalBytes ≤ defaultMaxFetchBytes

section

variable {env : FetchEnv} {requested : List Bytes}

theorem Limited.takeItem {now : Time} {found found' : Found} {item : StoredItem}
    (hl : Limited found.seen found.totalBytes)
    (h : takeItem requested now found item = .ok found') : Limited found'.seen found'.totalBytes := by
  unfold Client.takeItem at h
  split at h
  · exact ok.inj h ▸ hl
  · split at h
    · exact ok.inj h ▸ hl
    · rename_i hnone
      rw [Option.not_isSome_iff_eq_none] at hnone
      split at h
      · cases h
      · rename_i hcount
        split at h
        · cases h
        · rename_i hbytes
          obtain rfl := ok.inj h
          refine ⟨?_, ?_, not_lt.mp hbytes⟩
          · rw [sum_insert_new _ _ hnone, ← hl.total]
            exact_mod_cast rfl
          · rw [size_insert_new _ hnone]
            omega

theorem Limited.takeItems {clock : Nat → Time} {items : List StoredItem} :
    ∀ {i : Nat} {found found' : Found}, Limited found.seen found.totalBytes →
      takeItems requested clock i items found = .ok found' →
      Limited found'.seen found'.totalBytes := by
  induction items with
  | nil => exact fun hl h => ok.inj h ▸ hl
  | cons item items ih =>
    intro i found found' hl h
    unfold Client.takeItems at h
    split at h
    · cases h
    · rename_i mid hmid
      exact ih (hl.takeItem hmid) h

theorem Limited.takeAnswer {acc acc' : Gathered} {node : HTTPNode}
    (hl : Limited acc.seen acc.totalBytes) (h : takeAnswer env requested acc node = .ok acc') :
    Limited acc'.seen acc'.totalBytes := by
  unfold Client.takeAnswer at h
  split at h
  · exact ok.inj h ▸ hl
  · split at h
    · exact ok.inj h ▸ hl
    · split at h
      · cases h
      · rename_i found hfound
        have hlimited : Limited found.seen found.totalBytes :=
          @Limited.takeItems _ _ _ _ ⟨acc.seen, acc.totalBytes, true⟩ _ hl hfound
        dsimp only at h
        split at h
        · exact ok.inj h ▸ hlimited
        · exact ok.inj h ▸ hlimited

theorem Limited.gather {nodes : List HTTPNode} : ∀ {acc acc' : Gathered},
    Limited acc.seen acc.totalBytes → gather env requested nodes acc = (none, acc') →
    Limited acc'.seen acc'.totalBytes := by
  induction nodes with
  | nil => exact fun hl h => (Prod.mk.inj h).2 ▸ hl
  | cons node nodes ih =>
    intro acc acc' hl h
    unfold Client.gather at h
    split at h
    · cases (Prod.mk.inj h).1
    · rename_i mid hmid
      exact ih (hl.takeAnswer hmid) h

/-- Items with one identifier have payloads of one size. -/
def SameSizes (items : List StoredItem) : Prop :=
  ∀ i ∈ items, ∀ j ∈ items, i.itemID = j.itemID → i.payload.length = j.payload.length

/-- The sizes of the payloads by identifier. -/
def payloadSizes (items : List StoredItem) : GoMap Bytes Nat :=
  items.foldr (fun item sizes => sizes.insert item.itemID item.payload.length) ∅

theorem lookup_payloadSizes (items : List StoredItem) (id : Bytes) :
    (payloadSizes items).lookup id = (firstOf items id).map (·.payload.length) := by
  induction items with
  | nil => rfl
  | cons item items ih =>
    rw [firstOf_cons]
    change ((payloadSizes items).insert item.itemID item.payload.length).lookup id = _
    rw [lookup_insert_eq, ih]
    by_cases h : item.itemID = id
    · rw [if_pos h.symm, if_pos h, Option.map_some]
    · rw [if_neg (Ne.symm h), if_neg h]

theorem payloadSizes_fits {items : List StoredItem} :
    Fits (payloadSizes items) ↔ WithinLimits items := by
  have hkeys : (payloadSizes items).keys = itemIDs items := by
    ext id
    rw [← not_iff_not, ← firstOf_none, Finmap.mem_keys, ← Finmap.lookup_eq_none,
      lookup_payloadSizes, Option.map_eq_none_iff]
  have hsum : (payloadSizes items).sum Int.ofNat = payloadBytes items := by
    rw [GoMap.sum, payloadBytes, hkeys]
    refine Finset.sum_congr rfl fun id _ => ?_
    rw [lookup_payloadSizes, Option.map_map]
    rfl
  rw [Fits, WithinLimits, GoMap.size, hkeys, hsum]

/-- The loop over the nodes ends without an error iff all that is offered meets the limits. -/
theorem gather_iff {nodes : List HTTPNode} {reputation : Reputation}
    (hsizes : SameSizes (nodes.flatMap (offered env requested))) :
    (∃ acc, gather env requested nodes ⟨reputation, ∅, 0, none, false⟩ = (none, acc)) ↔
      WithinLimits (nodes.flatMap (offered env requested)) := by
  constructor
  · rintro ⟨acc, h⟩
    have hlimited := Limited.gather ⟨rfl, Nat.zero_le _, Nat.zero_le _⟩ h
    have hlookup : ∀ id, acc.seen.lookup id = firstOf (nodes.flatMap (offered env requested)) id :=
      gather_lookup h
    have hkeys : acc.seen.keys = itemIDs (nodes.flatMap (offered env requested)) := by
      ext id
      rw [← not_iff_not, ← firstOf_none, ← hlookup, Finmap.lookup_eq_none, Finmap.mem_keys]
    have htotal := hlimited.total
    simp only [GoMap.sum, hkeys, hlookup] at htotal
    rw [WithinLimits, ← hkeys, payloadBytes, ← htotal]
    exact ⟨hlimited.count, by exact_mod_cast hlimited.bytes⟩
  · intro h
    refine gather_fits (payloadSizes_fits.mpr h) ⟨rfl, fun id item hitem => ?_⟩ fun item hitem => ?_
    · cases hitem
    · obtain ⟨first, hfirst⟩ := firstOf_isSome hitem
      rw [lookup_payloadSizes, hfirst, Option.map_some]
      obtain ⟨hmem, hid⟩ := firstOf_some hfirst
      rw [hsizes first hmem item hitem hid]

end

/-! ## Calls -/

section

variable {c : Primitives} {core core' : Core c} {env : FetchEnv} {routeTags : List Bytes}

/-- A list of route tags that is sent to the nodes. -/
def ValidTags (routeTags : List Bytes) : Prop :=
  routeTags.length ≠ 0 ∧ routeTags.length ≤ maxRouteTagsPerFetch ∧ checkTags [] routeTags = none

/-- All that the nodes offer in a call. -/
def Core.offeredItems (core : Core c) (env : FetchEnv) (routeTags : List Bytes) :
    List StoredItem :=
  (core.allowedNodes env.allowedAt).flatMap (offered env routeTags)

variable {items : List StoredItem}

/-- A call in three parts: the tags, the limits, and whether anything came out of it. -/
theorem fetch_ok_iff :
    (core.fetch env routeTags).1 = .ok items ↔ ValidTags routeTags ∧
      ∃ acc, gather env routeTags (core.allowedNodes env.allowedAt)
          ⟨core.reputation, ∅, 0, none, false⟩ = (none, acc) ∧
        (acc.successful = true ∨ acc.lastErr.isSome = false) ∧
        items = env.arrange (mapItems acc.seen) := by
  unfold Core.fetch ValidTags
  split
  · rename_i hcount
    refine iff_of_false (fun h => by cases h) ?_
    rintro ⟨⟨hne, hle, -⟩, -⟩
    omega
  · rename_i hcount
    rw [not_or, not_lt] at hcount
    cases htags : checkTags [] routeTags with
    | some e =>
      refine iff_of_false (fun h => by cases h) ?_
      rintro ⟨⟨-, -, hnone⟩, -⟩
      cases hnone
    | none =>
      rw [and_iff_right ⟨hcount.1, hcount.2, rfl⟩]
      dsimp only
      rcases hgather : gather env routeTags (core.allowedNodes env.allowedAt)
        ⟨core.reputation, ∅, 0, none, false⟩ with ⟨err, acc⟩
      cases err with
      | some e => simp
      | none =>
        simp only [Prod.mk.injEq, true_and, exists_eq_left']
        split
        · rename_i hs he
          rw [hs, he]
          simp
        · rename_i hnot
          refine ⟨fun h => ⟨?_, (ok.inj h).symm⟩, fun h => congrArg _ h.2.symm⟩
          rcases hs : acc.successful with _ | _
          · cases he : acc.lastErr with
            | none => exact .inr rfl
            | some e => exact absurd he (hnot e hs)
          · exact .inl rfl

/-- When a call succeeds. -/
theorem fetch_isOk_iff (hsizes : SameSizes (core.offeredItems env routeTags)) :
    (∃ items, (core.fetch env routeTags).1 = .ok items) ↔ ValidTags routeTags ∧
      WithinLimits (core.offeredItems env routeTags) ∧
      ((∃ node ∈ core.allowedNodes env.allowedAt, Complete env routeTags node) ∨
        core.allowedNodes env.allowedAt = []) := by
  simp only [fetch_ok_iff]
  constructor
  · rintro ⟨items, htags, acc, hgather, hout, -⟩
    exact ⟨htags, (gather_iff hsizes).mp ⟨acc, hgather⟩, (gather_answered hgather).mp hout⟩
  · rintro ⟨htags, hlimits, hsome⟩
    obtain ⟨acc, hgather⟩ := (gather_iff hsizes).mpr hlimits
    exact ⟨_, htags, acc, hgather, (gather_answered hgather).mpr hsome, rfl⟩

/-- The identifiers of what a call returns are those of all that was offered, each once. -/
theorem fetch_itemIDs (h : (core.fetch env routeTags).1 = .ok items) :
    (items.map (·.itemID)).Nodup ∧ itemIDs items = itemIDs (core.offeredItems env routeTags) := by
  obtain ⟨-, acc, hgather, -, rfl⟩ := fetch_ok_iff.mp h
  have hlookup : ∀ id, acc.seen.lookup id = firstOf (core.offeredItems env routeTags) id :=
    gather_lookup hgather
  have hids : (mapItems acc.seen).map (·.itemID) = acc.seen.sortedKeys := by
    rw [mapItems, map_filterMap]
    calc acc.seen.sortedKeys.filterMap (fun id => (acc.seen.lookup id).map (·.itemID))
        = acc.seen.sortedKeys.filterMap some := by
          refine filterMap_congr fun id hid => ?_
          obtain ⟨item, hitem⟩ := mem_keys_iff.mp (mem_sortedKeys.mp hid)
          rw [hitem, Option.map_some, (firstOf_some (hlookup id ▸ hitem)).2]
      _ = acc.seen.sortedKeys := filterMap_some
  have hperm : ((env.arrange (mapItems acc.seen)).map (·.itemID)).Perm acc.seen.sortedKeys :=
    hids ▸ (env.arrange_perm _).map _
  refine ⟨hperm.nodup_iff.mpr (sortedKeys_nodup _), ?_⟩
  ext id
  rw [itemIDs, mem_toFinset, hperm.mem_iff, mem_sortedKeys, ← not_iff_not, ← firstOf_none,
    ← hlookup, Finmap.lookup_eq_none, Finmap.mem_keys]

theorem offered_shape {nodes : List HTTPNode} {item : StoredItem}
    (h : item ∈ nodes.flatMap (offered env routeTags)) : ItemShape item defaultMaxItemBytes := by
  obtain ⟨node, -, hoffered⟩ := mem_flatMap.mp h
  obtain ⟨items, -, -, j, -, hwanted⟩ := mem_offered.mp hoffered
  exact ((validateItem_ok_iff _ _ _).mp (wanted_iff.mp hwanted).2).1

/-- The limits do not depend on the order. -/
theorem withinLimits_perm {items' : List StoredItem} (hperm : items'.Perm items)
    (hsizes : SameSizes items) : WithinLimits items' ↔ WithinLimits items := by
  have hids : itemIDs items' = itemIDs items := toFinset_eq_of_perm _ _ (hperm.map _)
  have hbytes : payloadBytes items' = payloadBytes items := by
    rw [payloadBytes, payloadBytes, hids]
    refine Finset.sum_congr rfl fun id hid => ?_
    obtain ⟨item, hitem, rfl⟩ := mem_itemIDs.mp hid
    obtain ⟨first, hfirst⟩ := firstOf_isSome hitem
    obtain ⟨first', hfirst'⟩ := firstOf_isSome (hperm.mem_iff.mpr hitem)
    obtain ⟨hmem, hsame⟩ := firstOf_some hfirst
    obtain ⟨hmem', hsame'⟩ := firstOf_some hfirst'
    rw [hfirst, hfirst', Option.map_some, Option.map_some,
      hsizes first' (hperm.mem_iff.mp hmem') first hmem (hsame'.trans hsame.symm)]
  rw [WithinLimits, WithinLimits, hids, hbytes]

/-- A call returns one item for each identifier that is offered, and fails if these are too
    many or too large; neither that nor the identifiers depend on the order of the nodes. -/
theorem fetch_union (core core' : Core c) (env : FetchEnv) (routeTags : List Bytes)
    (hcommitments : Set.InjOn sha256
      (itemCommitment '' {item | item ∈ core.offeredItems env routeTags}))
    (hpayloads : Set.InjOn sha256
      (StoredItem.payload '' {item | item ∈ core.offeredItems env routeTags}))
    (hnodes : core'.nodes.Perm core.nodes) (hreputation : core'.reputation = core.reputation) :
    (¬ WithinLimits (core.offeredItems env routeTags) →
      ∃ e, (core.fetch env routeTags).1 = .error e) ∧
    (∀ items, (core.fetch env routeTags).1 = .ok items → (items.map (·.itemID)).Nodup ∧
      itemIDs items = itemIDs (core.offeredItems env routeTags) ∧
      ∀ item ∈ items, item ∈ core.offeredItems env routeTags) ∧
    ((∃ items, (core'.fetch env routeTags).1 = .ok items) ↔
      ∃ items, (core.fetch env routeTags).1 = .ok items) ∧
    ∀ items items', (core.fetch env routeTags).1 = .ok items →
      (core'.fetch env routeTags).1 = .ok items' → itemIDs items' = itemIDs items := by
  -- without collisions the identifier determines the payload
  have hsizes : SameSizes (core.offeredItems env routeTags) := by
    intro i hi j hj h
    rw [(offered_shape hi).id, (offered_shape hj).id] at h
    have hcommitment := hcommitments ⟨i, hi, rfl⟩ ⟨j, hj, rfl⟩ (hexEncode_inj h)
    obtain ⟨-, -, -, -, hhash⟩ := itemCommitment_inj (offered_shape hi) (offered_shape hj) hcommitment
    rw [hpayloads ⟨i, hi, rfl⟩ ⟨j, hj, rfl⟩ hhash]
  have hallowed : (core'.allowedNodes env.allowedAt).Perm (core.allowedNodes env.allowedAt) := by
    rw [Core.allowedNodes, Core.allowedNodes, hreputation]
    exact hnodes.filter _
  have hoffered : (core'.offeredItems env routeTags).Perm (core.offeredItems env routeTags) :=
    hallowed.flatMap_right _
  have hsizes' : SameSizes (core'.offeredItems env routeTags) := fun i hi j hj =>
    hsizes i (hoffered.mem_iff.mp hi) j (hoffered.mem_iff.mp hj)
  refine ⟨fun hlimits => ?_, fun items hitems => ?_, ?_, fun items items' hitems hitems' => ?_⟩
  · cases hresult : (core.fetch env routeTags).1 with
    | error e => exact ⟨e, rfl⟩
    | ok items => exact absurd ((fetch_isOk_iff hsizes).mp ⟨items, hresult⟩).2.1 hlimits
  · obtain ⟨hnodup, hids⟩ := fetch_itemIDs hitems
    refine ⟨hnodup, hids, fun item hitem => ?_⟩
    have hfirst := ((fetch_ok (Prod.ext hitems rfl)).1 item).mp hitem
    exact (firstOf_some hfirst).1
  · rw [fetch_isOk_iff hsizes, fetch_isOk_iff hsizes', withinLimits_perm hoffered hsizes]
    refine and_congr_right fun _ => and_congr_right fun _ => or_congr ?_ ?_
    · exact exists_congr fun n => and_congr_left fun _ => hallowed.mem_iff
    · exact ⟨fun h => List.perm_nil.mp (h ▸ hallowed.symm), fun h => List.perm_nil.mp (h ▸ hallowed)⟩
  · rw [(fetch_itemIDs hitems).2, (fetch_itemIDs hitems').2]
    exact List.toFinset_eq_of_perm _ _ (hoffered.map _)

/-- Where every node is left out nothing is fetched, and that is no error. -/
theorem fetch_nobody (htags : ValidTags routeTags) (h : core.allowedNodes env.allowedAt = []) :
    (core.fetch env routeTags).1 = .ok [] := by
  have hnone : env.arrange (mapItems ∅) = [] := by
    refine eq_nil_iff_forall_not_mem.mpr fun item hitem => ?_
    obtain ⟨id, hid⟩ := mem_mapItems.mp ((env.arrange_perm _).mem_iff.mp hitem)
    cases hid
  refine fetch_ok_iff.mpr ⟨htags, ⟨core.reputation, ∅, 0, none, false⟩, ?_, .inr rfl, hnone.symm⟩
  rw [h]
  rfl

/-- A success stands for an answer of some node, unless every node is left out: then nobody
    is asked. -/
theorem fetch_asks_iff (core : Core c) (env : FetchEnv) (routeTags : List Bytes)
    (htags : ValidTags routeTags) :
    ((∃ items, (core.fetch env routeTags).1 = .ok items) →
      ∃ node ∈ core.allowedNodes env.allowedAt, Complete env routeTags node) ↔
    core.allowedNodes env.allowedAt ≠ [] := by
  constructor
  · intro hasked hempty
    obtain ⟨node, hnode, -⟩ := hasked ⟨_, fetch_nobody htags hempty⟩
    rw [hempty] at hnode
    exact List.not_mem_nil hnode
  · rintro hsome ⟨items, hitems⟩
    obtain ⟨-, acc, hgather, hout, -⟩ := fetch_ok_iff.mp hitems
    exact ((gather_answered hgather).mp hout).resolve_right hsome

end

/-! ### Two nodes with one item -/

def sampleTag : Bytes := base64Encode base64UrlAlphabet false (List.replicate 32 0)

theorem sampleTag_valid : ValidTags [sampleTag] := ⟨by decide, by decide, by decide⟩

/-- The core of two nodes, with the nodes in the other order. -/
def swappedCore : Core samplePrimitives :=
  { pairCore with
    nodes := [otherNode, sampleNode]
    valid := fun n hn => pairCore.valid n ((List.Perm.swap _ _ []).mem_iff.mp hn)
    distinct := ((List.Perm.swap sampleNode otherNode []).map _).nodup_iff.mpr pairCore.distinct
    replicas_le := by decide }

/-- The sample item as the one item of an answer. -/
theorem sampleItem_fetched : ∃ body,
    HTTPNode.fetch sampleTexts (.answered 200 body) = .ok [sampleItem 0] := by
  obtain ⟨created, hc⟩ : ∃ text, (sampleItem 0).createdAt.marshalText = some text := ⟨_, rfl⟩
  obtain ⟨expires, he⟩ : ∃ text, (sampleItem 0).expiresAt.marshalText = some text := ⟨_, rfl⟩
  obtain ⟨hid, hroute⟩ := sampleItem_plain 0
  obtain ⟨body, hbody, hsize⟩ := marshal_atMost (@fetchResponseCodec_atMost [sampleItem 0]
    (fun _ => 600) fun item h =>
      mem_singleton.mp h ▸ sampleItem_atMost (sampleItem 0).work hc he)
  have hread : unmarshal fetchResponseCodec ⟨[]⟩ body = some ⟨[sampleItem 0]⟩ :=
    unmarshal_marshal (fetchResponseCodec_roundtrips fun item h =>
      mem_singleton.mp h ▸ storedItemCodec_roundtrips hid hroute rfl rfl) hbody
  have hshort : ¬ body.length > postJSONLimit := not_lt.mpr (hsize.trans (by decide))
  refine ⟨body, ?_⟩
  simp only [HTTPNode.fetch, Exchange.result, decodeResponseJSON, if_neg hshort, hread]
  rfl

/-- Both nodes have the sample item; it is fetched in either order. -/
theorem fetch_union_pair : ∃ env : FetchEnv,
    pairCore.offeredItems env [sampleTag] = [sampleItem 0, sampleItem 0] ∧
      ((∃ items, (swappedCore.fetch env [sampleTag]).1 = .ok items) ↔
        ∃ items, (pairCore.fetch env [sampleTag]).1 = .ok items) := by
  obtain ⟨body, hbody⟩ := sampleItem_fetched
  let env := fetchAt sampleTexts Time.epoch fun _ => .answered 200 body
  have hwanted : wanted [sampleTag] Time.epoch (sampleItem 0) = true :=
    wanted_iff.mpr ⟨List.mem_singleton.mpr rfl, sampleItem_valid le_rfl (by decide)⟩
  have hallowed : pairCore.allowedNodes env.allowedAt = [sampleNode, otherNode] :=
    List.filter_eq_self.mpr fun n _ => Reputation.allowed_new _ (show 0 ≤ Time.epoch.ns by decide)
  have hnode : ∀ node, offered env [sampleTag] node = [sampleItem 0] := by
    intro node
    simp only [offered, env, fetchAt, hbody, wantedItems, if_pos hwanted]
    rfl
  have hoffered : pairCore.offeredItems env [sampleTag] = [sampleItem 0, sampleItem 0] := by
    rw [Core.offeredItems, hallowed, List.flatMap_cons, List.flatMap_cons, List.flatMap_nil, hnode,
      hnode]
    rfl
  have hone : ∀ item ∈ pairCore.offeredItems env [sampleTag], item = sampleItem 0 := by
    rw [hoffered]
    simp
  refine ⟨env, hoffered, (fetch_union pairCore swappedCore env [sampleTag] ?_ ?_
    (List.Perm.swap _ _ []) rfl).2.2.1⟩
  · rintro _ ⟨i, hi, rfl⟩ _ ⟨j, hj, rfl⟩ -
    rw [hone i hi, hone j hj]
  · rintro _ ⟨i, hi, rfl⟩ _ ⟨j, hj, rfl⟩ -
    rw [hone i hi, hone j hj]

/-- A core whose one node failed three times in a row. -/
def failedCore : Core samplePrimitives :=
  { soloCore sampleNode (sampleIdentity_valid 1) none with
    reputation := ((newReputation.failure sampleNode.identity.nodeID none Time.epoch).failure
      sampleNode.identity.nodeID none Time.epoch).failure sampleNode.identity.nodeID none Time.epoch }

theorem failedCore_allowed : failedCore.allowedNodes Time.epoch = [] := by
  have hthree (id : Bytes) : (((newReputation.failure id none Time.epoch).failure id none
      Time.epoch).failure id none Time.epoch).allowed id Time.epoch = false := by
    have hafter : (Time.epoch.add (24 * hour)).after Time.epoch = true := by decide
    simp [Reputation.allowed, Reputation.failure, Reputation.score, newReputation, NodeScore.zero,
      GoMap.getD, hafter]
  refine filter_eq_nil_iff.mpr fun n hn => ?_
  rw [mem_singleton.mp hn, Bool.not_eq_true]
  exact hthree _

/-- After three failures of its one node a client reports an empty inbox without asking. -/
theorem fetch_asks_nobody : ValidTags [sampleTag] ∧
    (failedCore.fetch (fetchAt sampleTexts Time.epoch fun _ => .failed []) [sampleTag]).1 = .ok [] ∧
      failedCore.allowedNodes Time.epoch = [] :=
  ⟨sampleTag_valid, fetch_nobody sampleTag_valid failedCore_allowed, failedCore_allowed⟩

/-- A core that may ask a node. -/
theorem fetch_asks_pair : ValidTags [sampleTag] ∧
    ((∃ items, (pairCore.fetch (fetchAt sampleTexts Time.epoch fun _ => .failed []) [sampleTag]).1 =
        .ok items) →
      ∃ node ∈ pairCore.allowedNodes Time.epoch,
        Complete (fetchAt sampleTexts Time.epoch fun _ => .failed []) [sampleTag] node) := by
  have hallowed : pairCore.allowedNodes Time.epoch ≠ [] := by
    have hall : pairCore.allowedNodes Time.epoch = [sampleNode, otherNode] :=
      List.filter_eq_self.mpr fun n _ => Reputation.allowed_new _ (show 0 ≤ Time.epoch.ns by decide)
    rw [hall]
    exact List.cons_ne_nil _ _
  exact ⟨sampleTag_valid, (fetch_asks_iff pairCore _ [sampleTag] sampleTag_valid).mpr hallowed⟩

end Veilmesh.Client

/-
  Fetching and deleting items (`Fetch` and `DeleteItemEverywhere` of `client/core.go`).

  Every node that is allowed is asked; what it answers is taken item by item. An item counts
  if its route was asked for and it is valid; the first item of each identifier is kept. `FetchEnv` is
  what a call meets: the answers, the clock at each look at it, and in which order the items
  come out of the map and of `sort.Slice`, which is any order that goes up in creation times.

  * `gather_lookup`: what is kept is the first item of each identifier among all answers.
  * `gather_fits`: the combined limits are met if they hold for all that was offered.
  * `fetch_ok`: what a call returns.
-/
import Veilmesh.Client.Core

namespace Veilmesh.Client

open Lib Protocol Pqcrypto Option List GoMap Except

/-! ## Fetching -/

inductive FetchError where
  | tagCount
  | tag
  | duplicateTag
  | itemLimit
  | sizeLimit
  | node (e : NodeError)
  | tooMany
  | invalidItem
  deriving DecidableEq, Repr

def FetchError.text : FetchError → Bytes
  | .tagCount => lit "route tag count out of range"
  | .tag => lit "invalid route tag"
  | .duplicateTag => lit "duplicate route tag"
  | .itemLimit => lit "combined fetch result exceeds item limit"
  | .sizeLimit => lit "combined fetch result exceeds size limit"
  | .node e => e.text
  | .tooMany => lit "node returned too many fetch items"
  | .invalidItem => lit "node returned an invalid fetch item"

structure FetchEnv where
  /-- The clock when the nodes to ask are chosen. -/
  allowedAt : Time
  texts : JsonTexts
  /-- The answers, the clock when an item of an answer is looked at, and when a failure is
      reported. -/
  fetched : HTTPNode → Exchange
  checkedAt : HTTPNode → Nat → Time
  failedAt : HTTPNode → Time
  /-- The order of the result. -/
  arrange : List StoredItem → List StoredItem
  arrange_perm : ∀ items, (arrange items).Perm items
  arrange_sorted : ∀ items, (arrange items).Pairwise fun i j => j.createdAt.before i.createdAt = false

def checkTags (seen : List Bytes) : List Bytes → Option FetchError
  | [] => none
  | routeTag :: routeTags =>
    if validRouteTag routeTag = false then some .tag
    else if routeTag ∈ seen then some .duplicateTag
    else checkTags (routeTag :: seen) routeTags

/-- Whether an item counts. -/
def wanted (requested : List Bytes) (now : Time) (item : StoredItem) : Bool :=
  requested.contains item.routeTag && (validateItem item now defaultMaxItemBytes matches .ok ())

/-- What was taken from the answers so far, and whether all of the current one counts. -/
structure Found where
  seen : GoMap Bytes StoredItem
  totalBytes : Nat
  valid : Bool

def takeItem (requested : List Bytes) (now : Time) (found : Found) (item : StoredItem) :
    Except FetchError Found :=
  if wanted requested now item = false then .ok { found with valid := false }
  else if (found.seen.lookup item.itemID).isSome then .ok found
  else if found.seen.size ≥ defaultMaxFetchItems then .error .itemLimit
  else if found.totalBytes + item.payload.length > defaultMaxFetchBytes then .error .sizeLimit
  else .ok { found with
    seen := found.seen.insert item.itemID item
    totalBytes := found.totalBytes + item.payload.length }

/-- The loop over the items of an answer; `i` items were taken before. -/
def takeItems (requested : List Bytes) (clock : Nat → Time) :
    Nat → List StoredItem → Found → Except FetchError Found
  | _, [], found => .ok found
  | i, item :: items, found =>
    match takeItem requested (clock i) found item with
    | .error e => .error e
    | .ok found => takeItems requested clock (i + 1) items found

/-- What the answers amount to so far. -/
structure Gathered where
  reputation : Reputation
  seen : GoMap Bytes StoredItem
  totalBytes : Nat
  lastErr : Option FetchError
  successful : Bool

/-- A node failed. -/
def Gathered.fail (acc : Gathered) (env : FetchEnv) (node : HTTPNode) (e : FetchError) : Gathered :=
  { acc with
    reputation := acc.reputation.failure node.identity.nodeID (some e.text) (env.failedAt node)
    lastErr := some e }

def takeAnswer (env : FetchEnv) (requested : List Bytes) (acc : Gathered) (node : HTTPNode) :
    Except FetchError Gathered :=
  match HTTPNode.fetch env.texts (env.fetched node) with
  | .error e => .ok (acc.fail env node (.node e))
  | .ok items =>
    if items.length > defaultMaxFetchItems then .ok (acc.fail env node .tooMany)
    else
      match takeItems requested (env.checkedAt node) 0 items ⟨acc.seen, acc.totalBytes, true⟩ with
      | .error e => .error e
      | .ok found =>
        let acc := { acc with seen := found.seen, totalBytes := found.totalBytes }
        if found.valid then .ok { acc with successful := true }
        else .ok (acc.fail env node .invalidItem)

/-- The loop over the nodes; an error ends it at once. -/
def gather (env : FetchEnv) (requested : List Bytes) :
    List HTTPNode → Gathered → Option FetchError × Gathered
  | [], acc => (none, acc)
  | node :: nodes, acc =>
    match takeAnswer env requested acc node with
    | .error e => (some e, acc)
    | .ok acc => gather env requested nodes acc

/-- The items of a map, in some order. -/
def mapItems (seen : GoMap Bytes StoredItem) : List StoredItem :=
  seen.sortedKeys.filterMap seen.lookup

def Core.fetch {c : Primitives} (core : Core c) (env : FetchEnv) (routeTags : List Bytes) :
    Except FetchError (List StoredItem) × Core c :=
  if routeTags.length = 0 ∨ routeTags.length > maxRouteTagsPerFetch then (.error .tagCount, core)
  else
    match checkTags [] routeTags with
    | some e => (.error e, core)
    | none =>
      match gather env routeTags (core.allowedNodes env.allowedAt)
        ⟨core.reputation, ∅, 0, none, false⟩ with
      | (some e, acc) => (.error e, { core with reputation := acc.reputation })
      | (none, acc) =>
        let core := { core with reputation := acc.reputation }
        match acc.successful, acc.lastErr with
        | false, some e => (.error e, core)
        | _, _ => (.ok (env.arrange (mapItems acc.seen)), core)

/-! ## Deleting -/

/-- What a round of delete requests meets: the answers, and the two looks at the clock when
    each is there. -/
structure DeleteEnv where
  texts : JsonTexts
  deleted : HTTPNode → Exchange
  deletedAt : HTTPNode → Time
  deletedAt' : HTTPNode → Time

/-- The items of an answer that count; `i` items came before. -/
def wantedItems (requested : List Bytes) (clock : Nat → Time) : Nat → List StoredItem → List StoredItem
  | _, [] => []
  | i, item :: items =>
    if wanted requested (clock i) item = true then item :: wantedItems requested clock (i + 1) items
    else wantedItems requested clock (i + 1) items

/-- The items of a node that count. -/
def offered (env : FetchEnv) (requested : List Bytes) (node : HTTPNode) : List StoredItem :=
  match HTTPNode.fetch env.texts (env.fetched node) with
  | .error _ => []
  | .ok items =>
    if items.length > defaultMaxFetchItems then []
    else wantedItems requested (env.checkedAt node) 0 items

/-- The first item with an identifier. -/
def firstOf (items : List StoredItem) (id : Bytes) : Option StoredItem :=
  items.find? fun item => item.itemID == id

variable {items : List StoredItem} {item : StoredItem}

theorem firstOf_some {id : Bytes} (h : firstOf items id = some item) :
    item ∈ items ∧ item.itemID = id := by
  have hid := find?_some (p := fun i : StoredItem => i.itemID == id) h
  exact ⟨mem_of_find?_eq_some h, beq_iff_eq.mp hid⟩

theorem firstOf_isSome (h : item ∈ items) : ∃ first, firstOf items item.itemID = some first := by
  cases hf : firstOf items item.itemID with
  | some first => exact ⟨first, rfl⟩
  | none => exact absurd BEq.rfl (find?_eq_none.mp hf item h)

theorem firstOf_append (items items' : List StoredItem) (id : Bytes) :
    firstOf (items ++ items') id = (firstOf items id).or (firstOf items' id) :=
  find?_append

theorem firstOf_cons (item : StoredItem) (items : List StoredItem) (id : Bytes) :
    firstOf (item :: items) id = if item.itemID = id then some item else firstOf items id := by
  unfold firstOf
  rw [find?_cons]
  split <;> simp_all

section

variable {requested : List Bytes} {env : FetchEnv} {item : StoredItem} {node : HTTPNode}

/-- An item that counts is kept if it is the first with its identifier. -/
theorem takeItem_lookup {now : Time} {found found' : Found}
    (h : takeItem requested now found item = .ok found') (id : Bytes) :
    found'.seen.lookup id = (found.seen.lookup id).or
      (if wanted requested now item = true ∧ item.itemID = id then some item else none) := by
  unfold takeItem at h
  split at h
  · rename_i hw
    obtain rfl := ok.inj h
    rw [if_neg (fun hc => by rw [hw] at hc; cases hc.1), or_none]
  · rename_i hw
    rw [Bool.not_eq_false] at hw
    split at h
    · rename_i hsome
      obtain rfl := ok.inj h
      obtain ⟨first, hfirst⟩ := isSome_iff_exists.mp hsome
      split
      · rename_i hid
        rw [← hid.2, hfirst, some_or]
      · rw [or_none]
    · rename_i hnone
      rw [not_isSome_iff_eq_none] at hnone
      split at h
      · cases h
      · split at h
        · cases h
        · obtain rfl := ok.inj h
          change (found.seen.insert item.itemID item).lookup id = _
          rw [lookup_insert_eq]
          split
          · rename_i heq
            rw [heq, hnone, none_or, if_pos ⟨hw, rfl⟩]
          · rename_i hne
            rw [if_neg (fun hc => hne hc.2.symm), or_none]

variable {clock : Nat → Time}

theorem takeItems_lookup {items : List StoredItem} :
    ∀ {i : Nat} {found found' : Found}, takeItems requested clock i items found = .ok found' →
      ∀ id, found'.seen.lookup id =
        (found.seen.lookup id).or (firstOf (wantedItems requested clock i items) id) := by
  induction items with
  | nil =>
    intro i found found' h id
    obtain rfl := ok.inj h
    exact (or_none).symm
  | cons item items ih =>
    intro i found found' h id
    unfold takeItems at h
    split at h
    · cases h
    · rename_i mid hmid
      rw [ih h id, takeItem_lookup hmid id, Option.or_assoc, wantedItems]
      by_cases hw : wanted requested (clock i) item = true
      · rw [if_pos hw, firstOf_cons]
        by_cases hid : item.itemID = id
        · rw [if_pos ⟨hw, hid⟩, if_pos hid, some_or]
        · rw [if_neg fun hc => hid hc.2, if_neg hid, none_or]
      · rw [if_neg hw, if_neg fun hc => hw hc.1, none_or]

theorem takeAnswer_lookup {acc acc' : Gathered} (h : takeAnswer env requested acc node = .ok acc')
    (id : Bytes) :
    acc'.seen.lookup id = (acc.seen.lookup id).or (firstOf (offered env requested node) id) := by
  unfold takeAnswer at h
  unfold offered
  split at h
  · obtain rfl := ok.inj h
    exact (or_none).symm
  · split at h
    · rename_i hmany
      obtain rfl := ok.inj h
      rw [if_pos hmany]
      exact (or_none).symm
    · rename_i hmany
      rw [if_neg hmany]
      split at h
      · cases h
      · rename_i found hfound
        have hlookup := takeItems_lookup hfound id
        dsimp only at h
        split at h
        · exact ok.inj h ▸ hlookup
        · exact ok.inj h ▸ hlookup

/-- What is kept in the end: the first item of each identifier among the answers. -/
theorem gather_lookup {nodes : List HTTPNode} : ∀ {acc acc' : Gathered},
    gather env requested nodes acc = (none, acc') → ∀ id, acc'.seen.lookup id =
      (acc.seen.lookup id).or (firstOf (nodes.flatMap (offered env requested)) id) := by
  induction nodes with
  | nil =>
    intro acc acc' h id
    obtain rfl := (Prod.mk.inj h).2
    exact (or_none).symm
  | cons node nodes ih =>
    intro acc acc' h id
    unfold gather at h
    split at h
    · cases (Prod.mk.inj h).1
    · rename_i mid hmid
      rw [ih h id, takeAnswer_lookup hmid id, Option.or_assoc, flatMap_cons, firstOf_append]

theorem mem_wantedItems {items : List StoredItem} :
    ∀ {i : Nat}, item ∈ wantedItems requested clock i items ↔
      ∃ j, items[j]? = some item ∧ wanted requested (clock (i + j)) item = true := by
  induction items with
  | nil =>
    intro i
    simp [wantedItems]
  | cons first items ih =>
    intro i
    have hcons : (∃ j, (first :: items)[j]? = some item ∧
        wanted requested (clock (i + j)) item = true) ↔
        (first = item ∧ wanted requested (clock i) item = true) ∨
          ∃ j, items[j]? = some item ∧ wanted requested (clock (i + 1 + j)) item = true := by
      constructor
      · rintro ⟨j, hj, hw⟩
        cases j with
        | zero => exact .inl ⟨Option.some.inj hj, hw⟩
        | succ j => exact .inr ⟨j, hj, by rwa [Nat.add_assoc, Nat.add_comm 1]⟩
      · rintro (⟨rfl, hw⟩ | ⟨j, hj, hw⟩)
        · exact ⟨0, rfl, hw⟩
        · exact ⟨j + 1, hj, by rwa [Nat.add_assoc, Nat.add_comm 1] at hw⟩
    rw [hcons, wantedItems]
    by_cases hw : wanted requested (clock i) first = true
    · rw [if_pos hw, mem_cons, ih]
      refine or_congr_left ⟨?_, fun h => h.1.symm⟩
      rintro rfl
      exact ⟨rfl, hw⟩
    · rw [if_neg hw, ih]
      refine (or_iff_right ?_).symm
      rintro ⟨rfl, h⟩
      exact hw h

/-- An item that is offered stands in the answer of its node, and counts. -/
theorem mem_offered :
    item ∈ offered env requested node ↔ ∃ items,
      HTTPNode.fetch env.texts (env.fetched node) = .ok items ∧
        items.length ≤ defaultMaxFetchItems ∧
        ∃ j, items[j]? = some item ∧ wanted requested (env.checkedAt node j) item = true := by
  unfold offered
  split
  · rename_i e hfetch
    refine iff_of_false not_mem_nil ?_
    rintro ⟨items, h, -⟩
    rw [hfetch] at h
    cases h
  · rename_i items hfetch
    have hsame : (∃ items', HTTPNode.fetch env.texts (env.fetched node) = .ok items' ∧
        items'.length ≤ defaultMaxFetchItems ∧ ∃ j, items'[j]? = some item ∧
          wanted requested (env.checkedAt node j) item = true) ↔
        items.length ≤ defaultMaxFetchItems ∧ ∃ j, items[j]? = some item ∧
          wanted requested (env.checkedAt node j) item = true := by
      simp [hfetch]
    rw [hsame]
    split
    · rename_i hmany
      exact iff_of_false not_mem_nil fun h => absurd hmany (not_lt.mpr h.1)
    · rename_i hmany
      rw [mem_wantedItems]
      simp only [Nat.zero_add]
      exact ⟨fun h => ⟨not_lt.mp hmany, h⟩, fun h => h.2⟩

/-! ### The combined limits -/

/-- How many items of how many bytes may be offered in all. -/
def Fits (sizes : GoMap Bytes Nat) : Prop :=
  sizes.size ≤ defaultMaxFetchItems ∧ sizes.sum Int.ofNat ≤ defaultMaxFetchBytes

/-- What is kept is counted, and known to `sizes`. -/
structure Counted (sizes : GoMap Bytes Nat) (seen : GoMap Bytes StoredItem) (totalBytes : Nat) :
    Prop where
  total : (totalBytes : Int) = seen.sum fun item => item.payload.length
  known : ∀ id item, seen.lookup id = some item → sizes.lookup id = some item.payload.length

variable {sizes : GoMap Bytes Nat}

theorem Counted.bounded {seen : GoMap Bytes StoredItem} {totalBytes : Nat}
    (h : Counted sizes seen totalBytes) (hfits : Fits sizes) :
    seen.size ≤ defaultMaxFetchItems ∧ totalBytes ≤ defaultMaxFetchBytes := by
  have hsize : seen.size ≤ sizes.size :=
    size_le_of_lookup fun id item hitem => ⟨_, h.known id item hitem⟩
  have hsum : (seen.sum fun item => item.payload.length) ≤ sizes.sum Int.ofNat :=
    sum_mono (fun _ _ _ => Int.natCast_nonneg _) fun id item hitem =>
      ⟨_, h.known id item hitem, le_rfl⟩
  have htotal : (totalBytes : Int) ≤ defaultMaxFetchBytes := h.total ▸ hsum.trans hfits.2
  exact ⟨hsize.trans hfits.1, by exact_mod_cast htotal⟩

/-- A known item is always taken. -/
theorem Counted.takeItem {now : Time} {found : Found} {item : StoredItem} (hfits : Fits sizes)
    (h : Counted sizes found.seen found.totalBytes)
    (hknown : wanted requested now item = true → sizes.lookup item.itemID = some item.payload.length) :
    ∃ found', takeItem requested now found item = .ok found' ∧
      Counted sizes found'.seen found'.totalBytes := by
  unfold Client.takeItem
  split
  · exact ⟨_, rfl, h⟩
  · rename_i hw
    rw [Bool.not_eq_false] at hw
    split
    · exact ⟨_, rfl, h⟩
    · rename_i hnone
      rw [not_isSome_iff_eq_none] at hnone
      have hinsert : Counted sizes (found.seen.insert item.itemID item)
          (found.totalBytes + item.payload.length) := by
        refine ⟨?_, fun id other hother => ?_⟩
        · rw [sum_insert_new _ _ hnone, ← h.total]
          exact_mod_cast rfl
        · rw [lookup_insert_eq] at hother
          split at hother
          · rename_i heq
            rw [heq, ← Option.some.inj hother]
            exact hknown hw
          · exact h.known id other hother
      obtain ⟨hsize, hbytes⟩ := hinsert.bounded hfits
      rw [size_insert_new _ hnone] at hsize
      rw [if_neg (by omega), if_neg (by omega)]
      exact ⟨_, rfl, hinsert⟩

theorem Counted.takeItems (hfits : Fits sizes) {items : List StoredItem} :
    ∀ {i : Nat} {found : Found}, Counted sizes found.seen found.totalBytes →
      (∀ item ∈ wantedItems requested clock i items,
        sizes.lookup item.itemID = some item.payload.length) →
      ∃ found', takeItems requested clock i items found = .ok found' ∧
        Counted sizes found'.seen found'.totalBytes := by
  induction items with
  | nil => exact fun h _ => ⟨_, rfl, h⟩
  | cons item items ih =>
    intro i found h hknown
    rw [wantedItems] at hknown
    obtain ⟨mid, hmid, hcounted⟩ := @Counted.takeItem requested _ (clock i) _ item hfits h
      fun hw => hknown item (by rw [if_pos hw]; exact mem_cons_self)
    rw [Client.takeItems, hmid]
    refine ih hcounted fun other hother => hknown other ?_
    split
    · exact mem_cons_of_mem _ hother
    · exact hother

theorem Counted.takeAnswer (hfits : Fits sizes) {acc : Gathered}
    (h : Counted sizes acc.seen acc.totalBytes) (hknown : ∀ item ∈ offered env requested node,
      sizes.lookup item.itemID = some item.payload.length) :
    ∃ acc', takeAnswer env requested acc node = .ok acc' ∧
      Counted sizes acc'.seen acc'.totalBytes := by
  unfold offered at hknown
  unfold Client.takeAnswer
  split
  · exact ⟨_, rfl, h⟩
  · rename_i items hfetch
    rw [hfetch] at hknown
    dsimp only at hknown
    split
    · exact ⟨_, rfl, h⟩
    · rename_i hmany
      rw [if_neg hmany] at hknown
      obtain ⟨found, hfound, hcounted⟩ := @Counted.takeItems _ _ _ hfits _ _
        ⟨acc.seen, acc.totalBytes, true⟩ h hknown
      rw [hfound]
      dsimp only
      split
      · exact ⟨_, rfl, hcounted⟩
      · exact ⟨_, rfl, hcounted⟩

/-- The loop over the nodes ends without an error if all that is offered fits. -/
theorem gather_fits (hfits : Fits sizes) {nodes : List HTTPNode} : ∀ {acc : Gathered},
    Counted sizes acc.seen acc.totalBytes →
    (∀ item ∈ nodes.flatMap (offered env requested),
      sizes.lookup item.itemID = some item.payload.length) →
    ∃ acc', gather env requested nodes acc = (none, acc') := by
  induction nodes with
  | nil => exact fun _ _ => ⟨_, rfl⟩
  | cons node nodes ih =>
    intro acc h hknown
    rw [flatMap_cons] at hknown
    obtain ⟨mid, hmid, hcounted⟩ := h.takeAnswer hfits fun item hitem =>
      hknown item (mem_append_left _ hitem)
    rw [gather, hmid]
    exact ih hcounted fun item hitem => hknown item (mem_append_right _ hitem)

end

/-! ## What a call returns -/

theorem mem_mapItems {seen : GoMap Bytes StoredItem} :
    item ∈ mapItems seen ↔ ∃ id, seen.lookup id = some item := by
  unfold mapItems
  rw [mem_filterMap]
  constructor
  · rintro ⟨id, -, h⟩
    exact ⟨id, h⟩
  · rintro ⟨id, h⟩
    exact ⟨id, mem_sortedKeys.mpr (mem_keys_of_lookup h), h⟩

/-- What is returned: the first item of each identifier that was offered, in an order of
    creation. -/
theorem fetch_ok {c : Primitives} {core core' : Core c} {env : FetchEnv} {routeTags : List Bytes}
    (h : core.fetch env routeTags = (.ok items, core')) :
    (∀ item, item ∈ items ↔ firstOf ((core.allowedNodes env.allowedAt).flatMap
      (offered env routeTags)) item.itemID = some item) ∧
    items.Pairwise fun i j => i.createdAt.ns ≤ j.createdAt.ns := by
  unfold Core.fetch at h
  split at h
  · cases (Prod.mk.inj h).1
  · split at h
    · cases (Prod.mk.inj h).1
    · split at h
      · cases (Prod.mk.inj h).1
      · rename_i acc hgather
        dsimp only at h
        have hlookup := gather_lookup hgather
        have hitems : items = env.arrange (mapItems acc.seen) := by
          split at h
          · cases (Prod.mk.inj h).1
          · exact (ok.inj (Prod.mk.inj h).1).symm
        subst hitems
        refine ⟨fun item => ?_, (env.arrange_sorted _).imp fun {i j} hij => ?_⟩
        · rw [(env.arrange_perm _).mem_iff, mem_mapItems]
          constructor
          · rintro ⟨id, hid⟩
            rw [hlookup] at hid
            have hfirst : firstOf ((core.allowedNodes env.allowedAt).flatMap
                (offered env routeTags)) id = some item := hid
            rwa [(firstOf_some hfirst).2]
          · intro hfirst
            exact ⟨item.itemID, by rw [hlookup]; exact hfirst⟩
        · rw [← Bool.not_eq_true, Time.before_iff] at hij
          exact not_lt.mp hij

/-! ## One order of creation -/

/-- A result that is sorted in the usual way. -/
def byCreation (items : List StoredItem) : List StoredItem :=
  items.mergeSort fun i j => decide (i.createdAt.ns ≤ j.createdAt.ns)

theorem byCreation_sorted (items : List StoredItem) :
    (byCreation items).Pairwise fun i j => j.createdAt.before i.createdAt = false := by
  have hsorted := @pairwise_mergeSort _
    (fun i j : StoredItem => decide (i.createdAt.ns ≤ j.createdAt.ns))
    (fun i j k hij hjk => decide_eq_true ((of_decide_eq_true hij).trans (of_decide_eq_true hjk)))
    (fun i j => by simpa using le_total i.createdAt.ns j.createdAt.ns) items
  refine hsorted.imp fun {i j} hij => ?_
  rw [← Bool.not_eq_true, Time.before_iff, not_lt]
  exact of_decide_eq_true hij

/-- A fetch at one time, with the given answers. -/
def fetchAt (texts : JsonTexts) (now : Time) (fetched : HTTPNode → Exchange) : FetchEnv where
  allowedAt := now
  texts := texts
  fetched := fetched
  checkedAt _ _ := now
  failedAt _ := now
  arrange := byCreation
  arrange_perm items := List.mergeSort_perm items _
  arrange_sorted := byCreation_sorted

end Veilmesh.Client

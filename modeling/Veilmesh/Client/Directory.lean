/-
  The bootstrap of a client from the pinned seeds (`client/directory.go`).

  `FetchNodeDirectory` asks all seeds at once and merges their snapshots into one registry in
  the order in which the answers come. A snapshot that does not merge counts as a failure.

  * `reconcile_absorb`: the loop over the answers is the all-or-nothing merge of the views.
  * `directory_order_free_iff`: with every minimum of seed views the outcome is independent of
    the order of the answers exactly when the snapshots agree on the lease of every common
    node and their nodes fit together.
-/
import Veilmesh.Nodedir.Agent
import Veilmesh.Nodedir.Reconcile

namespace Veilmesh.Client

open Lib Pqcrypto Nodedir List
open Time (epoch)

/-! ## The bootstrap -/

structure DirectoryBootstrap where
  seeds : List PinnedNode
  authorityQuorum : Int
  minSeedResponses : Int
  allowPrivateIPs : Bool
  maxNodes : Int

/-- Why the view of one seed does not count. -/
inductive SeedFailure where
  | fetch (e : FetchError)
  | merge (e : DirectoryError)
  deriving DecidableEq, Repr

inductive BootstrapError where
  | policy (e : DirectoryError)
  | minimum
  | views (successes : Nat) (required : Int) (failures : List (Bytes × SeedFailure))
  deriving DecidableEq, Repr

/-- The registry, the merged views and the failures so far. -/
structure Reconciled where
  registry : Registry
  successes : Nat
  failures : List (Bytes × SeedFailure)

/-- One answer of the loop over the results. -/
def reconcileSeed (c : Primitives) (policy : Policy) (answers : PinnedNode → Except Bytes Snapshot)
    (now : Time) (state : Reconciled) (seed : PinnedNode) : Reconciled :=
  match fetchSnapshot c (answers seed) seed.identity now policy.maxNodes with
  | .error e => { state with failures := state.failures ++ [(seed.identity.nodeID, .fetch e)] }
  | .ok snapshot =>
    match state.registry.mergeSnapshot c snapshot seed.identity.nodeID now with
    | (.error e, registry) =>
      ⟨registry, state.successes, state.failures ++ [(seed.identity.nodeID, .merge e)]⟩
    | (.ok (), registry) => ⟨registry, state.successes + 1, state.failures⟩

/-- `FetchNodeDirectory`, with the answer of each seed, the order in which the answers arrive
    and the order in which `Active` visits a registry as arguments. -/
def fetchNodeDirectory (c : Primitives) (config : DirectoryBootstrap)
    (answers : PinnedNode → Except Bytes Snapshot) (now : Time) (arrival : List PinnedNode)
    (visit : Registry → List Bytes) : Except BootstrapError (List Record) :=
  match newPolicy c config.seeds config.authorityQuorum config.allowPrivateIPs config.maxNodes with
  | .error e => .error (.policy e)
  | .ok policy =>
    if config.minSeedResponses ≤ 0 ∨ config.minSeedResponses > config.seeds.length then
      .error .minimum
    else
      match newRegistry c policy with
      | .error e => .error (.policy e)
      | .ok registry =>
        let state := arrival.foldl (reconcileSeed c policy answers now) ⟨registry, 0, []⟩
        if (state.successes : Int) < config.minSeedResponses then
          .error (.views state.successes config.minSeedResponses state.failures)
        else .ok (state.registry.active now (visit state.registry))

/-! ## Outcomes -/

/-- The node IDs with their announcement hashes. -/
def listing (records : List Record) : Finset (Bytes × Bytes) :=
  (records.map fun r => (r.node, announcementHash r.announcement)).toFinset

/-- Both fail, or both succeed with the same nodes and announcement hashes. -/
inductive SameOutcome :
    Except BootstrapError (List Record) → Except BootstrapError (List Record) → Prop where
  | failure (e e' : BootstrapError) : SameOutcome (.error e) (.error e')
  | success (a b : List Record) (h : listing a = listing b) : SameOutcome (.ok a) (.ok b)

/-- A possible way to visit registries. -/
def Visits (visit : Registry → List Bytes) : Prop :=
  ∀ registry : Registry, registry.IsOrder (visit registry)

/-- The answered snapshots pass their header check and all their records verify. -/
def VerifiedViews (c : Primitives) (policy : Policy) (config : DirectoryBootstrap)
    (answers : PinnedNode → Except Bytes Snapshot) (now : Time) : Prop :=
  ∀ seed ∈ config.seeds, ∀ snapshot, answers seed = .ok snapshot →
    verifySnapshotHeader c snapshot seed.identity.nodeID now policy.maxNodes = .ok () ∧
    ∀ r ∈ snapshot.records, verifyRecord c policy r now = .ok ()

/-- A record in the answer of one of the seeds. -/
def Answered (config : DirectoryBootstrap) (answers : PinnedNode → Except Bytes Snapshot)
    (r : Record) : Prop :=
  ∃ seed ∈ config.seeds, ∃ snapshot, answers seed = .ok snapshot ∧ r ∈ snapshot.records

/-- The leases a seed answered with. -/
def seedView (answers : PinnedNode → Except Bytes Snapshot) (seed : PinnedNode) :
    Option (View Bytes (UInt64 × Bytes)) :=
  match answers seed with
  | .error _ => none
  | .ok snapshot => some (listedLeases snapshot.records)

/-! ## The loop merges views -/

section

variable {c : Primitives} {policy : Policy} {config : DirectoryBootstrap}
  {answers : PinnedNode → Except Bytes Snapshot} {now : Time}

/-- What holds at every turn of the loop. -/
structure Reconciling (c : Primitives) (policy : Policy) (config : DirectoryBootstrap)
    (answers : PinnedNode → Except Bytes Snapshot) (state : Reconciled) : Prop where
  samePolicy : state.registry.policy = policy
  size : (state.registry.records.size : Int) ≤ policy.maxNodes
  stored : FromVerified c policy {r | Answered config answers r} state.registry.records

/-- The merged leases and their number. -/
def Reconciled.merged (state : Reconciled) : View Bytes (UInt64 × Bytes) × Nat :=
  (leases state.registry.records, state.successes)

theorem limits_maxNodes (h : policy.Limits) :
    0 < policy.maxNodes ∧ policy.maxNodes ≤ maxDirectoryNodes := by
  simp only [Policy.Limits, not_or, not_lt, not_le] at h
  exact ⟨h.2.2.2.2.1, h.2.2.2.2.2⟩

variable {state : Reconciled}

/-- One answer merges one view. -/
theorem reconcileSeed_merged (hlimits : policy.Limits)
    (hvalid : ∀ seed ∈ config.seeds, validPublicIdentity c seed.identity = true)
    (hviews : VerifiedViews c policy config answers now)
    (h : Reconciling c policy config answers state) {seed : PinnedNode}
    (hseed : seed ∈ config.seeds) :
    Reconciling c policy config answers (reconcileSeed c policy answers now state seed) ∧
    (reconcileSeed c policy answers now state seed).merged =
      (seedView answers seed).elim state.merged
        (View.absorb leaseRank (capacity policy.maxNodes) state.merged) := by
  have hmax := limits_maxNodes hlimits
  cases hanswer : answers seed with
  | error reason =>
    have hfetch : fetchSnapshot c (answers seed) seed.identity now policy.maxNodes =
        .error (.transport reason) := by
      simp only [fetchSnapshot, hvalid seed hseed, hanswer, Bool.true_eq_false, if_false]
    have hstate : reconcileSeed c policy answers now state seed =
        { state with failures := state.failures ++
          [(seed.identity.nodeID, .fetch (.transport reason))] } := by
      rw [reconcileSeed, hfetch]
    rw [hstate, seedView, hanswer]
    exact ⟨⟨h.samePolicy, h.size, h.stored⟩, rfl⟩
  | ok snapshot =>
    obtain ⟨hheader, hrecords⟩ := hviews seed hseed snapshot hanswer
    have hfetch : fetchSnapshot c (answers seed) seed.identity now policy.maxNodes = .ok snapshot := by
      simp only [fetchSnapshot, hvalid seed hseed, hanswer, hheader, Bool.true_eq_false, if_false]
    have hpresented : ∀ r ∈ snapshot.records, r ∈ {r | Answered config answers r} :=
      fun r hr => ⟨seed, hseed, snapshot, hanswer, hr⟩
    have hstep : Nodedir.Step c state.registry (.mergeSnapshot snapshot seed.identity.nodeID now)
        (state.registry.mergeSnapshot c snapshot seed.identity.nodeID now).2 := rfl
    obtain ⟨hsame, hevents⟩ := hstep.events hpresented
    have hstored := events_invariant (fun _ _ he => he.fromVerified) hevents
      (by rw [h.samePolicy]; exact h.stored)
    have hmerge := @mergeRecords_absorb policy.maxNodes state.registry.records snapshot.records
      hmax.1.le h.size (nodup_of_uniquelySorted (verifySnapshotHeader_ok hmax.1 hmax.2 hheader).2)
    rw [seedView, hanswer]
    rw [h.samePolicy] at hsame hstored
    -- a snapshot that passed its checks is merged as its view, or neither is
    cases hm : mergeRecords policy.maxNodes state.registry.records snapshot.records with
    | error e =>
      rw [hm] at hmerge
      have hstate : reconcileSeed c policy answers now state seed = ⟨state.registry, state.successes,
          state.failures ++ [(seed.identity.nodeID, .merge e)]⟩ := by
        simp only [reconcileSeed, hfetch, Registry.mergeSnapshot, h.samePolicy, hheader,
          verifyRecords_iff.mpr hrecords, hm]
      rw [hstate]
      exact ⟨⟨h.samePolicy, h.size, h.stored⟩, (View.absorb_refused hmerge).symm⟩
    | ok updated =>
      rw [hm] at hmerge
      have hresult : state.registry.mergeSnapshot c snapshot seed.identity.nodeID now =
          (.ok (), { state.registry with records := updated }) := by
        simp only [Registry.mergeSnapshot, h.samePolicy, hheader, verifyRecords_iff.mpr hrecords, hm]
      have hstate : reconcileSeed c policy answers now state seed =
          ⟨{ state.registry with records := updated }, state.successes + 1, state.failures⟩ := by
        simp only [reconcileSeed, hfetch, hresult]
      have habsorb : View.absorb leaseRank (capacity policy.maxNodes) state.merged
          (listedLeases snapshot.records) = (leases updated, state.successes + 1) :=
        (View.absorb_fits hmerge.1).trans (by rw [hmerge.2]; rfl)
      have hkeys : (leases updated).keys.encard ≤ capacity policy.maxNodes := by
        have hkeep := @View.absorb_keys _ _ leaseRank (capacity policy.maxNodes) state.merged
          ((encard_leases_le hmax.1.le).mpr h.size) (listedLeases snapshot.records)
        rwa [habsorb] at hkeep
      rw [hresult] at hsame hstored
      rw [hstate]
      exact ⟨⟨hsame, (encard_leases_le hmax.1.le).mp hkeys, hstored⟩, habsorb.symm⟩

/-- The loop over the answers is the merge of the views in the order of arrival. -/
theorem reconcile_absorb (hlimits : policy.Limits)
    (hvalid : ∀ seed ∈ config.seeds, validPublicIdentity c seed.identity = true)
    (hviews : VerifiedViews c policy config answers now) {arrival : List PinnedNode}
    (harrival : arrival ⊆ config.seeds) (h : Reconciling c policy config answers state) :
    Reconciling c policy config answers (arrival.foldl (reconcileSeed c policy answers now) state) ∧
    (arrival.foldl (reconcileSeed c policy answers now) state).merged =
      View.absorbAll leaseRank (capacity policy.maxNodes) (seedView answers) state.merged arrival := by
  induction arrival generalizing state with
  | nil => exact ⟨h, rfl⟩
  | cons seed arrival ih =>
    obtain ⟨hnext, hmerged⟩ := reconcileSeed_merged hlimits hvalid hviews h
      (harrival mem_cons_self)
    obtain ⟨hlast, hrest⟩ := ih (fun s hs => harrival (mem_cons_of_mem _ hs)) hnext
    refine ⟨hlast, ?_⟩
    rw [foldl_cons, hrest, hmerged]
    rfl

/-- What a client is handed are the merged leases. -/
theorem mem_listing (hviews : VerifiedViews c policy config answers now)
    (h : Reconciling c policy config answers state) {order : List Bytes}
    (horder : state.registry.IsOrder order) {id hash : Bytes} :
    (id, hash) ∈ listing (state.registry.active now order) ↔
      ∃ sequence, leases state.registry.records id = some (sequence, hash) := by
  rw [listing, mem_toFinset, mem_map]
  constructor
  · rintro ⟨r, hr, heq⟩
    obtain ⟨rfl, rfl⟩ := Prod.mk.inj heq
    obtain ⟨⟨id, hl⟩, -⟩ := (Registry.mem_active horder).mp hr
    obtain rfl : r.node = id := (h.stored id r hl).1
    exact ⟨r.announcement.sequence, by rw [leases, hl]; rfl⟩
  · rintro ⟨sequence, hlease⟩
    obtain ⟨r, hl, heq⟩ := Option.map_eq_some_iff.mp hlease
    obtain ⟨-, rfl⟩ := Prod.mk.inj heq
    obtain ⟨rfl, p, ⟨seed, hseed, snapshot, hanswer, hp⟩, hann, -⟩ := h.stored id r hl
    have hlive := (verifyRecord_iff.mp ((hviews seed hseed snapshot hanswer).2 p hp)).2.live
    rw [hann] at hlive
    exact ⟨r, (Registry.mem_active horder).mpr ⟨⟨_, hl⟩, hlive⟩, rfl⟩

end

/-! ## The order of the answers -/

section

variable {c : Primitives} {policy : Policy} {config : DirectoryBootstrap}
  {answers : PinnedNode → Except Bytes Snapshot} {now : Time}

/-- The state after all answers. -/
def reconciled (c : Primitives) (policy : Policy) (answers : PinnedNode → Except Bytes Snapshot)
    (now : Time) (arrival : List PinnedNode) : Reconciled :=
  arrival.foldl (reconcileSeed c policy answers now) ⟨⟨policy, ∅⟩, 0, []⟩

/-- What a client is told after all answers. -/
def conclude (minimum : Int) (now : Time) (visit : Registry → List Bytes) (state : Reconciled) :
    Except BootstrapError (List Record) :=
  if (state.successes : Int) < minimum then
    .error (.views state.successes minimum state.failures)
  else .ok (state.registry.active now (visit state.registry))

/-- The views of the seeds merged in the order of arrival. -/
noncomputable def mergedViews (policy : Policy) (answers : PinnedNode → Except Bytes Snapshot)
    (arrival : List PinnedNode) : View Bytes (UInt64 × Bytes) × Nat :=
  View.absorbAll leaseRank (capacity policy.maxNodes) (seedView answers) (View.empty, 0) arrival

/-- With every minimum the outcome is the same for every order of the answers. -/
def OrderFree (c : Primitives) (config : DirectoryBootstrap)
    (answers : PinnedNode → Except Bytes Snapshot) (now : Time) : Prop :=
  ∀ (minimum : Int) (arrival arrival' : List PinnedNode) (visit visit' : Registry → List Bytes),
    arrival.Perm config.seeds → arrival'.Perm config.seeds → Visits visit → Visits visit' →
    SameOutcome
      (fetchNodeDirectory c { config with minSeedResponses := minimum } answers now arrival visit)
      (fetchNodeDirectory c { config with minSeedResponses := minimum } answers now arrival' visit')

variable (hpolicy : newPolicy c config.seeds config.authorityQuorum config.allowPrivateIPs
  config.maxNodes = .ok policy)

include hpolicy

theorem fetchNodeDirectory_eq (minimum : Int) (arrival : List PinnedNode)
    (visit : Registry → List Bytes) :
    fetchNodeDirectory c { config with minSeedResponses := minimum } answers now arrival visit =
      if minimum ≤ 0 ∨ minimum > config.seeds.length then .error .minimum
      else conclude minimum now visit (reconciled c policy answers now arrival) := by
  simp only [fetchNodeDirectory, hpolicy, newRegistry_ok hpolicy]
  rfl

variable {arrival : List PinnedNode} {seed : PinnedNode}
  (hviews : VerifiedViews c policy config answers now)

include hviews

/-- The state after all answers merges the views of the seeds. -/
theorem reconciled_merged (harrival : arrival.Perm config.seeds) :
    Reconciling c policy config answers (reconciled c policy answers now arrival) ∧
    (reconciled c policy answers now arrival).merged = mergedViews policy answers arrival := by
  have hvalid : ∀ seed ∈ config.seeds, validPublicIdentity c seed.identity = true := by
    obtain ⟨limit, rfl, -⟩ := newPolicy_spec hpolicy
    exact (newPolicy_seeds hpolicy).1
  refine reconcile_absorb (newPolicy_within hpolicy) hvalid hviews harrival.subset ?_
  exact ⟨rfl, (newPolicy_limits hpolicy).1.le, fun id r hl => by cases hl⟩

theorem reconciled_successes (harrival : arrival.Perm config.seeds) :
    (reconciled c policy answers now arrival).successes = (mergedViews policy answers arrival).2 :=
  congrArg Prod.snd (reconciled_merged hpolicy hviews harrival).2

/-- The merged views determine the outcome. -/
theorem orderFree_of_merged (h : ∀ arrival, arrival.Perm config.seeds →
      mergedViews policy answers arrival = mergedViews policy answers config.seeds) :
    OrderFree c config answers now := by
  intro minimum arrival arrival' visit visit' harrival harrival' hvisit hvisit'
  obtain ⟨hstate, hmerged⟩ := reconciled_merged hpolicy hviews harrival
  obtain ⟨hstate', hmerged'⟩ := reconciled_merged hpolicy hviews harrival'
  obtain ⟨hleases, hcount⟩ := Prod.mk.inj (hmerged.trans ((h _ harrival).trans
    ((h _ harrival').symm.trans hmerged'.symm)))
  rw [fetchNodeDirectory_eq hpolicy, fetchNodeDirectory_eq hpolicy, conclude, conclude, hcount]
  split
  · exact .failure _ _
  split
  · exact .failure _ _
  · refine .success _ _ ?_
    ext ⟨id, hash⟩
    rw [mem_listing hviews hstate (hvisit _), mem_listing hviews hstate' (hvisit' _), hleases]

omit hpolicy in
/-- Without collisions equal listings hold equal leases. -/
theorem leases_of_listing (hfree : Set.InjOn sha256 {b | ∃ r, Answered config answers r ∧
      b = announcementPreimage r.announcement})
    {visit : Registry → List Bytes} (hvisit : Visits visit) {a b : Reconciled}
    (ha : Reconciling c policy config answers a) (hb : Reconciling c policy config answers b)
    (h : listing (a.registry.active now (visit a.registry)) =
      listing (b.registry.active now (visit b.registry)))
    {id : Bytes} {x : UInt64 × Bytes} (hx : leases a.registry.records id = some x) :
    leases b.registry.records id = some x := by
  have hverified : ∀ p, Answered config answers p → verifyRecord c policy p now = .ok () := by
    rintro p ⟨seed, hseed, snapshot, hanswer, hmem⟩
    exact (hviews seed hseed snapshot hanswer).2 p hmem
  obtain ⟨sequence', hy⟩ := (mem_listing hviews hb (hvisit _)).mp
    (h ▸ (mem_listing hviews ha (hvisit _)).mpr ⟨x.1, hx⟩)
  obtain ⟨r, hr, rfl⟩ := Option.map_eq_some_iff.mp hx
  obtain ⟨s, hs, hsx⟩ := Option.map_eq_some_iff.mp hy
  obtain ⟨-, p, hp, hpr, -⟩ := ha.stored id r hr
  obtain ⟨-, q, hq, hqs, -⟩ := hb.stored id s hs
  have hhash : announcementHash p.announcement = announcementHash q.announcement := by
    rw [hpr, hqs]
    exact (Prod.mk.inj hsx).2.symm
  have hsequence := sequence_of_preimage (verifyRecord_iff.mp (hverified p hp)).1.lease
    (verifyRecord_iff.mp (hverified q hq)).1.lease (hfree ⟨p, hp, rfl⟩ ⟨q, hq, rfl⟩ hhash)
  rw [hpr, hqs] at hhash hsequence
  rw [leases, hs, Option.map_some, Record.lease, Record.lease, hhash, hsequence]

omit hpolicy hviews in
theorem mergedViews_count_le (arrival : List PinnedNode) :
    (mergedViews policy answers arrival).2 ≤ arrival.length := by
  have hcount := @View.absorbAll_count_le _ _ leaseRank (capacity policy.maxNodes) _
    (seedView answers) (View.empty, 0) arrival
  simpa [mergedViews] using hcount

omit hviews in
/-- What `OrderFree` says of the states after all answers. -/
theorem conclude_of_orderFree (h : OrderFree c config answers now)
    {visit : Registry → List Bytes} (hvisit : Visits visit) (harrival : arrival.Perm config.seeds)
    {minimum : Int} (hpos : 0 < minimum) (hle : minimum ≤ config.seeds.length) :
    SameOutcome (conclude minimum now visit (reconciled c policy answers now arrival))
      (conclude minimum now visit (reconciled c policy answers now config.seeds)) := by
  have hsame := h minimum arrival config.seeds visit visit harrival (.refl _) hvisit hvisit
  have hrange : ¬(minimum ≤ 0 ∨ minimum > config.seeds.length) := by omega
  rwa [fetchNodeDirectory_eq hpolicy, fetchNodeDirectory_eq hpolicy, if_neg hrange,
    if_neg hrange] at hsame

/-- Without collisions the outcomes determine the merged views. -/
theorem merged_of_orderFree (hfree : Set.InjOn sha256 {b | ∃ r, Answered config answers r ∧
      b = announcementPreimage r.announcement}) (h : OrderFree c config answers now)
    {visit : Registry → List Bytes} (hvisit : Visits visit) (harrival : arrival.Perm config.seeds) :
    mergedViews policy answers arrival = mergedViews policy answers config.seeds := by
  obtain ⟨hstate, hmerged⟩ := reconciled_merged hpolicy hviews harrival
  obtain ⟨hstate', hmerged'⟩ := reconciled_merged hpolicy hviews (List.Perm.refl config.seeds)
  have hbound := @mergedViews_count_le policy answers arrival
  have hbound' := @mergedViews_count_le policy answers config.seeds
  rw [← hmerged, harrival.length_eq] at hbound
  rw [← hmerged'] at hbound'
  have houtcome := @conclude_of_orderFree _ _ _ _ _ hpolicy _ h visit hvisit harrival
  generalize reconciled c policy answers now arrival = state at *
  generalize reconciled c policy answers now config.seeds = state' at *
  -- a different count shows at the larger one as the minimum
  have hcounts : state.successes = state'.successes := by
    change state.successes ≤ _ at hbound
    change state'.successes ≤ _ at hbound'
    by_contra hne
    rcases Nat.lt_or_gt_of_ne hne with hlt | hlt
    · have hsame := @houtcome state'.successes (by omega) (by omega)
      rw [conclude, conclude, if_pos (by omega), if_neg (by omega)] at hsame
      cases hsame
    · have hsame := @houtcome state.successes (by omega) (by omega)
      rw [conclude, conclude, if_neg (by omega), if_pos (by omega)] at hsame
      cases hsame
  rcases Nat.eq_zero_or_pos state.successes with hzero | hpos
  · have hempty : ∀ is, (mergedViews policy answers is).2 = 0 →
        mergedViews policy answers is = (View.empty, 0) :=
      fun is his => View.absorbAll_of_count_eq his
    have hzero' : state'.merged.2 = 0 := hcounts.symm.trans hzero
    rw [hempty arrival (by rw [← hmerged]; exact hzero),
      hempty config.seeds (by rw [← hmerged', hzero'])]
  · have hsame := @houtcome state.successes (by omega) (Int.ofNat_le.mpr hbound)
    rw [conclude, conclude, if_neg (by omega), if_neg (by omega)] at hsame
    obtain ⟨-, -, hsame⟩ | ⟨-, -, hsame⟩ := hsame
    have hleases : leases state.registry.records = leases state'.registry.records := by
      funext id
      exact Option.ext fun x =>
        ⟨leases_of_listing hviews hfree hvisit hstate hstate' hsame,
          leases_of_listing hviews hfree hvisit hstate' hstate (Eq.symm hsame)⟩
    rw [← hmerged, ← hmerged', Reconciled.merged, Reconciled.merged, hleases, hcounts]

omit hpolicy hviews

/-- A way to visit registries: in the order of the identifiers. -/
def visitSorted (registry : Registry) : List Bytes := registry.records.sortedKeys

theorem visits_sorted : Visits visitSorted := fun _ =>
  ⟨GoMap.sortedKeys_nodup _, fun _ => GoMap.mem_sortedKeys⟩

theorem seedView_ok {snapshot : Snapshot} (h : answers seed = .ok snapshot) :
    seedView answers seed = some (listedLeases snapshot.records) := by
  rw [seedView, h]

theorem seedView_eq_some {X : View Bytes (UInt64 × Bytes)} (h : seedView answers seed = some X) :
    ∃ snapshot, answers seed = .ok snapshot ∧ X = listedLeases snapshot.records := by
  unfold seedView at h
  split at h
  · cases h
  · exact ⟨_, by assumption, (Option.some.inj h).symm⟩

theorem VerifiedViews.header (hlimits : policy.Limits)
    (hviews : VerifiedViews c policy config answers now) (hseed : seed ∈ config.seeds)
    {snapshot : Snapshot} (hanswer : answers seed = .ok snapshot) :
    (snapshot.records.length : Int) ≤ policy.maxNodes ∧
      (snapshot.records.map Record.node).Nodup := by
  obtain ⟨hpos, hmax⟩ := limits_maxNodes hlimits
  obtain ⟨hlength, hsorted⟩ := verifySnapshotHeader_ok hpos hmax (hviews seed hseed snapshot hanswer).1
  exact ⟨hlength, nodup_of_uniquelySorted hsorted⟩

/-- Every single view fits. -/
theorem VerifiedViews.fits (hlimits : policy.Limits)
    (hviews : VerifiedViews c policy config answers now) (hseed : seed ∈ config.seeds)
    {X : View Bytes (UInt64 × Bytes)} (hX : seedView answers seed = some X) :
    X.keys.encard ≤ capacity policy.maxNodes := by
  obtain ⟨snapshot, hanswer, rfl⟩ := seedView_eq_some hX
  have hsub : (listedLeases snapshot.records).keys ⊆
      ↑(snapshot.records.map Record.node).toFinset := by
    intro id hid
    obtain ⟨r, hr, hnode⟩ := mem_keys_listedLeases.mp hid
    exact mem_toFinset.mpr (mem_map.mpr ⟨r, hr, hnode⟩)
  refine (Set.encard_le_encard hsub).trans ?_
  rw [Set.encard_coe_eq_coe_finsetCard, capacity, Nat.cast_le]
  have hcard := toFinset_card_le (snapshot.records.map Record.node)
  have hlength := (hviews.header hlimits hseed hanswer).1
  rw [length_map] at hcard
  omega

/-- The views agree when the answered records do. -/
theorem agreeing_iff (hlimits : policy.Limits)
    (hviews : VerifiedViews c policy config answers now) :
    View.Agreeing (seedView answers) config.seeds ↔
      ∀ r s, Answered config answers r → Answered config answers s → r.node = s.node →
        r.announcement.sequence = s.announcement.sequence ∧
        announcementHash r.announcement = announcementHash s.announcement := by
  have hview : ∀ {seed snapshot}, seed ∈ config.seeds → answers seed = .ok snapshot → ∀ {id x},
      listedLeases snapshot.records id = some x ↔
        ∃ r ∈ snapshot.records, r.node = id ∧ r.lease = x :=
    fun hseed hanswer => listedLeases_eq (hviews.header hlimits hseed hanswer).2
  constructor
  · rintro h r s ⟨i, hi, X, hX, hr⟩ ⟨j, hj, Y, hY, hs⟩ hnode
    have hlease : r.lease = s.lease :=
      h i hi j hj _ _ (seedView_ok hX) (seedView_ok hY) s.node _ _
        ((hview hi hX).mpr ⟨r, hr, hnode, rfl⟩) ((hview hj hY).mpr ⟨s, hs, rfl, rfl⟩)
    exact Prod.mk.inj hlease
  · intro h i hi j hj X Y hX hY id x y hx hy
    obtain ⟨S, hS, rfl⟩ := seedView_eq_some hX
    obtain ⟨T, hT, rfl⟩ := seedView_eq_some hY
    obtain ⟨r, hr, rfl, rfl⟩ := (hview hi hS).mp hx
    obtain ⟨s, hs, hnode, rfl⟩ := (hview hj hT).mp hy
    obtain ⟨hsequence, hhash⟩ := h r s ⟨i, hi, S, hS, hr⟩ ⟨j, hj, T, hT, hs⟩ hnode.symm
    rw [Record.lease, Record.lease, hsequence, hhash]

theorem allKeys_seedView : View.allKeys (seedView answers) config.seeds =
    {id | ∃ r, Answered config answers r ∧ r.node = id} := by
  ext id
  constructor
  · rintro ⟨i, hi, X, hX, hid⟩
    obtain ⟨S, hS, rfl⟩ := seedView_eq_some hX
    obtain ⟨r, hr, hnode⟩ := mem_keys_listedLeases.mp hid
    exact ⟨r, ⟨i, hi, S, hS, hr⟩, hnode⟩
  · rintro ⟨r, ⟨i, hi, S, hS, hr⟩, hnode⟩
    exact ⟨i, hi, _, seedView_ok hS, mem_keys_listedLeases.mpr ⟨r, hr, hnode⟩⟩

/-- For snapshots that pass their checks the outcome is the same for every order in which the
    seeds answer, whatever the required minimum, exactly when all snapshots give every common
    node the same sequence and announcement hash and hold no more than `MaxNodes` nodes
    together. -/
theorem directory_order_free_iff
    (hpolicy : newPolicy c config.seeds config.authorityQuorum config.allowPrivateIPs
      config.maxNodes = .ok policy)
    (hviews : VerifiedViews c policy config answers now)
    (hfree : Set.InjOn sha256 {b | ∃ r, Answered config answers r ∧
      b = announcementPreimage r.announcement}) :
    OrderFree c config answers now ↔
      (∀ r s, Answered config answers r → Answered config answers s → r.node = s.node →
        r.announcement.sequence = s.announcement.sequence ∧
        announcementHash r.announcement = announcementHash s.announcement) ∧
      {id | ∃ r, Answered config answers r ∧ r.node = id}.encard ≤ capacity policy.maxNodes := by
  have hlimits := newPolicy_within hpolicy
  have hmerge : OrderFree c config answers now ↔ ∀ arrival, arrival.Perm config.seeds →
      mergedViews policy answers arrival = mergedViews policy answers config.seeds :=
    ⟨fun h arrival harrival => merged_of_orderFree hpolicy hviews hfree h visits_sorted harrival,
      fun h => orderFree_of_merged hpolicy hviews h⟩
  rw [hmerge, ← agreeing_iff hlimits hviews, ← allKeys_seedView]
  exact View.absorbAll_orderFree_iff fun seed hseed X hX => hviews.fits hlimits hseed hX

end

/-! ## Two seeds -/

section

theorem keys_single (r : Record) : (listedLeases [r]).keys = {r.node} := by
  ext id
  rw [mem_keys_listedLeases, Set.mem_singleton_iff]
  simp [eq_comm]

/-- Two views of one node: the older lease merges first or not at all. -/
theorem mergedViews_older {policy : Policy} {answers : PinnedNode → Except Bytes Snapshot}
    {i j : PinnedNode} {r s : Record} (hi : seedView answers i = some (listedLeases [r]))
    (hj : seedView answers j = some (listedLeases [s])) (hnode : r.node = s.node)
    (hsequence : r.announcement.sequence < s.announcement.sequence) (hmax : 0 < policy.maxNodes) :
    (mergedViews policy answers [i, j]).2 = 2 ∧ (mergedViews policy answers [j, i]).2 = 1 := by
  have hroom : ∀ r : Record, (listedLeases [r]).keys.encard ≤ capacity policy.maxNodes := by
    intro r
    rw [keys_single, Set.encard_singleton, capacity, Nat.one_le_cast]
    omega
  have hlease : ∀ {r : Record} {id x}, listedLeases [r] id = some x ↔ r.node = id ∧ r.lease = x := by
    intro r id x
    rw [listedLeases_eq (by simp)]
    simp
  have hfirst : ∀ r : Record,
      View.absorb leaseRank (capacity policy.maxNodes) (View.empty, 0) (listedLeases [r]) =
        ((listedLeases [r]).overlay View.empty, 1) :=
    fun r => View.absorb_fits (View.fits_empty (hroom r))
  have hover : ∀ r : Record, (listedLeases [r]).overlay View.empty = listedLeases [r] := by
    intro r
    funext id
    exact Option.or_none
  constructor
  · have hfits : View.Fits leaseRank (capacity policy.maxNodes) (listedLeases [r])
        (listedLeases [s]) := by
      refine ⟨fun id x y hx hy => ?_, ?_⟩
      · obtain ⟨-, rfl⟩ := hlease.mp hx
        obtain ⟨-, rfl⟩ := hlease.mp hy
        exact below_iff.mpr (.inl hsequence)
      · rw [keys_single r, hnode, ← keys_single s, Set.union_self]
        exact hroom s
    rw [mergedViews, View.absorbAll_cons_some hi, View.absorbAll_cons_some hj, hfirst, hover,
      View.absorb_fits hfits]
    rfl
  · have hrefused : ¬View.Fits leaseRank (capacity policy.maxNodes) (listedLeases [s])
        (listedLeases [r]) := by
      intro hfits
      rcases below_iff.mp (hfits.1 s.node s.lease r.lease (hlease.mpr ⟨rfl, rfl⟩)
        (hlease.mpr ⟨hnode, rfl⟩)) with hlt | ⟨heq, -⟩
      · exact UInt64.lt_irrefl _ (UInt64.lt_trans hlt hsequence)
      · exact UInt64.lt_irrefl _ (heq ▸ hsequence)
    rw [mergedViews, View.absorbAll_cons_some hj, View.absorbAll_cons_some hi, hfirst, hover,
      View.absorb_refused hrefused]
    rfl

/-- A snapshot with one lease of the first seed. -/
def publishedLease (b : UInt8) (sequence : UInt64) : Except Bytes Snapshot :=
  (signSnapshot (sampleSigner b) [⟨signedLease sequence (Time.epoch.add hour), []⟩]
    Time.epoch).mapError SnapshotError.text

/-- What the two seeds answer. -/
def pairAnswers (first second : UInt64) (seed : PinnedNode) : Except Bytes Snapshot :=
  if seed.identity.ed25519Public = sampleBytes 32 1 then publishedLease 1 first
  else publishedLease 2 second

def pairConfig : DirectoryBootstrap := ⟨[sampleSeed, otherSeed], 1, 2, false, 2⟩

theorem pairConfig_policy : newPolicy samplePrimitives pairConfig.seeds pairConfig.authorityQuorum
    pairConfig.allowPrivateIPs pairConfig.maxNodes = .ok (pairPolicy 1) :=
  pairPolicy_ok (by decide) (by decide)

theorem signSnapshot_single {c : Primitives} (signer : HybridSigner c) (r : Record) {t : Time}
    (ht : t.isZero = false) : ∃ snapshot, signSnapshot signer [r] t = .ok snapshot ∧
      Published signer [r] t snapshot ∧ snapshot.records = [r] := by
  have hinput : ¬(t.isZero = true ∨ (([r] : List Record).length : Int) > maxDirectoryNodes) := by
    rw [ht, length_singleton]
    decide
  have hrepeat : repeatsNode (sortRecords [r]) = false := by
    rw [perm_singleton.mp (sortRecords_perm [r])]
    rfl
  have hsign : ∃ snapshot, signSnapshot signer [r] t = .ok snapshot := by
    simp only [signSnapshot, if_neg hinput, hrepeat]
    exact ⟨_, rfl⟩
  obtain ⟨snapshot, hsign⟩ := hsign
  have hp := signSnapshot_published hsign
  exact ⟨snapshot, hsign, hp, hp.records.trans (perm_singleton.mp (sortRecords_perm [r]))⟩

theorem publishedLease_ok (b : UInt8) {sequence : UInt64} (hsequence : sequence ≠ 0) :
    ∃ snapshot, publishedLease b sequence = .ok snapshot ∧
      snapshot.records = [⟨signedLease sequence (epoch.add hour), []⟩] ∧
      verifySnapshotHeader samplePrimitives snapshot (sampleIdentity b).nodeID epoch 2 =
        .ok () ∧
      ∀ r ∈ snapshot.records, verifyRecord samplePrimitives (pairPolicy 1) r epoch = .ok () := by
  obtain ⟨snapshot, hsign, hp, hrecords⟩ := signSnapshot_single (sampleSigner b)
    ⟨signedLease sequence (epoch.add hour), []⟩ (by decide : epoch.isZero = false)
  have hok : publishedLease b sequence = .ok snapshot := by
    rw [publishedLease, hsign]
    rfl
  refine ⟨snapshot, hok, hrecords, ?_, ?_⟩
  · exact (verifySnapshotHeader_iff hp (nodup_singleton _) (by decide) (by decide)
      (by rw [length_singleton]; decide)).mpr (by decide)
  · rw [hrecords]
    intro r hr
    obtain rfl := mem_singleton.mp hr
    have hlease := @signedLease_ok sequence (epoch.add hour) hsequence (by decide) (by decide)
      (by decide)
    refine verifyRecord_pinned (pairPolicy_limits (by decide) (by decide))
      (verifyAnnouncement_iff.mpr ⟨hlease, ?_, ?_⟩) (isPinned_head rfl rfl)
    · exact (by decide : epoch.ns ≤ epoch.ns + maxClockSkew)
    · exact (by decide : epoch.ns < (epoch.add hour).ns)

theorem pairAnswers_first (first second : UInt64) :
    pairAnswers first second sampleSeed = publishedLease 1 first := if_pos rfl

theorem pairAnswers_second (first second : UInt64) :
    pairAnswers first second otherSeed = publishedLease 2 second :=
  if_neg (by decide : sampleBytes 32 2 ≠ sampleBytes 32 1)

theorem pairAnswers_verified {first second : UInt64} (hfirst : first ≠ 0) (hsecond : second ≠ 0) :
    VerifiedViews samplePrimitives (pairPolicy 1) pairConfig (pairAnswers first second)
      epoch := by
  intro seed hseed snapshot hanswer
  obtain rfl | rfl : seed = sampleSeed ∨ seed = otherSeed := by
    simpa only [pairConfig, mem_cons, not_mem_nil, or_false] using hseed
  · obtain ⟨published, hok, -, hheader, hrecords⟩ := publishedLease_ok 1 hfirst
    rw [pairAnswers_first, hok] at hanswer
    obtain rfl := Except.ok.inj hanswer
    exact ⟨hheader, hrecords⟩
  · obtain ⟨published, hok, -, hheader, hrecords⟩ := publishedLease_ok 2 hsecond
    rw [pairAnswers_second, hok] at hanswer
    obtain rfl := Except.ok.inj hanswer
    exact ⟨hheader, hrecords⟩

/-- One seed answers with an older lease of a node than the other: if the newer view comes
    first, the older is refused and the client has one view of two. -/
theorem directory_order_dependent : ¬∀ (c : Primitives) (policy : Policy)
    (config : DirectoryBootstrap) (answers : PinnedNode → Except Bytes Snapshot) (now : Time),
    newPolicy c config.seeds config.authorityQuorum config.allowPrivateIPs config.maxNodes =
      .ok policy → VerifiedViews c policy config answers now →
    ∀ (arrival arrival' : List PinnedNode) (visit visit' : Registry → List Bytes),
      arrival.Perm config.seeds → arrival'.Perm config.seeds → Visits visit → Visits visit' →
      SameOutcome (fetchNodeDirectory c config answers now arrival visit)
        (fetchNodeDirectory c config answers now arrival' visit') := by
  intro hclaim
  have hviews := @pairAnswers_verified 1 2 (by decide) (by decide)
  obtain ⟨first, hfirst, hrecords, -⟩ := @publishedLease_ok 1 1 (by decide)
  obtain ⟨second, hsecond, hrecords', -⟩ := @publishedLease_ok 2 2 (by decide)
  have hview := seedView_ok ((pairAnswers_first 1 2).trans hfirst)
  have hview' := seedView_ok ((pairAnswers_second 1 2).trans hsecond)
  rw [hrecords] at hview
  rw [hrecords'] at hview'
  have hswap : [otherSeed, sampleSeed].Perm pairConfig.seeds := List.Perm.swap _ _ _
  obtain ⟨htwo, hone⟩ := @mergedViews_older (pairPolicy 1) _ _ _ _ _ hview hview' rfl
    (by decide : (1 : UInt64) < 2) (by decide)
  have hcount := (reconciled_successes pairConfig_policy hviews (.refl _)).trans htwo
  have hcount' := (reconciled_successes pairConfig_policy hviews hswap).trans hone
  have hfree : OrderFree samplePrimitives pairConfig (pairAnswers 1 2) Time.epoch :=
    fun minimum => hclaim samplePrimitives (pairPolicy 1) { pairConfig with minSeedResponses := minimum }
      (pairAnswers 1 2) Time.epoch pairConfig_policy hviews
  have hsame := conclude_of_orderFree pairConfig_policy hfree visits_sorted hswap
    (by decide : (0 : Int) < 2) (by decide)
  rw [conclude, conclude, hcount, hcount', if_pos (by decide), if_neg (by decide)] at hsame
  cases hsame

/-- Two seeds that answer with the same lease. -/
theorem directory_order_free_pair :
    OrderFree samplePrimitives pairConfig (pairAnswers 1 1) Time.epoch := by
  have hanswered : ∀ r, Answered pairConfig (pairAnswers 1 1) r →
      r = ⟨signedLease 1 (Time.epoch.add hour), []⟩ := by
    rintro r ⟨seed, hseed, snapshot, hanswer, hr⟩
    obtain ⟨first, hfirst, hrecords, -⟩ := @publishedLease_ok 1 1 (by decide)
    obtain ⟨second, hsecond, hrecords', -⟩ := @publishedLease_ok 2 1 (by decide)
    obtain rfl | rfl : seed = sampleSeed ∨ seed = otherSeed := by
      simpa only [pairConfig, List.mem_cons, List.not_mem_nil, or_false] using hseed
    · rw [pairAnswers_first, hfirst] at hanswer
      rwa [← Except.ok.inj hanswer, hrecords, List.mem_singleton] at hr
    · rw [pairAnswers_second, hsecond] at hanswer
      rwa [← Except.ok.inj hanswer, hrecords', List.mem_singleton] at hr
  have hviews := @pairAnswers_verified 1 1 (by decide) (by decide)
  refine (directory_order_free_iff pairConfig_policy hviews ?_).mpr ⟨?_, ?_⟩
  · rintro b ⟨r, hr, rfl⟩ b' ⟨s, hs, rfl⟩ -
    rw [hanswered r hr, hanswered s hs]
  · intro r s hr hs _
    rw [hanswered r hr, hanswered s hs]
    exact ⟨rfl, rfl⟩
  · have hsub : {id | ∃ r, Answered pairConfig (pairAnswers 1 1) r ∧ r.node = id} ⊆
        {Record.node ⟨signedLease 1 (Time.epoch.add hour), []⟩} := by
      rintro id ⟨r, hr, rfl⟩
      rw [hanswered r hr]
      rfl
    refine (Set.encard_le_encard hsub).trans ?_
    rw [Set.encard_singleton, capacity, Nat.one_le_cast]
    decide

end

end Veilmesh.Client

/-
  The batches in which a file is fetched (`Retrieve` of `media/file.go`).

  All chunks of a valid file have one size, and a batch is as many of them as a fetch may
  return, and as may be asked for. `batches` cuts the list, `fetchEach` goes through the pieces.

  * `fetchBatches_eq`: the loop of `Retrieve` goes through the batches and ends.
  * `Batch`: what is known about the batches of a valid file.
  * `Batch.node_whole`, `Batch.fetch_iff`: neither a node nor the core cuts a batch off.
-/
import Veilmesh.Client.Union
import Veilmesh.Client.WireSize
import Veilmesh.Media.Transfer

namespace Veilmesh.Media

open Lib Protocol Pqcrypto Client Node List

/-! ## Cutting a list -/

section

variable {α β : Type} {size : Nat}

/-- A list in pieces of `size`; the last one may be shorter. -/
def batches (size : Nat) (l : List α) : List (List α) :=
  if _ : 0 < size ∧ 0 < l.length then l.take size :: batches size (l.drop size) else []
termination_by l.length
decreasing_by
  rw [length_drop]
  omega

theorem batches_nil : batches size ([] : List α) = [] := by
  rw [batches, dif_neg fun h => absurd h.2 (Nat.lt_irrefl 0)]

theorem map_batches (f : α → β) (l : List α) :
    (batches size l).map (List.map f) = batches size (l.map f) := by
  fun_induction batches size l with
  | case1 l h ih =>
    rw [batches.eq_def size (l.map f), dif_pos (by rwa [length_map]), ← map_take,
      ← map_drop, ← ih, map_cons]
  | case2 l h =>
    rw [batches.eq_def size (l.map f), dif_neg (by rwa [length_map]), map_nil]

/-- The pieces in their order are the list. -/
theorem flatten_batches (hsize : 0 < size) (l : List α) : (batches size l).flatten = l := by
  fun_induction batches size l with
  | case1 l h ih => rw [flatten_cons, ih, take_append_drop]
  | case2 l h =>
    have hnil : l.length = 0 := by omega
    rw [length_eq_zero_iff.mp hnil, flatten_nil]

theorem mem_batches {l b : List α} (h : b ∈ batches size l) : b ≠ [] ∧ b.length ≤ size := by
  fun_induction batches size l with
  | case1 l hl ih =>
    rcases mem_cons.mp h with rfl | h
    · refine ⟨ne_nil_of_length_pos ?_, length_take_le _ _⟩
      rw [length_take]
      omega
    · exact ih h
  | case2 => cases h

end

/-! ## The loop -/

section

variable {c : Primitives}

/-- A fetch for each of the batches. -/
def fetchEach (env : RetrieveEnv) (byHash : GoMap Bytes FileChunk) : Nat → Nat → List (List Bytes) →
    Core c → Collected → Except MediaError Collected × Core c
  | _, _, [], core, found => (.ok found, core)
  | batch, start, tags :: rest, core, found =>
    match core.fetch (env.fetch batch) tags with
    | (.error e, core) => (.error (.fetch start (start + tags.length) e), core)
    | (.ok items, core) =>
      fetchEach env byHash (batch + 1) (start + tags.length) rest core
        (items.foldl (takeChunk byHash) found)

/-- The loop goes through the batches; as many rounds as there are tags are enough. -/
theorem fetchBatches_eq {env : RetrieveEnv} {byHash : GoMap Bytes FileChunk} {routeTags : List Bytes}
    {size : Nat} (hsize : 0 < size) {fuel : Nat} : ∀ {batch start : Nat} {core : Core c}
      {found : Collected}, routeTags.length - start ≤ fuel →
      fetchBatches env byHash routeTags size fuel batch start core found =
        fetchEach env byHash batch start (batches size (routeTags.drop start)) core found := by
  induction fuel with
  | zero =>
    intro batch start core found hfuel
    rw [drop_eq_nil_of_le (by omega), batches_nil]
    rfl
  | succ fuel ih =>
    intro batch start core found hfuel
    rw [fetchBatches]
    split
    · rename_i hlt
      rw [batches, dif_pos ⟨hsize, by rw [length_drop]; omega⟩, fetchEach, length_take,
        length_drop, drop_drop]
      obtain ⟨result, core'⟩ := core.fetch (env.fetch batch) ((routeTags.drop start).take size)
      cases result with
      | error e =>
        dsimp only
        rw [show start + min size (routeTags.length - start) =
          min (start + size) routeTags.length by omega]
      | ok items =>
        dsimp only
        rw [ih (by omega)]
        -- behind a batch that is shorter there is none
        rcases Nat.le_total size (routeTags.length - start) with hle | hle
        · rw [Nat.min_eq_left hle]
        · rw [drop_eq_nil_of_le (by omega), batches_nil]
          rfl
    · rw [drop_eq_nil_of_le (by omega), batches_nil]
      rfl

end

/-! ## Batches of a valid file -/

/-- A batch of chunks of one size that may be fetched at once. -/
structure Batch (size : Int) (b : List FileChunk) : Prop where
  nonempty : b ≠ []
  count : b.length ≤ maxRouteTagsPerFetch
  routes : (b.map (·.routeTag)).Nodup ∧ ∀ chunk ∈ b, validRouteTag chunk.routeTag = true
  sizes : ∀ chunk ∈ b, chunk.cipherSize = size
  nonneg : 0 ≤ size
  bytes : b.length * size ≤ defaultMaxFetchBytes

theorem Batch.sum {size : Int} {b : List FileChunk} (h : Batch size b) :
    (b.map (·.cipherSize)).sum = b.length * size := by
  rw [map_congr_left h.sizes, map_const', sum_replicate, nsmul_eq_mul]

section

variable {p : Platform} {secret : FileSecret} {manifest : FileManifest}
  (h : validateManifest p secret manifest = .ok ())

include h

theorem validateManifest_chunks :
    (minChunkSize ≤ manifest.chunkSize ∧ manifest.chunkSize ≤ maxChunkSize) ∧ manifest.chunks ≠ [] ∧
      (manifest.chunks.map (·.routeTag)).Nodup ∧ ∀ chunk ∈ manifest.chunks,
        validRouteTag chunk.routeTag = true ∧ chunk.cipherSize = manifest.chunkSize + 4 + 12 + 16 := by
  obtain ⟨hheader, ⟨hpos, -, hlength, htokens⟩, hcheck⟩ := validateManifest_ok_iff.mp h
  obtain ⟨hchunks, ⟨hroutes, -⟩, -⟩ := checkChunks_ok_iff.mp hcheck
  have hfst : (manifest.chunks.zip secret.deleteTokens).map Prod.fst = manifest.chunks :=
    map_fst_zip htokens.ge
  refine ⟨?_, ?_, ?_, fun chunk hchunk => ?_⟩
  · simp only [headerOk, Bool.and_eq_true, decide_eq_true_eq] at hheader
    exact ⟨hheader.1.1.1.1.1.1.1.2, hheader.1.1.1.1.1.1.2⟩
  · rintro hnil
    rw [hnil, length_nil] at hlength
    omega
  · rw [← hfst, map_map]
    exact hroutes
  · rw [← hfst] at hchunk
    obtain ⟨pair, hpair, rfl⟩ := mem_map.mp hchunk
    obtain ⟨i, hi⟩ := mem_iff_getElem?.mp hpair
    exact ⟨(hchunks i pair hi).route, (hchunks i pair hi).size⟩

/-- A fetch asks for at least one chunk, and for no more than may be returned. -/
theorem batchSize_fits :
    0 < maxTagsPerBatch manifest ∧ 0 < batchSize manifest ∧
      batchSize manifest * (manifest.chunkSize + 4 + 12 + 16) ≤ defaultMaxFetchBytes := by
  obtain ⟨⟨hmin, hmax⟩, hne, -, hall⟩ := validateManifest_chunks h
  obtain ⟨chunk, rest, hchunks⟩ := exists_cons_of_ne_nil hne
  have hsize := (hall chunk (hchunks ▸ mem_cons_self)).2
  have htags : maxTagsPerBatch manifest = defaultMaxFetchBytes / chunk.cipherSize := by
    rw [maxTagsPerBatch, hchunks]
    rfl
  have hone : (minChunkSize : Int) = 16384 := by decide
  have hlimits : (maxChunkSize : Int) = 326656 ∧ (defaultMaxFetchBytes : Int) = 8388608 := by decide
  have hpos : 0 < maxTagsPerBatch manifest := by
    rw [htags]
    exact Int.le_ediv_of_mul_le (by omega) (by omega)
  have hmul : maxTagsPerBatch manifest * chunk.cipherSize ≤ defaultMaxFetchBytes := by
    rw [htags]
    exact Int.ediv_mul_le _ (by omega)
  have hmost : 0 < maxRouteTagsPerFetch := by decide
  have hbatch : (batchSize manifest : Int) ≤ maxTagsPerBatch manifest := by
    unfold batchSize
    omega
  refine ⟨hpos, ?_, ?_⟩
  · unfold batchSize
    omega
  · rw [← hsize]
    exact (mul_le_mul_of_nonneg_right hbatch (by omega)).trans hmul

theorem batches_fit {b : List FileChunk} (hb : b ∈ batches (batchSize manifest) manifest.chunks) :
    Batch (manifest.chunkSize + 4 + 12 + 16) b := by
  obtain ⟨⟨hmin, -⟩, -, hroutes, hall⟩ := validateManifest_chunks h
  obtain ⟨-, hsize, hbytes⟩ := batchSize_fits h
  obtain ⟨hne, hlength⟩ := mem_batches hb
  have hsub : b.Sublist manifest.chunks :=
    flatten_batches hsize manifest.chunks ▸ sublist_flatten_of_mem hb
  have hnonneg : 0 ≤ manifest.chunkSize + 4 + 12 + 16 := by omega
  exact ⟨hne, hlength.trans (Nat.min_le_left _ _), ⟨hroutes.sublist (hsub.map _),
    fun chunk hchunk => (hall chunk (hsub.subset hchunk)).1⟩,
    fun chunk hchunk => (hall chunk (hsub.subset hchunk)).2, hnonneg,
    (mul_le_mul_of_nonneg_right (by exact_mod_cast hlength) hnonneg).trans hbytes⟩

end

/-! ## One item for each tag -/

/-- Of the items under the tags of some chunks there is one for each tag, as large as the
    manifest says. -/
def OnePerTag (chunks : List FileChunk) (item : Bytes → StoredItem) (items : Set StoredItem) : Prop :=
  ∀ i ∈ items, ∀ chunk ∈ chunks, i.routeTag = chunk.routeTag →
    i = item chunk.routeTag ∧ (i.payload.length : Int) = chunk.cipherSize

section

variable {size : Int} {b : List FileChunk} {item : Bytes → StoredItem}

/-- Items of a batch fit together. -/
theorem Batch.within (h : Batch size b) {ids : Finset Bytes} {bytes : Bytes → Int}
    (hids : ∀ id ∈ ids, (∃ chunk ∈ b, (item chunk.routeTag).itemID = id) ∧ bytes id = size) :
    ids.card ≤ maxRouteTagsPerFetch ∧ ∑ id ∈ ids, bytes id ≤ defaultMaxFetchBytes := by
  have hsub : ids ⊆ (b.map fun chunk => (item chunk.routeTag).itemID).toFinset := fun id hid =>
    mem_toFinset.mpr (mem_map.mpr (hids id hid).1)
  have hcard : ids.card ≤ b.length :=
    (Finset.card_le_card hsub).trans ((toFinset_card_le _).trans (length_map _).le)
  refine ⟨hcard.trans h.count, ?_⟩
  rw [Finset.sum_congr rfl fun id hid => (hids id hid).2, Finset.sum_const, nsmul_eq_mul]
  exact (mul_le_mul_of_nonneg_right (by exact_mod_cast hcard) h.nonneg).trans h.bytes

/-- A node with one item for each tag sends all of them. -/
theorem Batch.node_whole (h : Batch size b) {s : DiskStore} {now : Time} {order : DiskStore.FetchOrder}
    (hinv : StoreInv s) (hshaped : Client.Shaped s) (hopen : s.closed = false)
    (hvisits : order.Visits s)
    (hone : OnePerTag b item {i | s.items.lookup i.itemID = some i ∧ i.expiresAt.after now = true}) :
    (s.fetchLimited now order (b.map (·.routeTag)) defaultMaxFetchItems defaultMaxFetchBytes).2 =
      false := by
  have hmemory : ∑ id ∈ s.items.keys, (s.payloadSize id : Int) ≤ maxInt64 :=
    DiskStore.payloads_le hinv.count fun id item hitem => by exact_mod_cast (hshaped id item hitem).size
  obtain ⟨acc, hcall, hwhole, -⟩ := @DiskStore.fetchLimited_spec s now defaultMaxFetchItems
    defaultMaxFetchBytes hinv.toIndexInv hopen hmemory order hvisits (b.map (·.routeTag))
    (fun hnil => h.nonempty (map_eq_nil_iff.mp hnil)) (by rw [length_map]; exact h.count)
    (by decide) (by decide)
  rw [hcall]
  refine (hwhole ?_).whole
  have hfit := @Batch.within size b item h (s.liveIDs now (b.map (·.routeTag)))
    (fun id => s.payloadSize id) fun id hid => ?_
  · exact ⟨(Int.ofNat_le.mpr hfit.1).trans (by decide), hfit.2⟩
  · obtain ⟨hid, hlive⟩ := Finset.mem_filter.mp hid
    obtain ⟨tag, htag, hid⟩ := Finset.mem_biUnion.mp hid
    obtain ⟨chunk, hchunk, rfl⟩ := mem_map.mp (mem_toFinset.mp htag)
    obtain ⟨held, hheld, hroute⟩ := (hinv.routed _ id).mp hid
    obtain ⟨hlookup, hkey⟩ := DiskStore.getD_held hinv.toIndexInv (GoMap.mem_keys_of_lookup hheld)
    have hget : s.items.getD id StoredItem.zero = held := by
      rw [GoMap.getD, hheld]
      rfl
    rw [hget] at hlookup hkey
    rw [DiskStore.live, hget] at hlive
    obtain ⟨hsame, hlength⟩ := hone held ⟨by rw [hkey, hheld], hlive⟩ chunk hchunk hroute
    refine ⟨⟨chunk, hchunk, by rw [← hsame, hkey]⟩, ?_⟩
    rw [DiskStore.payloadSize, hget, hlength, h.sizes chunk hchunk]

theorem checkTags_none {tags : List Bytes} : ∀ {seen : List Bytes}, tags.Nodup →
    (∀ tag ∈ tags, validRouteTag tag = true ∧ tag ∉ seen) → checkTags seen tags = none := by
  induction tags with
  | nil => exact fun _ _ => rfl
  | cons tag tags ih =>
    intro seen hnodup hall
    obtain ⟨⟨hvalid, hnew⟩, hrest⟩ := forall_mem_cons.mp hall
    obtain ⟨hnotmem, hnodup⟩ := nodup_cons.mp hnodup
    rw [checkTags, if_neg (by rw [hvalid]; exact Bool.true_eq_false.mp), if_neg hnew]
    refine ih hnodup fun other hother => ⟨(hrest other hother).1, ?_⟩
    rw [mem_cons, not_or]
    exact ⟨fun heq => hnotmem (heq ▸ hother), (hrest other hother).2⟩

/-- Where all nodes have one item for each tag, a fetch fails only if no answer counts. -/
theorem Batch.fetch_iff (h : Batch size b) {c : Primitives} {core : Core c} {env : FetchEnv}
    (hone : OnePerTag b item {i | i ∈ core.offeredItems env (b.map (·.routeTag))}) :
    (∃ items, (core.fetch env (b.map (·.routeTag))).1 = .ok items) ↔
      (∃ node ∈ core.allowedNodes env.allowedAt, Complete env (b.map (·.routeTag)) node) ∨
        core.allowedNodes env.allowedAt = [] := by
  have hknown : ∀ i ∈ core.offeredItems env (b.map (·.routeTag)), ∃ chunk ∈ b,
      i = item chunk.routeTag ∧ (i.payload.length : Int) = size := by
    intro i hi
    obtain ⟨node, -, hoffered⟩ := mem_flatMap.mp hi
    obtain ⟨items, -, -, j, -, hwanted⟩ := mem_offered.mp hoffered
    obtain ⟨chunk, hchunk, hroute⟩ := mem_map.mp (wanted_iff.mp hwanted).1
    obtain ⟨hsame, hlength⟩ := hone i hi chunk hchunk hroute.symm
    exact ⟨chunk, hchunk, hsame, hlength.trans (h.sizes chunk hchunk)⟩
  have hsizes : SameSizes (core.offeredItems env (b.map (·.routeTag))) := by
    intro i hi j hj _
    obtain ⟨-, -, -, hsize⟩ := hknown i hi
    obtain ⟨-, -, -, hsize'⟩ := hknown j hj
    omega
  have hwithin : WithinLimits (core.offeredItems env (b.map (·.routeTag))) := by
    refine (@Batch.within size b item h _ _ fun id hid => ?_).imp_left (·.trans (by decide))
    obtain ⟨i, hi, rfl⟩ := mem_itemIDs.mp hid
    obtain ⟨chunk, hchunk, rfl, -⟩ := hknown i hi
    obtain ⟨first, hfirst⟩ := firstOf_isSome hi
    obtain ⟨-, -, -, hsize⟩ := hknown first (firstOf_some hfirst).1
    refine ⟨⟨chunk, hchunk, rfl⟩, ?_⟩
    rw [hfirst]
    exact hsize
  have hlength : (b.map (·.routeTag)).length = b.length := length_map _
  have hvalid : ValidTags (b.map (·.routeTag)) := by
    refine ⟨?_, hlength.le.trans h.count, checkTags_none h.routes.1 fun tag htag => ?_⟩
    · rw [hlength]
      exact fun hnil => h.nonempty (length_eq_zero_iff.mp hnil)
    · obtain ⟨chunk, hchunk, rfl⟩ := mem_map.mp htag
      exact ⟨h.routes.2 chunk hchunk, not_mem_nil⟩
  rw [fetch_isOk_iff hsizes, and_iff_right hvalid, and_iff_right hwithin]

end

/-! ## Retrieval -/

/-- For every valid file the loop ends; it goes through batches that are not empty and follow
    one another over all chunks, each of which is within the limits of a fetch. Where there is
    one item for each tag, no node that is honest cuts its answer off, and no combined limit of
    the core is met: a fetch fails only where no answer counts. -/
theorem retrieve_batches {p : Platform} {secret : FileSecret} {manifest : FileManifest}
    (h : validateManifest p secret manifest = .ok ()) :
    0 < maxTagsPerBatch manifest ∧ (manifest.chunks.map (·.routeTag)).Nodup ∧
    ∃ bs : List (List FileChunk), bs.flatten = manifest.chunks ∧
      (∀ (c : Primitives) (core : Core c) (env : RetrieveEnv) (byHash : GoMap Bytes FileChunk)
        (found : Collected) (fuel : Nat), manifest.chunks.length ≤ fuel →
        fetchBatches env byHash (manifest.chunks.map (·.routeTag)) (batchSize manifest) fuel 0 0 core
          found = fetchEach env byHash 0 0 (bs.map (List.map (·.routeTag))) core found) ∧
      ∀ b ∈ bs, b ≠ [] ∧ b.length ≤ maxRouteTagsPerFetch ∧
        (b.map (·.cipherSize)).sum ≤ defaultMaxFetchBytes ∧
        (∀ (dir : Bytes) (d d' : Disk) (start now : Time) (capacity routeQuota : Int)
          (s₀ s : DiskStore) (ops : List Node.Op) (order : DiskStore.FetchOrder)
          (item : Bytes → StoredItem),
          newDiskStore dir d start capacity routeQuota = (.ok s₀, d') → Run Node.Step s₀ ops s →
          s.closed = false → order.Visits s →
          OnePerTag b item {i | s.items.lookup i.itemID = some i ∧ i.expiresAt.after now = true} →
          (s.fetchLimited now order (b.map (·.routeTag)) defaultMaxFetchItems
            defaultMaxFetchBytes).2 = false) ∧
        ∀ (c : Primitives) (core : Core c) (env : FetchEnv) (item : Bytes → StoredItem),
          OnePerTag b item {i | i ∈ core.offeredItems env (b.map (·.routeTag))} →
          ((∃ items, (core.fetch env (b.map (·.routeTag))).1 = .ok items) ↔
            (∃ node ∈ core.allowedNodes env.allowedAt, Complete env (b.map (·.routeTag)) node) ∨
              core.allowedNodes env.allowedAt = []) := by
  obtain ⟨hpos, hsize, -⟩ := batchSize_fits h
  refine ⟨hpos, (validateManifest_chunks h).2.2.1, batches (batchSize manifest) manifest.chunks,
    flatten_batches hsize _, fun c core env byHash found fuel hfuel => ?_, fun b hb => ?_⟩
  · rw [fetchBatches_eq hsize (by rwa [List.length_map]), map_batches, List.drop_zero]
  · have hbatch := batches_fit h hb
    refine ⟨hbatch.nonempty, hbatch.count, hbatch.sum ▸ hbatch.bytes, ?_, ?_⟩
    · intro dir d d' start now capacity routeQuota s₀ s ops order item hdir hrun hopen hvisits hone
      obtain ⟨hinv, hshaped⟩ := reachable_shaped hdir hrun
      exact hbatch.node_whole hinv hshaped hopen hvisits hone
    · intro c core env item hone
      exact hbatch.fetch_iff hone

/-- A file of one chunk is one batch. -/
theorem retrieve_batches_unix : ∃ file : EncryptedFile,
    encryptFile .unix plainAead zeroRandom (lit "d/a:b") (lit "text/plain") [1] 0 minChunkSize =
        .ok file ∧
      validateManifest .unix file.secret file.manifest = .ok () ∧
      0 < maxTagsPerBatch file.manifest := by
  have hfile := @encryptFile_sample .unix (lit "a:b") (by decide) (by decide)
  have hvalid := (validateManifest_encryptFile hfile (encryptFile_sample_nodup _ _)
    (encryptFile_sample_nodup _ _)).mpr (by decide)
  exact ⟨_, hfile, hvalid, (retrieve_batches hvalid).1⟩

end Veilmesh.Media

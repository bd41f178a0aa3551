/-
  Merging views all or nothing.

  A view maps some keys to ranked entries. Merging a view into what is there overrides entries
  of lower rank; it is refused as a whole when one of its entries is outranked, or has the
  rank of a different entry, or when there would be more keys than the capacity. Sources are
  asked for their views one after the other, going on after refusals and after sources
  without a view, and the merged views are counted.

  * `absorbAll_of_agreeing`: views that agree on their common keys and fit together are all
    merged, to their union.
  * `absorbAll_orderFree_iff`: merging is independent of the order of the sources exactly for
    such views.
-/
import Mathlib.Data.Set.Card
import Mathlib.Data.List.Permutation

namespace Veilmesh.Lib

/-- A view: some keys with an entry each. -/
abbrev View (K L : Type*) := K → Option L

namespace View

variable {K L : Type*} {rank : L → Nat} {cap : ℕ∞}

/-- The keys with an entry. -/
def keys (M : View K L) : Set K := {k | M k ≠ none}

variable {M X V : View K L} {k : K}

theorem mem_keys_of_eq {m : L} (h : M k = some m) : k ∈ M.keys := by
  rw [keys, Set.mem_ofPred_eq, h]
  exact Option.some_ne_none m

theorem exists_of_mem_keys (h : k ∈ M.keys) : ∃ m, M k = some m :=
  Option.ne_none_iff_exists'.mp h

/-- `X` over `M`. -/
def overlay (X M : View K L) : View K L := fun k => (X k).or (M k)

theorem overlay_eq_some_iff {v : L} :
    X.overlay M k = some v ↔ X k = some v ∨ X k = none ∧ M k = some v := by
  rw [overlay, Option.or_eq_some_iff]

theorem keys_overlay (X M : View K L) : (X.overlay M).keys = M.keys ∪ X.keys := by
  ext k
  simp only [keys, overlay, Set.mem_ofPred_eq, Set.mem_union, ne_eq, Option.or_eq_none_iff]
  tauto

/-- An entry may take the place of another that is lower, or of itself. -/
def Below (rank : L → Nat) (m x : L) : Prop := rank m < rank x ∨ m = x

theorem Below.trans {m x y : L} (h : Below rank m x) (h' : Below rank x y) : Below rank m y := by
  rcases h with h | rfl
  · rcases h' with h' | rfl
    · exact .inl (h.trans h')
    · exact .inl h
  · exact h'

/-- Whether `X` can be merged into `M`. -/
def Fits (rank : L → Nat) (cap : ℕ∞) (M X : View K L) : Prop :=
  (∀ k m x, M k = some m → X k = some x → Below rank m x) ∧ (M.keys ∪ X.keys).encard ≤ cap

open Classical in
/-- Merge `X` or refuse it, and count. -/
noncomputable def absorb (rank : L → Nat) (cap : ℕ∞) (s : View K L × Nat) (X : View K L) :
    View K L × Nat :=
  if Fits rank cap s.1 X then (X.overlay s.1, s.2 + 1) else s

/-- Merge the views of the sources in turn. -/
noncomputable def absorbAll {ι : Type*} (rank : L → Nat) (cap : ℕ∞) (view : ι → Option (View K L))
    (s : View K L × Nat) (is : List ι) : View K L × Nat :=
  is.foldl (fun s i => (view i).elim s (absorb rank cap s)) s

/-- The view without keys. -/
def empty : View K L := fun _ => none

variable {s : View K L × Nat}

theorem absorb_fits (h : Fits rank cap s.1 X) :
    absorb rank cap s X = (X.overlay s.1, s.2 + 1) := if_pos h

theorem absorb_refused (h : ¬Fits rank cap s.1 X) : absorb rank cap s X = s := if_neg h

theorem keys_empty : (empty : View K L).keys = ∅ := by
  ext k
  simp [keys, empty]

theorem encard_empty_le : (empty : View K L).keys.encard ≤ cap := by
  rw [keys_empty, Set.encard_empty]
  exact zero_le

theorem fits_empty (h : X.keys.encard ≤ cap) : Fits rank cap empty X := by
  refine ⟨fun k m x hm => (by cases hm), ?_⟩
  rwa [keys_empty, Set.empty_union]

/-! ## What merging keeps -/

/-- The entries only rise. -/
def Rises (rank : L → Nat) (M V : View K L) : Prop :=
  ∀ k m, M k = some m → ∃ v, V k = some v ∧ Below rank m v

theorem Rises.refl (M : View K L) : Rises rank M M := fun _ m h => ⟨m, h, .inr rfl⟩

theorem Rises.trans {N : View K L} (h : Rises rank M N) (h' : Rises rank N V) : Rises rank M V := by
  intro k m hm
  obtain ⟨n, hn, hmn⟩ := h k m hm
  obtain ⟨v, hv, hnv⟩ := h' k n hn
  exact ⟨v, hv, hmn.trans hnv⟩

theorem Rises.keys (h : Rises rank M V) : M.keys ⊆ V.keys := by
  intro k hk
  obtain ⟨m, hm⟩ := exists_of_mem_keys hk
  obtain ⟨v, hv, -⟩ := h k m hm
  exact mem_keys_of_eq hv

theorem absorb_rises (s : View K L × Nat) (X : View K L) :
    Rises rank s.1 (absorb rank cap s X).1 := by
  by_cases h : Fits rank cap s.1 X
  · rw [absorb_fits h]
    intro k m hm
    cases hx : X k with
    | none => exact ⟨m, overlay_eq_some_iff.mpr (.inr ⟨hx, hm⟩), .inr rfl⟩
    | some x => exact ⟨x, overlay_eq_some_iff.mpr (.inl hx), h.1 k m x hm hx⟩
  · rw [absorb_refused h]
    exact Rises.refl _

theorem absorb_keys (h : s.1.keys.encard ≤ cap) (X : View K L) :
    (absorb rank cap s X).1.keys.encard ≤ cap := by
  by_cases hfits : Fits rank cap s.1 X
  · rw [absorb_fits hfits, keys_overlay]
    exact hfits.2
  · rwa [absorb_refused hfits]

theorem absorb_count (s : View K L × Nat) (X : View K L) :
    s.2 ≤ (absorb rank cap s X).2 ∧ (absorb rank cap s X).2 ≤ s.2 + 1 := by
  unfold absorb
  split
  · exact ⟨Nat.le_succ _, le_rfl⟩
  · exact ⟨le_rfl, Nat.le_succ _⟩

section

variable {ι : Type*} {view : ι → Option (View K L)}

theorem absorbAll_append (s : View K L × Nat) (is js : List ι) :
    absorbAll rank cap view s (is ++ js) =
      absorbAll rank cap view (absorbAll rank cap view s is) js := List.foldl_append

@[simp] theorem absorbAll_nil (s : View K L × Nat) : absorbAll rank cap view s [] = s := rfl

theorem absorbAll_cons_none {i : ι} (h : view i = none) (s : View K L × Nat) (is : List ι) :
    absorbAll rank cap view s (i :: is) = absorbAll rank cap view s is := by
  rw [absorbAll, List.foldl_cons, h]
  rfl

theorem absorbAll_cons_some {i : ι} {X : View K L} (h : view i = some X) (s : View K L × Nat)
    (is : List ι) : absorbAll rank cap view s (i :: is) =
      absorbAll rank cap view (absorb rank cap s X) is := by
  rw [absorbAll, List.foldl_cons, h]
  rfl

/-- What holds from before to after each merge holds from before to after all of them. -/
theorem absorbAll_rel {R : View K L × Nat → View K L × Nat → Prop} (hrefl : ∀ s, R s s)
    (htrans : ∀ {s t u}, R s t → R t u → R s u) (hstep : ∀ s X, R s (absorb rank cap s X))
    (s : View K L × Nat) (is : List ι) : R s (absorbAll rank cap view s is) := by
  induction is generalizing s with
  | nil => exact hrefl s
  | cons i is ih =>
    cases h : view i with
    | none =>
      rw [absorbAll_cons_none h]
      exact ih s
    | some X =>
      rw [absorbAll_cons_some h]
      exact htrans (hstep s X) (ih _)

theorem absorbAll_rises (s : View K L × Nat) (is : List ι) :
    Rises rank s.1 (absorbAll rank cap view s is).1 :=
  absorbAll_rel (R := fun s t => Rises rank s.1 t.1) (fun _ => .refl _) .trans absorb_rises s is

theorem absorbAll_keys {s : View K L × Nat} (h : s.1.keys.encard ≤ cap) (is : List ι) :
    (absorbAll rank cap view s is).1.keys.encard ≤ cap :=
  absorbAll_rel (R := fun s t => s.1.keys.encard ≤ cap → t.1.keys.encard ≤ cap) (fun _ h => h)
    (fun h h' => h' ∘ h) (fun _ X h => absorb_keys h X) s is h

theorem absorbAll_count_le (s : View K L × Nat) (is : List ι) :
    (absorbAll rank cap view s is).2 ≤ s.2 + is.length := by
  induction is generalizing s with
  | nil => exact le_rfl
  | cons i is ih =>
    rw [List.length_cons]
    cases hi : view i with
    | none =>
      rw [absorbAll_cons_none hi]
      exact (ih s).trans (by omega)
    | some X =>
      rw [absorbAll_cons_some hi]
      have hstep := (@absorb_count _ _ rank cap s X).2
      exact (ih _).trans (by omega)

/-- Where nothing is counted, nothing has changed. -/
theorem absorbAll_of_count_eq {s : View K L × Nat} {is : List ι}
    (h : (absorbAll rank cap view s is).2 = s.2) : absorbAll rank cap view s is = s := by
  refine (@absorbAll_rel _ _ rank cap _ view (fun s t => s.2 < t.2 ∨ t = s) (fun _ => .inr rfl) ?_
    ?_ s is).resolve_left h.not_gt
  · rintro s t u (hst | rfl) (htu | rfl)
    · exact .inl (hst.trans htu)
    · exact .inl hst
    · exact .inl htu
    · exact .inr rfl
  · intro s X
    by_cases hfits : Fits rank cap s.1 X
    · rw [absorb_fits hfits]
      exact .inl (Nat.lt_succ_self _)
    · exact .inr (absorb_refused hfits)

end

/-! ## Views that agree -/

/-- All entries of `X` are in `V`. -/
def Part (X V : View K L) : Prop := ∀ k x, X k = some x → V k = some x

theorem Part.keys (h : Part X V) : X.keys ⊆ V.keys := by
  intro k hk
  obtain ⟨x, hx⟩ := exists_of_mem_keys hk
  exact mem_keys_of_eq (h k x hx)

section

variable {ι : Type*} {view : ι → Option (View K L)}

/-- The views of the sources agree on their common keys. -/
def Agreeing (view : ι → Option (View K L)) (is : List ι) : Prop :=
  ∀ i ∈ is, ∀ j ∈ is, ∀ X Y, view i = some X → view j = some Y →
    ∀ k x y, X k = some x → Y k = some y → x = y

/-- All keys of the views. -/
def allKeys (view : ι → Option (View K L)) (is : List ι) : Set K :=
  {k | ∃ i ∈ is, ∃ X, view i = some X ∧ k ∈ X.keys}

/-- What is there is exactly what the views say. -/
def Union (view : ι → Option (View K L)) (is : List ι) (M : View K L) : Prop :=
  ∀ k v, M k = some v ↔ ∃ i ∈ is, ∃ X, view i = some X ∧ X k = some v

variable {is : List ι}

theorem Union.ext {js : List ι} {M N : View K L} (hM : Union view is M) (hN : Union view js N)
    (hmem : ∀ i, i ∈ is ↔ i ∈ js) : M = N := by
  funext k
  refine Option.ext fun v => ?_
  rw [hM, hN]
  exact exists_congr fun i => by rw [hmem]

variable {s : View K L × Nat} {is : List ι}

theorem Union.absorb {i : ι} {X : View K L}
    (h : Union view is s.1) (hi : view i = some X) (hagree : Agreeing view (is ++ [i]))
    (hroom : (allKeys view (is ++ [i])).encard ≤ cap) :
    absorb rank cap s X = (X.overlay s.1, s.2 + 1) ∧ Union view (is ++ [i]) (X.overlay s.1) := by
  have hmem : i ∈ is ++ [i] := by simp
  have hleft : ∀ j ∈ is, j ∈ is ++ [i] := fun j hj => List.mem_append_left _ hj
  have hfits : Fits rank cap s.1 X := by
    refine ⟨fun k m x hm hx => ?_, le_trans (Set.encard_le_encard ?_) hroom⟩
    · obtain ⟨j, hj, Y, hY, hYm⟩ := (h k m).mp hm
      exact .inr (hagree j (hleft j hj) i hmem Y X hY hi k m x hYm hx)
    · rintro k (hk | hk)
      · obtain ⟨m, hm⟩ := exists_of_mem_keys hk
        obtain ⟨j, hj, Y, hY, hYm⟩ := (h k m).mp hm
        exact ⟨j, hleft j hj, Y, hY, mem_keys_of_eq hYm⟩
      · exact ⟨i, hmem, X, hi, hk⟩
  refine ⟨absorb_fits hfits, fun k v => ?_⟩
  rw [overlay_eq_some_iff, h]
  constructor
  · rintro (hx | ⟨-, j, hj, hrest⟩)
    · exact ⟨i, hmem, X, hi, hx⟩
    · exact ⟨j, hleft j hj, hrest⟩
  · rintro ⟨j, hj, Y, hY, hv⟩
    cases hx : X k with
    | some x => exact .inl (congrArg some (hagree i hmem j hj X Y hi hY k x v hx hv))
    | none =>
      rcases List.mem_append.mp hj with hj | hj
      · exact .inr ⟨rfl, j, hj, Y, hY, hv⟩
      · rw [List.mem_singleton.mp hj, hi] at hY
        rw [← Option.some.inj hY, hx] at hv
        cases hv

theorem Union.skip {i : ι} {M : View K L} (h : Union view is M) (hi : view i = none) :
    Union view (is ++ [i]) M := by
  intro k v
  rw [h]
  constructor
  · rintro ⟨j, hj, hrest⟩
    exact ⟨j, List.mem_append_left _ hj, hrest⟩
  · rintro ⟨j, hj, X, hX, hv⟩
    rcases List.mem_append.mp hj with hj | hj
    · exact ⟨j, hj, X, hX, hv⟩
    · rw [List.mem_singleton.mp hj, hi] at hX
      cases hX

theorem allKeys_mono {js : List ι} (h : is ⊆ js) : allKeys view is ⊆ allKeys view js :=
  fun _ ⟨i, hi, hrest⟩ => ⟨i, h hi, hrest⟩

/-- Agreeing views that fit together are all merged, to their union. -/
theorem absorbAll_of_agreeing (hagree : Agreeing view is) (hroom : (allKeys view is).encard ≤ cap) :
    Union view is (absorbAll rank cap view (empty, 0) is).1 ∧
      (absorbAll rank cap view (empty, 0) is).2 = is.countP fun i => (view i).isSome := by
  induction is using List.reverseRecOn with
  | nil => exact ⟨fun k v => by simp [absorbAll, empty], rfl⟩
  | append_singleton is i ih =>
    have hsub : is ⊆ is ++ [i] := List.subset_append_left _ _
    obtain ⟨hunion, hcount⟩ := ih (fun j hj k hk => hagree j (hsub hj) k (hsub hk))
      ((Set.encard_le_encard (allKeys_mono hsub)).trans hroom)
    rw [absorbAll_append, List.countP_append]
    cases hi : view i with
    | none =>
      rw [absorbAll_cons_none hi]
      exact ⟨hunion.skip hi, by simpa [hi] using hcount⟩
    | some X =>
      rw [absorbAll_cons_some hi]
      obtain ⟨habsorb, hunion'⟩ := @Union.absorb _ _ rank _ _ _ _ _ _ _ hunion hi hagree hroom
      rw [habsorb]
      exact ⟨hunion', by simpa [hi] using hcount⟩

/-! ## Order -/

/-- On the way to `V`, a part of `V` is never refused. -/
theorem absorb_part {X V : View K L} (hrises : Rises rank s.1 V)
    (hV : V.keys.encard ≤ cap) (hX : Part X V) : absorb rank cap s X = (X.overlay s.1, s.2 + 1) := by
  refine absorb_fits ⟨fun k m x hm hx => ?_, ?_⟩
  · obtain ⟨v, hv, hmv⟩ := hrises k m hm
    obtain rfl := Option.some.inj (hv.symm.trans (hX k x hx))
    exact hmv
  · exact (Set.encard_le_encard (Set.union_subset hrises.keys hX.keys)).trans hV

/-- The source has a view, and it is a part of `V`. -/
def Supplies (view : ι → Option (View K L)) (V : View K L) (i : ι) : Prop :=
  ∃ X, view i = some X ∧ Part X V

open Classical in
/-- So a run to `V` merges at least the parts of `V`. -/
theorem count_parts_le {V : View K L}
    (hV : V.keys.encard ≤ cap) (h : (absorbAll rank cap view s is).1 = V) :
    s.2 + is.countP (fun i => decide (Supplies view V i)) ≤ (absorbAll rank cap view s is).2 := by
  induction is generalizing s with
  | nil => exact le_rfl
  | cons i is ih =>
    have hrises : Rises rank s.1 V := h ▸ absorbAll_rises s (i :: is)
    cases hi : view i with
    | none =>
      have hno : ¬Supplies view V i := by
        rintro ⟨X, hX, -⟩
        rw [hi] at hX
        cases hX
      rw [absorbAll_cons_none hi] at h ⊢
      rw [List.countP_cons_of_neg (by simpa using hno)]
      exact ih h
    | some X =>
      rw [absorbAll_cons_some hi] at h ⊢
      have hrest := ih h
      by_cases hX : Part X V
      · rw [List.countP_cons_of_pos (by simpa using ⟨X, hi, hX⟩)]
        rw [absorb_part hrises hV hX] at hrest ⊢
        omega
      · have hno : ¬Supplies view V i := by
          rintro ⟨Y, hY, hpart⟩
          rw [hi] at hY
          exact hX (Option.some.inj hY ▸ hpart)
        rw [List.countP_cons_of_neg (by simpa using hno)]
        have hstep := (@absorb_count _ _ rank cap s X).1
        omega

/-- A run that ends in `V` with views that are no parts of `V` has merged none of them. -/
theorem count_of_no_parts {V : View K L}
    (h : (absorbAll rank cap view s is).1 = V) (his : ∀ i ∈ is, ¬Supplies view V i) :
    (absorbAll rank cap view s is).2 = s.2 := by
  induction is using List.reverseRecOn with
  | nil => rfl
  | append_singleton is i ih =>
    have hbefore : ∀ j ∈ is, ¬Supplies view V j := fun j hj => his j (by simp [hj])
    rw [absorbAll_append] at h ⊢
    cases hi : view i with
    | none =>
      rw [absorbAll_cons_none hi] at h ⊢
      exact ih h hbefore
    | some X =>
      rw [absorbAll_cons_some hi, absorbAll_nil] at h ⊢
      by_cases hfits : Fits rank cap (absorbAll rank cap view s is).1 X
      · rw [absorb_fits hfits] at h
        refine absurd ⟨X, hi, fun k x hx => ?_⟩ (his i (by simp))
        rw [← h]
        exact overlay_eq_some_iff.mpr (.inl hx)
      · rw [absorb_refused hfits] at h ⊢
        exact ih h hbefore

variable (hcap : ∀ i ∈ is, ∀ X, view i = some X → X.keys.encard ≤ cap)

include hcap

open Classical in
/-- Where every order gives the same result, every view is a part of it. -/
theorem part_of_orderFree (hfree : ∀ js, js.Perm is →
      absorbAll rank cap view (empty, 0) js = absorbAll rank cap view (empty, 0) is) :
    ∀ i ∈ is, ∀ X, view i = some X → Part X (absorbAll rank cap view (empty, 0) is).1 := by
  generalize hV : (absorbAll rank cap view (empty, 0) is).1 = V at hfree ⊢
  have hVcap : V.keys.encard ≤ cap := hV ▸ absorbAll_keys encard_empty_le is
  by_contra hnot
  push Not at hnot
  obtain ⟨i, hi, X, hX, hpart⟩ := hnot
  let isPart := fun j => decide (Supplies view V j)
  -- with the parts of `V` first, only they are merged
  have hfirst : (absorbAll rank cap view (empty, 0) is).2 ≤ is.countP isPart := by
    have hperm : (is.filter isPart ++ is.filter fun j => !isPart j).Perm is :=
      List.filter_append_perm isPart is
    have hsame := hfree _ hperm
    have hlast : absorbAll rank cap view (empty, 0) (is.filter isPart ++ is.filter fun j => !isPart j) =
        absorbAll rank cap view (absorbAll rank cap view (empty, 0) (is.filter isPart))
          (is.filter fun j => !isPart j) := absorbAll_append _ _ _
    have hnone := @count_of_no_parts _ _ rank cap _ view
      (absorbAll rank cap view (empty, 0) (is.filter isPart)) (is.filter fun j => !isPart j) V
      (by rw [← hlast, hsame, hV]) fun j hj => by simpa [isPart] using (List.mem_filter.mp hj).2
    rw [← hsame, hlast, hnone, List.countP_eq_length_filter]
    simpa using @absorbAll_count_le _ _ rank cap _ view (empty, 0) (is.filter isPart)
  -- with `i` first, its view is merged besides them
  have hsecond : 1 + is.countP isPart ≤ (absorbAll rank cap view (empty, 0) is).2 := by
    have hperm : (i :: is.erase i).Perm is := (List.perm_cons_erase hi).symm
    have hsame := hfree _ hperm
    have hstep : absorbAll rank cap view (empty, 0) (i :: is.erase i) =
        absorbAll rank cap view (X.overlay empty, 1) (is.erase i) := by
      rw [absorbAll_cons_some hX, absorb_fits (fits_empty (hcap i hi X hX))]
    have hrest := @count_parts_le _ _ rank cap _ view (X.overlay empty, 1) (is.erase i) V hVcap
      (by rw [← hstep, hsame, hV])
    have hno : ¬Supplies view V i := by
      rintro ⟨Y, hY, hY'⟩
      rw [hX] at hY
      exact hpart (Option.some.inj hY ▸ hY')
    rw [← hsame, hstep, ← hperm.countP_eq, List.countP_cons_of_neg (by simpa [isPart] using hno)]
    exact hrest
  omega

/-- Merging these views is independent of the order of their sources exactly when they agree
    on their common keys and fit together. -/
theorem absorbAll_orderFree_iff : (∀ js, js.Perm is →
      absorbAll rank cap view (empty, 0) js = absorbAll rank cap view (empty, 0) is) ↔
      Agreeing view is ∧ (allKeys view is).encard ≤ cap := by
  constructor
  · intro hfree
    have hpart := part_of_orderFree hcap hfree
    refine ⟨fun i hi j hj X Y hX hY k x y hx hy => ?_, ?_⟩
    · exact Option.some.inj ((hpart i hi X hX k x hx).symm.trans (hpart j hj Y hY k y hy))
    · refine (Set.encard_le_encard ?_).trans
        (@absorbAll_keys _ _ rank cap _ view (empty, 0) encard_empty_le is)
      rintro k ⟨i, hi, X, hX, hk⟩
      exact (hpart i hi X hX).keys hk
  · rintro ⟨hagree, hroom⟩ js hperm
    obtain ⟨hunion, hcount⟩ := @absorbAll_of_agreeing _ _ rank cap _ view is hagree hroom
    have hsub : js ⊆ is := hperm.subset
    obtain ⟨hunion', hcount'⟩ := @absorbAll_of_agreeing _ _ rank cap _ view js
      (fun i hi j hj => hagree i (hsub hi) j (hsub hj))
      ((Set.encard_le_encard (allKeys_mono hsub)).trans hroom)
    refine Prod.ext (hunion'.ext hunion fun i => hperm.mem_iff) ?_
    rw [hcount, hcount', hperm.countP_eq]

end

end View

end Veilmesh.Lib

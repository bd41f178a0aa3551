/-
  How long the JSON text of a value is.

  `Codec.Sized c v m n` says that `v` has a text, no shorter than `m` and no longer than `n`;
  `Codec.AtMost c v n` leaves the bound from below out. The bounds of a record are the sums of
  the bounds of its members and of their names:

  * `structCodec_sized`, `listCodec_sized_sum`: records and lists.
  * `marshal_sized`: the bounds on the level of texts.
-/
import Veilmesh.Lib.JsonCodec

namespace Veilmesh.Lib

open Json List Option

/-- `v` has a text of at least `m` and at most `n` bytes. -/
def Codec.Sized {α : Type} (c : Codec α) (v : α) (m n : Nat) : Prop :=
  ∃ j, c.encode v = some j ∧ m ≤ (render j).length ∧ (render j).length ≤ n

/-- `v` has a text of at most `n` bytes. -/
abbrev Codec.AtMost {α : Type} (c : Codec α) (v : α) (n : Nat) : Prop := c.Sized v 0 n

section Sized

variable {α : Type} {c : Codec α} {v : α} {m m' n n' : Nat}

theorem Codec.Sized.mono (h : c.Sized v m n) (hm : m' ≤ m) (hn : n ≤ n') : c.Sized v m' n' := by
  obtain ⟨j, hj, hl, hu⟩ := h
  exact ⟨j, hj, hm.trans hl, hu.trans hn⟩

theorem Codec.Sized.atMost (h : c.Sized v m n) (hn : n ≤ n') : c.AtMost v n' :=
  h.mono (Nat.zero_le m) hn

theorem marshal_sized (h : c.Sized v m n) :
    ∃ data, marshal c v = some data ∧ m ≤ data.length ∧ data.length ≤ n := by
  obtain ⟨j, hj, hl⟩ := h
  exact ⟨render j, by rw [marshal, hj, map_some], hl⟩

theorem marshal_atMost (h : c.AtMost v n) : ∃ data, marshal c v = some data ∧ data.length ≤ n := by
  obtain ⟨data, hdata, -, hl⟩ := marshal_sized h
  exact ⟨data, hdata, hl⟩

end Sized

/-! ## Basic types -/

theorem length_render_str (raw : Bytes) : (render (.str raw)).length = raw.length + 2 := by
  simp [render]

theorem stringCodec_sized {s : Bytes} (h : Plain s) :
    stringCodec.Sized s (s.length + 2) (s.length + 2) := by
  have hlength : (render (.str (escape s))).length = s.length + 2 := by
    rw [length_render_str, escape_of_plain h]
  exact ⟨_, rfl, hlength.ge, hlength.le⟩

theorem length_decText_le (n : Nat) : (decText n).length ≤ 20 := by
  have hlen : ((toDigits 10 20 n).dropWhile (· == 0)).length ≤ 20 := by
    refine (dropWhile_suffix _).length_le.trans ?_
    rw [length_toDigits]
  unfold decText
  dsimp only
  split
  · decide
  · rwa [length_map]

theorem uint8Codec_atMost (n : UInt8) : uint8Codec.AtMost n 20 :=
  ⟨_, rfl, Nat.zero_le _, length_decText_le _⟩

theorem uint16Codec_atMost (n : UInt16) : uint16Codec.AtMost n 20 :=
  ⟨_, rfl, Nat.zero_le _, length_decText_le _⟩

theorem uint64Codec_atMost (n : UInt64) : uint64Codec.AtMost n 20 :=
  ⟨_, rfl, Nat.zero_le _, length_decText_le _⟩

theorem int64Codec_atMost (n : Int64) : int64Codec.AtMost n 21 := by
  refine ⟨_, rfl, Nat.zero_le _, ?_⟩
  have := length_decText_le n.toInt.natAbs
  change (intText n.toInt).length ≤ 21
  unfold intText
  split
  · rw [length_cons]
    omega
  · omega

theorem boolCodec_atMost (b : Bool) : boolCodec.AtMost b 5 := by
  refine ⟨_, rfl, Nat.zero_le _, ?_⟩
  cases b <;> decide

/-- Base64 text, or `null`. -/
theorem bytesCodec_sized (bs : Bytes) :
    bytesCodec.Sized bs (4 * ((bs.length + 2) / 3) + 2) (4 * ((bs.length + 2) / 3) + 4) := by
  cases bs with
  | nil => exact ⟨_, rfl, by decide, by decide⟩
  | cons b bs =>
    refine ⟨_, rfl, ?_⟩
    rw [length_render_str, length_base64Encode_padded]
    omega

theorem length_decPad (k n : Nat) : (Time.decPad k n).length = k := by
  rw [Time.decPad, length_map, length_toDigits]

theorem length_fractionText_le (nanos : Nat) : (Time.fractionText nanos).length ≤ 10 := by
  unfold Time.fractionText
  split
  · decide
  · have := Time.length_trimZeros_le (toDigits 10 9 nanos)
    rw [length_toDigits] at this
    rw [length_cons, length_map]
    omega

theorem length_zoneText (off : Int) :
    1 ≤ (Time.zoneText off).length ∧ (Time.zoneText off).length ≤ 6 := by
  unfold Time.zoneText
  split
  · decide
  · simp [length_decPad]

variable {t : Time} {σ : Type} {s : σ} {fs : List (JsonField σ)} {m n : Nat}

theorem length_marshalText {b : Bytes} (h : t.marshalText = some b) :
    20 ≤ b.length ∧ b.length ≤ 35 := by
  have hfrac := length_fractionText_le (t.ns % second).toNat
  have hzone := length_zoneText t.off
  simp only [Time.marshalText] at h
  split at h
  · obtain rfl := Option.some.inj h
    simp only [Time.dateText, Time.clockText, length_append, length_cons, length_decPad]
    omega
  · cases h

theorem timeCodec_sized {b : Bytes} (h : t.marshalText = some b) : timeCodec.Sized t 22 37 := by
  refine ⟨.str b, by simp [timeCodec, h], ?_⟩
  rw [length_render_str]
  have := length_marshalText h
  omega

theorem timeCodec_sized_of_writes (h : timeCodec.Writes t) : timeCodec.Sized t 22 37 := by
  obtain ⟨text, htext⟩ := timeCodec_writes_iff.mp h
  exact timeCodec_sized htext

/-! ## Records and lists -/

/-- The members of a record, and the sums of their bounds. -/
inductive MembersSized {σ : Type} (s : σ) : List (JsonField σ) → Nat → Nat → Prop where
  | nil : MembersSized s [] 0 0
  | cons {f : JsonField σ} {fs : List (JsonField σ)} {m n ms ns : Nat}
      (hf : f.codec.Sized (f.get s) m n) (h : MembersSized s fs ms ns) :
      MembersSized s (f :: fs) (m + ms) (n + ns)

theorem MembersSized.length (h : MembersSized s fs m n) : ∃ ms, fs.mapM (encodeMember s) = some ms ∧
      (fs.map fun f => f.name.length + 4).sum + m + 1 ≤ (renderMembers ms).length ∧
      (renderMembers ms).length ≤ (fs.map fun f => f.name.length + 4).sum + n + 1 := by
  induction h with
  | nil => exact ⟨[], rfl, by simp [renderMembers]⟩
  | @cons f _ _ _ _ _ hf _ ih =>
    obtain ⟨j, hj, hl⟩ := hf
    obtain ⟨ms, hms, hlen⟩ := ih
    refine ⟨(f.name, j) :: ms, ?_, ?_⟩
    · rw [mapM_cons, encodeMember, hj, map_some]
      exact bind_eq_some_iff.mpr ⟨_, rfl, by rw [hms]; rfl⟩
    · simp only [renderMembers, length_cons, length_append, map_cons, sum_cons]
      omega

/-- A record is as long as its members together: `k` for the names and the marks around
    them, and the values. -/
theorem structCodec_sized {k lo hi : Nat} (hnames : (fs.map fun f => f.name.length + 4).sum = k)
    (h : MembersSized s fs m n) (hlo : lo ≤ k + m + 1) (hhi : k + n + 2 ≤ hi) :
    (structCodec fs).Sized s lo hi := by
  obtain ⟨ms, hms, hlen⟩ := h.length
  refine ⟨.obj ms, by simp only [structCodec, hms, map_some], ?_⟩
  -- an object starts with a brace where a further member has a comma
  cases ms with
  | nil =>
    have hempty : (render (.obj [])).length = 2 := rfl
    simp only [renderMembers, length_cons, length_nil] at hlen
    omega
  | cons m ms =>
    simp only [render, renderMembers, length_cons, length_append] at hlen ⊢
    omega

theorem structCodec_atMost {k hi : Nat} (hnames : (fs.map fun f => f.name.length + 4).sum = k)
    (h : MembersSized s fs m n) (hhi : k + n + 2 ≤ hi) : (structCodec fs).AtMost s hi :=
  structCodec_sized hnames h (Nat.zero_le _) hhi

theorem elems_sized {α : Type} {c : Codec α} {f g : α → Nat} {vs : List α}
    (h : ∀ v ∈ vs, c.Sized v (f v) (g v)) : ∃ js, vs.mapM c.encode = some js ∧
      (vs.map fun v => f v + 1).sum + 1 ≤ (renderElems js).length ∧
      (renderElems js).length ≤ (vs.map fun v => g v + 1).sum + 1 := by
  induction vs with
  | nil => exact ⟨[], rfl, by simp [renderElems]⟩
  | cons v vs ih =>
    obtain ⟨j, hj, hl⟩ := h v mem_cons_self
    obtain ⟨js, hjs, hlen⟩ := ih fun w hw => h w (mem_cons_of_mem _ hw)
    refine ⟨j :: js, ?_, ?_⟩
    · rw [mapM_cons, hj]
      exact bind_eq_some_iff.mpr ⟨_, rfl, by rw [hjs]; rfl⟩
    · simp only [renderElems, length_cons, length_append, map_cons, sum_cons]
      omega

/-- A list is as long as its elements together. -/
theorem listCodec_sized_sum {α : Type} {c : Codec α} {zero : α} {f g : α → Nat} {vs : List α}
    (h : ∀ v ∈ vs, c.Sized v (f v) (g v)) : (listCodec c zero).Sized vs
      ((vs.map fun v => f v + 1).sum + 1) ((vs.map fun v => g v + 1).sum + 4) := by
  cases vs with
  | nil => exact ⟨.null, rfl, (by decide : 0 + 1 ≤ (render .null).length),
      (by decide : (render .null).length ≤ 0 + 4)⟩
  | cons v vs =>
    obtain ⟨js, hjs, hlen⟩ := elems_sized h
    refine ⟨.arr js, by simp only [listCodec, hjs, map_some], ?_⟩
    cases js with
    | nil =>
      have hempty : (render (.arr [])).length = 2 := rfl
      simp only [renderElems, length_cons, length_nil] at hlen
      omega
    | cons j js =>
      simp only [render, renderElems, length_cons, length_append] at hlen ⊢
      omega

theorem listCodec_sized {α : Type} {c : Codec α} {zero : α} {vs : List α}
    (h : ∀ v ∈ vs, c.Sized v m n) :
    (listCodec c zero).Sized vs (vs.length * (m + 1) + 1) (vs.length * (n + 1) + 4) := by
  have hsum := @listCodec_sized_sum _ _ zero _ _ _ h
  simpa only [map_const', sum_replicate_nat] using hsum

end Veilmesh.Lib

/-
  Byte strings, fixed-width big-endian numbers and 64-bit wraparound.

  A string of the modelled language is its byte sequence, so `Bytes` serves for
  both. `toBE` and `fromBE` are the big-endian conversions of a byte order; `toDigits`
  and `ofDigits` are the same conversions in any radix, used by the text codecs.
-/
import Mathlib.Data.List.Induction
import Mathlib.Tactic.NormNum

namespace Veilmesh.Lib

open List Nat

/-- A byte string. Text is its UTF-8 bytes. -/
abbrev Bytes := List UInt8

instance : LawfulBEq Bytes := inferInstance

/-- The bytes of a source string literal. -/
def lit (s : String) : Bytes := s.toByteArray.data.toList

/-! ## Digits in a radix, most significant first -/

/-- The number written by `ds` in radix `b`. -/
def ofDigits (b : Nat) (ds : List Nat) : Nat := ds.foldl (fun acc d => acc * b + d) 0

/-- The low `k` digits of `n` in radix `b`. -/
def toDigits (b : Nat) : Nat → Nat → List Nat
  | 0, _ => []
  | k + 1, n => toDigits b k (n / b) ++ [n % b]

theorem length_toDigits (b k n : Nat) : (toDigits b k n).length = k := by
  induction k generalizing n with
  | zero => rfl
  | succ k ih => simp [toDigits, ih]

theorem ofDigits_append_singleton (b : Nat) (ds : List Nat) (d : Nat) :
    ofDigits b (ds ++ [d]) = ofDigits b ds * b + d := by
  simp [ofDigits, foldl_append]

theorem ofDigits_toDigits (b k n : Nat) : ofDigits b (toDigits b k n) = n % b ^ k := by
  induction k generalizing n with
  | zero => simp [toDigits, ofDigits, mod_one]
  | succ k ih =>
    rw [toDigits, ofDigits_append_singleton, ih, pow_succ', mod_mul, mul_comm]
    omega

theorem ofDigits_lt (b : Nat) (ds : List Nat) (h : ∀ d ∈ ds, d < b) :
    ofDigits b ds < b ^ ds.length := by
  induction ds using reverseRecOn with
  | nil => simp [ofDigits]
  | append_singleton ds d ih =>
    have hd : d < b := h d (by simp)
    have hds : ofDigits b ds + 1 ≤ b ^ ds.length := ih fun x hx => h x (by simp [hx])
    rw [ofDigits_append_singleton, length_append, length_singleton, pow_succ]
    have hm : (ofDigits b ds + 1) * b ≤ b ^ ds.length * b := mul_le_mul_right b hds
    rw [add_mul, one_mul] at hm
    omega

theorem toDigits_ofDigits (b : Nat) (ds : List Nat) (h : ∀ d ∈ ds, d < b) :
    toDigits b ds.length (ofDigits b ds) = ds := by
  induction ds using reverseRecOn with
  | nil => rfl
  | append_singleton ds d ih =>
    have hd : d < b := h d (by simp)
    have hb : 0 < b := by omega
    rw [length_append, length_singleton, toDigits, ofDigits_append_singleton,
      mul_comm, mul_add_div hb, div_eq_of_lt hd, add_zero,
      ih fun x hx => h x (by simp [hx]), mul_add_mod, mod_eq_of_lt hd]

theorem toDigits_lt (b k n : Nat) (hb : 0 < b) : ∀ d ∈ toDigits b k n, d < b := by
  induction k generalizing n with
  | zero => simp [toDigits]
  | succ k ih =>
    intro d hd
    rw [toDigits, mem_append, mem_singleton] at hd
    rcases hd with hd | rfl
    · exact ih _ d hd
    · exact mod_lt _ hb

/-! ## Big-endian bytes -/

/-- `n` as `k` big-endian bytes (`n` modulo `256 ^ k`). -/
def toBE (k n : Nat) : Bytes := (toDigits 256 k n).map UInt8.ofNat

/-- The number a big-endian byte string denotes. -/
def fromBE (bs : Bytes) : Nat := ofDigits 256 (bs.map UInt8.toNat)

@[simp] theorem length_toBE (k n : Nat) : (toBE k n).length = k := by
  simp [toBE, length_toDigits]

theorem map_toNat_toBE (k n : Nat) : (toBE k n).map UInt8.toNat = toDigits 256 k n := by
  unfold toBE
  rw [map_map]
  conv => rhs; rw [← map_id (toDigits 256 k n)]
  apply map_congr_left
  intro d hd
  have := toDigits_lt 256 k n (by decide) d hd
  simp only [Function.comp, UInt8.toNat_ofNat', id]
  omega

theorem fromBE_toBE (k n : Nat) : fromBE (toBE k n) = n % 256 ^ k := by
  rw [fromBE, map_toNat_toBE, ofDigits_toDigits]

theorem toBE_fromBE (bs : Bytes) : toBE bs.length (fromBE bs) = bs := by
  have hlt : ∀ d ∈ bs.map UInt8.toNat, d < 256 := by
    intro d hd
    obtain ⟨x, _, rfl⟩ := mem_map.mp hd
    exact x.toNat_lt
  have h := toDigits_ofDigits 256 (bs.map UInt8.toNat) hlt
  rw [length_map] at h
  rw [toBE, fromBE, h, map_map]
  simp [Function.comp_def]

theorem fromBE_lt (bs : Bytes) : fromBE bs < 256 ^ bs.length := by
  have h := ofDigits_lt 256 (bs.map UInt8.toNat) (by
    intro d hd
    obtain ⟨x, _, rfl⟩ := mem_map.mp hd
    exact x.toNat_lt)
  simpa [fromBE] using h

/-- Numbers below `256 ^ k` are told apart by their `k` big-endian bytes. -/
theorem toBE_inj {k m n : Nat} (hm : m < 256 ^ k) (hn : n < 256 ^ k)
    (h : toBE k m = toBE k n) : m = n := by
  have h' := congrArg fromBE h
  rwa [fromBE_toBE, fromBE_toBE, mod_eq_of_lt hm, mod_eq_of_lt hn] at h'

/-! ## Signed 64-bit numbers -/

/-- Two's complement wraparound of a signed 64-bit result. -/
def wrap64 (x : Int) : Int := Int.bmod x (2 ^ 64)

/-- The largest signed 64-bit number. -/
def maxInt64 : Int := 2 ^ 63 - 1

theorem wrap64_of_range {x : Int} (h1 : -2 ^ 63 ≤ x) (h2 : x ≤ maxInt64) : wrap64 x = x := by
  unfold wrap64
  unfold maxInt64 at h2
  apply Int.bmod_eq_of_le <;> norm_num <;> omega

/-- The eight big-endian bytes of a signed 64-bit number. -/
def int64BE (x : Int) : Bytes := toBE 8 (x % 2 ^ 64).toNat

@[simp] theorem length_int64BE (x : Int) : (int64BE x).length = 8 := by simp [int64BE]

theorem int64BE_inj {x y : Int} (hx1 : -2 ^ 63 ≤ x) (hx2 : x ≤ maxInt64) (hy1 : -2 ^ 63 ≤ y)
    (hy2 : y ≤ maxInt64) (h : int64BE x = int64BE y) : x = y := by
  unfold maxInt64 at hx2 hy2
  have hlt : ∀ z : Int, (z % 2 ^ 64).toNat < 256 ^ 8 := by
    intro z
    have h0 : (0 : Int) ≤ z % 2 ^ 64 := Int.emod_nonneg _ (by norm_num)
    have h1 : z % 2 ^ 64 < 2 ^ 64 := Int.emod_lt_of_pos _ (by norm_num)
    norm_num at h0 h1 ⊢
    omega
  have h' := toBE_inj (hlt x) (hlt y) h
  norm_num at h' hx1 hx2 hy1 hy2
  omega

end Veilmesh.Lib

/-
  Proof of work (`protocol/pow.go`): what is solved verifies, and what verifies is work.

  A digest is a number in big-endian bytes, and its leading zero bits are those above the size
  of that number. `HasLeadingZeroBits` goes through the digest byte by byte.

  * `hasLeadingZeroBits_iff`, `hasLeadingZeroBits_spec`: the loop counts these bits.
  * `verifyWork_iff`: what is accepted.
  * `solveWork_verifies`: a proof is accepted within one epoch of the time it was made at.
  * `solveWork_first`: the search goes through the nonces in order.
-/
import Mathlib.Data.Nat.Size
import Veilmesh.Protocol.Canonical

namespace Veilmesh.Protocol

open Lib

/-! ## Leading zero bits -/

/-- The zero bits in front of a byte string, read as a big-endian number. -/
def leadingZeroBits (sum : Bytes) : Nat := 8 * sum.length - (fromBE sum).size

theorem fromBE_append_singleton (sum : Bytes) (b : UInt8) :
    fromBE (sum ++ [b]) = fromBE sum * 256 + b.toNat := by
  rw [fromBE, List.map_append, List.map_singleton, ofDigits_append_singleton, fromBE]

theorem fromBE_cons (b : UInt8) (sum : Bytes) :
    fromBE (b :: sum) = b.toNat * 2 ^ (8 * sum.length) + fromBE sum := by
  induction sum using List.reverseRecOn with
  | nil => simp [fromBE, ofDigits]
  | append_singleton sum last ih =>
    rw [← List.cons_append, fromBE_append_singleton, ih, fromBE_append_singleton,
      List.length_append, List.length_singleton, Nat.mul_add, Nat.pow_add, Nat.add_mul, Nat.mul_assoc,
      Nat.add_assoc]

theorem fromBE_lt_two_pow (sum : Bytes) : fromBE sum < 2 ^ (8 * sum.length) := by
  rw [Nat.pow_mul]
  exact fromBE_lt sum

/-- As many bits are zero as the number leaves unused. -/
theorem le_leadingZeroBits_iff {sum : Bytes} {d : Nat} :
    d ≤ leadingZeroBits sum ↔ d ≤ 8 * sum.length ∧ fromBE sum < 2 ^ (8 * sum.length - d) := by
  have hsize : (fromBE sum).size ≤ 8 * sum.length := Nat.size_le.mpr (fromBE_lt_two_pow sum)
  rw [← Nat.size_le, leadingZeroBits]
  omega

/-- The first byte decides about fewer than eight bits. -/
theorem fromBE_cons_lt_iff (b : UInt8) (sum : Bytes) (k : Nat) :
    fromBE (b :: sum) < 2 ^ (k + 8 * sum.length) ↔ b.toNat < 2 ^ k := by
  have hrest := fromBE_lt_two_pow sum
  rw [fromBE_cons, Nat.pow_add]
  constructor
  · intro h
    by_contra hge
    have hmul := Nat.mul_le_mul_right (2 ^ (8 * sum.length)) (not_lt.mp hge)
    omega
  · intro h
    have hmul := Nat.mul_le_mul_right (2 ^ (8 * sum.length)) (Nat.succ_le_of_lt h)
    rw [Nat.succ_mul] at hmul
    omega

theorem hasLeadingZeroBits_iff (sum : Bytes) : ∀ difficulty : UInt8,
    hasLeadingZeroBits sum difficulty = true ↔ difficulty.toNat ≤ leadingZeroBits sum := by
  induction sum with
  | nil =>
    intro d
    rw [hasLeadingZeroBits, beq_iff_eq, leadingZeroBits, List.length_nil, Nat.mul_zero, Nat.zero_sub,
      Nat.le_zero, ← UInt8.toNat_inj]
    rfl
  | cons b sum ih =>
    intro d
    have hd : d.toNat < 256 := d.toNat_lt
    rw [hasLeadingZeroBits, le_leadingZeroBits_iff, List.length_cons]
    by_cases hbyte : 8 ≤ d
    · have h8 : 8 ≤ d.toNat := hbyte
      have hsub : (d - 8).toNat = d.toNat - 8 := UInt8.toNat_sub_of_le d 8 hbyte
      have hbits : 8 * (sum.length + 1) - d.toNat = 8 * sum.length - (d.toNat - 8) := by omega
      rw [if_pos hbyte, hbits]
      by_cases hb : b = 0
      · subst hb
        rw [if_neg (fun h => h rfl), ih, le_leadingZeroBits_iff, hsub, fromBE_cons]
        simp only [UInt8.toNat_zero, Nat.zero_mul, Nat.zero_add]
        exact and_congr_left fun _ => by omega
      · -- a byte that is not zero is at least the number after eight zero bits
        rw [if_pos hb]
        refine iff_of_false Bool.false_ne_true ?_
        rintro ⟨-, hlt⟩
        have hpos : b.toNat ≠ 0 := fun h => hb (UInt8.toNat_inj.mp h)
        have hlarge : fromBE (b :: sum) < 2 ^ (0 + 8 * sum.length) :=
          lt_of_lt_of_le hlt (Nat.pow_le_pow_right (by decide) (by omega))
        rw [fromBE_cons_lt_iff] at hlarge
        omega
    · have h8 : d.toNat < 8 := not_le.mp hbyte
      rw [if_neg hbyte]
      by_cases hzero : d = 0
      · subst hzero
        rw [if_pos rfl]
        refine iff_of_true rfl ⟨Nat.zero_le _, ?_⟩
        exact fromBE_lt_two_pow (b :: sum)
      · have hbits : 8 * (sum.length + 1) - d.toNat = (8 - d.toNat) + 8 * sum.length := by omega
        have hshift : (8 - d).toNat = 8 - d.toNat :=
          UInt8.toNat_sub_of_le 8 d (UInt8.le_iff_toNat_le.mpr h8.le)
        have hpos : d.toNat ≠ 0 := fun h => hzero (UInt8.toNat_inj.mp h)
        rw [if_neg hzero, hbits, fromBE_cons_lt_iff, and_iff_right (by omega), beq_iff_eq,
          ← UInt8.toNat_inj, UInt8.toNat_shiftRight, hshift, Nat.mod_eq_of_lt (by omega),
          Nat.shiftRight_eq_div_pow, UInt8.toNat_zero, Nat.div_eq_zero_iff]
        have htwo : 2 ^ (8 - d.toNat) ≠ 0 := by positivity
        exact or_iff_right htwo

/-- `HasLeadingZeroBits` says whether the number that a byte string stands for is small enough;
    with a higher difficulty it says yes less often. -/
theorem hasLeadingZeroBits_spec (sum : Bytes) (difficulty : UInt8) :
    (hasLeadingZeroBits sum difficulty = true ↔
      difficulty.toNat ≤ 8 * sum.length ∧
        fromBE sum < 2 ^ (8 * sum.length - difficulty.toNat)) ∧
    ∀ lower ≤ difficulty, hasLeadingZeroBits sum difficulty = true →
      hasLeadingZeroBits sum lower = true := by
  refine ⟨(hasLeadingZeroBits_iff sum difficulty).trans le_leadingZeroBits_iff,
    fun lower hle h => ?_⟩
  rw [hasLeadingZeroBits_iff] at h ⊢
  exact (UInt8.le_iff_toNat_le.mp hle).trans h

/-! ## Verifying -/

/-- What is accepted: enough leading zero bits for a difficulty that is enough, and an epoch
    next to the current one. -/
theorem verifyWork_iff {item : StoredItem} {now : Time} {epochSeconds : Int} {minimum : UInt8} :
    verifyWork item now epochSeconds minimum = true ↔
      (minWorkEpochSeconds ≤ epochSeconds ∧ epochSeconds ≤ maxWorkEpochSeconds) ∧
      (minimum ≤ item.work.difficulty ∧ item.work.difficulty ≤ maxWorkDifficulty) ∧
      |item.work.epoch.toInt - now.unix.tdiv epochSeconds| ≤ 1 ∧
      item.work.difficulty.toNat ≤ leadingZeroBits (workDigest item item.work) := by
  rw [← hasLeadingZeroBits_iff, abs_le]
  unfold verifyWork
  dsimp only
  split
  · rename_i hbad
    refine iff_of_false Bool.false_ne_true ?_
    rintro ⟨⟨h1, h2⟩, ⟨h3, h4⟩, -⟩
    rw [UInt8.le_iff_toNat_le] at h3 h4
    simp only [UInt8.lt_iff_toNat_lt] at hbad
    omega
  · rename_i hgood
    simp only [not_or, Int.not_lt, UInt8.not_lt] at hgood
    obtain ⟨h1, h2, -, h4, h5⟩ := hgood
    rw [and_iff_right ⟨h1, h2⟩, and_iff_right ⟨h5, h4⟩]
    split
    · rename_i hepoch
      exact iff_of_false Bool.false_ne_true fun h => by omega
    · rename_i hepoch
      exact (and_iff_right (by omega)).symm

/-- Times within one epoch of each other are in the same epoch or in neighbouring ones. -/
theorem epochs_close {t t' seconds : Int} (hpos : 0 < seconds) (ht : 0 ≤ t) (ht' : 0 ≤ t')
    (h : |t' - t| ≤ seconds) : |t.tdiv seconds - t'.tdiv seconds| ≤ 1 := by
  rw [abs_le] at h ⊢
  rw [Int.tdiv_eq_ediv_of_nonneg ht, Int.tdiv_eq_ediv_of_nonneg ht']
  have hle : t / seconds ≤ (t' + seconds) / seconds := Int.ediv_le_ediv hpos (by omega)
  have hle' : t' / seconds ≤ (t + seconds) / seconds := Int.ediv_le_ediv hpos (by omega)
  rw [Int.add_ediv_of_dvd_right (dvd_refl seconds), Int.ediv_self (by omega)] at hle hle'
  omega

/-- A proof that was found at time `clock` verifies at every time within one epoch of it, for
    every difficulty up to its own. And whatever verifies has the leading zero bits that are asked
    for and an epoch next to the current one. -/
theorem solveWork_verifies (item : StoredItem) (epochSeconds : Int64) (difficulty : UInt8)
    (hlo : minWorkEpochSeconds ≤ epochSeconds.toInt) (hhi : epochSeconds.toInt ≤ maxWorkEpochSeconds)
    (hdifficulty : difficulty ≤ maxWorkDifficulty) :
    (∀ (clock : Time) (done : Nat → Option Bytes) (fuel : Nat) (proof : WorkProof),
      0 ≤ clock.unix → clock.unix ≤ maxInt64 →
      solveWork item epochSeconds difficulty clock done fuel = some (.ok proof) →
      ∀ (now : Time) (minimum : UInt8), 0 ≤ now.unix →
        |now.unix - clock.unix| ≤ epochSeconds.toInt → minimum ≤ difficulty →
        verifyWork { item with work := proof } now epochSeconds.toInt minimum = true) ∧
    ∀ (item : StoredItem) (now : Time) (minimum : UInt8),
      verifyWork item now epochSeconds.toInt minimum = true →
        minimum.toNat ≤ leadingZeroBits (workDigest item item.work) ∧
        |item.work.epoch.toInt - now.unix.tdiv epochSeconds.toInt| ≤ 1 := by
  refine ⟨fun clock done fuel proof hclock hmax hsolved now minimum hnow hclose hminimum => ?_,
    fun item now minimum hverified => ?_⟩
  · obtain ⟨hepoch, rfl, hzero⟩ := solveWork_ok hsolved
    have hpos : 0 < epochSeconds.toInt := lt_of_lt_of_le (by decide) hlo
    have hrange : (Int64.ofInt (clock.unix.tdiv epochSeconds.toInt)).toInt =
        clock.unix.tdiv epochSeconds.toInt := by
      have hquotient := Int.ediv_le_self epochSeconds.toInt hclock
      have hnonneg := Int.ediv_nonneg hclock hpos.le
      unfold maxInt64 at hmax
      rw [Int.tdiv_eq_ediv_of_nonneg hclock, Int64.toInt_ofInt]
      exact Int.bmod_eq_of_le (by norm_num; omega) (by norm_num; omega)
    refine verifyWork_iff.mpr ⟨⟨hlo, hhi⟩, ⟨hminimum, hdifficulty⟩, ?_, ?_⟩
    · rw [hepoch, hrange]
      exact epochs_close hpos hclock hnow hclose
    · exact (hasLeadingZeroBits_iff _ _).mp hzero
  · obtain ⟨-, ⟨hminimum, -⟩, hepoch, hzero⟩ := verifyWork_iff.mp hverified
    exact ⟨le_trans hminimum hzero, hepoch⟩

/-- Work of three bits, made at the epoch with the second nonce and looked at an hour later. -/
theorem solveWork_verifies_hour :
    solveWork StoredItem.zero 3600 3 Time.epoch (fun _ => none) 2 = some (.ok ⟨0, 1, 3⟩) ∧
      verifyWork { StoredItem.zero with work := ⟨0, 1, 3⟩ } (Time.epoch.add (3600 * second)) 3600 2 =
        true := by
  have hfirst : hasLeadingZeroBits (workDigest StoredItem.zero ⟨0, 0, 3⟩) 3 = false := by
    simp only [workDigest, Sha256.sha256_eq_sha256Nat]
    decide +kernel
  have hsecond : hasLeadingZeroBits (workDigest StoredItem.zero ⟨0, 1, 3⟩) 3 = true := by
    simp only [workDigest, Sha256.sha256_eq_sha256Nat]
    decide +kernel
  have hsolved : solveWork StoredItem.zero 3600 3 Time.epoch (fun _ => none) 2 =
      some (.ok ⟨0, 1, 3⟩) := by
    have hepoch : Int64.ofInt (Time.epoch.unix.tdiv (3600 : Int64).toInt) = 0 := by decide
    unfold solveWork
    rw [if_neg (by decide), hepoch]
    simp only [searchWork, hfirst, show (0 : UInt64) + 1 = 1 from rfl, hsecond]
    decide
  exact ⟨hsolved, (solveWork_verifies StoredItem.zero 3600 3 (by decide) (by decide) (by decide)).1
    Time.epoch _ _ _ (by decide) (by decide) hsolved _ 2 (by decide) (by decide) (by decide)⟩

/-! ## Searching -/

/-- The proofs that are tried, in their order. -/
def tried (epoch : Int64) (difficulty : UInt8) (n fuel : Nat) : List WorkProof :=
  (List.range' n fuel).map fun n => ⟨epoch, .ofNat n, difficulty⟩

theorem searchWork_find (item : StoredItem) (epoch : Int64) (difficulty : UInt8) (fuel k n : Nat) :
    searchWork item (fun _ => none) fuel k ⟨epoch, .ofNat n, difficulty⟩ =
      ((tried epoch difficulty n fuel).find? fun proof =>
        hasLeadingZeroBits (workDigest item proof) proof.difficulty).map .ok := by
  induction fuel generalizing k n with
  | zero => rfl
  | succ fuel ih =>
    have hnext : UInt64.ofNat n + 1 = .ofNat (n + 1) := (UInt64.ofNat_add n 1).symm
    rw [tried, List.range'_succ, List.map_cons, ← tried, List.find?_cons]
    simp only [searchWork, ite_self, hnext, ih]
    cases hasLeadingZeroBits _ difficulty <;> rfl

/-- A search that is not cancelled finds the first nonce that will do. -/
theorem solveWork_first (item : StoredItem) (epochSeconds : Int64) (difficulty : UInt8)
    (clock : Time) (fuel : Nat) :
    solveWork item epochSeconds difficulty clock (fun _ => none) fuel =
      if epochSeconds.toInt < minWorkEpochSeconds ∨ maxWorkEpochSeconds < epochSeconds.toInt ∨
          maxWorkDifficulty < difficulty then some (.error .invalid)
      else ((tried (Int64.ofInt (clock.unix.tdiv epochSeconds.toInt)) difficulty 0 fuel).find?
        fun proof => hasLeadingZeroBits (workDigest item proof) proof.difficulty).map .ok := by
  rw [← searchWork_find item _ _ _ 0]
  rfl

end Veilmesh.Protocol

/-
  What escaping keeps of a string.

  The encoder reads a string in units: an ASCII character, a UTF-8 character, or a byte that
  belongs to no character, a stray. Every unit has a code, all strays the same one, and the
  first two bytes of a code tell its length. So a text determines the string up to its strays.

  * `Code`, `escapeFuel_succ`: the codes an encoder writes.
  * `Code.unitOf`: what a code says about its unit.
  * `escape_inj`: strings written alike that have the same strays are equal.
-/
import Veilmesh.Lib.Json

namespace Veilmesh.Lib.Json

open List Nat

/-! ## Units -/

/-- The number of bytes read at once. -/
def unitWidth (s : Bytes) : Nat := (utf8Width s).getD 1

/-- Whether a text starts with a byte that belongs to no character. -/
def isStray (s : Bytes) : Bool := (utf8Width s).isNone

/-- `strays` with a bound on the units read. -/
def straysFuel : Nat → Bytes → Bytes
  | 0, _ => []
  | _ + 1, [] => []
  | fuel + 1, c :: s =>
    (if isStray (c :: s) then [c] else []) ++
      straysFuel fuel ((c :: s).drop (unitWidth (c :: s)))

/-- The bytes that belong to no character, in order. -/
def strays (s : Bytes) : Bytes := straysFuel s.length s

variable {c : UInt8} {s : Bytes} {fuel : Nat}

theorem utf8Width_ascii (h : c < 0x80) : utf8Width (c :: s) = some 1 := by
  rw [utf8Width.eq_def]
  exact if_pos h

theorem unitWidth_ascii (h : c < 0x80) : unitWidth (c :: s) = 1 ∧ isStray (c :: s) = false := by
  rw [unitWidth, isStray, utf8Width_ascii h]
  exact ⟨rfl, rfl⟩

theorem unitWidth_stray (h : isStray s = true) : unitWidth s = 1 := by
  rw [unitWidth, Option.isNone_iff_eq_none.mp h]
  rfl

theorem unitWidth_high (hc : ¬ c < 0x80) (h : isStray (c :: s) = false) :
    unitWidth (c :: s) = leadWidth c ∧ leadWidth c ≤ (c :: s).length := by
  cases hw : utf8Width (c :: s) with
  | none => simp [isStray, hw] at h
  | some w =>
    obtain ⟨rfl, hle, -⟩ := utf8Width_high hc hw
    rw [unitWidth, hw]
    exact ⟨rfl, hle⟩

theorem two_le_leadWidth (c : UInt8) : 2 ≤ leadWidth c := by
  unfold leadWidth
  split
  · exact le_rfl
  · split <;> decide

theorem unitWidth_pos (c : UInt8) (s : Bytes) : 0 < unitWidth (c :: s) := by
  by_cases hc : c < 0x80
  · rw [(unitWidth_ascii hc).1]
    exact one_pos
  · cases h : isStray (c :: s) with
    | true => rw [unitWidth_stray h]; exact one_pos
    | false =>
      rw [(unitWidth_high hc h).1]
      exact lt_of_lt_of_le two_pos (two_le_leadWidth c)

/-! ## Codes -/

/-- What an encoder writes for the first unit of a text. -/
inductive Code (c : UInt8) (s : Bytes) : Bytes → Prop
  | stray : isStray (c :: s) = true → Code c s (lit "\\ufffd")
  | copied : c < 0x80 → c ≠ 92 → Code c s [c]
  | escaped : c < 0x80 → Code c s (escapeByte c)
  | line : isStray (c :: s) = false →
    (c :: s).take (unitWidth (c :: s)) = [0xE2, 0x80, 0xA8] → Code c s (lit "\\u2028")
  | paragraph : isStray (c :: s) = false →
    (c :: s).take (unitWidth (c :: s)) = [0xE2, 0x80, 0xA9] → Code c s (lit "\\u2029")
  | character : ¬ c < 0x80 → isStray (c :: s) = false →
    Code c s ((c :: s).take (unitWidth (c :: s)))

theorem escapeFuel_succ (fuel : Nat) (c : UInt8) (s : Bytes) :
    ∃ code, Code c s code ∧ escapeFuel (fuel + 1) (c :: s) =
      code ++ escapeFuel fuel ((c :: s).drop (unitWidth (c :: s))) := by
  rw [escapeFuel]
  split
  · rename_i hplain
    obtain ⟨-, hc, -, hne⟩ := plainByte_spec hplain
    exact ⟨[c], .copied hc hne, by rw [(unitWidth_ascii hc).1]; rfl⟩
  · split
    · rename_i hc
      exact ⟨_, .escaped hc, by rw [(unitWidth_ascii hc).1]; rfl⟩
    · rename_i hc
      split
      · rename_i hw
        have hstray : isStray (c :: s) = true := by rw [isStray, hw]; rfl
        exact ⟨_, .stray hstray, by rw [unitWidth_stray hstray]; rfl⟩
      · rename_i w hw
        have hstray : isStray (c :: s) = false := by rw [isStray, hw]; rfl
        have hwidth : unitWidth (c :: s) = w := by rw [unitWidth, hw]; rfl
        rw [← hwidth]
        dsimp only
        split
        · exact ⟨_, .line hstray (by assumption), rfl⟩
        · split
          · exact ⟨_, .paragraph hstray (by assumption), rfl⟩
          · exact ⟨_, .character hc hstray, rfl⟩

/-- The length of the code at the start of a text. -/
def codeLength : Bytes → Nat
  | a :: b :: _ =>
    if a = 92 then (if b = 117 then 6 else 2) else if a < 0x80 then 1 else leadWidth a
  | s => s.length

/-- The unit a code stands for, nothing for the code of the strays. -/
def unitOf (code : Bytes) : Option Bytes :=
  if code = lit "\\ufffd" then none
  else if code.head? = some 92 then some (unquote code)
  else some code

theorem escapeByte_spec (h : c < 0x80) :
    unitOf (escapeByte c) = some [c] ∧ codeLength (escapeByte c) = (escapeByte c).length ∧
      2 ≤ (escapeByte c).length := by
  have hall : ∀ n < 128, unitOf (escapeByte (UInt8.ofNat n)) = some [UInt8.ofNat n] ∧
      codeLength (escapeByte (UInt8.ofNat n)) = (escapeByte (UInt8.ofNat n)).length ∧
      2 ≤ (escapeByte (UInt8.ofNat n)).length := by decide +kernel
  have hc := hall c.toNat (UInt8.lt_iff_toNat_lt.mp h)
  rwa [UInt8.ofNat_toNat] at hc

theorem codeLength_append {code : Bytes} (h : 2 ≤ code.length) (rest : Bytes) :
    codeLength (code ++ rest) = codeLength code := by
  match code, h with
  | a :: b :: code, _ => rfl

theorem unitOf_other (h : c ≠ 92) : unitOf (c :: s) = some (c :: s) := by
  have hnot : c :: s ≠ lit "\\ufffd" := fun heq => h (cons.inj heq).1
  rw [unitOf, if_neg hnot, head?_cons, if_neg (fun heq => h (Option.some.inj heq))]

section code

variable {c : UInt8} {s code : Bytes}

theorem take_unitWidth_high (hc : ¬ c < 0x80) (h : isStray (c :: s) = false) :
    ∃ d rest, (c :: s).take (unitWidth (c :: s)) = c :: d :: rest ∧
      ((c :: s).take (unitWidth (c :: s))).length = leadWidth c := by
  obtain ⟨hwidth, hle⟩ := unitWidth_high hc h
  obtain ⟨k, hk⟩ := Nat.exists_eq_add_of_le (two_le_leadWidth c)
  have hlength : ((c :: s).take (unitWidth (c :: s))).length = leadWidth c := by
    rw [hwidth, length_take, min_eq_left hle]
  rw [hlength, hwidth, hk]
  match s, hle with
  | [], hle =>
    rw [hk, length_singleton] at hle
    omega
  | d :: s, _ => exact ⟨d, s.take k, by rw [add_comm]; rfl, rfl⟩

theorem ne_backslash_of_high (hc : ¬ c < 0x80) : c ≠ 92 := by
  rintro rfl
  exact hc (by decide)

/-- The first two bytes tell where a code ends. -/
theorem Code.length (h : Code c s code) (rest : Bytes) :
    codeLength (code ++ rest) = code.length ∧ 0 < code.length := by
  cases h with
  | stray => exact ⟨rfl, by decide⟩
  | copied hc hne =>
    cases rest with
    | nil => exact ⟨rfl, one_pos⟩
    | cons d rest => exact ⟨by simp [codeLength, hne, hc], one_pos⟩
  | escaped hc =>
    obtain ⟨-, hlength, htwo⟩ := escapeByte_spec hc
    exact ⟨(codeLength_append htwo rest).trans hlength, by omega⟩
  | line => exact ⟨rfl, by decide⟩
  | paragraph => exact ⟨rfl, by decide⟩
  | character hc hstray =>
    obtain ⟨d, tail, htake, hlength⟩ := take_unitWidth_high hc hstray
    rw [htake] at hlength ⊢
    refine ⟨?_, succ_pos _⟩
    rw [hlength, cons_append, cons_append, codeLength, if_neg (ne_backslash_of_high hc), if_neg hc]

/-- A code determines its unit, or it is the code of the strays. -/
theorem Code.unitOf (h : Code c s code) : unitOf code =
    if isStray (c :: s) then none else some ((c :: s).take (unitWidth (c :: s))) := by
  cases h with
  | stray hstray =>
    rw [if_pos hstray]
    decide +kernel
  | copied hc hne =>
    rw [unitOf_other hne, (unitWidth_ascii hc).2, (unitWidth_ascii hc).1]
    rfl
  | escaped hc =>
    rw [(escapeByte_spec hc).1, (unitWidth_ascii hc).2, (unitWidth_ascii hc).1]
    rfl
  | line hstray htake =>
    rw [hstray, htake]
    decide +kernel
  | paragraph hstray htake =>
    rw [hstray, htake]
    decide +kernel
  | character hc hstray =>
    obtain ⟨d, tail, htake, -⟩ := take_unitWidth_high hc hstray
    rw [hstray, htake, unitOf_other (ne_backslash_of_high hc)]
    rfl

end code

/-! ## Texts -/

theorem escapeFuel_eq_nil (hs : s.length ≤ fuel) (h : escapeFuel fuel s = []) : s = [] := by
  match fuel, s, hs with
  | _, [], _ => rfl
  | fuel + 1, c :: s, _ =>
    obtain ⟨code, hcode, heq⟩ := escapeFuel_succ fuel c s
    rw [heq, append_eq_nil_iff] at h
    have hpos := (hcode.length []).2
    rw [h.1] at hpos
    cases hpos

theorem straysFuel_succ (fuel : Nat) (c : UInt8) (s : Bytes) : straysFuel (fuel + 1) (c :: s) =
    (if isStray (c :: s) then [c] else []) ++
      straysFuel fuel ((c :: s).drop (unitWidth (c :: s))) := rfl

theorem length_drop_unitWidth (h : (c :: s).length ≤ fuel + 1) :
    ((c :: s).drop (unitWidth (c :: s))).length ≤ fuel := by
  have hpos := unitWidth_pos c s
  rw [length_drop]
  omega

theorem escapeFuel_inj {fuel' : Nat} {t : Bytes} (hs : s.length ≤ fuel) (ht : t.length ≤ fuel')
    (h : escapeFuel fuel s = escapeFuel fuel' t) (hstrays : straysFuel fuel s = straysFuel fuel' t)
    : s = t := by
  -- the induction takes one unit off both texts
  induction fuel generalizing fuel' s t with
  | zero =>
    obtain rfl := length_eq_zero_iff.mp (le_zero.mp hs)
    exact (escapeFuel_eq_nil ht h.symm).symm
  | succ fuel ih =>
    match s, fuel', t, ht with
    | [], _, _, ht => exact (escapeFuel_eq_nil ht h.symm).symm
    | c :: s, fuel', [], _ =>
      have hnil : escapeFuel fuel' [] = [] := by cases fuel' <;> rfl
      exact escapeFuel_eq_nil hs (h.trans hnil)
    | c :: s, fuel' + 1, d :: t, ht =>
      obtain ⟨code, hcode, heq⟩ := escapeFuel_succ fuel c s
      obtain ⟨code', hcode', heq'⟩ := escapeFuel_succ fuel' d t
      rw [heq, heq'] at h
      have hlength : code.length = code'.length := by
        rw [← (hcode.length _).1, h, (hcode'.length _).1]
      obtain ⟨rfl, hrest⟩ := append_inj h hlength
      have hunit := hcode.unitOf.symm.trans hcode'.unitOf
      rw [straysFuel_succ, straysFuel_succ] at hstrays
      have hnext := ih (length_drop_unitWidth hs) (length_drop_unitWidth ht) hrest
      cases hc : isStray (c :: s) with
      | true =>
        cases hd : isStray (d :: t) with
        | true =>
          rw [hc, hd] at hstrays
          obtain ⟨rfl, hstrays⟩ := cons.inj hstrays
          have hdrop := hnext hstrays
          rw [unitWidth_stray hc, unitWidth_stray hd] at hdrop
          exact congrArg (c :: ·) hdrop
        | false => simp [hc, hd] at hunit
      | false =>
        cases hd : isStray (d :: t) with
        | true => simp [hc, hd] at hunit
        | false =>
          rw [hc, hd] at hstrays hunit
          rw [← take_append_drop (unitWidth (c :: s)) (c :: s), hnext hstrays,
            Option.some.inj hunit, take_append_drop]

/-- A text determines the string up to its strays. -/
theorem escape_inj {t : Bytes} (h : escape s = escape t) (hstrays : strays s = strays t) :
    s = t := escapeFuel_inj le_rfl le_rfl h hstrays

end Veilmesh.Lib.Json

/-
  Instants with a zone offset, and their RFC 3339 text.

  A `Time` is an instant in nanoseconds since January 1 of year 1 (UTC) together with
  the offset its location shows it in. Comparisons look at the instant only. The text
  form is the one a JSON encoder writes: four-digit year, fraction without trailing
  zeros, `Z` or `±hh:mm`. It fails outside years 0 to 9999 and for offsets of a day or
  more. The parser is the lenient one of the standard library: a one-digit hour and a
  comma before the fraction are read, offsets up to `24:60` too.

  * `lasts_iff`: which lifetimes survive rounding to milliseconds.
  * `daysOfCivil_civilOfDays`: the calendar round trip.
  * `parse_marshalText_shown`: what is read back from a text: the text drops the seconds
    of an offset, so the instant is off by them.
  * `parse_off`, `parse_range`: what can be read at all.
-/
import Mathlib.Data.List.DropRight
import Mathlib.Tactic.IntervalCases
import Veilmesh.Lib.Bytes

namespace Veilmesh.Lib

open List Option

/-! ## Instants and durations -/

/-- A length of time in nanoseconds. -/
abbrev Duration := Int

def millisecond : Duration := 10 ^ 6
def second : Duration := 10 ^ 9
def minute : Duration := 60 * second
def hour : Duration := 60 * minute

/-- An instant (`ns` nanoseconds after the start of year 1, UTC) shown at offset `off`
    seconds east of UTC. -/
structure Time where
  ns : Int
  off : Int
  deriving DecidableEq, Repr

namespace Time

/-- The zero time. -/
def zero : Time := ⟨0, 0⟩

def isZero (t : Time) : Bool := t.ns == 0

def after (t u : Time) : Bool := decide (u.ns < t.ns)

def before (t u : Time) : Bool := decide (t.ns < u.ns)

def equal (t u : Time) : Bool := t.ns == u.ns

def add (t : Time) (d : Duration) : Time := { t with ns := t.ns + d }

/-- The difference, saturated at the range of a 64-bit duration. -/
def sub (t u : Time) : Duration := max (-2 ^ 63) (min maxInt64 (t.ns - u.ns))

def utc (t : Time) : Time := { t with off := 0 }

/-- Rounded down to a multiple of `d` since the zero time. -/
def truncate (t : Time) (d : Duration) : Time :=
  if d ≤ 0 then t else { t with ns := t.ns - t.ns % d }

/-- The Unix epoch in nanoseconds since the zero time. -/
def unixEpoch : Int := 62135596800 * second

/-- The Unix epoch as a time. -/
def epoch : Time := ⟨unixEpoch, 0⟩

/-- Seconds since the Unix epoch. -/
def unix (t : Time) : Int := (t.ns - unixEpoch) / second

/-- Milliseconds since the Unix epoch, as a signed 64-bit number. -/
def unixMilli (t : Time) : Int := wrap64 ((t.ns - unixEpoch) / millisecond)

/-- The milliseconds since the Unix epoch fit into 64 bits: some 292 million years either way. -/
def MilliRange (t : Time) : Prop :=
  -2 ^ 63 ≤ (t.ns - unixEpoch) / millisecond ∧ (t.ns - unixEpoch) / millisecond ≤ maxInt64

/-- The same time, up to what is below the millisecond. -/
def SameMilli (t u : Time) : Prop :=
  (t.ns - unixEpoch) / millisecond = (u.ns - unixEpoch) / millisecond

instance (t : Time) : Decidable t.MilliRange := inferInstanceAs (Decidable (_ ∧ _))

instance (t u : Time) : Decidable (t.SameMilli u) := inferInstanceAs (Decidable (_ = _))

@[simp] theorem after_iff (t u : Time) : t.after u = true ↔ u.ns < t.ns := by simp [after]

@[simp] theorem before_iff (t u : Time) : t.before u = true ↔ t.ns < u.ns := by simp [before]

@[simp] theorem equal_iff (t u : Time) : t.equal u = true ↔ t.ns = u.ns := by simp [equal]

variable (t : Time)

@[simp] theorem isZero_iff : t.isZero = true ↔ t.ns = 0 := by simp [isZero]

@[simp] theorem add_ns (d : Duration) : (t.add d).ns = t.ns + d := rfl

@[simp] theorem utc_ns : t.utc.ns = t.ns := rfl

@[simp] theorem utc_off : t.utc.off = 0 := rfl

theorem truncate_ns {d : Duration} (hd : 0 < d) : (t.truncate d).ns = t.ns - t.ns % d := by
  unfold truncate
  rw [if_neg (not_le.mpr hd)]

theorem truncate_off (d : Duration) : (t.truncate d).off = t.off := by
  unfold truncate
  split <;> rfl

/-! ## Lifetimes in milliseconds -/

/-- With both ends rounded down to the millisecond, a lifetime from `t` on is still one, and
    neither end is the zero time. -/
def Lasts (t : Time) (lifetime : Duration) : Prop :=
  millisecond ≤ lifetime ∧ (t.utc.truncate millisecond).isZero = false ∧
    (((t.utc.truncate millisecond).add lifetime).truncate millisecond).isZero = false

instance (t : Time) (lifetime : Duration) : Decidable (t.Lasts lifetime) :=
  inferInstanceAs (Decidable (_ ∧ _ ∧ _))

theorem truncate_le (t : Time) : (t.utc.truncate millisecond).ns ≤ t.ns := by
  rw [truncate_ns _ (by decide), utc_ns]
  exact Int.sub_le_self _ (Int.emod_nonneg _ (by decide))

theorem truncate_milli (t : Time) : (t.utc.truncate millisecond).ns % millisecond = 0 := by
  rw [truncate_ns _ (by decide)]
  unfold millisecond
  omega

variable {t : Time} {lifetime : Duration} {s rest : Bytes}

/-- Rounding stays above a time of whole milliseconds. -/
theorem le_truncate {n : Int} (hn : n % millisecond = 0) (h : n ≤ t.ns) :
    n ≤ (t.utc.truncate millisecond).ns := by
  rw [truncate_ns _ (by decide), utc_ns]
  unfold millisecond at hn ⊢
  omega

/-- The rounded ends are as far apart as the rounded lifetime. -/
theorem truncate_add_truncate (t : Time) (lifetime : Duration) :
    (((t.utc.truncate millisecond).add lifetime).truncate millisecond).ns =
      (t.utc.truncate millisecond).ns + (lifetime - lifetime % millisecond) := by
  rw [truncate_ns _ (by decide), add_ns, truncate_ns _ (by decide), utc_ns]
  unfold millisecond
  omega

/-- A rounded lifetime is positive from one millisecond on, and then longer than what rounding
    cuts off a time. -/
theorem rounded_lifetime {lifetime : Int} (h : 0 < lifetime) :
    (0 < lifetime - lifetime % 1000000 ↔ 1000000 ≤ lifetime) ∧
      (1000000 ≤ lifetime → ∀ n : Int, n ≤ n - n % 1000000 + (lifetime - lifetime % 1000000)) :=
  ⟨by omega, fun _ n => by omega⟩

/-- What is seen of a lifetime in its rounded ends. -/
theorem lasts_iff (h : 0 < lifetime) :
    t.Lasts lifetime ↔ (t.utc.truncate millisecond).ns ≠ 0 ∧
      (((t.utc.truncate millisecond).add lifetime).truncate millisecond).ns ≠ 0 ∧
      (t.utc.truncate millisecond).ns <
        (((t.utc.truncate millisecond).add lifetime).truncate millisecond).ns := by
  unfold Lasts
  rw [← Bool.not_eq_true, isZero_iff, ← Bool.not_eq_true, isZero_iff]
  constructor
  · rintro ⟨hlong, hstart, hend⟩
    refine ⟨hstart, hend, ?_⟩
    rw [truncate_add_truncate]
    exact lt_add_of_pos_right _ ((rounded_lifetime h).1.mpr hlong)
  · rintro ⟨hstart, hend, hlt⟩
    rw [truncate_add_truncate] at hlt
    exact ⟨(rounded_lifetime h).1.mp (lt_add_iff_pos_right _ |>.mp hlt), hstart, hend⟩

/-- The time it starts from is in such a lifetime. -/
theorem Lasts.le_end (h : 0 < lifetime) (hl : t.Lasts lifetime) :
    t.ns ≤ (((t.utc.truncate millisecond).add lifetime).truncate millisecond).ns := by
  rw [truncate_add_truncate, truncate_ns _ (by decide), utc_ns]
  exact (rounded_lifetime h).2 hl.1 t.ns

/-- Rounding makes no lifetime longer. -/
theorem rounded_sub_le {most : Duration} (hle : lifetime ≤ most) (hmin : -2 ^ 63 ≤ most) :
    (((t.utc.truncate millisecond).add lifetime).truncate millisecond).sub
      (t.utc.truncate millisecond) ≤ most := by
  have hmod : (0 : Int) ≤ lifetime % millisecond := Int.emod_nonneg _ (by decide)
  rw [sub, truncate_add_truncate, add_sub_cancel_left]
  exact max_le hmin ((min_le_right _ _).trans ((Int.sub_le_self _ hmod).trans hle))

/-! ## The calendar -/

/-- A civil date. -/
structure Civil where
  year : Int
  month : Int
  day : Int
  deriving DecidableEq, Repr

def leapYear (y : Int) : Bool := y % 4 == 0 && (y % 100 != 0 || y % 400 == 0)

def daysIn (month year : Int) : Int :=
  if month = 2 then (if leapYear year then 29 else 28)
  else if month = 4 ∨ month = 6 ∨ month = 9 ∨ month = 11 then 30
  else 31

/-- Days after January 1 of year 1, as a date. Years are counted from March, so that a
    leap day ends its year; `c`, `q` and `y` count centuries, four-year cycles and years
    inside the 400-year cycle `era`. -/
def civilOfDays (z : Int) : Civil :=
  let era := (z + 306) / 146097
  let doe := (z + 306) % 146097
  let c := min (doe / 36524) 3
  let q := (doe - c * 36524) / 1461
  let y := min ((doe - c * 36524 - q * 1461) / 365) 3
  let doy := doe - c * 36524 - q * 1461 - y * 365
  let mp := (5 * doy + 2) / 153
  let month := if mp < 10 then mp + 3 else mp - 9
  { year := era * 400 + 100 * c + 4 * q + y + if month ≤ 2 then 1 else 0
    month := month
    day := doy - (153 * mp + 2) / 5 + 1 }

/-- Days from January 1 of year 1 to a date. -/
def daysOfCivil (d : Civil) : Int :=
  let y := if d.month ≤ 2 then d.year - 1 else d.year
  let mp := if d.month ≤ 2 then d.month + 9 else d.month - 3
  let yoe := y % 400
  y / 400 * 146097 + (yoe * 365 + yoe / 4 - yoe / 100) + (153 * mp + 2) / 5 + d.day - 1 - 306

/-- The counters of a day in its 400-year cycle. -/
theorem cycle_bounds (doe c q y doy : Int) (h0 : 0 ≤ doe) (h1 : doe < 146097)
    (hc : c = min (doe / 36524) 3) (hq : q = (doe - c * 36524) / 1461)
    (hy : y = min ((doe - c * 36524 - q * 1461) / 365) 3)
    (hd : doy = doe - c * 36524 - q * 1461 - y * 365) :
    0 ≤ c ∧ c ≤ 3 ∧ 0 ≤ q ∧ q ≤ 24 ∧ 0 ≤ y ∧ y ≤ 3 ∧ 0 ≤ doy ∧ doy ≤ 365 ∧
      (doy = 365 → y = 3 ∧ (q < 24 ∨ c = 3)) := by
  omega

/-- The month, counted from March, and the day of a day in its year. -/
theorem month_bounds (doy mp d : Int) (h0 : 0 ≤ doy) (h1 : doy ≤ 365)
    (hm : mp = (5 * doy + 2) / 153) (hd : d = doy - (153 * mp + 2) / 5 + 1) :
    0 ≤ mp ∧ mp ≤ 11 ∧ 1 ≤ d ∧ d ≤ 31 ∧ (mp = 1 ∨ mp = 3 ∨ mp = 6 ∨ mp = 8 → d ≤ 30) ∧
      (mp = 11 → d ≤ 29) ∧ (mp = 11 → d = 29 → doy = 365) := by
  omega

theorem daysOfCivil_civilOfDays (z : Int) : daysOfCivil (civilOfDays z) = z := by
  simp only [civilOfDays]
  generalize hdoe : (z + 306) % 146097 = doe
  generalize hera : (z + 306) / 146097 = era
  generalize hc : min (doe / 36524) 3 = c
  generalize hq : (doe - c * 36524) / 1461 = q
  generalize hy : min ((doe - c * 36524 - q * 1461) / 365) 3 = y
  generalize hd : doe - c * 36524 - q * 1461 - y * 365 = doy
  generalize hm : (5 * doy + 2) / 153 = mp
  obtain ⟨c0, c3, q0, q24, y0, y3, d0, d365, -⟩ :=
    cycle_bounds doe c q y doy (by omega) (by omega) hc.symm hq.symm hy.symm hd.symm
  obtain ⟨m0, m11, -⟩ := month_bounds doy mp _ d0 d365 hm.symm rfl
  have hyear : (if (if mp < 10 then mp + 3 else mp - 9) ≤ 2 then
      era * 400 + 100 * c + 4 * q + y + (if (if mp < 10 then mp + 3 else mp - 9) ≤ 2 then 1 else 0) - 1
      else era * 400 + 100 * c + 4 * q + y +
        (if (if mp < 10 then mp + 3 else mp - 9) ≤ 2 then 1 else 0)) =
      era * 400 + 100 * c + 4 * q + y := by
    split <;> split <;> omega
  have hmp : (if (if mp < 10 then mp + 3 else mp - 9) ≤ 2 then
      (if mp < 10 then mp + 3 else mp - 9) + 9 else (if mp < 10 then mp + 3 else mp - 9) - 3) =
      mp := by
    split <;> split <;> omega
  have hdiv : (era * 400 + 100 * c + 4 * q + y) / 400 = era := by omega
  have hmod : (era * 400 + 100 * c + 4 * q + y) % 400 = 100 * c + 4 * q + y := by omega
  have hq4 : (100 * c + 4 * q + y) / 4 = 25 * c + q := by omega
  have hq100 : (100 * c + 4 * q + y) / 100 = c := by omega
  simp only [daysOfCivil, hyear, hmp, hdiv, hmod, hq4, hq100]
  omega

/-- `civilOfDays` gives real dates. -/
theorem civilOfDays_valid (z : Int) :
    1 ≤ (civilOfDays z).month ∧ (civilOfDays z).month ≤ 12 ∧ 1 ≤ (civilOfDays z).day ∧
      (civilOfDays z).day ≤ daysIn (civilOfDays z).month (civilOfDays z).year := by
  simp only [civilOfDays]
  generalize hdoe : (z + 306) % 146097 = doe
  generalize hera : (z + 306) / 146097 = era
  generalize hc : min (doe / 36524) 3 = c
  generalize hq : (doe - c * 36524) / 1461 = q
  generalize hy : min ((doe - c * 36524 - q * 1461) / 365) 3 = y
  generalize hd : doe - c * 36524 - q * 1461 - y * 365 = doy
  generalize hm : (5 * doy + 2) / 153 = mp
  obtain ⟨c0, c3, q0, q24, y0, y3, d0, d365, hleap⟩ :=
    cycle_bounds doe c q y doy (by omega) (by omega) hc.symm hq.symm hy.symm hd.symm
  obtain ⟨m0, m11, e1, e31, e30, e29, e365⟩ := month_bounds doy mp _ d0 d365 hm.symm rfl
  generalize doy - (153 * mp + 2) / 5 + 1 = day at *
  by_cases hmp : mp < 10
  · simp only [hmp, if_true, daysIn]
    refine ⟨by omega, by omega, e1, ?_⟩
    rw [if_neg (by omega)]
    split <;> omega
  · simp only [hmp, if_false, show mp - 9 ≤ 2 by omega, if_true, daysIn]
    refine ⟨by omega, by omega, e1, ?_⟩
    by_cases h11 : mp = 11
    · subst h11
      rw [if_pos (by norm_num)]
      by_cases h29 : day = 29
      · -- the leap day: the March year before it is the last of its four-year cycle
        obtain ⟨hy3, hqc⟩ := hleap (e365 rfl h29)
        have hl : leapYear (era * 400 + 100 * c + 4 * q + y + 1) = true := by
          simp only [leapYear, Bool.and_eq_true, Bool.or_eq_true, bne_iff_ne, beq_iff_eq]
          omega
        rw [if_pos hl]; omega
      · split <;> omega
    · rw [if_neg (by omega), if_neg (by omega)]; exact e31

/-! ## Decimal fields -/

/-- The character of a decimal digit. -/
def decChar (d : Nat) : UInt8 := UInt8.ofNat (48 + d)

def decDigit? (c : UInt8) : Option Nat :=
  if 48 ≤ c ∧ c ≤ 57 then some (c.toNat - 48) else none

/-- `n` in decimal with exactly `k` digits. -/
def decPad (k n : Nat) : Bytes := (toDigits 10 k n).map decChar

/-- Exactly `k` decimal digits, accumulated onto `acc`. -/
def readDigits : Nat → Nat → Bytes → Option (Nat × Bytes)
  | 0, acc, s => some (acc, s)
  | _ + 1, _, [] => none
  | k + 1, acc, c :: s => do
    let d ← decDigit? c
    readDigits k (acc * 10 + d) s

/-- A given character. -/
def expect (c : UInt8) : Bytes → Option Bytes
  | [] => none
  | x :: s => if x = c then some s else none

@[simp] theorem decDigit_decChar {d : Nat} (h : d < 10) : decDigit? (decChar d) = some d := by
  interval_cases d <;> decide

theorem decDigit_lt {c : UInt8} {d : Nat} (h : decDigit? c = some d) : d < 10 := by
  unfold decDigit? at h
  split at h
  · rename_i hc
    have hle := UInt8.le_iff_toNat_le.mp hc.2
    simp only [Option.some.injEq] at h
    simp at hle
    omega
  · simp at h

theorem readDigits_map (ds : List Nat) (acc : Nat) (rest : Bytes) (h : ∀ d ∈ ds, d < 10) :
    readDigits ds.length acc (ds.map decChar ++ rest) =
      some (ds.foldl (fun a d => a * 10 + d) acc, rest) := by
  induction ds generalizing acc with
  | nil => rfl
  | cons d ds ih =>
    rw [length_cons, map_cons, cons_append, readDigits, decDigit_decChar (h d (by simp))]
    exact ih _ fun x hx => h x (by simp [hx])

theorem readDigits_decPad (k n : Nat) (rest : Bytes) (h : n < 10 ^ k) :
    readDigits k 0 (decPad k n ++ rest) = some (n, rest) := by
  have h1 := readDigits_map (toDigits 10 k n) 0 rest (toDigits_lt 10 k n (by decide))
  rw [length_toDigits] at h1
  rw [decPad, h1]
  have h2 := ofDigits_toDigits 10 k n
  rw [Nat.mod_eq_of_lt h] at h2
  exact congrArg (fun x => some (x, rest)) h2

theorem readDigits_lt {k acc n : Nat} (h : readDigits k acc s = some (n, rest)) :
    n < (acc + 1) * 10 ^ k := by
  induction k generalizing acc s with
  | zero =>
    simp only [readDigits, Option.some.injEq, Prod.mk.injEq] at h
    omega
  | succ k ih =>
    cases s with
    | nil => simp [readDigits] at h
    | cons c s =>
      simp only [readDigits, bind_eq_bind, bind_eq_some_iff] at h
      obtain ⟨d, hd, h⟩ := h
      have hd10 := decDigit_lt hd
      have := ih h
      calc n < (acc * 10 + d + 1) * 10 ^ k := this
        _ ≤ ((acc + 1) * 10) * 10 ^ k := Nat.mul_le_mul_right _ (by omega)
        _ = (acc + 1) * 10 ^ (k + 1) := by rw [Nat.mul_assoc, ← Nat.pow_succ']

@[simp] theorem expect_cons (c : UInt8) (s : Bytes) : expect c (c :: s) = some s := by
  simp [expect]

/-! ## RFC 3339 text -/

/-- Seconds of the local clock since January 1 of year 1. -/
def localSeconds (t : Time) : Int := t.ns / second + t.off

/-- Digits without their trailing zeros. -/
def trimZeros (ds : List Nat) : List Nat := ds.rdropWhile (· == 0)

/-- The fraction of a second: nothing when zero, else a point and the digits up to the
    last non-zero one. -/
def fractionText (nanos : Nat) : Bytes :=
  if nanos = 0 then [] else 46 :: (trimZeros (toDigits 10 9 nanos)).map decChar

/-- The offset in whole minutes, rounded towards zero. -/
def zoneMinutes (off : Int) : Int := off.tdiv 60

def zoneText (off : Int) : Bytes :=
  if off = 0 then [90]
  else (if zoneMinutes off < 0 then 45 else 43) :: (decPad 2 ((zoneMinutes off).natAbs / 60) ++
    58 :: decPad 2 ((zoneMinutes off).natAbs % 60))

def dateText (d : Civil) : Bytes :=
  decPad 4 d.year.toNat ++ 45 :: (decPad 2 d.month.toNat ++ 45 :: decPad 2 d.day.toNat)

/-- Hours, minutes and seconds of a second of the day. -/
def clockText (clock : Nat) : Bytes :=
  decPad 2 (clock / 3600) ++ 58 :: (decPad 2 (clock / 60 % 60) ++ 58 :: decPad 2 (clock % 60))

/-- The text a JSON encoder writes between the quotes. -/
def marshalText (t : Time) : Option Bytes :=
  let date := civilOfDays (t.localSeconds / 86400)
  if 0 ≤ date.year ∧ date.year ≤ 9999 ∧ (zoneMinutes t.off).natAbs / 60 < 24 then
    some (dateText date ++ 84 :: (clockText (t.localSeconds % 86400).toNat ++
      (fractionText (t.ns % second).toNat ++ zoneText t.off)))
  else none

/-- One or two digits. -/
def readHour (s : Bytes) : Option (Nat × Bytes) :=
  match s with
  | _ :: d :: _ => if (decDigit? d).isSome then readDigits 2 0 s else readDigits 1 0 s
  | _ => readDigits 1 0 s

/-- Digits from the start of `s`. -/
def spanDigits : Bytes → List Nat × Bytes
  | [] => ([], [])
  | c :: s =>
    match decDigit? c with
    | none => ([], c :: s)
    | some d => let r := spanDigits s; (d :: r.1, r.2)

/-- An optional fraction, cut to nanoseconds. -/
def readFraction (s : Bytes) : Nat × Bytes :=
  match s with
  | c :: s' =>
    if (c = 46 ∨ c = 44) ∧ (spanDigits s').1 ≠ [] then
      let ds := (spanDigits s').1.take 9
      (ofDigits 10 ds * 10 ^ (9 - ds.length), (spanDigits s').2)
    else (0, s)
  | [] => (0, [])

/-- A signed offset, which ends the text. -/
def readOffset : Bytes → Option Int
  | sign :: s => do
    let (hh, s) ← readDigits 2 0 s
    let s ← expect 58 s
    let (mm, s) ← readDigits 2 0 s
    if s ≠ [] ∨ 24 < hh ∨ 60 < mm then none
    else if sign = 43 then some ((hh * 60 + mm) * 60)
    else if sign = 45 then some (-((hh * 60 + mm) * 60))
    else none
  | [] => none

def readZone (s : Bytes) : Option Int := if s = [90] then some 0 else readOffset s

/-- A date, checked against the calendar. -/
def readDate (s : Bytes) : Option (Civil × Bytes) := do
  let (year, s) ← readDigits 4 0 s
  let s ← expect 45 s
  let (month, s) ← readDigits 2 0 s
  let s ← expect 45 s
  let (day, s) ← readDigits 2 0 s
  if 1 ≤ month ∧ month ≤ 12 ∧ 1 ≤ day ∧ (day : Int) ≤ daysIn month year then
    some (⟨year, month, day⟩, s)
  else none

/-- A time of day, as its second. -/
def readClock (s : Bytes) : Option (Nat × Bytes) := do
  let (hh, s) ← readHour s
  let s ← expect 58 s
  let (mm, s) ← readDigits 2 0 s
  let s ← expect 58 s
  let (ss, s) ← readDigits 2 0 s
  if hh < 24 ∧ mm < 60 ∧ ss < 60 then some (hh * 3600 + mm * 60 + ss, s) else none

/-- The instant of a local date and second of the day at an offset. -/
def ofCivil (date : Civil) (clock nanos : Nat) (off : Int) : Time :=
  ⟨(daysOfCivil date * 86400 + clock - off) * second + nanos, off⟩

/-- Reading RFC 3339 text. -/
def parse (s : Bytes) : Option Time := do
  let (date, s) ← readDate s
  let s ← expect 84 s
  let (clock, s) ← readClock s
  let off ← readZone (readFraction s).2
  some (ofCivil date clock (readFraction s).1 off)

/-! ## Reading back what was written -/

theorem readHour_decPad (n : Nat) (rest : Bytes) (h : n < 100) :
    readHour (decPad 2 n ++ rest) = some (n, rest) := by
  have hd : (decDigit? (decChar (n % 10))).isSome := by
    rw [decDigit_decChar (by omega)]; rfl
  have h2 := readDigits_decPad 2 n rest (by norm_num; omega)
  simp only [decPad, toDigits, nil_append, cons_append, map_cons, map_nil]
    at h2 ⊢
  simp only [readHour, hd, if_true, h2]

theorem spanDigits_map (ds : List Nat) (rest : Bytes) (h : ∀ d ∈ ds, d < 10)
    (hr : ∀ c ∈ rest.head?, decDigit? c = none) :
    spanDigits (ds.map decChar ++ rest) = (ds, rest) := by
  induction ds with
  | nil =>
    cases rest with
    | nil => rfl
    | cons c rest => simp [spanDigits, hr c (by simp)]
  | cons d ds ih =>
    rw [map_cons, cons_append, spanDigits, decDigit_decChar (h d (by simp)),
      ih fun x hx => h x (by simp [hx])]

/-- Dropped zeros are restored by scaling. -/
theorem ofDigits_trimZeros (ds : List Nat) :
    ofDigits 10 (trimZeros ds) * 10 ^ (ds.length - (trimZeros ds).length) = ofDigits 10 ds := by
  induction ds using List.reverseRecOn with
  | nil => rfl
  | append_singleton ds d ih =>
    unfold trimZeros at ih ⊢
    by_cases hd : d = 0
    · subst hd
      rw [rdropWhile_concat_pos _ _ _ (by simp), ofDigits_append_singleton, length_append,
        length_singleton, Nat.add_zero, ← ih]
      have hle : (ds.rdropWhile (· == 0)).length ≤ ds.length :=
        (List.rdropWhile_prefix _ ds).length_le
      rw [Nat.sub_add_comm hle, Nat.pow_succ, Nat.mul_assoc, Nat.add_zero]
    · rw [rdropWhile_concat_neg _ _ _ (by simpa using hd)]
      simp

theorem length_trimZeros_le (ds : List Nat) : (trimZeros ds).length ≤ ds.length :=
  (List.rdropWhile_prefix _ ds).length_le

theorem mem_trimZeros {ds : List Nat} {d : Nat} (h : d ∈ trimZeros ds) : d ∈ ds :=
  (List.rdropWhile_prefix _ ds).subset h

/-- A zone never starts with a digit or with a fraction mark. -/
theorem zoneText_head (off : Int) : ∃ c s, zoneText off = c :: s ∧ decDigit? c = none ∧
    c ≠ 46 ∧ c ≠ 44 := by
  unfold zoneText
  split
  · exact ⟨90, [], rfl, by decide, by decide, by decide⟩
  · refine ⟨_, _, rfl, ?_⟩
    split <;> decide

theorem readFraction_fractionText (nanos : Nat) (off : Int) (h : nanos < 10 ^ 9) :
    readFraction (fractionText nanos ++ zoneText off) = (nanos, zoneText off) := by
  obtain ⟨c, s, hz, hdig, h46, h44⟩ := zoneText_head off
  unfold fractionText
  by_cases h0 : nanos = 0
  · rw [if_pos h0, nil_append, hz]
    simp [readFraction, h46, h44, h0]
  · rw [if_neg h0, cons_append]
    have hlt : ∀ d ∈ trimZeros (toDigits 10 9 nanos), d < 10 :=
      fun d hd => toDigits_lt 10 9 nanos (by decide) d (mem_trimZeros hd)
    have hspan := spanDigits_map _ (zoneText off) hlt (by
      rw [hz]; intro c' hc'; simp at hc'; subst hc'; exact hdig)
    have hval := ofDigits_trimZeros (toDigits 10 9 nanos)
    rw [length_toDigits, ofDigits_toDigits, Nat.mod_eq_of_lt h] at hval
    have hle : (trimZeros (toDigits 10 9 nanos)).length ≤ 9 := by
      have := length_trimZeros_le (toDigits 10 9 nanos)
      rwa [length_toDigits] at this
    have hne : trimZeros (toDigits 10 9 nanos) ≠ [] := by
      intro he
      rw [he] at hval
      simp [ofDigits] at hval
      exact h0 hval.symm
    simp only [readFraction, hspan, true_or, ne_eq, hne, not_false_eq_true, and_self, if_true,
      take_of_length_le hle, hval]

theorem spanDigits_lt (s : Bytes) : ∀ d ∈ (spanDigits s).1, d < 10 := by
  induction s with
  | nil => simp [spanDigits]
  | cons c s ih =>
    unfold spanDigits
    split
    · simp
    · rename_i d hd
      intro x hx
      rcases mem_cons.mp hx with rfl | hx
      · exact decDigit_lt hd
      · exact ih x hx

theorem readFraction_lt (s : Bytes) : (readFraction s).1 < 10 ^ 9 := by
  unfold readFraction
  split
  · rename_i c s'
    split
    · have hlt := ofDigits_lt 10 ((spanDigits s').1.take 9)
        fun d hd => spanDigits_lt s' d (mem_of_mem_take hd)
      have hle : ((spanDigits s').1.take 9).length ≤ 9 := by simp
      simp only
      generalize (spanDigits s').1.take 9 = ds at *
      calc ofDigits 10 ds * 10 ^ (9 - ds.length)
          < 10 ^ ds.length * 10 ^ (9 - ds.length) :=
            Nat.mul_lt_mul_of_pos_right hlt (Nat.pow_pos (by decide))
        _ = 10 ^ 9 := by rw [← Nat.pow_add]; congr 1; omega
    · norm_num
  · norm_num

theorem readZone_zoneText (off : Int) (hh : (zoneMinutes off).natAbs / 60 < 24) :
    readZone (zoneText off) = some (zoneMinutes off * 60) := by
  unfold zoneText readZone
  by_cases h0 : off = 0
  · rw [if_pos h0, if_pos rfl, h0]
    rfl
  · rw [if_neg h0, if_neg (by split <;> simp)]
    generalize zoneMinutes off = z at *
    have h1 := readDigits_decPad 2 (z.natAbs / 60) (58 :: decPad 2 (z.natAbs % 60))
      (by norm_num; omega)
    have h2 := readDigits_decPad 2 (z.natAbs % 60) [] (by norm_num; omega)
    rw [append_nil] at h2
    have hguard : ¬ (24 < z.natAbs / 60 ∨ 60 < z.natAbs % 60) := by omega
    by_cases hz : z < 0
    · simp only [hz, if_true, readOffset, h1, h2, expect_cons, bind_eq_bind, bind_some]
      rw [if_neg (by simpa using hguard), if_neg (by decide), Option.some.injEq]
      omega
    · simp only [hz, if_false, readOffset, h1, h2, expect_cons, bind_eq_bind, bind_some]
      rw [if_neg (by simpa using hguard), if_pos trivial, Option.some.injEq]
      omega

theorem daysIn_le (month year : Int) : daysIn month year ≤ 31 := by
  unfold daysIn
  split
  · split <;> omega
  · split <;> omega

theorem readDate_dateText (d : Civil) (rest : Bytes) (y0 : 0 ≤ d.year) (y1 : d.year ≤ 9999)
    (m1 : 1 ≤ d.month) (m12 : d.month ≤ 12) (d1 : 1 ≤ d.day)
    (dmax : d.day ≤ daysIn d.month d.year) : readDate (dateText d ++ rest) = some (d, rest) := by
  have d31 := dmax.trans (daysIn_le d.month d.year)
  have e1 := fun r => readDigits_decPad 4 d.year.toNat r (by norm_num; omega)
  have e2 := fun r => readDigits_decPad 2 d.month.toNat r (by norm_num; omega)
  have e3 := fun r => readDigits_decPad 2 d.day.toNat r (by norm_num; omega)
  simp only [dateText, append_assoc, cons_append, readDate, e1, e2, e3, expect_cons,
    bind_eq_bind, bind_some]
  rw [Int.toNat_of_nonneg y0, Int.toNat_of_nonneg (by omega : 0 ≤ d.month),
    Int.toNat_of_nonneg (by omega : 0 ≤ d.day), if_pos ⟨by omega, by omega, by omega, dmax⟩]

theorem readClock_clockText (clock : Nat) (rest : Bytes) (h : clock < 86400) :
    readClock (clockText clock ++ rest) = some (clock, rest) := by
  have e4 := fun r => readHour_decPad (clock / 3600) r (by omega)
  have e5 := fun r => readDigits_decPad 2 (clock / 60 % 60) r (by norm_num; omega)
  have e6 := fun r => readDigits_decPad 2 (clock % 60) r (by norm_num; omega)
  have hsec : clock / 3600 * 3600 + clock / 60 % 60 * 60 + clock % 60 = clock := by omega
  simp only [clockText, append_assoc, cons_append, readClock, e4, e5, e6, expect_cons,
    bind_eq_bind, bind_some, hsec]
  rw [if_pos ⟨by omega, by omega, by omega⟩]

/-- The instant a text shows: local time and whole minutes of the offset are kept. -/
def shown (t : Time) : Time :=
  ⟨t.ns + (t.off - zoneMinutes t.off * 60) * second, zoneMinutes t.off * 60⟩

theorem shown_of_minutes (h : t.off % 60 = 0) : t.shown = t := by
  have hoff : zoneMinutes t.off * 60 = t.off := Int.tdiv_mul_cancel (Int.dvd_of_emod_eq_zero h)
  rw [shown, hoff, sub_self, zero_mul, add_zero]

/-- Seconds of an offset move the instant shown. -/
theorem shown_ns_eq_iff (t : Time) : t.shown.ns = t.ns ↔ t.off % 60 = 0 := by
  have hsplit := Int.mul_tdiv_add_tmod t.off 60
  unfold shown second zoneMinutes
  constructor
  · intro h
    simp only at h
    omega
  · intro h
    have := Int.tdiv_mul_cancel (Int.dvd_of_emod_eq_zero h)
    simp only
    omega

/-- Reading the text of an instant gives what it shows. -/
theorem parse_marshalText_shown {b : Bytes} (h : t.marshalText = some b) :
    parse b = some t.shown := by
  simp only [marshalText] at h
  split at h
  · rename_i hr
    obtain ⟨y0, y1, hz⟩ := hr
    obtain ⟨m1, m12, d1, dmax⟩ := civilOfDays_valid (t.localSeconds / 86400)
    have hclock : (t.localSeconds % 86400).toNat < 86400 := by omega
    have hn : (t.ns % second).toNat < 10 ^ 9 := by unfold second; omega
    rw [← Option.some.inj h]
    simp only [parse, readDate_dateText _ _ y0 y1 m1 m12 d1 dmax, expect_cons,
      readClock_clockText _ _ hclock, readFraction_fractionText _ t.off hn,
      readZone_zoneText t.off hz, bind_eq_bind, bind_some, ofCivil,
      daysOfCivil_civilOfDays, Option.some.injEq, shown]
    have hls : t.localSeconds / 86400 * 86400 + t.localSeconds % 86400 - zoneMinutes t.off * 60 =
        t.ns / second + (t.off - zoneMinutes t.off * 60) := by
      have := Int.ediv_mul_add_emod t.localSeconds 86400
      unfold localSeconds at this ⊢
      omega
    have hns := Int.ediv_mul_add_emod t.ns second
    rw [Int.toNat_of_nonneg (Int.emod_nonneg _ (by decide)), hls,
      Int.toNat_of_nonneg (Int.emod_nonneg _ (by decide)), add_mul, add_right_comm, hns]
  · simp at h

theorem readZone_minutes {off : Int} (h : readZone s = some off) :
    off % 60 = 0 ∧ -(25 * 3600) ≤ off ∧ off ≤ 25 * 3600 := by
  unfold readZone at h
  split at h
  · simp only [Option.some.injEq] at h
    omega
  · cases s with
    | nil => simp [readOffset] at h
    | cons sign s =>
      simp only [readOffset, bind_eq_bind, bind_eq_some_iff] at h
      obtain ⟨⟨hh, s1⟩, -, s2, -, ⟨mm, s3⟩, -, h⟩ := h
      simp only at h
      split at h
      · simp at h
      · split at h
        · simp only [Option.some.injEq] at h
          omega
        · split at h
          · simp only [Option.some.injEq] at h
            omega
          · simp at h

theorem readDate_bounds {d : Civil} (h : readDate s = some (d, rest)) :
    0 ≤ d.year ∧ d.year ≤ 9999 ∧ 1 ≤ d.month ∧ d.month ≤ 12 ∧ 1 ≤ d.day ∧ d.day ≤ 31 := by
  simp only [readDate, bind_eq_bind, bind_eq_some_iff] at h
  obtain ⟨⟨year, s1⟩, hy, s2, -, ⟨month, s3⟩, -, s4, -, ⟨day, s5⟩, -, h⟩ := h
  have hyear := readDigits_lt hy
  have hmax := daysIn_le month year
  norm_num at hyear
  simp only at h
  split at h
  · simp only [Option.some.injEq, Prod.mk.injEq] at h
    rw [← h.1]
    simp only
    omega
  · simp at h

theorem readClock_lt {clock : Nat} (h : readClock s = some (clock, rest)) : clock < 86400 := by
  simp only [readClock, bind_eq_bind, bind_eq_some_iff] at h
  obtain ⟨⟨hh, s1⟩, -, s2, -, ⟨mm, s3⟩, -, s4, -, ⟨ss, s5⟩, -, h⟩ := h
  simp only at h
  split at h
  · simp only [Option.some.injEq, Prod.mk.injEq] at h
    omega
  · simp at h

/-- What `parse` returns comes from a date of years 0 to 9999. -/
theorem parse_eq (h : parse s = some t) :
    ∃ (date : Civil) (clock nanos : Nat) (off : Int), t = ofCivil date clock nanos off ∧
      (0 ≤ date.year ∧ date.year ≤ 9999 ∧ 1 ≤ date.month ∧ date.month ≤ 12 ∧ 1 ≤ date.day ∧
        date.day ≤ 31) ∧ clock < 86400 ∧ nanos < 10 ^ 9 ∧
      (off % 60 = 0 ∧ -(25 * 3600) ≤ off ∧ off ≤ 25 * 3600) := by
  simp only [parse, bind_eq_bind, bind_eq_some_iff] at h
  obtain ⟨⟨date, s1⟩, hd, s2, -, ⟨clock, s3⟩, hc, off, hoff, h⟩ := h
  exact ⟨date, clock, _, off, (Option.some.inj h).symm, readDate_bounds hd, readClock_lt hc,
    readFraction_lt s3, readZone_minutes hoff⟩

/-- Offsets that can be read are in whole minutes. -/
theorem parse_off (h : parse s = some t) : t.off % 60 = 0 := by
  obtain ⟨date, clock, nanos, off, rfl, -, -, -, ho, -⟩ := parse_eq h
  exact ho

/-- Instants that can be read have an exact millisecond count. -/
theorem parse_range (h : parse s = some t) :
    -2 ^ 63 ≤ (t.ns - unixEpoch) / millisecond ∧ (t.ns - unixEpoch) / millisecond ≤ maxInt64 := by
  obtain ⟨date, clock, nanos, off, rfl, ⟨y0, y1, m1, m12, d1, d31⟩, hc, hn, -, o1, o2⟩ :=
    parse_eq h
  have hdays : -1000 ≤ daysOfCivil date ∧ daysOfCivil date ≤ 4000000 := by
    unfold daysOfCivil
    simp only
    split <;> omega
  unfold ofCivil unixEpoch millisecond maxInt64 second
  norm_num at hn ⊢
  omega

end Time

end Veilmesh.Lib

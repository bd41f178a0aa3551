/-
  JSON texts: values, the compact writer and the reader.

  A value keeps numbers and strings as they are written (`num` holds the literal,
  `str` the characters between the quotes), because typed decoders look at both: an
  integer field refuses `1.0`, a time field reads the raw characters. `escape` and
  `unquote` are the string conversions of the standard encoder: `<`, `>`, `&`, U+2028
  and U+2029 are escaped, a byte that is not UTF-8 becomes U+FFFD.

  `parse` reads one value with white space around it, as a strict decoder followed by
  an end-of-input check does. The nesting limit of the standard decoder (10000) is not
  modelled: every typed decoder in use refuses far shallower nesting.

  * `parse_render`: reading a written value gives it back, for values whose literals
    are well formed (`WF`).
-/
import Veilmesh.Lib.TextCodec
import Veilmesh.Lib.Time

namespace Veilmesh.Lib

open List

/-- A JSON value with its literals as written. -/
inductive Json where
  | null
  | bool (b : Bool)
  | num (text : Bytes)
  | str (raw : Bytes)
  | arr (elems : List Json)
  | obj (members : List (Bytes × Json))
  deriving Repr

namespace Json

/-! ## Strings -/

/-- ASCII characters an encoder copies unchanged. -/
def plainByte (c : UInt8) : Bool :=
  32 ≤ c && c < 128 && c != 34 && c != 92 && c != 60 && c != 62 && c != 38

/-- Text that is its own JSON form. -/
def Plain (s : Bytes) : Prop := ∀ c ∈ s, plainByte c = true

instance (s : Bytes) : Decidable (Plain s) := List.decidableBAll (fun c => plainByte c = true) s

/-- Continuation bytes. -/
def utf8Tail (c : UInt8) : Bool := 0x80 ≤ c && c ≤ 0xBF

/-- Length of the UTF-8 character at the start of the text, if there is one. -/
def utf8Width : Bytes → Option Nat
  | [] => none
  | a :: s =>
    if a < 0x80 then some 1
    else
      match s with
      | b :: s2 =>
        if 0xC2 ≤ a && a ≤ 0xDF && utf8Tail b then some 2
        else
          match s2 with
          | c :: s3 =>
            if utf8Tail c && (a == 0xE0 && 0xA0 ≤ b && b ≤ 0xBF ||
                (0xE1 ≤ a && a ≤ 0xEC || a == 0xEE || a == 0xEF) && utf8Tail b ||
                a == 0xED && 0x80 ≤ b && b ≤ 0x9F) then some 3
            else
              match s3 with
              | d :: _ =>
                if utf8Tail c && utf8Tail d && (a == 0xF0 && 0x90 ≤ b && b ≤ 0xBF ||
                    0xF1 ≤ a && a ≤ 0xF3 && utf8Tail b ||
                    a == 0xF4 && 0x80 ≤ b && b ≤ 0x8F) then some 4
                else none
              | [] => none
          | [] => none
      | [] => none

/-- The width that the first byte of a character outside ASCII announces. -/
def leadWidth (c : UInt8) : Nat := if c ≤ 0xDF then 2 else if c ≤ 0xEF then 3 else 4

/-- The replacement character U+FFFD. -/
def replacement : Bytes := [0xEF, 0xBF, 0xBD]

/-- The escape of one ASCII character that is not copied. -/
def escapeByte (c : UInt8) : Bytes :=
  if c = 34 ∨ c = 92 then [92, c]
  else if c = 8 then lit "\\b"
  else if c = 12 then lit "\\f"
  else if c = 10 then lit "\\n"
  else if c = 13 then lit "\\r"
  else if c = 9 then lit "\\t"
  else lit "\\u00" ++ hexEncode [c]

/-- `escape` with a bound on the characters read. -/
def escapeFuel : Nat → Bytes → Bytes
  | 0, _ => []
  | _ + 1, [] => []
  | fuel + 1, c :: s =>
    if plainByte c then c :: escapeFuel fuel s
    else if c < 0x80 then escapeByte c ++ escapeFuel fuel s
    else
      match utf8Width (c :: s) with
      | none => lit "\\ufffd" ++ escapeFuel fuel s
      | some w =>
        let ch := (c :: s).take w
        (if ch = [0xE2, 0x80, 0xA8] then lit "\\u2028"
          else if ch = [0xE2, 0x80, 0xA9] then lit "\\u2029" else ch) ++
          escapeFuel fuel ((c :: s).drop w)

/-- The characters an encoder writes between the quotes for `s`. -/
def escape (s : Bytes) : Bytes := escapeFuel s.length s

/-- UTF-8 bytes of a code point; surrogates become U+FFFD. -/
def utf8Encode (r : Nat) : Bytes :=
  if r < 0x80 then [UInt8.ofNat r]
  else if r < 0x800 then [UInt8.ofNat (0xC0 + r / 64), UInt8.ofNat (0x80 + r % 64)]
  else if 0xD800 ≤ r ∧ r < 0xE000 then replacement
  else if r < 0x10000 then
    [UInt8.ofNat (0xE0 + r / 4096), UInt8.ofNat (0x80 + r / 64 % 64), UInt8.ofNat (0x80 + r % 64)]
  else
    [UInt8.ofNat (0xF0 + r / 262144), UInt8.ofNat (0x80 + r / 4096 % 64),
      UInt8.ofNat (0x80 + r / 64 % 64), UInt8.ofNat (0x80 + r % 64)]

/-- The code unit of a `\uXXXX` escape at the start of the text. -/
def unitEscape? : Bytes → Option Nat
  | 92 :: 117 :: a :: b :: c :: d :: _ => do
    let ds ← [a, b, c, d].mapM hexDigit?
    some (ofDigits 16 ds)
  | _ => none

/-- The character a one-letter escape stands for. -/
def simpleEscape? (c : UInt8) : Option UInt8 :=
  if c = 34 ∨ c = 92 ∨ c = 47 then some c
  else if c = 98 then some 8
  else if c = 102 then some 12
  else if c = 110 then some 10
  else if c = 114 then some 13
  else if c = 116 then some 9
  else none

/-- `unquote` with a bound on the characters read. -/
def unquoteFuel : Nat → Bytes → Bytes
  | 0, _ => []
  | _ + 1, [] => []
  | fuel + 1, c :: s =>
    if c = 92 then
      match unitEscape? (c :: s) with
      | some hi =>
        match unitEscape? (s.drop 5) with
        | some lo =>
          if 0xD800 ≤ hi ∧ hi < 0xDC00 ∧ 0xDC00 ≤ lo ∧ lo < 0xE000 then
            utf8Encode (0x10000 + (hi - 0xD800) * 1024 + (lo - 0xDC00)) ++
              unquoteFuel fuel (s.drop 11)
          else utf8Encode hi ++ unquoteFuel fuel (s.drop 5)
        | none => utf8Encode hi ++ unquoteFuel fuel (s.drop 5)
      | none =>
        match s with
        | e :: s' => (simpleEscape? e).toList ++ unquoteFuel fuel s'
        | [] => []
    else if c < 0x80 then c :: unquoteFuel fuel s
    else
      match utf8Width (c :: s) with
      | none => replacement ++ unquoteFuel fuel s
      | some w => (c :: s).take w ++ unquoteFuel fuel ((c :: s).drop w)

/-- The string a raw literal denotes. -/
def unquote (raw : Bytes) : Bytes := unquoteFuel raw.length raw

variable {c : UInt8} {s p rest : Bytes}

theorem plainByte_spec (h : plainByte c = true) : 32 ≤ c ∧ c < 128 ∧ c ≠ 34 ∧ c ≠ 92 := by
  simp only [plainByte, Bool.and_eq_true, decide_eq_true_eq, bne_iff_ne] at h
  exact ⟨h.1.1.1.1.1.1, h.1.1.1.1.1.2, h.1.1.1.1.2, h.1.1.1.2⟩

theorem plain_cons : Plain (c :: s) ↔ plainByte c = true ∧ Plain s := by simp [Plain]

theorem Plain.append {t : Bytes} (hs : Plain s) (ht : Plain t) : Plain (s ++ t) := by
  intro c hc
  rcases mem_append.mp hc with hc | hc
  · exact hs c hc
  · exact ht c hc

theorem escape_of_plain (h : Plain s) : escape s = s := by
  unfold escape
  induction s with
  | nil => rfl
  | cons c s ih =>
    rw [plain_cons] at h
    rw [length_cons, escapeFuel, if_pos h.1, ih h.2]

theorem unquote_of_plain (h : Plain s) : unquote s = s := by
  unfold unquote
  induction s with
  | nil => rfl
  | cons c s ih =>
    rw [plain_cons] at h
    obtain ⟨-, h128, -, h92⟩ := plainByte_spec h.1
    simp only [length_cons, unquoteFuel, if_neg h92, if_pos h128, ih h.2]

/-! ## Writing -/

mutual

/-- The compact text of a value. -/
def render : Json → Bytes
  | .null => lit "null"
  | .bool b => if b then lit "true" else lit "false"
  | .num text => text
  | .str raw => 34 :: (raw ++ [34])
  | .arr [] => lit "[]"
  | .arr (e :: es) => 91 :: (render e ++ renderElems es)
  | .obj [] => lit "\x7b\x7d"
  | .obj ((k, v) :: ms) => 123 :: 34 :: (k ++ 34 :: 58 :: (render v ++ renderMembers ms))

/-- Further elements and the closing bracket. -/
def renderElems : List Json → Bytes
  | [] => [93]
  | e :: es => 44 :: (render e ++ renderElems es)

/-- Further members and the closing brace. -/
def renderMembers : List (Bytes × Json) → Bytes
  | [] => [125]
  | (k, v) :: ms => 44 :: 34 :: (k ++ 34 :: 58 :: (render v ++ renderMembers ms))

end

/-! ## Reading -/

def isSpace (c : UInt8) : Bool := c == 32 || c == 9 || c == 10 || c == 13

def skipSpace (s : Bytes) : Bytes := s.dropWhile isSpace

/-- A string literal after its opening quote: the raw characters and the rest. -/
def scanString : Bytes → Option (Bytes × Bytes)
  | [] => none
  | 34 :: s => some ([], s)
  | 92 :: 117 :: a :: b :: c :: d :: s => do
    let _ ← [a, b, c, d].mapM hexDigit?
    let (raw, rest) ← scanString s
    some (92 :: 117 :: a :: b :: c :: d :: raw, rest)
  | 92 :: e :: s => do
    let _ ← simpleEscape? e
    let (raw, rest) ← scanString s
    some (92 :: e :: raw, rest)
  | c :: s => do
    if c < 32 ∨ c = 92 then none
    let (raw, rest) ← scanString s
    some (c :: raw, rest)

def isDigit (c : UInt8) : Bool := 48 ≤ c && c ≤ 57

/-- The integer part of a number: `0` or digits without a leading zero. -/
def scanInt (s : Bytes) : Option (Bytes × Bytes) :=
  let ds := s.takeWhile isDigit
  if ds = [] ∨ (ds.head? = some 48 ∧ 1 < ds.length) then none else some (ds, s.dropWhile isDigit)

/-- An optional fraction. -/
def scanFraction (s : Bytes) : Option (Bytes × Bytes) :=
  match s with
  | 46 :: s' =>
    if s'.takeWhile isDigit = [] then none
    else some (46 :: s'.takeWhile isDigit, s'.dropWhile isDigit)
  | _ => some ([], s)

/-- An optional exponent. -/
def scanExponent (s : Bytes) : Option (Bytes × Bytes) :=
  match s with
  | c :: s' =>
    if c = 101 ∨ c = 69 then
      let sign := s'.takeWhile (fun d => d == 43 || d == 45) |>.take 1
      let s'' := s'.drop sign.length
      if s''.takeWhile isDigit = [] then none
      else some (c :: (sign ++ s''.takeWhile isDigit), s''.dropWhile isDigit)
    else some ([], s)
  | [] => some ([], [])

/-- A number literal. -/
def scanNumber (s : Bytes) : Option (Bytes × Bytes) := do
  let sign := if s.head? = some 45 then [45] else []
  let (ip, s1) ← scanInt (s.drop sign.length)
  let (fp, s2) ← scanFraction s1
  let (ep, s3) ← scanExponent s2
  some (sign ++ ip ++ fp ++ ep, s3)

/-- A keyword. -/
def scanWord (w : Bytes) (v : Json) (s : Bytes) : Option (Json × Bytes) :=
  if s.take w.length = w then some (v, s.drop w.length) else none

mutual

/-- One value, with white space before it; `fuel` bounds the nesting. -/
def parseValue : Nat → Bytes → Option (Json × Bytes)
  | 0, _ => none
  | fuel + 1, s =>
    match skipSpace s with
    | [] => none
    | c :: rest =>
      if c = 123 then (parseMembers fuel rest).map fun p => (.obj p.1, p.2)
      else if c = 91 then (parseElems fuel rest).map fun p => (.arr p.1, p.2)
      else if c = 34 then (scanString rest).map fun p => (.str p.1, p.2)
      else if c = 110 then scanWord (lit "null") .null (c :: rest)
      else if c = 116 then scanWord (lit "true") (.bool true) (c :: rest)
      else if c = 102 then scanWord (lit "false") (.bool false) (c :: rest)
      else (scanNumber (c :: rest)).map fun p => (.num p.1, p.2)

/-- What follows an opening bracket. -/
def parseElems : Nat → Bytes → Option (List Json × Bytes)
  | 0, _ => none
  | fuel + 1, s =>
    match skipSpace s with
    | [] => none
    | c :: rest =>
      if c = 93 then some ([], rest)
      else (parseValue fuel (c :: rest)).bind fun p =>
        (parseMoreElems fuel p.2).bind fun q => some (p.1 :: q.1, q.2)

/-- What follows an element. -/
def parseMoreElems : Nat → Bytes → Option (List Json × Bytes)
  | 0, _ => none
  | fuel + 1, s =>
    match skipSpace s with
    | [] => none
    | c :: rest =>
      if c = 93 then some ([], rest)
      else if c = 44 then (parseValue fuel rest).bind fun p =>
        (parseMoreElems fuel p.2).bind fun q => some (p.1 :: q.1, q.2)
      else none

/-- A key, a colon and a value. -/
def parseMember : Nat → Bytes → Option ((Bytes × Json) × Bytes)
  | 0, _ => none
  | fuel + 1, s =>
    match skipSpace s with
    | [] => none
    | c :: rest =>
      if c = 34 then (scanString rest).bind fun k =>
        match skipSpace k.2 with
        | [] => none
        | c' :: rest' =>
          if c' = 58 then (parseValue fuel rest').bind fun v => some ((k.1, v.1), v.2) else none
      else none

/-- What follows an opening brace. -/
def parseMembers : Nat → Bytes → Option (List (Bytes × Json) × Bytes)
  | 0, _ => none
  | fuel + 1, s =>
    match skipSpace s with
    | [] => none
    | c :: rest =>
      if c = 125 then some ([], rest)
      else (parseMember fuel (c :: rest)).bind fun p =>
        (parseMoreMembers fuel p.2).bind fun q => some (p.1 :: q.1, q.2)

/-- What follows a member. -/
def parseMoreMembers : Nat → Bytes → Option (List (Bytes × Json) × Bytes)
  | 0, _ => none
  | fuel + 1, s =>
    match skipSpace s with
    | [] => none
    | c :: rest =>
      if c = 125 then some ([], rest)
      else if c = 44 then (parseMember fuel rest).bind fun p =>
        (parseMoreMembers fuel p.2).bind fun q => some (p.1 :: q.1, q.2)
      else none

end

/-- One value and nothing else but white space. Every call below the first one follows
    a character read or a step of a list, so the bound on the nesting is never met. -/
def parse (s : Bytes) : Option Json :=
  match parseValue (4 * s.length + 4) s with
  | some (v, rest) => if skipSpace rest = [] then some v else none
  | none => none

/-! ## Well-formed literals -/

/-- A raw string a scanner reads up to the closing quote. -/
def StrOk (raw : Bytes) : Prop := ∀ rest, scanString (raw ++ 34 :: rest) = some (raw, rest)

/-- An integer literal: digits without a leading zero, with an optional sign. -/
def NumOk (text : Bytes) : Prop :=
  ∃ ds : Bytes, (text = ds ∨ text = 45 :: ds) ∧ ds ≠ [] ∧ (∀ c ∈ ds, isDigit c = true) ∧
    ¬ (ds.head? = some 48 ∧ 1 < ds.length)

mutual

/-- Every literal of the value is well formed. -/
def WF : Json → Prop
  | .null => True
  | .bool _ => True
  | .num text => NumOk text
  | .str raw => StrOk raw
  | .arr es => WFElems es
  | .obj ms => WFMembers ms

def WFElems : List Json → Prop
  | [] => True
  | e :: es => WF e ∧ WFElems es

def WFMembers : List (Bytes × Json) → Prop
  | [] => True
  | (k, v) :: ms => StrOk k ∧ WF v ∧ WFMembers ms

end

/-- Raw characters a scanner passes over, whatever comes after them. -/
def Scans (p : Bytes) : Prop :=
  ∀ t, scanString (p ++ t) = (scanString t).map fun x => (p ++ x.1, x.2)

theorem Scans.nil : Scans [] := fun t => by simp

theorem Scans.append {q : Bytes} (hp : Scans p) (hq : Scans q) : Scans (p ++ q) := by
  intro t
  rw [append_assoc, hp, hq, Option.map_map]
  congr 1
  funext x
  simp

theorem Scans.strOk (hp : Scans p) : StrOk p := by
  intro rest
  rw [hp, scanString]
  simp

theorem scans_byte (h32 : ¬ c < 32) (h34 : c ≠ 34) (h92 : c ≠ 92) : Scans [c] := by
  intro t
  rw [cons_append, nil_append, scanString.eq_def]
  split
  · simp_all
  · simp_all
  · simp_all
  · simp_all
  · rename_i c' s' _ _ _ heq
    obtain ⟨rfl, rfl⟩ := cons.inj heq
    simp only [h32, h92, or_self, if_false]
    cases scanString t with
    | none => rfl
    | some x => rfl

theorem scans_of_plain (h : Plain s) : Scans s := by
  induction s with
  | nil => exact .nil
  | cons c s ih =>
    rw [plain_cons] at h
    obtain ⟨h32, -, h34, h92⟩ := plainByte_spec h.1
    exact (scans_byte (UInt8.not_lt.mpr h32) h34 h92).append (ih h.2)

theorem strOk_of_plain (h : Plain s) : StrOk s := (scans_of_plain h).strOk

theorem scans_simple {e : UInt8} (he : (simpleEscape? e).isSome = true) : Scans [92, e] := by
  intro t
  obtain ⟨v, hv⟩ := Option.isSome_iff_exists.mp he
  have hu : e ≠ 117 := by
    rintro rfl
    cases he
  rw [cons_append, cons_append, nil_append, scanString.eq_def]
  split
  · simp_all
  · simp_all
  · simp_all
  · rename_i heq
    simp only [cons.injEq, true_and] at heq
    obtain ⟨rfl, rfl⟩ := heq
    rw [hv]
    cases scanString t with
    | none => rfl
    | some x => rfl
  · rename_i hnot heq
    obtain ⟨rfl, rfl⟩ := cons.inj heq
    exact (hnot e t rfl rfl).elim

theorem scans_unit {a b d : UInt8} (h : ([a, b, c, d].mapM hexDigit?).isSome = true) :
    Scans [92, 117, a, b, c, d] := by
  intro t
  obtain ⟨ds, hds⟩ := Option.isSome_iff_exists.mp h
  simp only [cons_append, nil_append]
  rw [scanString, hds]
  cases scanString t with
  | none => rfl
  | some x => rfl

theorem scans_high (h : ∀ c ∈ p, 0x80 ≤ c) : Scans p := by
  induction p with
  | nil => exact .nil
  | cons c p ih =>
    have hc := h c (by simp)
    refine Scans.append (p := [c]) (scans_byte ?_ ?_ ?_) (ih fun d hd => h d (by simp [hd]))
    · exact UInt8.not_lt.mpr (UInt8.le_trans (by decide) hc)
    · rintro rfl
      exact absurd hc (by decide)
    · rintro rfl
      exact absurd hc (by decide)

theorem leadWidth_two (h : c ≤ 0xDF) : leadWidth c = 2 := if_pos h

theorem leadWidth_three (hlo : 0xE0 ≤ c) (hhi : c ≤ 0xEF) : leadWidth c = 3 := by
  have hnot : ¬ c ≤ 0xDF := UInt8.not_le.mpr (UInt8.lt_of_lt_of_le (by decide) hlo)
  rw [leadWidth, if_neg hnot, if_pos hhi]

theorem leadWidth_four (hlo : 0xF0 ≤ c) : leadWidth c = 4 := by
  have h3 : ¬ c ≤ 0xEF := UInt8.not_le.mpr (UInt8.lt_of_lt_of_le (by decide) hlo)
  have h2 : ¬ c ≤ 0xDF := UInt8.not_le.mpr (UInt8.lt_of_lt_of_le (by decide) hlo)
  rw [leadWidth, if_neg h2, if_neg h3]

/-- A character outside ASCII has no byte in ASCII, and its first byte tells its width. -/
theorem utf8Width_high {w : Nat} (hc : ¬ c < 0x80) (h : utf8Width (c :: s) = some w) :
    w = leadWidth c ∧ w ≤ (c :: s).length ∧ ∀ b ∈ (c :: s).take w, 0x80 ≤ b := by
  have hc := UInt8.not_lt.mp hc
  have htail : ∀ {b}, utf8Tail b = true → 0x80 ≤ b := by
    intro b hb
    simp only [utf8Tail, Bool.and_eq_true, decide_eq_true_eq] at hb
    exact hb.1
  have hle : ∀ {l m b : UInt8}, l ≤ m → m ≤ b → l ≤ b := UInt8.le_trans
  unfold utf8Width at h
  dsimp only at h
  rw [if_neg (UInt8.not_lt.mpr hc)] at h
  split at h
  · rename_i b s2
    split at h
    · rename_i h2
      obtain rfl := Option.some.inj h
      simp only [Bool.and_eq_true, decide_eq_true_eq] at h2
      exact ⟨(leadWidth_two h2.1.2).symm, by simp, by simp [hc, htail h2.2]⟩
    · split at h
      · rename_i d s3
        split at h
        · rename_i h3
          obtain rfl := Option.some.inj h
          simp only [Bool.and_eq_true, Bool.or_eq_true, decide_eq_true_eq, beq_iff_eq] at h3
          have hb : leadWidth c = 3 ∧ 0x80 ≤ b := by
            obtain ⟨-, (⟨⟨rfl, hb⟩, -⟩ | ⟨(⟨hlo, hhi⟩ | rfl) | rfl, hb⟩) | ⟨⟨rfl, hb⟩, -⟩⟩ := h3
            · exact ⟨rfl, hle (by decide) hb⟩
            · exact ⟨leadWidth_three (hle (by decide) hlo) (hle hhi (by decide)), htail hb⟩
            · exact ⟨rfl, htail hb⟩
            · exact ⟨rfl, htail hb⟩
            · exact ⟨rfl, hb⟩
          exact ⟨hb.1.symm, by simp, by simp [hc, hb.2, htail h3.1]⟩
        · split at h
          · rename_i e s4
            split at h
            · rename_i h4
              obtain rfl := Option.some.inj h
              simp only [Bool.and_eq_true, Bool.or_eq_true, decide_eq_true_eq, beq_iff_eq] at h4
              have hb : leadWidth c = 4 ∧ 0x80 ≤ b := by
                obtain ⟨-, (⟨⟨rfl, hb⟩, -⟩ | ⟨⟨hlo, -⟩, hb⟩) | ⟨⟨rfl, hb⟩, -⟩⟩ := h4
                · exact ⟨rfl, hle (by decide) hb⟩
                · exact ⟨leadWidth_four (hle (by decide) hlo), htail hb⟩
                · exact ⟨rfl, hb⟩
              exact ⟨hb.1.symm, by simp, by simp [hc, hb.2, htail h4.1.1, htail h4.1.2]⟩
            · cases h
          · cases h
      · cases h
  · cases h

theorem hexDigit_hexAlphabet : ∀ x ∈ hexAlphabet, (hexDigit? x).isSome = true := by
  decide +kernel

theorem scans_escapeByte (c : UInt8) : Scans (escapeByte c) := by
  unfold escapeByte
  split
  · rename_i h
    refine scans_simple ?_
    rcases h with rfl | rfl <;> rfl
  · repeat (split; exact scans_simple rfl)
    -- the four hexadecimal digits of the general form
    obtain ⟨x, y, hxy⟩ : ∃ x y, hexEncode [c] = [x, y] :=
      length_eq_two.mp (length_hexEncode [c])
    have hx := hexDigit_hexAlphabet x (@mem_hexEncode [c] x (by simp [hxy]))
    have hy := hexDigit_hexAlphabet y (@mem_hexEncode [c] y (by simp [hxy]))
    obtain ⟨u, hu⟩ := Option.isSome_iff_exists.mp hx
    obtain ⟨v, hv⟩ := Option.isSome_iff_exists.mp hy
    rw [hxy]
    refine scans_unit ?_
    simp only [mapM_cons, mapM_nil, hu, hv]
    rfl

/-- What an encoder writes for any text is scanned as one string. -/
theorem strOk_escape (s : Bytes) : StrOk (escape s) := by
  have hfuel : ∀ (fuel : Nat) (s : Bytes), Scans (escapeFuel fuel s) := by
    intro fuel
    induction fuel with
    | zero => exact fun _ => .nil
    | succ fuel ih =>
      intro s
      cases s with
      | nil => exact .nil
      | cons c s =>
        unfold escapeFuel
        split
        · rename_i hc
          obtain ⟨h32, -, h34, h92⟩ := plainByte_spec hc
          exact (scans_byte (UInt8.not_lt.mpr h32) h34 h92).append (ih s)
        · split
          · exact (scans_escapeByte c).append (ih s)
          · rename_i hhigh
            split
            · exact (scans_unit rfl).append (ih s)
            · rename_i w hw
              refine Scans.append ?_ (ih _)
              split
              · exact scans_unit rfl
              · split
                · exact scans_unit rfl
                · exact scans_high (utf8Width_high hhigh hw).2.2
  exact (hfuel s.length s).strOk

/-- What may follow a number: nothing that would lengthen it. -/
def Delim (rest : Bytes) : Prop :=
  ∀ c ∈ rest.head?, isDigit c = false ∧ c ≠ 46 ∧ c ≠ 101 ∧ c ≠ 69

theorem takeWhile_digits {ds : Bytes} (hd : ∀ c ∈ ds, isDigit c = true) (hr : Delim rest) :
    (ds ++ rest).takeWhile isDigit = ds ∧ (ds ++ rest).dropWhile isDigit = rest := by
  induction ds with
  | nil =>
    cases rest with
    | nil => exact ⟨rfl, rfl⟩
    | cons c rest =>
      have := (hr c (by simp)).1
      simp [this]
  | cons c ds ih =>
    have hc := hd c (by simp)
    have := ih fun x hx => hd x (by simp [hx])
    simp [hc, this.1, this.2]

theorem scanTail_of_delim (hr : Delim rest) :
    scanFraction rest = some ([], rest) ∧ scanExponent rest = some ([], rest) := by
  cases rest with
  | nil => exact ⟨rfl, rfl⟩
  | cons c rest =>
    obtain ⟨-, h46, h101, h69⟩ := hr c (by simp)
    constructor
    · unfold scanFraction
      split
      · rename_i heq; simp_all
      · rfl
    · simp [scanExponent, h101, h69]

theorem digit_ne_minus (h : isDigit c = true) : c ≠ 45 := by
  rintro rfl
  exact absurd h (by decide)

theorem scanNumber_of_numOk {text : Bytes} (h : NumOk text) (hr : Delim rest) :
    scanNumber (text ++ rest) = some (text, rest) := by
  obtain ⟨ds, htext, hne, hdig, hlead⟩ := h
  obtain ⟨ht, hdr⟩ := takeWhile_digits hdig hr
  obtain ⟨hf, he⟩ := scanTail_of_delim hr
  have hint : scanInt (ds ++ rest) = some (ds, rest) := by
    simp only [scanInt, ht, hdr]
    rw [if_neg (by simp only [hne, false_or]; exact hlead)]
  cases ds with
  | nil => exact absurd rfl hne
  | cons d ds =>
    have hd45 := digit_ne_minus (hdig d (by simp))
    rcases htext with rfl | rfl
    · simp only [cons_append] at hint
      simp [scanNumber, hd45, hint, hf, he]
    · simp only [cons_append] at hint
      simp [scanNumber, hint, hf, he]

/-! ## Reading what was written -/

mutual

/-- Calls `parseValue` makes on the text of a value. -/
def cost : Json → Nat
  | .null => 1
  | .bool _ => 1
  | .num _ => 1
  | .str _ => 1
  | .arr [] => 2
  | .arr (e :: es) => 2 + cost e + costElems es
  | .obj [] => 2
  | .obj ((_, v) :: ms) => 3 + cost v + costMembers ms

def costElems : List Json → Nat
  | [] => 1
  | e :: es => 1 + cost e + costElems es

def costMembers : List (Bytes × Json) → Nat
  | [] => 1
  | (_, v) :: ms => 2 + cost v + costMembers ms

end

theorem skipSpace_cons (h : isSpace c = false) :
    skipSpace (c :: s) = c :: s := by simp [skipSpace, h]

/-- The first character of a written value starts no bracket's end and is no space. -/
theorem render_head (j : Json) (h : WF j) :
    ∃ c s, render j = c :: s ∧ isSpace c = false ∧ c ≠ 93 := by
  cases j with
  | null => exact ⟨_, _, rfl, by decide, by decide⟩
  | bool b => cases b <;> exact ⟨_, _, rfl, by decide, by decide⟩
  | num text =>
    obtain ⟨ds, htext, hne, hdig, -⟩ := h
    cases ds with
    | nil => exact absurd rfl hne
    | cons d ds =>
      have hd := hdig d (by simp)
      rcases htext with rfl | rfl
      · refine ⟨d, ds, by simp [render], ?_, ?_⟩
        · by_contra hs
          simp only [isSpace, Bool.not_eq_false, Bool.or_eq_true, beq_iff_eq] at hs
          rcases hs with ((rfl | rfl) | rfl) | rfl <;> exact absurd hd (by decide)
        · rintro rfl; exact absurd hd (by decide)
      · exact ⟨45, d :: ds, by simp [render], by decide, by decide⟩
  | str raw => exact ⟨34, raw ++ [34], by simp [render], by decide, by decide⟩
  | arr es => cases es <;> exact ⟨91, _, by simp [render]; rfl, by decide, by decide⟩
  | obj ms =>
    cases ms with
    | nil => exact ⟨_, _, rfl, by decide, by decide⟩
    | cons m ms => exact ⟨123, _, by simp [render]; rfl, by decide, by decide⟩

theorem cost_pos (j : Json) : 0 < cost j := by
  cases j with
  | arr es => cases es <;> simp only [cost] <;> omega
  | obj ms => cases ms <;> simp only [cost] <;> omega
  | _ => simp [cost]

mutual

/-- The text of a value is long enough to bound the calls. -/
theorem cost_le_length : ∀ j : Json, WF j → cost j ≤ 4 * (render j).length
  | .null, _ => by decide
  | .bool true, _ => by decide
  | .bool false, _ => by decide
  | .num text, h => by
    obtain ⟨c, s, hc, -⟩ := render_head (.num text) h
    rw [hc, cost, length_cons]
    omega
  | .str raw, _ => by simp [cost, render]; omega
  | .arr [], _ => by decide
  | .arr (e :: es), h => by
    rw [WF, WFElems] at h
    have h1 := cost_le_length e h.1
    have h2 := costElems_le_length es h.2
    simp only [cost, render, length_cons, length_append]
    omega
  | .obj [], _ => by decide
  | .obj ((k, v) :: ms), h => by
    rw [WF, WFMembers] at h
    have h1 := cost_le_length v h.2.1
    have h2 := costMembers_le_length ms h.2.2
    simp only [cost, render, length_cons, length_append]
    omega

theorem costElems_le_length : ∀ es : List Json, WFElems es →
    costElems es ≤ 4 * (renderElems es).length
  | [], _ => by decide
  | e :: es, h => by
    rw [WFElems] at h
    have h1 := cost_le_length e h.1
    have h2 := costElems_le_length es h.2
    simp only [costElems, renderElems, length_cons, length_append]
    omega

theorem costMembers_le_length : ∀ ms : List (Bytes × Json), WFMembers ms →
    costMembers ms ≤ 4 * (renderMembers ms).length
  | [], _ => by decide
  | (k, v) :: ms, h => by
    rw [WFMembers] at h
    have h1 := cost_le_length v h.2.1
    have h2 := costMembers_le_length ms h.2.2
    simp only [costMembers, renderMembers, length_cons, length_append]
    omega

end

theorem delim_of_head (h : c = 44 ∨ c = 93 ∨ c = 125) : Delim (c :: s) := by
  intro x hx
  simp only [head?_cons, Option.mem_def, Option.some.injEq] at hx
  subst hx
  rcases h with rfl | rfl | rfl <;> decide

theorem delim_renderElems (es : List Json) (rest : Bytes) : Delim (renderElems es ++ rest) := by
  cases es with
  | nil => exact delim_of_head (by decide)
  | cons e es => rw [renderElems]; exact delim_of_head (by decide)

theorem delim_renderMembers (ms : List (Bytes × Json)) (rest : Bytes) :
    Delim (renderMembers ms ++ rest) := by
  cases ms with
  | nil => exact delim_of_head (by decide)
  | cons m ms => rw [renderMembers]; exact delim_of_head (by decide)

theorem parseValue_num {text : Bytes} {fuel : Nat} (h : NumOk text) (hr : Delim rest) :
    parseValue (fuel + 1) (text ++ rest) = some (.num text, rest) := by
  obtain ⟨c, s, hc, hsp, -⟩ := render_head (.num text) h
  rw [render] at hc
  have hscan := scanNumber_of_numOk h hr
  rw [hc, cons_append] at hscan
  have hstart : c = 45 ∨ isDigit c = true := by
    obtain ⟨ds, htext, hne, hdig, -⟩ := h
    rcases htext with rfl | rfl
    · exact Or.inr (hdig c (by rw [hc]; simp))
    · exact Or.inl (by simpa using (congrArg head? hc).symm)
  have hdisp : c ≠ 123 ∧ c ≠ 91 ∧ c ≠ 34 ∧ c ≠ 110 ∧ c ≠ 116 ∧ c ≠ 102 := by
    rcases hstart with rfl | hd
    · decide
    · refine ⟨?_, ?_, ?_, ?_, ?_, ?_⟩ <;> · rintro rfl; exact absurd hd (by decide)
  obtain ⟨h1, h2, h3, h4, h5, h6⟩ := hdisp
  rw [hc, cons_append, parseValue, skipSpace_cons hsp]
  simp only [h1, h2, h3, h4, h5, h6, if_false, hscan, Option.map_some]

/-- A member after its comma or brace, given its value reads back. -/
theorem parseMember_text {k : Bytes} {v : Json} {fuel : Nat} (hk : StrOk k)
    (hv : parseValue fuel (render v ++ rest) = some (v, rest)) :
    parseMember (fuel + 1) (34 :: (k ++ 34 :: 58 :: (render v ++ rest))) =
      some ((k, v), rest) := by
  have hs := hk (58 :: (render v ++ rest))
  rw [parseMember, skipSpace_cons (by decide)]
  simp only [if_true, hs, Option.bind_some]
  rw [skipSpace_cons (by decide)]
  simp only [if_true, hv, Option.bind_some]

mutual

theorem parseValue_render : ∀ (j : Json) (fuel : Nat) (rest : Bytes), WF j → Delim rest →
    cost j ≤ fuel → parseValue fuel (render j ++ rest) = some (j, rest)
  | j, 0, _, _, _, hf => absurd hf (Nat.not_le.mpr (cost_pos j))
  | .null, fuel + 1, rest, _, _, _ => by rw [parseValue]; rfl
  | .bool true, fuel + 1, rest, _, _, _ => by rw [parseValue]; rfl
  | .bool false, fuel + 1, rest, _, _, _ => by rw [parseValue]; rfl
  | .num text, fuel + 1, rest, h, hr, _ => by rw [render]; exact parseValue_num h hr
  | .str raw, fuel + 1, rest, h, _, _ => by
    have hs : scanString (raw ++ 34 :: rest) = some (raw, rest) := h rest
    rw [render, cons_append, append_assoc, parseValue, skipSpace_cons (by decide)]
    simp [hs]
  | .arr [], 1, rest, _, _, hf => by simp [cost] at hf
  | .arr [], fuel + 2, rest, _, _, _ => by rw [parseValue]; rfl
  | .arr (e :: es), 1, rest, _, _, hf => by simp [cost] at hf; omega
  | .arr (e :: es), fuel + 2, rest, h, _, hf => by
    rw [WF, WFElems] at h
    rw [cost] at hf
    obtain ⟨c, s, hc, hsp, h93⟩ := render_head e h.1
    have he := parseValue_render e fuel (renderElems es ++ rest) h.1 (delim_renderElems es rest)
      (by omega)
    have hes := parseMoreElems_render es fuel rest h.2 (by omega)
    rw [render, cons_append, append_assoc, parseValue, skipSpace_cons (by decide)]
    rw [hc, cons_append] at he ⊢
    simp only [parseElems, skipSpace_cons hsp, h93, if_false, he, hes, Option.bind_some]
    rfl
  | .obj [], 1, rest, _, _, hf => by simp [cost] at hf
  | .obj [], fuel + 2, rest, _, _, _ => by rw [parseValue]; rfl
  | .obj ((k, v) :: ms), 1, rest, _, _, hf => by simp [cost] at hf; omega
  | .obj ((k, v) :: ms), 2, rest, _, _, hf => by simp [cost] at hf; omega
  | .obj ((k, v) :: ms), fuel + 3, rest, h, _, hf => by
    rw [WF, WFMembers] at h
    rw [cost] at hf
    have hv := parseValue_render v fuel (renderMembers ms ++ rest) h.2.1
      (delim_renderMembers ms rest) (by omega)
    have hm := parseMember_text h.1 hv
    have hms := parseMoreMembers_render ms (fuel + 1) rest h.2.2 (by omega)
    simp only [render, cons_append, append_assoc] at hm ⊢
    rw [parseValue, skipSpace_cons (by decide)]
    simp only [if_true, parseMembers]
    rw [skipSpace_cons (by decide)]
    simp only [hm, hms, Option.bind_some]
    rfl

theorem parseMoreElems_render : ∀ (es : List Json) (fuel : Nat) (rest : Bytes), WFElems es →
    costElems es ≤ fuel → parseMoreElems fuel (renderElems es ++ rest) = some (es, rest)
  | [], 0, _, _, hf => by simp [costElems] at hf
  | [], fuel + 1, rest, _, _ => by rw [parseMoreElems]; rfl
  | e :: es, 0, _, _, hf => by simp [costElems] at hf
  | e :: es, fuel + 1, rest, h, hf => by
    rw [WFElems] at h
    rw [costElems] at hf
    have he := parseValue_render e fuel (renderElems es ++ rest) h.1 (delim_renderElems es rest)
      (by omega)
    have hes := parseMoreElems_render es fuel rest h.2 (by omega)
    rw [renderElems, cons_append, append_assoc, parseMoreElems, skipSpace_cons (by decide)]
    simp only [he, hes, Option.bind_some, if_true]
    rfl

theorem parseMoreMembers_render : ∀ (ms : List (Bytes × Json)) (fuel : Nat) (rest : Bytes),
    WFMembers ms → costMembers ms ≤ fuel →
      parseMoreMembers fuel (renderMembers ms ++ rest) = some (ms, rest)
  | [], 0, _, _, hf => by simp [costMembers] at hf
  | [], fuel + 1, rest, _, _ => by rw [parseMoreMembers]; rfl
  | (k, v) :: ms, 0, _, _, hf => by simp [costMembers] at hf
  | (k, v) :: ms, 1, _, _, hf => by simp [costMembers] at hf; omega
  | (k, v) :: ms, fuel + 2, rest, h, hf => by
    rw [WFMembers] at h
    rw [costMembers] at hf
    have hv := parseValue_render v fuel (renderMembers ms ++ rest) h.2.1
      (delim_renderMembers ms rest) (by omega)
    have hm := parseMember_text h.1 hv
    have hms := parseMoreMembers_render ms (fuel + 1) rest h.2.2 (by omega)
    simp only [renderMembers, cons_append, append_assoc] at hm ⊢
    rw [parseMoreMembers, skipSpace_cons (by decide)]
    simp only [hm, hms, Option.bind_some, if_true]
    rfl

end

/-- Reading a written value gives it back, whatever white space follows. -/
theorem parse_render_space (j : Json) (h : WF j) {space : Bytes}
    (hs : ∀ c ∈ space, isSpace c = true) : parse (render j ++ space) = some j := by
  have hc := cost_le_length j h
  have hdelim : Delim space := by
    intro c hc
    have hspace := hs c (mem_of_mem_head? hc)
    simp only [isSpace, Bool.or_eq_true, beq_iff_eq] at hspace
    rcases hspace with ((rfl | rfl) | rfl) | rfl <;> decide
  have hp := parseValue_render j (4 * (render j ++ space).length + 4) space h hdelim
    (by rw [length_append]; omega)
  have hskip : skipSpace space = [] := dropWhile_eq_nil_iff.mpr hs
  rw [parse, hp]
  exact if_pos hskip

theorem parse_render (j : Json) (h : WF j) : parse (render j) = some j := by
  have hspace : parse (render j ++ []) = some j :=
    parse_render_space j h fun c hc => absurd hc not_mem_nil
  rwa [append_nil] at hspace

end Json

end Veilmesh.Lib

/-
  Hexadecimal, base32 and base64 text.

  `encodeGroup` writes up to one group of bytes as digits of `w` bits, zero-filled on
  the right; `decodeGroup` reads it back. The three codecs are that step over the
  whole byte string. The decoders follow the documented behaviour of the standard
  encoders: CR and LF are ignored (base32 and base64), the strict variant of base64
  rejects non-zero trailing bits, base32 without padding has no strict variant.

  * `hexDecode_hexEncode`, `base32Decode_base32Encode`, `base64Decode_base64Encode`:
    decoding what was encoded gives the bytes back.
  * `base64Encode_of_base64Chars`: strict base64 decoding accepts nothing but encodings.
-/
import Veilmesh.Lib.Bytes

namespace Veilmesh.Lib

open List Option

/-! ## One group -/

/-- The symbol of digit `d`. -/
def symbol (alphabet : Bytes) (d : Nat) : UInt8 := alphabet.getD d 0

/-- The digit a symbol stands for. -/
def digit? (alphabet : Bytes) (c : UInt8) : Option Nat := alphabet.idxOf? c

/-- `bs` as `m` symbols of `w` bits each, the spare low bits zero. -/
def encodeGroup (alphabet : Bytes) (w m : Nat) (bs : Bytes) : Bytes :=
  (toDigits (2 ^ w) m (fromBE bs * 2 ^ (w * m - 8 * bs.length))).map (symbol alphabet)

/-- The low bits of the last symbol that no byte uses. -/
def slack (w k : Nat) (ds : List Nat) : Nat := ofDigits (2 ^ w) ds % 2 ^ (w * ds.length - 8 * k)

/-- The first `k` bytes of the digits `ds`. -/
def decodeGroup (w k : Nat) (ds : List Nat) : Bytes :=
  toBE k (ofDigits (2 ^ w) ds / 2 ^ (w * ds.length - 8 * k))

/-- Every digit below `2 ^ w` is read back from its symbol. -/
def AlphabetOk (alphabet : Bytes) (w : Nat) : Prop :=
  ∀ d ∈ List.range (2 ^ w), digit? alphabet (symbol alphabet d) = some d

instance (alphabet : Bytes) (w : Nat) : Decidable (AlphabetOk alphabet w) :=
  inferInstanceAs (Decidable (∀ d ∈ List.range (2 ^ w), _))

variable {alphabet s bs : Bytes} {ds : List Nat}

theorem mapM_digit_symbol {w : Nat} (ha : AlphabetOk alphabet w) :
    ∀ ds : List Nat, (∀ d ∈ ds, d < 2 ^ w) →
      (ds.map (symbol alphabet)).mapM (digit? alphabet) = some ds
  | [], _ => rfl
  | d :: ds, h => by
    have hd := ha d (mem_range.mpr (h d (by simp)))
    have ih := mapM_digit_symbol ha ds fun x hx => h x (by simp [hx])
    simp only [map_cons, mapM_cons, hd, ih, bind_eq_bind, bind_some, Option.pure_def]

@[simp] theorem length_encodeGroup (alphabet : Bytes) (w m : Nat) (bs : Bytes) :
    (encodeGroup alphabet w m bs).length = m := by
  simp [encodeGroup, length_toDigits]

/-- The digits `encodeGroup` writes. -/
theorem mapM_digit_encodeGroup {alphabet : Bytes} {w : Nat} (ha : AlphabetOk alphabet w) (m : Nat)
    (bs : Bytes) : (encodeGroup alphabet w m bs).mapM (digit? alphabet) =
      some (toDigits (2 ^ w) m (fromBE bs * 2 ^ (w * m - 8 * bs.length))) :=
  mapM_digit_symbol ha _ (toDigits_lt _ _ _ (Nat.two_pow_pos w))

/-- The value of a group's digits: the bytes, shifted past the spare bits. -/
theorem ofDigits_group (w m : Nat) (bs : Bytes) (h : 8 * bs.length ≤ w * m) :
    ofDigits (2 ^ w) (toDigits (2 ^ w) m (fromBE bs * 2 ^ (w * m - 8 * bs.length))) =
      fromBE bs * 2 ^ (w * m - 8 * bs.length) := by
  rw [ofDigits_toDigits, ← pow_mul]
  apply Nat.mod_eq_of_lt
  have hlt := fromBE_lt bs
  have e : (256 : Nat) ^ bs.length = 2 ^ (8 * bs.length) := by rw [pow_mul]; norm_num
  rw [e] at hlt
  calc fromBE bs * 2 ^ (w * m - 8 * bs.length)
      < 2 ^ (8 * bs.length) * 2 ^ (w * m - 8 * bs.length) :=
        Nat.mul_lt_mul_of_pos_right hlt (Nat.two_pow_pos _)
    _ = 2 ^ (w * m) := by rw [← pow_add]; congr 1; omega

theorem decodeGroup_digits (w m : Nat) (bs : Bytes) (h : 8 * bs.length ≤ w * m) :
    decodeGroup w bs.length
      (toDigits (2 ^ w) m (fromBE bs * 2 ^ (w * m - 8 * bs.length))) = bs := by
  rw [decodeGroup, ofDigits_group w m bs h, length_toDigits,
    Nat.mul_div_cancel _ (Nat.two_pow_pos _), toBE_fromBE]

theorem slack_digits (w m : Nat) (bs : Bytes) (h : 8 * bs.length ≤ w * m) :
    slack w bs.length (toDigits (2 ^ w) m (fromBE bs * 2 ^ (w * m - 8 * bs.length))) = 0 := by
  rw [slack, ofDigits_group w m bs h, length_toDigits, Nat.mul_mod_left]

/-- CR and LF carry no digits. -/
def stripNewlines (s : Bytes) : Bytes := s.filter fun c => c != 10 && c != 13

theorem stripNewlines_append (s t : Bytes) :
    stripNewlines (s ++ t) = stripNewlines s ++ stripNewlines t := filter_append ..

/-- No symbol of the alphabet is a line break. -/
def NoNewlines (alphabet : Bytes) (w : Nat) : Prop :=
  ∀ d ∈ List.range (2 ^ w), symbol alphabet d ≠ 10 ∧ symbol alphabet d ≠ 13

instance (alphabet : Bytes) (w : Nat) : Decidable (NoNewlines alphabet w) :=
  inferInstanceAs (Decidable (∀ d ∈ List.range (2 ^ w), _))

theorem stripNewlines_encodeGroup {w : Nat} (hn : NoNewlines alphabet w) (m : Nat) (bs : Bytes) :
    stripNewlines (encodeGroup alphabet w m bs) = encodeGroup alphabet w m bs := by
  unfold stripNewlines encodeGroup
  rw [filter_eq_self]
  intro c hc
  obtain ⟨d, hd, rfl⟩ := mem_map.mp hc
  have := hn d (mem_range.mpr (toDigits_lt _ _ _ (Nat.two_pow_pos w) d hd))
  simp [this.1, this.2]

/-! ## Hexadecimal -/

def hexAlphabet : Bytes := lit "0123456789abcdef"

def hexUpper : Bytes := lit "0123456789ABCDEF"

/-- Lower-case hexadecimal text of `bs`. -/
def hexEncode (bs : Bytes) : Bytes := bs.flatMap fun b => encodeGroup hexAlphabet 4 2 [b]

/-- A hexadecimal digit in either case. -/
def hexDigit? (c : UInt8) : Option Nat := (digit? hexAlphabet c).orElse fun _ => digit? hexUpper c

/-- Hexadecimal decoding: either case, even length, no other characters. -/
def hexDecode : Bytes → Option Bytes
  | [] => some []
  | [_] => none
  | a :: b :: rest => do
    let ds ← [a, b].mapM hexDigit?
    let tail ← hexDecode rest
    some (decodeGroup 4 1 ds ++ tail)

theorem length_hexEncode (bs : Bytes) : (hexEncode bs).length = 2 * bs.length := by
  induction bs with
  | nil => rfl
  | cons b bs ih =>
    rw [hexEncode, flatMap_cons, length_append, length_encodeGroup, ← hexEncode, ih, length_cons]
    omega

theorem mem_hexEncode {bs : Bytes} {c : UInt8} (h : c ∈ hexEncode bs) : c ∈ hexAlphabet := by
  have hall : ∀ d ∈ range 16, symbol hexAlphabet d ∈ hexAlphabet := by decide
  obtain ⟨b, -, hc⟩ := mem_flatMap.mp h
  obtain ⟨d, hd, rfl⟩ := mem_map.mp hc
  exact hall d (mem_range.mpr (toDigits_lt _ _ _ (by decide) d hd))

theorem mapM_hexDigit_of_digit {cs : Bytes} (h : cs.mapM (digit? hexAlphabet) = some ds) :
    cs.mapM hexDigit? = some ds := by
  induction cs generalizing ds with
  | nil => exact h
  | cons c cs ih =>
    simp only [mapM_cons, bind_eq_bind, Option.pure_def, bind_eq_some_iff] at h ⊢
    obtain ⟨d, hd, ds', hds, he⟩ := h
    refine ⟨d, ?_, ds', ih hds, he⟩
    simp [hexDigit?, hd]

theorem hexDecode_append_pair (l rest : Bytes) (hl : l.length = 2) :
    hexDecode (l ++ rest) = (l.mapM hexDigit?).bind fun ds =>
      (hexDecode rest).bind fun tail => some (decodeGroup 4 1 ds ++ tail) := by
  match l, hl with
  | [a, b], _ => rfl

theorem hexDecode_hexEncode (bs : Bytes) : hexDecode (hexEncode bs) = some bs := by
  induction bs with
  | nil => rfl
  | cons b bs ih =>
    have hm := mapM_hexDigit_of_digit
      (@mapM_digit_encodeGroup hexAlphabet 4 (by decide) 2 [b])
    have hg : decodeGroup 4 1 _ = [b] := decodeGroup_digits 4 2 [b] (by simp)
    rw [hexEncode, flatMap_cons, ← hexEncode, hexDecode_append_pair _ _ (by simp), hm, ih,
      bind_some, bind_some, hg]
    rfl

theorem hexEncode_inj {a b : Bytes} (h : hexEncode a = hexEncode b) : a = b := by
  have := congrArg hexDecode h
  rwa [hexDecode_hexEncode, hexDecode_hexEncode, some.injEq] at this

/-! ## Base32 without padding -/

def base32Alphabet : Bytes := lit "ABCDEFGHIJKLMNOPQRSTUVWXYZ234567"

/-- Unpadded base32 text of `bs`. -/
def base32Encode : Bytes → Bytes
  | a :: b :: c :: d :: e :: rest =>
    encodeGroup base32Alphabet 5 8 [a, b, c, d, e] ++ base32Encode rest
  | [a, b, c, d] => encodeGroup base32Alphabet 5 7 [a, b, c, d]
  | [a, b, c] => encodeGroup base32Alphabet 5 5 [a, b, c]
  | [a, b] => encodeGroup base32Alphabet 5 4 [a, b]
  | [a] => encodeGroup base32Alphabet 5 2 [a]
  | [] => []

/-- Bytes a final group of that many symbols yields. -/
def base32TailBytes : Nat → Nat
  | 7 => 4
  | 5 => 3
  | 4 => 2
  | 2 => 1
  | _ => 0

/-- Decoding after line breaks are gone. The spare bits of the last symbol are not
    looked at. -/
def base32Chars : Bytes → Option Bytes
  | a :: b :: c :: d :: e :: f :: g :: h :: rest => do
    let ds ← [a, b, c, d, e, f, g, h].mapM (digit? base32Alphabet)
    let tail ← base32Chars rest
    some (decodeGroup 5 5 ds ++ tail)
  | tail => do
    let ds ← tail.mapM (digit? base32Alphabet)
    some (decodeGroup 5 (base32TailBytes tail.length) ds)

def base32Decode (s : Bytes) : Option Bytes := base32Chars (stripNewlines s)

theorem base32Chars_append_group (l rest : Bytes) (hl : l.length = 8) :
    base32Chars (l ++ rest) = (l.mapM (digit? base32Alphabet)).bind fun ds =>
      (base32Chars rest).bind fun tail => some (decodeGroup 5 5 ds ++ tail) := by
  match l, hl with
  | [a, b, c, d, e, f, g, h], _ => rfl

theorem base32Chars_tail (l : Bytes) (hl : l.length < 8) :
    base32Chars l = (l.mapM (digit? base32Alphabet)).bind fun ds =>
      some (decodeGroup 5 (base32TailBytes l.length) ds) := by
  match l, hl with
  | [], _ => rfl
  | [_], _ => rfl
  | [_, _], _ => rfl
  | [_, _, _], _ => rfl
  | [_, _, _, _], _ => rfl
  | [_, _, _, _, _], _ => rfl
  | [_, _, _, _, _, _], _ => rfl
  | [_, _, _, _, _, _, _], _ => rfl
  | _ :: _ :: _ :: _ :: _ :: _ :: _ :: _ :: _, hl => simp at hl; omega

theorem stripNewlines_base32Encode (bs : Bytes) :
    stripNewlines (base32Encode bs) = base32Encode bs := by
  have hn : NoNewlines base32Alphabet 5 := by decide
  fun_induction base32Encode bs with
  | case1 a b c d e rest ih => rw [stripNewlines_append, ih, stripNewlines_encodeGroup hn]
  | case6 => rfl
  | _ => exact stripNewlines_encodeGroup hn _ _

theorem length_base32Encode (bs : Bytes) : (base32Encode bs).length = (8 * bs.length + 4) / 5 := by
  fun_induction base32Encode bs with
  | case1 a b c d e rest ih => simp [ih]; omega
  | _ => simp

/-- A final group of `m` symbols for its bytes. -/
theorem base32Chars_encodeGroup (m : Nat) (bs : Bytes) (hm : m < 8) (hb : 8 * bs.length ≤ 5 * m)
    (hk : base32TailBytes m = bs.length) :
    base32Chars (encodeGroup base32Alphabet 5 m bs) = some bs := by
  rw [base32Chars_tail _ (by simpa using hm), mapM_digit_encodeGroup (by decide), bind_some,
    length_encodeGroup, hk, decodeGroup_digits 5 m bs hb]

theorem base32Decode_base32Encode (bs : Bytes) : base32Decode (base32Encode bs) = some bs := by
  unfold base32Decode
  rw [stripNewlines_base32Encode]
  fun_induction base32Encode bs with
  | case1 a b c d e rest ih =>
    have hg : decodeGroup 5 5 _ = [a, b, c, d, e] :=
      decodeGroup_digits 5 8 [a, b, c, d, e] (by simp)
    rw [base32Chars_append_group _ _ (by simp), mapM_digit_encodeGroup (by decide), ih,
      bind_some, bind_some, hg]
    rfl
  | case6 => rfl
  | _ => exact base32Chars_encodeGroup _ _ (by decide) (by simp) rfl

theorem base32Encode_inj {a b : Bytes} (h : base32Encode a = base32Encode b) : a = b := by
  have := congrArg base32Decode h
  rwa [base32Decode_base32Encode, base32Decode_base32Encode, some.injEq] at this

/-! ## Base64 -/

def base64StdAlphabet : Bytes :=
  lit "ABCDEFGHIJKLMNOPQRSTUVWXYZabcdefghijklmnopqrstuvwxyz0123456789+/"

def base64UrlAlphabet : Bytes :=
  lit "ABCDEFGHIJKLMNOPQRSTUVWXYZabcdefghijklmnopqrstuvwxyz0123456789-_"

/-- Base64 text of `bs`, padded with `=` when `pad` is set. -/
def base64Encode (alphabet : Bytes) (pad : Bool) : Bytes → Bytes
  | a :: b :: c :: rest => encodeGroup alphabet 6 4 [a, b, c] ++ base64Encode alphabet pad rest
  | [a, b] => encodeGroup alphabet 6 3 [a, b] ++ if pad then [61] else []
  | [a] => encodeGroup alphabet 6 2 [a] ++ if pad then [61, 61] else []
  | [] => []

/-- The last, short group: `k` bytes from its symbols. -/
def base64Tail (alphabet : Bytes) (strict : Bool) (k : Nat) (cs : Bytes) : Option Bytes := do
  let ds ← cs.mapM (digit? alphabet)
  if strict && slack 6 k ds != 0 then none else some (decodeGroup 6 k ds)

/-- Decoding after line breaks are gone. -/
def base64Chars (alphabet : Bytes) (pad strict : Bool) : Bytes → Option Bytes
  | [] => some []
  | [_] => none
  | [a, b] => if pad then none else base64Tail alphabet strict 1 [a, b]
  | [a, b, c] => if pad then none else base64Tail alphabet strict 2 [a, b, c]
  | a :: b :: c :: d :: rest =>
    if pad && d == 61 && rest.isEmpty then
      if c == 61 then base64Tail alphabet strict 1 [a, b]
      else base64Tail alphabet strict 2 [a, b, c]
    else do
      let ds ← [a, b, c, d].mapM (digit? alphabet)
      let tail ← base64Chars alphabet pad strict rest
      some (decodeGroup 6 3 ds ++ tail)

def base64Decode (alphabet : Bytes) (pad strict : Bool) (s : Bytes) : Option Bytes :=
  base64Chars alphabet pad strict (stripNewlines s)

/-- What the two base64 alphabets share: 64 symbols read back, none of them a line
    break or the padding character. -/
structure Base64Ok (alphabet : Bytes) : Prop where
  digits : AlphabetOk alphabet 6
  breaks : NoNewlines alphabet 6
  padding : digit? alphabet 61 = none

theorem base64StdOk : Base64Ok base64StdAlphabet := ⟨by decide, by decide, by decide⟩

theorem base64UrlOk : Base64Ok base64UrlAlphabet := ⟨by decide, by decide, by decide⟩

theorem length_base64Encode (alphabet : Bytes) (bs : Bytes) :
    (base64Encode alphabet false bs).length = (8 * bs.length + 5) / 6 := by
  fun_induction base64Encode alphabet false bs with
  | case1 a b c rest ih => simp [encodeGroup, length_toDigits, ih]; omega
  | case2 a b => simp [encodeGroup, length_toDigits]
  | case3 a => simp [encodeGroup, length_toDigits]
  | case4 => rfl

theorem length_base64Encode_padded (alphabet : Bytes) (bs : Bytes) :
    (base64Encode alphabet true bs).length = 4 * ((bs.length + 2) / 3) := by
  fun_induction base64Encode alphabet true bs with
  | case1 a b c rest ih => simp [encodeGroup, length_toDigits, ih]; omega
  | case2 a b => simp [encodeGroup, length_toDigits]
  | case3 a => simp [encodeGroup, length_toDigits]
  | case4 => rfl

variable (ha : Base64Ok alphabet)

include ha

theorem stripNewlines_base64Encode (pad : Bool) (bs : Bytes) :
    stripNewlines (base64Encode alphabet pad bs) = base64Encode alphabet pad bs := by
  fun_induction base64Encode alphabet pad bs with
  | case1 a b c rest ih => rw [stripNewlines_append, ih, stripNewlines_encodeGroup ha.breaks]
  | case4 => rfl
  | _ =>
    rw [stripNewlines_append, stripNewlines_encodeGroup ha.breaks]
    cases pad <;> rfl

theorem base64Tail_encodeGroup (strict : Bool) (m : Nat) (bs : Bytes) (hb : 8 * bs.length ≤ 6 * m) :
    base64Tail alphabet strict bs.length (encodeGroup alphabet 6 m bs) = some bs := by
  unfold base64Tail
  rw [mapM_digit_encodeGroup ha.digits, bind_eq_bind, bind_some,
    slack_digits 6 m bs hb, decodeGroup_digits 6 m bs hb]
  simp

/-- A full group whose four symbols are digits is not mistaken for a padded one. -/
theorem base64Chars_append_group (pad strict : Bool) (l rest : Bytes)
    (hl : l.length = 4) (hds : l.mapM (digit? alphabet) = some ds) :
    base64Chars alphabet pad strict (l ++ rest) =
      (base64Chars alphabet pad strict rest).bind fun tail =>
        some (decodeGroup 6 3 ds ++ tail) := by
  match l, hl with
  | [a, b, c, d], _ =>
    have hd : d ≠ 61 := by
      rintro rfl
      simp [mapM_cons, ha.padding] at hds
    simp only [cons_append, nil_append, base64Chars, beq_eq_false_iff_ne.mpr hd,
      Bool.and_false, Bool.false_and, Bool.false_eq_true, if_false, hds, bind_eq_bind,
      bind_some]

omit ha in
theorem base64Chars_tail_two (pad strict : Bool) (l : Bytes) (hl : l.length = 2) :
    base64Chars alphabet pad strict (l ++ if pad then [61, 61] else []) =
      base64Tail alphabet strict 1 l := by
  match l, hl with
  | [a, b], _ => cases pad <;> rfl

theorem base64Chars_tail_three (pad strict : Bool) (l : Bytes)
    (hl : l.length = 3) (hds : l.mapM (digit? alphabet) = some ds) :
    base64Chars alphabet pad strict (l ++ if pad then [61] else []) =
      base64Tail alphabet strict 2 l := by
  match l, hl with
  | [a, b, c], _ =>
    have hc : c ≠ 61 := by
      rintro rfl
      simp [mapM_cons, ha.padding] at hds
    cases pad
    · rfl
    · simp [base64Chars, hc]

theorem base64Decode_base64Encode (pad strict : Bool) (bs : Bytes) :
    base64Decode alphabet pad strict (base64Encode alphabet pad bs) = some bs := by
  unfold base64Decode
  rw [stripNewlines_base64Encode ha]
  fun_induction base64Encode alphabet pad bs with
  | case1 a b c rest ih =>
    have hg : decodeGroup 6 3 _ = [a, b, c] := decodeGroup_digits 6 4 [a, b, c] (by simp)
    rw [base64Chars_append_group ha pad strict _ _ (by simp)
      (mapM_digit_encodeGroup ha.digits 4 [a, b, c]), ih, bind_some, hg]
    rfl
  | case2 a b =>
    rw [base64Chars_tail_three ha pad strict _ (by simp) (mapM_digit_encodeGroup ha.digits 3 [a, b])]
    exact base64Tail_encodeGroup ha strict 3 [a, b] (by simp)
  | case3 a =>
    rw [base64Chars_tail_two pad strict _ (by simp)]
    exact base64Tail_encodeGroup ha strict 2 [a] (by simp)
  | case4 => rfl

omit ha

/-! ## Strict decoding accepts canonical text only -/

theorem symbol_of_digit {c : UInt8} {d : Nat} (h : digit? alphabet c = some d) :
    symbol alphabet d = c ∧ d < alphabet.length := by
  unfold digit? at h
  obtain ⟨hlt, hget, -⟩ := idxOf?_eq_some_iff.mp h
  exact ⟨by simp [symbol, getD_eq_getElem?_getD, hlt, hget], hlt⟩

theorem map_symbol_of_digits :
    ∀ {l : Bytes} {ds : List Nat}, l.mapM (digit? alphabet) = some ds →
      ds.map (symbol alphabet) = l ∧ ∀ d ∈ ds, d < alphabet.length
  | [], ds, h => by
    obtain rfl : [] = ds := by simpa using h
    simp
  | c :: l, ds, h => by
    rw [mapM_cons] at h
    obtain ⟨d, hd, h⟩ := bind_eq_some_iff.mp h
    obtain ⟨ds', hds, h⟩ := bind_eq_some_iff.mp h
    obtain rfl := some.inj h
    obtain ⟨hs, hlt⟩ := symbol_of_digit hd
    obtain ⟨hmap, hall⟩ := map_symbol_of_digits hds
    refine ⟨by rw [map_cons, hs, hmap], fun x hx => ?_⟩
    rcases mem_cons.mp hx with rfl | hx
    · exact hlt
    · exact hall x hx

/-- What is read as base32 has symbols only, and no more bytes than they have bits for. -/
theorem base32Chars_symbols (hs : base32Chars s = some bs) :
    (∀ c ∈ s, ∃ d < 32, symbol base32Alphabet d = c) ∧ 8 * bs.length ≤ 5 * s.length := by
  have hsymbols : ∀ {l : Bytes} {ds : List Nat}, l.mapM (digit? base32Alphabet) = some ds →
      ∀ c ∈ l, ∃ d < 32, symbol base32Alphabet d = c := by
    intro l ds hds c hc
    obtain ⟨hmap, hlt⟩ := map_symbol_of_digits hds
    rw [← hmap] at hc
    obtain ⟨d, hd, rfl⟩ := mem_map.mp hc
    exact ⟨d, hlt d hd, rfl⟩
  fun_induction base32Chars s generalizing bs with
  | case1 a b c d e f g h rest ih =>
    obtain ⟨ds, hds, hrest⟩ := bind_eq_some_iff.mp hs
    obtain ⟨tail, htail, heq⟩ := bind_eq_some_iff.mp hrest
    obtain rfl := some.inj heq
    obtain ⟨hall, hlen⟩ := ih htail
    refine ⟨fun x hx => ?_, ?_⟩
    · rw [show a :: b :: c :: d :: e :: f :: g :: h :: rest = [a, b, c, d, e, f, g, h] ++ rest
        from rfl] at hx
      rcases mem_append.mp hx with hx | hx
      · exact hsymbols hds x hx
      · exact hall x hx
    · simp only [decodeGroup, length_append, length_toBE, length_cons]
      omega
  | case2 tail hshort =>
    obtain ⟨ds, hds, heq⟩ := bind_eq_some_iff.mp hs
    obtain rfl := some.inj heq
    refine ⟨hsymbols hds, ?_⟩
    rw [decodeGroup, length_toBE]
    unfold base32TailBytes
    split <;> omega

/-- A text of base32 that is as long as its bytes need has no line breaks. -/
theorem base32Decode_symbols (h : base32Decode s = some bs)
    (hlen : 5 * s.length < 8 * bs.length + 5) :
    base32Chars s = some bs ∧ ∀ c ∈ s, ∃ d < 32, symbol base32Alphabet d = c := by
  obtain ⟨hall, hbits⟩ := base32Chars_symbols h
  have hstrip : stripNewlines s = s := by
    refine filter_eq_self.mpr (length_filter_eq_length_iff.mp ?_)
    have hle : (stripNewlines s).length ≤ s.length := length_filter_le _ _
    change (stripNewlines s).length = s.length
    omega
  rw [base32Decode, hstrip] at h
  rw [hstrip] at hall
  exact ⟨h, hall⟩

/-- Digits without spare bits are written back unchanged. -/
theorem encodeGroup_decodeGroup (alphabet : Bytes) (w k : Nat) (ds : List Nat)
    (hlt : ∀ d ∈ ds, d < 2 ^ w) (hk : 8 * k ≤ w * ds.length) (hs : slack w k ds = 0) :
    encodeGroup alphabet w ds.length (decodeGroup w k ds) = ds.map (symbol alphabet) := by
  have hbound := ofDigits_lt (2 ^ w) ds hlt
  rw [← pow_mul] at hbound
  have hquot : ofDigits (2 ^ w) ds / 2 ^ (w * ds.length - 8 * k) < 256 ^ k := by
    have e : (256 : Nat) ^ k = 2 ^ (8 * k) := by rw [pow_mul]; norm_num
    rw [e, Nat.div_lt_iff_lt_mul (Nat.two_pow_pos _), ← pow_add]
    exact lt_of_lt_of_eq hbound (by congr 1; omega)
  have hback : ofDigits (2 ^ w) ds / 2 ^ (w * ds.length - 8 * k) * 2 ^ (w * ds.length - 8 * k) =
      ofDigits (2 ^ w) ds := Nat.div_mul_cancel (Nat.dvd_of_mod_eq_zero hs)
  rw [encodeGroup, decodeGroup, length_toBE, fromBE_toBE, Nat.mod_eq_of_lt hquot, hback,
    toDigits_ofDigits _ _ hlt]

theorem base32Encode_short (h : bs.length ≤ 4) :
    base32Encode bs = encodeGroup base32Alphabet 5 ((8 * bs.length + 4) / 5) bs := by
  match bs, h with
  | [], _ => rfl
  | [_], _ | [_, _], _ | [_, _, _], _ | [_, _, _, _], _ => simp [base32Encode]

/-- The low bits of a text of base32 that decoding leaves out. -/
def base32Slack : Bytes → Nat
  | _ :: _ :: _ :: _ :: _ :: _ :: _ :: _ :: rest => base32Slack rest
  | tail => slack 5 (base32TailBytes tail.length) ((tail.mapM (digit? base32Alphabet)).getD [])

/-- A text of base32 that is as long as its bytes need is their encoding if it leaves nothing
    out. -/
theorem base32Encode_eq_iff (hs : base32Chars s = some bs) (hlen : 5 * s.length < 8 * bs.length + 5)
    : base32Encode bs = s ↔ base32Slack s = 0 := by
  fun_induction base32Chars s generalizing bs with
  | case1 a b c d e f g h rest ih =>
    obtain ⟨ds, hds, hrest⟩ := bind_eq_some_iff.mp hs
    obtain ⟨tail, htail, heq⟩ := bind_eq_some_iff.mp hrest
    obtain rfl := some.inj heq
    obtain ⟨hmap, hlt⟩ := map_symbol_of_digits hds
    have hcount : ds.length = 8 := by rw [← length_map (symbol base32Alphabet), hmap]; rfl
    have hz : slack 5 5 ds = 0 := by simp [slack, hcount, Nat.mod_one]
    have henc := encodeGroup_decodeGroup base32Alphabet 5 5 ds hlt (by rw [hcount]) hz
    have hdec : (decodeGroup 5 5 ds).length = 5 := length_toBE _ _
    match hg : decodeGroup 5 5 ds, hdec with
    | [v, w, x, y, z], _ =>
      rw [hg, hcount, hmap] at henc
      rw [hg] at hlen
      simp only [length_append, length_cons, length_nil] at hlen
      simp only [cons_append, nil_append, base32Encode, henc, base32Slack, cons.injEq, true_and]
      exact ih htail (by omega)
  | case2 tail hshort =>
    obtain ⟨ds, hds, heq⟩ := bind_eq_some_iff.mp hs
    obtain rfl := some.inj heq
    obtain ⟨hmap, hlt⟩ := map_symbol_of_digits hds
    have hcount : ds.length = tail.length := by rw [← hmap, length_map]
    have hbytes : (decodeGroup 5 (base32TailBytes tail.length) ds).length =
      base32TailBytes tail.length := length_toBE _ _
    have hslack : base32Slack tail = slack 5 (base32TailBytes tail.length) ds := by
      rw [base32Slack.eq_2 _ hshort, hds, getD_some]
    rw [hbytes] at hlen
    have hfew : base32TailBytes tail.length ≤ 4 ∧
        (8 * base32TailBytes tail.length + 4) / 5 = tail.length := by
      unfold base32TailBytes at hlen ⊢
      split at hlen <;> simp_all
    rw [base32Encode_short (hbytes.trans_le hfew.1), hbytes, hfew.2, hslack]
    constructor
    · intro henc
      have hback := mapM_digit_encodeGroup (by decide : AlphabetOk base32Alphabet 5) tail.length
        (decodeGroup 5 (base32TailBytes tail.length) ds)
      rw [henc, hds] at hback
      have hzero := slack_digits 5 tail.length (decodeGroup 5 (base32TailBytes tail.length) ds)
        (by rw [hbytes]; omega)
      rwa [← some.inj hback, hbytes] at hzero
    · intro hz
      have henc := encodeGroup_decodeGroup base32Alphabet 5 _ ds hlt (by omega) hz
      rwa [hcount, hmap] at henc

theorem encodeGroup_base64Tail (hl : alphabet.length = 64) {k : Nat} {l : Bytes}
    (hk : 8 * k ≤ 6 * l.length) (h : base64Tail alphabet true k l = some bs) :
    encodeGroup alphabet 6 l.length bs = l ∧ bs.length = k := by
  obtain ⟨ds, hds, h⟩ := bind_eq_some_iff.mp h
  obtain ⟨hmap, hlt⟩ := map_symbol_of_digits hds
  have hlen : ds.length = l.length := by rw [← hmap, length_map]
  split at h
  · cases h
  · rename_i hslack
    obtain rfl := some.inj h
    have hz : slack 6 k ds = 0 := by simpa using hslack
    rw [← hlen] at hk ⊢
    exact ⟨by rw [encodeGroup_decodeGroup alphabet 6 k ds (by simpa [hl] using hlt) hk hz, hmap],
      by simp [decodeGroup]⟩

/-- Strict unpadded decoding accepts canonical text only. -/
theorem base64Encode_of_base64Chars (hl : alphabet.length = 64)
    (h : base64Chars alphabet false true s = some bs) : base64Encode alphabet false bs = s := by
  fun_induction base64Chars alphabet false true s generalizing bs with
  | case1 => obtain rfl := some.inj h; rfl
  | case2 => cases h
  | case3 a b hp => cases hp
  | case4 a b hp =>
    obtain ⟨henc, hlen⟩ := encodeGroup_base64Tail hl (by simp) h
    match bs, hlen with
    | [x], _ => simpa [base64Encode] using henc
  | case5 a b c hp => cases hp
  | case6 a b c hp =>
    obtain ⟨henc, hlen⟩ := encodeGroup_base64Tail hl (by simp) h
    match bs, hlen with
    | [x, y], _ => simpa [base64Encode] using henc
  | case7 | case8 => simp_all
  | case9 a b c d rest hp ih =>
    obtain ⟨ds, hds, h⟩ := bind_eq_some_iff.mp h
    obtain ⟨tail, htail, h⟩ := bind_eq_some_iff.mp h
    obtain rfl := some.inj h
    obtain ⟨hmap, hlt⟩ := map_symbol_of_digits hds
    have hlen : ds.length = 4 := by rw [← length_map (symbol alphabet), hmap]; rfl
    have hz : slack 6 3 ds = 0 := by simp [slack, hlen, Nat.mod_one]
    have henc := encodeGroup_decodeGroup alphabet 6 3 ds (by simpa [hl] using hlt)
      (by rw [hlen]) hz
    have hdec : (decodeGroup 6 3 ds).length = 3 := by simp [decodeGroup]
    match hg : decodeGroup 6 3 ds, hdec with
    | [x, y, z], _ =>
      rw [hg, hlen, hmap] at henc
      simp only [cons_append, nil_append, base64Encode, henc, ih htail]

end Veilmesh.Lib

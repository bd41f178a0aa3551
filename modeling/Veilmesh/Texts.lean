/-
  Texts that stand for 32 bytes.

  Route tags, the identifiers of requests, messages, calls and files are base64url without
  padding, the ENIG identifiers are base32 without padding behind a prefix. A text is canonical
  if it is what the encoder writes. Strict base64 accepts line breaks beside canonical text, and
  base32 leaves the low bits of the last character out; what the checks make of that depends on
  whether they ask for a length.

  * `capability_text_iff`: with the length asked for, strict base64 accepts canonical text only.
  * `enig_text_iff`: which ENIG identifiers among those accepted are canonical.
  * `fileID_text_iff`: which file identifiers among those accepted are canonical.
-/
import Veilmesh.Call.Signal
import Veilmesh.Media.File
import Veilmesh.Message.Message
import Veilmesh.Mix.Codec

namespace Veilmesh

open Lib Protocol Identity List

/-! ## Base64url -/

/-- The unpadded base64url text of 32 bytes. -/
def CapabilityText (s : Bytes) : Prop :=
  ∃ value : Bytes, value.length = 32 ∧ s = base64Encode base64UrlAlphabet false value

/-- Canonical texts that decode to the same bytes are the same. -/
theorem CapabilityText.inj {s t : Bytes} (hs : CapabilityText s) (ht : CapabilityText t)
    (h : base64Decode base64UrlAlphabet false true s =
      base64Decode base64UrlAlphabet false true t) : s = t := by
  obtain ⟨v, -, rfl⟩ := hs
  obtain ⟨w, -, rfl⟩ := ht
  rw [base64Decode_base64Encode base64UrlOk, base64Decode_base64Encode base64UrlOk] at h
  rw [Option.some.inj h]

/-- Route tags and the identifiers of requests, messages and calls are accepted just if they are
    the text of 32 bytes, and no two of them stand for the same bytes. -/
theorem capability_text_iff (s t : Bytes) :
    (validRouteTag s = true ↔ CapabilityText s) ∧
    (Mix.validRequestID s = true ↔ CapabilityText s) ∧
    (Message.validMessageID s = true ↔ CapabilityText s) ∧
    (Call.validCallID s = true ↔ CapabilityText s) ∧
    (CapabilityText s → CapabilityText t → s ≠ t →
      base64Decode base64UrlAlphabet false true s ≠ base64Decode base64UrlAlphabet false true t) :=
  ⟨validRouteTag_spec, Mix.validRequestID_spec, Message.validMessageID_spec, validRouteTag_spec,
    fun hs ht hne h => hne (hs.inj ht h)⟩

/-! ## Base32 -/

/-- The prefix and the unpadded base32 text of a digest. -/
def EnigText (pre s : Bytes) : Prop :=
  ∃ digest : Bytes, digest.length = 32 ∧ s = pre ++ base32Encode digest

/-- The last character is `A` or `Q`: of its five bits, the four that are left out are zero. -/
def EndsEven (s : Bytes) : Prop := s.getLast? = some 65 ∨ s.getLast? = some 81

theorem base32Slack_append (n : Nat) {l : Bytes} (hl : l.length = 8 * n) (rest : Bytes) :
    base32Slack (l ++ rest) = base32Slack rest := by
  induction n generalizing l with
  | zero => rw [eq_nil_of_length_eq_zero hl, nil_append]
  | succ n ih =>
    match l, hl with
    | _ :: _ :: _ :: _ :: _ :: _ :: _ :: _ :: l, hl =>
      change base32Slack (l ++ rest) = base32Slack rest
      exact ih (by simpa [Nat.mul_succ] using hl)

/-- Of the 52 characters for 32 bytes only the last can leave bits out. -/
theorem base32Slack_eq_zero_iff {s : Bytes} (hlen : s.length = digestTextBytes)
    (hs : ∀ c ∈ s, ∃ d < 32, symbol base32Alphabet d = c) : base32Slack s = 0 ↔ EndsEven s := by
  have hdigits : ∀ d ∈ range 32, digit? base32Alphabet (symbol base32Alphabet d) = some d ∧
      (d % 16 = 0 ↔ symbol base32Alphabet d = 65 ∨ symbol base32Alphabet d = 81) := by decide
  obtain ⟨l, rest, rfl, hl, hrest⟩ : ∃ l rest, s = l ++ rest ∧ l.length = 8 * 6 ∧ rest.length = 4 :=
    ⟨s.take 48, s.drop 48, (take_append_drop 48 s).symm, by simp [hlen, digestTextBytes],
      by simp [hlen, digestTextBytes]⟩
  rw [base32Slack_append 6 hl]
  match rest, hrest with
  | [w, x, y, z], _ =>
    obtain ⟨dw, hw, rfl⟩ := hs w (by simp)
    obtain ⟨dx, hx, rfl⟩ := hs x (by simp)
    obtain ⟨dy, hy, rfl⟩ := hs y (by simp)
    obtain ⟨dz, hz, rfl⟩ := hs z (by simp)
    have hread : [symbol base32Alphabet dw, symbol base32Alphabet dx, symbol base32Alphabet dy,
        symbol base32Alphabet dz].mapM (digit? base32Alphabet) = some ([dw, dx, dy] ++ [dz]) := by
      simp [mapM_cons, (hdigits dw (mem_range.mpr hw)).1,
        (hdigits dx (mem_range.mpr hx)).1, (hdigits dy (mem_range.mpr hy)).1,
        (hdigits dz (mem_range.mpr hz)).1]
    have hlast : (l ++ [symbol base32Alphabet dw, symbol base32Alphabet dx, symbol base32Alphabet dy,
        symbol base32Alphabet dz]).getLast? = some (symbol base32Alphabet dz) := by simp
    have hvalue : ofDigits (2 ^ 5) ([dw, dx, dy] ++ [dz]) % 16 = dz % 16 := by
      rw [ofDigits_append_singleton]
      omega
    rw [base32Slack.eq_2 _ (by simp), hread, EndsEven, hlast, Option.some.injEq, Option.some.injEq,
      ← (hdigits dz (mem_range.mpr hz)).2, ← hvalue]
    rfl

/-- Of what the check accepts, the canonical texts are those whose last character leaves no bits
    out. -/
theorem valid_and_endsEven_iff (pre s : Bytes) :
    valid s pre = true ∧ EndsEven s ↔ EnigText pre s := by
  have hends : ∀ {rest : Bytes}, rest.length = digestTextBytes →
      (EndsEven (pre ++ rest) ↔ EndsEven rest) := by
    intro rest hrest
    have hlast : (pre ++ rest).getLast? = rest.getLast? := by
      refine getLast?_append_of_ne_nil _ ?_
      rintro rfl
      cases hrest
    rw [EndsEven, hlast, EndsEven]
  constructor
  · rintro ⟨h, heven⟩
    obtain ⟨rest, digest, rfl, hlen, hdecode, hdigest⟩ := valid_spec h
    have htight : 5 * rest.length < 8 * digest.length + 5 := by rw [hlen, hdigest]; decide
    obtain ⟨hchars, hsymbols⟩ := base32Decode_symbols hdecode htight
    refine ⟨digest, hdigest, ?_⟩
    rw [(base32Encode_eq_iff hchars htight).mpr ((base32Slack_eq_zero_iff hlen hsymbols).mpr
      ((hends hlen).mp heven))]
  · rintro ⟨digest, hdigest, rfl⟩
    have hlen : (base32Encode digest).length = digestTextBytes := by
      rw [length_base32Encode, hdigest]
      rfl
    have htight : 5 * (base32Encode digest).length < 8 * digest.length + 5 := by
      rw [hlen, hdigest]
      decide
    obtain ⟨hchars, hsymbols⟩ := base32Decode_symbols (base32Decode_base32Encode digest) htight
    exact ⟨valid_own pre hdigest, (hends hlen).mpr ((base32Slack_eq_zero_iff hlen hsymbols).mp
      ((base32Encode_eq_iff hchars htight).mp rfl))⟩

/-- An accepted ENIG identifier is canonical text just if its last character leaves no bits out;
    no two such identifiers of one type have the same digest. -/
theorem enig_text_iff (s t : Bytes) :
    ((validAccountID s = true ↔ EnigText accountPrefix s) ↔
      (validAccountID s = true → EndsEven s)) ∧
    ((validDeviceID s = true ↔ EnigText devicePrefix s) ↔
      (validDeviceID s = true → EndsEven s)) ∧
    ((validGroupID s = true ↔ EnigText groupPrefix s) ↔ (validGroupID s = true → EndsEven s)) ∧
    ∀ pre ∈ [accountPrefix, devicePrefix, groupPrefix], valid s pre = true → valid t pre = true →
      EndsEven s → EndsEven t → s ≠ t →
      base32Decode (s.drop pre.length) ≠ base32Decode (t.drop pre.length) := by
  have hiff : ∀ pre, (valid s pre = true ↔ EnigText pre s) ↔ (valid s pre = true → EndsEven s) := by
    intro pre
    rw [← valid_and_endsEven_iff]
    exact ⟨fun h hvalid => (h.mp hvalid).2, fun h => ⟨fun hvalid => ⟨hvalid, h hvalid⟩, And.left⟩⟩
  refine ⟨hiff accountPrefix, hiff devicePrefix, hiff groupPrefix, ?_⟩
  intro pre _ hs ht hevens hevent hne h
  obtain ⟨v, -, rfl⟩ := (valid_and_endsEven_iff pre s).mp ⟨hs, hevens⟩
  obtain ⟨w, -, rfl⟩ := (valid_and_endsEven_iff pre t).mp ⟨ht, hevent⟩
  rw [List.drop_left, List.drop_left, base32Decode_base32Encode, base32Decode_base32Encode] at h
  exact hne (by rw [Option.some.inj h])

/-- Sixteen last characters are taken for one: `B` for `A`. -/
theorem enig_two_texts : ∃ s t : Bytes, s ≠ t ∧ validAccountID s = true ∧ validAccountID t = true ∧
    base32Decode (s.drop accountPrefix.length) = base32Decode (t.drop accountPrefix.length) ∧
    ¬ EnigText accountPrefix t := by
  refine ⟨accountPrefix ++ List.replicate 52 65, accountPrefix ++ List.replicate 51 65 ++ [66],
    by decide, by decide +kernel, by decide +kernel, by decide +kernel, fun htext => ?_⟩
  have heven := ((valid_and_endsEven_iff _ _).mpr htext).2
  rw [EndsEven, List.getLast?_concat] at heven
  revert heven
  decide

/-! ## The identifiers of files -/

/-- Without carriage returns and line feeds. -/
def NoBreaks (s : Bytes) : Prop := ∀ c ∈ s, c ≠ 10 ∧ c ≠ 13

theorem stripNewlines_eq_self {s : Bytes} : stripNewlines s = s ↔ NoBreaks s := by
  simp only [stripNewlines, filter_eq_self, Bool.and_eq_true, bne_iff_ne, NoBreaks]

/-- An accepted file identifier is canonical text just if it has no line breaks; no two such
    identifiers stand for the same bytes. -/
theorem fileID_text_iff {p : Platform} {secret secret' : Media.FileSecret}
    {manifest manifest' : FileManifest} (h : Media.validateManifest p secret manifest = .ok ())
    (h' : Media.validateManifest p secret' manifest' = .ok ()) :
    (CapabilityText manifest.fileID ↔ NoBreaks manifest.fileID) ∧
    (NoBreaks manifest.fileID → NoBreaks manifest'.fileID → manifest.fileID ≠ manifest'.fileID →
      base64Decode base64UrlAlphabet false true manifest.fileID ≠
        base64Decode base64UrlAlphabet false true manifest'.fileID) := by
  have hiff : ∀ {secret : Media.FileSecret} {manifest : FileManifest},
      Media.validateManifest p secret manifest = .ok () →
      (CapabilityText manifest.fileID ↔ NoBreaks manifest.fileID) := by
    intro secret manifest h
    obtain ⟨hheader, -⟩ := Media.validateManifest_ok_iff.mp h
    simp only [Media.headerOk, Bool.and_eq_true] at hheader
    have hid := hheader.1.1.1.1.1.1.1.1.1.1.1.1.1
    split at hid
    · rename_i value hvalue
      constructor
      · rintro ⟨v, -, htext⟩
        rw [← stripNewlines_eq_self, htext]
        exact stripNewlines_base64Encode base64UrlOk false v
      · intro hbreaks
        refine ⟨value, beq_iff_eq.mp hid, ?_⟩
        rw [base64Encode_of_base64Chars (by decide) hvalue, stripNewlines_eq_self.mpr hbreaks]
    · cases hid
  exact ⟨hiff h, fun hbreaks hbreaks' hne heq =>
    hne (((hiff h).mpr hbreaks).inj ((hiff h').mpr hbreaks') heq)⟩

/-- A manifest of one chunk, and its secret. -/
def singleManifest (fileID : Bytes) : FileManifest :=
  ⟨protocolVersion, fileID, lit "file.bin", lit "application/octet-stream", 1, 16 * 1024,
    [⟨0, List.replicate 43 65, List.replicate 32 0, 16 * 1024 + 32⟩]⟩

def singleSecret (fileID : Bytes) : Media.FileSecret :=
  ⟨fileID, List.replicate 32 0, [⟨0, List.replicate 32 0⟩]⟩

theorem fileID_text_zero : NoBreaks (singleManifest (List.replicate 43 65)).fileID ∧
    CapabilityText (singleManifest (List.replicate 43 65)).fileID := by
  have hvalid : Media.validateManifest .unix (singleSecret (List.replicate 43 65))
    (singleManifest (List.replicate 43 65)) = .ok () := by decide +kernel
  have hbreaks : NoBreaks (singleManifest (List.replicate 43 65)).fileID :=
    stripNewlines_eq_self.mp (by decide)
  exact ⟨hbreaks, (fileID_text_iff hvalid hvalid).1.mpr hbreaks⟩

/-- A line feed at the end is accepted as well. -/
theorem fileID_two_texts : ∃ s t : Bytes, s ≠ t ∧
    Media.validateManifest .unix (singleSecret s) (singleManifest s) = .ok () ∧
    Media.validateManifest .unix (singleSecret t) (singleManifest t) = .ok () ∧
    base64Decode base64UrlAlphabet false true s = base64Decode base64UrlAlphabet false true t ∧
    ¬ CapabilityText t := by
  refine ⟨List.replicate 43 65, List.replicate 43 65 ++ [10], by decide, by decide +kernel,
    by decide +kernel, by decide +kernel, ?_⟩
  rintro ⟨value, hlength, htext⟩
  have hlen := congrArg List.length htext
  rw [length_base64Encode, hlength] at hlen
  revert hlen
  decide

end Veilmesh

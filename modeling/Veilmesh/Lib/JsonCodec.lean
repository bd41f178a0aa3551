/-
  Typed reading and writing of JSON.

  A `Codec` pairs the writer of a type with its reader. A reader decodes into a value
  that is already there, because that is what the standard decoder does: `null` leaves a
  number, a string, a time or a record as it was, a record keeps the members the text
  does not mention, and of a member written twice the later one wins. Record members are
  found by exact name first and then up to case; a member with no field is an error.

  * `Codec.Reads`: what the writer writes for `v` the reader reads as `w`, whatever was
    there before; `Codec.Roundtrips` when that is `v` itself.
  * `structCodec_reads`, `structCodec_roundtrips`: the same for a record whose fields do.
  * `structCodec_invariant`: a property every field keeps holds of every decoded record.
  * `unmarshal_marshal`: the same on the level of texts.
-/
import Veilmesh.Lib.GoMap
import Veilmesh.Lib.Json

namespace Veilmesh.Lib

open Json List Option

/-- A writer and a reader for a type; the reader decodes into its first argument. -/
structure Codec (α : Type) where
  encode : α → Option Json
  decode : α → Json → Option α

/-- The text of a value, or nothing when a part of it has no text. -/
def marshal {α : Type} (c : Codec α) (v : α) : Option Bytes := (c.encode v).map render

/-- Reading one value and the end of the input into `zero`. -/
def unmarshal {α : Type} (c : Codec α) (zero : α) (data : Bytes) : Option α :=
  (parse data).bind (c.decode zero)

/-- What the writer writes for `v` the reader reads as `w`. -/
def Codec.Reads {α : Type} (c : Codec α) (v w : α) : Prop :=
  ∀ j, c.encode v = some j → WF j ∧ ∀ old, c.decode old j = some w

/-- The reader gives back what the writer was given. -/
def Codec.Roundtrips {α : Type} (c : Codec α) (v : α) : Prop :=
  ∀ j, c.encode v = some j → WF j ∧ ∀ old, c.decode old j = some v

variable {α : Type} {c : Codec α} {v w zero : α} {data : Bytes} {t : Time} {m : GoMap Bytes α}
  {j : Json}

/-- White space after a text is passed over. -/
theorem unmarshal_space {space : Bytes} (hc : c.Reads v w) (h : marshal c v = some data)
    (hs : ∀ b ∈ space, isSpace b = true) : unmarshal c zero (data ++ space) = some w := by
  obtain ⟨j, hj, rfl⟩ := map_eq_some_iff.mp h
  obtain ⟨hwf, hdec⟩ := hc j hj
  rw [unmarshal, parse_render_space j hwf hs, bind_some, hdec]

theorem unmarshal_of_reads (hc : c.Reads v w) (h : marshal c v = some data) :
    unmarshal c zero data = some w := by
  have hspace : unmarshal c zero (data ++ []) = some w :=
    unmarshal_space hc h fun b hb => absurd hb not_mem_nil
  rwa [append_nil] at hspace

theorem unmarshal_marshal {α : Type} {c : Codec α} {v zero : α} {data : Bytes}
    (hc : c.Roundtrips v) (h : marshal c v = some data) : unmarshal c zero data = some v :=
  unmarshal_of_reads hc h

/-! ## Numbers -/

/-- The shortest decimal text of a number below `10 ^ 20`. -/
def decText (n : Nat) : Bytes :=
  let ds := (toDigits 10 20 n).dropWhile (· == 0)
  if ds = [] then [48] else ds.map Time.decChar

/-- A decimal number below `bound`, nothing else. -/
def readUint (bound : Nat) (text : Bytes) : Option Nat :=
  (text.mapM Time.decDigit?).bind fun ds =>
    if ds ≠ [] ∧ ofDigits 10 ds < bound then some (ofDigits 10 ds) else none

/-- A decimal number in the signed 64-bit range. -/
def readInt (text : Bytes) : Option Int :=
  if text.head? = some 45 then (readUint (2 ^ 63 + 1) text.tail).map fun n : Nat => -(n : Int)
  else (readUint (2 ^ 63) text).map fun n : Nat => (n : Int)

/-- The text of a signed number. -/
def intText (x : Int) : Bytes := if x < 0 then 45 :: decText x.natAbs else decText x.natAbs

theorem ofDigits_dropZeros (ds : List Nat) :
    ofDigits 10 (ds.dropWhile (· == 0)) = ofDigits 10 ds := by
  induction ds with
  | nil => rfl
  | cons d ds ih =>
    rw [dropWhile_cons]
    split
    · rename_i hd
      rw [ih, beq_iff_eq.mp hd]
      rfl
    · rfl

theorem mapM_decDigit_decChar (ds : List Nat) (h : ∀ d ∈ ds, d < 10) :
    (ds.map Time.decChar).mapM Time.decDigit? = some ds := by
  induction ds with
  | nil => rfl
  | cons d ds ih =>
    have hd := Time.decDigit_decChar (h d (by simp))
    simp [mapM_cons, hd, ih fun x hx => h x (by simp [hx])]

theorem decText_digits (n : Nat) : ∃ ds : List Nat, decText n = ds.map Time.decChar ∧ ds ≠ [] ∧
    (∀ d ∈ ds, d < 10) ∧ ofDigits 10 ds = n % 10 ^ 20 ∧ (ds.head? = some 0 → ds.length = 1) := by
  have hlt := toDigits_lt 10 20 n (by decide)
  have hval := ofDigits_dropZeros (toDigits 10 20 n)
  rw [ofDigits_toDigits] at hval
  unfold decText
  dsimp only
  generalize toDigits 10 20 n = all at hlt hval ⊢
  split
  · rename_i hnil
    rw [hnil] at hval
    refine ⟨[0], rfl, by decide, by decide, ?_, fun _ => rfl⟩
    rw [← hval]
    rfl
  · rename_i hne
    refine ⟨_, rfl, hne, fun d hd => hlt d ((dropWhile_suffix _).subset hd), hval, ?_⟩
    intro hz
    have := head?_dropWhile_not (· == 0) all
    rw [hz] at this
    simp at this

theorem readUint_decText {n bound : Nat} (hb : n < bound) (hn : n < 10 ^ 20) :
    readUint bound (decText n) = some n := by
  obtain ⟨ds, htext, hne, hlt, hval, -⟩ := decText_digits n
  rw [Nat.mod_eq_of_lt hn] at hval
  rw [readUint, htext, mapM_decDigit_decChar ds hlt, bind_some, if_pos ⟨hne, by omega⟩, hval]

theorem isDigit_decChar : ∀ d < 10, isDigit (Time.decChar d) = true ∧
    (Time.decChar d = 48 → d = 0) ∧ Time.decChar d ≠ 45 := by decide

theorem decText_numOk (n : Nat) : (∀ c ∈ decText n, isDigit c = true) ∧ decText n ≠ [] ∧
    ¬ ((decText n).head? = some 48 ∧ 1 < (decText n).length) := by
  obtain ⟨ds, htext, hne, hlt, -, hlead⟩ := decText_digits n
  rw [htext]
  refine ⟨?_, by simpa using hne, ?_⟩
  · intro c hc
    obtain ⟨d, hd, rfl⟩ := mem_map.mp hc
    exact (isDigit_decChar d (hlt d hd)).1
  · rintro ⟨hhead, hlen⟩
    cases ds with
    | nil => exact hne rfl
    | cons d ds =>
      simp only [map_cons, head?_cons, Option.some.injEq] at hhead
      have hd := (isDigit_decChar d (hlt d (by simp))).2.1 hhead
      have := hlead (by simp [hd])
      simp only [length_map] at hlen
      omega

theorem numOk_decText (n : Nat) : NumOk (decText n) :=
  ⟨decText n, Or.inl rfl, (decText_numOk n).2.1, (decText_numOk n).1, (decText_numOk n).2.2⟩

theorem numOk_intText (x : Int) : NumOk (intText x) := by
  unfold intText
  obtain ⟨h1, h2, h3⟩ := decText_numOk x.natAbs
  split
  · exact ⟨_, Or.inr rfl, h2, h1, h3⟩
  · exact ⟨_, Or.inl rfl, h2, h1, h3⟩

theorem readInt_intText {x : Int} (h1 : -2 ^ 63 ≤ x) (h2 : x < 2 ^ 63) :
    readInt (intText x) = some x := by
  unfold readInt intText
  split
  · rename_i hneg
    rw [head?_cons, if_pos rfl, tail_cons, readUint_decText (by omega) (by omega), map_some]
    congr 1
    omega
  · have hhead : (decText x.natAbs).head? ≠ some 45 := by
      intro h
      have hd := (decText_numOk x.natAbs).1 45 (mem_of_mem_head? h)
      exact absurd hd (by decide)
    rw [if_neg hhead, readUint_decText (by omega) (by omega), map_some]
    congr 1
    omega

/-! ## Codecs of the basic types -/

/-- Strings; a byte that is not UTF-8 is lost on the way. -/
def stringCodec : Codec Bytes where
  encode s := some (.str (escape s))
  decode
    | old, .null => some old
    | _, .str raw => some (unquote raw)
    | _, _ => none

def uint8Codec : Codec UInt8 where
  encode n := some (.num (decText n.toNat))
  decode
    | old, .null => some old
    | _, .num text => (readUint (2 ^ 8) text).map UInt8.ofNat
    | _, _ => none

def uint16Codec : Codec UInt16 where
  encode n := some (.num (decText n.toNat))
  decode
    | old, .null => some old
    | _, .num text => (readUint (2 ^ 16) text).map UInt16.ofNat
    | _, _ => none

def uint64Codec : Codec UInt64 where
  encode n := some (.num (decText n.toNat))
  decode
    | old, .null => some old
    | _, .num text => (readUint (2 ^ 64) text).map UInt64.ofNat
    | _, _ => none

def int64Codec : Codec Int64 where
  encode n := some (.num (intText n.toInt))
  decode
    | old, .null => some old
    | _, .num text => (readInt text).map Int64.ofInt
    | _, _ => none

def boolCodec : Codec Bool where
  encode b := some (.bool b)
  decode
    | old, .null => some old
    | _, .bool b => some b
    | _, _ => none

/-- Elements of a list, each decoded into the element at its place or into `zero`. -/
def decodeElems {α : Type} (c : Codec α) (zero : α) : List α → List Json → Option (List α)
  | _, [] => some []
  | old, j :: js =>
    (c.decode (old.headD zero) j).bind fun v =>
      (decodeElems c zero old.tail js).map fun vs => v :: vs

/-- Lists; an empty one is written as `null`. -/
def listCodec {α : Type} (c : Codec α) (zero : α) : Codec (List α) where
  encode
    | [] => some .null
    | vs => (vs.mapM c.encode).map .arr
  decode
    | _, .null => some []
    | old, .arr js => decodeElems c zero old js
    | _, _ => none

/-- Maps with text keys: members in the byte order of the keys; a reader adds to the map. -/
def mapCodec {α : Type} (c : Codec α) (zero : α) : Codec (GoMap Bytes α) where
  encode m := (m.sortedKeys.mapM fun k =>
    (m.lookup k).bind fun v => (c.encode v).map fun j => (escape k, j)).map .obj
  decode
    | _, .null => some ∅
    | old, .obj ms => ms.foldlM (fun m (k, j) => (c.decode zero j).map fun v => m.insert (unquote k) v) old
    | _, _ => none

/-- Byte strings: base64 text, or a list of numbers when reading. -/
def bytesCodec : Codec Bytes where
  encode
    | [] => some .null
    | bs => some (.str (base64Encode base64StdAlphabet true bs))
  decode
    | _, .null => some []
    | _, .str raw => base64Decode base64StdAlphabet true false (unquote raw)
    | old, .arr js => decodeElems uint8Codec 0 old js
    | _, _ => none

/-- Times; the reader looks at the raw characters. -/
def timeCodec : Codec Time where
  encode t := t.marshalText.map .str
  decode
    | old, .null => some old
    | _, .str raw => Time.parse raw
    | _, _ => none

theorem stringCodec_roundtrips {s : Bytes} (h : Plain s) : stringCodec.Roundtrips s := by
  intro j hj
  obtain rfl : Json.str (escape s) = j := by simpa [stringCodec] using hj
  rw [escape_of_plain h]
  exact ⟨strOk_of_plain h, fun old => by simp [stringCodec, unquote_of_plain h]⟩

/-- Any text is read as something. -/
theorem stringCodec_reads (s : Bytes) : stringCodec.Reads s (unquote (escape s)) := by
  intro j hj
  obtain rfl : Json.str (escape s) = j := by simpa [stringCodec] using hj
  exact ⟨strOk_escape s, fun old => rfl⟩

theorem boolCodec_roundtrips (b : Bool) : boolCodec.Roundtrips b := by
  intro j hj
  obtain rfl := some.inj hj
  exact ⟨trivial, fun _ => rfl⟩

theorem uint8Codec_roundtrips (n : UInt8) : uint8Codec.Roundtrips n := by
  intro j hj
  obtain rfl : Json.num (decText n.toNat) = j := by simpa [uint8Codec] using hj
  refine ⟨numOk_decText _, fun old => ?_⟩
  have hn := n.toNat_lt
  simp [uint8Codec, readUint_decText hn (by omega)]

theorem uint64Codec_roundtrips (n : UInt64) : uint64Codec.Roundtrips n := by
  intro j hj
  obtain rfl : Json.num (decText n.toNat) = j := by simpa [uint64Codec] using hj
  refine ⟨numOk_decText _, fun old => ?_⟩
  have hn := n.toNat_lt
  simp [uint64Codec, readUint_decText hn (by omega)]

theorem int64Codec_roundtrips (n : Int64) : int64Codec.Roundtrips n := by
  intro j hj
  obtain rfl : Json.num (intText n.toInt) = j := by simpa [int64Codec] using hj
  refine ⟨numOk_intText _, fun old => ?_⟩
  simp [int64Codec, readInt_intText n.le_toInt n.toInt_lt]

theorem plain_symbol : ∀ d ∈ List.range 64, plainByte (symbol base64StdAlphabet d) = true := by
  decide

theorem plain_encodeGroup (m : Nat) (bs : Bytes) :
    Plain (encodeGroup base64StdAlphabet 6 m bs) := by
  intro c hc
  obtain ⟨d, hd, rfl⟩ := mem_map.mp hc
  exact plain_symbol d (mem_range.mpr (toDigits_lt _ _ _ (by decide) d hd))

theorem plain_base64Encode (bs : Bytes) : Plain (base64Encode base64StdAlphabet true bs) := by
  fun_induction base64Encode base64StdAlphabet true bs with
  | case1 a b c rest ih => exact (plain_encodeGroup 4 _).append ih
  | case2 a b => exact (plain_encodeGroup 3 _).append (by decide)
  | case3 a => exact (plain_encodeGroup 2 _).append (by decide)
  | case4 => decide

theorem bytesCodec_roundtrips (bs : Bytes) : bytesCodec.Roundtrips bs := by
  intro j hj
  cases bs with
  | nil =>
    obtain rfl : Json.null = j := by simpa [bytesCodec] using hj
    exact ⟨trivial, fun old => rfl⟩
  | cons b bs =>
    obtain rfl : Json.str (base64Encode base64StdAlphabet true (b :: bs)) = j := by
      simpa [bytesCodec] using hj
    have hp := plain_base64Encode (b :: bs)
    refine ⟨strOk_of_plain hp, fun old => ?_⟩
    simp [bytesCodec, unquote_of_plain hp, base64Decode_base64Encode base64StdOk]

theorem plain_decChar : ∀ d < 10, plainByte (Time.decChar d) = true := by decide

theorem plain_map_decChar (ds : List Nat) (h : ∀ d ∈ ds, d < 10) : Plain (ds.map Time.decChar) := by
  intro c hc
  obtain ⟨d, hd, rfl⟩ := mem_map.mp hc
  exact plain_decChar d (h d hd)

theorem plain_decPad (k n : Nat) : Plain (Time.decPad k n) :=
  plain_map_decChar _ (toDigits_lt 10 k n (by decide))

theorem plain_cons_append {c : UInt8} {s : Bytes} (hc : plainByte c = true) (hs : Plain s) :
    Plain (c :: s) := plain_cons.mpr ⟨hc, hs⟩

theorem plain_marshalText {b : Bytes} (h : t.marshalText = some b) : Plain b := by
  simp only [Time.marshalText] at h
  split at h
  · obtain rfl := some.inj h
    refine Plain.append ?_ (plain_cons_append (by decide) (Plain.append ?_ (Plain.append ?_ ?_)))
    · exact (plain_decPad 4 _).append (plain_cons_append (by decide)
        ((plain_decPad 2 _).append (plain_cons_append (by decide) (plain_decPad 2 _))))
    · exact (plain_decPad 2 _).append (plain_cons_append (by decide)
        ((plain_decPad 2 _).append (plain_cons_append (by decide) (plain_decPad 2 _))))
    · unfold Time.fractionText
      split
      · decide
      · exact plain_cons_append (by decide) (plain_map_decChar _ fun d hd =>
          toDigits_lt 10 9 _ (by decide) d (Time.mem_trimZeros hd))
    · unfold Time.zoneText
      split
      · decide
      · refine plain_cons_append (by split <;> decide) ((plain_decPad 2 _).append
          (plain_cons_append (by decide) (plain_decPad 2 _)))
  · cases h

/-- Times come back as the instant their text shows. -/
theorem timeCodec_reads (t : Time) : timeCodec.Reads t t.shown := by
  intro j hj
  obtain ⟨b, hb, rfl⟩ := map_eq_some_iff.mp hj
  exact ⟨strOk_of_plain (plain_marshalText hb), fun old => Time.parse_marshalText_shown hb⟩

/-- Times come back when their offset has no seconds. -/
theorem timeCodec_roundtrips (h : t.off % 60 = 0) : timeCodec.Roundtrips t := by
  have hreads := timeCodec_reads t
  rwa [Time.shown_of_minutes h] at hreads

/-! ## Records -/

theorem mapM_eq_some {α : Type*} {β : Type} {f : α → Option β} {xs : List α} {ys : List β} :
    xs.mapM f = some ys ↔ Forall₂ (fun x y => f x = some y) xs ys := by
  induction xs generalizing ys with
  | nil => simp [eq_comm]
  | cons x xs ih =>
    simp only [mapM_cons, Option.bind_eq_bind, bind_eq_some_iff, Option.pure_def,
      Option.some.injEq, forall₂_cons_left_iff, ih]
    constructor
    · rintro ⟨y, hy, ys', hys, rfl⟩
      exact ⟨y, ys', hy, hys, rfl⟩
    · rintro ⟨y, ys', hy, hys, rfl⟩
      exact ⟨y, hy, ys', hys, rfl⟩

theorem exists_mapM_iff {α : Type*} {β : Type} {f : α → Option β} {xs : List α} :
    (∃ ys, xs.mapM f = some ys) ↔ ∀ x ∈ xs, ∃ y, f x = some y := by
  simp only [mapM_eq_some]
  induction xs with
  | nil => simp
  | cons x xs ih =>
    simp only [forall₂_cons_left_iff, forall_mem_cons, ← ih]
    constructor
    · rintro ⟨-, y, ys, hy, hys, rfl⟩
      exact ⟨⟨y, hy⟩, ys, hys⟩
    · rintro ⟨⟨y, hy⟩, ys, hys⟩
      exact ⟨_, y, ys, hy, hys, rfl⟩

/-- A list reads back when its elements do. -/
theorem listCodec_roundtrips {vs : List α} (h : ∀ v ∈ vs, c.Roundtrips v) :
    (listCodec c zero).Roundtrips vs := by
  have helems : ∀ js, vs.mapM c.encode = some js →
      WFElems js ∧ ∀ old, decodeElems c zero old js = some vs := by
    intro js hjs
    rw [mapM_eq_some] at hjs
    induction hjs with
    | nil => exact ⟨trivial, fun old => rfl⟩
    | @cons v j vs js hj _ ih =>
      obtain ⟨hwf, hdec⟩ := h v (by simp) j hj
      obtain ⟨hwfs, hdecs⟩ := ih fun w hw => h w (by simp [hw])
      refine ⟨⟨hwf, hwfs⟩, fun old => ?_⟩
      rw [decodeElems, hdec, bind_some, hdecs, map_some]
  intro j hj
  cases vs with
  | nil =>
    obtain rfl := some.inj hj
    exact ⟨trivial, fun old => rfl⟩
  | cons v vs =>
    obtain ⟨js, hjs, rfl⟩ := map_eq_some_iff.mp hj
    obtain ⟨hwf, hdec⟩ := helems js hjs
    exact ⟨hwf, hdec⟩

/-- A map is read as some map when its values are read as something. -/
theorem mapCodec_readable (h : ∀ k v, m.lookup k = some v → ∃ w, c.Reads v w)
    (hj : (mapCodec c zero).encode m = some j) :
    WF j ∧ ∀ old, ∃ m', (mapCodec c zero).decode old j = some m' := by
  obtain ⟨ms, hms, rfl⟩ := map_eq_some_iff.mp hj
  change WFMembers ms ∧ ∀ old : GoMap Bytes α, ∃ m',
    ms.foldlM (fun m x => (c.decode zero x.2).map fun v => m.insert (unquote x.1) v) old = some m'
  clear hj
  rw [mapM_eq_some] at hms
  generalize m.sortedKeys = ks at hms
  induction hms with
  | nil => exact ⟨trivial, fun old => ⟨old, rfl⟩⟩
  | @cons k x ks ms hx _ ih =>
    obtain ⟨v, hv, hx⟩ := bind_eq_some_iff.mp hx
    obtain ⟨j, hj, rfl⟩ := map_eq_some_iff.mp hx
    obtain ⟨w, hw⟩ := h k v hv
    obtain ⟨hwf, hdec⟩ := hw j hj
    obtain ⟨hwfs, hrest⟩ := ih
    refine ⟨⟨strOk_escape k, hwf, hwfs⟩, fun old => ?_⟩
    rw [foldlM_cons, hdec]
    exact hrest _

/-- A record member: its name and how it is read from and put into the record. -/
structure JsonField (σ : Type) where
  name : Bytes
  type : Type
  get : σ → type
  set : σ → type → σ
  codec : Codec type

/-- Lower-case form of a name, the Kelvin sign and the long s included. -/
def foldName : Bytes → Bytes
  | 0xE2 :: 0x84 :: 0xAA :: s => 107 :: foldName s
  | 0xC5 :: 0xBF :: s => 115 :: foldName s
  | c :: s => (if 65 ≤ c ∧ c ≤ 90 then c + 32 else c) :: foldName s
  | [] => []

/-- The field a member is for: by name, else up to case. -/
def findField {σ : Type} (fs : List (JsonField σ)) (key : Bytes) : Option (JsonField σ) :=
  (fs.find? fun f => f.name == key).orElse fun _ => fs.find? fun f => foldName f.name == foldName key

/-- Decode a member into its field. -/
def JsonField.decodeInto {σ : Type} (f : JsonField σ) (s : σ) (j : Json) : Option σ :=
  (f.codec.decode (f.get s) j).map (f.set s)

/-- One member of the object written for `s`. -/
def encodeMember {σ : Type} (s : σ) (f : JsonField σ) : Option (Bytes × Json) :=
  (f.codec.encode (f.get s)).map fun j => (f.name, j)

/-- Decode one member of an object. -/
def decodeMember {σ : Type} (fs : List (JsonField σ)) (s : σ) (m : Bytes × Json) : Option σ :=
  (findField fs (unquote m.1)).bind fun f => f.decodeInto s m.2

/-- Records: members in the order of the fields, unknown members refused. -/
def structCodec {σ : Type} (fs : List (JsonField σ)) : Codec σ where
  encode s := (fs.mapM (encodeMember s)).map .obj
  decode
    | s, .null => some s
    | s, .obj ms => ms.foldlM (decodeMember fs) s
    | _, _ => none

variable {σ : Type} {fs : List (JsonField σ)} {s : σ}

/-- Names that are written as they are and found again. -/
def NamesOk {σ : Type} (fs : List (JsonField σ)) : Prop :=
  (fs.map JsonField.name).Nodup ∧ ∀ n ∈ fs.map JsonField.name, Plain n

theorem findField_of_mem (h : (fs.map JsonField.name).Nodup) {f : JsonField σ} (hf : f ∈ fs) :
    findField fs f.name = some f := by
  have hfind : (fs.find? fun g => g.name == f.name) = some f := by
    induction fs with
    | nil => cases hf
    | cons g fs ih =>
      rw [map_cons, nodup_cons] at h
      rcases mem_cons.mp hf with rfl | hf
      · simp
      · have hne : g.name ≠ f.name := by
          intro he
          exact h.1 (he ▸ mem_map_of_mem hf)
        rw [List.find?_cons_of_neg (by simpa using hne)]
        exact ih h.2 hf
  rw [findField, hfind]
  rfl

/-- A member of a known name is decoded into its field. -/
theorem decodeMember_name (hn : NamesOk fs) {f : JsonField σ} (hf : f ∈ fs) (s : σ) (j : Json) :
    decodeMember fs s (f.name, j) = f.decodeInto s j := by
  rw [decodeMember, unquote_of_plain (hn.2 f.name (mem_map_of_mem hf)),
    findField_of_mem hn.1 hf, bind_some]

/-- Copy the fields of `t` into `s`. -/
def copyFields {σ : Type} (t : σ) (fs : List (JsonField σ)) (s : σ) : σ :=
  fs.foldl (fun s f => f.set s (f.get t)) s

/-- Members written for `r` and read as those of `t` one after the other copy its fields. -/
theorem decode_members {all : List (JsonField σ)} (hn : NamesOk all) (r t : σ) :
    ∀ (fs : List (JsonField σ)), (∀ f ∈ fs, f ∈ all) →
      (∀ f ∈ fs, f.codec.Reads (f.get r) (f.get t)) →
      ∀ ms, fs.mapM (encodeMember r) = some ms →
        WFMembers ms ∧ ∀ s, ms.foldlM (decodeMember all) s = some (copyFields t fs s)
  | [], _, _, ms, h => by
    obtain rfl : [] = ms := by simpa using h
    exact ⟨trivial, fun s => rfl⟩
  | f :: fs, hall, hrt, ms, h => by
    obtain ⟨m, ms, hm, hms, rfl⟩ := forall₂_cons_left_iff.mp (mapM_eq_some.mp h)
    obtain ⟨j, hj, rfl⟩ := map_eq_some_iff.mp hm
    have hf := hall f (by simp)
    have hplain := hn.2 f.name (mem_map_of_mem hf)
    obtain ⟨hwf, hdec⟩ := hrt f (by simp) j hj
    obtain ⟨hwfs, hrest⟩ := decode_members hn r t fs (fun g hg => hall g (by simp [hg]))
      (fun g hg => hrt g (by simp [hg])) ms (mapM_eq_some.mpr hms)
    refine ⟨⟨strOk_of_plain hplain, hwf, hwfs⟩, fun s => ?_⟩
    have hm : decodeMember all s (f.name, j) = some (f.set s (f.get t)) := by
      rw [decodeMember_name hn hf, JsonField.decodeInto, hdec, map_some]
    rw [foldlM_cons, hm]
    exact hrest _

/-- A record is read as the record its fields are read as. -/
theorem structCodec_reads {r t : σ} (hn : NamesOk fs) (hcopy : ∀ s, copyFields t fs s = t)
    (hf : ∀ f ∈ fs, f.codec.Reads (f.get r) (f.get t)) : (structCodec fs).Reads r t := by
  intro j hj
  obtain ⟨ms, hms, rfl⟩ := map_eq_some_iff.mp hj
  obtain ⟨hwf, hdec⟩ := decode_members hn r t fs (fun f hf => hf) hf ms hms
  exact ⟨hwf, fun s => by rw [← hcopy s]; exact hdec s⟩

/-- What holds of each field of a record. -/
inductive Fields {σ : Type} (P : JsonField σ → Prop) : List (JsonField σ) → Prop where
  | nil : Fields P []
  | cons {f : JsonField σ} {fs : List (JsonField σ)} (hf : P f) (h : Fields P fs) : Fields P (f :: fs)

theorem Fields.of_mem {P : JsonField σ → Prop} (h : Fields P fs) : ∀ f ∈ fs, P f := by
  induction h with
  | nil => exact fun f hf => absurd hf not_mem_nil
  | cons hf _ ih => exact forall_mem_cons.mpr ⟨hf, ih⟩

/-- A record reads back when its fields do and together make up the record. -/
theorem structCodec_roundtrips {t : σ} (hn : NamesOk fs) (hcopy : ∀ s, copyFields t fs s = t)
    (hf : Fields (fun f => f.codec.Roundtrips (f.get t)) fs) :
    (structCodec fs).Roundtrips t := structCodec_reads hn hcopy hf.of_mem

/-- What every field keeps, the record reader keeps. -/
theorem structCodec_invariant {I : σ → Prop}
    (hf : ∀ f ∈ fs, ∀ s j s', I s → f.decodeInto s j = some s' → I s') {s' : σ} (hs : I s)
    (h : (structCodec fs).decode s j = some s') : I s' := by
  cases j with
  | null => exact some.inj h ▸ hs
  | obj ms =>
    change ms.foldlM (decodeMember fs) s = some s' at h
    induction ms generalizing s with
    | nil => exact some.inj h ▸ hs
    | cons m ms ih =>
      rw [foldlM_cons] at h
      obtain ⟨s1, h1, h⟩ := bind_eq_some_iff.mp h
      obtain ⟨f, hfind, h1⟩ := bind_eq_some_iff.mp h1
      refine ih (hf f ?_ s m.2 s1 hs h1) h
      unfold findField at hfind
      cases hx : fs.find? fun f => f.name == unquote m.1 with
      | some g =>
        rw [hx] at hfind
        exact some.inj hfind ▸ mem_of_find?_eq_some hx
      | none =>
        rw [hx] at hfind
        exact mem_of_find?_eq_some hfind
  | _ => cases h

/-! ## Values that have a text -/

/-- The writer writes something for `v`. -/
def Codec.Writes {α : Type} (c : Codec α) (v : α) : Prop := ∃ j, c.encode v = some j

theorem Codec.Writes.marshal (h : c.Writes v) : ∃ data, marshal c v = some data := by
  obtain ⟨j, hj⟩ := h
  exact ⟨render j, by rw [Lib.marshal, hj, map_some]⟩

theorem stringCodec_writes (s : Bytes) : stringCodec.Writes s := ⟨_, rfl⟩

theorem uint8Codec_writes (n : UInt8) : uint8Codec.Writes n := ⟨_, rfl⟩

theorem uint64Codec_writes (n : UInt64) : uint64Codec.Writes n := ⟨_, rfl⟩

theorem bytesCodec_writes (bs : Bytes) : bytesCodec.Writes bs := by
  cases bs with
  | nil => exact ⟨_, rfl⟩
  | cons b bs => exact ⟨_, rfl⟩

theorem timeCodec_writes {text : Bytes} (h : t.marshalText = some text) :
    timeCodec.Writes t := ⟨.str text, congrArg (Option.map Json.str) h⟩

/-- A record has a text when its fields have. -/
theorem structCodec_writes (h : Fields (fun f => f.codec.Writes (f.get s)) fs) :
    (structCodec fs).Writes s := by
  obtain ⟨ms, hms⟩ : ∃ ms, fs.mapM (encodeMember s) = some ms :=
    exists_mapM_iff.mpr fun f hf => by
      obtain ⟨j, hj⟩ := h.of_mem f hf
      exact ⟨_, congrArg (Option.map fun j => (f.name, j)) hj⟩
  exact ⟨.obj ms, congrArg (Option.map Json.obj) hms⟩

/-- A time has a text when RFC 3339 can show it. -/
theorem timeCodec_writes_iff : timeCodec.Writes t ↔ ∃ text, t.marshalText = some text := by
  refine ⟨fun ⟨j, hj⟩ => ?_, fun ⟨text, h⟩ => timeCodec_writes h⟩
  obtain ⟨text, h, -⟩ := map_eq_some_iff.mp hj
  exact ⟨text, h⟩

/-- A record has a text only when its fields have. -/
theorem structCodec_writes_field {σ : Type} {fs : List (JsonField σ)} {s : σ}
    (h : (structCodec fs).Writes s) {f : JsonField σ} (hf : f ∈ fs) : f.codec.Writes (f.get s) := by
  obtain ⟨j, hj⟩ := h
  obtain ⟨ms, hms, -⟩ := map_eq_some_iff.mp hj
  obtain ⟨m, hm⟩ := exists_mapM_iff.mp ⟨ms, hms⟩ f hf
  obtain ⟨k, hk, -⟩ := map_eq_some_iff.mp hm
  exact ⟨k, hk⟩

/-- A list has a text only when its elements have. -/
theorem listCodec_writes_elem {vs : List α} (h : (listCodec c zero).Writes vs) (hv : v ∈ vs) :
    c.Writes v := by
  obtain ⟨j, hj⟩ := h
  cases vs with
  | nil => exact absurd hv not_mem_nil
  | cons w ws =>
    obtain ⟨js, hjs, -⟩ := map_eq_some_iff.mp hj
    exact exists_mapM_iff.mp ⟨js, hjs⟩ v hv

/-! ## Texts that tell values apart -/

/-- What the writer writes for `v` is well formed. -/
def Codec.Formed {α : Type} (c : Codec α) (v : α) : Prop := ∀ j, c.encode v = some j → WF j

theorem formed_of_reads (h : c.Reads v w) : c.Formed v :=
  fun j hj => (h j hj).1

/-- Values written alike are read alike. -/
theorem eq_of_reads {v' w' : α} (hv : c.Reads v v') (hw : c.Reads w w') (h : c.encode v = some j)
    (h' : c.encode w = some j) : v' = w' :=
  some.inj (((hv j h).2 v).symm.trans ((hw j h').2 v))

theorem marshal_same (hv : c.Formed v) (hw : c.Formed w) (h : marshal c v = some data)
    (h' : marshal c w = some data) : ∃ j, c.encode v = some j ∧ c.encode w = some j := by
  obtain ⟨j, hj, hdata⟩ := map_eq_some_iff.mp h
  obtain ⟨k, hk, rfl⟩ := map_eq_some_iff.mp h'
  have hparse : some j = some k := by
    rw [← parse_render j (hv j hj), hdata, parse_render k (hw k hk)]
  exact ⟨j, hj, hparse ▸ hk⟩

theorem structCodec_formed (hn : ∀ n ∈ fs.map JsonField.name, Plain n)
    (h : Fields (fun f => f.codec.Formed (f.get s)) fs) : (structCodec fs).Formed s := by
  intro j hj
  obtain ⟨ms, hms, rfl⟩ := map_eq_some_iff.mp hj
  clear hj
  induction h generalizing ms with
  | nil =>
    obtain rfl : [] = ms := by simpa using hms
    exact trivial
  | cons hf _ ih =>
    obtain ⟨m, ms, hm, hrest, rfl⟩ := forall₂_cons_left_iff.mp (mapM_eq_some.mp hms)
    obtain ⟨j, hj, rfl⟩ := map_eq_some_iff.mp hm
    rw [map_cons, forall_mem_cons] at hn
    exact ⟨strOk_of_plain hn.1, hf j hj, ih hn.2 ms (mapM_eq_some.mpr hrest)⟩

/-- Records written alike have fields written alike. -/
theorem structCodec_same {t : σ} (hs : (structCodec fs).encode s = some j)
    (ht : (structCodec fs).encode t = some j) :
    ∀ f ∈ fs, ∃ k, f.codec.encode (f.get s) = some k ∧ f.codec.encode (f.get t) = some k := by
  obtain ⟨ms, hms, rfl⟩ := map_eq_some_iff.mp hs
  obtain ⟨ms', hms', heq⟩ := map_eq_some_iff.mp ht
  rw [Json.obj.inj heq, mapM_eq_some] at hms'
  clear hs ht heq
  rw [mapM_eq_some] at hms
  induction hms with
  | nil => exact fun f hf => absurd hf not_mem_nil
  | cons hm _ ih =>
    obtain ⟨hm', hrest⟩ := List.forall₂_cons.mp hms'
    obtain ⟨k, hk, rfl⟩ := map_eq_some_iff.mp hm
    obtain ⟨k', hk', heq⟩ := map_eq_some_iff.mp hm'
    rw [(Prod.mk.inj heq).2] at hk'
    exact forall_mem_cons.mpr ⟨⟨k, hk, hk'⟩, ih hrest⟩

theorem structCodec_congr {t : σ}
    (h : Fields (fun f => f.codec.encode (f.get s) = f.codec.encode (f.get t)) fs) :
    (structCodec fs).encode s = (structCodec fs).encode t := by
  unfold structCodec
  refine congrArg (Option.map Json.obj) ?_
  induction h with
  | nil => rfl
  | cons hf _ ih => rw [mapM_cons, mapM_cons, encodeMember, encodeMember, hf, ih]

/-- The entry of a key in the object written for a map. -/
def encodeEntry {α : Type} (c : Codec α) (m : GoMap Bytes α) (k : Bytes) : Option (Bytes × Json) :=
  (m.lookup k).bind fun v => (c.encode v).map fun j => (escape k, j)

theorem encodeEntry_some {k : Bytes} {x : Bytes × Json} :
    encodeEntry c m k = some x ↔
      ∃ v j, m.lookup k = some v ∧ c.encode v = some j ∧ x = (escape k, j) := by
  simp only [encodeEntry, bind_eq_some_iff, map_eq_some_iff]
  constructor
  · rintro ⟨v, hv, j, hj, rfl⟩
    exact ⟨v, j, hv, hj, rfl⟩
  · rintro ⟨v, j, hv, hj, rfl⟩
    exact ⟨v, hv, j, hj, rfl⟩

theorem mapCodec_writes (h : ∀ k v, m.lookup k = some v → c.Writes v) :
    (mapCodec c zero).Writes m := by
  obtain ⟨ms, hms⟩ : ∃ ms, m.sortedKeys.mapM (encodeEntry c m) = some ms :=
    exists_mapM_iff.mpr fun k hk => by
      obtain ⟨v, hv⟩ := GoMap.mem_keys_iff.mp (GoMap.mem_sortedKeys.mp hk)
      obtain ⟨j, hj⟩ := h k v hv
      exact ⟨_, encodeEntry_some.mpr ⟨v, j, hv, hj, rfl⟩⟩
  exact ⟨.obj ms, congrArg (Option.map Json.obj) hms⟩

/-- Entries written alike are for the same keys, with values written alike. -/
theorem encodeEntry_same {m' : GoMap Bytes α} {ks ks' : List Bytes} {ms : List (Bytes × Json)}
    (hks : ∀ k ∈ ks, Plain k) (hks' : ∀ k ∈ ks', Plain k)
    (h : Forall₂ (fun k x => encodeEntry c m k = some x) ks ms)
    (h' : Forall₂ (fun k x => encodeEntry c m' k = some x) ks' ms) :
    ks = ks' ∧ ∀ k ∈ ks, ∃ v v' i, m.lookup k = some v ∧ m'.lookup k = some v' ∧
      c.encode v = some i ∧ c.encode v' = some i := by
  induction h generalizing ks' with
  | nil =>
    obtain rfl := List.forall₂_nil_right_iff.mp h'
    exact ⟨rfl, fun k hk => absurd hk not_mem_nil⟩
  | cons hx _ ih =>
    obtain ⟨k', ks', hx', hrest, rfl⟩ := List.forall₂_cons_right_iff.mp h'
    rw [forall_mem_cons] at hks hks'
    obtain ⟨v, i, hv, hi, rfl⟩ := encodeEntry_some.mp hx
    obtain ⟨v', i', hv', hi', heq⟩ := encodeEntry_some.mp hx'
    obtain ⟨hkey, rfl⟩ := Prod.mk.inj heq
    rw [escape_of_plain hks.1, escape_of_plain hks'.1] at hkey
    subst hkey
    obtain ⟨rfl, hall⟩ := ih hks.2 hks'.2 hrest
    exact ⟨rfl, forall_mem_cons.mpr ⟨⟨v, v', _, hv, hv', hi, hi'⟩, hall⟩⟩

/-- Maps that are written alike, with keys that need no escaping, are alike. -/
theorem mapCodec_same {m' : GoMap Bytes α} (hm : ∀ k ∈ m.keys, Plain k)
    (hm' : ∀ k ∈ m'.keys, Plain k) (hval : ∀ k v v' i, m.lookup k = some v → m'.lookup k = some v' →
      c.encode v = some i → c.encode v' = some i → v = v') (h : (mapCodec c zero).encode m = some j)
    (h' : (mapCodec c zero).encode m' = some j) : m = m' := by
  obtain ⟨ms, hms, rfl⟩ := map_eq_some_iff.mp h
  obtain ⟨ms', hms', heq⟩ := map_eq_some_iff.mp h'
  rw [Json.obj.inj heq] at hms'
  obtain ⟨hkeys, hall⟩ := encodeEntry_same (fun k hk => hm k (GoMap.mem_sortedKeys.mp hk))
    (fun k hk => hm' k (GoMap.mem_sortedKeys.mp hk)) (mapM_eq_some.mp hms) (mapM_eq_some.mp hms')
  refine Finmap.ext_lookup fun k => ?_
  by_cases hk : k ∈ m.sortedKeys
  · obtain ⟨v, v', i, hv, hv', hi, hi'⟩ := hall k hk
    rw [hv, hv', hval k v v' i hv hv' hi hi']
  · have hnone : ∀ n : GoMap Bytes α, k ∉ n.sortedKeys → n.lookup k = none := fun n hn =>
      Finmap.lookup_eq_none.mpr fun hmem => hn (GoMap.mem_sortedKeys.mpr (Finmap.mem_keys.mpr hmem))
    rw [hnone m hk, hnone m' (hkeys ▸ hk)]

end Veilmesh.Lib

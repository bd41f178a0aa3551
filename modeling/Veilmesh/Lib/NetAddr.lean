/-
  Textual IP addresses (RFC 4291, RFC 5952) as the standard address package reads and
  writes them.

  `parseAddr` decides between the two families by the first dot or colon. Octets have no
  leading zeros, a group has one to four hexadecimal digits, `::` stands for at least one
  group, and the last two groups may be written as an IPv4 address. `Addr.text` is the
  canonical text: lower case, and `::` for the first longest run of zero groups. It needs no
  escaping in JSON and has at most 42 bytes (`Addr.text_spec`).
-/
import Veilmesh.Lib.JsonCodec

namespace Veilmesh.Lib

open List

/-- An IPv4 address, or an IPv6 address with its zone. -/
inductive Addr where
  | v4 (bits : BitVec 32)
  | v6 (bits : BitVec 128) (zone : Bytes)
  deriving DecidableEq, Repr

namespace Addr

/-! ## Reading -/

/-- One decimal octet. -/
def parseOctet (field : Bytes) : Option Nat :=
  if field.length = 1 ∨ field.head? ≠ some 48 then readUint 256 field else none

/-- The four octets of an IPv4 address. -/
def parseFields (s : Bytes) : Option (List Nat) :=
  let fields := s.splitOn 46
  if fields.length = 4 then fields.mapM parseOctet else none

def ofOctets (fields : List Nat) : BitVec 32 := BitVec.ofNat 32 (ofDigits 256 fields)

def isHex (c : UInt8) : Bool := (hexDigit? c).isSome

/-- The groups of an IPv6 address from a group on, where `room` more fit: all groups, the
    place of the `::`, and what is left of the text. -/
def parseGroups : Nat → List Nat → Option Nat → Bytes → Option (List Nat × Option Nat × Bytes)
  | 0, groups, ellipsis, s => some (groups, ellipsis, s)
  | room + 1, groups, ellipsis, s => do
    let digits ← (s.takeWhile isHex).mapM hexDigit?
    let rest := s.dropWhile isHex
    if digits = [] ∨ digits.length > 4 then none
    else if rest.head? = some 46 then
      -- the rest is an embedded IPv4 address
      if (ellipsis = none ∧ groups.length ≠ 6) ∨ groups.length + 2 > 8 then none
      else
        let fields ← parseFields s
        some (groups ++ [ofDigits 256 (fields.take 2), ofDigits 256 (fields.drop 2)], ellipsis, [])
    else
      let groups := groups ++ [ofDigits 16 digits]
      match rest with
      | [] => some (groups, ellipsis, [])
      | [_] => none
      | colon :: next :: more =>
        if colon ≠ 58 then none
        else if next ≠ 58 then parseGroups room groups ellipsis (next :: more)
        else if ellipsis.isSome then none
        else if more = [] then some (groups, some groups.length, [])
        else parseGroups room groups (some groups.length) more

/-- The eight groups, with the place of the `::` filled up. -/
def expandGroups (groups : List Nat) (ellipsis : Option Nat) : Option (List Nat) :=
  match ellipsis with
  | none => if groups.length = 8 then some groups else none
  | some at' =>
    if groups.length < 8 then
      some (groups.take at' ++ List.replicate (8 - groups.length) 0 ++ groups.drop at')
    else none

def ofGroups (groups : List Nat) : BitVec 128 := BitVec.ofNat 128 (ofDigits 65536 groups)

def parseIPv6Groups (s : Bytes) : Option (List Nat) :=
  match s with
  | [58, 58] => some (List.replicate 8 0)
  | 58 :: 58 :: more => do
    let (groups, ellipsis, left) ← parseGroups 8 [] (some 0) more
    if left = [] then expandGroups groups ellipsis else none
  | _ => do
    let (groups, ellipsis, left) ← parseGroups 8 [] none s
    if left = [] then expandGroups groups ellipsis else none

def parseIPv6 (s : Bytes) : Option Addr :=
  let address := s.takeWhile (· ≠ 37)
  match s.drop address.length with
  | [] => (parseIPv6Groups address).map fun groups => .v6 (ofGroups groups) []
  | _ :: zone =>
    if zone = [] then none
    else (parseIPv6Groups address).map fun groups => .v6 (ofGroups groups) zone

def parseIPv4 (s : Bytes) : Option Addr := (parseFields s).map fun fields => .v4 (ofOctets fields)

/-- The first dot, colon or percent sign tells the family. -/
def parseAddr (s : Bytes) : Option Addr :=
  match s.find? fun c => c = 46 ∨ c = 58 ∨ c = 37 with
  | some 46 => parseIPv4 s
  | some 58 => parseIPv6 s
  | _ => none

/-! ## Writing -/

/-- A group in hexadecimal without leading zeros. -/
def hexText (group : Nat) : Bytes :=
  let ds := (toDigits 16 4 group).dropWhile (· == 0)
  if ds = [] then [48] else ds.map (symbol hexAlphabet)

/-- Start and length of the first longest run of at least two zero groups. -/
def zeroRun (groups : List Nat) : Nat × Nat :=
  (List.range 8).foldl (fun best i =>
    let l := ((groups.drop i).takeWhile (· == 0)).length
    if l ≥ 2 ∧ l > best.2 then (i, l) else best) (8, 0)

def groupsText (groups : List Nat) : Bytes := [58].intercalate (groups.map hexText)

def octetsText (bits : BitVec 32) : Bytes :=
  [46].intercalate ((toDigits 256 4 bits.toNat).map decText)

def is4In6 (bits : BitVec 128) : Bool := bits >>> 32 == 0xffff

def text : Addr → Bytes
  | v4 bits => octetsText bits
  | v6 bits zone =>
    let groups := toDigits 65536 8 bits.toNat
    let address :=
      if is4In6 bits then lit "::ffff:" ++ octetsText (bits.setWidth 32)
      else
        let (start, l) := zeroRun groups
        if l = 0 then groupsText groups
        else groupsText (groups.take start) ++ lit "::" ++ groupsText (groups.drop (start + l))
    if zone = [] then address else address ++ 37 :: zone

def zone : Addr → Bytes
  | v4 _ => []
  | v6 _ zone => zone

/-! ## The canonical text -/

theorem plain_decText (n : Nat) : Json.Plain (decText n) := by
  obtain ⟨ds, htext, -, hlt, -⟩ := decText_digits n
  rw [htext]
  exact plain_map_decChar ds hlt

theorem length_decText_octet : ∀ n < 256, (decText n).length ≤ 3 := by decide +kernel

theorem plain_hexSymbol : ∀ d < 16, Json.plainByte (symbol hexAlphabet d) = true := by decide

theorem hexText_spec (group : Nat) : Json.Plain (hexText group) ∧ (hexText group).length ≤ 4 := by
  have hlt := toDigits_lt 16 4 group (by decide)
  have hlength := (dropWhile_suffix (l := toDigits 16 4 group) (· == 0)).length_le
  rw [length_toDigits] at hlength
  unfold hexText
  dsimp only
  split
  · exact ⟨by decide, by decide⟩
  · refine ⟨fun c hc => ?_, by rwa [length_map]⟩
    obtain ⟨d, hd, rfl⟩ := mem_map.mp hc
    exact plain_hexSymbol d (hlt d ((dropWhile_suffix _).subset hd))

theorem plain_intercalate {sep : UInt8} (hsep : Json.plainByte sep = true) {l : List Bytes}
    (h : ∀ s ∈ l, Json.Plain s) : Json.Plain ([sep].intercalate l) := by
  induction l with
  | nil => exact fun c hc => absurd hc not_mem_nil
  | cons a l ih =>
    have ha := h a mem_cons_self
    cases l with
    | nil =>
      rw [intercalate_singleton]
      exact ha
    | cons b l =>
      rw [intercalate_cons_cons, append_assoc, singleton_append]
      exact ha.append (Json.plain_cons.mpr ⟨hsep, ih fun s hs => h s (mem_cons_of_mem _ hs)⟩)

theorem length_intercalate_le {sep : UInt8} {k : Nat} {l : List Bytes}
    (h : ∀ s ∈ l, s.length ≤ k) : ([sep].intercalate l).length ≤ l.length * (k + 1) := by
  induction l with
  | nil => exact Nat.zero_le _
  | cons a l ih =>
    have ha := h a mem_cons_self
    cases l with
    | nil =>
      rw [intercalate_singleton, length_singleton]
      omega
    | cons b l =>
      have hrest := ih fun s hs => h s (mem_cons_of_mem _ hs)
      rw [intercalate_cons_cons, append_assoc, singleton_append, length_append,
        length_cons, length_cons, Nat.add_mul]
      omega

theorem octetsText_spec (bits : BitVec 32) :
    Json.Plain (octetsText bits) ∧ (octetsText bits).length ≤ 16 := by
  have hlt := toDigits_lt 256 4 bits.toNat (by decide)
  refine ⟨plain_intercalate (by decide) fun s hs => ?_, ?_⟩
  · obtain ⟨n, -, rfl⟩ := mem_map.mp hs
    exact plain_decText n
  · have hle := @length_intercalate_le 46 3 ((toDigits 256 4 bits.toNat).map decText) fun s hs => by
      obtain ⟨n, hn, rfl⟩ := mem_map.mp hs
      exact length_decText_octet n (hlt n hn)
    rwa [length_map, length_toDigits] at hle

theorem groupsText_spec (groups : List Nat) :
    Json.Plain (groupsText groups) ∧ (groupsText groups).length ≤ groups.length * 5 := by
  refine ⟨plain_intercalate (by decide) fun s hs => ?_, ?_⟩
  · obtain ⟨n, -, rfl⟩ := mem_map.mp hs
    exact (hexText_spec n).1
  · have hle := @length_intercalate_le 58 4 (groups.map hexText) fun s hs => by
      obtain ⟨n, -, rfl⟩ := mem_map.mp hs
      exact (hexText_spec n).2
    rwa [length_map] at hle

/-- The text of an address without a zone needs no escaping, and is short. -/
theorem text_spec {a : Addr} (h : a.zone = []) : Json.Plain a.text ∧ a.text.length ≤ 42 := by
  cases a with
  | v4 bits =>
    obtain ⟨hplain, hlength⟩ := octetsText_spec bits
    exact ⟨hplain, hlength.trans (by decide)⟩
  | v6 bits zone =>
    obtain rfl : zone = [] := h
    have hgroups := length_toDigits 65536 8 bits.toNat
    simp only [text, if_true]
    split
    · obtain ⟨hplain, hlength⟩ := octetsText_spec (bits.setWidth 32)
      refine ⟨Json.Plain.append (by decide) hplain, ?_⟩
      rw [length_append]
      exact (Nat.add_le_add_left hlength _).trans (by decide)
    split
    · obtain ⟨hplain, hlength⟩ := groupsText_spec (toDigits 65536 8 bits.toNat)
      rw [hgroups] at hlength
      exact ⟨hplain, hlength.trans (by decide)⟩
    · -- the groups left of the `::` and right of it are some of the eight
      set groups := toDigits 65536 8 bits.toNat
      obtain ⟨hplain, hlength⟩ := groupsText_spec (groups.take (zeroRun groups).1)
      obtain ⟨hplain', hlength'⟩ :=
        groupsText_spec (groups.drop ((zeroRun groups).1 + (zeroRun groups).2))
      refine ⟨(hplain.append (by decide)).append hplain', ?_⟩
      have hmark : (lit "::").length = 2 := rfl
      rw [length_take, hgroups] at hlength
      rw [length_drop, hgroups] at hlength'
      rw [length_append, length_append, hmark]
      omega

/-! ## Kinds of addresses -/

/-- An IPv4 address written as an IPv6 one becomes an IPv4 address. -/
def unmap : Addr → Addr
  | v6 bits zone => if is4In6 bits then v4 (bits.setWidth 32) else v6 bits zone
  | a => a

/-- Whether the first `n` bits agree. -/
def inPrefix {w : Nat} (p : BitVec w) (n : Nat) (x : BitVec w) : Bool :=
  x >>> (w - n) == p >>> (w - n)

/-- A test for each family, on the address as an IPv4 address where it is one. -/
def kind (four : BitVec 32 → Bool) (six : BitVec 128 → Bool) (a : Addr) : Bool :=
  match a.unmap with
  | v4 bits => four bits
  | v6 bits _ => six bits

def octets (a b c d : Nat) : BitVec 32 := ofOctets [a, b, c, d]

def isUnspecified (a : Addr) : Bool := a == v4 0 || a == v6 0 []

def isMulticast : Addr → Bool :=
  kind (inPrefix (octets 224 0 0 0) 4) (inPrefix (ofGroups [0xff00, 0, 0, 0, 0, 0, 0, 0]) 8)

def isLinkLocalUnicast : Addr → Bool :=
  kind (inPrefix (octets 169 254 0 0) 16) (inPrefix (ofGroups [0xfe80, 0, 0, 0, 0, 0, 0, 0]) 10)

def isLinkLocalMulticast : Addr → Bool :=
  kind (inPrefix (octets 224 0 0 0) 24) fun bits => (bits >>> 112) &&& 0xff0f == 0xff02

def isPrivate : Addr → Bool :=
  kind (fun bits => inPrefix (octets 10 0 0 0) 8 bits || inPrefix (octets 172 16 0 0) 12 bits ||
    inPrefix (octets 192 168 0 0) 16 bits) (inPrefix (ofGroups [0xfc00, 0, 0, 0, 0, 0, 0, 0]) 7)

def isLoopback : Addr → Bool := kind (inPrefix (octets 127 0 0 0) 8) fun bits => bits == 1

def isGlobalUnicast (a : Addr) : Bool :=
  match a.unmap with
  | v4 bits => bits != 0 && bits != octets 255 255 255 255 &&
      !(isLoopback a || isMulticast a || isLinkLocalUnicast a)
  | v6 bits zone => !(v6 bits zone == v6 0 []) &&
      !(isLoopback a || isMulticast a || isLinkLocalUnicast a)

/-- Whether an address lies in a network of its own family. -/
def inNetwork (network : Addr × Nat) (a : Addr) : Bool :=
  match network.1, a with
  | v4 p, v4 bits => inPrefix p network.2 bits
  | v6 p _, v6 bits [] => inPrefix p network.2 bits
  | _, _ => false

end Addr

end Veilmesh.Lib

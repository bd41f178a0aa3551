/-
  SHA-256 (FIPS 180-4) on byte strings.

  The function is written out so that a model that hashes can be evaluated
  (`sha256_eq_sha256Nat` is the form to evaluate in a proof). Other proofs use the length of
  a digest only; where two inputs have to be told apart by their digests
  the assumption is stated as `Set.InjOn sha256` on the inputs in question.
-/
import Mathlib.Data.List.Nodup
import Mathlib.Data.Set.Function
import Veilmesh.Lib.Bytes

namespace Veilmesh.Lib

open List Nat
open UInt32 (toNat)

namespace Sha256

/-- The round constants. -/
def roundConstants : List UInt32 := [
  0x428a2f98, 0x71374491, 0xb5c0fbcf, 0xe9b5dba5, 0x3956c25b, 0x59f111f1, 0x923f82a4, 0xab1c5ed5,
  0xd807aa98, 0x12835b01, 0x243185be, 0x550c7dc3, 0x72be5d74, 0x80deb1fe, 0x9bdc06a7, 0xc19bf174,
  0xe49b69c1, 0xefbe4786, 0x0fc19dc6, 0x240ca1cc, 0x2de92c6f, 0x4a7484aa, 0x5cb0a9dc, 0x76f988da,
  0x983e5152, 0xa831c66d, 0xb00327c8, 0xbf597fc7, 0xc6e00bf3, 0xd5a79147, 0x06ca6351, 0x14292967,
  0x27b70a85, 0x2e1b2138, 0x4d2c6dfc, 0x53380d13, 0x650a7354, 0x766a0abb, 0x81c2c92e, 0x92722c85,
  0xa2bfe8a1, 0xa81a664b, 0xc24b8b70, 0xc76c51a3, 0xd192e819, 0xd6990624, 0xf40e3585, 0x106aa070,
  0x19a4c116, 0x1e376c08, 0x2748774c, 0x34b0bcb5, 0x391c0cb3, 0x4ed8aa4a, 0x5b9cca4f, 0x682e6ff3,
  0x748f82ee, 0x78a5636f, 0x84c87814, 0x8cc70208, 0x90befffa, 0xa4506ceb, 0xbef9a3f7, 0xc67178f2]

/-- The chaining value. -/
structure State where
  a : UInt32
  b : UInt32
  c : UInt32
  d : UInt32
  e : UInt32
  f : UInt32
  g : UInt32
  h : UInt32

def initial : State :=
  ⟨0x6a09e667, 0xbb67ae85, 0x3c6ef372, 0xa54ff53a, 0x510e527f, 0x9b05688c, 0x1f83d9ab, 0x5be0cd19⟩

def rotr (x n : UInt32) : UInt32 := (x >>> n) ||| (x <<< (32 - n))

/-- The message with its padding: a multiple of 64 bytes. -/
def pad (m : Bytes) : Bytes :=
  m ++ 0x80 :: (List.replicate ((119 - m.length % 64) % 64) 0 ++ toBE 8 (8 * m.length))

/-- The 64-byte blocks of a padded message. -/
def blocks (p : Bytes) : List Bytes :=
  (List.range (p.length / 64)).map fun i => (p.drop (64 * i)).take 64

/-- The sixteen words of a block, last one first. -/
def blockWords (block : Bytes) : List UInt32 :=
  (List.range 16).reverse.map fun i => UInt32.ofNat (fromBE ((block.drop (4 * i)).take 4))

/-- One more word of the schedule, in front of those before it. -/
def extend (ws : List UInt32) : List UInt32 :=
  let w2 := ws.getD 1 0
  let w15 := ws.getD 14 0
  let s0 := rotr w15 7 ^^^ rotr w15 18 ^^^ (w15 >>> 3)
  let s1 := rotr w2 17 ^^^ rotr w2 19 ^^^ (w2 >>> 10)
  (s1 + ws.getD 6 0 + s0 + ws.getD 15 0) :: ws

/-- The message schedule of a block. -/
def schedule (block : Bytes) : List UInt32 := (extend^[48] (blockWords block)).reverse

def round (s : State) (kw : UInt32 × UInt32) : State :=
  let s1 := rotr s.e 6 ^^^ rotr s.e 11 ^^^ rotr s.e 25
  let ch := (s.e &&& s.f) ^^^ (~~~ s.e &&& s.g)
  let t1 := s.h + s1 + ch + kw.1 + kw.2
  let s0 := rotr s.a 2 ^^^ rotr s.a 13 ^^^ rotr s.a 22
  let maj := (s.a &&& s.b) ^^^ (s.a &&& s.c) ^^^ (s.b &&& s.c)
  ⟨t1 + (s0 + maj), s.a, s.b, s.c, s.d + t1, s.e, s.f, s.g⟩

def compress (s : State) (block : Bytes) : State :=
  let r := (roundConstants.zip (schedule block)).foldl round s
  ⟨s.a + r.a, s.b + r.b, s.c + r.c, s.d + r.d, s.e + r.e, s.f + r.f, s.g + r.g, s.h + r.h⟩

def State.words (s : State) : List UInt32 := [s.a, s.b, s.c, s.d, s.e, s.f, s.g, s.h]

end Sha256

/-- The SHA-256 digest. -/
@[irreducible] def sha256 (m : Bytes) : Bytes :=
  (((Sha256.blocks (Sha256.pad m)).foldl Sha256.compress Sha256.initial).words).flatMap fun w =>
    toBE 4 w.toNat

@[simp] theorem length_sha256 (m : Bytes) : (sha256 m).length = 32 := by
  unfold sha256
  simp [Sha256.State.words]

/-! ## Evaluation

A digest that has to be evaluated in a proof is evaluated by `sha256Nat`, on numbers. The kernel
substitutes terms unevaluated, so each number is forced before it is used. -/

namespace Sha256

/-- Apply a function to a number once the number is evaluated. -/
def force {α : Type} (x : Nat) (k : Nat → α) : α :=
  Nat.rec (motive := fun _ => α) (k 0) (fun n _ => k n) (Nat.succ x)

variable {α : Type}

theorem force_eq (x : Nat) (k : Nat → α) : force x k = k x := rfl

def forceAll {α : Type} : List Nat → (List Nat → α) → α
  | [], k => k []
  | x :: xs, k => force x fun x => forceAll xs fun xs => k (x :: xs)

theorem forceAll_eq (xs : List Nat) (k : List Nat → α) : forceAll xs k = k xs := by
  induction xs generalizing k with
  | nil => rfl
  | cons x xs ih => rw [forceAll, force_eq, ih]

/-- Reduction to 32 bits. -/
def wrap (x : Nat) : Nat := Nat.mod x 4294967296

def rotrNat (x n : Nat) : Nat := Nat.lor (Nat.shiftRight x n) (wrap (Nat.shiftLeft x (Nat.sub 32 n)))

/-- A word of the message for each element of a list, put in front of those before it. -/
def wordsNat {α : Type} (k : List Nat → Bytes → α) : List Nat → Bytes → List Nat → α
  | _ :: l, b1 :: b2 :: b3 :: b4 :: m, ws =>
    force (wrap (fromBE [b1, b2, b3, b4])) fun w => wordsNat k l m (w :: ws)
  | _, m, ws => k ws m

/-- A word of the schedule for each element of a list. The last sixteen words are arguments, and
    the others in `ws`. -/
def extendNat {α : Type} (k : List Nat → α) : List Nat → Nat → Nat → Nat → Nat → Nat → Nat → Nat →
    Nat → Nat → Nat → Nat → Nat → Nat → Nat → Nat → Nat → List Nat → α
  | [], w1, w2, w3, w4, w5, w6, w7, w8, w9, w10, w11, w12, w13, w14, w15, w16, ws =>
    k (w1 :: w2 :: w3 :: w4 :: w5 :: w6 :: w7 :: w8 :: w9 :: w10 :: w11 :: w12 :: w13 :: w14 :: w15 ::
      w16 :: ws)
  | _ :: l, w1, w2, w3, w4, w5, w6, w7, w8, w9, w10, w11, w12, w13, w14, w15, w16, ws =>
    force (wrap (Nat.add (Nat.add (Nat.add
        (Nat.xor (Nat.xor (rotrNat w2 17) (rotrNat w2 19)) (Nat.shiftRight w2 10)) w7)
        (Nat.xor (Nat.xor (rotrNat w15 7) (rotrNat w15 18)) (Nat.shiftRight w15 3))) w16)) fun w =>
      extendNat k l w w1 w2 w3 w4 w5 w6 w7 w8 w9 w10 w11 w12 w13 w14 w15 (w16 :: ws)

/-- The rounds on the words of a chaining value. -/
def roundsNat {α : Type} : List (Nat × Nat) → Nat → Nat → Nat → Nat → Nat → Nat → Nat → Nat →
    (List Nat → α) → α
  | [], a, b, c, d, e, f, g, h, k => k [a, b, c, d, e, f, g, h]
  | kw :: kws, a, b, c, d, e, f, g, h, k =>
    force (Nat.add (Nat.add (Nat.add (Nat.add h
        (Nat.xor (Nat.xor (rotrNat e 6) (rotrNat e 11)) (rotrNat e 25)))
        (Nat.xor (Nat.land e f) (Nat.land (Nat.sub 4294967295 e) g))) kw.1) kw.2) fun t1 =>
      force (wrap (Nat.add t1 (Nat.add
        (Nat.xor (Nat.xor (rotrNat a 2) (rotrNat a 13)) (rotrNat a 22))
        (Nat.xor (Nat.xor (Nat.land a b) (Nat.land a c)) (Nat.land b c))))) fun a' =>
      force (wrap (Nat.add d t1)) fun e' => roundsNat kws a' a b c e' e f g k

def compressNat {α : Type} (cs words ws : List Nat) (k : List Nat → α) : α :=
  match words, ws with
  | [a, b, c, d, e, f, g, h],
    [w1, w2, w3, w4, w5, w6, w7, w8, w9, w10, w11, w12, w13, w14, w15, w16] =>
    extendNat (fun ws => roundsNat (cs.zip ws.reverse) a b c d e f g h fun r =>
        forceAll (List.zipWith (fun x y => wrap (Nat.add x y)) [a, b, c, d, e, f, g, h] r) k)
      (cs.take 48) w1 w2 w3 w4 w5 w6 w7 w8 w9 w10 w11 w12 w13 w14 w15 w16 []
  | _, _ => k []

/-- The chaining value after `n` more blocks, and what is left of the message. -/
def blocksNat {α : Type} (cs : List Nat) : Nat → Bytes → List Nat → (List Nat → Bytes → α) → α
  | 0, m, words, k => k words m
  | n + 1, m, words, k =>
    wordsNat (fun ws m => compressNat cs words ws fun words => blocksNat cs n m words k)
      (cs.take 16) m []

def constantsNat : List Nat := roundConstants.map UInt32.toNat

/-- The digest computed on numbers. -/
def sha256Nat (m : Bytes) : Bytes :=
  forceAll constantsNat fun cs =>
    blocksNat cs ((pad m).length / 64) (pad m) (initial.words.map UInt32.toNat) fun words _ =>
      words.flatMap (toBE 4)

theorem toNat_rotr (x n : UInt32) (hn : 0 < n.toNat) (h : n.toNat < 32) :
    (rotr x n).toNat = rotrNat x.toNat n.toNat := by
  have hs : (32 - n).toNat = 32 - n.toNat := by
    rw [UInt32.toNat_sub_of_le]
    · rfl
    · rw [UInt32.le_iff_toNat_le]
      exact h.le
  simp only [rotr, UInt32.toNat_or, UInt32.toNat_shiftRight, UInt32.toNat_shiftLeft, hs,
    mod_eq_of_lt h]
  rw [mod_eq_of_lt (a := 32 - n.toNat) (by omega)]
  rfl

theorem toNat_add (x y : UInt32) : (x + y).toNat = wrap (Nat.add x.toNat y.toNat) :=
  UInt32.toNat_add x y

theorem wrap_add_left (x y : Nat) : wrap (Nat.add (wrap x) y) = wrap (Nat.add x y) :=
  mod_add_mod x 4294967296 y

theorem wrap_add_right (x y : Nat) : wrap (Nat.add x (wrap y)) = wrap (Nat.add x y) :=
  add_mod_mod x y 4294967296

theorem extendNat_eq (k : List Nat → α) (l : List Nat)
    (w1 w2 w3 w4 w5 w6 w7 w8 w9 w10 w11 w12 w13 w14 w15 w16 : UInt32) (ws : List UInt32) :
    extendNat k l w1.toNat w2.toNat w3.toNat w4.toNat w5.toNat w6.toNat w7.toNat w8.toNat w9.toNat
        w10.toNat w11.toNat w12.toNat w13.toNat w14.toNat w15.toNat w16.toNat (ws.map toNat) =
      k ((extend^[l.length] (w1 :: w2 :: w3 :: w4 :: w5 :: w6 :: w7 :: w8 :: w9 :: w10 :: w11 :: w12 ::
        w13 :: w14 :: w15 :: w16 :: ws)).map toNat) := by
  induction l generalizing w1 w2 w3 w4 w5 w6 w7 w8 w9 w10 w11 w12 w13 w14 w15 w16 ws with
  | nil => rfl
  | cons x l ih =>
    rw [length_cons, Function.iterate_succ_apply]
    refine Eq.trans ?_ (ih _ w1 w2 w3 w4 w5 w6 w7 w8 w9 w10 w11 w12 w13 w14 w15 (w16 :: ws))
    simp only [extendNat, force_eq, toNat_add, UInt32.toNat_xor, UInt32.toNat_shiftRight,
      toNat_rotr _ 7 (by decide) (by decide), toNat_rotr _ 18 (by decide) (by decide),
      toNat_rotr _ 17 (by decide) (by decide), toNat_rotr _ 19 (by decide) (by decide), wrap_add_left]
    rfl

theorem roundsNat_eq (kws : List (UInt32 × UInt32)) (s : State) (k : List Nat → α) :
    roundsNat (kws.map (Prod.map toNat toNat)) s.a.toNat s.b.toNat s.c.toNat s.d.toNat
      s.e.toNat s.f.toNat s.g.toNat s.h.toNat k = k ((kws.foldl round s).words.map toNat) := by
  induction kws generalizing s with
  | nil => rfl
  | cons kw kws ih =>
    rw [foldl_cons, ← ih]
    simp only [map_cons, Prod.map, roundsNat, round, force_eq, toNat_add, UInt32.toNat_xor,
      UInt32.toNat_and, UInt32.toNat_not, toNat_rotr _ 6 (by decide) (by decide),
      toNat_rotr _ 11 (by decide) (by decide), toNat_rotr _ 25 (by decide) (by decide),
      toNat_rotr _ 2 (by decide) (by decide), toNat_rotr _ 13 (by decide) (by decide),
      toNat_rotr _ 22 (by decide) (by decide), wrap_add_left, wrap_add_right]
    rfl

theorem compressNat_eq (s : State) (block : Bytes) (k : List Nat → α) :
    compressNat constantsNat (s.words.map toNat) ((blockWords block).map toNat) k =
      k ((compress s block).words.map toNat) := by
  have hzip : constantsNat.zip ((extend^[48] (blockWords block)).map toNat).reverse =
      (roundConstants.zip (schedule block)).map (Prod.map toNat toNat) := by
    rw [schedule, ← map_reverse, constantsNat, zip_map]
  have hstart : compressNat constantsNat (s.words.map toNat)
      ((blockWords block).map toNat) k =
    (fun ws : List Nat => roundsNat (constantsNat.zip ws.reverse) s.a.toNat s.b.toNat s.c.toNat
      s.d.toNat s.e.toNat s.f.toNat s.g.toNat s.h.toNat fun r => forceAll (List.zipWith
        (fun x y => wrap (Nat.add x y)) (s.words.map toNat) r) k)
      ((extend^[48] (blockWords block)).map toNat) :=
    extendNat_eq _ (constantsNat.take 48) _ _ _ _ _ _ _ _ _ _ _ _ _ _ _ _ []
  rw [hstart]
  simp only [hzip, roundsNat_eq, forceAll_eq, compress]
  generalize (roundConstants.zip (schedule block)).foldl round s = r
  simp only [State.words, map_cons, map_nil, zipWith_cons_cons, zipWith_nil_left, toNat_add]

theorem wordsNat_eq (k : List Nat → Bytes → α) (l : List Nat) {m : Bytes}
    (hm : 4 * l.length ≤ m.length) (ws : List Nat) :
    wordsNat k l m ws = k ((range l.length).reverse.map (fun i =>
      wrap (fromBE ((m.drop (4 * i)).take 4))) ++ ws) (m.drop (4 * l.length)) := by
  induction l generalizing m ws with
  | nil => cases m <;> rfl
  | cons x l ih =>
    match m, hm with
    | b1 :: b2 :: b3 :: b4 :: m, hm =>
      simp only [length_cons, mul_succ] at hm
      rw [wordsNat, force_eq, ih (by omega), length_cons, range_succ_eq_map,
        reverse_cons, map_append, append_assoc, ← map_reverse, map_map]
      rfl

theorem blocksNat_eq {n : Nat} {m : Bytes} (hm : 64 * n ≤ m.length) (s : State)
    (k : List Nat → Bytes → α) :
    blocksNat constantsNat n m (s.words.map toNat) k =
      k ((((range n).map fun i => (m.drop (64 * i)).take 64).foldl compress s).words.map
        toNat) (m.drop (64 * n)) := by
  induction n generalizing m s with
  | zero => rfl
  | succ n ih =>
    have hblock : (range 16).reverse.map (fun i => wrap (fromBE ((m.drop (4 * i)).take 4))) =
        (blockWords (m.take 64)).map toNat := by
      rw [blockWords, map_map]
      refine map_congr_left fun i hi => ?_
      have hi := mem_range.mp (mem_reverse.mp hi)
      rw [Function.comp_apply, drop_take, take_take, min_eq_left (by omega)]
      rfl
    have hwords : (constantsNat.take 16).length = 16 := rfl
    rw [blocksNat, wordsNat_eq _ _ (by rw [hwords]; omega), hwords, append_nil, hblock,
      compressNat_eq, ih (by rw [length_drop]; omega), range_succ_eq_map, map_cons,
      map_map, foldl_cons, drop_drop]
    simp only [Function.comp_def, drop_drop, mul_succ, add_comm 64, mul_zero, drop_zero]

theorem sha256_eq_sha256Nat (m : Bytes) : sha256 m = sha256Nat m := by
  rw [sha256, sha256Nat, forceAll_eq, blocksNat_eq (Nat.mul_div_le _ _), flatMap_map, blocks]

/-! ### Messages with a common beginning -/

theorem blocks_append {p q : Bytes} {k : Nat} (hp : p.length = 64 * k) :
    blocks (p ++ q) = blocks p ++ blocks q := by
  have hcount : (p ++ q).length / 64 = k + q.length / 64 := by
    rw [length_append, hp, Nat.mul_add_div (by decide)]
  have hfirst : p.length / 64 = k := by rw [hp, Nat.mul_div_cancel_left _ (by decide)]
  rw [blocks, blocks, blocks, hcount, hfirst, range_add, map_append, map_map]
  refine congrArg₂ _ (map_congr_left fun i hi => ?_) (map_congr_left fun i _ => ?_)
  · have hi := mem_range.mp hi
    rw [drop_append_of_le_length (by omega), take_append_of_le_length]
    rw [length_drop]
    omega
  · rw [Function.comp_apply, mul_add, ← hp, ← drop_drop, drop_left]

/-- The chaining value after the first `k` blocks of a message. -/
def frontNat (k : Nat) (m : Bytes) : List Nat :=
  forceAll constantsNat fun cs =>
    blocksNat cs k m (initial.words.map UInt32.toNat) fun words _ => words

/-- The digest of a message of `n` bytes, from the chaining value before its last bytes. -/
def restNat (words : List Nat) (n : Nat) (rest : Bytes) : Bytes :=
  let p := rest ++ 0x80 :: (List.replicate ((119 - n % 64) % 64) 0 ++ toBE 8 (8 * n))
  forceAll constantsNat fun cs =>
    blocksNat cs (p.length / 64) p words fun words _ => words.flatMap (toBE 4)

theorem sha256_append {front rest : Bytes} {k n : Nat} {words : List Nat}
    (hfront : front.length = 64 * k) (hn : front.length + rest.length = n)
    (hwords : frontNat k front = words) : sha256 (front ++ rest) = restNat words n rest := by
  have hfirst : front.length / 64 = k := by rw [hfront, Nat.mul_div_cancel_left _ (by decide)]
  rw [frontNat, forceAll_eq, blocksNat_eq hfront.ge, ← hfirst, ← blocks] at hwords
  rw [sha256, pad, length_append, hn, append_assoc, blocks_append hfront,
    foldl_append, restNat, ← hwords, forceAll_eq, blocksNat_eq (Nat.mul_div_le _ _),
    flatMap_map]
  rfl

/-- Whether the numbers are pairwise different. -/
def distinct : List Nat → Bool
  | [] => true
  | x :: xs => xs.all (fun y => !Nat.beq x y) && distinct xs

theorem nodup_of_distinct {l : List Nat} (h : distinct l = true) : l.Nodup := by
  induction l with
  | nil => exact nodup_nil
  | cons x xs ih =>
    rw [distinct, Bool.and_eq_true, all_eq_true] at h
    refine nodup_cons.mpr ⟨fun hx => ?_, ih h.2⟩
    have hne := h.1 x hx
    rw [beq_refl] at hne
    cases hne

/-- Messages that differ in their last bytes have different digests, if the first words of those
    computed are. -/
theorem sha256_append_inj {front : Bytes} {rest : Nat → Bytes} {k n count : Nat} {words : List Nat}
    (hfront : front.length = 64 * k) (hn : ∀ i, front.length + (rest i).length = n)
    (hwords : frontNat k front = words) (hdistinct : distinct ((range count).map fun i =>
      fromBE ((restNat words n (rest i)).take 4)) = true) :
    ∀ i < count, ∀ j < count, sha256 (front ++ rest i) = sha256 (front ++ rest j) → i = j := by
  intro i hi j hj heq
  rw [sha256_append hfront (hn i) hwords, sha256_append hfront (hn j) hwords] at heq
  exact inj_on_of_nodup_map (nodup_of_distinct hdistinct) (mem_range.mpr hi)
    (mem_range.mpr hj) (congrArg (fun d => fromBE (d.take 4)) heq)

end Sha256

end Veilmesh.Lib

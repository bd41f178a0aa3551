/-
  Padding and hybrid public-key encryption (`pqcrypto/padding.go`, `pqcrypto/hpke.go`).

  `Hpke` is what is assumed of `crypto/hpke` with ML-KEM-768 and X25519: opening undoes
  sealing under equal associated data, and the sizes. The random bytes of an encapsulation
  and of a padding are arguments.

  * `unpadMessage_padMessage`: a padded message is read back.
  * `padMessage_size_classes`: which messages are padded, to which size, and that unpadding
    stays within its input.
-/
import Veilmesh.Pqcrypto.Signatures

namespace Veilmesh.Pqcrypto

open Lib List

/-! ## Padding -/

def messageBuckets : List Nat := [1024, 4096, 16384, 65536, 262144]

inductive PadError where
  | tooLarge
  | short
  | length
  deriving DecidableEq, Repr

/-- The message after its length, filled up with random bytes to the size of a bucket. -/
def padMessage (plaintext : Bytes) (fill : Nat → UInt8) : Except PadError Bytes :=
  let required := plaintext.length + 4
  match messageBuckets.find? fun candidate => decide (required ≤ candidate) with
  | none => .error .tooLarge
  | some bucket =>
    .ok (toBE 4 plaintext.length ++ plaintext ++ (List.range (bucket - required)).map fill)

def unpadMessage (padded : Bytes) : Except PadError Bytes :=
  if padded.length < 4 then .error .short
  else
    let length := fromBE (padded.take 4)
    if length > padded.length - 4 then .error .length else .ok ((padded.drop 4).take length)

/-- A search through an increasing list finds the least that there is. -/
theorem find?_least {l : List Nat} (hl : l.Pairwise (· < ·)) {p : Nat → Bool} {b : Nat}
    (h : l.find? p = some b) : ∀ c ∈ l, p c = true → b ≤ c := by
  obtain ⟨-, before, after, rfl, hbefore⟩ := find?_eq_some_iff_append.mp h
  intro c hc hpc
  rcases mem_append.mp hc with hc | hc
  · exact absurd hpc (by simpa using hbefore c hc)
  · rcases mem_cons.mp hc with rfl | hc
    · exact le_rfl
    · exact ((pairwise_cons.mp (pairwise_append.mp hl).2.1).1 c hc).le

/-- The bucket found is the smallest that takes what is required. -/
theorem bucket_fits {required bucket : Nat}
    (h : messageBuckets.find? (fun candidate => decide (required ≤ candidate)) = some bucket) :
    bucket ∈ messageBuckets ∧ required ≤ bucket ∧
      ∀ b ∈ messageBuckets, required ≤ b → bucket ≤ b :=
  ⟨mem_of_find?_eq_some h, by simpa using find?_some h, fun b hb hle =>
    find?_least (by decide) h b hb (decide_eq_true hle)⟩

theorem le_of_mem_messageBuckets : ∀ b ∈ messageBuckets, b ≤ 262144 := by decide

variable {plaintext padded : Bytes} {fill : Nat → UInt8}
  (h : padMessage plaintext fill = .ok padded)

include h

/-- A padded message has the size of the smallest bucket that takes it and its length. -/
theorem padMessage_ok :
    ∃ bucket, messageBuckets.find? (fun candidate => decide (plaintext.length + 4 ≤ candidate)) =
        some bucket ∧ padded.length = bucket ∧ padded = toBE 4 plaintext.length ++ plaintext ++
        (range (bucket - (plaintext.length + 4))).map fill := by
  unfold padMessage at h
  dsimp only at h
  split at h
  · cases h
  · rename_i bucket hbucket
    obtain rfl := Except.ok.inj h
    have hle := (bucket_fits hbucket).2.1
    refine ⟨bucket, hbucket, ?_, rfl⟩
    simp only [length_append, length_toBE, length_map, length_range]
    omega

omit h in
/-- Everything that fits in the largest bucket is taken. -/
theorem padMessage_accepts (fill : Nat → UInt8) (h : plaintext.length + 4 ≤ 262144) :
    ∃ padded, padMessage plaintext fill = .ok padded := by
  have hsome : (messageBuckets.find? fun candidate =>
      decide (plaintext.length + 4 ≤ candidate)).isSome = true :=
    find?_isSome.mpr ⟨262144, by decide, decide_eq_true h⟩
  obtain ⟨bucket, hbucket⟩ := Option.isSome_iff_exists.mp hsome
  unfold padMessage
  dsimp only
  rw [hbucket]
  exact ⟨_, rfl⟩

/-- How large a padded message gets. -/
theorem padMessage_length : (plaintext.length + 4 ≤ 65536 → padded.length ≤ 65536) ∧
      (65536 < plaintext.length + 4 → padded.length = 262144) := by
  obtain ⟨bucket, hbucket, rfl, -⟩ := padMessage_ok h
  obtain ⟨hmem, hle, hleast⟩ := bucket_fits hbucket
  refine ⟨hleast 65536 (by decide), fun hlarge => ?_⟩
  simp only [messageBuckets, mem_cons, not_mem_nil, or_false] at hmem
  omega

theorem unpadMessage_padMessage : unpadMessage padded = .ok plaintext := by
  obtain ⟨bucket, hbucket, hlen, rfl⟩ := padMessage_ok h
  obtain ⟨hmem, hle, -⟩ := bucket_fits hbucket
  have hmax := le_of_mem_messageBuckets bucket hmem
  have hhead : (toBE 4 plaintext.length ++ plaintext ++
      (range (bucket - (plaintext.length + 4))).map fill).take 4 = toBE 4 plaintext.length := by
    rw [append_assoc, take_left' (length_toBE 4 _)]
  have htail : (toBE 4 plaintext.length ++ plaintext ++
      (range (bucket - (plaintext.length + 4))).map fill).drop 4 =
        plaintext ++ (range (bucket - (plaintext.length + 4))).map fill := by
    rw [append_assoc, drop_left' (length_toBE 4 _)]
  unfold unpadMessage
  dsimp only
  rw [hhead, htail, fromBE_toBE, Nat.mod_eq_of_lt (by omega), hlen, if_neg (by omega),
    if_neg (by omega), take_left' rfl]

omit h

/-- A slice expression `bs[lo:hi]`; a bound out of range ends the program. -/
def slice (bs : Bytes) (lo hi : Nat) : Option Bytes :=
  if lo ≤ hi ∧ hi ≤ bs.length then some ((bs.take hi).drop lo) else none

/-- `UnpadMessage` with the bounds of its slice expressions. -/
def unpadSliced (padded : Bytes) : Option (Except PadError Bytes) :=
  if padded.length < 4 then some (.error .short)
  else do
    let head ← slice padded 0 4
    let length := fromBE head
    if length > padded.length - 4 then some (.error .length)
    else
      let body ← slice padded 4 (4 + length)
      some (.ok body)

theorem unpadSliced_eq (padded : Bytes) : unpadSliced padded = some (unpadMessage padded) := by
  unfold unpadSliced unpadMessage
  split
  · rfl
  · rename_i hlen
    have hhead : slice padded 0 4 = some (padded.take 4) := if_pos ⟨Nat.zero_le 4, by omega⟩
    simp only [hhead, Option.bind_eq_bind, Option.bind_some]
    split
    · rfl
    · rename_i hle
      have hbody : slice padded 4 (4 + fromBE (padded.take 4)) =
          some ((padded.drop 4).take (fromBE (padded.take 4))) := by
        rw [slice, if_pos ⟨Nat.le_add_right _ _, by omega⟩, drop_take, Nat.add_sub_cancel_left]
      rw [hbody, Option.bind_some]

/-- What is read from a padded message is a part of it. -/
theorem unpadMessage_infix (h : unpadMessage padded = .ok plaintext) : plaintext <:+: padded := by
  unfold unpadMessage at h
  split at h
  · cases h
  · dsimp only at h
    split at h
    · cases h
    · obtain rfl := Except.ok.inj h
      exact (List.take_prefix _ _).isInfix.trans (drop_suffix _ _).isInfix

/-- Padding takes just the messages of up to 262140 bytes, fills the smallest bucket that
    holds the message after its length, and is undone by unpadding; messages that fit in the same
    buckets get one size. Unpadding keeps within its input, whatever that is. -/
theorem padMessage_size_classes (p q : Bytes) (fill fill' : Nat → UInt8) :
    (p.length ≤ 262140 → ∃ padded, padMessage p fill = .ok padded ∧
      unpadMessage padded = .ok p ∧ padded.length ∈ messageBuckets ∧ p.length + 4 ≤ padded.length ∧
      ∀ b ∈ messageBuckets, p.length + 4 ≤ b → padded.length ≤ b) ∧
    ((∃ e, padMessage p fill = .error e) ↔ 262140 < p.length) ∧
    (∀ padded padded', padMessage p fill = .ok padded → padMessage q fill' = .ok padded' →
      (∀ b ∈ messageBuckets, p.length + 4 ≤ b ↔ q.length + 4 ≤ b) →
      padded.length = padded'.length) ∧
    ∀ input, unpadSliced input = some (unpadMessage input) ∧
      ∀ output, unpadMessage input = .ok output → output <:+: input := by
  refine ⟨fun hp => ?_, ⟨?_, fun hp => ?_⟩, ?_, fun input =>
    ⟨unpadSliced_eq input, fun output => unpadMessage_infix⟩⟩
  · obtain ⟨padded, hpad⟩ := padMessage_accepts fill (show p.length + 4 ≤ 262144 by omega)
    obtain ⟨bucket, hbucket, rfl, -⟩ := padMessage_ok hpad
    exact ⟨padded, hpad, unpadMessage_padMessage hpad, bucket_fits hbucket⟩
  · rintro ⟨e, herror⟩
    by_contra hp
    obtain ⟨padded, hpad⟩ := padMessage_accepts fill (show p.length + 4 ≤ 262144 by omega)
    exact nomatch hpad.symm.trans herror
  · cases hpad : padMessage p fill with
    | error e => exact ⟨e, rfl⟩
    | ok padded =>
      obtain ⟨bucket, hbucket, -⟩ := padMessage_ok hpad
      obtain ⟨hmem, hle, -⟩ := bucket_fits hbucket
      have hmax := le_of_mem_messageBuckets bucket hmem
      omega
  · intro padded padded' hpad hpad' hsame
    obtain ⟨bucket, hbucket, rfl, -⟩ := padMessage_ok hpad
    obtain ⟨bucket', hbucket', rfl, -⟩ := padMessage_ok hpad'
    obtain ⟨hmem, hle, hleast⟩ := bucket_fits hbucket
    obtain ⟨hmem', hle', hleast'⟩ := bucket_fits hbucket'
    exact le_antisymm (hleast _ hmem' ((hsame _ hmem').mpr hle')) (hleast' _ hmem ((hsame _ hmem).mp hle))

/-! ## Encryption to a public key -/

def hybridHPKESuite : Bytes := lit "HPKE-MLKEM768-X25519-HKDFSHA256-CHACHA20POLY1305"
def hpkeInfo : Bytes := lit "enig/direct-envelope/v1"

def encapsulationBytes : Nat := 1120

/-- `crypto/hpke` with the hybrid key encapsulation, and what is assumed of it. -/
structure Hpke (c : Primitives) where
  /-- Whether `NewPrivateKey` takes these bytes. -/
  privateKey : Bytes → Bool
  publicFromPrivate : Bytes → Bytes
  /-- Encapsulation and ciphertext, from the public key, random bytes, the info, the
      associated data and the plaintext. -/
  sealTo : Bytes → Bytes → Bytes → Bytes → Bytes → Bytes × Bytes
  /-- The plaintext, from the private key, the encapsulation, the info, the associated data
      and the ciphertext. -/
  openFrom : Bytes → Bytes → Bytes → Bytes → Bytes → Option Bytes
  public_valid : ∀ key, privateKey key = true → c.kemPublicKey (publicFromPrivate key) = true
  length_encapsulation : ∀ key random info aad plaintext,
    (sealTo key random info aad plaintext).1.length = encapsulationBytes
  length_ciphertext : ∀ key random info aad plaintext,
    (sealTo key random info aad plaintext).2.length = plaintext.length + 16
  open_seal : ∀ key random info aad plaintext, privateKey key = true →
    openFrom key (sealTo (publicFromPrivate key) random info aad plaintext).1 info aad
      (sealTo (publicFromPrivate key) random info aad plaintext).2 = some plaintext

namespace Hpke

variable {c : Primitives}

def sealEnvelope (h : Hpke c) (publicKey random aad plaintext : Bytes) : Option (Bytes × Bytes) :=
  if c.kemPublicKey publicKey = false then none
  else some (h.sealTo publicKey random hpkeInfo aad plaintext)

def openEnvelope (h : Hpke c) (privateKey encapsulation aad ciphertext : Bytes) : Option Bytes :=
  if encapsulation.length = 0 ∨ ciphertext.length = 0 then none
  else if h.privateKey privateKey = false then none
  else h.openFrom privateKey encapsulation hpkeInfo aad ciphertext

end Hpke

/-- Nothing hidden: the tag is sixteen zeros. -/
def sampleHpke : Hpke samplePrimitives where
  privateKey key := key.length == 32
  publicFromPrivate _ := sampleBytes 1216 0
  sealTo _ _ _ _ plaintext := (sampleBytes 1120 0, plaintext ++ sampleBytes 16 0)
  openFrom _ _ _ _ ciphertext := some (ciphertext.take (ciphertext.length - 16))
  public_valid _ _ := beq_iff_eq.mpr (length_sampleBytes 1216 0)
  length_encapsulation _ _ _ _ _ := length_sampleBytes 1120 0
  length_ciphertext _ _ _ _ _ := by
    rw [List.length_append, length_sampleBytes]
  open_seal _ _ _ _ plaintext _ := by
    simp [length_sampleBytes]

end Veilmesh.Pqcrypto

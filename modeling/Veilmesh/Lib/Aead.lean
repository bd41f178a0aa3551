/-
  Authenticated encryption with a keystream and a tag.

  An `Aead` is given by its keystream and its tag function; `sealWith` masks the text and
  appends the tag of the masked text, `openWith` checks the tag and removes the mask. AES-GCM
  is of this form, with the counter blocks of AES as keystream and GHASH as tag. Nothing
  is said here about how hard a tag is to forge.

  * `openWith_sealWith`: under one key, nonce and associated data, opening undoes sealing.
  * `length_sealWith`: the sealed text is longer by the tag.
-/
import Veilmesh.Lib.Bytes

namespace Veilmesh.Lib

/-- The length of a tag. -/
def tagSize : Nat := 16

/-- A keystream for each key and nonce, and a tag for a masked text and its associated
    data. -/
structure Aead where
  keystream : Bytes → Bytes → Nat → UInt8
  tag : Bytes → Bytes → Bytes → Bytes → Bytes
  length_tag : ∀ key nonce aad text, (tag key nonce aad text).length = tagSize

/-- Nothing hidden and nothing authenticated. -/
def plainAead : Aead := ⟨fun _ _ _ => 0, fun _ _ _ _ => List.replicate 16 0, fun _ _ _ _ => rfl⟩

/-- Combine the text with the stream from position `i` on. -/
def mask (stream : Nat → UInt8) : Nat → Bytes → Bytes
  | _, [] => []
  | i, b :: text => (b ^^^ stream i) :: mask stream (i + 1) text

theorem length_mask (stream : Nat → UInt8) (i : Nat) (text : Bytes) :
    (mask stream i text).length = text.length := by
  induction text generalizing i with
  | nil => rfl
  | cons b text ih => rw [mask, List.length_cons, ih, List.length_cons]

theorem mask_mask (stream : Nat → UInt8) (i : Nat) (text : Bytes) :
    mask stream i (mask stream i text) = text := by
  induction text generalizing i with
  | nil => rfl
  | cons b text ih => rw [mask, mask, ih, UInt8.xor_assoc, UInt8.xor_self, UInt8.xor_zero]

namespace Aead

variable (a : Aead)

def sealWith (key nonce plaintext aad : Bytes) : Bytes :=
  let masked := mask (a.keystream key nonce) 0 plaintext
  masked ++ a.tag key nonce aad masked

def openWith (key nonce sealed aad : Bytes) : Option Bytes :=
  let masked := sealed.take (sealed.length - tagSize)
  if tagSize ≤ sealed.length ∧ sealed.drop (sealed.length - tagSize) = a.tag key nonce aad masked
  then some (mask (a.keystream key nonce) 0 masked)
  else none

theorem length_sealWith (key nonce plaintext aad : Bytes) :
    (a.sealWith key nonce plaintext aad).length = plaintext.length + tagSize := by
  rw [Aead.sealWith, List.length_append, length_mask, a.length_tag]

theorem openWith_sealWith (key nonce plaintext aad : Bytes) :
    a.openWith key nonce (a.sealWith key nonce plaintext aad) aad = some plaintext := by
  have hlen : (a.sealWith key nonce plaintext aad).length - tagSize =
      (mask (a.keystream key nonce) 0 plaintext).length := by
    rw [length_sealWith, length_mask, Nat.add_sub_cancel]
  rw [Aead.openWith, hlen, length_sealWith]
  simp only [Aead.sealWith, List.take_left, List.drop_left, Nat.le_add_left, and_self, if_true,
    mask_mask]

end Aead

end Veilmesh.Lib

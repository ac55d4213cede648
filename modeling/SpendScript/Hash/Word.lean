/-
  SpendScript.Hash.Word — 32-bit words, and the padding that the block hashes share.

  A message is followed by a one bit, zeros and its bit length, so that it fills whole
  blocks of 64 bytes (`pad_length`); a block is read as sixteen words.
-/

import SpendScript.Bytes

namespace SpendScript.Hash

/-- Rotation to the left, for `0 < k < 32`. -/
def rotl (x k : UInt32) : UInt32 := (x <<< k) ||| (x >>> (32 - k))

/-- Rotation to the right, for `0 < k < 32`. -/
def rotr (x k : UInt32) : UInt32 := (x >>> k) ||| (x <<< (32 - k))

def beWord (x : UInt32) : Bytes :=
  [(x >>> 24).toUInt8, (x >>> 16).toUInt8, (x >>> 8).toUInt8, x.toUInt8]

def leWord (x : UInt32) : Bytes :=
  [x.toUInt8, (x >>> 8).toUInt8, (x >>> 16).toUInt8, (x >>> 24).toUInt8]

def beWords : Bytes → List UInt32
  | a :: b :: c :: d :: r =>
    ((a.toUInt32 <<< 24) ||| (b.toUInt32 <<< 16) ||| (c.toUInt32 <<< 8) ||| d.toUInt32) :: beWords r
  | _ => []

def leWords : Bytes → List UInt32
  | a :: b :: c :: d :: r =>
    ((d.toUInt32 <<< 24) ||| (c.toUInt32 <<< 16) ||| (b.toUInt32 <<< 8) ||| a.toUInt32) :: leWords r
  | _ => []

/-! ## Padding -/

/-- The message, a one bit, zeros, and the bit length as `lengthBytes` writes it in eight
    bytes. -/
def pad (lengthBytes : Nat → Bytes) (m : Bytes) : Bytes :=
  m ++ 0x80 :: (List.replicate ((119 - m.length % 64) % 64) 0 ++ lengthBytes (8 * m.length))

/-- The first `k` blocks of 64 bytes. -/
def blocks : (k : Nat) → Bytes → List Bytes
  | 0, _ => []
  | k + 1, b => b.take 64 :: blocks k (b.drop 64)

def padded (lengthBytes : Nat → Bytes) (m : Bytes) : List Bytes :=
  let p := pad lengthBytes m
  blocks (p.length / 64) p

theorem pad_length (lengthBytes : Nat → Bytes) (h : ∀ n, (lengthBytes n).length = 8) (m : Bytes) :
    (pad lengthBytes m).length % 64 = 0 := by
  simp only [pad, List.length_append, List.length_cons, List.length_replicate, h]
  omega

end SpendScript.Hash

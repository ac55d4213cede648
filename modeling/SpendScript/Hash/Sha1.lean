/-
  SpendScript.Hash.Sha1 — SHA-1.

  `Sha1.digest` takes a byte string to its 20-byte digest.
-/

import SpendScript.Hash.Word

namespace SpendScript.Hash.Sha1

structure State where
  a : UInt32
  b : UInt32
  c : UInt32
  d : UInt32
  e : UInt32

def start : State := ⟨0x67452301, 0xefcdab89, 0x98badcfe, 0x10325476, 0xc3d2e1f0⟩

/-- The sixteen words of a block, extended to eighty. -/
def schedule (words : List UInt32) : Array UInt32 :=
  (List.range 64).foldl
    (fun w i =>
      w.push (rotl (w.getD (i + 13) 0 ^^^ w.getD (i + 8) 0 ^^^ w.getD (i + 2) 0 ^^^ w.getD i 0) 1))
    words.toArray

/-- The mixing function and constant of each run of twenty rounds. -/
def mix (t : Nat) (x y z : UInt32) : UInt32 × UInt32 :=
  if t < 20 then ((x &&& y) ^^^ (~~~x &&& z), 0x5a827999)
  else if t < 40 then (x ^^^ y ^^^ z, 0x6ed9eba1)
  else if t < 60 then ((x &&& y) ^^^ (x &&& z) ^^^ (y &&& z), 0x8f1bbcdc)
  else (x ^^^ y ^^^ z, 0xca62c1d6)

def round (s : State) (t : Nat) (w : UInt32) : State :=
  let (f, k) := mix t s.b s.c s.d
  ⟨rotl s.a 5 + f + s.e + k + w, s.a, rotl s.b 30, s.c, s.d⟩

def compress (s : State) (block : Bytes) : State :=
  let w := schedule (beWords block)
  let t := (List.range 80).foldl (fun s t => round s t (w.getD t 0)) s
  ⟨s.a + t.a, s.b + t.b, s.c + t.c, s.d + t.d, s.e + t.e⟩

def State.bytes (s : State) : Block 20 :=
  ⟨beWord s.a ++ beWord s.b ++ beWord s.c ++ beWord s.d ++ beWord s.e, rfl⟩

def digest (m : Bytes) : Block 20 := ((padded (beBytes 8) m).foldl compress start).bytes

end SpendScript.Hash.Sha1

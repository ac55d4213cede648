/-
  SpendScript.Hash.Ripemd160 — RIPEMD-160.

  `Ripemd160.digest` takes a byte string to its 20-byte digest. Each block goes through
  two lines of eighty rounds, which differ in word order, shifts and constants and are
  added together at the end.
-/

import SpendScript.Hash.Word

namespace SpendScript.Hash.Ripemd160

structure State where
  a : UInt32
  b : UInt32
  c : UInt32
  d : UInt32
  e : UInt32

def start : State := ⟨0x67452301, 0xefcdab89, 0x98badcfe, 0x10325476, 0xc3d2e1f0⟩

/-- The mixing function of the `k`-th run of sixteen rounds in the left line. -/
def mix : (k : Nat) → (x y z : UInt32) → UInt32
  | 0, x, y, z => x ^^^ y ^^^ z
  | 1, x, y, z => (x &&& y) ||| (~~~x &&& z)
  | 2, x, y, z => (x ||| ~~~y) ^^^ z
  | 3, x, y, z => (x &&& z) ||| (y &&& ~~~z)
  | _, x, y, z => x ^^^ (y ||| ~~~z)

/-- One of the two lines: for each run of sixteen rounds its mixing function and constant,
    and for each round the word it takes and its shift. -/
structure Line where
  mixing : List (Nat × UInt32)
  order : List Nat
  shifts : List UInt32

def left : Line where
  mixing := [(0, 0), (1, 0x5a827999), (2, 0x6ed9eba1), (3, 0x8f1bbcdc), (4, 0xa953fd4e)]
  order :=
    [0, 1, 2, 3, 4, 5, 6, 7, 8, 9, 10, 11, 12, 13, 14, 15,
     7, 4, 13, 1, 10, 6, 15, 3, 12, 0, 9, 5, 2, 14, 11, 8,
     3, 10, 14, 4, 9, 15, 8, 1, 2, 7, 0, 6, 13, 11, 5, 12,
     1, 9, 11, 10, 0, 8, 12, 4, 13, 3, 7, 15, 14, 5, 6, 2,
     4, 0, 5, 9, 7, 12, 2, 10, 14, 1, 3, 8, 11, 6, 15, 13]
  shifts :=
    [11, 14, 15, 12, 5, 8, 7, 9, 11, 13, 14, 15, 6, 7, 9, 8,
     7, 6, 8, 13, 11, 9, 7, 15, 7, 12, 15, 9, 11, 7, 13, 12,
     11, 13, 6, 7, 14, 9, 13, 15, 14, 8, 13, 6, 5, 12, 7, 5,
     11, 12, 14, 15, 14, 15, 9, 8, 9, 14, 5, 6, 8, 6, 5, 12,
     9, 15, 5, 11, 6, 8, 13, 12, 5, 12, 13, 14, 11, 8, 5, 6]

def right : Line where
  mixing := [(4, 0x50a28be6), (3, 0x5c4dd124), (2, 0x6d703ef3), (1, 0x7a6d76e9), (0, 0)]
  order :=
    [5, 14, 7, 0, 9, 2, 11, 4, 13, 6, 15, 8, 1, 10, 3, 12,
     6, 11, 3, 7, 0, 13, 5, 10, 14, 15, 8, 12, 4, 9, 1, 2,
     15, 5, 1, 3, 7, 14, 6, 9, 11, 8, 12, 2, 10, 0, 4, 13,
     8, 6, 4, 1, 3, 11, 15, 0, 5, 12, 2, 13, 9, 7, 10, 14,
     12, 15, 10, 4, 1, 5, 8, 7, 6, 2, 13, 14, 0, 3, 9, 11]
  shifts :=
    [8, 9, 9, 11, 13, 15, 15, 5, 7, 7, 8, 11, 14, 14, 12, 6,
     9, 13, 15, 7, 12, 8, 9, 11, 7, 7, 12, 7, 6, 15, 13, 11,
     9, 7, 15, 11, 8, 6, 6, 14, 12, 13, 5, 14, 13, 13, 7, 5,
     15, 5, 8, 11, 14, 14, 6, 14, 6, 9, 12, 9, 12, 5, 15, 8,
     8, 5, 12, 9, 12, 5, 14, 6, 8, 13, 6, 5, 15, 13, 11, 11]

def round (s : State) (m : Nat × UInt32) (word shift : UInt32) : State :=
  ⟨s.e, rotl (s.a + mix m.1 s.b s.c s.d + word + m.2) shift + s.e, s.b, rotl s.c 10, s.d⟩

def Line.run (l : Line) (words : Array UInt32) (s : State) : State :=
  ((l.mixing.flatMap (List.replicate 16)).zip (l.order.zip l.shifts)).foldl
    (fun s (m, i, shift) => round s m (words.getD i 0) shift) s

def compress (s : State) (block : Bytes) : State :=
  let words := (leWords block).toArray
  let l := left.run words s
  let r := right.run words s
  ⟨s.b + l.c + r.d, s.c + l.d + r.e, s.d + l.e + r.a, s.e + l.a + r.b, s.a + l.b + r.c⟩

def State.bytes (s : State) : Block 20 :=
  ⟨leWord s.a ++ leWord s.b ++ leWord s.c ++ leWord s.d ++ leWord s.e, rfl⟩

def digest (m : Bytes) : Block 20 := ((padded (leBytes 8) m).foldl compress start).bytes

end SpendScript.Hash.Ripemd160

/-
  SpendScript.Number — the integers of the script machine.

  A stack item is read as a number in little-endian sign-magnitude form: the top bit of
  the last byte is the sign. Every integer has one shortest form, which `encode` writes;
  `parse` reads any form up to a size limit, and only the shortest one on request.
  A stack item is true unless it spells zero or negative zero.
-/

import SpendScript.Bytes

namespace SpendScript.Number

/-- Why a stack item is not read as a number. -/
inductive Error where
  | nonMinimal (item : Bytes)
  | overflow (maxSize actual : Nat)
  deriving DecidableEq, Repr

def Error.message : Error → String
  | .nonMinimal _ => "non-minimal encoding of script number"
  | .overflow maxSize actual =>
    String.join ["script number overflow: max: ", toString maxSize, ", actual: ", toString actual]

/-- Operands of the arithmetic operations take at most four bytes. -/
def operandSize : Nat := 4

/-- Lock times take a fifth byte, so that every 32-bit time can be written. -/
def lockTimeSize : Nat := 5

/-- No number is read from more than this many bytes, whatever limit is asked for. -/
def largestSize : Nat := 8

/-- Whether no shorter byte string spells the same number: the last byte has a bit beside
    the sign, or it is there only because the byte before it uses its top bit. -/
def isMinimal (b : Bytes) : Bool :=
  match b.reverse with
  | [] => true
  | [last] => last &&& 0x7f != 0
  | last :: next :: _ => last &&& 0x7f != 0 || next &&& 0x80 != 0

/-- The sign-magnitude value; negative zero is zero. -/
def value (b : Bytes) : Int :=
  if b.isEmpty then 0
  else
    let sign := 2 ^ (8 * b.length - 1)
    if leNat b < sign then leNat b else -((leNat b - sign : Nat) : Int)

def parse (minimal : Bool) (maxSize : Nat) (b : Bytes) : Except Error Int :=
  if maxSize < b.length then .error (.overflow maxSize b.length)
  else if minimal && !isMinimal b then .error (.nonMinimal b)
  else if largestSize < b.length then .error (.overflow largestSize b.length)
  else .ok (value b)

/-- The fewest bytes whose magnitude bits hold `n`. -/
def width (n : Int) : Nat := (n.natAbs.log2 + 1) / 8 + 1

/-- The shortest form of `n`. -/
def encode (n : Int) : Bytes :=
  if n = 0 then []
  else leBytes (width n) (if n < 0 then n.natAbs + 2 ^ (8 * width n - 1) else n.natAbs)

/-- A stack item is false when all its bytes are zero, the last one up to its sign. -/
def truthy : Bytes → Bool
  | [] => false
  | [b] => b != 0 && b != 0x80
  | b :: c :: bs => b != 0 || truthy (c :: bs)

def ofBool (b : Bool) : Bytes := if b then [1] else []

end SpendScript.Number

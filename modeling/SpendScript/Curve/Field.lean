/-
  SpendScript.Curve.Field — arithmetic modulo the curve's two primes.

  `prime` is the size of the coordinate field and `order` the number of points. Residues
  are numbers below their modulus; inverses and square roots are powers.
-/

namespace SpendScript.Curve

/-- The size of the field of coordinates. -/
def prime : Nat := 0xfffffffffffffffffffffffffffffffffffffffffffffffffffffffefffffc2f

/-- The number of points of the curve. -/
def order : Nat := 0xfffffffffffffffffffffffffffffffebaaedce6af48a03bbfd25e8cd0364141

/-- `b ^ e` modulo `m`, for an exponent below `2 ^ 256`: square for each bit from the top,
    and multiply where it is set. -/
def powMod (m b e : Nat) : Nat :=
  (List.range 256).foldr
    (fun i acc =>
      let square := acc * acc % m
      if e.testBit i then square * b % m else square)
    (1 % m)

/-- The inverse modulo a prime; zero has none and gives zero. -/
def invMod (m a : Nat) : Nat := powMod m a (m - 2)

/-- The difference of two residues. -/
def subMod (m a b : Nat) : Nat := (a + (m - b)) % m

/-- The square root of a residue of the field, if it has one. -/
def sqrt? (a : Nat) : Option Nat :=
  let r := powMod prime a ((prime + 1) / 4)
  if r * r % prime = a then some r else none

end SpendScript.Curve

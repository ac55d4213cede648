/-
  SpendScript.Curve.Point — points of the curve `y² = x³ + 7`.

  An affine point is a pair of residues. Sums are computed in Jacobian coordinates, where
  `(x, y, z)` stands for `(x / z², y / z³)` and `z = 0` for the point at infinity, so that
  only the way back to affine coordinates divides.
-/

import SpendScript.Curve.Field

namespace SpendScript.Curve

structure Point where
  x : Nat
  y : Nat
  deriving DecidableEq, Repr

namespace Point

def onCurve (p : Point) : Bool :=
  p.x < prime && p.y < prime && p.y * p.y % prime == (p.x * p.x * p.x + 7) % prime

def generator : Point where
  x := 0x79be667ef9dcbbac55a06295ce870b07029bfcdb2dce28d959f2815b16f81798
  y := 0x483ada7726a3c4655da4fbfc0e1108a8fd17b448a68554199c47d08ffb10d4b8

/-- The point with abscissa `x` whose ordinate is odd exactly if `odd` says so. -/
def lift? (x : Nat) (odd : Bool) : Option Point :=
  if x < prime then
    (sqrt? ((x * x * x + 7) % prime)).map fun y =>
      if (y % 2 == 1) == odd then ⟨x, y⟩ else ⟨x, (prime - y) % prime⟩
  else none

end Point

/-- A point in Jacobian coordinates. -/
structure Jacobian where
  x : Nat
  y : Nat
  z : Nat

namespace Jacobian

def infinity : Jacobian := ⟨1, 1, 0⟩

def ofPoint (p : Point) : Jacobian := ⟨p.x, p.y, 1⟩

def double (p : Jacobian) : Jacobian :=
  if p.z == 0 || p.y == 0 then infinity
  else
    let a := p.x * p.x % prime
    let b := p.y * p.y % prime
    let c := b * b % prime
    let d := 4 * p.x * b % prime
    let e := 3 * a % prime
    let x := subMod prime (e * e % prime) (2 * d % prime)
    ⟨x, subMod prime (e * subMod prime d x % prime) (8 * c % prime), 2 * p.y * p.z % prime⟩

def add (p q : Jacobian) : Jacobian :=
  if p.z == 0 then q
  else if q.z == 0 then p
  else
    let pz := p.z * p.z % prime
    let qz := q.z * q.z % prime
    let u₁ := p.x * qz % prime
    let u₂ := q.x * pz % prime
    let s₁ := p.y * (q.z * qz % prime) % prime
    let s₂ := q.y * (p.z * pz % prime) % prime
    if u₁ == u₂ then
      if s₁ == s₂ then double p else infinity
    else
      let h := subMod prime u₂ u₁
      let r := subMod prime s₂ s₁
      let hh := h * h % prime
      let hhh := h * hh % prime
      let v := u₁ * hh % prime
      let x := subMod prime (subMod prime (r * r % prime) hhh) (2 * v % prime)
      ⟨x, subMod prime (r * subMod prime v x % prime) (s₁ * hhh % prime), h * (p.z * q.z % prime) % prime⟩

/-- The affine point; the point at infinity has none. -/
def toPoint? (p : Jacobian) : Option Point :=
  if p.z == 0 then none
  else
    let i := invMod prime p.z
    let ii := i * i % prime
    some ⟨p.x * ii % prime, p.y * (ii * i % prime) % prime⟩

end Jacobian

/-- `a · p + b · q`, for factors below `2 ^ 256`: one doubling for each pair of bits from the
    top, and one addition where a bit is set. -/
def combine (a : Nat) (p : Point) (b : Nat) (q : Point) : Option Point :=
  let p := Jacobian.ofPoint p
  let q := Jacobian.ofPoint q
  let both := p.add q
  let sum := (List.range 256).foldr
    (fun i acc =>
      let twice := acc.double
      match a.testBit i, b.testBit i with
      | true, true => twice.add both
      | true, false => twice.add p
      | false, true => twice.add q
      | false, false => twice)
    Jacobian.infinity
  sum.toPoint?

end SpendScript.Curve

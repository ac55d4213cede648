/-
  SpendScript.Curve.Verify — verification of ECDSA and Schnorr signatures.
-/

import SpendScript.Hash
import SpendScript.Curve.Key

namespace SpendScript.Curve

/-- An ECDSA signature: two residues modulo the order. Zero residues never verify. -/
structure Ecdsa where
  r : Nat
  s : Nat
  deriving DecidableEq, Repr

namespace Ecdsa

/-- Of `s` and its negation the smaller one, which signs the same. -/
def normalize (sig : Ecdsa) : Ecdsa :=
  if order / 2 < sig.s then ⟨sig.r, order - sig.s⟩ else sig

def isLowS (sig : Ecdsa) : Bool := sig.normalize == sig

/-- Both residues, in 32 bytes each. -/
def compact (sig : Ecdsa) : Bytes := beBytes 32 sig.r ++ beBytes 32 sig.s

def verify (sig : Ecdsa) (key : Point) (digest : Block 32) : Bool :=
  if sig.r == 0 || sig.s == 0 then false
  else
    let w := invMod order sig.s
    let z := beNat digest.val % order
    match combine (z * w % order) Point.generator (sig.r * w % order) key with
    | some p => p.x % order == sig.r
    | none => false

end Ecdsa

/-- Schnorr verification against an x-only key: the first half of the signature is the
    abscissa of a point with an even ordinate. -/
def verifySchnorr (key digest : Block 32) (sig : Block 64) : Bool :=
  match Key.xOnly? key with
  | none => false
  | some p =>
    let r := beNat (sig.val.take 32)
    let s := beNat (sig.val.drop 32)
    let e := beNat (Hash.tagged "BIP0340/challenge" (sig.val.take 32 ++ key.val ++ digest.val)).val % order
    if r < prime && s < order then
      match combine s Point.generator ((order - e) % order) p with
      | some q => q.y % 2 == 0 && q.x == r
      | none => false
    else false

end SpendScript.Curve

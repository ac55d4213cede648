/-
  SpendScript.Curve.Key — public keys: their encodings, and tweaking of x-only keys.

  A key on the stack is compressed (33 bytes), uncompressed or hybrid (65 bytes). The
  leading byte fixes the length (`wellFormed`); whether a point stands behind it is a
  matter of `point?`. An x-only key is an abscissa; its point has an even ordinate.
-/

import SpendScript.Bytes
import SpendScript.Curve.Point

namespace SpendScript.Curve.Key

def compressedSize : Nat := 33

def uncompressedSize : Nat := 65

/-- The length that a leading byte calls for; hybrid keys count as uncompressed. -/
def impliedSize (key : Bytes) : Option Nat :=
  match key.head? with
  | some b =>
    if b == 0x02 || b == 0x03 then some compressedSize
    else if b == 0x04 || b == 0x06 || b == 0x07 then some uncompressedSize
    else none
  | none => none

/-- The length fits the leading byte. -/
def wellFormed (key : Bytes) : Bool := impliedSize key == some key.length

def isCompressed (key : Bytes) : Bool :=
  (key.head? == some 0x02 || key.head? == some 0x03) && key.length == compressedSize

def isUncompressed (key : Bytes) : Bool :=
  key.head? == some 0x04 && key.length == uncompressedSize

/-- The point that a key encodes. A hybrid key repeats the parity of its ordinate. -/
def point? (key : Bytes) : Option Point :=
  match key with
  | [] => none
  | tag :: rest =>
    if rest.length == 32 then
      if tag == 0x02 || tag == 0x03 then Point.lift? (beNat rest) (tag == 0x03) else none
    else if rest.length == 64 then
      let p : Point := ⟨beNat (rest.take 32), beNat (rest.drop 32)⟩
      let tagFits := tag == 0x04 || (tag == 0x06 && p.y % 2 == 0) || (tag == 0x07 && p.y % 2 == 1)
      if tagFits && p.onCurve then some p else none
    else none

/-- The point of an x-only key. -/
def xOnly? (key : Block 32) : Option Point := Point.lift? (beNat key.val) false

/-- An x-only key moved by `tweak` times the generator, and whether the ordinate of the
    result is odd. -/
def tweak? (key tweak : Block 32) : Option (Block 32 × Bool) :=
  if beNat tweak.val < order then do
    let p ← xOnly? key
    let q ← combine 1 p (beNat tweak.val) Point.generator
    return (⟨beBytes 32 q.x, beBytes_length 32 q.x⟩, q.y % 2 == 1)
  else none

/-- Whether `key` moved by `tweak` is the key `moved` of the given parity. -/
def isTweakOf (moved : Block 32) (odd : Bool) (key tweak : Block 32) : Bool :=
  tweak? key tweak == some (moved, odd)

end SpendScript.Curve.Key

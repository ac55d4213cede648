/-
  SpendScript.Taproot — how an output key commits to a tree of scripts.

  A leaf is a script with a version, an inner node the hash of its two children in either
  order. The output key is the internal key moved by a hash of it and the root. A spend of
  one leaf shows its control block: the internal key and the siblings on the way up.
-/

import SpendScript.Curve.Key
import SpendScript.Hash
import SpendScript.Transaction

namespace SpendScript.Taproot

inductive Error where
  | controlSize (size : Nat)
  | invalidDepth (depth : Nat)
  | incomplete
  | invalidInternalKey
  deriving DecidableEq, Repr

def Error.message : Error → String
  | .controlSize size =>
    String.join ["control block of ", toString size, " bytes isn’t 33 + 32m bytes with m ≤ 128"]
  | .invalidDepth depth =>
    String.join ["leaf depth ", toString depth, " can’t be placed in the tree"]
  | .incomplete => "the script tree has unfilled branches"
  | .invalidInternalKey => "the internal key isn’t a valid x-only public key"

/-- The version of leaves that are run as tapscripts. -/
def tapscriptVersion : UInt8 := 0xc0

/-- The low bit of the first control byte is the parity, the others are the version. -/
def versionMask : UInt8 := 0xfe

/-- The first byte of a witness item that is an annex. -/
def annexTag : UInt8 := 0x50

/-- The most nodes between a leaf and the root. -/
def maxDepth : Nat := 128

/-! ## Hashes -/

def leafHash (version : UInt8) (script : Bytes) : Block 32 :=
  Hash.tagged "TapLeaf" ((version &&& versionMask) :: sized script)

/-- The children are sorted, so their order does not matter. -/
def branchHash (a b : Block 32) : Block 32 :=
  Hash.tagged "TapBranch" (if beNat a.val ≤ beNat b.val then a.val ++ b.val else b.val ++ a.val)

/-- An output without scripts has no root. -/
def tweakHash (internalKey : Block 32) (root : Option (Block 32)) : Block 32 :=
  Hash.tagged "TapTweak" (internalKey.val ++ root.elim [] Subtype.val)

/-! ## Control blocks -/

structure ControlBlock where
  version : UInt8
  /-- Whether the ordinate of the output key is odd. -/
  odd : Bool
  internalKey : Block 32
  /-- The siblings from the leaf up to the root. -/
  path : List (Block 32)
  deriving DecidableEq

namespace ControlBlock

/-- The version byte and the internal key. -/
def baseSize : Nat := 33

def nodeSize : Nat := 32

def maxSize : Nat := baseSize + nodeSize * maxDepth

/-- The first `k` nodes of 32 bytes. -/
def nodes : (k : Nat) → Bytes → List (Block 32)
  | 0, _ => []
  | k + 1, b =>
    match Block.ofBytes? 32 (b.take 32) with
    | some node => node :: nodes k (b.drop 32)
    | none => []

/-- Only the size of a control block can be wrong. -/
def parse (b : Bytes) : Except Error ControlBlock :=
  match b, Block.ofBytes? 32 ((b.drop 1).take 32) with
  | first :: _, some key =>
    let path := b.drop baseSize
    if path.length % nodeSize = 0 && path.length / nodeSize ≤ maxDepth then
      .ok ⟨first &&& versionMask, first &&& 1 == 1, key, nodes (path.length / nodeSize) path⟩
    else .error (.controlSize b.length)
  | _, _ => .error (.controlSize b.length)

def encode (c : ControlBlock) : Bytes :=
  (c.version ||| if c.odd then 1 else 0) :: (c.internalKey.val ++ c.path.flatMap Subtype.val)

/-- The root of the tree that a leaf with this hash stands in. -/
def root (c : ControlBlock) (leaf : Block 32) : Block 32 := c.path.foldl branchHash leaf

/-- Whether the output key commits to the leaf. -/
def commits (c : ControlBlock) (outputKey leaf : Block 32) : Bool :=
  Curve.Key.isTweakOf outputKey c.odd c.internalKey (tweakHash c.internalKey (some (c.root leaf)))

end ControlBlock

end SpendScript.Taproot

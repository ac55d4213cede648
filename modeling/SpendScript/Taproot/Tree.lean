/-
  SpendScript.Taproot.Tree — script trees built leaf by leaf.

  Leaves come from left to right with their depths. What is not yet joined is a list of
  subtrees, the deepest one first; a subtree is joined as soon as its sibling is there.
  A finished tree gives the output key and, for each leaf, its control block.
-/

import SpendScript.Taproot

namespace SpendScript.Taproot

structure Leaf where
  version : UInt8
  script : Bytes
  /-- The siblings met so far on the way up. -/
  path : List (Block 32)

/-- A finished subtree with its leaves from left to right. -/
structure Subtree where
  hash : Block 32
  leaves : List Leaf

namespace Subtree

def leaf (version : UInt8) (script : Bytes) : Subtree :=
  ⟨leafHash version script, [⟨version &&& versionMask, script, []⟩]⟩

/-- All leaves one level further down, beside a sibling with the given hash. -/
def under (sibling : Block 32) (leaves : List Leaf) : List Leaf :=
  leaves.map fun l => { l with path := l.path ++ [sibling] }

def join (l r : Subtree) : Subtree :=
  ⟨branchHash l.hash r.hash, under r.hash l.leaves ++ under l.hash r.leaves⟩

end Subtree

/-- Subtrees that wait for a sibling, each with its depth. -/
structure Builder where
  pending : List (Nat × Subtree)

namespace Builder

def empty : Builder := ⟨[]⟩

/-- Puts a subtree at its depth and joins it as long as the sibling is waiting. -/
def settle (depth : Nat) (t : Subtree) : List (Nat × Subtree) → Except Error (List (Nat × Subtree))
  | [] => .ok [(depth, t)]
  | (d, sibling) :: rest =>
    if d = depth then
      match depth with
      | 0 => .error (.invalidDepth 0)
      | depth + 1 => settle depth (sibling.join t) rest
    else .ok ((depth, t) :: (d, sibling) :: rest)

/-- A leaf above the deepest waiting subtree would leave that one without a sibling. -/
def add (b : Builder) (depth : Nat) (version : UInt8) (script : Bytes) : Except Error Builder :=
  let deepest := (b.pending.head?.map Prod.fst).getD 0
  if maxDepth < depth || depth < deepest then .error (.invalidDepth depth)
  else (settle depth (Subtree.leaf version script) b.pending).map Builder.mk

end Builder

/-- All that is needed to spend a taproot output. -/
structure SpendInfo where
  internalKey : Block 32
  root : Option (Block 32)
  outputKey : Block 32
  odd : Bool
  leaves : List Leaf

namespace Builder

/-- The whole tree; an output may have none. -/
def tree? (b : Builder) : Except Error (Option Subtree) :=
  match b.pending with
  | [] => .ok none
  | [(0, t)] => .ok (some t)
  | _ => .error .incomplete

def finish (b : Builder) (internalKey : Block 32) : Except Error SpendInfo := do
  let tree ← b.tree?
  let root := tree.map Subtree.hash
  match Curve.Key.tweak? internalKey (tweakHash internalKey root) with
  | none => throw .invalidInternalKey
  | some (outputKey, odd) => return ⟨internalKey, root, outputKey, odd, tree.elim [] Subtree.leaves⟩

end Builder

/-- The control block of the first leaf with this version and script. -/
def SpendInfo.controlBlock? (info : SpendInfo) (version : UInt8) (script : Bytes) : Option ControlBlock :=
  (info.leaves.find? fun l => l.version == version && l.script == script).map fun l =>
    ⟨l.version, info.odd, info.internalKey, l.path⟩

end SpendScript.Taproot

/-
  SpendScript.Proofs.TaprootTree — every leaf of a finished script tree can be spent.

  A builder is given leaves from left to right, each with its depth, and joins subtrees as
  their siblings come. It keeps no tree, only what waits for a sibling, so the invariant is
  about partial trees: the leaves of a waiting subtree are those that were given, in order
  (`Subtree.Holds`), each with a path that leads to the hash of the subtree and is as long as
  the leaf stands below it; and all that waits holds all that was given (`Builder.Covers`).
  The order of the two children of a node does not matter to its hash (`branchHash_comm`), so
  that a path leads up from either side of a join.
  - `Builder.settle_covers` / `Builder.add_holds` / `Builder.addAll_holds`: joining, one leaf
    and all leaves.
  - `ControlBlock.parse_encode`: a control block is read back from its bytes.
  - `controlBlock_of_added`: the control block of every leaf is there, leads to the root and
    passes as a commitment of the output key.
-/

import Mathlib
import SpendScript.Proofs.Dialogue
import SpendScript.Proofs.Reading
import SpendScript.Taproot.Tree

namespace SpendScript

theorem beNat_eq_leNat_reverse (b : Bytes) : beNat b = leNat b.reverse := by
  induction b using List.reverseRecOn with
  | nil => rfl
  | append_singleton b x ih =>
    rw [List.reverse_append, List.reverse_singleton, List.singleton_append, leNat, ← ih]
    simp only [beNat, List.foldl_append, List.foldl_cons, List.foldl_nil]
    omega

theorem Block.eq_of_beNat_eq {n : Nat} {a b : Block n} (h : beNat a.val = beNat b.val) : a = b := by
  rw [beNat_eq_leNat_reverse, beNat_eq_leNat_reverse] at h
  have ha := leBytes_leNat a.val.reverse
  have hb := leBytes_leNat b.val.reverse
  rw [List.length_reverse, a.property] at ha
  rw [List.length_reverse, b.property, ← h] at hb
  exact Subtype.ext (List.reverse_injective (ha.symm.trans hb))

namespace Taproot

/-! ## Hashes -/

theorem leafHash_mask (version : UInt8) (script : Bytes) :
    leafHash (version &&& versionMask) script = leafHash version script := by
  unfold leafHash
  rw [UInt8.and_assoc, UInt8.and_self]

theorem branchHash_comm (a b : Block 32) : branchHash a b = branchHash b a := by
  unfold branchHash
  rcases Nat.lt_trichotomy (beNat a.val) (beNat b.val) with h | h | h
  · rw [if_pos (by omega), if_neg (by omega)]
  · rw [Block.eq_of_beNat_eq h]
  · rw [if_neg (by omega), if_pos (by omega)]

/-! ## Control blocks -/

namespace ControlBlock

theorem nodes_flatMap (path : List (Block 32)) : nodes path.length (path.flatMap Subtype.val) = path := by
  induction path with
  | nil => rfl
  | cons node path ih =>
    rw [List.length_cons, List.flatMap_cons, nodes, List.take_left' node.property, List.drop_left' node.property,
      Block.ofBytes?_val, ih]

theorem length_flatMap (path : List (Block 32)) : (path.flatMap Subtype.val).length = nodeSize * path.length := by
  induction path with
  | nil => rfl
  | cons node path ih =>
    rw [List.flatMap_cons, List.length_append, node.property, ih, List.length_cons, nodeSize]
    omega

/-- The version leaves the low bit of the first byte to the parity. -/
theorem first_byte : ∀ (version : UInt8) (odd : Bool), version &&& versionMask = version →
    (version ||| if odd then 1 else 0) &&& versionMask = version ∧
      ((version ||| if odd then 1 else 0) &&& 1 == 1) = odd := by
  decide +kernel

/-- A control block is read back from its bytes, if its version leaves room for the parity. -/
theorem parse_encode {c : ControlBlock} (hversion : c.version &&& versionMask = c.version)
    (hpath : c.path.length ≤ maxDepth) : parse c.encode = .ok c := by
  have hkey : Block.ofBytes? 32 ((c.encode.drop 1).take 32) = some c.internalKey := by
    rw [encode, List.drop_one, List.tail_cons, List.take_left' c.internalKey.property, Block.ofBytes?_val]
  have hrest : c.encode.drop baseSize = c.path.flatMap Subtype.val := by
    rw [encode, baseSize, List.drop_succ_cons, List.drop_left' c.internalKey.property]
  have hcount : nodeSize * c.path.length / nodeSize = c.path.length := Nat.mul_div_cancel_left _ (by decide)
  obtain ⟨hfirst, hodd⟩ := first_byte c.version c.odd hversion
  unfold parse
  rw [hkey, hrest]
  simp only [encode, length_flatMap, hcount, nodes_flatMap, hfirst, hodd]
  rw [if_pos (by simp [hpath])]

end ControlBlock

/-! ## Subtrees -/

/-- A leaf as it is given to a builder. -/
structure Placement where
  depth : Nat
  version : UInt8
  script : Bytes

/-- With the version that the leaf gets in the tree. -/
def Placement.masked (p : Placement) : Placement := { p with version := p.version &&& versionMask }

/-- Whether it is the same leaf, at whatever depth. -/
def Placement.sameLeaf (p q : Placement) : Bool :=
  q.version &&& versionMask == p.version &&& versionMask && q.script == p.script

/-- Where a leaf stands if the subtree it is in stands at the given depth. -/
def Leaf.placement (depth : Nat) (l : Leaf) : Placement := ⟨depth + l.path.length, l.version, l.script⟩

namespace Subtree

/-- A subtree at the given depth has these leaves, and their paths lead to its hash. -/
structure Holds (depth : Nat) (t : Subtree) (given : List Placement) : Prop where
  leaves : t.leaves.map (Leaf.placement depth) = given.map Placement.masked
  paths : ∀ l ∈ t.leaves, l.path.foldl branchHash (leafHash l.version l.script) = t.hash

/-- The first leaf with the version and script of a given one is found in the subtree, where it
    was first given. From the leaf its path leads to the hash. -/
theorem Holds.find_leaf {depth : Nat} {t : Subtree} {given : List Placement} (h : t.Holds depth given)
    {p : Placement} (hp : p ∈ given) :
    ∃ l first,
      (t.leaves.find? fun l => l.version == p.version &&& versionMask && l.script == p.script) = some l ∧
      given.find? p.sameLeaf = some first ∧
      l.version = p.version &&& versionMask ∧ depth + l.path.length = first.depth ∧
      l.path.foldl branchHash (leafHash p.version p.script) = t.hash := by
  -- marked with their depths, what is in the subtree and what was given are the same list
  have hfind := congrArg (List.find? fun q : Placement => q.version == p.version &&& versionMask && q.script == p.script)
    h.leaves
  rw [List.find?_map, List.find?_map] at hfind
  have hsome : (given.find? p.sameLeaf).isSome := List.find?_isSome.mpr ⟨p, hp, by simp [Placement.sameLeaf]⟩
  obtain ⟨first, hfirst⟩ := Option.isSome_iff_exists.mp hsome
  obtain ⟨l, hl, hplace⟩ := Option.map_eq_some_iff.mp (hfind.trans (congrArg (Option.map _) hfirst))
  have hsame := List.find?_some hl
  simp only [Function.comp, Leaf.placement, Bool.and_eq_true, beq_iff_eq] at hsame
  refine ⟨l, first, hl, hfirst, hsame.1, congrArg Placement.depth hplace, ?_⟩
  rw [← h.paths l (List.mem_of_find?_eq_some hl), hsame.1, hsame.2, leafHash_mask]

theorem leaf_holds (p : Placement) : (leaf p.version p.script).Holds p.depth [p] where
  leaves := rfl
  paths := by
    intro l hl
    rw [leaf, List.mem_singleton] at hl
    rw [hl]
    exact leafHash_mask p.version p.script

/-- One level up, the leaves stand where they stood. -/
theorem placement_under (depth : Nat) (sibling : Block 32) (leaves : List Leaf) :
    (under sibling leaves).map (Leaf.placement depth) = leaves.map (Leaf.placement (depth + 1)) := by
  rw [under, List.map_map]
  refine List.map_congr_left fun l _ => ?_
  simp only [Function.comp, Leaf.placement, List.length_append, List.length_singleton]
  congr 1
  omega

theorem path_under {sibling : Block 32} {leaves : List Leaf} {hash : Block 32}
    (h : ∀ l ∈ leaves, l.path.foldl branchHash (leafHash l.version l.script) = hash) :
    ∀ l ∈ under sibling leaves, l.path.foldl branchHash (leafHash l.version l.script) = branchHash hash sibling := by
  intro l hl
  obtain ⟨l', hl', rfl⟩ := List.mem_map.mp hl
  rw [List.foldl_append, List.foldl_cons, List.foldl_nil, h l' hl']

theorem join_holds {depth : Nat} {l r : Subtree} {left right : List Placement} (hl : l.Holds (depth + 1) left)
    (hr : r.Holds (depth + 1) right) : (l.join r).Holds depth (left ++ right) where
  leaves := by
    rw [join, List.map_append, placement_under, placement_under, hl.leaves, hr.leaves, List.map_append]
  paths := by
    intro x hx
    rcases List.mem_append.mp hx with hx | hx
    · exact path_under hl.paths x hx
    · rw [path_under hr.paths x hx]
      exact branchHash_comm r.hash l.hash

end Subtree

/-! ## Builders -/

namespace Builder

/-- All leaves one after the other. -/
def addAll (b : Builder) (given : List Placement) : Except Error Builder :=
  given.foldlM (fun b p => b.add p.depth p.version p.script) b

/-- What waits holds what was given: the last of it in front, where the deepest subtree is. -/
inductive Covers : List (Nat × Subtree) → List Placement → Prop
  | nil : Covers [] []
  | cons {depth : Nat} {t : Subtree} {pending : List (Nat × Subtree)} {before given : List Placement}
      (ht : t.Holds depth given) (hp : Covers pending before) : Covers ((depth, t) :: pending) (before ++ given)

theorem settle_covers {depth : Nat} {t : Subtree} {pending pending' : List (Nat × Subtree)}
    {before given : List Placement} (ht : t.Holds depth given) (hp : Covers pending before)
    (h : settle depth t pending = .ok pending') : Covers pending' (before ++ given) := by
  induction hp generalizing depth t given with
  | nil =>
    unfold settle at h
    cases h
    exact .cons ht .nil
  | @cons d sibling pending before given' hsibling hp ih =>
    unfold settle at h
    split at h
    · rename_i heq
      cases depth with
      | zero => cases h
      | succ depth =>
        subst heq
        rw [List.append_assoc]
        exact ih (Subtree.join_holds hsibling ht) h
    · cases h
      exact .cons ht (.cons hsibling hp)

/-- What has been given to a builder. -/
structure Holds (b : Builder) (given : List Placement) : Prop where
  pending : Covers b.pending given
  depths : ∀ p ∈ given, p.depth ≤ maxDepth

theorem empty_holds : empty.Holds [] where
  pending := .nil
  depths := by simp

theorem add_holds {b b' : Builder} {given : List Placement} {p : Placement} (hb : b.Holds given)
    (h : b.add p.depth p.version p.script = .ok b') : b'.Holds (given ++ [p]) := by
  unfold add at h
  dsimp only at h
  split at h
  · cases h
  · rename_i hdepth
    cases hs : settle p.depth (Subtree.leaf p.version p.script) b.pending with
    | error e => rw [hs] at h; cases h
    | ok pending =>
      rw [hs] at h
      cases h
      refine ⟨settle_covers (Subtree.leaf_holds p) hb.pending hs, fun q hq => ?_⟩
      rcases List.mem_append.mp hq with hq | hq
      · exact hb.depths q hq
      · rw [List.mem_singleton.mp hq]
        simp only [Bool.or_eq_true, decide_eq_true_eq, not_or] at hdepth
        omega

theorem addAll_holds {b b' : Builder} {given added : List Placement} (hb : b.Holds given)
    (h : b.addAll added = .ok b') : b'.Holds (given ++ added) := by
  induction added generalizing b given with
  | nil =>
    cases h
    rwa [List.append_nil]
  | cons p added ih =>
    rw [addAll, List.foldlM_cons] at h
    obtain ⟨b₁, hadd, h⟩ := bind_eq_ok.mp h
    have hrest := ih (add_holds hb hadd) h
    rwa [List.append_assoc] at hrest

/-- Of a finished tree nothing waits but the root. -/
theorem tree?_holds {b : Builder} {given : List Placement} (hb : b.Holds given) {tree : Option Subtree}
    (h : b.tree? = .ok tree) :
    (tree = none ∧ given = []) ∨ ∃ t, tree = some t ∧ t.Holds 0 given := by
  unfold tree? at h
  split at h
  · rename_i hp
    cases h
    have hcovers := hp ▸ hb.pending
    cases hcovers
    exact Or.inl ⟨rfl, rfl⟩
  · rename_i t hp
    cases h
    have hcovers := hp ▸ hb.pending
    cases hcovers with
    | cons ht hnil =>
      cases hnil
      exact Or.inr ⟨t, rfl, ht⟩
  · cases h

theorem finish_eq_ok {b : Builder} {key : Block 32} {info : SpendInfo} (h : b.finish key = .ok info) :
    ∃ tree outputKey odd, b.tree? = .ok tree ∧
      Curve.Key.tweak? key (tweakHash key (tree.map Subtree.hash)) = some (outputKey, odd) ∧
      info = ⟨key, tree.map Subtree.hash, outputKey, odd, tree.elim [] Subtree.leaves⟩ := by
  unfold finish at h
  obtain ⟨tree, htree, h⟩ := bind_eq_ok.mp h
  dsimp only at h
  split at h
  · cases h
  · rename_i outputKey odd htweak
    cases h
    exact ⟨tree, outputKey, odd, htree, htweak, rfl⟩

end Builder

/-! ## Control blocks of the leaves -/

/-- Every leaf that was given to a builder can be spent once the tree is finished. Its control
    block is there and has as many nodes as the first such leaf stands below the root; it leads
    from the leaf to the root, is read back from its bytes, and shows the leaf to be committed
    to by the output key. -/
theorem controlBlock_of_added {given : List Placement} {b : Builder} {key : Block 32} {info : SpendInfo}
    (hadd : Builder.empty.addAll given = .ok b) (hfinish : b.finish key = .ok info) {p : Placement} (hp : p ∈ given) :
    ∃ c first, info.controlBlock? (p.version &&& versionMask) p.script = some c ∧
      given.find? p.sameLeaf = some first ∧ c.path.length = first.depth ∧
      info.root = some (c.root (leafHash p.version p.script)) ∧
      ControlBlock.parse c.encode = .ok c ∧
      c.commits info.outputKey (leafHash p.version p.script) = true := by
  have hb : b.Holds given := Builder.addAll_holds Builder.empty_holds hadd
  obtain ⟨tree, outputKey, odd, htree, htweak, rfl⟩ := Builder.finish_eq_ok hfinish
  rcases Builder.tree?_holds hb htree with ⟨-, rfl⟩ | ⟨t, rfl, ht⟩
  · cases hp
  obtain ⟨l, first, hl, hfirst, hversion, hdepth, hpath⟩ := ht.find_leaf hp
  rw [Nat.zero_add] at hdepth
  refine ⟨⟨l.version, odd, key, l.path⟩, first, ?_, hfirst, hdepth, ?_, ?_, ?_⟩
  · exact congrArg (Option.map _) hl
  · exact congrArg some hpath.symm
  · refine ControlBlock.parse_encode ?_ ?_
    · show l.version &&& versionMask = l.version
      rw [hversion, UInt8.and_assoc, UInt8.and_self]
    · show l.path.length ≤ maxDepth
      rw [hdepth]
      exact hb.depths first (List.mem_of_find?_eq_some hfirst)
  · unfold ControlBlock.commits Curve.Key.isTweakOf ControlBlock.root
    rw [hpath]
    exact beq_iff_eq.mpr htweak

/-- Three leaves, the last of which joins all that waits. The one in the middle, given with the bit
    set that is no part of a version, is two joins below the root. The last is the first once more,
    and has the control block of the first. -/
theorem controlBlock_of_added_joined :
    let given : List Placement := [⟨1, 0xc0, [0x51]⟩, ⟨2, 0xc1, [0x52]⟩, ⟨2, 0xc0, [0x51]⟩]
    ∃ (b : Builder) (key : Block 32) (info : SpendInfo) (deep twice : ControlBlock),
      Builder.empty.addAll given = .ok b ∧ b.finish key = .ok info ∧
      (info.controlBlock? 0xc0 [0x52] = some deep ∧ deep.path.length = 2 ∧
        info.root = some (deep.root (leafHash 0xc1 [0x52])) ∧ ControlBlock.parse deep.encode = .ok deep ∧
        deep.commits info.outputKey (leafHash 0xc1 [0x52]) = true) ∧
      info.controlBlock? 0xc0 [0x51] = some twice ∧ twice.path.length = 1 ∧
        info.root = some (twice.root (leafHash 0xc0 [0x51])) ∧ ControlBlock.parse twice.encode = .ok twice ∧
        twice.commits info.outputKey (leafHash 0xc0 [0x51]) = true := by
  intro given
  have hbuilt : ∃ b key, Builder.empty.addAll given = .ok b ∧ (b.finish key).isOk = true :=
    ⟨_, ⟨beBytes 32 Curve.Point.generator.x, beBytes_length 32 _⟩, rfl, by decide +kernel⟩
  obtain ⟨b, key, hadd, hok⟩ := hbuilt
  cases hfinish : b.finish key with
  | error e => rw [hfinish] at hok; cases hok
  | ok info =>
    have hmiddle : ⟨2, 0xc1, [0x52]⟩ ∈ given := .tail _ (.head _)
    have hlast : ⟨2, 0xc0, [0x51]⟩ ∈ given := .tail _ (.tail _ (.head _))
    obtain ⟨deep, placed, hdeep, hplaced, hdepth, hdeepRest⟩ := controlBlock_of_added hadd hfinish hmiddle
    obtain ⟨twice, first, htwice, hfirst, hdepth', htwiceRest⟩ := controlBlock_of_added hadd hfinish hlast
    cases hplaced
    cases hfirst
    exact ⟨b, key, info, deep, twice, hadd, hfinish, ⟨hdeep, hdepth, hdeepRest⟩, htwice, hdepth', htwiceRest⟩

end Taproot

end SpendScript

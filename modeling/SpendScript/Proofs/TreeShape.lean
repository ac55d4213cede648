/-
  SpendScript.Proofs.TreeShape — which lists of leaves are trees, and what their root is.

  A builder is told the depth of each leaf and nothing else about the tree. It takes a list
  of leaves exactly if they are those of a tree in which every inner node has two children
  (`ScriptTree`), read from left to right, none of them deeper than `maxDepth`. There is one
  such tree at most, and its hash is the root.
  - `ScriptTree.placements_append_inj`: where a tree ends in a list of leaves, and which tree
    it is, is told by the depths.
  - `Builder.addAll_placements`: the leaves of a tree, added one by one, come to the same as
    the whole tree put in its place. So every tree is taken.
  - `Builder.settle_grows` / `Builder.addAll_grows`: what waits for a sibling are whole trees,
    whose leaves are all that was added. So nothing but a tree can be finished.
  - `Builder.accepts_iff_tree`: both together, with the root.
-/

import SpendScript.Proofs.TaprootTree

namespace SpendScript.Taproot

/-! ## Trees -/

/-- A script tree; every inner node has two children. -/
inductive ScriptTree where
  | leaf (version : UInt8) (script : Bytes)
  | node (left right : ScriptTree)

namespace ScriptTree

def hash : ScriptTree → Block 32
  | .leaf version script => leafHash version script
  | .node left right => branchHash left.hash right.hash

def height : ScriptTree → Nat
  | .leaf _ _ => 0
  | .node left right => max left.height right.height + 1

/-- The leaves from left to right, where the root stands at the given depth. -/
def placements (depth : Nat) : ScriptTree → List Placement
  | .leaf version script => [⟨depth, version, script⟩]
  | .node left right => left.placements (depth + 1) ++ right.placements (depth + 1)

/-- The tree as a builder keeps it. -/
def subtree : ScriptTree → Subtree
  | .leaf version script => Subtree.leaf version script
  | .node left right => left.subtree.join right.subtree

theorem subtree_hash (x : ScriptTree) : x.subtree.hash = x.hash := by
  induction x with
  | leaf version script => rfl
  | node left right ihl ihr =>
    show branchHash left.subtree.hash right.subtree.hash = branchHash left.hash right.hash
    rw [ihl, ihr]

theorem le_depth_of_mem {x : ScriptTree} {depth : Nat} {p : Placement} (hp : p ∈ x.placements depth) :
    depth ≤ p.depth := by
  induction x generalizing depth with
  | leaf version script =>
    rw [List.mem_singleton.mp hp]
  | node left right ihl ihr =>
    rcases List.mem_append.mp hp with hp | hp
    · have := ihl hp
      omega
    · have := ihr hp
      omega

/-- Some leaf stands as deep as the tree is high. -/
theorem exists_deepest (x : ScriptTree) (depth : Nat) :
    ∃ p ∈ x.placements depth, p.depth = depth + x.height := by
  induction x generalizing depth with
  | leaf version script => exact ⟨_, List.mem_singleton_self _, rfl⟩
  | node left right ihl ihr =>
    rcases Nat.le_total left.height right.height with h | h
    · obtain ⟨p, hp, hdepth⟩ := ihr (depth + 1)
      refine ⟨p, List.mem_append_right _ hp, ?_⟩
      simp only [height, Nat.max_eq_right h]
      omega
    · obtain ⟨p, hp, hdepth⟩ := ihl (depth + 1)
      refine ⟨p, List.mem_append_left _ hp, ?_⟩
      simp only [height, Nat.max_eq_left h]
      omega

theorem placements_ne_nil (x : ScriptTree) (depth : Nat) : x.placements depth ≠ [] := by
  obtain ⟨p, hp, -⟩ := x.exists_deepest depth
  exact List.ne_nil_of_mem hp

/-- A leaf at the depth of the root is the whole tree, so a node is told from it by what comes
    first. -/
theorem placements_leaf_append_ne {left right : ScriptTree} {depth : Nat} {version : UInt8} {script : Bytes}
    {rest rest' : List Placement} :
    (leaf version script).placements depth ++ rest ≠ (node left right).placements depth ++ rest' := by
  intro h
  cases hleft : left.placements (depth + 1) with
  | nil => exact left.placements_ne_nil _ hleft
  | cons p leaves =>
    simp only [placements, hleft, List.cons_append, List.cons.injEq] at h
    have hp : p ∈ left.placements (depth + 1) := by
      rw [hleft]
      exact List.mem_cons_self
    have hdepth := le_depth_of_mem hp
    rw [← h.1] at hdepth
    exact absurd hdepth (Nat.not_succ_le_self depth)

/-- The leaves of a tree tell the tree, and where they end. -/
theorem placements_append_inj {x y : ScriptTree} {depth : Nat} {rest rest' : List Placement}
    (h : x.placements depth ++ rest = y.placements depth ++ rest') : x = y ∧ rest = rest' := by
  induction x generalizing y depth rest rest' with
  | leaf version script =>
    cases y with
    | leaf version' script' =>
      cases h
      exact ⟨rfl, rfl⟩
    | node left right => exact absurd h placements_leaf_append_ne
  | node left right ihl ihr =>
    cases y with
    | leaf version' script' => exact absurd h.symm placements_leaf_append_ne
    | node left' right' =>
      simp only [placements, List.append_assoc] at h
      obtain ⟨rfl, hright⟩ := ihl h
      obtain ⟨rfl, rfl⟩ := ihr hright
      exact ⟨rfl, rfl⟩

theorem placements_inj {x y : ScriptTree} {depth : Nat} (h : x.placements depth = y.placements depth) : x = y := by
  have happend : x.placements depth ++ [] = y.placements depth ++ [] := by rw [h]
  exact (placements_append_inj happend).1

/-- Other leaves at the same depths make a tree of the same height. -/
theorem exists_of_depths {x : ScriptTree} {depth : Nat} {given : List Placement}
    (h : (x.placements depth).map Placement.depth = given.map Placement.depth) :
    ∃ y : ScriptTree, y.height = x.height ∧ y.placements depth = given := by
  induction x generalizing depth given with
  | leaf version script =>
    obtain ⟨p, rfl, hdepth⟩ := List.map_eq_singleton_iff.mp h.symm
    have hdepth : p.depth = depth := hdepth
    subst hdepth
    exact ⟨.leaf p.version p.script, rfl, rfl⟩
  | node left right ihl ihr =>
    rw [placements, List.map_append] at h
    obtain ⟨before, after, rfl, hbefore, hafter⟩ := List.map_eq_append_iff.mp h.symm
    obtain ⟨y, hy, rfl⟩ := ihl hbefore.symm
    obtain ⟨z, hz, rfl⟩ := ihr hafter.symm
    exact ⟨.node y z, by simp only [height, hy, hz], rfl⟩

end ScriptTree

/-! ## Every tree is taken -/

namespace Builder

theorem addAll_append (b : Builder) (given added : List Placement) :
    b.addAll (given ++ added) = b.addAll given >>= fun b => b.addAll added :=
  List.foldlM_append

/-- Nothing that waits stands deeper. -/
def WaitsAbove (depth : Nat) (pending : List (Nat × Subtree)) : Prop :=
  ∀ waiting ∈ pending.head?, waiting.1 ≤ depth

theorem add_of_waitsAbove {pending : List (Nat × Subtree)} {depth : Nat} (hw : WaitsAbove depth pending)
    (hd : depth ≤ maxDepth) (version : UInt8) (script : Bytes) :
    add ⟨pending⟩ depth version script = (settle depth (Subtree.leaf version script) pending).map Builder.mk := by
  have hdeepest : (pending.head?.map Prod.fst).getD 0 ≤ depth := by
    cases pending with
    | nil => exact Nat.zero_le depth
    | cons waiting rest => exact hw waiting rfl
  unfold add
  dsimp only
  rw [if_neg]
  simp only [Bool.or_eq_true, decide_eq_true_eq, not_or]
  omega

/-- Below all that waits, a subtree finds no sibling. -/
theorem settle_below {pending : List (Nat × Subtree)} {depth : Nat} (hw : WaitsAbove depth pending) (t : Subtree) :
    settle (depth + 1) t pending = .ok ((depth + 1, t) :: pending) := by
  cases pending with
  | nil => rfl
  | cons waiting rest =>
    have hle : waiting.1 ≤ depth := hw waiting rfl
    unfold settle
    rw [if_neg (by omega)]

theorem settle_beside (depth : Nat) (sibling t : Subtree) (pending : List (Nat × Subtree)) :
    settle (depth + 1) t ((depth + 1, sibling) :: pending) = settle depth (sibling.join t) pending := by
  rw [settle, if_pos rfl]

/-- To add the leaves of a tree one by one is to put the tree in its place. -/
theorem addAll_placements (x : ScriptTree) {depth : Nat} {pending : List (Nat × Subtree)}
    (hw : WaitsAbove depth pending) (hd : depth + x.height ≤ maxDepth) :
    addAll ⟨pending⟩ (x.placements depth) = (settle depth x.subtree pending).map Builder.mk := by
  induction x generalizing depth pending with
  | leaf version script =>
    show add ⟨pending⟩ depth version script >>= pure = _
    rw [bind_pure]
    exact add_of_waitsAbove hw hd version script
  | node left right ihl ihr =>
    have hl : depth + 1 + left.height ≤ maxDepth := by
      have := Nat.le_max_left left.height right.height
      simp only [ScriptTree.height] at hd
      omega
    have hr : depth + 1 + right.height ≤ maxDepth := by
      have := Nat.le_max_right left.height right.height
      simp only [ScriptTree.height] at hd
      omega
    have hdown : WaitsAbove (depth + 1) pending := fun waiting h => Nat.le_succ_of_le (hw waiting h)
    have hbeside : WaitsAbove (depth + 1) ((depth + 1, left.subtree) :: pending) := by
      intro waiting h
      cases h
      exact Nat.le_refl _
    rw [ScriptTree.placements, addAll_append, ihl hdown hl, settle_below hw]
    show addAll ⟨(depth + 1, left.subtree) :: pending⟩ (right.placements (depth + 1)) = _
    rw [ihr hbeside hr, settle_beside]
    rfl

/-! ## Nothing but a tree is finished -/

/-- Trees that wait for a sibling, each with its depth, the last one first. -/
def waiting (forest : List (Nat × ScriptTree)) : List (Nat × Subtree) :=
  forest.map fun (depth, x) => (depth, x.subtree)

/-- Their leaves from left to right. -/
def leavesOf : List (Nat × ScriptTree) → List Placement
  | [] => []
  | (depth, x) :: forest => leavesOf forest ++ x.placements depth

/-- What waits are trees with the given leaves. -/
def Grows (pending : List (Nat × Subtree)) (given : List Placement) : Prop :=
  ∃ forest, pending = waiting forest ∧ leavesOf forest = given

theorem settle_grows {depth : Nat} {x : ScriptTree} {pending pending' : List (Nat × Subtree)}
    {given : List Placement} (hg : Grows pending given) (h : settle depth x.subtree pending = .ok pending') :
    Grows pending' (given ++ x.placements depth) := by
  obtain ⟨forest, rfl, rfl⟩ := hg
  induction forest generalizing depth x with
  | nil =>
    unfold settle waiting at h
    cases h
    exact ⟨[(depth, x)], rfl, rfl⟩
  | cons top forest ih =>
    obtain ⟨d, y⟩ := top
    change settle depth x.subtree ((d, y.subtree) :: waiting forest) = _ at h
    unfold settle at h
    split at h
    · rename_i heq
      subst heq
      cases d with
      | zero => cases h
      | succ d =>
        -- the two siblings are one tree from here on
        have hjoined := ih (x := .node y x) h
        rw [ScriptTree.placements, ← List.append_assoc] at hjoined
        exact hjoined
    · cases h
      exact ⟨(depth, x) :: (d, y) :: forest, rfl, rfl⟩

theorem add_grows {b b' : Builder} {given : List Placement} {p : Placement} (hg : Grows b.pending given)
    (h : b.add p.depth p.version p.script = .ok b') : Grows b'.pending (given ++ [p]) := by
  unfold add at h
  dsimp only at h
  split at h
  · cases h
  · cases hs : settle p.depth (Subtree.leaf p.version p.script) b.pending with
    | error e => rw [hs] at h; cases h
    | ok pending =>
      rw [hs] at h
      cases h
      exact settle_grows (x := .leaf p.version p.script) hg hs

theorem addAll_grows {b b' : Builder} {given added : List Placement} (hg : Grows b.pending given)
    (h : b.addAll added = .ok b') : Grows b'.pending (given ++ added) := by
  induction added generalizing b given with
  | nil =>
    cases h
    rwa [List.append_nil]
  | cons p added ih =>
    rw [addAll, List.foldlM_cons] at h
    obtain ⟨b₁, hadd, h⟩ := bind_eq_ok.mp h
    have hrest := ih (add_grows hg hadd) h
    rwa [List.append_assoc] at hrest

/-- Of a finished tree nothing waits but the root. -/
theorem tree?_grows {b : Builder} {given : List Placement} (hg : Grows b.pending given) {tree : Option Subtree}
    (h : b.tree? = .ok tree) :
    (tree = none ∧ given = []) ∨ ∃ x : ScriptTree, tree = some x.subtree ∧ x.placements 0 = given := by
  obtain ⟨forest, hpending, rfl⟩ := hg
  unfold tree? at h
  rw [hpending] at h
  rcases forest with _ | ⟨⟨depth, x⟩, _ | ⟨next, forest⟩⟩
  · cases h
    exact .inl ⟨rfl, rfl⟩
  · cases depth with
    | zero =>
      cases h
      exact .inr ⟨x, rfl, rfl⟩
    | succ depth => cases h
  · cases depth <;> cases h

/-! ## Failures -/

theorem settle_fails (depth : Nat) (t : Subtree) (pending : List (Nat × Subtree)) :
    FailsIn (settle depth t pending) fun e => ∃ d, e = .invalidDepth d := by
  induction pending generalizing depth t with
  | nil =>
    unfold settle
    exact failsIn_ok
  | cons waiting pending ih =>
    unfold settle
    split
    · cases depth with
      | zero => exact failsIn_error ⟨0, rfl⟩
      | succ depth => exact ih depth _
    · exact failsIn_ok

/-- Only the depth of a leaf can be wrong. -/
theorem addAll_fails (b : Builder) (given : List Placement) :
    FailsIn (b.addAll given) fun e => ∃ d, e = .invalidDepth d := by
  induction given generalizing b with
  | nil => exact failsIn_ok
  | cons p given ih =>
    refine FailsIn.bind ?_ ih
    unfold add
    dsimp only
    split
    · exact failsIn_error ⟨p.depth, rfl⟩
    · exact (settle_fails p.depth _ b.pending).map

theorem tree?_fails (b : Builder) : FailsIn b.tree? (· = .incomplete) := by
  unfold tree?
  split
  · exact failsIn_ok
  · exact failsIn_ok
  · exact failsIn_error rfl

/-- Whatever the key is, the tree is there or is missed. -/
theorem finish_ne_incomplete {b : Builder} {key : Block 32} :
    b.finish key ≠ .error .incomplete ↔ ∃ tree, b.tree? = .ok tree := by
  unfold finish
  cases htree : b.tree? with
  | error e =>
    rw [b.tree?_fails e htree]
    simp [bind, Except.bind]
  | ok tree =>
    simp only [ok_bind, Except.ok.injEq, exists_eq', iff_true]
    split
    · intro h
      cases h
    · intro h
      cases h

/-! ## Which lists are taken -/

/-- Leaves can be added at the given depths and none is missed in the end, whatever the key,
    exactly if there are no leaves or they have the depths of the leaves of a tree that is not
    too high. All that can be wrong with a leaf is its depth. An output that comes of it has no
    root without leaves; otherwise there is one tree with these leaves, and the root is its
    hash. -/
theorem accepts_iff_tree (given : List Placement) (key : Block 32) :
    ((∃ b, empty.addAll given = .ok b ∧ b.finish key ≠ .error .incomplete) ↔
      given = [] ∨ ∃ x : ScriptTree, x.height ≤ maxDepth ∧
        (x.placements 0).map Placement.depth = given.map Placement.depth) ∧
    (∀ e, empty.addAll given = .error e → ∃ depth, e = .invalidDepth depth) ∧
    ∀ b info, empty.addAll given = .ok b → b.finish key = .ok info →
      (given = [] ∧ info.root = none) ∨
        ∃ x : ScriptTree, (∀ y : ScriptTree, y.placements 0 = given ↔ y = x) ∧ info.root = some x.hash := by
  have hstart : Grows empty.pending [] := ⟨[], rfl, rfl⟩
  refine ⟨⟨?_, ?_⟩, addAll_fails empty given, ?_⟩
  · rintro ⟨b, hadd, hfinish⟩
    obtain ⟨tree, htree⟩ := finish_ne_incomplete.mp hfinish
    rcases tree?_grows (addAll_grows hstart hadd) htree with ⟨-, hnil⟩ | ⟨x, -, rfl⟩
    · exact .inl hnil
    · obtain ⟨p, hp, hdepth⟩ := x.exists_deepest 0
      have hle := (addAll_holds empty_holds hadd).depths p hp
      exact .inr ⟨x, by omega, rfl⟩
  · rintro (rfl | ⟨x, hheight, hdepths⟩)
    · exact ⟨empty, rfl, finish_ne_incomplete.mpr ⟨none, rfl⟩⟩
    · obtain ⟨y, hy, rfl⟩ := ScriptTree.exists_of_depths hdepths
      have hw : WaitsAbove 0 [] := fun _ h => by cases h
      have hadd := addAll_placements y hw (by omega)
      exact ⟨⟨[(0, y.subtree)]⟩, hadd, finish_ne_incomplete.mpr ⟨some y.subtree, rfl⟩⟩
  · intro b info hadd hfinish
    obtain ⟨tree, outputKey, odd, htree, -, rfl⟩ := finish_eq_ok hfinish
    rcases tree?_grows (addAll_grows hstart hadd) htree with ⟨rfl, hnil⟩ | ⟨x, rfl, hx⟩
    · exact .inl ⟨hnil, rfl⟩
    · refine .inr ⟨x, fun y => ⟨fun hy => ?_, ?_⟩, congrArg some x.subtree_hash⟩
      · exact ScriptTree.placements_inj (hy.trans hx.symm)
      · rintro rfl
        exact hx

/-- Two siblings make a tree. -/
theorem accepts_iff_tree_pair :
    ∃ b key info, empty.addAll [⟨1, 0xc0, [0x51]⟩, ⟨1, 0xc0, [0x52]⟩] = .ok b ∧ b.finish key = .ok info ∧
      info.root = some (branchHash (leafHash 0xc0 [0x51]) (leafHash 0xc0 [0x52])) := by
  have hbuilt : ∃ b key, empty.addAll [⟨1, 0xc0, [0x51]⟩, ⟨1, 0xc0, [0x52]⟩] = .ok b ∧
      (b.finish key).isOk = true :=
    ⟨_, ⟨beBytes 32 Curve.Point.generator.x, beBytes_length 32 _⟩, rfl, by decide +kernel⟩
  obtain ⟨b, key, hadd, hok⟩ := hbuilt
  cases hfinish : b.finish key with
  | error e => rw [hfinish] at hok; cases hok
  | ok info =>
    refine ⟨b, key, info, hadd, hfinish, ?_⟩
    rcases (accepts_iff_tree _ key).2.2 b info hadd hfinish with ⟨hnil, -⟩ | ⟨x, hx, hroot⟩
    · cases hnil
    · have hshape := (hx (.node (.leaf 0xc0 [0x51]) (.leaf 0xc0 [0x52]))).mp rfl
      rw [hroot, ← hshape]
      rfl

end Builder

end SpendScript.Taproot

/-
  SpendScript.Proofs.Paths — the ways through a script are all there, in order.

  The paths of a script are the routes through its tree of decisions. The routes of any tree
  are in order, none starts another, and each endless sequence of decisions takes exactly one
  of them (`Tree.routes_pairwise`, `Tree.routes_prefixFree`, `Tree.existsUnique_route`).
  What goes wrong in a script is told by the number of its open conditionals alone
  (`Branch.fault?`), so that it goes wrong on all ways or on none:
  - `Branch.explore_of_fault?` / `Branch.follow_of_fault?`: it is the error of the exploration, and
    of following one sequence of decisions (`Branch.follow`).
  - `Branch.leaves_of_explore` / `Branch.follow_of_explore`: the paths that were found are the
    routes, and the way of a sequence of decisions is the route it takes.
  `Branch.paths_complete` puts them together. The leaves of a tree can also be had without
  recursion, from a stack of the trees that wait, in one round for each leaf and each decision
  (`Tree.collect_eq`, `Branch.collect_of_all`).
-/

import Mathlib
import SpendScript.Proofs.Branch

namespace SpendScript

/-! ## Routes through a tree -/

namespace Tree

variable {α : Type}

/-- The decisions on the way to each leaf, with false before true. -/
def routes : Tree α → List (List Bool)
  | .leaf _ => [[]]
  | .decision f t => f.routes.map (false :: ·) ++ t.routes.map (true :: ·)

/-- The route that a sequence of decisions takes. -/
def route (d : Stream' Bool) : Tree α → List Bool
  | .leaf _ => []
  | .decision f t => d.head :: if d.head then t.route d.tail else f.route d.tail

theorem routes_pairwise (tree : Tree α) : tree.routes.Pairwise (· < ·) := by
  induction tree with
  | leaf a => exact List.pairwise_singleton _ _
  | decision f t ihf iht =>
    have hcons (b : Bool) {ps : List (List Bool)} (h : ps.Pairwise (· < ·)) : (ps.map (b :: ·)).Pairwise (· < ·) :=
      List.pairwise_map.mpr (h.imp fun hlt => List.Lex.cons hlt)
    refine List.pairwise_append.mpr ⟨hcons false ihf, hcons true iht, ?_⟩
    intro p hp q hq
    obtain ⟨p, -, rfl⟩ := List.mem_map.mp hp
    obtain ⟨q, -, rfl⟩ := List.mem_map.mp hq
    exact List.Lex.rel rfl

theorem mem_routes_cons {f t : Tree α} {b : Bool} {p : List Bool} :
    b :: p ∈ (Tree.decision f t).routes ↔ p ∈ (if b then t.routes else f.routes) := by
  cases b <;> simp [routes]

theorem nil_not_mem_routes {f t : Tree α} : [] ∉ (Tree.decision f t).routes := by
  simp [routes]

theorem routes_prefixFree {tree : Tree α} {p q : List Bool} (hp : p ∈ tree.routes) (hq : q ∈ tree.routes)
    (h : p <+: q) : p = q := by
  induction tree generalizing p q with
  | leaf a =>
    rw [List.mem_singleton.mp hp, List.mem_singleton.mp hq]
  | decision f t ihf iht =>
    cases p with
    | nil => exact absurd hp nil_not_mem_routes
    | cons b p =>
      cases q with
      | nil => exact absurd hq nil_not_mem_routes
      | cons c q =>
        obtain ⟨rfl, hstart⟩ := List.cons_prefix_cons.mp h
        rw [mem_routes_cons] at hp hq
        cases b with
        | false => exact congrArg _ (ihf hp hq hstart)
        | true => exact congrArg _ (iht hp hq hstart)

theorem mem_routes_iff (tree : Tree α) (d : Stream' Bool) (p : List Bool) :
    p ∈ tree.routes ∧ d.take p.length = p ↔ p = tree.route d := by
  induction tree generalizing d p with
  | leaf a =>
    show p ∈ [[]] ∧ _ ↔ p = []
    rw [List.mem_singleton]
    constructor
    · exact And.left
    · rintro rfl
      exact ⟨rfl, rfl⟩
  | decision f t ihf iht =>
    cases p with
    | nil => simp [nil_not_mem_routes, route]
    | cons b p =>
      rw [mem_routes_cons, List.length_cons, Stream'.take_succ, route, List.cons.injEq, List.cons.injEq]
      generalize d.head = c
      -- the subtree of the first decision, if the route has the same
      cases b with
      | false => cases c <;> simp [← ihf]
      | true => cases c <;> simp [← iht]

theorem existsUnique_route (tree : Tree α) (d : Stream' Bool) : ∃! p, p ∈ tree.routes ∧ d.take p.length = p := by
  simp only [mem_routes_iff]
  exact existsUnique_eq

/-! ## Leaves from a stack -/

/-- The number of leaves and decisions. -/
def size : Tree α → Nat
  | .leaf _ => 1
  | .decision f t => f.size + t.size + 1

/-- The leaves of the trees that wait, the one on top of the stack first. Of a decision both ways
    are put back, false on top. There is no result if trees still wait after the last round. -/
def collect : (rounds : Nat) → (pending : List (Tree α)) → (collected : List α) → Option (List α)
  | _, [], collected => some collected
  | 0, _ :: _, _ => none
  | rounds + 1, .leaf a :: pending, collected => collect rounds pending (collected ++ [a])
  | rounds + 1, .decision f t :: pending, collected => collect rounds (f :: t :: pending) collected

theorem size_pos (tree : Tree α) : 0 < tree.size := by
  cases tree <;> exact Nat.succ_pos _

theorem size_eq (tree : Tree α) : tree.size + 1 = 2 * tree.leaves.length := by
  induction tree with
  | leaf a => rfl
  | decision f t ihf iht =>
    rw [leaves, List.length_append, size]
    omega

/-- The leaves of all that waits are collected in one round for each leaf and each decision, and
    not in fewer. The induction is on the rounds: each takes one leaf or decision away, and what is
    collected together with what waits has the same leaves before it and after. -/
theorem collect_eq (rounds : Nat) (pending : List (Tree α)) (collected : List α) :
    collect rounds pending collected =
      if (pending.map size).sum ≤ rounds then some (collected ++ pending.flatMap leaves) else none := by
  induction rounds generalizing pending collected with
  | zero =>
    cases pending with
    | nil => simp [collect]
    | cons tree pending =>
      have hpos := tree.size_pos
      refine (if_neg ?_).symm
      rw [List.map_cons, List.sum_cons]
      omega
  | succ rounds ih =>
    cases pending with
    | nil => simp [collect]
    | cons tree pending =>
      cases tree with
      | leaf a =>
        have hsum : ((leaf a :: pending).map size).sum = (pending.map size).sum + 1 := Nat.add_comm 1 _
        have hleaves : collected ++ (leaf a :: pending).flatMap leaves =
            (collected ++ [a]) ++ pending.flatMap leaves := by
          rw [List.append_assoc]
          rfl
        rw [collect, ih, hsum, hleaves]
        simp only [Nat.add_le_add_iff_right]
      | decision f t =>
        have hsum : ((decision f t :: pending).map size).sum = ((f :: t :: pending).map size).sum + 1 := by
          simp only [List.map_cons, List.sum_cons, size]
          omega
        have hleaves : (decision f t :: pending).flatMap leaves = (f :: t :: pending).flatMap leaves :=
          List.append_assoc _ _ _
        rw [collect, ih, hsum, hleaves]
        simp only [Nat.add_le_add_iff_right]

end Tree

/-! ## One sequence of decisions -/

namespace Branch

/-- Goes through the rest of a script by a sequence of decisions, one for each conditional that
    is reached, and gives those it made. -/
def follow (d : Stream' Bool) (taken : List Bool) : List Item → Except ScriptError (List Bool)
  | [] =>
    match taken.length with
    | 0 => .ok []
    | n => .error (.unclosedConditional n)
  | item :: rest =>
    match item.turn d.head taken with
    | none => .error (.machine (some item) item.fault)
    | some taken' =>
      if item.opens && taken.all id then (follow d.tail taken' rest).map (d.head :: ·)
      else follow d taken' rest

/-- What goes wrong in the rest of a script where `depth` conditionals are open. -/
def fault? (depth : Nat) : List Item → Option ScriptError
  | [] =>
    match depth with
    | 0 => none
    | n => some (.unclosedConditional n)
  | item :: rest =>
    match item.nest depth with
    | none => some (.machine (some item) item.fault)
    | some n => fault? n rest

variable {path : List Bool} {seen : List Item} {taken : List Bool} {items : List Item} {e : ScriptError}

theorem follow_of_decides {d : Stream' Bool} {item : Item} {taken' : List Bool}
    (hd : (item.opens && taken.all id) = true) (ht : item.turn d.head taken = some taken') :
    follow d taken (item :: items) = (follow d.tail taken' items).map (d.head :: ·) := by
  rw [follow, ht]
  exact if_pos hd

theorem follow_of_passes {d : Stream' Bool} {item : Item} {taken' : List Bool}
    (hd : (item.opens && taken.all id) = false) (ht : item.turn d.head taken = some taken') :
    follow d taken (item :: items) = follow d taken' items := by
  rw [follow, ht]
  exact if_neg (by simp [hd])

theorem balanced_of_fault? {depth : Nat} (h : fault? depth items = none) : Balanced depth items := by
  induction items generalizing depth with
  | nil =>
    cases depth with
    | zero => rfl
    | succ n => cases h
  | cons item items ih =>
    unfold fault? at h
    split at h
    · cases h
    · rename_i n hn
      exact balanced_cons.mpr ⟨n, hn, ih h⟩

theorem explore_of_fault? (h : fault? taken.length items = some e) : explore path seen taken items = .error e := by
  induction items generalizing path seen taken with
  | nil =>
    cases taken with
    | nil => cases h
    | cons b outer =>
      cases h
      rfl
  | cons item items ih =>
    unfold fault? at h
    split at h
    · rename_i hn
      cases h
      have hstuck : item.turn false taken = none := Item.turn_eq_none.mpr hn
      exact explore_of_stuck hstuck
    · rename_i n hn
      obtain ⟨onFalse, hf, rfl⟩ := Item.turn_of_nest hn false
      cases hd : item.opens && taken.all id with
      | false =>
        rw [explore_of_passes hd hf]
        exact ih h
      | true =>
        obtain ⟨onTrue, ht, -⟩ := Item.turn_of_nest hn true
        rw [explore_of_decides hd hf ht, ih h]
        rfl

theorem follow_of_fault? {d : Stream' Bool} (h : fault? taken.length items = some e) :
    follow d taken items = .error e := by
  induction items generalizing d taken with
  | nil =>
    cases taken with
    | nil => cases h
    | cons b outer =>
      cases h
      rfl
  | cons item items ih =>
    unfold fault? at h
    split at h
    · rename_i hn
      cases h
      unfold follow
      rw [Item.turn_eq_none.mpr hn]
    · rename_i n hn
      obtain ⟨taken', ht, rfl⟩ := Item.turn_of_nest hn d.head
      cases hd : item.opens && taken.all id with
      | false =>
        rw [follow_of_passes hd ht]
        exact ih h
      | true =>
        rw [follow_of_decides hd ht, ih h]
        rfl

theorem follow_of_explore {tree : Tree Branch} (h : explore path seen taken items = .ok tree) (d : Stream' Bool) :
    follow d taken items = .ok (tree.route d) := by
  induction items generalizing path seen taken tree d with
  | nil =>
    cases taken with
    | nil =>
      cases h
      rfl
    | cons b outer => cases h
  | cons item items ih =>
    rcases explore_cons_eq_ok h with ⟨hd, kept, hpasses⟩ | ⟨hd, onFalse, onTrue, f, t, hf, hef, ht, het, rfl⟩
    · obtain ⟨taken', ht, h⟩ := hpasses d.head
      rw [follow_of_passes hd ht]
      exact ih h d
    · rw [Tree.route]
      cases hb : d.head with
      | false =>
        rw [follow_of_decides hd (hb ▸ hf), hb, ih hef]
        rfl
      | true =>
        rw [follow_of_decides hd (hb ▸ ht), hb, ih het]
        rfl

theorem leaves_of_explore {tree : Tree Branch} (h : explore path seen taken items = .ok tree) :
    tree.leaves.map Branch.path = tree.routes.map (path.reverse ++ ·) := by
  induction items generalizing path seen taken tree with
  | nil =>
    cases taken with
    | nil =>
      cases h
      simp [Tree.leaves, Tree.routes]
    | cons b outer => cases h
  | cons item items ih =>
    rcases explore_cons_eq_ok h with ⟨-, kept, hpasses⟩ | ⟨-, onFalse, onTrue, f, t, -, hef, -, het, rfl⟩
    · obtain ⟨taken', -, h⟩ := hpasses false
      exact ih h
    · simp [Tree.leaves, Tree.routes, ih hef, ih het, Function.comp_def]

/-! ## Scripts -/

/-- The ways through a script come off a stack that starts with its tree of decisions, after two
    rounds for each way but one round less, and no sooner. -/
theorem collect_of_all {s : Bytes} {branches : List Branch} (h : all s = .ok branches) :
    ∃ tree, decisions s = .ok tree ∧ ∀ rounds,
      Tree.collect rounds [tree] [] = if 2 * branches.length ≤ rounds + 1 then some branches else none := by
  unfold all at h
  cases hd : decisions s with
  | error e =>
    rw [hd] at h
    cases h
  | ok tree =>
    rw [hd] at h
    cases h
    refine ⟨tree, rfl, fun rounds => ?_⟩
    rw [Tree.collect_eq, ← tree.size_eq]
    simp

theorem paths_eq_routes {s : Bytes} (hparse : Script.parse s = .ok items) :
    paths s = (explore [] [] [] items).map Tree.routes := by
  have hdecisions : decisions s = explore [] [] [] items := by
    unfold decisions
    rw [hparse]
    rfl
  unfold paths all
  rw [hdecisions]
  cases h : explore [] [] [] items with
  | error err => rfl
  | ok tree =>
    show Except.ok (tree.leaves.map Branch.path) = .ok tree.routes
    rw [leaves_of_explore h]
    exact congrArg _ (List.map_id _)

theorem routes_of_paths {s : Bytes} {ps : List (List Bool)} (h : paths s = .ok ps) :
    ∃ tree : Tree Branch, ps = tree.routes := by
  cases hparse : Script.parse s with
  | error err =>
    unfold paths all decisions at h
    rw [hparse] at h
    cases h
  | ok items =>
    rw [paths_eq_routes hparse] at h
    cases htree : explore [] [] [] items with
    | error err =>
      rw [htree] at h
      cases h
    | ok tree =>
      rw [htree] at h
      cases h
      exact ⟨tree, rfl⟩

/-- The paths of a script are in order, with false before true, none starts another, and every
    endless sequence of decisions starts with exactly one of them. If a script can be read, to
    follow any one sequence of decisions through it fails just as its paths do, with the
    same error, and otherwise gives the path that the sequence starts with. -/
theorem paths_complete (s : Bytes) :
    (∀ ps, paths s = .ok ps →
      ps.Pairwise (· < ·) ∧ (∀ p ∈ ps, ∀ q ∈ ps, p <+: q → p = q) ∧
      ∀ d : Stream' Bool, ∃! p, p ∈ ps ∧ d.take p.length = p) ∧
    ∀ items, Script.parse s = .ok items → ∀ d : Stream' Bool,
      (∀ e, paths s = .error e ↔ follow d [] items = .error e) ∧
      ∀ ps, paths s = .ok ps → ∃ p ∈ ps, d.take p.length = p ∧ follow d [] items = .ok p := by
  refine ⟨fun ps hps => ?_, fun items hparse d => ?_⟩
  · obtain ⟨tree, rfl⟩ := routes_of_paths hps
    exact ⟨tree.routes_pairwise, fun p hp q => tree.routes_prefixFree hp, tree.existsUnique_route⟩
  · rw [paths_eq_routes hparse]
    -- no decision was made yet, so that a fault is one on every way
    cases hfault : fault? ([] : List Bool).length items with
    | some err =>
      rw [explore_of_fault? hfault, follow_of_fault? hfault]
      exact ⟨fun e => by simp [Except.map], nofun⟩
    | none =>
      obtain ⟨tree, htree⟩ : ∃ tree, explore [] [] [] items = .ok tree :=
        explore_of_balanced (balanced_of_fault? hfault)
      rw [htree, follow_of_explore htree]
      refine ⟨fun e => by simp [Except.map], ?_⟩
      intro ps hps
      cases hps
      obtain ⟨hmem, htake⟩ := (tree.mem_routes_iff d _).mpr rfl
      exact ⟨_, hmem, htake, rfl⟩

/-- A conditional in another has three paths. Behind an opening, an opcode that fails in any branch
    is the error on every way. -/
theorem paths_complete_nested :
    (∃ ps, paths [0x63, 0x63, 0x68, 0x68] = .ok ps ∧ ps = [[false], [true, false], [true, true]] ∧
      ps.Pairwise (· < ·) ∧ ∀ d : Stream' Bool, ∃! p, p ∈ ps ∧ d.take p.length = p) ∧
    ∀ d, follow d [] [.good (.control .opIf), .bad .verIf] = .error (.machine (some (.bad .verIf)) .badOpcode) := by
  have hpaths : paths [0x63, 0x63, 0x68, 0x68] = .ok [[false], [true, false], [true, true]] := by cbv
  have hparse : Script.parse [0x63, 0x65] = .ok [.good (.control .opIf), .bad .verIf] := by cbv
  have herror : paths [0x63, 0x65] = .error (.machine (some (.bad .verIf)) .badOpcode) := by cbv
  obtain ⟨hsorted, -, hunique⟩ := (paths_complete _).1 _ hpaths
  exact ⟨⟨_, hpaths, rfl, hsorted, hunique⟩, fun d => (((paths_complete _).2 _ hparse d).1 _).mp herror⟩

end Branch

end SpendScript

/-
  SpendScript.Proofs.Branch — every run is one of the ways through its script.

  A run decides each conditional it reaches by the item on top of the stack; `Branch.explore`
  decides it both ways and runs nothing. What the two share is how an item turns the list of
  open conditionals (`Item.turn`), and that only the number of them decides whether the
  nesting holds (`Item.nest`), so that one run to the end vouches for all ways
  (`balanced_of_trace`, `Branch.explore_of_balanced`).
  - `turn_of_step`: a step of a run turns the conditionals by the condition it met.
  - `Branch.explore_of_decides` / `Branch.explore_of_passes` / `Branch.explore_of_stuck`: a step of
    the exploration, and `Branch.explore_cons_eq_ok`: what it was if ways were found.
  - `Branch.leaves_of_trace`: among the ways found, one and no other has the conditions of the
    run, and the items on it are those that were executed.
  - `Branch.all_covers_runs`: the same of a whole script; one without ways has no run.
-/

import SpendScript.Proofs.Machine
import SpendScript.Proofs.Trace
import SpendScript.Script.Branch

namespace SpendScript

/-! ## What a run met -/

/-- The opcodes that open a conditional. -/
def Item.opens : Item → Bool
  | .good (.control .opIf) | .good (.control .opNotIf) => true
  | _ => false

def Item.isControl : Item → Bool
  | .good (.control _) => true
  | _ => false

/-- The truth of the item that a conditional takes off the stack, if it is reached. -/
def Stop.condition? (x : Stop) : Option Bool :=
  if x.item.opens && x.before.executing then x.before.stack.head?.map Number.truthy else none

/-- The conditions that a run met, in order. -/
def conditions (stops : List Stop) : List Bool := stops.filterMap Stop.condition?

/-- The items that a run executed, without the conditionals around them. -/
def executedItems (stops : List Stop) : List Item :=
  (stops.filter fun x => x.before.executing && !x.item.isControl).map Stop.item

/-! ## One item -/

/-- The open conditionals behind an item, if it opens one with this condition. There are none
    if it closes what is not open, or fails in any branch. -/
def Item.turn (condition : Bool) (taken : List Bool) : Item → Option (List Bool)
  | .good (.control .opIf) => some ((taken.all id && condition) :: taken)
  | .good (.control .opNotIf) => some ((taken.all id && !condition) :: taken)
  | .good (.control .opElse) =>
    match taken with
    | [] => none
    | b :: outer => some ((!b) :: outer)
  | .good (.control .opEndIf) =>
    match taken with
    | [] => none
    | _ :: outer => some outer
  | .bad b => if b.isAlwaysReached then none else some taken
  | _ => some taken

/-- The error of an item where it cannot stand. -/
def Item.fault : Item → MachineError
  | .good _ => .unbalancedConditional
  | .bad _ => .badOpcode

/-- The number of open conditionals behind an item. -/
def Item.nest (depth : Nat) : Item → Option Nat
  | .good (.control .opIf) | .good (.control .opNotIf) => some (depth + 1)
  | .good (.control .opElse) => if depth = 0 then none else some depth
  | .good (.control .opEndIf) => if depth = 0 then none else some (depth - 1)
  | .bad b => if b.isAlwaysReached then none else some depth
  | _ => some depth

/-- The number of open conditionals does not depend on how they were decided. -/
theorem Item.map_length_turn (item : Item) (condition : Bool) (taken : List Bool) :
    (item.turn condition taken).map List.length = item.nest taken.length := by
  cases item with
  | bad b => cases hr : b.isAlwaysReached <;> simp [turn, nest, hr]
  | good op =>
    cases op with
    | push p => rfl
    | operation op => rfl
    | control c => cases c <;> cases taken <;> simp [turn, nest]

theorem Item.nest_of_turn {item : Item} {condition : Bool} {taken taken' : List Bool}
    (h : item.turn condition taken = some taken') : item.nest taken.length = some taken'.length := by
  rw [← item.map_length_turn condition, h]
  rfl

theorem Item.turn_of_nest {item : Item} {taken : List Bool} {n : Nat} (h : item.nest taken.length = some n)
    (condition : Bool) : ∃ taken', item.turn condition taken = some taken' ∧ taken'.length = n := by
  rw [← item.map_length_turn condition] at h
  exact Option.map_eq_some_iff.mp h

theorem Item.turn_eq_none {item : Item} {condition : Bool} {taken : List Bool} :
    item.turn condition taken = none ↔ item.nest taken.length = none := by
  rw [← item.map_length_turn condition, Option.map_eq_none_iff]

/-! ## Steps of a run -/

section Run

variable {rules : Rules} {script : Bytes} {s s' : State}

theorem openBranch_decides {flip : Bool} (he : s.executing = true) (h : openBranch rules s flip = .ok s') :
    ∃ x rest, s.stack = x :: rest ∧ s'.branches = (Number.truthy x != flip) :: s.branches := by
  unfold openBranch at h
  rw [if_pos he] at h
  split at h
  · cases h
  · rename_i x rest hs
    obtain ⟨_, -, h⟩ := bind_eq_ok.mp h
    cases h
    exact ⟨x, rest, hs, rfl⟩

theorem openBranch_passes {flip : Bool} (he : s.executing = false) (h : openBranch rules s flip = .ok s') :
    s'.branches = false :: s.branches := by
  unfold openBranch at h
  rw [if_neg (by simp [he])] at h
  cases h
  rfl

/-- A conditional that is reached takes its condition from the stack. -/
theorem condition?_of_step {item : Item} (h : Item.Step rules script s item s')
    (hd : (item.opens && s.executing) = true) :
    ∃ c, (⟨item, s⟩ : Stop).condition? = some c ∧ item.turn c s.branches = some s'.branches := by
  rw [Bool.and_eq_true] at hd
  obtain ⟨ho, he⟩ := hd
  have hall : s.branches.all id = true := he
  cases h with
  | control c hc h _ =>
    have hframe := State.frame_countOps hc
    have hstack : ∀ s₁ : State, s.countOps 1 = .ok s₁ → s₁.stack = s.stack := by
      intro s₁ hs
      rcases State.countOps_eq_ok hs with rfl | ⟨-, rfl⟩ <;> rfl
    have he₁ := hframe.executing.trans he
    cases c with
    | opElse => cases ho
    | opEndIf => cases ho
    | opIf =>
      obtain ⟨x, rest, hs, hb⟩ := openBranch_decides he₁ h
      rw [hstack _ hc] at hs
      refine ⟨Number.truthy x, by simp [Stop.condition?, Item.opens, he, hs], ?_⟩
      rw [hb, hframe.branches]
      simp [Item.turn, hall]
    | opNotIf =>
      obtain ⟨x, rest, hs, hb⟩ := openBranch_decides he₁ h
      rw [hstack _ hc] at hs
      refine ⟨Number.truthy x, by simp [Stop.condition?, Item.opens, he, hs], ?_⟩
      rw [hb, hframe.branches]
      simp [Item.turn, hall]
  | _ => cases ho

/-- All other items turn the open conditionals whatever is on the stack. -/
theorem turn_of_step {item : Item} (h : Item.Step rules script s item s')
    (hd : (item.opens && s.executing) = false) (condition : Bool) :
    item.turn condition s.branches = some s'.branches := by
  cases h with
  | push => rfl
  | passPush => rfl
  | operation op hc he h =>
    show some s.branches = some s'.branches
    rw [(Operation.effect_of_yields h).frame.branches, (State.frame_countOps hc).branches]
  | passOperation op hc =>
    show some s.branches = some s'.branches
    rw [(State.frame_countOps hc).branches]
  | passReserved => rfl
  | passBad b hb hc hr =>
    simp only [Item.turn, hr, (State.frame_countOps hc).branches]
    rfl
  | control c hc h =>
    have hframe := State.frame_countOps hc
    cases c with
    | opIf | opNotIf =>
      have he : s.executing = false := by simpa [Item.opens] using hd
      have hall : s.branches.all id = false := he
      have hb := openBranch_passes (hframe.executing.trans he) h
      rw [hb, hframe.branches]
      simp [Item.turn, hall]
    | opElse | opEndIf =>
      rw [← hframe.branches]
      simp only [Control.eval] at h
      split at h
      · cases h
      · rename_i hs
        cases h
        simp only [Item.turn, hs]

end Run

/-! ## Steps of the exploration -/

namespace Branch

variable {path : List Bool} {seen : List Item} {taken : List Bool} {item : Item} {rest : List Item}

/-- A conditional that is reached is decided both ways. -/
theorem explore_of_decides (hd : (item.opens && taken.all id) = true) {onFalse onTrue : List Bool}
    (hf : item.turn false taken = some onFalse) (ht : item.turn true taken = some onTrue) :
    explore path seen taken (item :: rest) = (do
      let f ← explore (false :: path) (item :: seen) onFalse rest
      let t ← explore (true :: path) (item :: seen) onTrue rest
      return .decision f t) := by
  rw [Bool.and_eq_true] at hd
  obtain ⟨ho, hall⟩ := hd
  cases item with
  | bad b => cases ho
  | good op =>
    cases op with
    | push p => cases ho
    | operation op => cases ho
    | control c =>
      cases c with
      | opElse => cases ho
      | opEndIf => cases ho
      | opIf =>
        simp only [Item.turn, hall, Bool.true_and, Option.some.injEq] at hf ht
        rw [explore, if_pos hall, ← hf, ← ht]
        rfl
      | opNotIf =>
        simp only [Item.turn, hall, Bool.true_and, Option.some.injEq] at hf ht
        rw [explore, if_pos hall, ← hf, ← ht]
        rfl

/-- Other items go one way. They are kept if they are reached, conditionals always. -/
theorem explore_of_passes (hd : (item.opens && taken.all id) = false) {condition : Bool} {taken' : List Bool}
    (ht : item.turn condition taken = some taken') :
    explore path seen taken (item :: rest) =
      explore path (if item.isControl || taken.all id then item :: seen else seen) taken' rest := by
  cases item with
  | bad b =>
    simp only [Item.turn] at ht
    split at ht
    · cases ht
    · rename_i hr
      cases ht
      rw [explore, if_neg hr]
      rfl
  | good op =>
    cases op with
    | push p => cases ht; rfl
    | operation op => cases ht; rfl
    | control c =>
      cases c with
      | opIf | opNotIf =>
        have hall : taken.all id = false := by simpa [Item.opens] using hd
        simp only [Item.turn, hall, Bool.false_and, Option.some.injEq] at ht
        rw [explore, if_neg (by simp [hall]), ← ht]
        rfl
      | opElse | opEndIf =>
        cases taken with
        | nil => cases ht
        | cons b outer => cases ht; rw [explore]; rfl

/-- Where an item cannot stand, there are no ways through the script. -/
theorem explore_of_stuck {condition : Bool} (ht : item.turn condition taken = none) :
    explore path seen taken (item :: rest) = .error (.machine (some item) item.fault) := by
  cases item with
  | bad b =>
    simp only [Item.turn] at ht
    split at ht
    · rename_i hr
      rw [explore, if_pos hr]
      rfl
    · cases ht
  | good op =>
    cases op with
    | push p => cases ht
    | operation op => cases ht
    | control c =>
      cases c with
      | opIf => cases ht
      | opNotIf => cases ht
      | opElse | opEndIf =>
        cases taken with
        | nil => rw [explore]; rfl
        | cons b outer => cases ht

/-! ## Nesting -/

/-- Every conditional is closed, and no item fails in any branch. -/
def Balanced (depth : Nat) (items : List Item) : Prop := items.foldlM Item.nest depth = some 0

theorem balanced_cons {depth : Nat} {items : List Item} :
    Balanced depth (item :: items) ↔ ∃ n, item.nest depth = some n ∧ Balanced n items := by
  unfold Balanced
  rw [List.foldlM_cons]
  exact Option.bind_eq_some_iff

theorem explore_of_balanced {items : List Item} (h : Balanced taken.length items) :
    ∃ tree, explore path seen taken items = .ok tree := by
  induction items generalizing path seen taken with
  | nil =>
    have hl : taken.length = 0 := by simpa [Balanced] using h
    simp only [explore, hl]
    exact ⟨_, rfl⟩
  | cons item items ih =>
    obtain ⟨n, hn, hrest⟩ := balanced_cons.mp h
    cases hd : item.opens && taken.all id with
    | false =>
      obtain ⟨taken', ht, rfl⟩ := Item.turn_of_nest hn false
      rw [explore_of_passes hd ht]
      exact ih hrest
    | true =>
      obtain ⟨onFalse, hf, hlf⟩ := Item.turn_of_nest hn false
      obtain ⟨onTrue, ht, hlt⟩ := Item.turn_of_nest hn true
      obtain ⟨f, hef⟩ := @ih (false :: path) (item :: seen) onFalse (hlf ▸ hrest)
      obtain ⟨t, het⟩ := @ih (true :: path) (item :: seen) onTrue (hlt ▸ hrest)
      rw [explore_of_decides hd hf ht, hef, het]
      exact ⟨_, rfl⟩

/-- The ways found behind an item: from there on, or behind each of two decisions. -/
theorem explore_cons_eq_ok {items : List Item} {tree : Tree Branch}
    (h : explore path seen taken (item :: items) = .ok tree) :
    ((item.opens && taken.all id) = false ∧ ∃ kept, ∀ condition, ∃ taken',
      item.turn condition taken = some taken' ∧ explore path kept taken' items = .ok tree) ∨
    ((item.opens && taken.all id) = true ∧ ∃ onFalse onTrue f t,
      item.turn false taken = some onFalse ∧ explore (false :: path) (item :: seen) onFalse items = .ok f ∧
      item.turn true taken = some onTrue ∧ explore (true :: path) (item :: seen) onTrue items = .ok t ∧
      tree = .decision f t) := by
  cases hn : item.nest taken.length with
  | none =>
    have hstuck : item.turn false taken = none := Item.turn_eq_none.mpr hn
    rw [explore_of_stuck hstuck] at h
    cases h
  | some n =>
    cases hd : item.opens && taken.all id with
    | false =>
      refine Or.inl ⟨rfl, if item.isControl || taken.all id then item :: seen else seen, fun condition => ?_⟩
      obtain ⟨taken', ht, -⟩ := Item.turn_of_nest hn condition
      rw [explore_of_passes hd ht] at h
      exact ⟨taken', ht, h⟩
    | true =>
      obtain ⟨onFalse, hf, -⟩ := Item.turn_of_nest hn false
      obtain ⟨onTrue, ht, -⟩ := Item.turn_of_nest hn true
      rw [explore_of_decides hd hf ht] at h
      obtain ⟨f, hef, h⟩ := bind_eq_ok.mp h
      obtain ⟨t, het, h⟩ := bind_eq_ok.mp h
      cases h
      exact Or.inr ⟨rfl, onFalse, onTrue, f, t, hf, hef, ht, het, rfl⟩

/-- All ways found start with the decisions made before. -/
theorem path_of_mem_leaves {items : List Item} {tree : Tree Branch} {b : Branch}
    (h : explore path seen taken items = .ok tree) (hb : b ∈ tree.leaves) : path.reverse <+: b.path := by
  induction items generalizing path seen taken tree with
  | nil =>
    simp only [explore] at h
    split at h
    · cases h
      cases List.mem_singleton.mp hb
      exact List.prefix_refl _
    · cases h
  | cons item items ih =>
    rcases explore_cons_eq_ok h with ⟨-, kept, hpasses⟩ | ⟨-, onFalse, onTrue, f, t, -, hef, -, het, rfl⟩
    · obtain ⟨taken', -, h⟩ := hpasses false
      exact ih h hb
    · have hstart (v : Bool) (hv : (v :: path).reverse <+: b.path) : path.reverse <+: b.path := by
        rw [List.reverse_cons] at hv
        exact (List.prefix_append _ _).trans hv
      rcases List.mem_append.mp hb with hb | hb
      · exact hstart false (ih hef hb)
      · exact hstart true (ih het hb)

/-- No way that was decided otherwise has this path. -/
theorem filter_path_eq_nil {items : List Item} {tree : Tree Branch} {v : Bool}
    (h : explore (v :: path) seen taken items = .ok tree) (cs : List Bool) :
    tree.leaves.filter (fun b => b.path == path.reverse ++ (!v) :: cs) = [] := by
  rw [List.filter_eq_nil_iff]
  intro b hb hp
  have hv := path_of_mem_leaves h hb
  rw [eq_of_beq hp, List.reverse_cons, List.prefix_append_right_inj, List.singleton_prefix_cons_iff] at hv
  cases v <;> cases hv

/-! ## A run among the ways -/

section Run

variable {rules : Rules} {script : Bytes}

theorem balanced_of_trace {xs : List (Except ScriptError Item)} {index : Nat} {s t : State} {stops : List Stop}
    (h : (trace rules script index s xs).Yields (stops, t)) (ht : t.branches = []) :
    Balanced s.branches.length (stops.map Stop.item) := by
  induction xs generalizing index s stops with
  | nil =>
    obtain ⟨rfl, rfl⟩ := yields_trace_nil h
    rw [ht]
    rfl
  | cons x xs ih =>
    obtain ⟨item, s', rest, -, hs, hrest, rfl⟩ := yields_trace_cons h
    refine balanced_cons.mpr ⟨s'.branches.length, ?_, ih hrest⟩
    have hstep := Item.step_of_yields hs
    show item.nest (s.reach index item.size).branches.length = some s'.branches.length
    cases hd : item.opens && (s.reach index item.size).executing with
    | false => exact Item.nest_of_turn (turn_of_step hstep hd false)
    | true =>
      obtain ⟨c, -, hc⟩ := condition?_of_step hstep hd
      exact Item.nest_of_turn hc

theorem executed_eq (b : Branch) : b.executed = b.items.filter fun i => !i.isControl := by
  unfold executed
  congr 1
  funext i
  cases i with
  | bad b => rfl
  | good op => cases op <;> rfl

/-- What an item adds to the ones seen is what it adds to the ones executed. -/
theorem filter_seen (seen : List Item) (item : Item) (reached : Bool) :
    (if item.isControl || reached then item :: seen else seen).reverse.filter (fun i => !i.isControl) =
      seen.reverse.filter (fun i => !i.isControl) ++ if reached && !item.isControl then [item] else [] := by
  cases hc : item.isControl <;> cases reached <;> simp [hc]

theorem executedItems_cons (x : Stop) (stops : List Stop) :
    executedItems (x :: stops) =
      (if x.before.executing && !x.item.isControl then [x.item] else []) ++ executedItems stops := by
  unfold executedItems
  rw [List.filter_cons]
  split <;> simp

theorem conditions_cons (x : Stop) (stops : List Stop) :
    conditions (x :: stops) = x.condition?.toList ++ conditions stops := by
  unfold conditions
  rw [List.filterMap_cons]
  cases x.condition? <;> rfl

theorem Item.isControl_of_opens {item : Item} (h : item.opens = true) : item.isControl = true := by
  cases item with
  | bad b => cases h
  | good op =>
    cases op with
    | push p => cases h
    | operation op => cases h
    | control c => rfl

/-- Of the ways found from the open conditionals of a run, exactly one meets the conditions
    that the run meets, and it comes by what the run executes. -/
theorem leaves_of_trace {xs : List (Except ScriptError Item)} {index : Nat} {s t : State} {stops : List Stop}
    {tree : Tree Branch} (h : (trace rules script index s xs).Yields (stops, t))
    (htree : explore path seen s.branches (stops.map Stop.item) = .ok tree) :
    ∃ b, tree.leaves.filter (fun b => b.path == path.reverse ++ conditions stops) = [b] ∧
      b.executed = seen.reverse.filter (fun i => !i.isControl) ++ executedItems stops := by
  induction xs generalizing index s stops path seen tree with
  | nil =>
    obtain ⟨rfl, rfl⟩ := yields_trace_nil h
    simp only [List.map_nil, explore] at htree
    split at htree
    · cases htree
      refine ⟨⟨path.reverse, seen.reverse⟩, ?_, ?_⟩
      · simp [Tree.leaves, conditions]
      · simp [executed_eq, executedItems]
    · cases htree
  | cons x xs ih =>
    obtain ⟨item, s', rest, -, hs, hrest, rfl⟩ := yields_trace_cons h
    have hstep := Item.step_of_yields hs
    rw [List.map_cons] at htree
    rw [conditions_cons, executedItems_cons]
    -- the machine at the stop has the open conditionals that the exploration has
    generalize hbefore : s.reach index item.size = before at hstep
    have hbranches : s.branches = before.branches := by rw [← hbefore]; rfl
    rw [hbranches] at htree
    cases hd : item.opens && before.executing with
    | false =>
      have hc : (⟨item, before⟩ : Stop).condition? = none := by simp [Stop.condition?, hd]
      rw [explore_of_passes hd (turn_of_step hstep hd false)] at htree
      obtain ⟨b, hpath, hexec⟩ := ih hrest htree
      refine ⟨b, ?_, ?_⟩
      · rw [hc]
        exact hpath
      · rw [hexec, filter_seen, List.append_assoc]
        rfl
    | true =>
      obtain ⟨c, hc, hturn⟩ := condition?_of_step hstep hd
      have ho : item.opens = true := (Bool.and_eq_true _ _ ▸ hd).1
      have hnest := Item.nest_of_turn hturn
      obtain ⟨onFalse, hf, -⟩ := Item.turn_of_nest hnest false
      obtain ⟨onTrue, ht, -⟩ := Item.turn_of_nest hnest true
      rw [explore_of_decides hd hf ht] at htree
      obtain ⟨f, hef, htree⟩ := bind_eq_ok.mp htree
      obtain ⟨g, heg, htree⟩ := bind_eq_ok.mp htree
      cases htree
      have hkept : (item :: seen).reverse.filter (fun i => !i.isControl) =
          seen.reverse.filter fun i => !i.isControl := by
        simp [Item.isControl_of_opens ho]
      have hnone : (before.executing && !item.isControl) = false := by
        simp [Item.isControl_of_opens ho]
      have hlist : path.reverse ++ ((some c).toList ++ conditions rest) =
          (c :: path).reverse ++ conditions rest := by simp
      rw [hc, hnone]
      simp only [Tree.leaves, List.filter_append]
      cases c with
      | false =>
        rw [hf] at hturn
        cases hturn
        obtain ⟨b, hpath, hexec⟩ := ih hrest hef
        have hother := filter_path_eq_nil heg (conditions rest)
        refine ⟨b, ?_, hexec.trans (by rw [hkept]; rfl)⟩
        rw [hlist, hpath, ← hlist]
        exact congrArg _ hother
      | true =>
        rw [ht] at hturn
        cases hturn
        obtain ⟨b, hpath, hexec⟩ := ih hrest heg
        have hother := filter_path_eq_nil hef (conditions rest)
        refine ⟨b, ?_, hexec.trans (by rw [hkept]; rfl)⟩
        rw [hlist, hpath, ← hlist]
        exact congrArg (· ++ [b]) hother

end Run

/-! ## Scripts -/

theorem all_of_trace {rules : Rules} {s : Bytes} {stack out : Stack} {context : Context} {stops : List Stop}
    (h : (Script.trace rules s stack context).Yields (stops, out)) :
    ∃ ways b, all s = .ok ways ∧ ways.filter (fun b => b.path == conditions stops) = [b] ∧
      b.executed = executedItems stops := by
  obtain ⟨t, htrace, hclosed, -, hparse⟩ := Script.yields_trace h
  have hbalanced : Balanced ([] : List Bool).length (stops.map Stop.item) := balanced_of_trace htrace hclosed
  have hways : ∃ tree, explore [] [] [] (stops.map Stop.item) = .ok tree := explore_of_balanced hbalanced
  obtain ⟨tree, htree⟩ := hways
  obtain ⟨b, hpath, hexec⟩ := leaves_of_trace htrace htree
  have hdecisions : decisions s = .ok tree := by
    unfold decisions
    rw [hparse]
    exact htree
  refine ⟨tree.leaves, b, ?_, hpath, hexec⟩
  unfold all
  rw [hdecisions]
  rfl

/-- Whoever answers, a script that is run to its end has its ways told, and exactly one of
    them meets the conditions that the run met; it comes by what the run executed. So a
    script whose ways cannot be told is never run to its end. -/
theorem all_covers_runs (s : Bytes) :
    (∀ {σ : Type} (r : Responder σ) (w : σ) (rules : Rules) (stack out : Stack) (context : Context),
      ((Script.eval rules s stack context).converse r w).result = .ok out →
        ∃ stops ways b, ((Script.trace rules s stack context).converse r w).result = .ok (stops, out) ∧
          all s = .ok ways ∧ ways.filter (fun b => b.path == conditions stops) = [b] ∧
          b.executed = executedItems stops) ∧
    ∀ (e : ScriptError), all s = .error e →
      ∀ {σ : Type} (r : Responder σ) (w : σ) (rules : Rules) (stack out : Stack) (context : Context),
        ((Script.eval rules s stack context).converse r w).result ≠ .ok out := by
  refine ⟨fun r w rules stack out context h => ?_, fun e he σ r w rules stack out context h => ?_⟩
  · obtain ⟨stops, hstops⟩ := Script.converse_eval_eq_ok h
    obtain ⟨ways, b, hways⟩ := all_of_trace (Dialogue.yields_of_converse hstops)
    exact ⟨stops, ways, b, hstops, hways⟩
  · obtain ⟨stops, hstops⟩ := Script.converse_eval_eq_ok h
    obtain ⟨ways, b, hways, -⟩ := all_of_trace (Dialogue.yields_of_converse hstops)
    rw [hways] at he
    cases he

/-- Two or three, by a condition that is true: the run leaves two. -/
theorem all_covers_runs_ifElse :
    ∃ stops ways b, ((Script.trace (Rules.ofBits 0) [0x63, 0x52, 0x67, 0x53, 0x68] [[1]] (Context.fresh .base)).converse
        Oracle.deny.responder ()).result = .ok (stops, [[2]]) ∧
      all [0x63, 0x52, 0x67, 0x53, 0x68] = .ok ways ∧
      ways.filter (fun b => b.path == conditions stops) = [b] ∧ b.executed = executedItems stops := by
  have h : ((Script.eval (Rules.ofBits 0) [0x63, 0x52, 0x67, 0x53, 0x68] [[1]] (Context.fresh .base)).converse
      Oracle.deny.responder ()).result = .ok [[2]] := by cbv
  exact (all_covers_runs _).1 _ _ _ _ _ _ h

end Branch

end SpendScript

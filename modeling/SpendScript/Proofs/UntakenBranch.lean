/-
  SpendScript.Proofs.UntakenBranch — a branch that is not taken leaves nothing behind.

  While some open conditional does not take its branch, an item only counts, and turns the
  open conditionals. What a balanced body opens lies on top of the conditional that is not
  taken, and the body never comes down to it, so that it is still not taken behind the body:
  - `Item.turn_inside`: an item turns only the conditionals opened inside.
  - `Item.eval_of_passed`: what an item does where it is not executed.
  - `execute_passes`: a body is passed, and the run goes on behind it.
  `execute_untaken` is the whole conditional.
-/

import SpendScript.Proofs.Branch
import SpendScript.Proofs.StraightLine

namespace SpendScript

/-! ## Counting -/

/-- Whether an item counts as an operation. -/
def Item.counts : Item → Bool
  | .good (.push _) | .bad .reserved => false
  | _ => true

namespace State

theorem Fits.of_stack {s : State} {v : Bytes} {rest : Stack} (h : s.Fits) (hs : s.stack = v :: rest) :
    rest.length + s.alt.length ≤ maxDepth := by
  have h : s.stack.length + s.alt.length ≤ maxDepth := h
  rw [hs, List.length_cons] at h
  omega

end State

/-! ## One item -/

section Item

variable {rules : Rules} {script : Bytes} {s : State} {item : Item}

/-- Under a conditional that is not taken, an item turns only what was opened inside. -/
theorem Item.turn_inside {inner outer : List Bool} {n : Nat} (h : item.nest inner.length = some n)
    (condition : Bool) : ∃ inner', inner'.length = n ∧
      item.turn condition (inner ++ false :: outer) = some (inner' ++ false :: outer) := by
  cases item with
  | bad b =>
    cases hr : b.isAlwaysReached with
    | true => simp [Item.nest, hr] at h
    | false =>
      simp only [Item.nest, hr] at h
      cases h
      exact ⟨inner, rfl, by simp [Item.turn, hr]⟩
  | good op =>
    cases op with
    | push p =>
      cases h
      exact ⟨inner, rfl, rfl⟩
    | operation op =>
      cases h
      exact ⟨inner, rfl, rfl⟩
    | control c =>
      cases c with
      | opIf | opNotIf =>
        cases h
        exact ⟨false :: inner, rfl, by simp [Item.turn]⟩
      | opElse =>
        cases inner with
        | nil => cases h
        | cons b inner =>
          cases h
          exact ⟨(!b) :: inner, rfl, rfl⟩
      | opEndIf =>
        cases inner with
        | nil => cases h
        | cons b inner =>
          cases h
          exact ⟨inner, rfl, rfl⟩

theorem Opcode.eval_of_act {op : Opcode} {s' : State} (h : op.act rules script s = .ret s') (hd : s'.Fits) :
    op.eval rules script s = .ret s' := by
  unfold Opcode.eval
  rw [h]
  show Dialogue.lift s'.checkDepth = .ret s'
  rw [State.checkDepth_eq_ok.mpr ⟨hd, rfl⟩]
  rfl

theorem Bad.eval_of_passed {b : Bad} (he : s.executing = false) (hr : b.isAlwaysReached = false)
    (hroom : s.HasRoom (if (Item.bad b).counts then 1 else 0)) :
    b.eval s = .ok (s.counted (if (Item.bad b).counts then 1 else 0)) := by
  have hpass (t : State) (ht : t.executing = false) : (if (b.isAlwaysReached || t.executing) = true then
      Except.error MachineError.badOpcode else .ok t) = .ok t := by
    simp [hr, ht]
  unfold Bad.eval
  by_cases hb : b = .reserved
  · subst hb
    rw [if_pos (beq_self_eq_true Bad.reserved)]
    show _ = Except.ok (s.counted 0)
    rw [State.counted_zero]
    exact hpass s he
  · have hcounts : (Item.bad b).counts = true := by
      cases b with
      | reserved => exact absurd rfl hb
      | _ => rfl
    rw [hcounts] at hroom ⊢
    have hcount : s.countOps 1 = .ok (s.counted 1) := State.countOps_of_hasRoom hroom
    rw [if_neg (by simpa using hb), hcount]
    exact hpass (s.counted 1) he

theorem Control.eval_of_passed {c : Control} (he : s.executing = false) {condition : Bool} {taken : List Bool}
    (ht : (Item.good (.control c)).turn condition s.branches = some taken) :
    c.eval rules s = .ok { s with branches := taken } := by
  have hall : s.branches.all id = false := he
  cases c with
  | opIf | opNotIf =>
    simp only [Item.turn, hall, Bool.false_and, Option.some.injEq] at ht
    simp [Control.eval, openBranch, he, ht]
  | opElse | opEndIf =>
    unfold Control.eval
    unfold Item.turn at ht
    cases hb : s.branches with
    | nil =>
      rw [hb] at ht
      cases ht
    | cons b outer =>
      rw [hb] at ht
      cases ht
      rfl

/-- Where an item is not executed, it counts and turns the open conditionals. -/
theorem Item.eval_of_passed (he : s.executing = false) {condition : Bool} {taken : List Bool}
    (ht : item.turn condition s.branches = some taken) (hroom : s.HasRoom (if item.counts then 1 else 0))
    (hsep : s.context.version = .base → rules.has .constScriptCode = true →
      item ≠ .good (.operation .codeSeparator)) (hd : s.Fits) :
    item.eval rules script s =
      .ret { s.counted (if item.counts then 1 else 0) with branches := taken } := by
  have hpass (n : Nat) : (s.counted n).executing = false := he
  cases item with
  | bad b =>
    cases hr : b.isAlwaysReached with
    | true => simp [Item.turn, hr] at ht
    | false =>
      simp only [Item.turn, hr] at ht
      cases ht
      show Dialogue.lift (b.eval s) = _
      rw [Bad.eval_of_passed he hr hroom]
      rfl
  | good op =>
    refine Opcode.eval_of_act ?_ hd
    cases op with
    | push p =>
      cases ht
      simp [Opcode.act, he, Item.counts]
    | operation op =>
      cases ht
      have hforbids : forbidsSeparator rules (s.counted 1) op = false := by
        rw [← Bool.not_eq_true]
        intro hf
        simp only [forbidsSeparator, Bool.and_eq_true, beq_iff_eq] at hf
        obtain ⟨⟨rfl, hv⟩, hc⟩ := hf
        exact hsep hv hc rfl
      have hcount : s.countOps 1 = .ok (s.counted 1) := State.countOps_of_hasRoom hroom
      simp only [Opcode.act, hcount]
      show (if forbidsSeparator rules (s.counted 1) op then _ else if (s.counted 1).executing then _ else _) = _
      rw [hforbids, hpass]
      rfl
    | control c =>
      have hcount : s.countOps 1 = .ok (s.counted 1) := State.countOps_of_hasRoom hroom
      simp only [Opcode.act, hcount]
      show Dialogue.lift (c.eval rules (s.counted 1)) = _
      rw [Control.eval_of_passed (hpass 1) ht]
      rfl

theorem checkCondition_of_minimal {version : SigVersion} {v : Bytes}
    (h : version = .tapscript ∨ version = .witnessV0 ∧ rules.has .minimalIf = true → v = [] ∨ v = [1]) :
    checkCondition rules version v = .ok () := by
  have hminimal (hv : v = [] ∨ v = [1]) : (v == [] || v == [1]) = true := by simpa using hv
  unfold checkCondition
  cases version with
  | base => rfl
  | taproot => rfl
  | tapscript => exact if_pos (hminimal (h (Or.inl rfl)))
  | witnessV0 =>
    cases hr : rules.has .minimalIf with
    | false => simp
    | true => exact if_pos (by rw [hminimal (h (Or.inr ⟨rfl, hr⟩)), Bool.true_or])

/-- A condition that is false and has the form that is asked for opens a branch that is not
    taken. -/
theorem Item.eval_opIf_of_false (he : s.executing = true) {v : Bytes} {rest : Stack} (hs : s.stack = v :: rest)
    (hv : Number.truthy v = false)
    (hminimal : s.context.version = .tapscript ∨ s.context.version = .witnessV0 ∧ rules.has .minimalIf = true →
      v = [] ∨ v = [1])
    (hroom : s.HasRoom 1) (hd : s.Fits) :
    (Item.good (.control .opIf)).eval rules script s =
      .ret { s.counted 1 with stack := rest, branches := false :: s.branches } := by
  have hopen : openBranch rules (s.counted 1) false =
      .ok { s.counted 1 with stack := rest, branches := false :: s.branches } := by
    have hstack : (s.counted 1).stack = v :: rest := hs
    unfold openBranch
    rw [if_pos (show (s.counted 1).executing = true from he), hstack]
    show (checkCondition rules s.context.version v >>= fun _ => _) = _
    rw [checkCondition_of_minimal hminimal, hv]
    rfl
  refine Opcode.eval_of_act ?_ ?_
  · simp only [Opcode.act, State.countOps_of_hasRoom hroom]
    show Dialogue.lift (openBranch rules (s.counted 1) false) = _
    rw [hopen]
    rfl
  · exact hd.of_stack hs

end Item

/-! ## Whole branches -/

section Run

variable {rules : Rules} {script : Bytes} {s : State}

theorem execute_cons {index : Nat} {item : Item} {s' : State}
    (h : item.eval rules script (s.reach index item.size) = .ret s') (xs : List (Except ScriptError Item)) :
    execute rules script index s (.ok item :: xs) = execute rules script (index + 1) s' xs := by
  have h : Instruction.eval rules script (s.reach index item.size) item = .ret s' := h
  rw [execute]
  show (Instruction.eval rules script (s.reach index item.size) item).mapError _ >>= _ = _
  rw [h]
  rfl

/-- Under a conditional that is not taken, a balanced body is passed. The run goes on behind it,
    the operations of the body counted and nothing else changed. -/
theorem execute_passes {index : Nat} {inner outer : List Bool} {body : List Item}
    (hb : s.branches = inner ++ false :: outer) (hbody : Branch.Balanced inner.length body)
    (hroom : s.HasRoom (body.countP Item.counts))
    (hsep : s.context.version = .base → rules.has .constScriptCode = true →
      .good (.operation .codeSeparator) ∉ body)
    (hd : s.Fits) (xs : List (Except ScriptError Item)) :
    ∃ position offset, execute rules script index s (body.map .ok ++ xs) =
      execute rules script (index + body.length)
        { s.counted (body.countP Item.counts) with
          branches := false :: outer, position := position, offset := offset } xs := by
  -- what was opened inside changes from item to item, and is closed again at the end
  induction body generalizing index s inner with
  | nil =>
    have hl : inner = [] := List.length_eq_zero_iff.mp (by simpa [Branch.Balanced] using hbody)
    rw [hl, List.nil_append] at hb
    exact ⟨s.position, s.offset, by simp [← hb]⟩
  | cons item body ih =>
    obtain ⟨n, hn, hrest⟩ := Branch.balanced_cons.mp hbody
    obtain ⟨inner', rfl, hturn⟩ : ∃ inner', inner'.length = n ∧
        item.turn false s.branches = some (inner' ++ false :: outer) := hb ▸ Item.turn_inside hn false
    rw [List.countP_cons] at hroom
    have he : s.executing = false := by simp [State.executing, hb]
    -- the machine behind the item, from which the rest of the body is passed
    let next : State := { (s.reach index item.size).counted (if item.counts then 1 else 0) with
      branches := inner' ++ false :: outer }
    have hitem : item.eval rules script (s.reach index item.size) = .ret next :=
      Item.eval_of_passed (s := s.reach index item.size) he hturn (hroom.mono (Nat.le_add_left _ _))
        (fun hv hc h => hsep hv hc (h ▸ List.mem_cons_self)) hd
    have hnext : next.HasRoom (body.countP Item.counts) := hroom.counted
    obtain ⟨position, offset, hpasses⟩ := @ih next (index + 1) inner' rfl hrest hnext
      (fun hv hc h => hsep hv hc (List.mem_cons_of_mem item h)) hd
    refine ⟨position, offset, ?_⟩
    rw [List.map_cons, List.cons_append, execute_cons hitem, hpasses, List.countP_cons, ← State.counted_counted,
      List.length_cons, Nat.add_assoc, Nat.add_comm 1]
    rfl

/-- A conditional around a body, with no other branch. -/
def Branch.enclose (body : List Item) : List Item :=
  .good (.control .opIf) :: body ++ [.good (.control .opEndIf)]

/-- A branch that is not taken has no effect. Where the condition is false and has the form that is
    asked for, the conditional is run to its end, whatever stands in the body, as long as its own
    conditionals are balanced, nothing in it fails in any branch and there is room for its
    operations. Nothing is asked, the condition is gone from the stack, and the alt stack,
    the open conditionals and the context are as they were. -/
theorem execute_untaken (rules : Rules) (script : Bytes) (index : Nat) (s : State) (v : Bytes) (rest : Stack)
    (body : List Item) (he : s.executing = true) (hs : s.stack = v :: rest) (hv : Number.truthy v = false)
    (hminimal : s.context.version = .tapscript ∨ s.context.version = .witnessV0 ∧ rules.has .minimalIf = true →
      v = [] ∨ v = [1])
    (hbody : Branch.Balanced 0 body)
    (hsep : s.context.version = .base → rules.has .constScriptCode = true →
      .good (.operation .codeSeparator) ∉ body)
    (hroom : s.HasRoom ((Branch.enclose body).countP Item.counts)) (hd : s.Fits) :
    ∃ count position offset, execute rules script index s ((Branch.enclose body).map .ok) =
      .ret { s with stack := rest, opCount := count, position := position, offset := offset } := by
  have hcount : (Branch.enclose body).countP Item.counts = 1 + body.countP Item.counts + 1 := by
    rw [Branch.enclose, List.cons_append, List.countP_cons, List.countP_append, Nat.add_comm (body.countP _)]
    rfl
  rw [hcount] at hroom
  -- behind the opening, with the branch that is not taken on top
  let first : State := { (s.reach index 1).counted 1 with stack := rest, branches := false :: s.branches }
  have hopen : (Item.good (.control .opIf)).eval rules script (s.reach index 1) = .ret first :=
    Item.eval_opIf_of_false (s := s.reach index 1) he hs hv hminimal (hroom.mono (Nat.le_add_left _ _)) hd
  have hfits : first.Fits := hd.of_stack hs
  have hleft : first.HasRoom (1 + body.countP Item.counts) := hroom.counted
  have hinner : first.branches = [] ++ false :: s.branches := rfl
  obtain ⟨position, offset, hpasses⟩ := execute_passes hinner hbody (hleft.mono (Nat.le_add_left _ _)) hsep hfits
    [.ok (.good (.control .opEndIf))]
  -- behind the body, where the branch is still on top
  let last : State := { first.counted (body.countP Item.counts) with position := position, offset := offset }
  have hclose : (Item.good (.control .opEndIf)).eval rules script (last.reach (index + 1 + body.length) 1) =
      .ret { (last.reach (index + 1 + body.length) 1).counted 1 with branches := s.branches } :=
    Item.eval_of_passed rfl (show Item.turn false (false :: s.branches) _ = _ from rfl) hleft.counted
      (fun _ _ => nofun) hfits
  refine ⟨(last.counted 1).opCount, index + 1 + body.length, offset + 1, ?_⟩
  calc execute rules script index s ((Branch.enclose body).map .ok)
      = execute rules script (index + 1) first (body.map .ok ++ [.ok (.good (.control .opEndIf))]) := by
        rw [Branch.enclose, List.cons_append, List.map_cons, List.map_append]
        exact execute_cons hopen _
    _ = execute rules script (index + 1 + body.length) last [.ok (.good (.control .opEndIf))] := hpasses
    _ = _ := execute_cons hclose []

/-- An empty condition, where it has to be minimal: a bad opcode, a signature check and a conditional
    with two branches are all passed. -/
theorem execute_untaken_nested :
    let body : List Item := [.bad .ver, .good (.control .opIf), .good (.operation .checkSig),
      .good (.control .opElse), .good (.operation .abort), .good (.control .opEndIf)]
    let s := State.start [[], [7]] (Context.fresh .witnessV0)
    ∃ count position offset, execute Rules.standard [] 0 s ((Branch.enclose body).map .ok) =
      .ret { s with stack := [[7]], opCount := count, position := position, offset := offset } := by
  intro body s
  have hroom : s.HasRoom ((Branch.enclose body).countP Item.counts) := fun _ => by decide
  have hfits : 2 + 0 ≤ State.maxDepth := by decide
  exact execute_untaken Rules.standard [] 0 s [] [[7]] body rfl rfl rfl (fun _ => Or.inl rfl) rfl nofun hroom hfits

end Run

end SpendScript

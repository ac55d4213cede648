/-
  SpendScript.Proofs.StackEffect — what the stack operations declare is what they do.

  The effect of a stack operation is declared as two rows of items, the top written last: those it
  takes and those it leaves in their place (`StackOp.Rewrites`). How it gets there is another
  matter; most operations copy or move one item at a time, by positions that shift under them.
  - `StackOp.Moves`: the declared effect on both stacks, with whatever lies below left alone.
  - `StackOp.Moves.apply`: the operation leaves what is declared.
  - `StackOp.Ready`: the items that an operation needs. `StackOp.ready_of_apply` and
    `StackOp.exists_moves` say that it needs no more and no less.
  - `StackOp.eval_eq_ret` / `StackOp.run_of_course`: so one operation, and a row of them, do
    what is declared and nothing else.
  `StackOp.declared_effect` puts them together, with the rows of operations that undo themselves.
-/

import SpendScript.Proofs.Machine
import SpendScript.Proofs.Number

namespace SpendScript

/-! ## Declared effects -/

namespace StackOp

/-- The items that an operation takes off the stack and those it leaves for them, the top last.
    On the whole stack there are `height` items. -/
inductive Rewrites (minimal : Bool) (height : Nat) : StackOp → List Bytes → List Bytes → Prop
  | drop2 (x₁ x₂) : Rewrites minimal height .drop2 [x₁, x₂] []
  | dup2 (x₁ x₂) : Rewrites minimal height .dup2 [x₁, x₂] [x₁, x₂, x₁, x₂]
  | dup3 (x₁ x₂ x₃) : Rewrites minimal height .dup3 [x₁, x₂, x₃] [x₁, x₂, x₃, x₁, x₂, x₃]
  | over2 (x₁ x₂ x₃ x₄) : Rewrites minimal height .over2 [x₁, x₂, x₃, x₄] [x₁, x₂, x₃, x₄, x₁, x₂]
  | rot2 (x₁ x₂ x₃ x₄ x₅ x₆) :
    Rewrites minimal height .rot2 [x₁, x₂, x₃, x₄, x₅, x₆] [x₃, x₄, x₅, x₆, x₁, x₂]
  | swap2 (x₁ x₂ x₃ x₄) : Rewrites minimal height .swap2 [x₁, x₂, x₃, x₄] [x₃, x₄, x₁, x₂]
  /-- A zero, with or without a sign, stays as it is. -/
  | ifDupZero (x) (h : Number.signMagnitude x = 0) : Rewrites minimal height .ifDup [x] [x]
  | ifDup (x) (h : Number.signMagnitude x ≠ 0) : Rewrites minimal height .ifDup [x] [x, x]
  | depth : Rewrites minimal height .depth [] [Number.encode height]
  | drop (x) : Rewrites minimal height .drop [x] []
  | dup (x) : Rewrites minimal height .dup [x] [x, x]
  | nip (x₁ x₂) : Rewrites minimal height .nip [x₁, x₂] [x₂]
  | over (x₁ x₂) : Rewrites minimal height .over [x₁, x₂] [x₁, x₂, x₁]
  /-- The number on top is that of the items between it and the one that is meant. -/
  | pick (x xs n) (h : Number.parse minimal Number.operandSize n = .ok xs.length) :
    Rewrites minimal height .pick (x :: xs ++ [n]) (x :: xs ++ [x])
  | roll (x xs n) (h : Number.parse minimal Number.operandSize n = .ok xs.length) :
    Rewrites minimal height .roll (x :: xs ++ [n]) (xs ++ [x])
  | rot (x₁ x₂ x₃) : Rewrites minimal height .rot [x₁, x₂, x₃] [x₂, x₃, x₁]
  | swap (x₁ x₂) : Rewrites minimal height .swap [x₁, x₂] [x₂, x₁]
  | tuck (x₁ x₂) : Rewrites minimal height .tuck [x₁, x₂] [x₂, x₁, x₂]
  | size (x) : Rewrites minimal height .size [x] [x, Number.encode x.length]

/-- The stack and the other stack before and after an operation. Below the items that it works
    on nothing changes, and only two operations touch the other stack. -/
inductive Moves (minimal : Bool) : StackOp → Stack × Stack → Stack × Stack → Prop
  | rewrite {op : StackOp} {before after : List Bytes} (below alt : Stack)
      (h : Rewrites minimal (before.reverse ++ below).length op before after) :
    Moves minimal op (before.reverse ++ below, alt) (after.reverse ++ below, alt)
  | toAlt (x : Bytes) (main alt : Stack) : Moves minimal .toAlt (x :: main, alt) (main, x :: alt)
  | fromAlt (x : Bytes) (main alt : Stack) : Moves minimal .fromAlt (main, x :: alt) (x :: main, alt)

/-- The items that have to be on the stack. -/
def arity : StackOp → Nat
  | .fromAlt | .depth => 0
  | .toAlt | .ifDup | .drop | .dup | .size => 1
  | .drop2 | .dup2 | .nip | .over | .swap | .tuck | .pick | .roll => 2
  | .dup3 | .rot => 3
  | .over2 | .swap2 => 4
  | .rot2 => 6

/-- The number on top is a position among the items below it. -/
def Points (minimal : Bool) (main : Stack) : Prop :=
  ∃ top below, main = top :: below ∧
    ∃ n : Int, Number.parse minimal Number.operandSize top = .ok n ∧ 0 ≤ n ∧ n < below.length

/-- Everything that an operation needs is there. -/
structure Ready (minimal : Bool) (op : StackOp) (main alt : Stack) : Prop where
  items : op.arity ≤ main.length
  other : op = .fromAlt → 1 ≤ alt.length
  points : op = .pick ∨ op = .roll → Points minimal main

end StackOp

/-! ## Copies and moves -/

namespace Stack

variable {minimal : Bool} {stack out : Stack} {i : Nat}

theorem lt_of_get {x : Bytes} (h : stack.get i = .ok x) : i < stack.length :=
  (List.getElem?_eq_some_iff.mp (get_eq_ok.mp h)).1

theorem lt_of_copyToTop (h : stack.copyToTop i = .ok out) : i < stack.length := by
  obtain ⟨x, hx, -⟩ := bind_eq_ok.mp h
  exact lt_of_get hx

theorem lt_of_moveToTop (h : stack.moveToTop i = .ok out) : i < stack.length := by
  obtain ⟨x, hx, -⟩ := bind_eq_ok.mp h
  exact lt_of_get hx

theorem get_append (xs : List Bytes) (x : Bytes) (below : Stack) :
    Stack.get xs.length (xs.reverse ++ x :: below) = .ok x := by
  rw [get_eq_ok, ← List.length_reverse, List.getElem?_append_right (Nat.le_refl _), Nat.sub_self]
  rfl

theorem copyToTop_append (xs : List Bytes) (x : Bytes) (below : Stack) :
    Stack.copyToTop xs.length (xs.reverse ++ x :: below) = .ok (x :: (xs.reverse ++ x :: below)) :=
  bind_eq_ok.mpr ⟨x, get_append xs x below, rfl⟩

theorem moveToTop_append (xs : List Bytes) (x : Bytes) (below : Stack) :
    Stack.moveToTop xs.length (xs.reverse ++ x :: below) = .ok (x :: (xs.reverse ++ below)) := by
  refine bind_eq_ok.mpr ⟨x, get_append xs x below, ?_⟩
  rw [← List.length_reverse, List.eraseIdx_append_of_length_le (Nat.le_refl _), Nat.sub_self]
  rfl

theorem number_eq_ok_iff {maxSize : Nat} {x : Bytes} {n : Int} :
    number minimal maxSize x = .ok n ↔ Number.parse minimal maxSize x = .ok n := mapError_eq_ok

theorem popPosition_eq_ok {n : Nat} :
    stack.popPosition minimal = .ok (n, out) ↔
      ∃ top, stack = top :: out ∧ 1 ≤ out.length ∧ Number.parse minimal Number.operandSize top = .ok n := by
  constructor
  · intro h
    obtain ⟨_, hneed, hpop⟩ := bind_eq_ok.mp h
    obtain ⟨⟨m, rest⟩, hnumber, hsign⟩ := bind_eq_ok.mp hpop
    obtain ⟨top, rfl, hparse⟩ := popNumber_eq_ok hnumber
    have hlength := need_eq_ok hneed
    dsimp only at hsign
    split at hsign
    · cases hsign
    · cases hsign
      refine ⟨top, rfl, Nat.le_of_succ_le_succ hlength, ?_⟩
      rw [number_eq_ok_iff.mp hparse, Int.toNat_of_nonneg (by omega)]
  · rintro ⟨top, rfl, hlength, hparse⟩
    have hneed : Stack.need 2 (top :: out) = .ok () := if_pos (Nat.succ_le_succ hlength)
    refine bind_eq_ok.mpr ⟨(), hneed, bind_eq_ok.mpr ⟨(n, out), ?_, ?_⟩⟩
    · exact bind_eq_ok.mpr ⟨(top, out), rfl, bind_eq_ok.mpr ⟨n, number_eq_ok_iff.mpr hparse, rfl⟩⟩
    · dsimp only
      rw [if_neg (by omega)]
      rfl

theorem popPosition_append {n x : Bytes} {xs : List Bytes} {below : Stack}
    (h : Number.parse minimal Number.operandSize n = .ok xs.length) :
    Stack.popPosition minimal ((x :: xs ++ [n]).reverse ++ below) = .ok (xs.length, xs.reverse ++ x :: below) := by
  refine popPosition_eq_ok.mpr ⟨n, by simp, ?_, h⟩
  rw [List.length_append, List.length_cons]
  omega

/-- The topmost items in the order they were put there. -/
theorem exists_top {k : Nat} (h : k ≤ stack.length) :
    ∃ (before : List Bytes) (below : Stack), stack = before.reverse ++ below ∧ before.length = k := by
  refine ⟨(stack.take k).reverse, stack.drop k, ?_, ?_⟩
  · rw [List.reverse_reverse, List.take_append_drop]
  · rw [List.length_reverse, List.length_take_of_le h]

end Stack

/-! ## Operations -/

namespace StackOp

variable {minimal : Bool} {op : StackOp} {main alt : Stack} {out : Stack × Stack}

theorem Rewrites.apply {before after : List Bytes} {below : Stack}
    (h : Rewrites minimal (before.reverse ++ below).length op before after) :
    op.apply minimal (before.reverse ++ below) alt = .ok (after.reverse ++ below, alt) := by
  -- only `depth` looks at the height; the others compute once their items are named
  generalize hheight : (before.reverse ++ below).length = height at h
  cases h with
  | depth =>
    rw [← hheight]
    rfl
  | ifDupZero x h =>
    have hfalse : Number.truthy x = false := by
      rw [Bool.eq_false_iff, Ne, Number.truthy_iff_signMagnitude]
      exact not_not_intro h
    show Except.ok (if Number.truthy x then x :: x :: below else x :: below, alt) = _
    rw [hfalse]
    rfl
  | ifDup x h =>
    have htrue : Number.truthy x = true := (Number.truthy_iff_signMagnitude x).mpr h
    show Except.ok (if Number.truthy x then x :: x :: below else x :: below, alt) = _
    rw [htrue]
    rfl
  | pick x xs n h =>
    refine bind_eq_ok.mpr ⟨_, Stack.popPosition_append h, bind_eq_ok.mpr ⟨_, Stack.copyToTop_append xs x below, ?_⟩⟩
    simp [pure, Except.pure]
  | roll x xs n h =>
    refine bind_eq_ok.mpr ⟨_, Stack.popPosition_append h, bind_eq_ok.mpr ⟨_, Stack.moveToTop_append xs x below, ?_⟩⟩
    simp [pure, Except.pure]
  | _ => rfl

/-- What is declared is what the operation leaves. -/
theorem Moves.apply (h : Moves minimal op (main, alt) out) : op.apply minimal main alt = .ok out := by
  cases h with
  | rewrite below alt h => exact h.apply
  | toAlt x => rfl
  | fromAlt x => rfl

theorem arity_le_of_apply (h : op.apply minimal main alt = .ok out) : op.arity ≤ main.length := by
  cases op with
  | fromAlt | depth => exact Nat.zero_le _
  | toAlt | drop =>
    obtain ⟨⟨x, rest⟩, hx, -⟩ := bind_eq_ok.mp h
    rw [Stack.pop_eq_ok.mp hx]
    exact Nat.le_add_left 1 _
  | drop2 =>
    obtain ⟨⟨x, rest⟩, hx, h⟩ := bind_eq_ok.mp h
    obtain ⟨⟨y, below⟩, hy, -⟩ := bind_eq_ok.mp h
    rw [Stack.pop_eq_ok.mp hx, Stack.pop_eq_ok.mp hy]
    exact Nat.le_add_left 2 _
  | dup2 | dup3 | over2 | dup | «over» =>
    obtain ⟨_, hcopy, -⟩ := bind_eq_ok.mp h
    exact Stack.lt_of_copyToTop hcopy
  | rot2 | swap2 | rot | swap =>
    obtain ⟨_, hmove, -⟩ := bind_eq_ok.mp h
    exact Stack.lt_of_moveToTop hmove
  | ifDup | size =>
    obtain ⟨_, hget, -⟩ := bind_eq_ok.mp h
    exact Stack.lt_of_get hget
  | nip =>
    obtain ⟨_, hremove, -⟩ := bind_eq_ok.mp h
    obtain ⟨_, hget, -⟩ := bind_eq_ok.mp hremove
    exact Stack.lt_of_get hget
  | tuck =>
    obtain ⟨_, htuck, -⟩ := bind_eq_ok.mp h
    obtain ⟨_, -, htuck⟩ := bind_eq_ok.mp htuck
    obtain ⟨_, hget, -⟩ := bind_eq_ok.mp htuck
    exact Stack.lt_of_get hget
  | pick | roll =>
    obtain ⟨_, hposition, -⟩ := bind_eq_ok.mp h
    obtain ⟨_, hneed, -⟩ := bind_eq_ok.mp hposition
    exact Stack.need_eq_ok hneed

/-- An operation that passes found all that it needs. -/
theorem ready_of_apply (h : op.apply minimal main alt = .ok out) : op.Ready minimal main alt := by
  refine ⟨arity_le_of_apply h, ?_, ?_⟩
  · rintro rfl
    obtain ⟨⟨x, rest⟩, hx, -⟩ := bind_eq_ok.mp h
    rw [Stack.pop_eq_ok.mp hx]
    exact Nat.le_add_left 1 _
  · intro hop
    have hposition : ∃ n below, main.popPosition minimal = .ok (n, below) ∧ n < below.length := by
      rcases hop with rfl | rfl
      · obtain ⟨⟨n, below⟩, hposition, h⟩ := bind_eq_ok.mp h
        obtain ⟨_, hcopy, -⟩ := bind_eq_ok.mp h
        exact ⟨n, below, hposition, Stack.lt_of_copyToTop hcopy⟩
      · obtain ⟨⟨n, below⟩, hposition, h⟩ := bind_eq_ok.mp h
        obtain ⟨_, hmove, -⟩ := bind_eq_ok.mp h
        exact ⟨n, below, hposition, Stack.lt_of_moveToTop hmove⟩
    obtain ⟨n, below, hposition, hlt⟩ := hposition
    obtain ⟨top, rfl, -, hparse⟩ := Stack.popPosition_eq_ok.mp hposition
    exact ⟨top, below, rfl, n, hparse, Int.natCast_nonneg n, Int.ofNat_lt.mpr hlt⟩

/-- An operation of fixed reach has an effect on any items of the right number. -/
theorem exists_rewrites {before : List Bytes} (height : Nat) (hlength : before.length = op.arity)
    (hop : op ∉ [.toAlt, .fromAlt, .pick, .roll]) : ∃ after, Rewrites minimal height op before after := by
  cases op with
  | toAlt | fromAlt | pick | roll => simp at hop
  | depth =>
    rw [List.length_eq_zero_iff.mp hlength]
    exact ⟨_, .depth⟩
  | ifDup =>
    obtain ⟨x, rfl⟩ := List.length_eq_one_iff.mp hlength
    by_cases hx : Number.signMagnitude x = 0
    · exact ⟨_, .ifDupZero x hx⟩
    · exact ⟨_, .ifDup x hx⟩
  | drop | dup | size =>
    obtain ⟨x, rfl⟩ := List.length_eq_one_iff.mp hlength
    exact ⟨_, by constructor⟩
  | drop2 | dup2 | nip | «over» | swap | tuck =>
    obtain ⟨x₁, x₂, rfl⟩ := List.length_eq_two.mp hlength
    exact ⟨_, by constructor⟩
  | dup3 | rot =>
    obtain ⟨x₁, x₂, x₃, rfl⟩ := List.length_eq_three.mp hlength
    exact ⟨_, by constructor⟩
  | over2 | swap2 =>
    match before, hlength with
    | [x₁, x₂, x₃, x₄], _ => exact ⟨_, by constructor⟩
  | rot2 =>
    match before, hlength with
    | [x₁, x₂, x₃, x₄, x₅, x₆], _ => exact ⟨_, .rot2 x₁ x₂ x₃ x₄ x₅ x₆⟩

/-- A position among the items below splits them at the item that is meant. -/
theorem Points.split (h : Points minimal main) :
    ∃ x xs n below, main = (x :: xs ++ [n]).reverse ++ below ∧
      Number.parse minimal Number.operandSize n = .ok (xs.length : Int) := by
  obtain ⟨top, below, rfl, n, hparse, hnonneg, hlt⟩ := h
  obtain ⟨k, rfl⟩ := Int.eq_ofNat_of_zero_le hnonneg
  have hk : k < below.length := Int.ofNat_lt.mp hlt
  refine ⟨below[k], (below.take k).reverse, top, below.drop (k + 1), ?_, ?_⟩
  · simp
  · rw [List.length_reverse, List.length_take_of_le (Nat.le_of_lt hk)]
    exact hparse

/-- Where all is there, an effect is declared. -/
theorem exists_moves (h : op.Ready minimal main alt) : ∃ out, Moves minimal op (main, alt) out := by
  by_cases hop : op ∈ [.toAlt, .fromAlt, .pick, .roll]
  · simp only [List.mem_cons, List.not_mem_nil, or_false] at hop
    rcases hop with rfl | rfl | hpoints
    · obtain ⟨x, rest, rfl⟩ := List.exists_cons_of_length_pos h.items
      exact ⟨_, .toAlt x rest alt⟩
    · obtain ⟨x, rest, rfl⟩ := List.exists_cons_of_length_pos (h.other rfl)
      exact ⟨_, .fromAlt x main rest⟩
    · obtain ⟨x, xs, n, below, rfl, hparse⟩ := (h.points hpoints).split
      rcases hpoints with rfl | rfl
      · exact ⟨_, .rewrite below alt (.pick x xs n hparse)⟩
      · exact ⟨_, .rewrite below alt (.roll x xs n hparse)⟩
  · obtain ⟨before, below, rfl, hlength⟩ := Stack.exists_top h.items
    obtain ⟨after, hrewrites⟩ := exists_rewrites (before.reverse ++ below).length hlength hop
    exact ⟨_, .rewrite below alt hrewrites⟩

theorem apply_eq_ok : op.apply minimal main alt = .ok out ↔ Moves minimal op (main, alt) out := by
  constructor
  · intro h
    obtain ⟨out', hmoves⟩ := exists_moves (ready_of_apply h)
    cases h.symm.trans hmoves.apply
    exact hmoves
  · exact Moves.apply

/-! ## States -/

variable {rules : Rules} {script : Bytes} {s s' : State}

theorem eval_of_apply (h : op.apply (rules.has .minimalData) s.stack s.alt = .ok out) :
    (Operation.stack op).eval rules script s = .ret { s with stack := out.1, alt := out.2 } := by
  simp only [Operation.eval, h]
  rfl

theorem eval_of_error {e : MachineError} (h : op.apply (rules.has .minimalData) s.stack s.alt = .error e) :
    (Operation.stack op).eval rules script s = .fail e := by
  simp only [Operation.eval, h]
  rfl

/-- Nothing changes but the two stacks. -/
theorem eval_eq_ret :
    (Operation.stack op).eval rules script s = .ret s' ↔
      ∃ main alt, Moves (rules.has .minimalData) op (s.stack, s.alt) (main, alt) ∧
        s' = { s with stack := main, alt := alt } := by
  constructor
  · intro h
    cases happly : op.apply (rules.has .minimalData) s.stack s.alt with
    | error e =>
      rw [eval_of_error happly] at h
      cases h
    | ok out =>
      rw [eval_of_apply happly] at h
      cases h
      exact ⟨out.1, out.2, apply_eq_ok.mp happly, rfl⟩
  · rintro ⟨main, alt, hmoves, rfl⟩
    exact eval_of_apply hmoves.apply

/-! ## Rows of operations -/

/-- Stack operations one after the other. -/
def run (rules : Rules) (script : Bytes) (ops : List StackOp) (s : State) : Dialogue MachineError State :=
  ops.foldlM (fun s op => (Operation.stack op).eval rules script s) s

/-- What is declared of a row of operations. -/
inductive Course (minimal : Bool) : List StackOp → Stack × Stack → Stack × Stack → Prop
  | nil (a) : Course minimal [] a a
  | cons {op : StackOp} {ops : List StackOp} {a b c : Stack × Stack} (h : Moves minimal op a b)
      (hrest : Course minimal ops b c) : Course minimal (op :: ops) a c

theorem run_of_course {ops : List StackOp} (h : Course (rules.has .minimalData) ops (s.stack, s.alt) out) :
    run rules script ops s = .ret { s with stack := out.1, alt := out.2 } := by
  induction ops generalizing s with
  | nil =>
    cases h
    rfl
  | cons op ops ih =>
    cases h with
    | @cons _ _ _ b _ h hrest =>
      have hfirst : (Operation.stack op).eval rules script s = .ret { s with stack := b.1, alt := b.2 } :=
        eval_of_apply h.apply
      have hlast := ih (s := { s with stack := b.1, alt := b.2 }) hrest
      unfold run at hlast ⊢
      rw [List.foldlM_cons, hfirst]
      exact hlast

/-- By how many items an operation turns those it works on. -/
def turn : StackOp → Nat
  | .swap | .rot => 1
  | .swap2 | .rot2 => 2
  | _ => 0

theorem rewrites_rotate {before : List Bytes} (height : Nat) (hop : op ∈ [.swap, .rot, .swap2, .rot2])
    (hlength : before.length = op.arity) : Rewrites minimal height op before (before.rotate op.turn) := by
  simp only [List.mem_cons, List.not_mem_nil, or_false] at hop
  rcases hop with rfl | rfl | rfl | rfl
  · match before, hlength with
    | [x₁, x₂], _ => exact .swap x₁ x₂
  · match before, hlength with
    | [x₁, x₂, x₃], _ => exact .rot x₁ x₂ x₃
  · match before, hlength with
    | [x₁, x₂, x₃, x₄], _ => exact .swap2 x₁ x₂ x₃ x₄
  · match before, hlength with
    | [x₁, x₂, x₃, x₄, x₅, x₆], _ => exact .rot2 x₁ x₂ x₃ x₄ x₅ x₆

theorem course_rotate (m : Nat) {before : List Bytes} (below alt : Stack) (hop : op ∈ [.swap, .rot, .swap2, .rot2])
    (hlength : before.length = op.arity) :
    Course minimal (List.replicate m op) (before.reverse ++ below, alt)
      ((before.rotate (m * op.turn)).reverse ++ below, alt) := by
  induction m generalizing before with
  | zero =>
    rw [Nat.zero_mul, List.rotate_zero]
    exact .nil _
  | succ m ih =>
    have hrest := ih ((List.length_rotate before op.turn).trans hlength)
    rw [List.rotate_rotate, Nat.add_comm, ← Nat.succ_mul] at hrest
    exact .cons (.rewrite below alt (rewrites_rotate _ hop hlength)) hrest

/-- Once around, every item is back in its place. -/
theorem run_rotate (op : StackOp) (m : Nat) (hop : op ∈ [.swap, .rot, .swap2, .rot2]) (hm : m * op.turn = op.arity)
    (hdepth : op.arity ≤ s.stack.length) : run rules script (List.replicate m op) s = .ret s := by
  obtain ⟨before, below, hstack, hlength⟩ := Stack.exists_top hdepth
  have hcourse : Course (rules.has .minimalData) (List.replicate m op) (before.reverse ++ below, s.alt)
      ((before.rotate (m * op.turn)).reverse ++ below, s.alt) := course_rotate m below s.alt hop hlength
  rw [hm, ← hlength, List.rotate_length, ← hstack] at hcourse
  exact run_of_course hcourse

theorem run_toAlt_fromAlt (hdepth : 1 ≤ s.stack.length) : run rules script [.toAlt, .fromAlt] s = .ret s := by
  obtain ⟨x, rest, hstack⟩ := List.exists_cons_of_length_pos hdepth
  have hcourse : Course (rules.has .minimalData) [.toAlt, .fromAlt] (s.stack, s.alt) (s.stack, s.alt) := by
    rw [hstack]
    exact .cons (.toAlt x rest s.alt) (.cons (.fromAlt x rest s.alt) (.nil _))
  exact run_of_course hcourse

/-- A stack operation asks nothing. It passes exactly if the items are there that it works on, and
    for those that take a position, if the item on top is one; then it leaves what is declared,
    and everything else as it was. What is put on the other stack comes back as it was, and so does
    what is turned around as often as there are places. -/
theorem declared_effect (rules : Rules) (script : Bytes) (s : State) :
    (∀ op : StackOp,
      let result := (Operation.stack op).eval rules script s
      ((∃ s', result = .ret s') ∨ ∃ e, result = .fail e) ∧
      ((∃ s', result = .ret s') ↔
        op.arity ≤ s.stack.length ∧ (op = .fromAlt → 1 ≤ s.alt.length) ∧
          (op = .pick ∨ op = .roll → ∃ top below, s.stack = top :: below ∧ ∃ n : Int,
            Number.parse (rules.has .minimalData) Number.operandSize top = .ok n ∧ 0 ≤ n ∧ n < below.length)) ∧
      ∀ s', result = .ret s' ↔
        ∃ main alt, Moves (rules.has .minimalData) op (s.stack, s.alt) (main, alt) ∧
          s' = { s with stack := main, alt := alt }) ∧
    (1 ≤ s.stack.length → run rules script [.toAlt, .fromAlt] s = .ret s) ∧
    (2 ≤ s.stack.length → run rules script [.swap, .swap] s = .ret s) ∧
    (4 ≤ s.stack.length → run rules script [.swap2, .swap2] s = .ret s) ∧
    (3 ≤ s.stack.length → run rules script [.rot, .rot, .rot] s = .ret s) ∧
    (6 ≤ s.stack.length → run rules script [.rot2, .rot2, .rot2] s = .ret s) := by
  refine ⟨fun op => ⟨?_, ?_, fun s' => eval_eq_ret⟩, run_toAlt_fromAlt, run_rotate .swap 2 (by decide) rfl,
    run_rotate .swap2 2 (by decide) rfl, run_rotate .rot 3 (by decide) rfl, run_rotate .rot2 3 (by decide) rfl⟩
  · cases happly : op.apply (rules.has .minimalData) s.stack s.alt with
    | ok out => exact .inl ⟨_, eval_of_apply happly⟩
    | error e => exact .inr ⟨e, eval_of_error happly⟩
  · constructor
    · rintro ⟨s', h⟩
      obtain ⟨main, alt, hmoves, -⟩ := eval_eq_ret.mp h
      obtain ⟨hitems, hother, hpoints⟩ := ready_of_apply hmoves.apply
      exact ⟨hitems, hother, hpoints⟩
    · rintro ⟨hitems, hother, hpoints⟩
      obtain ⟨out, hmoves⟩ := exists_moves ⟨hitems, hother, hpoints⟩
      exact ⟨_, eval_of_apply hmoves.apply⟩

/-- An operation on six items passes if there are six, and three of them change nothing. The lowest
    of five items is at the fourth position, and there is none at the fifth. -/
theorem declared_effect_least :
    let on (top : Stack) := State.start (top ++ [[5], [4], [3], [2], [1]]) (Context.fresh .base)
    let eval (op : StackOp) := (Operation.stack op).eval Rules.standard []
    run Rules.standard [] [.rot2, .rot2, .rot2] (on [[6]]) = .ret (on [[6]]) ∧
      (¬ ∃ s', eval .rot2 (on []) = .ret s') ∧
      eval .roll (on [[4]]) = .ret { on [] with stack := [[1], [5], [4], [3], [2]] } ∧
      ¬ ∃ s', eval .roll (on [[5]]) = .ret s' := by
  intro on eval
  have heffect := declared_effect Rules.standard []
  refine ⟨(heffect (on [[6]])).2.2.2.2.2 (by decide), ?_, ?_, ?_⟩
  · rw [((heffect (on [])).1 .rot2).2.1]
    rintro ⟨hitems, -⟩
    exact absurd hitems (by decide)
  · refine (((heffect (on [[4]])).1 .roll).2.2 _).mpr ⟨_, [], .rewrite [] [] (.roll [1] [[2], [3], [4], [5]] [4] ?_), rfl⟩
    decide
  · rw [((heffect (on [[5]])).1 .roll).2.1]
    rintro ⟨-, -, hpoints⟩
    obtain ⟨top, below, hstack, n, hparse, -, hlt⟩ := hpoints (.inr rfl)
    cases hstack
    have hfive : Number.parse (Rules.standard.has .minimalData) Number.operandSize [5] = .ok 5 := by decide
    cases hfive.symm.trans hparse
    exact absurd hlt (by decide)

end StackOp

end SpendScript

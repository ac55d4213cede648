/-
  SpendScript.Proofs.Arithmetic — numeric operations compute with integers, exactly.

  What an operation works out from its operands is told for any kind of number
  (`Operation.figure`), and so once for the integers and once for words of 64 bits. Operands
  have four bytes at most, so that the two never differ: no word overflows
  (`Operation.figure_words`), and five bytes are enough for a result (`Operation.items_length_le`).
  - `Stack.unary_iff_leaves` / `Stack.binary_iff_leaves` / `Stack.numEqualVerify_iff_leaves` /
    `Stack.within_iff_leaves`: when an operation of each family passes, and what it leaves
    (`Operation.Leaves`).
  - `Operation.eval_numeric_iff`: the same of all families at once.
  `Operation.numeric_exact` puts them together.
-/

import Mathlib
import SpendScript.Proofs.Limits
import SpendScript.Proofs.Number

namespace SpendScript

/-! ## What operations work out -/

/-- The outcome of a numeric operation. -/
inductive Figure (α : Type) where
  | number (n : α)
  /-- Whether a relation holds. -/
  | truth (b : Bool)
  /-- Whether a relation holds that has to. -/
  | demand (b : Bool)
  deriving DecidableEq

namespace Figure

def map {α β : Type} (f : α → β) : Figure α → Figure β
  | .number n => .number (f n)
  | .truth b => .truth b
  | .demand b => .demand b

/-- The operation does not fail over it. -/
def passes {α : Type} : Figure α → Bool
  | .demand b => b
  | _ => true

/-- What is left on the stack. -/
def items : Figure Int → List Bytes
  | .number n => [Number.encode n]
  | .truth b => [if b then [1] else []]
  | .demand _ => []

end Figure

/-- The operands of a numeric operation; others have none. -/
def Operation.operands : Operation → Nat
  | .unary _ => 1
  | .binary _ | .numEqualVerify => 2
  | .within => 3
  | _ => 0

/-- What a numeric operation works out from its operands, the lowest on the stack first. -/
def Operation.figure {α : Type} [OfNat α 0] [OfNat α 1] [Add α] [Sub α] [Neg α] [LT α] [LE α] [DecidableEq α]
    [DecidableLT α] [DecidableLE α] : Operation → List α → Option (Figure α)
  | .unary .add1, [x] => some (.number (x + 1))
  | .unary .sub1, [x] => some (.number (x - 1))
  | .unary .negate, [x] => some (.number (-x))
  | .unary .abs, [x] => some (.number (if x < 0 then -x else x))
  | .unary .not, [x] => some (.truth (x = 0))
  | .unary .notEqual0, [x] => some (.truth (x ≠ 0))
  | .binary .add, [x, y] => some (.number (x + y))
  | .binary .sub, [x, y] => some (.number (x - y))
  | .binary .boolAnd, [x, y] => some (.truth (x ≠ 0 ∧ y ≠ 0))
  | .binary .boolOr, [x, y] => some (.truth (x ≠ 0 ∨ y ≠ 0))
  | .binary .numEqual, [x, y] => some (.truth (x = y))
  | .binary .numNotEqual, [x, y] => some (.truth (x ≠ y))
  | .binary .lessThan, [x, y] => some (.truth (x < y))
  | .binary .greaterThan, [x, y] => some (.truth (y < x))
  | .binary .lessThanOrEqual, [x, y] => some (.truth (x ≤ y))
  | .binary .greaterThanOrEqual, [x, y] => some (.truth (y ≤ x))
  | .binary .min, [x, y] => some (.number (if x ≤ y then x else y))
  | .binary .max, [x, y] => some (.number (if x ≤ y then y else x))
  | .numEqualVerify, [x, y] => some (.demand (x = y))
  | .within, [x, low, high] => some (.truth (low ≤ x ∧ x < high))
  | _, _ => none

theorem UnaryOp.figure_apply (op : UnaryOp) (x : Int) :
    ∃ f, (Operation.unary op).figure [x] = some f ∧ f.passes = true ∧ f.items = [op.apply x] := by
  cases op with
  | add1 | sub1 | negate => exact ⟨_, rfl, rfl, rfl⟩
  | abs =>
    refine ⟨_, rfl, rfl, ?_⟩
    have habs : (if x < 0 then -x else x) = x.natAbs := by split <;> omega
    simp only [Figure.items, habs, UnaryOp.apply]
  | not | notEqual0 =>
    refine ⟨_, rfl, rfl, ?_⟩
    by_cases hx : x = 0 <;> simp [Figure.items, UnaryOp.apply, Number.ofBool, hx]

theorem BinaryOp.figure_apply (op : BinaryOp) (x y : Int) :
    ∃ f, (Operation.binary op).figure [x, y] = some f ∧ f.passes = true ∧ f.items = [op.apply x y] := by
  cases op with
  | add | sub => exact ⟨_, rfl, rfl, rfl⟩
  | min | max =>
    refine ⟨_, rfl, rfl, ?_⟩
    simp only [Figure.items, BinaryOp.apply, Int.min_def, Int.max_def]
  | _ =>
    refine ⟨_, rfl, rfl, ?_⟩
    simp [Figure.items, BinaryOp.apply, Number.ofBool]

section Length

variable {α : Type} [OfNat α 0] [OfNat α 1] [Add α] [Sub α] [Neg α] [LT α] [LE α] [DecidableEq α]
  [DecidableLT α] [DecidableLE α]

theorem Operation.length_of_figure {op : Operation} {xs : List α} {f : Figure α} (h : op.figure xs = some f) :
    xs.length = op.operands := by
  unfold Operation.figure at h
  split at h
  all_goals cases h
  all_goals rfl

theorem Operation.figure_eq_none {op : Operation} {xs : List α} (h : xs.length ≠ op.operands) : op.figure xs = none := by
  cases hf : op.figure xs with
  | none => rfl
  | some f => exact absurd (Operation.length_of_figure hf) h

end Length

/-! ## Words -/

namespace Figure

/-- The range of operands, and of what is worked out from them. -/
def Small (x : Int) : Prop := x.natAbs < 2 ^ 32

variable {x y : Int64}

theorem toInt_add (hx : Small x.toInt) (hy : Small y.toInt) : (x + y).toInt = x.toInt + y.toInt := by
  unfold Small at hx hy
  rw [Int64.toInt_add]
  exact Int.bmod_eq_of_le (by omega) (by omega)

theorem toInt_sub (hx : Small x.toInt) (hy : Small y.toInt) : (x - y).toInt = x.toInt - y.toInt := by
  unfold Small at hx hy
  rw [Int64.toInt_sub]
  exact Int.bmod_eq_of_le (by omega) (by omega)

theorem toInt_neg (hx : Small x.toInt) : (-x).toInt = -x.toInt := by
  unfold Small at hx
  rw [Int64.toInt_neg]
  exact Int.bmod_eq_of_le (by omega) (by omega)

theorem toInt_ofInt {n : Int} (hn : Small n) : (Int64.ofInt n).toInt = n := by
  unfold Small at hn
  exact Int64.toInt_ofInt_of_le (by omega) (by omega)

end Figure

theorem UnaryOp.figure_words (op : UnaryOp) {x : Int64} (hx : Figure.Small x.toInt) :
    ((Operation.unary op).figure [x]).map (Figure.map Int64.toInt) = (Operation.unary op).figure [x.toInt] := by
  have hone : Figure.Small (1 : Int64).toInt := by
    show (1 : Int64).toInt.natAbs < 2 ^ 32
    decide
  cases op with
  | add1 => simp [Operation.figure, Figure.map, Figure.toInt_add hx hone]
  | sub1 => simp [Operation.figure, Figure.map, Figure.toInt_sub hx hone]
  | negate => simp [Operation.figure, Figure.map, Figure.toInt_neg hx]
  | abs => simp [Operation.figure, Figure.map, Int64.lt_iff_toInt_lt, apply_ite Int64.toInt, Figure.toInt_neg hx]
  | not | notEqual0 => simp [Operation.figure, Figure.map, ← Int64.toInt_inj]

theorem BinaryOp.figure_words (op : BinaryOp) {x y : Int64} (hx : Figure.Small x.toInt) (hy : Figure.Small y.toInt) :
    ((Operation.binary op).figure [x, y]).map (Figure.map Int64.toInt) =
      (Operation.binary op).figure [x.toInt, y.toInt] := by
  cases op with
  | add => simp [Operation.figure, Figure.map, Figure.toInt_add hx hy]
  | sub => simp [Operation.figure, Figure.map, Figure.toInt_sub hx hy]
  | min | max => simp [Operation.figure, Figure.map, Int64.le_iff_toInt_le, apply_ite Int64.toInt]
  | lessThan | greaterThan => simp [Operation.figure, Figure.map, Int64.lt_iff_toInt_lt]
  | lessThanOrEqual | greaterThanOrEqual => simp [Operation.figure, Figure.map, Int64.le_iff_toInt_le]
  | boolAnd | boolOr | numEqual | numNotEqual => simp [Operation.figure, Figure.map, ← Int64.toInt_inj]

/-- To compute in words is to compute in integers: nothing overflows. -/
theorem Operation.figure_words (op : Operation) {xs : List Int64} (h : ∀ x ∈ xs, Figure.Small x.toInt) :
    (op.figure xs).map (Figure.map Int64.toInt) = op.figure (xs.map Int64.toInt) := by
  by_cases hl : xs.length = op.operands
  · cases op with
    | unary op =>
      obtain ⟨x, rfl⟩ := List.length_eq_one_iff.mp hl
      exact op.figure_words (h x List.mem_cons_self)
    | binary op =>
      obtain ⟨x, y, rfl⟩ := List.length_eq_two.mp hl
      exact op.figure_words (h x (by simp)) (h y (by simp))
    | numEqualVerify =>
      obtain ⟨x, y, rfl⟩ := List.length_eq_two.mp hl
      simp [Operation.figure, Figure.map, ← Int64.toInt_inj]
    | within =>
      obtain ⟨x, low, high, rfl⟩ := List.length_eq_three.mp hl
      simp [Operation.figure, Figure.map, Int64.lt_iff_toInt_lt, Int64.le_iff_toInt_le]
    | _ =>
      cases List.length_eq_zero_iff.mp hl
      rfl
  · rw [Operation.figure_eq_none hl, Operation.figure_eq_none (by rw [List.length_map]; exact hl)]
    rfl

/-! ## Sizes -/

theorem Operation.natAbs_of_figure {op : Operation} {xs : List Int} (h : ∀ x ∈ xs, Figure.Small x) {n : Int}
    (hf : op.figure xs = some (.number n)) : n.natAbs < 2 ^ 39 := by
  unfold Operation.figure at hf
  split at hf
  all_goals cases hf
  all_goals simp only [List.forall_mem_cons, Figure.Small] at h
  all_goals omega

theorem Operation.items_length_le {op : Operation} {xs : List Int} (h : ∀ x ∈ xs, Figure.Small x) {f : Figure Int}
    (hf : op.figure xs = some f) {item : Bytes} (hitem : item ∈ f.items) : item.length ≤ 5 := by
  cases f with
  | number n =>
    rw [List.mem_singleton.mp hitem]
    exact Number.encode_length_le (Operation.natAbs_of_figure h hf)
  | truth b =>
    rw [List.mem_singleton.mp hitem]
    cases b <;> decide
  | demand b => cases hitem

/-! ## Operands on the stack -/

/-- An item that is taken for a number: four bytes at most, and the shortest form of what it
    spells where numbers have to be minimal. -/
def Number.IsOperand (minimal : Bool) (x : Bytes) : Prop :=
  x.length ≤ 4 ∧ (minimal = true → encode (signMagnitude x) = x)

/-- The shortest form of a number of 31 bits is an operand under all rules. -/
theorem Number.isOperand_encode {minimal : Bool} {n : Int} (h : n.natAbs < 2 ^ 31) : IsOperand minimal (encode n) := by
  refine ⟨encode_length_le (k := 4) h, ?_⟩
  intro _
  rw [signMagnitude_encode]

theorem Number.small_of_isOperand {minimal : Bool} {x : Bytes} (h : IsOperand minimal x) :
    Figure.Small (signMagnitude x) := by
  unfold Figure.Small
  calc (signMagnitude x).natAbs
    _ = (value x).natAbs := by rw [value_eq_signMagnitude]
    _ < 256 ^ x.length := natAbs_value_lt x
    _ ≤ 256 ^ 4 := Nat.pow_le_pow_right (by decide) h.1
    _ = 2 ^ 32 := by decide

namespace Stack

variable {minimal : Bool} {stack out : Stack}

theorem number_iff_isOperand {x : Bytes} {n : Int} :
    number minimal Number.operandSize x = .ok n ↔ Number.IsOperand minimal x ∧ n = Number.signMagnitude x := by
  unfold number Number.IsOperand
  have hminimal : Number.isMinimal x = true ↔ Number.encode (Number.signMagnitude x) = x := by
    constructor
    · exact Number.encode_of_isMinimal
    · intro h
      rw [← h]
      exact Number.isMinimal_encode _
  rw [mapError_eq_ok, Number.parse_eq_ok, hminimal, ← and_assoc, @eq_comm _ n]
  rfl

theorem require_eq_ok {b : Bool} : require b = .ok () ↔ b = true := by
  cases b <;> simp [require]

theorem popNumber_iff_isOperand {x : Int} :
    stack.popNumber minimal = .ok (x, out) ↔
      ∃ a, stack = a :: out ∧ Number.IsOperand minimal a ∧ x = Number.signMagnitude a := by
  constructor
  · intro h
    obtain ⟨a, rfl, hx⟩ := popNumber_eq_ok h
    exact ⟨a, rfl, number_iff_isOperand.mp hx⟩
  · rintro ⟨a, rfl, hx⟩
    exact bind_eq_ok.mpr ⟨(a, out), rfl, bind_eq_ok.mpr ⟨x, number_iff_isOperand.mpr hx, rfl⟩⟩

theorem popPair_iff_isOperand {x y : Int} :
    stack.popPair minimal = .ok (x, y, out) ↔
      ∃ a b, stack = b :: a :: out ∧ (Number.IsOperand minimal b ∧ y = Number.signMagnitude b) ∧
        Number.IsOperand minimal a ∧ x = Number.signMagnitude a := by
  constructor
  · intro h
    obtain ⟨⟨b, below⟩, hb, h⟩ := bind_eq_ok.mp h
    obtain ⟨⟨a, rest⟩, ha, h⟩ := bind_eq_ok.mp h
    obtain ⟨y', hy, h⟩ := bind_eq_ok.mp h
    obtain ⟨x', hx, h⟩ := bind_eq_ok.mp h
    cases h
    exact ⟨a, b, by rw [pop_eq_ok.mp hb, pop_eq_ok.mp ha], number_iff_isOperand.mp hy, number_iff_isOperand.mp hx⟩
  · rintro ⟨a, b, rfl, hy, hx⟩
    refine bind_eq_ok.mpr ⟨(b, a :: out), rfl, bind_eq_ok.mpr ⟨(a, out), rfl, ?_⟩⟩
    exact bind_eq_ok.mpr
      ⟨y, number_iff_isOperand.mpr hy, bind_eq_ok.mpr ⟨x, number_iff_isOperand.mpr hx, rfl⟩⟩

theorem unary_eq_ok {op : UnaryOp} :
    stack.unary minimal op = .ok out ↔
      ∃ a rest, stack = a :: rest ∧ Number.IsOperand minimal a ∧ out = op.apply (Number.signMagnitude a) :: rest := by
  constructor
  · intro h
    obtain ⟨⟨x, rest⟩, hx, h⟩ := bind_eq_ok.mp h
    cases h
    obtain ⟨a, rfl, ha, rfl⟩ := popNumber_iff_isOperand.mp hx
    exact ⟨a, rest, rfl, ha, rfl⟩
  · rintro ⟨a, rest, rfl, ha, rfl⟩
    exact bind_eq_ok.mpr ⟨(_, rest), popNumber_iff_isOperand.mpr ⟨a, rfl, ha, rfl⟩, rfl⟩

theorem binary_eq_ok {op : BinaryOp} :
    stack.binary minimal op = .ok out ↔
      ∃ a b rest, stack = b :: a :: rest ∧ Number.IsOperand minimal b ∧ Number.IsOperand minimal a ∧
        out = op.apply (Number.signMagnitude a) (Number.signMagnitude b) :: rest := by
  constructor
  · intro h
    obtain ⟨⟨x, y, rest⟩, hxy, h⟩ := bind_eq_ok.mp h
    cases h
    obtain ⟨a, b, rfl, ⟨hb, rfl⟩, ha, rfl⟩ := popPair_iff_isOperand.mp hxy
    exact ⟨a, b, rest, rfl, hb, ha, rfl⟩
  · rintro ⟨a, b, rest, rfl, hb, ha, rfl⟩
    exact bind_eq_ok.mpr ⟨(_, _, rest), popPair_iff_isOperand.mpr ⟨a, b, rfl, ⟨hb, rfl⟩, ha, rfl⟩, rfl⟩

theorem numEqualVerify_eq_ok :
    stack.numEqualVerify minimal = .ok out ↔
      ∃ a b, stack = b :: a :: out ∧ Number.IsOperand minimal b ∧ Number.IsOperand minimal a ∧
        Number.signMagnitude a = Number.signMagnitude b := by
  constructor
  · intro h
    obtain ⟨⟨x, y, rest⟩, hxy, h⟩ := bind_eq_ok.mp h
    obtain ⟨_, hequal, h⟩ := bind_eq_ok.mp h
    cases h
    obtain ⟨a, b, rfl, ⟨hb, rfl⟩, ha, rfl⟩ := popPair_iff_isOperand.mp hxy
    exact ⟨a, b, rfl, hb, ha, by simpa using require_eq_ok.mp hequal⟩
  · rintro ⟨a, b, rfl, hb, ha, hequal⟩
    refine bind_eq_ok.mpr ⟨(_, _, out), popPair_iff_isOperand.mpr ⟨a, b, rfl, ⟨hb, rfl⟩, ha, rfl⟩, ?_⟩
    exact bind_eq_ok.mpr ⟨(), require_eq_ok.mpr (by simpa using hequal), rfl⟩

theorem within_cons (high low a : Bytes) (rest : Stack) :
    within minimal (high :: low :: a :: rest) = (do
      let x ← number minimal Number.operandSize a
      let l ← number minimal Number.operandSize low
      let h ← number minimal Number.operandSize high
      return Number.ofBool (l ≤ x && x < h) :: rest) := rfl

theorem within_eq_ok :
    stack.within minimal = .ok out ↔
      ∃ a low high rest, stack = high :: low :: a :: rest ∧ Number.IsOperand minimal high ∧
        Number.IsOperand minimal low ∧ Number.IsOperand minimal a ∧
        out = Number.ofBool (Number.signMagnitude low ≤ Number.signMagnitude a &&
          Number.signMagnitude a < Number.signMagnitude high) :: rest := by
  constructor
  · intro h
    obtain ⟨_, hneed, -⟩ := bind_eq_ok.mp h
    obtain ⟨high, low, a, rest, rfl⟩ : ∃ high low a rest, stack = high :: low :: a :: rest := by
      match stack, need_eq_ok hneed with
      | high :: low :: a :: rest, _ => exact ⟨high, low, a, rest, rfl⟩
    rw [within_cons] at h
    obtain ⟨x, hx, h⟩ := bind_eq_ok.mp h
    obtain ⟨l, hl, h⟩ := bind_eq_ok.mp h
    obtain ⟨u, hu, h⟩ := bind_eq_ok.mp h
    cases h
    obtain ⟨ha, rfl⟩ := number_iff_isOperand.mp hx
    obtain ⟨hlow, rfl⟩ := number_iff_isOperand.mp hl
    obtain ⟨hhigh, rfl⟩ := number_iff_isOperand.mp hu
    exact ⟨a, low, high, rest, rfl, hhigh, hlow, ha, rfl⟩
  · rintro ⟨a, low, high, rest, rfl, hhigh, hlow, ha, rfl⟩
    rw [within_cons]
    refine bind_eq_ok.mpr ⟨_, number_iff_isOperand.mpr ⟨ha, rfl⟩, ?_⟩
    refine bind_eq_ok.mpr ⟨_, number_iff_isOperand.mpr ⟨hlow, rfl⟩, ?_⟩
    exact bind_eq_ok.mpr ⟨_, number_iff_isOperand.mpr ⟨hhigh, rfl⟩, rfl⟩

end Stack

/-! ## Operations -/

/-- What the items on top spell, the lowest first. -/
def Stack.values (taken : List Bytes) : List Int := (taken.map Number.signMagnitude).reverse

/-- A numeric operation takes numbers off the stack and leaves what it works out from them. -/
def Operation.Leaves (minimal : Bool) (op : Operation) (stack out : Stack) : Prop :=
  ∃ taken rest f, stack = taken ++ rest ∧ (∀ x ∈ taken, Number.IsOperand minimal x) ∧
    op.figure (Stack.values taken) = some f ∧ f.passes = true ∧ out = f.items ++ rest

theorem Operation.length_of_figure_values {op : Operation} {taken : List Bytes} {f : Figure Int}
    (h : op.figure (Stack.values taken) = some f) : taken.length = op.operands := by
  rw [← Operation.length_of_figure h, Stack.values, List.length_reverse, List.length_map]

/-- As many items are taken as there are operands, and the others are left. -/
theorem Operation.leaves_iff_take {minimal : Bool} {op : Operation} {stack out : Stack} :
    op.Leaves minimal stack out ↔
      op.operands ≤ stack.length ∧ (∀ x ∈ stack.take op.operands, Number.IsOperand minimal x) ∧
        ∃ f, op.figure (Stack.values (stack.take op.operands)) = some f ∧ f.passes = true ∧
          out = f.items ++ stack.drop op.operands := by
  constructor
  · rintro ⟨taken, rest, f, rfl, htaken, hf, hpasses, rfl⟩
    have hlength := Operation.length_of_figure_values hf
    rw [List.take_left' hlength, List.drop_left' hlength, List.length_append]
    exact ⟨by omega, htaken, f, hf, hpasses, rfl⟩
  · rintro ⟨-, htaken, f, hf, hpasses, rfl⟩
    exact ⟨_, _, f, (List.take_append_drop _ _).symm, htaken, hf, hpasses, rfl⟩

/-- With so many operands there is something to work out, and only an equality that is demanded
    can fail. -/
theorem Operation.exists_figure {op : Operation} (hop : 0 < op.operands) {xs : List Int}
    (h : xs.length = op.operands) :
    ∃ f, op.figure xs = some f ∧ (f.passes = true ↔ (op = .numEqualVerify → ∃ n, xs = [n, n])) := by
  cases op with
  | unary op =>
    obtain ⟨x, rfl⟩ := List.length_eq_one_iff.mp h
    obtain ⟨f, hf, hpasses, -⟩ := op.figure_apply x
    exact ⟨f, hf, iff_of_true hpasses nofun⟩
  | binary op =>
    obtain ⟨x, y, rfl⟩ := List.length_eq_two.mp h
    obtain ⟨f, hf, hpasses, -⟩ := op.figure_apply x y
    exact ⟨f, hf, iff_of_true hpasses nofun⟩
  | numEqualVerify =>
    obtain ⟨x, y, rfl⟩ := List.length_eq_two.mp h
    refine ⟨_, rfl, ?_⟩
    show decide (x = y) = true ↔ _
    simp [eq_comm]
  | within =>
    obtain ⟨x, low, high, rfl⟩ := List.length_eq_three.mp h
    exact ⟨_, rfl, iff_of_true rfl nofun⟩
  | _ => cases hop

section Families

variable {minimal : Bool} {stack out : Stack}

theorem Stack.unary_iff_leaves {op : UnaryOp} :
    stack.unary minimal op = .ok out ↔ (Operation.unary op).Leaves minimal stack out := by
  rw [Stack.unary_eq_ok]
  constructor
  · rintro ⟨a, rest, rfl, ha, rfl⟩
    obtain ⟨f, hf, hpasses, hitems⟩ := op.figure_apply (Number.signMagnitude a)
    exact ⟨[a], rest, f, rfl, by simpa using ha, hf, hpasses, by rw [hitems]; rfl⟩
  · rintro ⟨taken, rest, f, rfl, htaken, hf, -, rfl⟩
    obtain ⟨a, rfl⟩ := List.length_eq_one_iff.mp (Operation.length_of_figure_values hf)
    obtain ⟨f', hf', -, hitems⟩ := op.figure_apply (Number.signMagnitude a)
    cases hf.symm.trans hf'
    exact ⟨a, rest, rfl, by simpa using htaken, by rw [hitems]; rfl⟩

theorem Stack.binary_iff_leaves {op : BinaryOp} :
    stack.binary minimal op = .ok out ↔ (Operation.binary op).Leaves minimal stack out := by
  rw [Stack.binary_eq_ok]
  constructor
  · rintro ⟨a, b, rest, rfl, hb, ha, rfl⟩
    obtain ⟨f, hf, hpasses, hitems⟩ := op.figure_apply (Number.signMagnitude a) (Number.signMagnitude b)
    exact ⟨[b, a], rest, f, rfl, by simpa using ⟨hb, ha⟩, hf, hpasses, by rw [hitems]; rfl⟩
  · rintro ⟨taken, rest, f, rfl, htaken, hf, -, rfl⟩
    obtain ⟨b, a, rfl⟩ := List.length_eq_two.mp (Operation.length_of_figure_values hf)
    obtain ⟨f', hf', -, hitems⟩ := op.figure_apply (Number.signMagnitude a) (Number.signMagnitude b)
    cases hf.symm.trans hf'
    obtain ⟨hb, ha⟩ : Number.IsOperand minimal b ∧ Number.IsOperand minimal a := by simpa using htaken
    exact ⟨a, b, rest, rfl, hb, ha, by rw [hitems]; rfl⟩

theorem Stack.numEqualVerify_iff_leaves :
    stack.numEqualVerify minimal = .ok out ↔ Operation.numEqualVerify.Leaves minimal stack out := by
  rw [Stack.numEqualVerify_eq_ok]
  constructor
  · rintro ⟨a, b, rfl, hb, ha, hequal⟩
    exact ⟨[b, a], out, _, rfl, by simpa using ⟨hb, ha⟩, rfl, decide_eq_true hequal, rfl⟩
  · rintro ⟨taken, rest, f, rfl, htaken, hf, hpasses, rfl⟩
    obtain ⟨b, a, rfl⟩ := List.length_eq_two.mp (Operation.length_of_figure_values hf)
    cases hf
    obtain ⟨hb, ha⟩ : Number.IsOperand minimal b ∧ Number.IsOperand minimal a := by simpa using htaken
    exact ⟨a, b, rfl, hb, ha, of_decide_eq_true hpasses⟩

theorem Stack.within_iff_leaves :
    stack.within minimal = .ok out ↔ Operation.within.Leaves minimal stack out := by
  have hitems (x low high : Int) :
      (Figure.truth (low ≤ x ∧ x < high)).items = [Number.ofBool (low ≤ x && x < high)] := by
    simp [Figure.items, Number.ofBool]
  rw [Stack.within_eq_ok]
  constructor
  · rintro ⟨a, low, high, rest, rfl, hhigh, hlow, ha, rfl⟩
    exact ⟨[high, low, a], rest, _, rfl, by simpa using ⟨hhigh, hlow, ha⟩, rfl, rfl, by rw [hitems]; rfl⟩
  · rintro ⟨taken, rest, f, rfl, htaken, hf, -, rfl⟩
    obtain ⟨high, low, a, rfl⟩ := List.length_eq_three.mp (Operation.length_of_figure_values hf)
    cases hf
    obtain ⟨hhigh, hlow, ha⟩ : Number.IsOperand minimal high ∧ Number.IsOperand minimal low ∧
        Number.IsOperand minimal a := by simpa using htaken
    exact ⟨a, low, high, rest, rfl, hhigh, hlow, ha, by rw [hitems]; rfl⟩

end Families

section Operations

variable {rules : Rules} {script : Bytes} {s s' : State} {op : Operation}

theorem State.lift_onStack_eq_ret {f : Stack → Except MachineError Stack} :
    (Dialogue.lift (s.onStack f) : Dialogue MachineError State) = .ret s' ↔
      ∃ stack, f s.stack = .ok stack ∧ s' = { s with stack := stack } := by
  unfold State.onStack
  cases f s.stack with
  | error e => simp [Dialogue.lift, bind, Except.bind]
  | ok stack => simp [Dialogue.lift, bind, Except.bind, pure, Except.pure, eq_comm]

/-- All families at once; nothing but the stack changes. -/
theorem Operation.eval_numeric_iff (hop : 0 < op.operands) :
    op.eval rules script s = .ret s' ↔
      ∃ stack, op.Leaves (rules.has .minimalData) s.stack stack ∧ s' = { s with stack := stack } := by
  cases op with
  | unary op => simp only [← Stack.unary_iff_leaves]; exact State.lift_onStack_eq_ret
  | binary op => simp only [← Stack.binary_iff_leaves]; exact State.lift_onStack_eq_ret
  | numEqualVerify => simp only [← Stack.numEqualVerify_iff_leaves]; exact State.lift_onStack_eq_ret
  | within => simp only [← Stack.within_iff_leaves]; exact State.lift_onStack_eq_ret
  | _ => cases hop

/-- A numeric operation asks nothing. -/
theorem Operation.eval_numeric_lift (hop : 0 < op.operands) :
    ∃ x : Except MachineError State, op.eval rules script s = Dialogue.lift x := by
  cases op with
  | unary | binary | numEqualVerify | within => exact ⟨_, rfl⟩
  | _ => cases hop

theorem Operation.figure_of_words {xs : List Int} (h : ∀ x ∈ xs, Figure.Small x) :
    (op.figure (xs.map Int64.ofInt)).map (Figure.map Int64.toInt) = op.figure xs := by
  have hread : (xs.map Int64.ofInt).map Int64.toInt = xs := by
    rw [List.map_map]
    exact (List.map_congr_left fun x hx => Figure.toInt_ofInt (h x hx)).trans (List.map_id xs)
  rw [Operation.figure_words, hread]
  rw [← hread] at h
  exact List.forall_mem_map.mp h

/-- Numeric operations are exact. Each passes exactly if its operands are there, have at most four
    bytes and, where numbers have to be minimal, the shortest form; the one that verifies also
    needs them to be equal. It then leaves what arithmetic on the integers gives, in at most five
    bytes, and everything else as it was; 64 bits are enough for that. To be other than zero
    is to be true. -/
theorem Operation.numeric_exact (rules : Rules) (script : Bytes) (s : State) (op : Operation)
    (hop : 0 < op.operands) :
    let taken := s.stack.take op.operands
    let values := Stack.values taken
    ((∃ s', op.eval rules script s = .ret s') ∨ ∃ e, op.eval rules script s = .fail e) ∧
    ((∃ s', op.eval rules script s = .ret s') ↔
      op.operands ≤ s.stack.length ∧
      (∀ x ∈ taken, x.length ≤ 4 ∧
        (rules.has .minimalData = true → Number.encode (Number.signMagnitude x) = x)) ∧
      (op = .numEqualVerify → ∃ n, values = [n, n])) ∧
    ∀ s', op.eval rules script s = .ret s' →
      ∃ f, op.figure values = some f ∧ s' = { s with stack := f.items ++ s.stack.drop op.operands } ∧
        (∀ item ∈ f.items, item.length ≤ 5) ∧
        (op.figure (values.map Int64.ofInt)).map (Figure.map Int64.toInt) = some f ∧
        (op = .unary .notEqual0 → ∃ x, taken = [x] ∧ f.items = [if Number.truthy x then [1] else []]) := by
  intro taken values
  have hvalues : op.operands ≤ s.stack.length → values.length = op.operands := by
    intro hle
    show (Stack.values taken).length = _
    rw [Stack.values, List.length_reverse, List.length_map, List.length_take_of_le hle]
  refine ⟨?_, ?_, ?_⟩
  · obtain ⟨x, hx⟩ : ∃ x, op.eval rules script s = Dialogue.lift x := op.eval_numeric_lift hop
    rw [hx]
    cases x with
    | ok s' => exact Or.inl ⟨s', rfl⟩
    | error e => exact Or.inr ⟨e, rfl⟩
  · simp only [Operation.eval_numeric_iff hop, Operation.leaves_iff_take]
    constructor
    · rintro ⟨_, stack, ⟨hle, htaken, f, hf, hpasses, -⟩, -⟩
      obtain ⟨f', hf', hequal⟩ := Operation.exists_figure hop (hvalues hle)
      cases hf.symm.trans hf'
      exact ⟨hle, htaken, hequal.mp hpasses⟩
    · rintro ⟨hle, htaken, hequal⟩
      obtain ⟨f, hf, hpasses⟩ := Operation.exists_figure hop (hvalues hle)
      exact ⟨_, _, ⟨hle, htaken, f, hf, hpasses.mpr hequal, rfl⟩, rfl⟩
  · intro s' hs
    obtain ⟨stack, hleaves, rfl⟩ := (Operation.eval_numeric_iff hop).mp hs
    obtain ⟨hle, htaken, f, hf, -, rfl⟩ := Operation.leaves_iff_take.mp hleaves
    have hsmall : ∀ n ∈ values, Figure.Small n := by
      intro n hn
      obtain ⟨x, hx, rfl⟩ := List.mem_map.mp (List.mem_reverse.mp hn)
      exact Number.small_of_isOperand (htaken x hx)
    refine ⟨f, hf, rfl, fun item => Operation.items_length_le hsmall hf,
      (Operation.figure_of_words hsmall).trans hf, ?_⟩
    rintro rfl
    obtain ⟨x, hx⟩ := List.length_eq_one_iff.mp (List.length_take_of_le hle)
    have hvalue : values = [Number.signMagnitude x] := congrArg Stack.values hx
    have hf : (Operation.unary .notEqual0).figure [Number.signMagnitude x] = some f := hvalue ▸ hf
    cases hf
    refine ⟨x, hx, ?_⟩
    simp [Figure.items, Number.truthy_iff_signMagnitude]

/-- The sum of the two largest operands takes a fifth byte. -/
theorem Operation.numeric_exact_sum :
    let largest : Bytes := [0xff, 0xff, 0xff, 0x7f]
    let s := State.start [largest, largest, [7]] (Context.fresh .base)
    0 < (Operation.binary .add).operands ∧
      (Operation.binary .add).eval (Rules.standard) [] s =
        .ret { s with stack := [[0xfe, 0xff, 0xff, 0xff, 0x00], [7]] } := by
  intro largest s
  obtain ⟨-, hpasses, hleaves⟩ :=
    Operation.numeric_exact (Rules.standard) [] s (.binary .add) (by decide)
  obtain ⟨s', hs⟩ := hpasses.mpr ⟨by decide, by decide, nofun⟩
  obtain ⟨f, hf, rfl, -⟩ := hleaves s' hs
  cases hf
  refine ⟨by decide, hs.trans ?_⟩
  have hitems : (Figure.number (Number.signMagnitude largest + Number.signMagnitude largest)).items =
      [[0xfe, 0xff, 0xff, 0xff, 0x00]] := by decide
  exact congrArg (fun items => Dialogue.ret { s with stack := items ++ [[7]] }) hitems

end Operations

end SpendScript

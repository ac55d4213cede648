/-
  SpendScript.Machine.Stack — stacks, and the operations that only look at them.

  A stack is a list with its top in front, and positions count from the top. An access that
  the stack is too short for fails with the position and the number of items. Each family
  of operations has one function here: `StackOp.apply` on both stacks, `UnaryOp.apply` and
  `BinaryOp.apply` on numbers.
-/

import SpendScript.Hash
import SpendScript.Machine.Error
import SpendScript.Opcode.Operation

namespace SpendScript

abbrev Stack := List Bytes

namespace Stack

/-- There are at least `n` items. -/
def need (n : Nat) (s : Stack) : Except MachineError Unit :=
  if n ≤ s.length then .ok () else .error (.stackOperation (some (n - 1, s.length)))

def get (i : Nat) (s : Stack) : Except MachineError Bytes :=
  match s[i]? with
  | some x => .ok x
  | none => .error (.stackOperation (some (i, s.length)))

def pop : Stack → Except MachineError (Bytes × Stack)
  | [] => .error (.stackOperation (some (0, 0)))
  | x :: s => .ok (x, s)

/-- The item at `i`, copied to the top. -/
def copyToTop (i : Nat) (s : Stack) : Except MachineError Stack := do
  let x ← s.get i
  return x :: s

/-- The item at `i`, moved to the top. -/
def moveToTop (i : Nat) (s : Stack) : Except MachineError Stack := do
  let x ← s.get i
  return x :: s.eraseIdx i

/-- The item at `i` taken out. -/
def remove (i : Nat) (s : Stack) : Except MachineError Stack := do
  let _ ← s.get i
  return s.eraseIdx i

/-- A copy of the top below the second item. -/
def tuck (s : Stack) : Except MachineError Stack := do
  let x ← s.get 0
  let y ← s.get 1
  return x :: y :: x :: s.drop 2

/-- The number that an item spells, as an operand. -/
def number (minimal : Bool) (maxSize : Nat) (item : Bytes) : Except MachineError Int :=
  (Number.parse minimal maxSize item).mapError .number

/-- The number on top, taken off. -/
def popNumber (minimal : Bool) (s : Stack) : Except MachineError (Int × Stack) := do
  let (x, s) ← s.pop
  let n ← number minimal Number.operandSize x
  return (n, s)

/-- The position on top, taken off; there has to be an item below it. -/
def popPosition (minimal : Bool) (s : Stack) : Except MachineError (Nat × Stack) := do
  s.need 2
  let (n, s) ← s.popNumber minimal
  if n < 0 then throw (.stackOperation none)
  return (n.toNat, s)

end Stack

def require (b : Bool) : Except MachineError Unit := if b then .ok () else .error .verify

/-! ## Moving items -/

/-- The two stacks after an operation. Positions on the stack are numbers, which have to be
    in their shortest form if `minimal` says so. -/
def StackOp.apply (minimal : Bool) (s alt : Stack) : StackOp → Except MachineError (Stack × Stack)
  | .toAlt => do
    let (x, s) ← s.pop
    return (s, x :: alt)
  | .fromAlt => do
    let (x, alt) ← alt.pop
    return (x :: s, alt)
  | .drop2 => do
    let (_, s) ← s.pop
    let (_, s) ← s.pop
    return (s, alt)
  | .dup2 => do
    let s ← s.copyToTop 1
    let s ← s.copyToTop 1
    return (s, alt)
  | .dup3 => do
    let s ← s.copyToTop 2
    let s ← s.copyToTop 2
    let s ← s.copyToTop 2
    return (s, alt)
  | .over2 => do
    let s ← s.copyToTop 3
    let s ← s.copyToTop 3
    return (s, alt)
  | .rot2 => do
    let s ← s.moveToTop 5
    let s ← s.moveToTop 5
    return (s, alt)
  | .swap2 => do
    let s ← s.moveToTop 3
    let s ← s.moveToTop 3
    return (s, alt)
  | .ifDup => do
    let x ← s.get 0
    return (if Number.truthy x then x :: s else s, alt)
  | .depth => .ok (Number.encode s.length :: s, alt)
  | .drop => do
    let (_, s) ← s.pop
    return (s, alt)
  | .dup => do
    let s ← s.copyToTop 0
    return (s, alt)
  | .nip => do
    let s ← s.remove 1
    return (s, alt)
  | .over => do
    let s ← s.copyToTop 1
    return (s, alt)
  | .pick => do
    let (n, s) ← s.popPosition minimal
    let s ← s.copyToTop n
    return (s, alt)
  | .roll => do
    let (n, s) ← s.popPosition minimal
    let s ← s.moveToTop n
    return (s, alt)
  | .rot => do
    let s ← s.moveToTop 2
    return (s, alt)
  | .swap => do
    let s ← s.moveToTop 1
    return (s, alt)
  | .tuck => do
    let s ← s.tuck
    return (s, alt)
  | .size => do
    let x ← s.get 0
    return (Number.encode x.length :: s, alt)

/-! ## Numbers -/

def UnaryOp.apply (x : Int) : UnaryOp → Bytes
  | .add1 => Number.encode (x + 1)
  | .sub1 => Number.encode (x - 1)
  | .negate => Number.encode (-x)
  | .abs => Number.encode x.natAbs
  | .not => Number.ofBool (x == 0)
  | .notEqual0 => Number.ofBool (x != 0)

/-- `y` is the item on top. -/
def BinaryOp.apply (x y : Int) : BinaryOp → Bytes
  | .add => Number.encode (x + y)
  | .sub => Number.encode (x - y)
  | .boolAnd => Number.ofBool (x != 0 && y != 0)
  | .boolOr => Number.ofBool (x != 0 || y != 0)
  | .numEqual => Number.ofBool (x == y)
  | .numNotEqual => Number.ofBool (x != y)
  | .lessThan => Number.ofBool (x < y)
  | .greaterThan => Number.ofBool (y < x)
  | .lessThanOrEqual => Number.ofBool (x ≤ y)
  | .greaterThanOrEqual => Number.ofBool (y ≤ x)
  | .min => Number.encode (Min.min x y)
  | .max => Number.encode (Max.max x y)

namespace Stack

def unary (minimal : Bool) (op : UnaryOp) (s : Stack) : Except MachineError Stack := do
  let (x, s) ← s.popNumber minimal
  return op.apply x :: s

/-- The two numbers on top, the upper one second. The upper one is read first. -/
def popPair (minimal : Bool) (s : Stack) : Except MachineError (Int × Int × Stack) := do
  let (b, s) ← s.pop
  let (a, s) ← s.pop
  let y ← number minimal Number.operandSize b
  let x ← number minimal Number.operandSize a
  return (x, y, s)

def binary (minimal : Bool) (op : BinaryOp) (s : Stack) : Except MachineError Stack := do
  let (x, y, s) ← s.popPair minimal
  return op.apply x y :: s

def numEqualVerify (minimal : Bool) (s : Stack) : Except MachineError Stack := do
  let (x, y, s) ← s.popPair minimal
  require (x == y)
  return s

/-- Whether the third number lies between the second and the top, the top excluded. -/
def within (minimal : Bool) (s : Stack) : Except MachineError Stack := do
  s.need 3
  let x ← number minimal Number.operandSize (← s.get 2)
  let low ← number minimal Number.operandSize (← s.get 1)
  let high ← number minimal Number.operandSize (← s.get 0)
  return Number.ofBool (low ≤ x && x < high) :: s.drop 3

/-! ## Hashes and equality -/

def hash (op : HashOp) (s : Stack) : Except MachineError Stack := do
  let (x, s) ← s.pop
  let h : Bytes := match op with
    | .ripemd160 => (Hash.ripemd160 x).val
    | .sha1 => (Hash.sha1 x).val
    | .sha256 => (Hash.sha256 x).val
    | .hash160 => (Hash.hash160 x).val
    | .hash256 => (Hash.hash256 x).val
  return h :: s

def equal (s : Stack) : Except MachineError Stack := do
  let (y, s) ← s.pop
  let (x, s) ← s.pop
  return Number.ofBool (x == y) :: s

def equalVerify (s : Stack) : Except MachineError Stack := do
  let (y, s) ← s.pop
  let (x, s) ← s.pop
  require (x == y)
  return s

def verify (s : Stack) : Except MachineError Stack := do
  let (x, s) ← s.pop
  require (Number.truthy x)
  return s

end Stack

end SpendScript

/-
  SpendScript.Script.Program — scripts that can be run.

  A script is run from its bytes (`Script.eval`) or from a list of instructions that were
  read before (`Component.eval`). Instructions are items, opcodes or pushes; a list of
  pushes knows no branches, and its depth is not checked. Either way the machine keeps
  track of where it is, since signatures cover the script from the last code separator on.
-/

import SpendScript.Machine.Eval
import SpendScript.Script.Error

namespace SpendScript

/-- What a list of instructions may be made of. -/
class Instruction (ι : Type) where
  toItem : ι → Item
  /-- An item of the script as an instruction of this kind. -/
  ofItem : Item → Except ScriptError ι
  eval : Rules → Bytes → State → ι → Dialogue MachineError State

instance : Instruction Item where
  toItem := id
  ofItem := .ok
  eval := Item.eval

/-- Bad opcodes are refused wherever they stand. -/
def Opcode.ofItem : Item → Except ScriptError Opcode
  | .good op => .ok op
  | .bad b => .error (.machine (some (.bad b)) .badOpcode)

instance : Instruction Opcode where
  toItem := .good
  ofItem := Opcode.ofItem
  eval := Opcode.eval

def Push.ofItem (item : Item) : Except ScriptError Push := do
  match ← Opcode.ofItem item with
  | .push p => return p
  | _ => throw .sigPushOnly

instance : Instruction Push where
  toItem p := .good (.push p)
  ofItem := Push.ofItem
  eval rules _ s p := Dialogue.lift (p.eval rules s)

/-- The push that an item is, or why a push-only script may not hold it. -/
def Item.push : Item → Except ScriptError Push
  | .good (.push p) => .ok p
  | .good _ => .error .sigPushOnly
  | .bad b => .error (.machine (some (.bad b)) .badOpcode)

/-! ## Running -/

/-- The machine as it comes to the instruction number `index`, of `size` bytes. -/
def State.reach (index size : Nat) (s : State) : State :=
  { s with position := index, offset := s.offset + size }

/-- Runs one instruction after the other. -/
def execute {ι : Type} [Instruction ι] (rules : Rules) (script : Bytes) :
    (index : Nat) → State → List (Except ScriptError ι) → Dialogue ScriptError State
  | _, s, [] => .ret s
  | _, _, .error e :: _ => .fail e
  | index, s, .ok i :: rest => do
    let item := Instruction.toItem i
    let s ← (Instruction.eval rules script (s.reach index item.size) i).mapError
      (ScriptError.machine (some item))
    execute rules script (index + 1) s rest

/-- Every conditional has to be closed at the end. -/
def State.finish (s : State) : Except ScriptError Stack :=
  match s.branches.length with
  | 0 => .ok s.stack
  | n => .error (.unclosedConditional n)

def checkScriptSize (version : SigVersion) (size : Nat) : Except ScriptError Unit :=
  if version.limited && Script.maxSize < size then .error (.scriptSize size) else .ok ()

/-- Runs a script of `size` bytes and gives the stack it leaves. -/
def evalInstructions {ι : Type} [Instruction ι] (rules : Rules) (script : Bytes) (size : Nat)
    (instructions : List (Except ScriptError ι)) (stack : Stack) (context : Context) :
    Dialogue ScriptError Stack := do
  checkScriptSize context.version size
  let s ← execute rules script 0 (State.start stack context) instructions
  s.finish

namespace Script

/-- Reads and runs item by item, so that a reading error counts only where it is reached. -/
def eval (rules : Rules) (s : Bytes) (stack : Stack) (context : Context) : Dialogue ScriptError Stack :=
  evalInstructions rules s s.length ((items s).map (·.mapError ScriptError.parse)) stack context

end Script

/-! ## Components -/

/-- A script that was read, or written, as instructions of one kind. -/
structure Component (ι : Type) where
  ops : List ι

namespace Component

variable {ι : Type} [Instruction ι]

/-- All items of a script as instructions, or the first that is none. -/
def parse (s : Bytes) : Except ScriptError (Component ι) := do
  let ops ← (Script.items s).mapM fun r => r.mapError ScriptError.parse >>= Instruction.ofItem
  return ⟨ops⟩

/-- The same instructions as another kind, where they are of that kind. -/
def refine {κ : Type} [Instruction κ] (c : Component ι) : Except ScriptError (Component κ) := do
  let ops ← c.ops.mapM fun i => Instruction.ofItem (Instruction.toItem i)
  return ⟨ops⟩

def bytes (c : Component ι) : Bytes := c.ops.flatMap fun i => (Instruction.toItem i).encode

-- the zero of sums is that of core, whatever else is imported
attribute [local instance (high)] Zero.ofOfNat0

def size (c : Component ι) : Nat := (c.ops.map fun i => (Instruction.toItem i).size).sum

def isPushOnly (c : Component ι) : Bool :=
  c.ops.all fun i => Script.countsAsPush (.ok (Instruction.toItem i))

def asm (decodeHashType : Bool) (c : Component ι) : String :=
  " ".intercalate (c.ops.map fun i => (Instruction.toItem i).asm decodeHashType)

def eval (rules : Rules) (c : Component ι) (stack : Stack) (context : Context) :
    Dialogue ScriptError Stack :=
  evalInstructions rules c.bytes c.size (c.ops.map .ok) stack context

end Component

/-! ## Programs -/

/-- A script as a part of a spend. -/
structure Program where
  bytes : Bytes
  size : Nat
  isPushOnly : Bool
  asm : Bool → String
  eval : Rules → Stack → Context → Dialogue ScriptError Stack

namespace Program

def ofScript (s : Bytes) : Program where
  bytes := s
  size := s.length
  isPushOnly := Script.isPushOnly s
  asm decodeHashType := Script.asm decodeHashType s
  eval rules := Script.eval rules s

def ofComponent {ι : Type} [Instruction ι] (c : Component ι) : Program where
  bytes := c.bytes
  size := c.size
  isPushOnly := c.isPushOnly
  asm decodeHashType := c.asm decodeHashType
  eval rules := c.eval rules

end Program

end SpendScript

/-
  SpendScript.Machine.Eval — what each opcode does to the state.

  Pushes and operations act only while every open conditional takes its branch;
  conditionals and a few failing opcodes act always. After each opcode of an ordinary
  script the number of items on both stacks is checked.
-/

import SpendScript.Machine.Check
import SpendScript.Opcode

namespace SpendScript

def Push.eval (rules : Rules) (s : State) (p : Push) : Except MachineError State :=
  if rules.has .minimalData && !p.isMinimal then .error .minimalData
  else .ok { s with stack := p.value :: s.stack }

/-! ## Conditionals -/

/-- Where conditions have to be minimal, they are empty or one. -/
def checkCondition (rules : Rules) (version : SigVersion) (item : Bytes) : Except MachineError Unit :=
  let isMinimal := item == [] || item == [1]
  match version with
  | .tapscript => if isMinimal then .ok () else .error .tapscriptMinimalIf
  | .witnessV0 => if isMinimal || !rules.has .minimalIf then .ok () else .error .minimalIf
  | .base | .taproot => .ok ()

/-- Opens a conditional. Its condition is taken off the stack only if it is reached; `flip`
    turns the condition around. -/
def openBranch (rules : Rules) (s : State) (flip : Bool) : Except MachineError State :=
  if s.executing then
    match s.stack with
    | [] => .error .unbalancedConditional
    | item :: rest => do
      checkCondition rules s.context.version item
      return { s with stack := rest, branches := (Number.truthy item != flip) :: s.branches }
  else .ok { s with branches := false :: s.branches }

def Control.eval (rules : Rules) (s : State) : Control → Except MachineError State
  | .opIf => openBranch rules s false
  | .opNotIf => openBranch rules s true
  | .opElse =>
    match s.branches with
    | [] => .error .unbalancedConditional
    | b :: rest => .ok { s with branches := (!b) :: rest }
  | .opEndIf =>
    match s.branches with
    | [] => .error .unbalancedConditional
    | _ :: rest => .ok { s with branches := rest }

/-! ## Operations -/

/-- An operation that an upgrade may give a meaning. -/
def upgradableNop (rules : Rules) (s : State) : Except MachineError State :=
  if rules.has .discourageNops then .error .discourageNops else .ok s

/-- The lock time on top of the stack, which stays there. -/
def lockTimeOperand (rules : Rules) (s : State) : Except MachineError Int := do
  let n ← Stack.number (rules.has .minimalData) Number.lockTimeSize (← s.stack.get 0)
  if n < 0 then throw .negativeLockTime
  return n

def evalLockTime (rules : Rules) (s : State) : Dialogue MachineError State :=
  if rules.has .checkLockTime then do
    let n ← lockTimeOperand rules s
    let reached ← Dialogue.query (.lockTime n)
    if reached then return s else .fail .unsatisfiedLockTime
  else upgradableNop rules s

/-- An operand with the disabling bit is kept for upgrades and passes. -/
def evalSequence (rules : Rules) (s : State) : Dialogue MachineError State :=
  if rules.has .checkSequence then do
    let n ← lockTimeOperand rules s
    if n.toNat.testBit sequenceDisableBit then return s
    else
      let passed ← Dialogue.query (.sequence n)
      if passed then return s else .fail .unsatisfiedLockTime
  else upgradableNop rules s

/-- Leaves the result of a check on the stack, or insists on it. -/
def conclude (verify : Bool) (result : Bool) (s : State) : Except MachineError State :=
  if verify then do
    require result
    return s
  else .ok { s with stack := Number.ofBool result :: s.stack }

def evalCheckSig (rules : Rules) (script : Bytes) (verify : Bool) (s : State) :
    Dialogue MachineError State := do
  s.stack.need 2
  let (key, rest) ← s.stack.pop
  let (sig, rest) ← Stack.pop rest
  let (good, context) ← Check.single rules script s.context sig key
  conclude verify good { s with stack := rest, context := context }

/-- Adds one to the number between key and signature if the signature is good. -/
def evalCheckSigAdd (rules : Rules) (script : Bytes) (s : State) : Dialogue MachineError State := do
  if s.context.version.limited then .fail .badOpcode
  else
    s.stack.need 3
    let n ← Stack.number (rules.has .minimalData) Number.operandSize (← s.stack.get 1)
    let key ← s.stack.get 0
    let sig ← s.stack.get 2
    let (good, context) ← Check.single rules script s.context sig key
    return { s with
      stack := Number.encode (n + if good then 1 else 0) :: s.stack.drop 3
      context := context }

/-- A count that has to be an unsigned byte and at most `limit`. -/
def readCount (wrong : Bool → MachineError) (limit : Nat) (n : Int) : Except MachineError Nat :=
  if n < 0 ∨ 255 < n then .error (wrong true)
  else if limit < n.toNat then .error (wrong false)
  else .ok n.toNat

/-- The operands of a multisignature check, from the top. -/
structure MultiSig where
  keys : List Bytes
  sigs : List Bytes
  /-- An item that is taken off the stack and has no meaning. -/
  dummy : Bytes
  rest : Stack

/-- Takes the operands off the stack; the keys count as operations. -/
def takeMultiSig (rules : Rules) (s : State) : Except MachineError (MultiSig × State) := do
  let minimal := rules.has .minimalData
  let (n, stack) ← s.stack.popNumber minimal
  let keyCount ← readCount .keyCount Item.maxKeys n
  let s ← s.countOps keyCount
  let m ← Stack.number minimal Number.operandSize (← stack.get keyCount)
  let sigCount ← readCount .sigCount keyCount m
  stack.need (keyCount + 1 + sigCount + 1)
  let dummy ← stack.get (keyCount + 1 + sigCount)
  return (⟨stack.take keyCount, (stack.drop (keyCount + 1)).take sigCount, dummy,
    stack.drop (keyCount + 1 + sigCount + 1)⟩, s)

def evalCheckMultiSig (rules : Rules) (script : Bytes) (verify : Bool) (s : State) :
    Dialogue MachineError State := do
  if s.context.version == .tapscript then .fail .tapscriptCheckMultiSig
  else
    let (m, s) ← takeMultiSig rules s
    let code ← Check.coveredCode rules script s.context m.sigs
    let good ← Check.matching rules s.context.version code m.keys m.sigs
    if !good && rules.has .nullFail && m.sigs.any (!·.isEmpty) then .fail .nullFail
    else if rules.has .nullDummy && !m.dummy.isEmpty then .fail .nullDummy
    else conclude verify good { s with stack := m.rest }

/-- The last position that a code separator can be recorded at. -/
def State.separatorPos (s : State) : UInt32 := UInt32.ofNat (min s.position 0xffffffff)

/-- The effect on the main stack alone. -/
def State.onStack (s : State) (f : Stack → Except MachineError Stack) : Except MachineError State := do
  let stack ← f s.stack
  return { s with stack := stack }

def Operation.eval (rules : Rules) (script : Bytes) (s : State) :
    Operation → Dialogue MachineError State
  | .nop => .ret s
  | .verify => s.onStack Stack.verify
  | .abort => .fail .abort
  | .stack op => do
    let (main, alt) ← op.apply (rules.has .minimalData) s.stack s.alt
    return { s with stack := main, alt := alt }
  | .equal => s.onStack Stack.equal
  | .equalVerify => s.onStack Stack.equalVerify
  | .unary op => s.onStack (Stack.unary (rules.has .minimalData) op)
  | .binary op => s.onStack (Stack.binary (rules.has .minimalData) op)
  | .numEqualVerify => s.onStack (Stack.numEqualVerify (rules.has .minimalData))
  | .within => s.onStack (Stack.within (rules.has .minimalData))
  | .hash op => s.onStack (Stack.hash op)
  | .codeSeparator =>
    .ret { s with context := { s.context with codeStart := s.offset, separatorPos := s.separatorPos } }
  | .checkSig => evalCheckSig rules script false s
  | .checkSigVerify => evalCheckSig rules script true s
  | .checkMultiSig => evalCheckMultiSig rules script false s
  | .checkMultiSigVerify => evalCheckMultiSig rules script true s
  | .checkSigAdd => evalCheckSigAdd rules script s
  | .checkLockTime => evalLockTime rules s
  | .checkSequence => evalSequence rules s
  | .upgradable _ => upgradableNop rules s

/-! ## Opcodes and items -/

/-- A code separator in a legacy script may be forbidden even where it is not reached. -/
def forbidsSeparator (rules : Rules) (s : State) (op : Operation) : Bool :=
  op == .codeSeparator && s.context.version == .base && rules.has .constScriptCode

/-- Before the number of items is checked. -/
def Opcode.act (rules : Rules) (script : Bytes) (s : State) : Opcode → Dialogue MachineError State
  | .push p => if s.executing then p.eval rules s else .ret s
  | .control c => do
    let s ← s.countOps 1
    c.eval rules s
  | .operation op => do
    let s ← s.countOps 1
    if forbidsSeparator rules s op then .fail .codeSeparator
    else if s.executing then op.eval rules script s
    else return s

def Opcode.eval (rules : Rules) (script : Bytes) (s : State) (op : Opcode) :
    Dialogue MachineError State := do
  let s ← op.act rules script s
  s.checkDepth

/-- The reserved opcode between the constants is no operation. -/
def Bad.eval (s : State) (b : Bad) : Except MachineError State := do
  let s ← if b == .reserved then .ok s else s.countOps 1
  if b.isAlwaysReached || s.executing then throw .badOpcode
  return s

def Item.eval (rules : Rules) (script : Bytes) (s : State) : Item → Dialogue MachineError State
  | .good op => op.eval rules script s
  | .bad b => b.eval s

end SpendScript

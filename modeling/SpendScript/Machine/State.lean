/-
  SpendScript.Machine.State — the state of the script machine between two opcodes.
-/

import SpendScript.Machine.Context
import SpendScript.Machine.Stack

namespace SpendScript

structure State where
  stack : Stack
  alt : Stack
  opCount : Nat
  /-- For each open conditional, the innermost first, whether its branch is taken. -/
  branches : List Bool
  context : Context
  /-- The index of the current opcode. -/
  position : Nat
  /-- The offset behind the current opcode. -/
  offset : Nat
  deriving DecidableEq, Repr

namespace State

/-- The most operations of one script. -/
def maxOps : Nat := 201

/-- The most items on both stacks together. -/
def maxDepth : Nat := 1000

def start (stack : Stack) (context : Context) : State where
  stack := stack
  alt := []
  opCount := 0
  branches := []
  context := context
  position := 0
  offset := 0

/-- Whether every open conditional takes its current branch. -/
def executing (s : State) : Bool := s.branches.all id

/-- Counts operations where there is a limit on them. -/
def countOps (n : Nat) (s : State) : Except MachineError State :=
  if s.context.version.limited then
    if s.opCount + n ≤ maxOps then .ok { s with opCount := s.opCount + n } else .error .opCount
  else .ok s

def checkDepth (s : State) : Except MachineError State :=
  if maxDepth < s.stack.length + s.alt.length then .error .stackSize else .ok s

end State

end SpendScript

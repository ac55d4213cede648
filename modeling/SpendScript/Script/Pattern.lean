/-
  SpendScript.Script.Pattern — scripts in common use, as lists of opcodes.

  A pattern that takes a key, or other data of any size, has no script if one push cannot
  hold it.
-/

import SpendScript.Hash
import SpendScript.Opcode

namespace SpendScript.Pattern

/-- The shortest push of data. -/
def push? (data : Bytes) : Option Opcode := (Push.ofBytes? data).map .push

def number (n : Int) : Opcode := .push (Push.ofNumber n)

/-- A direct push of a hash or an x-only key. -/
def block {n : Nat} (b : Block n) (h : 1 ≤ n ∧ n ≤ 75) : Opcode :=
  .push (.direct b.val (by simpa [b.property] using h))

def block20 (b : Block 20) : Opcode := block b (by decide)

def block32 (b : Block 32) : Opcode := block b (by decide)

def op (o : Operation) : Opcode := .operation o

/-! ## Conditionals -/

/-- Both branches of a conditional. -/
def branch (thn els : List Opcode) : List Opcode :=
  .control .opIf :: thn ++ .control .opElse :: els ++ [.control .opEndIf]

def ifElse (cond thn els : List Opcode) : List Opcode := cond ++ branch thn els

/-! ## Checks -/

def checkSig (key : Bytes) (verify : Bool) : Option (List Opcode) := do
  let key ← push? key
  return [key, op (if verify then .checkSigVerify else .checkSig)]

def checkMultiSig (sigs : Nat) (keys : List Bytes) (verify : Bool) : Option (List Opcode) := do
  let pushes ← keys.mapM push?
  return number sigs :: pushes
    ++ [number keys.length, op (if verify then .checkMultiSigVerify else .checkMultiSig)]

/-- Counts the good signatures in a tapscript; they stand on the stack in reverse order. -/
def checkSigAddMultiSig (k : Nat) (keys : List (Block 32)) : List Opcode :=
  (keys.zipIdx.flatMap fun (key, i) => [block32 key, op (if i = 0 then .checkSig else .checkSigAdd)])
    ++ [number k, op (.binary .numEqual)]

def equals (expected : Opcode) (verify : Bool) : List Opcode :=
  [expected, op (if verify then .equalVerify else .equal)]

def sizeCheck (n : Nat) (verify : Bool) : List Opcode := op (.stack .size) :: equals (number n) verify

def checkLockTime (lockTime : UInt32) : List Opcode :=
  [number lockTime.toNat, op .checkLockTime, op (.stack .drop)]

def checkSequence (sequence : UInt32) : List Opcode :=
  [number sequence.toNat, op .checkSequence, op (.stack .drop)]

/-! ## Outputs -/

def payToPubKey (key : Bytes) : Option (List Opcode) := checkSig key false

def payToPubKeyHashOf (hash : Block 20) : List Opcode :=
  op (.stack .dup) :: op (.hash .hash160) :: equals (block20 hash) true ++ [op .checkSig]

def payToPubKeyHash (key : Bytes) : List Opcode := payToPubKeyHashOf (Hash.hash160 key)

def payToScriptHash (redeem : Bytes) : List Opcode :=
  [op (.hash .hash160), block20 (Hash.hash160 redeem), op .equal]

/-- Versions go up to sixteen. -/
def witnessProgram (version : Nat) (program : Bytes) : Option (List Opcode) :=
  if version ≤ 16 then do
    let program ← push? program
    return [number version, program]
  else none

def payToWitnessPubKeyHash (key : Bytes) : List Opcode := [number 0, block20 (Hash.hash160 key)]

def payToWitnessScriptHash (script : Bytes) : List Opcode := [number 0, block32 (Hash.sha256 script)]

def payToTaproot (outputKey : Block 32) : List Opcode := [number 1, block32 outputKey]

/-- An output that carries data and cannot be spent. -/
def nullData (data : Bytes) : Option (List Opcode) := do
  let data ← push? data
  return [op .abort, data]

/-- The sender can take it back after a time, the recipient claims it with a preimage. -/
def hash160Htlc (lockTime : UInt32) (sender : Bytes) (hash : Block 20) (recipient : Bytes) :
    Option (List Opcode) := do
  let sender ← checkSig sender false
  let recipient ← checkSig recipient false
  return branch (checkLockTime lockTime ++ sender)
    (op (.hash .hash160) :: equals (block20 hash) true ++ recipient)

/-- One key can spend at once, the other one after a delay. -/
def relativeTimelock (primary : Bytes) (delay : UInt32) (backup : Bytes) : Option (List Opcode) := do
  let primary ← payToPubKey primary
  let backup ← payToPubKey backup
  return ifElse [] primary (checkSequence delay ++ backup)

end SpendScript.Pattern

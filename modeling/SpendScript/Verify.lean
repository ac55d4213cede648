/-
  SpendScript.Verify — verification as its callers see it.

  Here a script that fails is a spend that is false, and only a mistake of the caller is an
  error. The reason of a failure is reported. An input is verified against the outputs that
  its transaction spends; taproot needs all of them.
-/

import SpendScript.Checker
import SpendScript.Spend

namespace SpendScript

/-- Reports a breach and ends with it. -/
def breach {α : Type} (e : ContractError) : Dialogue ContractError α := .note (.misuse e) (.fail e)

/-- Rules that do not go together are a breach. -/
def checkRules (rules : Rules) : Dialogue ContractError Unit :=
  match rules.check with
  | .ok () => .ret ()
  | .error e => breach e

/-- The verdict on a spend; why it is false is reported. -/
def verdict (spend : Except (Part × ScriptError) Bool) : Dialogue ContractError Bool :=
  match spend with
  | .ok true => .ret true
  | .ok false => .note .spendFalse (.ret false)
  | .error (part, e) => .note (.spendFailed part e) (.ret false)

def verifyScript (rules : Rules) (sig pubKey : Bytes) (witness : List Bytes) :
    Dialogue ContractError Bool := do
  checkRules rules
  let spend ← (Spend.eval rules (.ofScript sig) (.ofScript pubKey) witness).attempt
  verdict spend

/-! ## Inputs -/

/-- The outputs that a caller gives. -/
inductive SpentOutputs where
  /-- Only the one that the verified input spends. -/
  | one (output : TxOut)
  /-- One for each input, in order. -/
  | all (outputs : List TxOut)

namespace SpentOutputs

def outputs? : SpentOutputs → Option (List TxOut)
  | .one _ => none
  | .all outputs => some outputs

/-- The output that the input spends. -/
def output (tx : Transaction) (index : Nat) : SpentOutputs → Except ContractError TxOut
  | .one output => .ok output
  | .all outputs =>
    if outputs.length = tx.inputs.length then
      match outputs[index]? with
      | some output => .ok output
      | none => .error (.inputIndex index tx.inputs.length)
    else .error (.spentOutputCount tx.inputs.length outputs.length)

end SpentOutputs

def isTaprootOutput (o : TxOut) : Bool :=
  match Script.witnessProgram? o.scriptPubKey with
  | some (version, program) => version == 1 && program.length == 32
  | none => false

/-- An input together with the output it spends and the view of it that answers. -/
structure InputSpend where
  input : TxIn
  output : TxOut
  view : InputView

/-- Finds the input and what it spends, if the caller gave enough. -/
def InputSpend.of (rules : Rules) (tx : Transaction) (index : Nat) (spent : SpentOutputs) :
    Except ContractError InputSpend := do
  let some input := tx.inputs[index]? | throw (.inputIndex index tx.inputs.length)
  let output ← spent.output tx index
  if rules.has .taproot && isTaprootOutput output && spent.outputs?.isNone then
    throw .missingSpentOutputs
  return ⟨input, output, tx, index, output.value, Digest.TxHashes.of tx spent.outputs?⟩

def InputSpend.verify (rules : Rules) (s : InputSpend) : Dialogue ContractError Bool :=
  verifyScript rules s.input.scriptSig s.output.scriptPubKey s.input.witness

/-- Verifies one input. The transcript holds every question and report. -/
def verifyInput (rules : Rules) (tx : Transaction) (index : Nat) (spent : SpentOutputs) :
    Outcome ContractError Bool InputView.Cache :=
  match InputSpend.of rules tx index spent with
  | .error e => ⟨.error e, [], [.event (.misuse e)]⟩
  | .ok s => (s.verify rules).converse s.view.responder []

/-! ## Signature operations -/

/-- The last thing that an unlocking script pushes. -/
def lastPush? (sig : Bytes) : Option Bytes :=
  match ((Script.items sig).filterMap Except.toOption).getLast? with
  | some (.good (.push p)) => some p.value
  | _ => none

/-- The redeem script, as far as it can be told without running anything. -/
def redeemScript? (sig pubKey : Bytes) : Option Bytes :=
  if Script.isPayToScriptHash pubKey && Script.isPushOnly sig then lastPush? sig else none

def programSigOps (witness : List Bytes) (program : Nat × Bytes) : Nat :=
  if program.1 = 0 && program.2.length = 20 then 1
  else if program.1 = 0 && program.2.length = 32 then
    witness.getLast?.elim 0 (Script.sigOps true)
  else 0

/-- The signature operations in the witness. -/
def witnessSigOps (rules : Rules) (sig pubKey : Bytes) (witness : List Bytes) : Nat :=
  if rules.has .witness then
    match Script.witnessProgram? pubKey with
    | some program => programSigOps witness program
    | none =>
      match (redeemScript? sig pubKey).bind Script.witnessProgram? with
      | some program => programSigOps witness program
      | none => 0
  else 0

/-- The signature operations of a spend: of both scripts, the redeem script and the
    witness. -/
def sigOps (rules : Rules) (sig pubKey : Bytes) (witness : List Bytes) : Nat :=
  Script.saturate
    (Script.sigOps false sig + Script.sigOps false pubKey
      + (if rules.has .p2sh then (redeemScript? sig pubKey).elim 0 (Script.sigOps true) else 0)
      + witnessSigOps rules sig pubKey witness)

end SpendScript

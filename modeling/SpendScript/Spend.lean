/-
  SpendScript.Spend — whether an output may be spent.

  The unlocking script runs on an empty stack, the locking script on what that leaves. A
  script hash or a witness program then asks for more. A spend is true or false, or fails
  in one of its parts; a failure of a part is tagged with it.
-/

import SpendScript.Witness

namespace SpendScript.Spend

/-- What is left after the scripts: the number of stack items, and whether the witness was
    used. -/
structure Remains where
  depth : Nat
  usedWitness : Bool

/-- A step of a spend: what remains, or nothing if the spend is false. -/
abbrev Step := Dialogue (Part × ScriptError) (Option Remains)

def isTrue (stack : Stack) : Bool := stack.head?.any Number.truthy

/-- Runs a part and tags its failure. -/
def inPart {α : Type} (part : Part) (d : Dialogue ScriptError α) : Dialogue (Part × ScriptError) α :=
  d.mapError (Prod.mk part)

/-- The spend of a witness program; items left over by the scripts do not matter then. -/
def witnessStep (rules : Rules) (witness : List Bytes) (program : Nat × Bytes) (nested : Bool) : Step := do
  let good ← inPart .witness (Witness.verifyProgram rules witness program.1 program.2 nested)
  return if good then some ⟨1, true⟩ else none

/-- A script that was passed and may be a witness program. An unlocking script that is
    `malleated`, with more in it than the program asks for, is at `fault` then. -/
def programStep (rules : Rules) (witness : List Bytes) (script : Bytes) (malleated : Bool)
    (fault : ScriptError) (nested : Bool) (r : Remains) : Step :=
  match if rules.has .witness then Script.witnessProgram? script else none with
  | none => .ret (some r)
  | some program =>
    if malleated then .fail (.sig, fault)
    else witnessStep rules witness program nested

/-- The locking script itself may be a witness program, and is unlocked by nothing then. -/
def nativeStep (rules : Rules) (sig pubKey : Program) (witness : List Bytes) (r : Remains) : Step :=
  programStep rules witness pubKey.bytes (0 < sig.size) .witnessMalleated false r

/-- The redeem script was run and may be a witness program; the unlocking script is nothing
    but its push then. -/
def nestedStep (rules : Rules) (sig : Program) (witness : List Bytes) (redeem : Bytes) (r : Remains) :
    Step :=
  programStep rules witness redeem (sig.bytes != pushEncoding redeem) .witnessMalleatedP2sh true r

/-- Runs the redeem script of a script hash on the stack that the unlocking script left. -/
def redeemStep (rules : Rules) (sig pubKey : Program) (witness : List Bytes) (data : Stack) (r : Remains) :
    Step :=
  if rules.has .p2sh && Script.isPayToScriptHash pubKey.bytes then
    if !sig.isPushOnly then .fail (.sig, .sigPushOnly)
    else
      match data with
      | [] => .fail (.redeem, .missingRedeemScript)
      | redeem :: rest => do
        Dialogue.report (.runRedeem redeem.length)
        let stack ← inPart .redeem (Script.eval rules redeem rest (Context.fresh .base))
        if isTrue stack then nestedStep rules sig witness redeem { r with depth := stack.length }
        else return none
  else .ret (some r)

/-- What has to hold of the remains at the end. -/
def checkRemains (rules : Rules) (witness : List Bytes) (r : Remains) :
    Except (Part × ScriptError) Unit :=
  if rules.has .cleanStack && r.depth != 1 then .error (.redeem, .cleanStack)
  else if rules.has .witness && !r.usedWitness && !witness.isEmpty then
    .error (.witness, .witnessUnexpected)
  else .ok ()

/-- Goes on with a step if the spend is still possible. -/
def andThen (step : Step) (next : Remains → Dialogue (Part × ScriptError) Bool) :
    Dialogue (Part × ScriptError) Bool := do
  match ← step with
  | none => return false
  | some r => next r

/-- The whole spend. -/
def eval (rules : Rules) (sig pubKey : Program) (witness : List Bytes) :
    Dialogue (Part × ScriptError) Bool := do
  if rules.has .sigPushOnly && !sig.isPushOnly then .fail (.sig, .sigPushOnly)
  else
    Dialogue.report (.runSig sig.size)
    let data ← inPart .sig (sig.eval rules [] (Context.fresh .base))
    Dialogue.report (.runPubKey pubKey.size)
    let stack ← inPart .pubKey (pubKey.eval rules data (Context.fresh .base))
    if isTrue stack then
      andThen (nativeStep rules sig pubKey witness ⟨stack.length, false⟩) fun r =>
      andThen (redeemStep rules sig pubKey witness data r) fun r => do
        checkRemains rules witness r
        return true
    else return false

/-- Both scripts as text; only the unlocking script holds signatures. -/
def asm (decodeHashType : Bool) (sig pubKey : Program) : String :=
  sig.asm decodeHashType ++ " " ++ pubKey.asm false

end SpendScript.Spend

/-
  SpendScript.Machine.Check — signature checks as opcodes make them.

  Before a question is asked, the encodings of signature and key are judged by the rules in
  force. A legacy script signs its code without the signature itself, so that is deleted
  first. In a tapscript every signature that is not empty takes its share of a budget.
-/

import SpendScript.Dialogue
import SpendScript.Machine.State
import SpendScript.Script.Basic

namespace SpendScript.Check

def encodingRules (rules : Rules) : EncodingRules where
  requireDer := rules.has .derSignature
  requireLowS := rules.has .lowS
  strict := rules.has .strictEncoding

def keyEncoding (rules : Rules) (version : SigVersion) (key : Bytes) : Except MachineError Unit :=
  if rules.has .strictEncoding && !(Curve.Key.isCompressed key || Curve.Key.isUncompressed key) then
    .error .keyType
  else if rules.has .witnessPubKeyType && version == .witnessV0 && !Curve.Key.isCompressed key then
    .error .witnessKeyType
  else .ok ()

/-- One ECDSA check. The key is judged even where there is no signature to check. -/
def ecdsa (rules : Rules) (version : SigVersion) (code item key : Bytes) : Dialogue MachineError Bool :=
  match Decoded.decode (encodingRules rules) item with
  | .error e => .fail (.signature e)
  | .ok none => do
    keyEncoding rules version key
    return false
  | .ok (some sig) => do
    keyEncoding rules version key
    Dialogue.query (.ecdsa ⟨item, sig, key, code, version⟩)

/-- The part of the script behind the last executed code separator. -/
def scriptCode (script : Bytes) (context : Context) : Bytes := script.drop context.codeStart

/-- The script code without the given signatures, one after the other. -/
def withoutSignatures (rules : Rules) (code : Bytes) : List Bytes → Except MachineError Bytes
  | [] => .ok code
  | item :: items =>
    let (code, found) := Script.findAndDelete (pushEncoding item) code
    if 0 < found && rules.has .constScriptCode then .error .findAndDelete
    else withoutSignatures rules code items

/-- The script code that a check covers: only legacy scripts lose their signatures. -/
def coveredCode (rules : Rules) (script : Bytes) (context : Context) (items : List Bytes) :
    Except MachineError Bytes :=
  if context.version == .base then withoutSignatures rules (scriptCode script context) items
  else .ok (scriptCode script context)

/-- An ECDSA check whose failure may have to come from an empty signature. -/
def ecdsaOp (rules : Rules) (script : Bytes) (context : Context) (item key : Bytes) :
    Dialogue MachineError Bool := do
  let code ← coveredCode rules script context [item]
  let good ← ecdsa rules context.version code item key
  if !good && rules.has .nullFail && !item.isEmpty then
    .fail .nullFail
  else return good

/-- What one signature takes from the budget of a tapscript. -/
def weightPerCheck : Int := 50

/-- The budget after a signature, if there is a budget and the signature is not empty. -/
def spendWeight (context : Context) (item : Bytes) : Except MachineError Context :=
  match context.weightLeft with
  | some w =>
    if item.isEmpty then .ok context
    else if w - weightPerCheck < 0 then .error .tapscriptWeight
    else .ok { context with weightLeft := some (w - weightPerCheck) }
  | none => .ok context

/-- A check in a tapscript. An empty signature fails without an error; keys of unknown size
    are left to upgrades and pass. -/
def tapscriptOp (rules : Rules) (context : Context) (item key : Bytes) :
    Dialogue MachineError (Bool × Context) := do
  let context ← spendWeight context item
  if key.isEmpty then .fail .keyType
  else
    match Block.ofBytes? 32 key with
    | some key =>
      if item.isEmpty then return (false, context)
      else
        let sig ← (Schnorr.decode item).mapError MachineError.signature
        let good ← Dialogue.query (.schnorr ⟨sig, key, context⟩)
        good.mapError MachineError.signature
        return (true, context)
    | none =>
      if rules.has .discouragePubKeyType then .fail .discourageKeyType
      else return (!item.isEmpty, context)

/-- One signature check under the rules of the script that makes it. -/
def single (rules : Rules) (script : Bytes) (context : Context) (item key : Bytes) :
    Dialogue MachineError (Bool × Context) :=
  match context.version with
  | .base | .witnessV0 => do
    let good ← ecdsaOp rules script context item key
    return (good, context)
  | .tapscript => tapscriptOp rules context item key
  | .taproot => .fail .badOpcode

/-- Whether the signatures belong to keys in the same order. Each key is tried once, and it
    ends as soon as more signatures than keys are left. -/
def matching (rules : Rules) (version : SigVersion) (code : Bytes) :
    (keys sigs : List Bytes) → Dialogue MachineError Bool
  | _, [] => .ret true
  | [], _ :: _ => .ret false
  | key :: keys, sig :: sigs => do
    let good ← ecdsa rules version code sig key
    let left := if good then sigs else sig :: sigs
    if keys.length < left.length then return false
    else matching rules version code keys left

end SpendScript.Check

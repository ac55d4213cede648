/-
  SpendScript.Witness — spends of witness programs.

  Version 0 programs are the hash of a key or of a script, version 1 programs of 32 bytes
  are taproot output keys. Programs without a meaning yet can be spent by anyone. A witness
  is a list of items, the bottom of the stack first.
-/

import SpendScript.Script.Pattern
import SpendScript.Script.Program
import SpendScript.Taproot

namespace SpendScript.Witness

/-- A version 1 program that anyone can spend. -/
def anchorProgram : Bytes := [0x4e, 0x73]

/-- Opcodes that make a tapscript succeed without being run. -/
def isOpSuccess (b : UInt8) : Bool :=
  b == 80 || b == 98 || (126 ≤ b && b ≤ 129) || (131 ≤ b && b ≤ 134) || (137 ≤ b && b ≤ 138)
    || (141 ≤ b && b ≤ 142) || (149 ≤ b && b ≤ 153) || (187 ≤ b && b ≤ 254)

/-- Whether a script holds such an opcode before a truncated push, which is an error. -/
def holdsOpSuccess : List Piece → Except ScriptError Bool
  | [] => .ok false
  | p :: rest =>
    if p.span.head?.any isOpSuccess then .ok true
    else
      match p.result with
      | .error (.read expected available) => .error (.parse (.read expected available))
      | _ => holdsOpSuccess rest

/-- Limits on what a script starts from. -/
def checkItems (version : SigVersion) (items : List Bytes) : Except ScriptError Unit :=
  if version == .tapscript && State.maxDepth < items.length then .error (.machine none .stackSize)
  else
    match items.find? fun item => Push.maxData < item.length with
    | some item => .error (.parse (.pushSize item.length))
    | none => .ok ()

/-- Runs a script on its items; exactly one item has to be left, and it decides. -/
def runScript (rules : Rules) (items : List Bytes) (script : Bytes) (context : Context) :
    Dialogue ScriptError Bool := do
  checkItems context.version items
  let stack ← Script.eval rules script items.reverse context
  match stack with
  | [x] => return Number.truthy x
  | _ => .fail .witnessCleanStack

/-- Opcodes that succeed come before everything else, limits included. -/
def execute (rules : Rules) (items : List Bytes) (script : Bytes) (context : Context) :
    Dialogue ScriptError Bool :=
  if context.version == .tapscript then do
    if ← holdsOpSuccess (Script.pieces script) then
      if rules.has .discourageOpSuccess then .fail .discourageOpSuccess else return true
    else runScript rules items script context
  else runScript rules items script context

/-! ## Taproot -/

/-- The items without the annex, and the annex. It is the last item if that is not the only
    one and starts with the tag. -/
def splitAnnex (witness : List Bytes) : List Bytes × Option Bytes :=
  match witness.getLast? with
  | some last =>
    if last.head? == some Taproot.annexTag && 2 ≤ witness.length then (witness.dropLast, some last)
    else (witness, none)
  | none => (witness, none)

/-- The budget for signature checks starts this much above the size of the witness. -/
def weightOffset : Int := 50

def taprootContext (annex : Option Bytes) : Context :=
  { Context.fresh .taproot with annexHash := annex.map fun a => Hash.sha256 (sized a) }

def keyPath (program : Block 32) (sig : Bytes) (context : Context) : Dialogue ScriptError Bool := do
  Dialogue.report .keyPath
  let failed (e : SignatureError) : ScriptError := .machine none (.signature e)
  let sig ← (Schnorr.decode sig).mapError failed
  let good ← Dialogue.query (.schnorr ⟨sig, program, context⟩)
  good.mapError failed
  return true

/-- Leaves of unknown versions are left to upgrades. -/
def scriptPath (rules : Rules) (witness : List Bytes) (program : Block 32) (items : List Bytes)
    (script control : Bytes) (context : Context) : Dialogue ScriptError Bool := do
  let block ← (Taproot.ControlBlock.parse control).mapError fun _ =>
    ScriptError.controlSize control.length
  let leaf := Taproot.leafHash block.version script
  if !block.commits program leaf then .fail .programMismatch
  else if block.version == Taproot.tapscriptVersion then
    Dialogue.report (.scriptPath block.path.length)
    execute rules items script
      { context with
        version := .tapscript
        leafHash := some leaf
        weightLeft := some ((encodeWitness witness).length + weightOffset) }
  else if rules.has .discourageTaprootVersion then .fail .discourageTaprootVersion
  else return true

def verifyTaproot (rules : Rules) (witness : List Bytes) (program : Block 32) :
    Dialogue ScriptError Bool :=
  let (items, annex) := splitAnnex witness
  if annex.isSome && rules.has .discourageAnnex then .fail .discourageAnnex
  else
    match items.reverse with
    | [] => .fail .programWitnessEmpty
    | [sig] => keyPath program sig (taprootContext annex)
    | control :: script :: below =>
      scriptPath rules witness program below.reverse script control (taprootContext annex)

/-! ## Programs -/

def verifyScriptHash (rules : Rules) (witness : List Bytes) (program : Bytes) :
    Dialogue ScriptError Bool :=
  match witness.getLast? with
  | none => .fail .programWitnessEmpty
  | some script =>
    if (Hash.sha256 script).val != program then .fail .programMismatch
    else execute rules witness.dropLast script (Context.fresh .witnessV0)

def verifyKeyHash (rules : Rules) (witness : List Bytes) (hash : Block 20) : Dialogue ScriptError Bool :=
  if witness.length != 2 then .fail .programMismatch
  else
    execute rules witness (Script.encode (Pattern.payToPubKeyHashOf hash)) (Context.fresh .witnessV0)

def verifyVersion0 (rules : Rules) (witness : List Bytes) (program : Bytes) :
    Dialogue ScriptError Bool :=
  if program.length = 32 then verifyScriptHash rules witness program
  else
    match Block.ofBytes? 20 program with
    | some hash => verifyKeyHash rules witness hash
    | none => .fail .programWrongLength

/-- Programs that have no meaning yet. -/
def verifyUnknown (rules : Rules) : Dialogue ScriptError Bool :=
  if rules.has .discourageWitnessProgram then .fail .discourageWitnessProgram else .ret true

def verifyVersion1 (rules : Rules) (witness : List Bytes) (program : Bytes) :
    Dialogue ScriptError Bool :=
  match Block.ofBytes? 32 program with
  | some key => if rules.has .taproot then verifyTaproot rules witness key else .ret true
  | none => if program == anchorProgram then .ret true else verifyUnknown rules

/-- The spend of a program. A program behind a script hash is `nested`; only version 0 has a
    meaning there. -/
def verifyProgram (rules : Rules) (witness : List Bytes) (version : Nat) (program : Bytes)
    (nested : Bool) : Dialogue ScriptError Bool := do
  Dialogue.report (.witnessProgram version program.length nested)
  if version = 0 then verifyVersion0 rules witness program
  else if version = 1 && !nested then verifyVersion1 rules witness program
  else verifyUnknown rules

end SpendScript.Witness

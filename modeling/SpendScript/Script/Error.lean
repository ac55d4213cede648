/-
  SpendScript.Script.Error — why a script, or a spend as a whole, fails.

  A failure is tagged with the part of the spend it arose in.
-/

import SpendScript.Opcode
import SpendScript.Machine.Error

namespace SpendScript

inductive ScriptError where
  | scriptSize (size : Nat)
  | parse (error : ParseError)
  | sigPushOnly
  /-- The item that failed, unless the failure belongs to none. -/
  | machine (item : Option Item) (error : MachineError)
  | unclosedConditional (count : Nat)
  | missingRedeemScript
  | cleanStack
  | programWrongLength
  | programWitnessEmpty
  | programMismatch
  | witnessMalleated
  | witnessMalleatedP2sh
  | witnessUnexpected
  | witnessCleanStack
  | controlSize (size : Nat)
  | discourageWitnessProgram
  | discourageTaprootVersion
  | discourageOpSuccess
  | discourageAnnex
  deriving DecidableEq, Repr

namespace ScriptError

def message : ScriptError → String
  | .scriptSize _ => "Script size (\x7bsize\x7d bytes) exceeded maxmimum (10000 bytes)"
  | .parse error => String.join ["during parsing: ", error.message]
  | .sigPushOnly => "non-push opcode encountered in script sig when push-only required"
  | .machine _ error => String.join ["during interpretation: ", error.message]
  | .unclosedConditional n =>
    String.join
      [if n = 1 then "1 conditional opcode wasn’t" else "\x7bn\x7d conditional opcodes weren’t",
       " closed before the end of the script"]
  | .missingRedeemScript => "the script is P2SH, but there was no redeem script left on the stack"
  | .cleanStack => "clean stack requirement not met"
  | .programWrongLength => "witness program has incorrect length"
  | .programWitnessEmpty => "witness program was passed an empty witness"
  | .programMismatch => "witness program hash mismatch"
  | .witnessMalleated => "witness requires empty scriptSig"
  | .witnessMalleatedP2sh => "witness requires only-redeemscript scriptSig"
  | .witnessUnexpected => "witness provided for non-witness script"
  | .witnessCleanStack => "witness script didn’t leave exactly one element on the stack"
  | .controlSize size =>
    String.join ["invalid taproot control block size (", toString size, " bytes)"]
  | .discourageWitnessProgram => "witness version reserved for soft-fork upgrades"
  | .discourageTaprootVersion => "taproot version reserved for soft-fork upgrades"
  | .discourageOpSuccess => "OP_SUCCESSx reserved for soft-fork upgrades"
  | .discourageAnnex => "annex is reserved for soft-fork upgrades"

/-- The rule that makes this a failure, if it is none without one. -/
def rule? : ScriptError → Option Rule
  | .machine _ error => error.rule?
  | .sigPushOnly => some .sigPushOnly
  | .cleanStack => some .cleanStack
  | .discourageWitnessProgram => some .discourageWitnessProgram
  | .discourageTaprootVersion => some .discourageTaprootVersion
  | .discourageOpSuccess => some .discourageOpSuccess
  | .discourageAnnex => some .discourageAnnex
  | _ => none

end ScriptError

/-- The parts of a spend. -/
inductive Part where
  | sig
  | pubKey
  | redeem
  | witness
  deriving DecidableEq, Repr

def Part.label : Part → String
  | .sig => "Sig"
  | .pubKey => "PubKey"
  | .redeem => "Redeem"
  | .witness => "Witness"

end SpendScript

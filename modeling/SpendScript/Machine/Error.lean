/-
  SpendScript.Machine.Error — why an opcode fails.

  Each cause has one wording (`message`), and a cause that only an optional rule makes a
  failure names that rule (`rule?`).
-/

import SpendScript.Number
import SpendScript.Rules
import SpendScript.Signature

namespace SpendScript

inductive MachineError where
  | abort
  | opCount
  | stackSize
  /-- `unfit` tells a count that is no unsigned byte from one that is too large. -/
  | sigCount (unfit : Bool)
  | keyCount (unfit : Bool)
  | verify
  | badOpcode
  /-- The item asked for, counted from the top, and the number of items. -/
  | stackOperation (access : Option (Nat × Nat))
  | unbalancedConditional
  | negativeLockTime
  | unsatisfiedLockTime
  | signature (error : SignatureError)
  | minimalData
  | nullDummy
  | keyType
  | minimalIf
  | nullFail
  | witnessKeyType
  | codeSeparator
  | findAndDelete
  | tapscriptCheckMultiSig
  | tapscriptWeight
  | tapscriptMinimalIf
  | discourageNops
  | discourageKeyType
  | number (error : Number.Error)
  deriving DecidableEq, Repr

namespace MachineError

def message : MachineError → String
  | .abort => "OP_RETURN encountered"
  | .opCount => "operation count exceeded maxmimum of 201"
  | .stackSize => "stack depth exceeded maxmimum of 1000 entries"
  | .sigCount unfit =>
    String.join ["signature count wasn’t in the range 0..=20", if unfit then ": \x7be\x7d" else ""]
  | .keyCount unfit =>
    String.join ["public key count wasn’t in the range 0..=20", if unfit then ": \x7be\x7d" else ""]
  | .verify => "verify operation failed"
  | .badOpcode => "bad opcode encountered"
  | .stackOperation none => "invalid stack operation encountered"
  | .stackOperation (some _) =>
    "tried to retrieve element \x7belem\x7d from a stack with \x7bmax\x7d elements"
  | .unbalancedConditional => "unbalanced conditional encountered"
  | .negativeLockTime => "negative lock time encountered"
  | .unsatisfiedLockTime => "unsatisfied locktime condition"
  | .signature error => String.join ["signature error: ", error.message]
  | .minimalData => "non-minimal data encountered when minimal data required"
  | .nullDummy => "signature null dummy error"
  | .keyType => "public key type error"
  | .minimalIf => "OP_IF/NOTIF argument must be minimal"
  | .nullFail => "signature must be empty if a signature check fails"
  | .witnessKeyType => "witness scripts require compressed public keys"
  | .codeSeparator => "OP_CODESEPARATOR in a legacy script"
  | .findAndDelete => "signature found in the script code"
  | .tapscriptCheckMultiSig => "OP_CHECKMULTISIG(VERIFY) isn’t available in tapscript"
  | .tapscriptWeight => "tapscript validation weight exhausted"
  | .tapscriptMinimalIf => "OP_IF/NOTIF argument must be minimal in tapscript"
  | .discourageNops => "discouraged upgradable NOP encountered"
  | .discourageKeyType => "discouraged public key type encountered"
  | .number error => String.join ["script number error: ", error.message]

/-- The rule that makes this a failure, if it is none without one. -/
def rule? : MachineError → Option Rule
  | .signature (.der _) => some .derSignature
  | .signature .highS => some .lowS
  | .signature (.hashType _) => some .strictEncoding
  | .minimalData | .number (.nonMinimal _) => some .minimalData
  | .nullDummy => some .nullDummy
  | .keyType => some .strictEncoding
  | .minimalIf => some .minimalIf
  | .nullFail => some .nullFail
  | .witnessKeyType => some .witnessPubKeyType
  | .codeSeparator | .findAndDelete => some .constScriptCode
  | .discourageNops => some .discourageNops
  | .discourageKeyType => some .discouragePubKeyType
  | _ => none

end MachineError

end SpendScript

/-
  SpendScript.Event — what verification reports while it runs.

  An event has a level, a message and named fields, all of them text.
-/

import SpendScript.Contract
import SpendScript.Digest
import SpendScript.Script.Error

namespace SpendScript

inductive Level where
  | trace
  | debug
  | warn
  deriving DecidableEq, Repr

def Level.label : Level → String
  | .trace => "TRACE"
  | .debug => "DEBUG"
  | .warn => "WARN"

inductive Event where
  | runSig (size : Nat)
  | runPubKey (size : Nat)
  | runRedeem (size : Nat)
  | witnessProgram (version size : Nat) (nested : Bool)
  | keyPath
  | scriptPath (depth : Nat)
  /-- An earlier check of the same signature was used. -/
  | cacheHit (result : Bool)
  | noDigest (error : DigestError)
  | spendFalse
  | spendFailed (part : Part) (error : ScriptError)
  | misuse (error : ContractError)
  deriving DecidableEq, Repr

namespace Event

def level : Event → Level
  | .spendFalse | .spendFailed _ _ => .debug
  | .misuse _ => .warn
  | _ => .trace

def message : Event → String
  | .runSig _ => "evaluating script sig"
  | .runPubKey _ => "evaluating script pubkey"
  | .runRedeem _ => "evaluating redeem script"
  | .witnessProgram _ _ _ => "verifying witness program"
  | .keyPath => "taproot key path spend"
  | .scriptPath _ => "taproot script path spend"
  | .cacheHit _ => "signature check cache hit"
  | .noDigest _ => "no taproot signature hash"
  | .spendFalse => "script evaluated to false"
  | .spendFailed _ _ => "script failed"
  | .misuse _ => "verification called incorrectly"

/-- The rule behind a failure as it is reported. -/
def ruleText : Option Rule → String
  | some r => String.join ["Some(Flags(", r.label, "))"]
  | none => "None"

def fields : Event → List (String × String)
  | .runSig size | .runPubKey size | .runRedeem size => [("len", toString size)]
  | .witnessProgram version size nested =>
    [("version", toString version), ("program_len", toString size), ("is_p2sh", toString nested)]
  | .keyPath | .spendFalse => []
  | .scriptPath depth => [("depth", toString depth)]
  | .cacheHit result => [("result", toString result)]
  | .noDigest error => [("error", error.message)]
  | .spendFailed part error =>
    [("component", part.label), ("error", error.message), ("rule", ruleText error.rule?)]
  | .misuse error => [("error", error.message)]

end Event

end SpendScript

/-
  SpendScript.Contract — what a caller of verification has to keep to.

  A breach is a mistake of the caller. It is reported as such and never as a failed spend.
-/

import SpendScript.Rules

namespace SpendScript

inductive ContractError where
  | inputIndex (index inputs : Nat)
  | spentOutputCount (expected actual : Nat)
  | missingSpentOutputs
  | cleanStackAlone
  | witnessAlone
  deriving DecidableEq, Repr

def ContractError.message : ContractError → String
  | .inputIndex index inputs =>
    String.join
      ["input index ", toString index, " is out of range for a transaction with ",
       toString inputs, " inputs"]
  | .spentOutputCount expected actual =>
    String.join
      [toString actual, " spent outputs were provided for a transaction with ",
       toString expected, " inputs"]
  | .missingSpentOutputs => "taproot spends need the outputs spent by every input"
  | .cleanStackAlone => "CLEANSTACK requires both P2SH and WITNESS"
  | .witnessAlone => "WITNESS requires P2SH"

/-- A clean stack is asked for only with script hashes and witnesses, and witnesses only with
    script hashes. -/
def Rules.check (rules : Rules) : Except ContractError Unit :=
  if rules.has .cleanStack && !(rules.has .p2sh && rules.has .witness) then .error .cleanStackAlone
  else if rules.has .witness && !rules.has .p2sh then .error .witnessAlone
  else .ok ()

end SpendScript

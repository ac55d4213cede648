/-
  SpendScript.Machine.Context — the data of one script execution that signatures depend on.
-/

import SpendScript.Bytes

namespace SpendScript

/-- The rules a script is run under: the digest its signatures cover, and its limits. -/
inductive SigVersion where
  /-- Bare scripts and redeem scripts. -/
  | base
  | witnessV0
  /-- Key path spends, which run no script. -/
  | taproot
  | tapscript
  deriving DecidableEq, Repr

/-- Whether the limits on operations and script size apply. -/
def SigVersion.limited : SigVersion → Bool
  | .base | .witnessV0 => true
  | .taproot | .tapscript => false

structure Context where
  version : SigVersion
  /-- The offset behind the last code separator that was executed. -/
  codeStart : Nat
  /-- The index of that separator among the opcodes. -/
  separatorPos : UInt32
  annexHash : Option (Block 32)
  leafHash : Option (Block 32)
  /-- What is left of the budget for signature checks, where there is one. -/
  weightLeft : Option Int
  deriving DecidableEq, Repr

/-- No code separator was executed. -/
def Context.noSeparator : UInt32 := 0xffffffff

def Context.fresh (version : SigVersion) : Context where
  version := version
  codeStart := 0
  separatorPos := Context.noSeparator
  annexHash := none
  leafHash := none
  weightLeft := none

end SpendScript

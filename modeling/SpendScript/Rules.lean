/-
  SpendScript.Rules — the optional verification rules and sets of them.

  A set of rules is a 22-bit word, one bit for each rule at the rule's position. The
  presets are the rules that every block obeys (`mandatory`) and those a transaction
  has to obey to be relayed (`standard`).
-/

import SpendScript.Bytes

namespace SpendScript

inductive Rule where
  /-- Redeem scripts of script-hash outputs are run. -/
  | p2sh
  /-- Signatures are strictly encoded with a defined hash type, public keys too. -/
  | strictEncoding
  | derSignature
  | lowS
  /-- The extra item that a multisignature check consumes is empty. -/
  | nullDummy
  | sigPushOnly
  /-- Pushes and numbers take their shortest form. -/
  | minimalData
  | discourageNops
  | cleanStack
  | checkLockTime
  | checkSequence
  | witness
  | discourageWitnessProgram
  /-- A condition in a version 0 witness script is empty or one. -/
  | minimalIf
  /-- A failed signature check has only empty signatures. -/
  | nullFail
  | witnessPubKeyType
  /-- Legacy scripts neither move nor lose the code that their signatures cover. -/
  | constScriptCode
  | taproot
  | discourageTaprootVersion
  | discourageOpSuccess
  | discouragePubKeyType
  | discourageAnnex
  deriving DecidableEq, Repr

namespace Rule

def all : List Rule :=
  [.p2sh, .strictEncoding, .derSignature, .lowS, .nullDummy, .sigPushOnly, .minimalData,
   .discourageNops, .cleanStack, .checkLockTime, .checkSequence, .witness,
   .discourageWitnessProgram, .minimalIf, .nullFail, .witnessPubKeyType, .constScriptCode,
   .taproot, .discourageTaprootVersion, .discourageOpSuccess, .discouragePubKeyType,
   .discourageAnnex]

/-- The bit of a rule in a set of rules. -/
def index : Rule → Nat
  | .p2sh => 0
  | .strictEncoding => 1
  | .derSignature => 2
  | .lowS => 3
  | .nullDummy => 4
  | .sigPushOnly => 5
  | .minimalData => 6
  | .discourageNops => 7
  | .cleanStack => 8
  | .checkLockTime => 9
  | .checkSequence => 10
  | .witness => 11
  | .discourageWitnessProgram => 12
  | .minimalIf => 13
  | .nullFail => 14
  | .witnessPubKeyType => 15
  | .constScriptCode => 16
  | .taproot => 17
  | .discourageTaprootVersion => 18
  | .discourageOpSuccess => 19
  | .discouragePubKeyType => 20
  | .discourageAnnex => 21

/-- The name a rule is reported under. -/
def label : Rule → String
  | .p2sh => "P2SH"
  | .strictEncoding => "StrictEnc"
  | .derSignature => "DERSig"
  | .lowS => "LowS"
  | .nullDummy => "NullDummy"
  | .sigPushOnly => "SigPushOnly"
  | .minimalData => "MinimalData"
  | .discourageNops => "DiscourageUpgradableNOPs"
  | .cleanStack => "CleanStack"
  | .checkLockTime => "CHECKLOCKTIMEVERIFY"
  | .checkSequence => "CHECKSEQUENCEVERIFY"
  | .witness => "Witness"
  | .discourageWitnessProgram => "DiscourageUpgradableWitnessProgram"
  | .minimalIf => "MinimalIf"
  | .nullFail => "NullFail"
  | .witnessPubKeyType => "WitnessPubKeyType"
  | .constScriptCode => "ConstScriptCode"
  | .taproot => "Taproot"
  | .discourageTaprootVersion => "DiscourageUpgradableTaprootVersion"
  | .discourageOpSuccess => "DiscourageOpSuccess"
  | .discouragePubKeyType => "DiscourageUpgradablePubKeyType"
  | .discourageAnnex => "DiscourageUpgradableAnnex"

theorem index_lt (r : Rule) : r.index < 22 := by cases r <;> decide

theorem mem_all (r : Rule) : r ∈ all := by cases r <;> decide

theorem index_injective {r s : Rule} (h : r.index = s.index) : r = s := by
  cases r <;> cases s <;> first | rfl | exact absurd h (by decide)

end Rule

/-- A set of rules in force. -/
structure Rules where
  bits : BitVec 22
  deriving DecidableEq, Repr

namespace Rules

def has (rs : Rules) (r : Rule) : Bool := rs.bits.getLsbD r.index

/-- Bits that stand for no rule are dropped. -/
def ofBits (n : Nat) : Rules := ⟨BitVec.ofNat 22 n⟩

def toBits (rs : Rules) : Nat := rs.bits.toNat

def insert (r : Rule) (rs : Rules) : Rules := ⟨rs.bits ||| BitVec.ofNat 22 (2 ^ r.index)⟩

def ofList (l : List Rule) : Rules := l.foldr insert ⟨0⟩

/-- Every rule of `rs` is a rule of `rs'`. -/
instance : HasSubset Rules := ⟨fun rs rs' => ∀ r, rs.has r = true → rs'.has r = true⟩

/-- What every block has to obey. -/
def mandatory : Rules :=
  ofList [.p2sh, .derSignature, .nullDummy, .checkLockTime, .checkSequence, .witness, .taproot]

/-- What a transaction has to obey to be relayed. -/
def standard : Rules :=
  ofList [.p2sh, .derSignature, .nullDummy, .checkLockTime, .checkSequence, .witness, .taproot,
    .strictEncoding, .minimalData, .discourageNops, .cleanStack, .minimalIf, .nullFail, .lowS,
    .discourageWitnessProgram, .witnessPubKeyType, .constScriptCode, .discourageTaprootVersion,
    .discourageOpSuccess, .discouragePubKeyType, .discourageAnnex]

def everything : Rules := ofList Rule.all

end Rules

end SpendScript

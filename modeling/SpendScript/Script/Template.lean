/-
  SpendScript.Script.Template — the standard forms of a locking script.

  A script that is a list of opcodes in one of the known forms is recognised together with
  the data it carries.
-/

import SpendScript.Script.Program
import SpendScript.Witness

namespace SpendScript

inductive Template where
  | pubKey (key : Bytes)
  | pubKeyHash (hash : Block 20)
  | scriptHash (hash : Block 20)
  | multiSig (required : Nat) (keys : List Bytes)
  | nullData (data : List Push)
  | witnessKeyHash (hash : Block 20)
  | witnessScriptHash (hash : Block 32)
  | taproot (outputKey : Block 32)
  | anchor
  | witnessUnknown (version : Nat) (program : Bytes)
  deriving DecidableEq

namespace Template

def label : Template → String
  | .pubKey _ => "pubkey"
  | .pubKeyHash _ => "pubkeyhash"
  | .scriptHash _ => "scripthash"
  | .multiSig _ _ => "multisig"
  | .nullData _ => "nulldata"
  | .witnessKeyHash _ => "witness_v0_keyhash"
  | .witnessScriptHash _ => "witness_v0_scripthash"
  | .taproot _ => "witness_v1_taproot"
  | .anchor => "anchor"
  | .witnessUnknown _ _ => "witness_unknown"

/-- The signatures that a spend needs. -/
def requiredSigs : Template → Nat
  | .multiSig required _ => required
  | .nullData _ | .anchor | .witnessUnknown _ _ => 0
  | _ => 1

/-- The number of a one-byte constant, if it is not negative. -/
def smallNumber? : Push → Option Nat
  | .zero => some 0
  | .small k => some (k.val + 1)
  | _ => none

/-- A key whose length fits its leading byte. -/
def key? (key : Bytes) : Option Bytes := if Curve.Key.wellFormed key then some key else none

/-- Version 0 programs of other sizes can never be spent and are no template. -/
def ofProgram? (version : Nat) (program : Bytes) : Option Template :=
  if version = 0 then
    match Block.ofBytes? 20 program, Block.ofBytes? 32 program with
    | some hash, _ => some (.witnessKeyHash hash)
    | none, some hash => some (.witnessScriptHash hash)
    | none, none => none
  else if version = 1 then
    match Block.ofBytes? 32 program with
    | some key => some (.taproot key)
    | none => some (if program == Witness.anchorProgram then .anchor else .witnessUnknown 1 program)
  else some (.witnessUnknown version program)

def keyPush? : Opcode → Option Bytes
  | .push p => key? p.value
  | _ => none

def pushed? : Opcode → Option Push
  | .push p => some p
  | _ => none

/-- The part of a multisignature script behind its first push. -/
def multiSig? (required : Push) (rest : List Opcode) : Option Template :=
  match rest.reverse with
  | .operation .checkMultiSig :: .push count :: keys => do
    let required ← smallNumber? required
    let count ← smallNumber? count
    let keys ← keys.reverse.mapM keyPush?
    if 1 ≤ required && required ≤ count && keys.length = count then some (.multiSig required keys)
    else none
  | _ => none

def ofOpcodes? (ops : List Opcode) : Option Template :=
  match ops with
  | [.push version, .push (.direct program _)] => do
    let version ← smallNumber? version
    if 2 ≤ program.length && program.length ≤ 40 then ofProgram? version program else none
  | [.operation (.hash .hash160), .push (.direct hash _), .operation .equal] =>
    (Block.ofBytes? 20 hash).map .scriptHash
  | [.operation (.stack .dup), .operation (.hash .hash160), .push (.direct hash _),
      .operation .equalVerify, .operation .checkSig] =>
    (Block.ofBytes? 20 hash).map .pubKeyHash
  | .operation .abort :: data => (data.mapM pushed?).map .nullData
  | [.push (.direct key _), .operation .checkSig] => (key? key).map .pubKey
  | .push required :: rest => multiSig? required rest
  | _ => none

/-- A script with an item that is no opcode is no template. -/
def classify? (s : Bytes) : Option Template :=
  match (Component.parse s : Except ScriptError (Component Opcode)) with
  | .ok c => ofOpcodes? c.ops
  | .error _ => none

end Template

end SpendScript

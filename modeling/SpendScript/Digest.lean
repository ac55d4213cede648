/-
  SpendScript.Digest — what a signature covers.

  There are three digests of a transaction, one for each way an input is spent. Each is a
  hash of a message that is built here on its own (`legacyMessage`, `witnessMessage`,
  `taprootMessage`), so that what a digest commits to can be read off the message. The
  hashes over whole lists of inputs and outputs are shared (`TxHashes`).
-/

import SpendScript.Hash
import SpendScript.Machine.Context
import SpendScript.Script.Basic
import SpendScript.Signature.HashType
import SpendScript.Transaction

namespace SpendScript

/-- Why there is no digest. -/
inductive DigestError where
  | hashType (raw : UInt8)
  | singleWithoutOutput (index : Nat)
  | inputIndex (index inputs : Nat)
  | missingSpentOutputs
  deriving DecidableEq, Repr

def DigestError.message : DigestError → String
  | .hashType raw => String.join ["hash type ", markedHex raw, " is not defined for taproot"]
  | .singleWithoutOutput index =>
    String.join ["SIGHASH_SINGLE with no output at input index ", toString index]
  | .inputIndex index inputs =>
    String.join
      ["input index ", toString index, " is out of range for a transaction with ",
       toString inputs, " inputs"]
  | .missingSpentOutputs => "taproot signature hashes need every spent output"

namespace Digest

/-! ## Legacy digest -/

/-- What is kept of a push that the script ends in: its opcode, and the bytes of its length
    if they are all there. -/
def truncatedHead : Bytes → Bytes
  | [] => []
  | b :: rest =>
    let width := if b == 0x4c then 1 else if b == 0x4d then 2 else if b == 0x4e then 4 else 0
    b :: if width ≤ rest.length then rest.take width else []

def isSeparator (p : Piece) : Bool := p.span == [Operation.codeSeparator.byte]

/-- The bytes of a piece that the digest covers: code separators are left out. -/
def coveredSpan (p : Piece) : Bytes :=
  match p.result with
  | .error (.read _ _) => truncatedHead p.span
  | _ => if isSeparator p then [] else p.span

/-- The script code without its code separators, behind a length that counts a truncated
    push in full. -/
def legacyCode (code : Bytes) : Bytes :=
  let pieces := Script.pieces code
  compactSize (code.length - pieces.countP isSeparator) ++ pieces.flatMap coveredSpan

/-- An input as the message holds it; `signed` is the input whose signature is checked. -/
def legacyInput (code : Bytes) (outputs : SignedOutputs) (signed : Bool) (i : TxIn) : Bytes :=
  i.prevout.encode
    ++ (if signed then legacyCode code else compactSize 0)
    ++ le32 (if signed || outputs == .all then i.sequence else 0)

def legacyInputs (tx : Transaction) (index : Nat) (code : Bytes) (t : HashType) : Bytes :=
  if t.anyoneCanPay then
    compactSize 1 ++ (tx.inputs[index]?).elim [] (legacyInput code t.signedOutputs true)
  else
    compactSize tx.inputs.length
      ++ (tx.inputs.zipIdx.flatMap fun (i, k) => legacyInput code t.signedOutputs (k == index) i)

def legacyOutputs (tx : Transaction) (index : Nat) (t : HashType) : Bytes :=
  match t.signedOutputs with
  | .none => compactSize 0
  | .single =>
    compactSize (index + 1) ++ (List.replicate index TxOut.blank).flatMap TxOut.encode
      ++ (tx.outputs[index]?).elim [] TxOut.encode
  | .all => compactSize tx.outputs.length ++ tx.outputs.flatMap TxOut.encode

def legacyMessage (tx : Transaction) (index : Nat) (code : Bytes) (t : HashType) : Bytes :=
  le32 tx.version.toUInt32 ++ legacyInputs tx index code t ++ legacyOutputs tx index t
    ++ le32 tx.lockTime ++ le32 t.raw.toUInt32

/-- The number one. It is what is signed where there is no output at the signed index. -/
def singleWithoutOutput : Block 32 := ⟨leBytes 32 1, leBytes_length 32 1⟩

def legacy (tx : Transaction) (index : Nat) (code : Bytes) (t : HashType) : Block 32 :=
  if tx.inputs.length ≤ index || (t.signedOutputs == .single && tx.outputs.length ≤ index) then
    singleWithoutOutput
  else Hash.hash256 (legacyMessage tx index code t)

/-! ## Shared hashes -/

/-- The hashes over all outputs that a transaction spends. -/
structure SpentHashes where
  amounts : Block 32
  scripts : Block 32
  outputs : List TxOut

structure TxHashes where
  prevouts : Block 32
  sequences : Block 32
  outputs : Block 32
  spent : Option SpentHashes

def prevoutList (tx : Transaction) : Bytes := tx.inputs.flatMap fun i => i.prevout.encode

def sequenceList (tx : Transaction) : Bytes := tx.inputs.flatMap fun i => le32 i.sequence

def outputList (outputs : List TxOut) : Bytes := outputs.flatMap TxOut.encode

def amountList (outputs : List TxOut) : Bytes := outputs.flatMap fun o => le64 o.value.toUInt64

def scriptList (outputs : List TxOut) : Bytes := outputs.flatMap fun o => sized o.scriptPubKey

/-- Spent outputs are used only if there is one for each input. -/
def TxHashes.of (tx : Transaction) (spent : Option (List TxOut)) : TxHashes where
  prevouts := Hash.sha256 (prevoutList tx)
  sequences := Hash.sha256 (sequenceList tx)
  outputs := Hash.sha256 (outputList tx.outputs)
  spent :=
    match spent with
    | some outputs =>
      if outputs.length = tx.inputs.length then
        some ⟨Hash.sha256 (amountList outputs), Hash.sha256 (scriptList outputs), outputs⟩
      else none
    | none => none

/-! ## Digest of version 0 witness scripts -/

def witnessOutputs (tx : Transaction) (hashes : TxHashes) (index : Nat) (t : HashType) : Block 32 :=
  match t.signedOutputs with
  | .all => Hash.sha256 hashes.outputs.val
  | .single => (tx.outputs[index]?).elim (Block.zero 32) fun o => Hash.hash256 o.encode
  | .none => Block.zero 32

def witnessMessage (tx : Transaction) (hashes : TxHashes) (index : Nat) (input : TxIn) (code : Bytes)
    (amount : Int64) (t : HashType) : Bytes :=
  let prevouts := if t.anyoneCanPay then Block.zero 32 else Hash.sha256 hashes.prevouts.val
  let sequences :=
    if !t.anyoneCanPay && t.signedOutputs == .all then Hash.sha256 hashes.sequences.val
    else Block.zero 32
  le32 tx.version.toUInt32 ++ prevouts.val ++ sequences.val ++ input.prevout.encode ++ sized code
    ++ le64 amount.toUInt64 ++ le32 input.sequence ++ (witnessOutputs tx hashes index t).val
    ++ le32 tx.lockTime ++ le32 t.raw.toUInt32

def witnessV0 (tx : Transaction) (hashes : TxHashes) (index : Nat) (code : Bytes) (amount : Int64)
    (t : HashType) : Except DigestError (Block 32) :=
  match tx.inputs[index]? with
  | none => .error (.inputIndex index tx.inputs.length)
  | some input => .ok (Hash.hash256 (witnessMessage tx hashes index input code amount t))

/-! ## Taproot digest -/

/-- The signed input: on its own if others may be added, otherwise its position. -/
def taprootInput (tx : Transaction) (spent : SpentHashes) (index : Nat) (input : TxIn) (t : HashType) :
    Except DigestError Bytes :=
  if t.anyoneCanPay then
    .ok (input.prevout.encode ++ (spent.outputs[index]?).elim [] TxOut.encode ++ le32 input.sequence)
  else if index < 0x100000000 then .ok (leBytes 4 index)
  else .error (.inputIndex index tx.inputs.length)

/-- The hash of the one output that is covered, if it is one. -/
def taprootOutput (tx : Transaction) (index : Nat) (t : HashType) : Except DigestError Bytes :=
  if t.signedOutputs == .single then
    match tx.outputs[index]? with
    | none => .error (.singleWithoutOutput index)
    | some o => .ok (Hash.sha256 o.encode).val
  else .ok []

def taprootLists (hashes : TxHashes) (spent : SpentHashes) (t : HashType) : Bytes :=
  (if t.anyoneCanPay then []
   else hashes.prevouts.val ++ spent.amounts.val ++ spent.scripts.val ++ hashes.sequences.val)
  ++ if t.signedOutputs == .all then hashes.outputs.val else []

/-- What a tapscript adds: its leaf, a key version and the last code separator. -/
def tapscriptPart (context : Context) : Bytes :=
  if context.version == .tapscript then
    (context.leafHash.getD (Block.zero 32)).val ++ [0] ++ le32 context.separatorPos
  else []

def spendType (context : Context) : UInt8 :=
  (if context.version == .tapscript then 2 else 0) + if context.annexHash.isSome then 1 else 0

def taprootMessage (tx : Transaction) (hashes : TxHashes) (index : Nat) (t : HashType) (context : Context) :
    Except DigestError Bytes := do
  let some input := tx.inputs[index]? | throw (.inputIndex index tx.inputs.length)
  let some spent := hashes.spent | throw .missingSpentOutputs
  if !t.validForTaproot then throw (.hashType t.raw)
  let inputPart ← taprootInput tx spent index input t
  let outputPart ← taprootOutput tx index t
  return [0, t.raw] ++ le32 tx.version.toUInt32 ++ le32 tx.lockTime ++ taprootLists hashes spent t
    ++ [spendType context] ++ inputPart ++ context.annexHash.elim [] Subtype.val ++ outputPart
    ++ tapscriptPart context

def taproot (tx : Transaction) (hashes : TxHashes) (index : Nat) (t : HashType) (context : Context) :
    Except DigestError (Block 32) :=
  (taprootMessage tx hashes index t context).map (Hash.tagged "TapSighash")

end Digest

end SpendScript

/-
  SpendScript.Transaction — what verification sees of a transaction, and its encoding.

  Lengths and counts are written in a variable number of bytes (`compactSize`), byte
  strings behind their length (`sized`).
-/

import SpendScript.Bytes

namespace SpendScript

/-- A reference to an output of an earlier transaction. -/
structure OutPoint where
  txid : Block 32
  vout : UInt32
  deriving DecidableEq

structure TxIn where
  prevout : OutPoint
  scriptSig : Bytes
  sequence : UInt32
  /-- The witness items, the bottom one first. -/
  witness : List Bytes
  deriving DecidableEq

structure TxOut where
  value : Int64
  scriptPubKey : Bytes
  deriving DecidableEq

structure Transaction where
  version : Int32
  inputs : List TxIn
  outputs : List TxOut
  lockTime : UInt32
  deriving DecidableEq

/-! ## Encoding -/

/-- A length or count below `2 ^ 64`, in one, three, five or nine bytes. -/
def compactSize (n : Nat) : Bytes :=
  if n < 0xfd then leBytes 1 n
  else if n < 0x10000 then 0xfd :: leBytes 2 n
  else if n < 0x100000000 then 0xfe :: leBytes 4 n
  else 0xff :: leBytes 8 n

/-- A byte string behind its length. -/
def sized (b : Bytes) : Bytes := compactSize b.length ++ b

def OutPoint.encode (o : OutPoint) : Bytes := o.txid.val ++ le32 o.vout

def TxOut.encode (o : TxOut) : Bytes := le64 o.value.toUInt64 ++ sized o.scriptPubKey

/-- The output that stands for one a signature does not cover. -/
def TxOut.blank : TxOut := ⟨-1, []⟩

/-- A witness as a transaction holds it. -/
def encodeWitness (w : List Bytes) : Bytes := compactSize w.length ++ w.flatMap sized

/-! ## Lock times -/

/-- An input with this sequence number does not take part in the lock time. -/
def finalSequence : UInt32 := 0xffffffff

def TxIn.isFinal (i : TxIn) : Bool := i.sequence == finalSequence

def Transaction.hasWitness (tx : Transaction) : Bool := tx.inputs.any fun i => !i.witness.isEmpty

/-- Lock times below this are block heights, the others points in time. -/
def lockTimeThreshold : Nat := 500000000

/-- A sequence number with this bit is no relative lock time. -/
def sequenceDisableBit : Nat := 31

/-- A relative lock time with this bit counts seconds, otherwise blocks. -/
def sequenceTypeBit : Nat := 22

/-- The bits of a relative lock time that hold its length. -/
def sequenceMask : Nat := 0xffff

end SpendScript

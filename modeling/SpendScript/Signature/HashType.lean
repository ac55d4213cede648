/-
  SpendScript.Signature.HashType — the byte that says what a signature covers.

  Any byte is a hash type, and digests commit to it unchanged. The low five bits choose the
  outputs, the top bit whether other inputs may be added. Six values are defined; only
  those pass the strict reading.
-/

import SpendScript.Bytes

namespace SpendScript

/-- The outputs that a signature covers. -/
inductive SignedOutputs where
  | all
  /-- The output at the position of the signed input. -/
  | single
  | none
  deriving DecidableEq, Repr

structure HashType where
  raw : UInt8
  deriving DecidableEq, Repr

namespace HashType

/-- Why a byte is no defined hash type. -/
inductive Error where
  | invalidSignedOutputs
  | extraBits (bits : UInt8)
  deriving DecidableEq, Repr

def Error.message : Error → String
  | .invalidSignedOutputs => "invalid signed outputs"
  | .extraBits bits => String.join ["extra bits set: ", markedHex bits]

/-- What a taproot signature without a hash type byte means. -/
def default : HashType := ⟨0x00⟩

def all : HashType := ⟨0x01⟩

def none : HashType := ⟨0x02⟩

def single : HashType := ⟨0x03⟩

/-- The bit that leaves the other inputs open. -/
def anyoneCanPayBit : UInt8 := 0x80

/-- With `strict`, only the six defined values are read. -/
def read (strict : Bool) (bits : UInt8) : Except Error HashType :=
  let extra := bits &&& 0x7c
  if strict && extra != 0 then .error (.extraBits extra)
  else if strict && bits &&& 0x03 == 0 then .error .invalidSignedOutputs
  else .ok ⟨bits⟩

def signedOutputs (t : HashType) : SignedOutputs :=
  if t.raw &&& 0x1f == 2 then .none
  else if t.raw &&& 0x1f == 3 then .single
  else .all

def anyoneCanPay (t : HashType) : Bool := t.raw &&& anyoneCanPayBit != 0

def validForTaproot (t : HashType) : Bool := t.raw ≤ 0x03 || (0x81 ≤ t.raw && t.raw ≤ 0x83)

def asm (t : HashType) : String :=
  let outputs := match t.signedOutputs with
    | .all => "ALL"
    | .none => "NONE"
    | .single => "SINGLE"
  if t.anyoneCanPay then outputs ++ "|ANYONECANPAY" else outputs

end HashType

end SpendScript

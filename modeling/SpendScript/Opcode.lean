/-
  SpendScript.Opcode — the items of a script and how they are read.

  An `Opcode` can be written into a script; an `Item` is what a script from elsewhere may
  hold, an opcode or a bad one. Reading takes one item off the front (`readItem`) and
  always says which bytes it took and what is left, since an item that is no item need
  not end the script:
  - `readItem_append`: the bytes taken and the bytes left make up the script.
  - `readItem_rest_length`: nothing is left that was not there.
-/

import SpendScript.Opcode.Push
import SpendScript.Opcode.Operation

namespace SpendScript

inductive Opcode where
  | push (p : Push)
  | control (c : Control)
  | operation (op : Operation)
  deriving DecidableEq, Repr

namespace Opcode

def encode : Opcode → Bytes
  | .push p => p.encode
  | .control c => [c.byte]
  | .operation op => [op.byte]

def size : Opcode → Nat
  | .push p => p.size
  | .control _ | .operation _ => 1

def asm (decodeHashType : Bool) : Opcode → String
  | .push p => p.asm decodeHashType
  | .control c => c.name
  | .operation op => op.name

theorem encode_length (op : Opcode) : op.encode.length = op.size := by
  cases op <;> simp [encode, size, Push.encode_length]

end Opcode

inductive Item where
  | good (op : Opcode)
  | bad (b : Bad)
  deriving DecidableEq, Repr

namespace Item

def encode : Item → Bytes
  | .good op => op.encode
  | .bad b => [b.byte]

def size : Item → Nat
  | .good op => op.size
  | .bad _ => 1

def asm (decodeHashType : Bool) : Item → String
  | .good op => op.asm decodeHashType
  | .bad b => b.name

theorem encode_length (i : Item) : i.encode.length = i.size := by
  cases i <;> simp [encode, size, Opcode.encode_length]

/-- The most keys, and so signatures, of one multisignature check. -/
def maxKeys : Nat := 20

/-- The signature checks that an item may cause. A multisignature check counts the number
    pushed right before it if that is one to sixteen, and otherwise the most keys there
    can be. -/
def sigOps (previous : Option Item) : Item → Nat
  | .good (.operation .checkSig) | .good (.operation .checkSigVerify) => 1
  | .good (.operation .checkMultiSig) | .good (.operation .checkMultiSigVerify) =>
    match previous with
    | some (.good (.push (.small k))) => k.val + 1
    | _ => maxKeys
  | _ => 0

end Item

/-! ## Reading -/

/-- Why the front of a script is no item. -/
inductive ParseError where
  /-- The script ends inside a push. -/
  | read (expected available : Nat)
  | disabled (op : Disabled)
  | pushSize (size : Nat)
  deriving DecidableEq, Repr

namespace ParseError

def message : ParseError → String
  | .read expected available =>
    String.join
      ["expected ", toString expected, " bytes, but only ", toString available,
       " bytes available"]
  | .disabled op => String.join ["disabled opcode encountered: ", op.name]
  | .pushSize _ => "push size (\x7bsize\x7d bytes) exceeded maxmimum (520 bytes)"

def isTruncated : ParseError → Bool
  | .read _ _ => true
  | _ => false

end ParseError

/-- One step of reading: what was read, and from which bytes. -/
structure Piece where
  result : Except ParseError Item
  span : Bytes

/-- A push of the next `n` bytes in the form `wrap`, behind the bytes `lead`. The size is
    judged only once the bytes are there, so an oversized push is stepped over. -/
def readData (lead : Bytes) (wrap : Bytes → Option Push) (n : Nat) (s : Bytes) : Piece × Bytes :=
  let data := s.take n
  if data.length = n then
    let result :=
      if n ≤ Push.maxData then
        match wrap data with
        | some p => .ok (.good (.push p))
        | none => .error (.pushSize data.length)
      else .error (.pushSize n)
    (⟨result, lead ++ data⟩, s.drop n)
  else (⟨.error (.read n s.length), lead ++ s⟩, [])

/-- A push whose size stands in the next `w` bytes. -/
def readSized (lead : UInt8) (wrap : Bytes → Option Push) (w : Nat) (s : Bytes) : Piece × Bytes :=
  let size := s.take w
  if size.length = w then readData (lead :: size) wrap (leNat size) (s.drop w)
  else (⟨.error (.read w s.length), lead :: s⟩, [])

/-- An opcode that is its byte and nothing more. -/
def readByte (b : UInt8) : Except ParseError Item :=
  match Disabled.ofByte? b with
  | some d => .error (.disabled d)
  | none =>
    match Push.ofByte? b, Control.ofByte? b, Operation.ofByte? b with
    | some p, _, _ => .ok (.good (.push p))
    | none, some c, _ => .ok (.good (.control c))
    | none, none, some op => .ok (.good (.operation op))
    | none, none, none => .ok (.bad (Bad.ofByte b))

/-- The item that starts with byte `b` before the bytes `s`, and what it leaves. -/
def readItem (b : UInt8) (s : Bytes) : Piece × Bytes :=
  if 0x01 ≤ b && b < 0x4c then readData [b] Push.direct? b.toNat s
  else if b == 0x4c then readSized b Push.data1? 1 s
  else if b == 0x4d then readSized b Push.data2? 2 s
  else if b == 0x4e then readSized b Push.data4? 4 s
  else (⟨readByte b, [b]⟩, s)

theorem readData_append (lead : Bytes) (wrap : Bytes → Option Push) (n : Nat) (s : Bytes) :
    (readData lead wrap n s).1.span ++ (readData lead wrap n s).2 = lead ++ s := by
  unfold readData
  simp only
  split <;> simp

theorem readSized_append (lead : UInt8) (wrap : Bytes → Option Push) (w : Nat) (s : Bytes) :
    (readSized lead wrap w s).1.span ++ (readSized lead wrap w s).2 = lead :: s := by
  unfold readSized
  simp only
  split
  · rw [readData_append, List.cons_append, List.take_append_drop]
  · simp

theorem readItem_append (b : UInt8) (s : Bytes) :
    (readItem b s).1.span ++ (readItem b s).2 = b :: s := by
  unfold readItem
  split
  · exact readData_append [b] _ _ s
  · split
    · exact readSized_append b _ _ s
    · split
      · exact readSized_append b _ _ s
      · split
        · exact readSized_append b _ _ s
        · rfl

theorem readData_rest_length (lead : Bytes) (wrap : Bytes → Option Push) (n : Nat) (s : Bytes) :
    (readData lead wrap n s).2.length ≤ s.length := by
  unfold readData
  simp only
  split <;> simp

theorem readSized_rest_length (lead : UInt8) (wrap : Bytes → Option Push) (w : Nat) (s : Bytes) :
    (readSized lead wrap w s).2.length ≤ s.length := by
  unfold readSized
  simp only
  split
  · have := readData_rest_length (lead :: s.take w) wrap (leNat (s.take w)) (s.drop w)
    simp only [List.length_drop] at this
    omega
  · simp

theorem readItem_rest_length (b : UInt8) (s : Bytes) : (readItem b s).2.length ≤ s.length := by
  unfold readItem
  split
  · exact readData_rest_length [b] _ _ s
  · split
    · exact readSized_rest_length b _ _ s
    · split
      · exact readSized_rest_length b _ _ s
      · split
        · exact readSized_rest_length b _ _ s
        · exact Nat.le_refl _

end SpendScript

/-
  SpendScript.Opcode.Push — the opcodes that put a constant on the stack.

  A push is a one-byte constant (zero, minus one, one to sixteen) or data behind a length:
  the opcode itself for up to 75 bytes, or a length of one, two or four bytes. Bounds on
  the data are part of the type, so every push can be written and holds at most
  `Push.maxData` bytes. `Push.ofBytes?` picks the shortest push of a value.
-/

import SpendScript.Number
import SpendScript.Signature

namespace SpendScript

inductive Push where
  | zero
  | minusOne
  /-- The numbers one to sixteen; `k` stands for `k + 1`. -/
  | small (k : Fin 16)
  | direct (data : Bytes) (size : 1 ≤ data.length ∧ data.length ≤ 75)
  | data1 (data : Bytes) (size : data.length ≤ 255)
  | data2 (data : Bytes) (size : data.length ≤ 520)
  | data4 (data : Bytes) (size : data.length ≤ 520)
  deriving DecidableEq, Repr

namespace Push

/-- The most bytes that one push puts on the stack. -/
def maxData : Nat := 520

/-- The stack item that a push leaves. -/
def value : Push → Bytes
  | .zero => []
  | .minusOne => [0x81]
  | .small k => [UInt8.ofNat (k.val + 1)]
  | .direct data _ | .data1 data _ | .data2 data _ | .data4 data _ => data

def encode : Push → Bytes
  | .zero => [0x00]
  | .minusOne => [0x4f]
  | .small k => [UInt8.ofNat (0x51 + k.val)]
  | .direct data _ => UInt8.ofNat data.length :: data
  | .data1 data _ => 0x4c :: (leBytes 1 data.length ++ data)
  | .data2 data _ => 0x4d :: (leBytes 2 data.length ++ data)
  | .data4 data _ => 0x4e :: (leBytes 4 data.length ++ data)

/-- The bytes that a push takes in a script. -/
def size : Push → Nat
  | .zero | .minusOne | .small _ => 1
  | .direct data _ => 1 + data.length
  | .data1 data _ => 2 + data.length
  | .data2 data _ => 3 + data.length
  | .data4 data _ => 5 + data.length

/-- The one-byte constant of an opcode byte. -/
def ofByte? (b : UInt8) : Option Push :=
  if b == 0x00 then some .zero
  else if b == 0x4f then some .minusOne
  else if h : 0x51 ≤ b.toNat ∧ b.toNat ≤ 0x60 then some (.small ⟨b.toNat - 0x51, by omega⟩)
  else none

/-- The shortest push of a value; values above `maxData` bytes have none. -/
def ofBytes? (v : Bytes) : Option Push :=
  match v with
  | [] => some .zero
  | [b] =>
    if b == 0x81 then some .minusOne
    else if h : 1 ≤ b.toNat ∧ b.toNat ≤ 16 then
      some (.small ⟨b.toNat - 1, Nat.sub_lt_right_of_lt_add h.1 (Nat.lt_succ_of_le h.2)⟩)
    else some (.direct [b] (by simp))
  | b :: c :: r =>
    let v := b :: c :: r
    if h : v.length ≤ 75 then some (.direct v ⟨by simp [v], h⟩)
    else if h : v.length ≤ 255 then some (.data1 v h)
    else if h : v.length ≤ 520 then some (.data2 v h)
    else none

/-- The shortest push of a number. -/
def ofNumber (n : Int) : Push := (ofBytes? (Number.encode n)).getD .zero

/-- Whether a one-byte constant leaves this value. -/
def isConstant : Bytes → Bool
  | [] => true
  | [b] => b == 0x81 || (1 ≤ b && b ≤ 16)
  | _ => false

/-- Whether no shorter push leaves the same value. -/
def isMinimal : Push → Bool
  | .zero | .minusOne | .small _ => true
  | .direct data _ => !isConstant data
  | .data1 data _ => 0x4c ≤ data.length
  | .data2 data _ => 0x100 ≤ data.length
  | .data4 data _ => 0x10000 ≤ data.length

/-- The number that a push stands for, in up to eight bytes of any form. -/
def toNumber : Push → Except Number.Error Int
  | .zero => .ok 0
  | .minusOne => .ok (-1)
  | .small k => .ok (k.val + 1)
  | .direct data _ | .data1 data _ | .data2 data _ | .data4 data _ =>
    Number.parse false Number.largestSize data

/-- Data as text: short items as numbers, others in hexadecimal. With `decodeHashType`, an
    item that looks like a signature shows its hash type in brackets. -/
def dataAsm (decodeHashType : Bool) (data : Bytes) : String :=
  if data.length ≤ 4 then toString (Number.value data)
  else
    match if decodeHashType then strictHashType? data else none with
    | some t => Bytes.hex data.dropLast ++ "[" ++ t.asm ++ "]"
    | none => data.hex

def asm (decodeHashType : Bool) : Push → String
  | .zero => "0"
  | .minusOne => "-1"
  | .small k => toString (k.val + 1)
  | .direct data _ | .data1 data _ | .data2 data _ | .data4 data _ => dataAsm decodeHashType data

theorem encode_length (p : Push) : p.encode.length = p.size := by
  cases p <;> simp [encode, size] <;> omega

theorem value_length_le (p : Push) : p.value.length ≤ maxData := by
  cases p <;> simp [value, maxData] <;> omega

/-! ## Bounded data -/

/-- A push of a given form, if the data fits it. -/
def direct? (data : Bytes) : Option Push :=
  if h : 1 ≤ data.length ∧ data.length ≤ 75 then some (.direct data h) else none

def data1? (data : Bytes) : Option Push :=
  if h : data.length ≤ 255 then some (.data1 data h) else none

def data2? (data : Bytes) : Option Push :=
  if h : data.length ≤ 520 then some (.data2 data h) else none

def data4? (data : Bytes) : Option Push :=
  if h : data.length ≤ 520 then some (.data4 data h) else none

end Push

/-- A push of `v` whose length comes in the shortest form, whatever the value: small
    numbers are not replaced by constants. -/
def pushEncoding (v : Bytes) : Bytes :=
  if v.length < 0x4c then UInt8.ofNat v.length :: v
  else if v.length ≤ 0xff then 0x4c :: (leBytes 1 v.length ++ v)
  else if v.length ≤ 0xffff then 0x4d :: (leBytes 2 v.length ++ v)
  else 0x4e :: (leBytes 4 v.length ++ v)

end SpendScript

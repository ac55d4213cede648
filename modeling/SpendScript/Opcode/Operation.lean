/-
  SpendScript.Opcode.Operation — the opcodes of one byte that are no pushes.

  Operations come in families by what they work on. Beside them stand the conditionals,
  which act in untaken branches too (`Control`), the opcodes that fail where they are
  reached (`Bad`) and those that fail wherever they stand (`Disabled`). Each family lists
  its members, and reading a byte is a search in that list: `byte_of_ofByte?` and
  `ofByte?_byte` say that it inverts `byte`.
-/

import SpendScript.Bytes

namespace SpendScript

/-! ## Families of operations -/

/-- Operations that move, copy and count stack items. -/
inductive StackOp where
  | toAlt | fromAlt
  | drop2 | dup2 | dup3 | over2 | rot2 | swap2
  | ifDup | depth | drop | dup | nip | over | pick | roll | rot | swap | tuck
  | size
  deriving DecidableEq, Repr

/-- Operations on one number. -/
inductive UnaryOp where
  | add1 | sub1 | negate | abs | not | notEqual0
  deriving DecidableEq, Repr

/-- Operations on two numbers that leave a result. -/
inductive BinaryOp where
  | add | sub | boolAnd | boolOr | numEqual | numNotEqual
  | lessThan | greaterThan | lessThanOrEqual | greaterThanOrEqual | min | max
  deriving DecidableEq, Repr

inductive HashOp where
  | ripemd160 | sha1 | sha256 | hash160 | hash256
  deriving DecidableEq, Repr

/-- Operations without effect that are kept for upgrades. -/
inductive UpgradableNop where
  | nop1 | nop4 | nop5 | nop6 | nop7 | nop8 | nop9 | nop10
  deriving DecidableEq, Repr

inductive Operation where
  | nop
  | verify
  /-- Ends the script with an error. -/
  | abort
  | stack (op : StackOp)
  | equal
  | equalVerify
  | unary (op : UnaryOp)
  | binary (op : BinaryOp)
  | numEqualVerify
  | within
  | hash (op : HashOp)
  | codeSeparator
  | checkSig
  | checkSigVerify
  | checkMultiSig
  | checkMultiSigVerify
  | checkSigAdd
  | checkLockTime
  | checkSequence
  | upgradable (op : UpgradableNop)
  deriving DecidableEq, Repr

/-! ## Bytes and names -/

namespace StackOp

def all : List StackOp :=
  [.toAlt, .fromAlt, .drop2, .dup2, .dup3, .over2, .rot2, .swap2, .ifDup, .depth, .drop, .dup, .nip,
   .over, .pick, .roll, .rot, .swap, .tuck, .size]

def byte : StackOp → UInt8
  | .toAlt => 0x6b
  | .fromAlt => 0x6c
  | .drop2 => 0x6d
  | .dup2 => 0x6e
  | .dup3 => 0x6f
  | .over2 => 0x70
  | .rot2 => 0x71
  | .swap2 => 0x72
  | .ifDup => 0x73
  | .depth => 0x74
  | .drop => 0x75
  | .dup => 0x76
  | .nip => 0x77
  | .over => 0x78
  | .pick => 0x79
  | .roll => 0x7a
  | .rot => 0x7b
  | .swap => 0x7c
  | .tuck => 0x7d
  | .size => 0x82

def name : StackOp → String
  | .toAlt => "OP_TOALTSTACK"
  | .fromAlt => "OP_FROMALTSTACK"
  | .drop2 => "OP_2DROP"
  | .dup2 => "OP_2DUP"
  | .dup3 => "OP_3DUP"
  | .over2 => "OP_2OVER"
  | .rot2 => "OP_2ROT"
  | .swap2 => "OP_2SWAP"
  | .ifDup => "OP_IFDUP"
  | .depth => "OP_DEPTH"
  | .drop => "OP_DROP"
  | .dup => "OP_DUP"
  | .nip => "OP_NIP"
  | .over => "OP_OVER"
  | .pick => "OP_PICK"
  | .roll => "OP_ROLL"
  | .rot => "OP_ROT"
  | .swap => "OP_SWAP"
  | .tuck => "OP_TUCK"
  | .size => "OP_SIZE"

end StackOp

namespace UnaryOp

def all : List UnaryOp := [.add1, .sub1, .negate, .abs, .not, .notEqual0]

def byte : UnaryOp → UInt8
  | .add1 => 0x8b
  | .sub1 => 0x8c
  | .negate => 0x8f
  | .abs => 0x90
  | .not => 0x91
  | .notEqual0 => 0x92

def name : UnaryOp → String
  | .add1 => "OP_1ADD"
  | .sub1 => "OP_1SUB"
  | .negate => "OP_NEGATE"
  | .abs => "OP_ABS"
  | .not => "OP_NOT"
  | .notEqual0 => "OP_0NOTEQUAL"

end UnaryOp

namespace BinaryOp

def all : List BinaryOp :=
  [.add, .sub, .boolAnd, .boolOr, .numEqual, .numNotEqual, .lessThan, .greaterThan, .lessThanOrEqual,
   .greaterThanOrEqual, .min, .max]

def byte : BinaryOp → UInt8
  | .add => 0x93
  | .sub => 0x94
  | .boolAnd => 0x9a
  | .boolOr => 0x9b
  | .numEqual => 0x9c
  | .numNotEqual => 0x9e
  | .lessThan => 0x9f
  | .greaterThan => 0xa0
  | .lessThanOrEqual => 0xa1
  | .greaterThanOrEqual => 0xa2
  | .min => 0xa3
  | .max => 0xa4

def name : BinaryOp → String
  | .add => "OP_ADD"
  | .sub => "OP_SUB"
  | .boolAnd => "OP_BOOLAND"
  | .boolOr => "OP_BOOLOR"
  | .numEqual => "OP_NUMEQUAL"
  | .numNotEqual => "OP_NUMNOTEQUAL"
  | .lessThan => "OP_LESSTHAN"
  | .greaterThan => "OP_GREATERTHAN"
  | .lessThanOrEqual => "OP_LESSTHANOREQUAL"
  | .greaterThanOrEqual => "OP_GREATERTHANOREQUAL"
  | .min => "OP_MIN"
  | .max => "OP_MAX"

end BinaryOp

namespace HashOp

def all : List HashOp := [.ripemd160, .sha1, .sha256, .hash160, .hash256]

def byte : HashOp → UInt8
  | .ripemd160 => 0xa6
  | .sha1 => 0xa7
  | .sha256 => 0xa8
  | .hash160 => 0xa9
  | .hash256 => 0xaa

def name : HashOp → String
  | .ripemd160 => "OP_RIPEMD160"
  | .sha1 => "OP_SHA1"
  | .sha256 => "OP_SHA256"
  | .hash160 => "OP_HASH160"
  | .hash256 => "OP_HASH256"

end HashOp

namespace UpgradableNop

def all : List UpgradableNop := [.nop1, .nop4, .nop5, .nop6, .nop7, .nop8, .nop9, .nop10]

def byte : UpgradableNop → UInt8
  | .nop1 => 0xb0
  | .nop4 => 0xb3
  | .nop5 => 0xb4
  | .nop6 => 0xb5
  | .nop7 => 0xb6
  | .nop8 => 0xb7
  | .nop9 => 0xb8
  | .nop10 => 0xb9

def name : UpgradableNop → String
  | .nop1 => "OP_NOP1"
  | .nop4 => "OP_NOP4"
  | .nop5 => "OP_NOP5"
  | .nop6 => "OP_NOP6"
  | .nop7 => "OP_NOP7"
  | .nop8 => "OP_NOP8"
  | .nop9 => "OP_NOP9"
  | .nop10 => "OP_NOP10"

end UpgradableNop

namespace Operation

def all : List Operation :=
  [.nop, .verify, .abort, .equal, .equalVerify, .numEqualVerify, .within, .codeSeparator, .checkSig,
   .checkSigVerify, .checkMultiSig, .checkMultiSigVerify, .checkSigAdd, .checkLockTime,
   .checkSequence]
  ++ StackOp.all.map stack ++ UnaryOp.all.map unary ++ BinaryOp.all.map binary
  ++ HashOp.all.map hash ++ UpgradableNop.all.map upgradable

def byte : Operation → UInt8
  | .nop => 0x61
  | .verify => 0x69
  | .abort => 0x6a
  | .stack op => op.byte
  | .equal => 0x87
  | .equalVerify => 0x88
  | .unary op => op.byte
  | .binary op => op.byte
  | .numEqualVerify => 0x9d
  | .within => 0xa5
  | .hash op => op.byte
  | .codeSeparator => 0xab
  | .checkSig => 0xac
  | .checkSigVerify => 0xad
  | .checkMultiSig => 0xae
  | .checkMultiSigVerify => 0xaf
  | .upgradable op => op.byte
  | .checkLockTime => 0xb1
  | .checkSequence => 0xb2
  | .checkSigAdd => 0xba

/-- The lock time operations keep the names they had while they were without effect. -/
def name : Operation → String
  | .nop => "OP_NOP"
  | .verify => "OP_VERIFY"
  | .abort => "OP_RETURN"
  | .stack op => op.name
  | .equal => "OP_EQUAL"
  | .equalVerify => "OP_EQUALVERIFY"
  | .unary op => op.name
  | .binary op => op.name
  | .numEqualVerify => "OP_NUMEQUALVERIFY"
  | .within => "OP_WITHIN"
  | .hash op => op.name
  | .codeSeparator => "OP_CODESEPARATOR"
  | .checkSig => "OP_CHECKSIG"
  | .checkSigVerify => "OP_CHECKSIGVERIFY"
  | .checkMultiSig => "OP_CHECKMULTISIG"
  | .checkMultiSigVerify => "OP_CHECKMULTISIGVERIFY"
  | .upgradable op => op.name
  | .checkLockTime => "OP_NOP2"
  | .checkSequence => "OP_NOP3"
  | .checkSigAdd => "OP_CHECKSIGADD"

def ofByte? (b : UInt8) : Option Operation := all.find? (·.byte == b)

theorem byte_of_ofByte? {b : UInt8} {op : Operation} (h : ofByte? b = some op) : op.byte = b := by
  have := List.find?_some h
  simpa using this

theorem ofByte?_byte (op : Operation) : ofByte? op.byte = some op := by
  cases op with
  | stack op | unary op | binary op | hash op | upgradable op => cases op <;> decide
  | _ => decide

end Operation

/-! ## Conditionals -/

/-- The opcodes that open, turn and close a branch. -/
inductive Control where
  | opIf | opNotIf | opElse | opEndIf
  deriving DecidableEq, Repr

namespace Control

def all : List Control := [.opIf, .opNotIf, .opElse, .opEndIf]

def byte : Control → UInt8
  | .opIf => 0x63
  | .opNotIf => 0x64
  | .opElse => 0x67
  | .opEndIf => 0x68

def name : Control → String
  | .opIf => "OP_IF"
  | .opNotIf => "OP_NOTIF"
  | .opElse => "OP_ELSE"
  | .opEndIf => "OP_ENDIF"

def ofByte? (b : UInt8) : Option Control := all.find? (·.byte == b)

theorem byte_of_ofByte? {b : UInt8} {op : Control} (h : ofByte? b = some op) : op.byte = b := by
  have := List.find?_some h
  simpa using this

theorem ofByte?_byte (op : Control) : ofByte? op.byte = some op := by
  cases op <;> decide

end Control

/-! ## Opcodes that fail -/

/-- Opcodes that may stand in a script but fail where they are reached. -/
inductive Bad where
  | reserved | ver | verIf | verNotIf | reserved1 | reserved2
  | unknown (byte : UInt8)
  deriving DecidableEq, Repr

namespace Bad

def byte : Bad → UInt8
  | .reserved => 0x50
  | .ver => 0x62
  | .verIf => 0x65
  | .verNotIf => 0x66
  | .reserved1 => 0x89
  | .reserved2 => 0x8a
  | .unknown b => b

def name : Bad → String
  | .reserved => "OP_RESERVED"
  | .ver => "OP_VER"
  | .verIf => "OP_VERIF"
  | .verNotIf => "OP_VERNOTIF"
  | .reserved1 => "OP_RESERVED1"
  | .reserved2 => "OP_RESERVED2"
  | .unknown _ => "OP_UNKNOWN"

def named : List Bad := [.reserved, .ver, .verIf, .verNotIf, .reserved1, .reserved2]

def ofByte (b : UInt8) : Bad := (named.find? (·.byte == b)).getD (.unknown b)

theorem byte_ofByte (b : UInt8) : (ofByte b).byte = b := by
  unfold ofByte
  cases h : named.find? (·.byte == b) with
  | none => rfl
  | some bad => simpa using List.find?_some h

/-- Fails even in a branch that is not taken. -/
def isAlwaysReached : Bad → Bool
  | .verIf | .verNotIf => true
  | _ => false

end Bad

/-- Opcodes that no script may hold. -/
inductive Disabled where
  | cat | substr | left | right | invert | and | or | xor
  | mul2 | div2 | mul | div | mod | lshift | rshift
  deriving DecidableEq, Repr

namespace Disabled

def all : List Disabled :=
  [.cat, .substr, .left, .right, .invert, .and, .or, .xor, .mul2, .div2, .mul, .div, .mod, .lshift,
   .rshift]

def byte : Disabled → UInt8
  | .cat => 0x7e
  | .substr => 0x7f
  | .left => 0x80
  | .right => 0x81
  | .invert => 0x83
  | .and => 0x84
  | .or => 0x85
  | .xor => 0x86
  | .mul2 => 0x8d
  | .div2 => 0x8e
  | .mul => 0x95
  | .div => 0x96
  | .mod => 0x97
  | .lshift => 0x98
  | .rshift => 0x99

def name : Disabled → String
  | .cat => "OP_CAT"
  | .substr => "OP_SUBSTR"
  | .left => "OP_LEFT"
  | .right => "OP_RIGHT"
  | .invert => "OP_INVERT"
  | .and => "OP_AND"
  | .or => "OP_OR"
  | .xor => "OP_XOR"
  | .mul2 => "OP_2MUL"
  | .div2 => "OP_2DIV"
  | .mul => "OP_MUL"
  | .div => "OP_DIV"
  | .mod => "OP_MOD"
  | .lshift => "OP_LSHIFT"
  | .rshift => "OP_RSHIFT"

def ofByte? (b : UInt8) : Option Disabled := all.find? (·.byte == b)

theorem byte_of_ofByte? {b : UInt8} {op : Disabled} (h : ofByte? b = some op) : op.byte = b := by
  have := List.find?_some h
  simpa using this

end Disabled

end SpendScript

/-
  SpendScript.Script.Basic — scripts as byte strings.

  A script is cut into pieces from the front (`pieces`), each an item or the reason why it
  is none; only a truncated push uses up all that is left. Questions about a script are
  answered from its pieces or straight from its bytes. Main statement: `pieces_spans`,
  the spans of the pieces put together are the script.
-/

import SpendScript.Opcode

namespace SpendScript.Script

/-- The most bytes of a script outside tapscript. -/
def maxSize : Nat := 10000

def pieces : Bytes → List Piece
  | [] => []
  | b :: s =>
    let next := readItem b s
    next.1 :: pieces next.2
termination_by s => s.length
decreasing_by
  have := readItem_rest_length b s
  simp only [List.length_cons]
  omega

theorem pieces_spans (s : Bytes) : (pieces s).flatMap Piece.span = s := by
  fun_induction pieces s with
  | case1 => rfl
  | case2 b s next ih => rw [List.flatMap_cons, ih]; exact readItem_append b s

/-- What reading gives at each item in turn. -/
def items (s : Bytes) : List (Except ParseError Item) := (pieces s).map Piece.result

/-- All items, or the first reading error. -/
def parse (s : Bytes) : Except ParseError (List Item) := (items s).mapM id

def encode (ops : List Opcode) : Bytes := ops.flatMap Opcode.encode

/-! ## Shapes of scripts -/

/-- A hash of twenty bytes between the two opcodes that compare it. -/
def isPayToScriptHash (s : Bytes) : Bool :=
  s.length == 23 && s[0]? == some (Operation.hash .hash160).byte && s[1]? == some 0x14
    && s[22]? == some Operation.equal.byte

/-- Whether reading came upon a push. An oversized push counts as one, since sizes are judged
    when it is run, and so does the reserved opcode between the constants. -/
def countsAsPush : Except ParseError Item → Bool
  | .error (.pushSize _) => true
  | .ok (.good (.push _)) => true
  | .ok (.bad .reserved) => true
  | _ => false

def isPushOnly (s : Bytes) : Bool := (items s).all countsAsPush

/-- Never spendable: it fails at once, or is too large to be run. -/
def isUnspendable (s : Bytes) : Bool :=
  s.head? == some Operation.abort.byte || maxSize < s.length

/-- A version (zero to sixteen) followed by a direct push of 2 to 40 bytes. -/
def witnessProgram? (s : Bytes) : Option (Nat × Bytes) :=
  match s with
  | version :: size :: program =>
    if 2 ≤ program.length && program.length ≤ 40 && size.toNat == program.length then
      if version == 0 then some (0, program)
      else if 0x51 ≤ version && version ≤ 0x60 then some (version.toNat - 0x50, program)
      else none
    else none
  | _ => none

/-! ## Signature operations -/

/-- Counts up to the first truncated push; an item that cannot be read is no push before
    the next one. -/
def countSigOps (accurate : Bool) (previous : Option Item) : List (Except ParseError Item) → Nat
  | [] => 0
  | .ok item :: rest =>
    item.sigOps (if accurate then previous else none) + countSigOps accurate (some item) rest
  | .error (.read _ _) :: _ => 0
  | .error _ :: rest => countSigOps accurate none rest

/-- Counts stay at the largest number of 32 bits once they come to it. -/
def saturate (n : Nat) : Nat := min n 0xffffffff

/-- A bound on the signature checks of a script. The accurate one trusts the number of keys
    that is pushed right before a multisignature check. -/
def sigOps (accurate : Bool) (s : Bytes) : Nat := saturate (countSigOps accurate none (items s))

/-! ## Deletion -/

/-- Goes through `s` item by item; `kept` holds the spans kept so far, the last one first.
    A match may end inside an item, and reading goes on from there. A truncated push is
    kept with all that follows. -/
def deleteFrom (pattern : Bytes) (kept : List Bytes) (found : Nat) (s : Bytes) : List Bytes × Nat :=
  if hp : pattern ≠ [] ∧ pattern <+: s then
    deleteFrom pattern kept (found + 1) (s.drop pattern.length)
  else
    match s with
    | [] => (kept, found)
    | b :: s =>
      let next := readItem b s
      match next.1.result with
      | .error (.read _ _) => ((b :: s) :: kept, found)
      | _ => deleteFrom pattern (next.1.span :: kept) found next.2
termination_by s.length
decreasing_by
  · have := hp.2.length_le
    have := List.length_pos_iff.mpr hp.1
    simp only [List.length_drop]
    omega
  · have := readItem_rest_length b s
    simp only [List.length_cons]
    omega

/-- Every occurrence of `pattern` that starts at an item removed, and their number. -/
def findAndDelete (pattern s : Bytes) : Bytes × Nat :=
  let (kept, found) := deleteFrom pattern [] 0 s
  (kept.reverse.flatten, found)

/-! ## Text -/

/-- Text ends at the first item that cannot be read; disabled opcodes have names. -/
def asmParts (decodeHashType : Bool) : List (Except ParseError Item) → List String
  | [] => []
  | .ok item :: rest => item.asm decodeHashType :: asmParts decodeHashType rest
  | .error (.disabled op) :: rest => op.name :: asmParts decodeHashType rest
  | .error _ :: _ => ["[error]"]

/-- Hash types are never looked for in a script that cannot be spent. -/
def asm (decodeHashType : Bool) (s : Bytes) : String :=
  " ".intercalate (asmParts (decodeHashType && !isUnspendable s) (items s))

end SpendScript.Script

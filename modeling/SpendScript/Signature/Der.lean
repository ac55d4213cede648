/-
  SpendScript.Signature.Der — the two readings of an encoded ECDSA signature.

  `check` accepts the canonical encodings only: a compound of two integers, each
  non-negative, in the fewest bytes, and the lengths exact. `lax?` reads anything that the
  first implementations read: it skips the outer length, allows long forms and padding,
  and ignores what follows. A component that is no residue makes both components zero,
  which no key verifies.
-/

import SpendScript.Curve.Verify

namespace SpendScript.Der

/-- What is wrong with one integer. -/
inductive IntegerError where
  | notAnInteger
  | incorrectLength (actual expected : Nat)
  | zeroLength
  | leadingZero
  | negative
  deriving DecidableEq, Repr

def IntegerError.message : IntegerError → String
  | .notAnInteger => "missing the 0x02 integer encoding byte"
  | .incorrectLength actual expected =>
    String.join
      ["the integer was expected to be ", toString expected, " bytes, but it was ", toString actual,
       " bytes"]
  | .zeroLength => "integers can’t be zero-length"
  | .leadingZero =>
    "leading 0x00 bytes are disallowed, unless it would otherwise be interpreted as a negative number."
  | .negative => "integers can’t be negative"

inductive Component where
  | r
  | s
  deriving DecidableEq, Repr

def Component.name : Component → String
  | .r => "r"
  | .s => "s"

inductive Error where
  | wrongType
  | tooLong
  | incorrectLength (actual expected : Nat)
  | component (which : Component) (value : Option Bytes) (error : IntegerError)
  deriving DecidableEq, Repr

def Error.message : Error → String
  | .wrongType => "didn’t start with 0x30, or was missing the length"
  | .tooLong => "the signature can’t be longer than 70 bytes"
  | .incorrectLength actual expected =>
    String.join
      ["the signature was expected to be ", toString expected, " bytes, but it was ", toString actual,
       " bytes"]
  | .component which value error =>
    let shown := match value with
      | some b => String.join ["(", b.listing, ") "]
      | none => ""
    String.join ["the ", which.name, " component ", shown, "failed: ", error.message]

/-! ## Canonical encodings -/

/-- The most bytes that may follow the outer length. -/
def maxContent : Nat := 70

/-- A leading zero stands only before a byte that would make the number negative. -/
def checkInteger : Bytes → Except IntegerError Unit
  | [] => .error .zeroLength
  | [first] => if first &&& 0x80 == 0 then .ok () else .error .negative
  | first :: next :: _ =>
    if first == 0 then if next &&& 0x80 != 0 then .ok () else .error .leadingZero
    else if first &&& 0x80 == 0 then .ok ()
    else .error .negative

/-- The last integer, whose length byte has to count all that is left. -/
def checkLast (size : UInt8) (s : Bytes) : Except Error Unit :=
  if size.toNat = s.length then (checkInteger s).mapError (.component .s (some s))
  else .error (.component .s (some s) (.incorrectLength s.length size.toNat))

def checkContent (content : Bytes) : Except Error Unit :=
  match content with
  | tag :: size :: rest =>
    if tag != 0x02 then .error (.component .r none .notAnInteger)
    else
      let r := rest.take size.toNat
      match rest.drop size.toNat with
      | tag' :: size' :: s =>
        if tag' != 0x02 then .error (.component .s none .notAnInteger)
        else do
          (checkInteger r).mapError (.component .r (some r))
          checkLast size' s
      | _ => .error (.component .s none .notAnInteger)
  | _ => .error (.component .r none .notAnInteger)

/-- The canonical form of a signature: `30`, the length of the rest, `02`, the length of
    `r`, `r`, `02`, the length of `s`, `s`. -/
def check (sig : Bytes) : Except Error Unit :=
  match sig with
  | tag :: total :: content =>
    if tag != 0x30 then .error .wrongType
    else if maxContent < total.toNat then .error .tooLong
    else if total.toNat != content.length then .error (.incorrectLength content.length total.toNat)
    else checkContent content
  | _ => .error .wrongType

/-! ## Lax encodings -/

/-- `n` bytes and what follows them, if there are so many. -/
def split? (n : Nat) (b : Bytes) : Option (Bytes × Bytes) :=
  if n ≤ b.length then some (b.take n, b.drop n) else none

/-- A length in its short or its long form. -/
def laxLength? : Bytes → Option (Nat × Bytes)
  | [] => none
  | b :: rest =>
    if b &&& 0x80 == 0 then some (b.toNat, rest)
    else do
      let (size, rest) ← split? (b.toNat - 0x80) rest
      let digits := size.dropWhile (· == 0)
      if digits.length < 8 then some (beNat digits, rest) else none

def laxInteger? : Bytes → Option (Bytes × Bytes)
  | [] => none
  | tag :: rest =>
    if tag == 0x02 then do
      let (size, rest) ← laxLength? rest
      split? size rest
    else none

/-- The header of the compound, whose length is passed over. -/
def laxHeader? : Bytes → Option Bytes
  | tag :: b :: rest =>
    if tag != 0x30 then none
    else if b &&& 0x80 == 0 then some rest
    else (split? (b.toNat - 0x80) rest).map Prod.snd
  | _ => none

/-- A residue modulo the order, from bytes that may be padded with zeros. -/
def residue? (b : Bytes) : Option Nat :=
  let digits := b.dropWhile (· == 0)
  if digits.length ≤ 32 && beNat digits < Curve.order then some (beNat digits) else none

def lax? (sig : Bytes) : Option Curve.Ecdsa := do
  let content ← laxHeader? sig
  let (r, rest) ← laxInteger? content
  let (s, _) ← laxInteger? rest
  match residue? r, residue? s with
  | some r, some s => some ⟨r, s⟩
  | _, _ => some ⟨0, 0⟩

end SpendScript.Der

/-
  SpendScript.Signature — signatures as they stand on the stack.

  An ECDSA signature is an encoded pair followed by a hash type byte. Decoding has three
  outcomes: a signature, no signature (the check goes on and fails), or an error that ends
  the script. Which encodings are errors depends on the rules asked for
  (`Decoded.decode_of_getLast?` gives the checks in a row). A Schnorr signature is 64 bytes,
  with a hash type byte unless it is the default one.
-/

import SpendScript.Signature.HashType
import SpendScript.Signature.Der

namespace SpendScript

inductive SignatureError where
  | hashType (error : HashType.Error)
  | der (error : Der.Error)
  | highS
  | schnorrSize (size : Nat)
  | schnorrHashType (raw : UInt8)
  | schnorr
  deriving DecidableEq, Repr

def SignatureError.message : SignatureError → String
  | .hashType error => String.join ["signature hash type error: ", error.message]
  | .der error => String.join ["signature DER encoding error: ", error.message]
  | .highS => "signature s value is too high"
  | .schnorrSize size =>
    String.join ["Schnorr signatures must be 64 or 65 bytes, not ", toString size]
  | .schnorrHashType raw => String.join ["invalid Schnorr signature hash type: ", markedHex raw]
  | .schnorr => "invalid Schnorr signature"

/-- Which encodings of an ECDSA signature are errors. -/
structure EncodingRules where
  requireDer : Bool
  requireLowS : Bool
  strict : Bool
  deriving DecidableEq, Repr

/-- An ECDSA signature with its hash type; its second residue is the lower of the two. -/
structure Decoded where
  sig : Curve.Ecdsa
  hashType : HashType
  deriving DecidableEq, Repr

namespace Decoded

/-- Lax reading and normalization, without any rule. -/
def ofParts? (sig : Bytes) (hashType : HashType) : Option Decoded :=
  (Der.lax? sig).map fun pair => ⟨pair.normalize, hashType⟩

/-- An error ends the script; no signature makes the check fail. An empty string is the
    compact way to give no signature. -/
def decode (rules : EncodingRules) (item : Bytes) : Except SignatureError (Option Decoded) :=
  match item.getLast? with
  | none => .ok none
  | some last => do
    let sig := item.dropLast
    if rules.requireDer || rules.requireLowS || rules.strict then
      (Der.check sig).mapError .der
    if rules.requireLowS && !((Der.lax? sig).any Curve.Ecdsa.isLowS) then
      throw .highS
    let hashType ← (HashType.read rules.strict last).mapError .hashType
    return ofParts? sig hashType

theorem decode_of_getLast? (rules : EncodingRules) {item : Bytes} {last : UInt8}
    (hl : item.getLast? = some last) :
    decode rules item =
      (if rules.requireDer || rules.requireLowS || rules.strict then
        (Der.check item.dropLast).mapError SignatureError.der else .ok ()) >>= fun _ =>
      if rules.requireLowS && !((Der.lax? item.dropLast).any Curve.Ecdsa.isLowS) then .error .highS
      else (HashType.read rules.strict last).mapError SignatureError.hashType >>= fun t =>
        .ok (ofParts? item.dropLast t) := by
  unfold decode
  rw [hl]
  dsimp only
  split
  · cases Der.check item.dropLast with
    | error e => rfl
    | ok u => show (if _ then _ else _) = (if _ then _ else _); split <;> rfl
  · show (if _ then _ else _) = (if _ then _ else _); split <;> rfl

end Decoded

/-- The hash type of a canonically encoded signature that has a defined one. -/
def strictHashType? (item : Bytes) : Option HashType :=
  match item.getLast? with
  | none => none
  | some last => do
    (Der.check item.dropLast).toOption
    (HashType.read true last).toOption

structure Schnorr where
  sig : Block 64
  hashType : HashType
  deriving DecidableEq, Repr

namespace Schnorr

/-- The default hash type is never written out. -/
def decode (item : Bytes) : Except SignatureError Schnorr :=
  if h : item.length = 64 then .ok ⟨⟨item, h⟩, .default⟩
  else if h : item.length = 65 then
    let last := item.getLast (by intro e; simp [e] at h)
    if last == 0 then .error (.schnorrHashType 0)
    else .ok ⟨⟨item.dropLast, by simp [h]⟩, ⟨last⟩⟩
  else .error (.schnorrSize item.length)

end Schnorr

end SpendScript

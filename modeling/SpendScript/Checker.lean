/-
  SpendScript.Checker — answers from one input of a transaction.

  `InputView.oracle` answers each question afresh. `InputView.responder` remembers the ECDSA
  checks it has made, and reports when it uses one again; a check is known by the script
  code, the kind of digest, the key and the signature as it stood on the stack.
-/

import SpendScript.Dialogue

namespace SpendScript

/-- An input of a transaction, with the amount it spends and the shared hashes. -/
structure InputView where
  tx : Transaction
  index : Nat
  amount : Int64
  hashes : Digest.TxHashes

namespace InputView

/-- The digest that an ECDSA signature covers. -/
def ecdsaDigest? (v : InputView) (c : EcdsaCheck) : Option (Block 32) :=
  match c.version with
  | .base => some (Digest.legacy v.tx v.index c.code c.sig.hashType)
  | .witnessV0 =>
    (Digest.witnessV0 v.tx v.hashes v.index c.code v.amount c.sig.hashType).toOption
  | .taproot | .tapscript => none

/-- A key that is no point verifies nothing. -/
def checkEcdsa (v : InputView) (c : EcdsaCheck) : Bool :=
  match v.ecdsaDigest? c, Curve.Key.point? c.key with
  | some digest, some key => c.sig.sig.verify key digest
  | _, _ => false

def schnorrDigest (v : InputView) (c : SchnorrCheck) : Except DigestError (Block 32) :=
  Digest.taproot v.tx v.hashes v.index c.sig.hashType c.context

/-- A signature without a digest has a hash type that does not fit. -/
def checkSchnorr (v : InputView) (c : SchnorrCheck) : Except SignatureError Unit :=
  match v.schnorrDigest c with
  | .error _ => .error (.schnorrHashType c.sig.hashType.raw)
  | .ok digest =>
    if Curve.verifySchnorr c.key digest c.sig.sig then .ok () else .error .schnorr

/-- Only lock times of one kind are compared, and a final input has none. -/
def checkLockTime (v : InputView) (n : Int) : Bool :=
  let lockTime : Int := v.tx.lockTime.toNat
  if decide (lockTime < lockTimeThreshold) != decide (n < lockTimeThreshold) then false
  else if lockTime < n then false
  else (v.tx.inputs[v.index]?).any fun i => !i.isFinal

/-- The kind and the length of a relative lock time. -/
def maskSequence (n : Int) : Nat :=
  (n % 0x100000000).toNat &&& (2 ^ sequenceTypeBit ||| sequenceMask)

/-- Relative lock times need a version of two or more, read without a sign. -/
def checkSequence (v : InputView) (n : Int) : Bool :=
  match v.tx.inputs[v.index]? with
  | none => false
  | some input =>
    let sequence := input.sequence.toNat
    if v.tx.version == 0 || v.tx.version == 1 then false
    else if sequence.testBit sequenceDisableBit then false
    else
      let given := maskSequence sequence
      let asked := maskSequence n
      if decide (given < 2 ^ sequenceTypeBit) != decide (asked < 2 ^ sequenceTypeBit) then false
      else asked ≤ given

/-- A key whose length does not fit its leading byte is not checked at all. -/
def oracle (v : InputView) : Oracle
  | .ecdsa c => if Curve.Key.wellFormed c.key then v.checkEcdsa c else false
  | .schnorr c => v.checkSchnorr c
  | .lockTime n => v.checkLockTime n
  | .sequence n => v.checkSequence n

/-! ## Remembered checks -/

structure CacheKey where
  code : Bytes
  version : SigVersion
  key : Bytes
  item : Bytes
  deriving DecidableEq

def cacheKey (c : EcdsaCheck) : CacheKey := ⟨c.code, c.version, c.key, c.item⟩

abbrev Cache := List (CacheKey × Bool)

def cachedEcdsa (v : InputView) (c : EcdsaCheck) (cache : Cache) : Reply (.ecdsa c) Cache :=
  if Curve.Key.wellFormed c.key then
    match cache.lookup (cacheKey c) with
    | some result => ⟨result, [.cacheHit result], cache⟩
    | none =>
      let result := v.checkEcdsa c
      ⟨result, [], (cacheKey c, result) :: cache⟩
  else ⟨false, [], cache⟩

def responder (v : InputView) : Responder Cache
  | .ecdsa c, cache => v.cachedEcdsa c cache
  | .schnorr c, cache =>
    let events := match v.schnorrDigest c with
      | .error e => [Event.noDigest e]
      | .ok _ => []
    ⟨v.checkSchnorr c, events, cache⟩
  | .lockTime n, cache => ⟨v.checkLockTime n, [], cache⟩
  | .sequence n, cache => ⟨v.checkSequence n, [], cache⟩

end InputView

end SpendScript

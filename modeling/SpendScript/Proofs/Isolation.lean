/-
  SpendScript.Proofs.Isolation — an input is verified whatever unlocks the others.

  Two transactions agree at an input if they differ at most in the unlocking scripts and the
  witnesses of the other inputs (`Transaction.AgreeAt`). Verification sees a transaction in
  two ways. The input itself is unlocked by its own script and witness, which are the same
  on both sides, so the dialogue is. Its questions are answered from the whole transaction,
  and there it is the strings that are hashed which are the same already
  (`legacyMessage_eq`, `witnessMessage_eq`, `taprootMessage_eq`): nothing is used of the hash
  functions or of the curve.
  - `InputView.responder_eq`: every question is answered alike, with the same events, from
    and into the same remembered checks.
  - `verifyInput_eq_of_agreeAt`: so the two verifications have one result and one transcript.
-/

import SpendScript.Proofs.Spend

namespace SpendScript

/-- An input without what unlocks it. -/
def TxIn.locked (i : TxIn) : TxIn := { i with scriptSig := [], witness := [] }

/-- The transactions differ at most in what unlocks the inputs other than the one at `index`. -/
structure Transaction.AgreeAt (index : Nat) (tx tx' : Transaction) : Prop where
  version : tx.version = tx'.version
  lockTime : tx.lockTime = tx'.lockTime
  outputs : tx.outputs = tx'.outputs
  inputs : tx.inputs.map TxIn.locked = tx'.inputs.map TxIn.locked
  input : tx.inputs[index]? = tx'.inputs[index]?

/-- What does not look at a part of the elements is the same for lists that are the same
    without it. -/
theorem flatMap_eq_of_map_eq {α β : Type} {g : α → α} {f : α → List β} {l l' : List α} (h : l.map g = l'.map g)
    (hf : ∀ a, f (g a) = f a) : l.flatMap f = l'.flatMap f := by
  have hmap (l : List α) : l.flatMap f = (l.map g).flatMap f := by
    rw [List.flatMap_map]
    simp only [hf]
  rw [hmap l, hmap l', h]

namespace Transaction.AgreeAt

variable {index : Nat} {tx tx' : Transaction}

theorem length_eq (h : AgreeAt index tx tx') : tx.inputs.length = tx'.inputs.length := by
  simpa using congrArg List.length h.inputs

theorem zipIdx_eq (h : AgreeAt index tx tx') :
    tx.inputs.zipIdx.map (Prod.map TxIn.locked id) = tx'.inputs.zipIdx.map (Prod.map TxIn.locked id) := by
  rw [← List.zipIdx_map, ← List.zipIdx_map, h.inputs]

/-! ## What is hashed -/

theorem prevoutList_eq (h : AgreeAt index tx tx') : Digest.prevoutList tx = Digest.prevoutList tx' :=
  flatMap_eq_of_map_eq h.inputs fun _ => rfl

theorem sequenceList_eq (h : AgreeAt index tx tx') : Digest.sequenceList tx = Digest.sequenceList tx' :=
  flatMap_eq_of_map_eq h.inputs fun _ => rfl

theorem hashes_eq (h : AgreeAt index tx tx') (spent : Option (List TxOut)) :
    Digest.TxHashes.of tx spent = Digest.TxHashes.of tx' spent := by
  unfold Digest.TxHashes.of
  rw [h.prevoutList_eq, h.sequenceList_eq, h.outputs, h.length_eq]

theorem legacyInputs_eq (h : AgreeAt index tx tx') (code : Bytes) (t : HashType) :
    Digest.legacyInputs tx index code t = Digest.legacyInputs tx' index code t := by
  unfold Digest.legacyInputs
  rw [h.input, h.length_eq]
  -- even of the signed input only the prevout and the sequence number are covered
  rw [flatMap_eq_of_map_eq h.zipIdx_eq fun _ => rfl]

theorem legacyMessage_eq (h : AgreeAt index tx tx') (code : Bytes) (t : HashType) :
    Digest.legacyMessage tx index code t = Digest.legacyMessage tx' index code t := by
  unfold Digest.legacyMessage Digest.legacyOutputs
  rw [h.version, h.lockTime, h.outputs, h.legacyInputs_eq]

theorem legacy_eq (h : AgreeAt index tx tx') (code : Bytes) (t : HashType) :
    Digest.legacy tx index code t = Digest.legacy tx' index code t := by
  unfold Digest.legacy
  rw [h.length_eq, h.outputs, h.legacyMessage_eq]

theorem witnessMessage_eq (h : AgreeAt index tx tx') (hashes : Digest.TxHashes) (input : TxIn) (code : Bytes)
    (amount : Int64) (t : HashType) :
    Digest.witnessMessage tx hashes index input code amount t =
      Digest.witnessMessage tx' hashes index input code amount t := by
  unfold Digest.witnessMessage Digest.witnessOutputs
  rw [h.version, h.lockTime, h.outputs]

theorem witnessV0_eq (h : AgreeAt index tx tx') (hashes : Digest.TxHashes) (code : Bytes) (amount : Int64)
    (t : HashType) :
    Digest.witnessV0 tx hashes index code amount t = Digest.witnessV0 tx' hashes index code amount t := by
  unfold Digest.witnessV0
  simp only [h.input, h.length_eq, h.witnessMessage_eq]

theorem taprootMessage_eq (h : AgreeAt index tx tx') (hashes : Digest.TxHashes) (t : HashType) (context : Context) :
    Digest.taprootMessage tx hashes index t context = Digest.taprootMessage tx' hashes index t context := by
  unfold Digest.taprootMessage Digest.taprootInput Digest.taprootOutput
  rw [h.input, h.length_eq, h.version, h.lockTime, h.outputs]

theorem taproot_eq (h : AgreeAt index tx tx') (hashes : Digest.TxHashes) (t : HashType) (context : Context) :
    Digest.taproot tx hashes index t context = Digest.taproot tx' hashes index t context := by
  unfold Digest.taproot
  rw [h.taprootMessage_eq]

end Transaction.AgreeAt

/-! ## Answers -/

namespace InputView

/-- The view of another transaction. -/
def withTx (v : InputView) (tx : Transaction) : InputView := { v with tx := tx }

variable {v : InputView} {tx' : Transaction}

theorem checkEcdsa_eq (h : v.tx.AgreeAt v.index tx') (c : EcdsaCheck) :
    v.checkEcdsa c = (v.withTx tx').checkEcdsa c := by
  have hdigest : v.ecdsaDigest? c = (v.withTx tx').ecdsaDigest? c := by
    unfold ecdsaDigest?
    rw [h.legacy_eq, h.witnessV0_eq]
    rfl
  unfold checkEcdsa
  rw [hdigest]

theorem schnorrDigest_eq (h : v.tx.AgreeAt v.index tx') (c : SchnorrCheck) :
    v.schnorrDigest c = (v.withTx tx').schnorrDigest c :=
  h.taproot_eq v.hashes c.sig.hashType c.context

theorem checkSchnorr_eq (h : v.tx.AgreeAt v.index tx') (c : SchnorrCheck) :
    v.checkSchnorr c = (v.withTx tx').checkSchnorr c := by
  unfold checkSchnorr
  rw [schnorrDigest_eq h]

theorem checkLockTime_eq (h : v.tx.AgreeAt v.index tx') (n : Int) :
    v.checkLockTime n = (v.withTx tx').checkLockTime n := by
  unfold checkLockTime
  rw [h.lockTime, h.input]
  rfl

theorem checkSequence_eq (h : v.tx.AgreeAt v.index tx') (n : Int) :
    v.checkSequence n = (v.withTx tx').checkSequence n := by
  unfold checkSequence
  rw [h.version, h.input]
  rfl

/-- Questions are answered alike from transactions that agree at the input. -/
theorem responder_eq (h : v.tx.AgreeAt v.index tx') : v.responder = (v.withTx tx').responder := by
  funext q cache
  cases q with
  | ecdsa c =>
    show v.cachedEcdsa c cache = (v.withTx tx').cachedEcdsa c cache
    unfold cachedEcdsa
    rw [checkEcdsa_eq h]
  | schnorr c => simp only [responder, checkSchnorr_eq h, schnorrDigest_eq h]
  | lockTime n => simp only [responder, checkLockTime_eq h]
  | sequence n => simp only [responder, checkSequence_eq h]

end InputView

/-! ## Verification -/

theorem SpentOutputs.output_eq {index : Nat} {tx tx' : Transaction} (h : tx.AgreeAt index tx') (spent : SpentOutputs) :
    spent.output tx index = spent.output tx' index := by
  unfold SpentOutputs.output
  rw [h.length_eq]

/-- The view that answers is one of the given transaction and input. -/
theorem InputSpend.view_of_eq_ok {rules : Rules} {tx : Transaction} {index : Nat} {spent : SpentOutputs} {s : InputSpend}
    (h : InputSpend.of rules tx index spent = .ok s) : s.view.tx = tx ∧ s.view.index = index := by
  obtain ⟨-, -, -, hview⟩ := InputSpend.of_eq_ok.mp h
  rw [hview]
  exact ⟨rfl, rfl⟩

/-- In the other transaction the input is found with the same output, or missing alike. -/
theorem InputSpend.of_eq {index : Nat} {tx tx' : Transaction} (h : tx.AgreeAt index tx') (rules : Rules)
    (spent : SpentOutputs) :
    InputSpend.of rules tx' index spent =
      (InputSpend.of rules tx index spent).map fun s => { s with view := s.view.withTx tx' } := by
  unfold InputSpend.of
  rw [← h.input, ← h.length_eq, ← SpentOutputs.output_eq h, ← h.hashes_eq]
  cases tx.inputs[index]? with
  | none => rfl
  | some input =>
    cases spent.output tx index with
    | error e => rfl
    | ok output =>
      simp only [bind, Except.bind]
      split
      · rfl
      · rfl

/-- What unlocks the other inputs has no part in verifying an input: the result, the remembered
    checks and the transcript are the same. -/
theorem verifyInput_eq_of_agreeAt (rules : Rules) {tx tx' : Transaction} {index : Nat} (h : tx.AgreeAt index tx')
    (spent : SpentOutputs) : verifyInput rules tx index spent = verifyInput rules tx' index spent := by
  unfold verifyInput
  rw [InputSpend.of_eq h]
  cases hs : InputSpend.of rules tx index spent with
  | error e => rfl
  | ok s =>
    obtain ⟨rfl, rfl⟩ := InputSpend.view_of_eq_ok hs
    show (s.verify rules).converse s.view.responder [] =
      (s.verify rules).converse (s.view.withTx tx').responder []
    rw [InputView.responder_eq h]

/-- The second of two inputs waits for its relative lock time, and does so in the same way
    behind a first one that nothing unlocks. -/
theorem verifyInput_eq_of_agreeAt_sequence :
    ∃ tx tx' : Transaction, tx.inputs ≠ tx'.inputs ∧ ∃ spent,
      (verifyInput Rules.mandatory tx 1 spent).result.toOption = some true ∧
        (verifyInput Rules.mandatory tx' 1 spent).result.toOption = some true := by
  have h : ∃ tx tx' : Transaction, tx.inputs ≠ tx'.inputs ∧ tx.AgreeAt 1 tx' ∧ ∃ spent,
      (verifyInput Rules.mandatory tx 1 spent).result.toOption = some true :=
    ⟨⟨2, [⟨⟨Block.zero 32, 0⟩, [0x51], 8, []⟩, ⟨⟨Block.zero 32, 1⟩, [0x51], 7, []⟩], [⟨5, [0x51]⟩], 0⟩,
      ⟨2, [⟨⟨Block.zero 32, 0⟩, [0x6a], 8, [[1]]⟩, ⟨⟨Block.zero 32, 1⟩, [0x51], 7, []⟩], [⟨5, [0x51]⟩], 0⟩,
      by decide, by constructor <;> decide, .all [⟨3, []⟩, ⟨9, [0xb2]⟩], by decide +kernel⟩
  obtain ⟨tx, tx', hne, hagree, spent, hresult⟩ := h
  have heq := verifyInput_eq_of_agreeAt Rules.mandatory hagree spent
  exact ⟨tx, tx', hne, spent, hresult, by rw [← heq, hresult]⟩

end SpendScript

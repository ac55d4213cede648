/-
  SpendScript.Proofs.SpentOutputs — how much a caller has to know of what a transaction spends.

  An input can be verified with the one output it spends or with those of all inputs. All are
  needed by the digest of taproot alone, and that is asked for by a Schnorr check alone. The
  guard on what the caller gave (`InputSpend.of`) looks at the output; that it covers every
  Schnorr check, behind a script hash, in a tapscript or anywhere else, is a fact about the
  whole spend (`verifyScript_keeps`).
  - `schnorrDigest_has_data`: no digest of a Schnorr check lacks what the caller had to give,
    so that is never taken for a bad signature.
  - `verifyInput_all_eq_one`: where one output is enough, the others have no part in
    verification: it has the same result, remembered checks and transcript.
  - `verifyInput_all_of_one`: what that says of the verdict.
-/

import Mathlib
import SpendScript.Proofs.Attribution
import SpendScript.Proofs.Spend
import SpendScript.Verify

namespace SpendScript

open Dialogue

variable {rules : Rules} {tx : Transaction} {index : Nat} {spent : SpentOutputs}

/-! ## Verification asks no more than the spend -/

/-- Schnorr signatures are asked for only by an output of taproot. -/
def contractTerms (rules : Rules) (pubKey : Bytes) : Terms ContractError where
  answers _ _ := True
  asks q := q.isSchnorr = true → Spend.SpendsTaproot rules pubKey
  fails _ := True

theorem checkRules_keeps (pubKey : Bytes) : (checkRules rules).Keeps (contractTerms rules pubKey) := by
  unfold checkRules
  split
  · exact keeps_pure ()
  · exact keeps_report.bind fun _ _ => keeps_fail trivial

theorem verdict_keeps (pubKey : Bytes) (spend : Except (Part × ScriptError) Bool) :
    (verdict spend).Keeps (contractTerms rules pubKey) := by
  unfold verdict
  split
  · exact keeps_pure true
  · exact keeps_report.bind fun _ _ => keeps_pure false
  · exact keeps_report.bind fun _ _ => keeps_pure false

theorem verifyScript_keeps (sig pubKey : Bytes) (witness : List Bytes) :
    (verifyScript rules sig pubKey witness).Keeps (contractTerms rules pubKey) := by
  have hspend : (Spend.eval rules (.ofScript sig) (.ofScript pubKey) witness).Keeps
      (Spend.terms rules (.ofScript sig) (.ofScript pubKey) fun _ _ => True) :=
    Spend.eval_keeps (.bytes sig) (.bytes pubKey)
  have hattempt : (Spend.eval rules (.ofScript sig) (.ofScript pubKey) witness).attempt.Keeps
      (contractTerms rules pubKey) := hspend.attempt (fun _ _ h => h) fun _ h => h
  exact (checkRules_keeps pubKey).bind fun _ _ => hattempt.bind fun spend _ => verdict_keeps pubKey spend

/-! ## What the caller gave -/

theorem SpentOutputs.output_all_eq_ok {outputs : List TxOut} {o : TxOut} :
    (SpentOutputs.all outputs).output tx index = .ok o ↔
      outputs.length = tx.inputs.length ∧ outputs[index]? = some o := by
  simp only [SpentOutputs.output]
  split
  · rename_i hcount
    cases outputs[index]? <;> simp [hcount]
  · rename_i hcount
    simp [hcount]

/-- The guard sees every output that is spent as taproot, so that all outputs were given for
    it. -/
theorem InputSpend.spent_of_spendsTaproot {s : InputSpend} (h : InputSpend.of rules tx index spent = .ok s)
    (htap : Spend.SpendsTaproot rules s.output.scriptPubKey) :
    ∃ shared, s.view.hashes.spent = some shared ∧ index < shared.outputs.length := by
  obtain ⟨-, houtput, hguard, hview⟩ := InputSpend.of_eq_ok.mp h
  obtain ⟨-, htaproot, program, hprogram, hlen⟩ := htap
  have hrecognised : isTaprootOutput s.output = true := by
    unfold isTaprootOutput
    simp [hprogram, hlen]
  cases spent with
  | one output => exact absurd ⟨htaproot, hrecognised, rfl⟩ hguard
  | all outputs =>
    obtain ⟨hcount, ho⟩ := SpentOutputs.output_all_eq_ok.mp houtput
    obtain ⟨hindex, -⟩ := List.getElem?_eq_some_iff.mp ho
    rw [hview]
    exact ⟨_, if_pos hcount, hindex⟩

/-! ## Digests of Schnorr checks -/

/-- There is no digest because of the hash type, whether it is undefined or covers an output
    that is not there. -/
def HashType.AtFault (t : HashType) (index : Nat) (e : DigestError) : Prop :=
  e = .hashType t.raw ∨ e = .singleWithoutOutput index

namespace Digest

variable {t : HashType}

theorem taprootInput_fails {shared : SpentHashes} {input : TxIn} (hindex : index < 2 ^ 32) :
    FailsIn (taprootInput tx shared index input t) (t.AtFault index) := by
  unfold taprootInput
  split
  · exact failsIn_ok
  · rw [if_pos (show index < 0x100000000 from hindex)]
    exact failsIn_ok

theorem taprootOutput_fails : FailsIn (taprootOutput tx index t) (t.AtFault index) := by
  unfold taprootOutput
  split
  · split
    · exact failsIn_error (Or.inr rfl)
    · exact failsIn_ok
  · exact failsIn_ok

/-- With the input there and the spent outputs given, nothing else can be at fault. -/
theorem taproot_fails {hashes : TxHashes} {input : TxIn} {shared : SpentHashes} {context : Context}
    (hindex : index < 2 ^ 32) (hinput : tx.inputs[index]? = some input) (hspent : hashes.spent = some shared) :
    FailsIn (taproot tx hashes index t context) (t.AtFault index) := by
  refine FailsIn.map ?_
  unfold taprootMessage
  simp only [hinput, hspent]
  split
  · exact failsIn_error (Or.inl rfl)
  · exact (taprootInput_fails hindex).bind fun _ => taprootOutput_fails.bind fun _ => failsIn_ok

end Digest

/-- Whenever an input is verified, the digest of every Schnorr check is made with the input in
    range and all spent outputs at hand, the one of the input among them. -/
theorem schnorrDigest_has_data {b : Bool} (hindex : index < 2 ^ 32)
    (h : (verifyInput rules tx index spent).result = .ok b) :
    ∃ s, InputSpend.of rules tx index spent = .ok s ∧
      ∀ c a, ⟨.schnorr c, a⟩ ∈ (verifyInput rules tx index spent).exchanges →
        a = s.view.checkSchnorr c ∧ s.view.index < s.view.tx.inputs.length ∧
        (∃ shared, s.view.hashes.spent = some shared ∧ s.view.index < shared.outputs.length) ∧
        s.view.schnorrDigest c ≠ .error .missingSpentOutputs ∧
        ∀ i n, s.view.schnorrDigest c ≠ .error (.inputIndex i n) := by
  unfold verifyInput at h ⊢
  cases hs : InputSpend.of rules tx index spent with
  | error e => rw [hs] at h; cases h
  | ok s =>
    refine ⟨s, rfl, fun c a hx => ?_⟩
    obtain ⟨hinput, -, -, hview⟩ := InputSpend.of_eq_ok.mp hs
    have hkeeps : (s.verify rules).Keeps (contractTerms rules s.output.scriptPubKey) := verifyScript_keeps _ _ _
    have htap := (hkeeps.of_converse s.view.responder [] fun _ _ => trivial).1 _ hx rfl
    obtain ⟨shared, hshared, hlt⟩ := InputSpend.spent_of_spendsTaproot hs htap
    obtain ⟨_, hanswer⟩ := answer_of_mem_exchanges hx
    have hfails : FailsIn (s.view.schnorrDigest c) (c.sig.hashType.AtFault index) := by
      unfold InputView.schnorrDigest
      rw [hview] at hshared ⊢
      exact Digest.taproot_fails hindex hinput hshared
    refine ⟨hanswer, ?_, ⟨shared, hshared, ?_⟩, fun he => ?_, fun i n he => ?_⟩
    · rw [hview]
      exact (List.getElem?_eq_some_iff.mp hinput).1
    · rw [hview]
      exact hlt
    · rcases hfails _ he with h | h <;> cases h
    · rcases hfails _ he with h | h <;> cases h

/-- A signature that covers only the output at the index of its input, where there is none: it
    is checked and false, and neither the input nor what it spends is missing. -/
theorem schnorrDigest_has_data_single :
    ∃ (tx : Transaction) (outputs : List TxOut) (s : InputSpend) (c : SchnorrCheck) (a : Except SignatureError Unit),
      (verifyInput (Rules.ofList [.p2sh, .witness, .taproot]) tx 0 (.all outputs)).result = .ok false ∧
        InputSpend.of (Rules.ofList [.p2sh, .witness, .taproot]) tx 0 (.all outputs) = .ok s ∧
        ⟨.schnorr c, a⟩ ∈ (verifyInput (Rules.ofList [.p2sh, .witness, .taproot]) tx 0 (.all outputs)).exchanges ∧
        s.view.schnorrDigest c ≠ .error .missingSpentOutputs ∧
        ∀ i n, s.view.schnorrDigest c ≠ .error (.inputIndex i n) := by
  have h : ∃ (tx : Transaction) (outputs : List TxOut),
      (verifyInput (Rules.ofList [.p2sh, .witness, .taproot]) tx 0 (.all outputs)).result = .ok false ∧
        ∃ x ∈ (verifyInput (Rules.ofList [.p2sh, .witness, .taproot]) tx 0 (.all outputs)).exchanges,
          x.1.isSchnorr = true :=
    ⟨⟨2, [⟨⟨Block.zero 32, 0⟩, [], 7, [List.replicate 64 1 ++ [3]]⟩], [], 0⟩,
      [⟨9, [0x51, 32] ++ List.replicate 32 1⟩], by decide +kernel, by decide +kernel⟩
  obtain ⟨tx, outputs, hresult, ⟨q, a⟩, hx, hq⟩ := h
  cases q with
  | ecdsa | lockTime | sequence => cases hq
  | schnorr c =>
    obtain ⟨s, hs, hall⟩ := schnorrDigest_has_data (by decide) hresult
    obtain ⟨-, -, -, hspent, hindex⟩ := hall c a hx
    exact ⟨tx, outputs, s, c, a, hresult, hs, hx, hspent, hindex⟩

/-! ## Verification with one output -/

/-- The view with other spent outputs. -/
def InputView.withSpent (v : InputView) (spent : Option Digest.SpentHashes) : InputView :=
  { v with hashes := { v.hashes with spent := spent } }

/-- Only for Schnorr checks is it looked up what the other inputs spend. -/
theorem InputView.responder_withSpent (v : InputView) (spent : Option Digest.SpentHashes) {q : Query}
    (hq : q.isSchnorr = false) (cache : Cache) : (v.withSpent spent).responder q cache = v.responder q cache := by
  cases q with
  | schnorr c => cases hq
  | ecdsa c | lockTime n | sequence n => rfl

/-- Where the one output is enough, verification with all of them is the same, step by step. -/
theorem verifyInput_all_eq_one {o : TxOut} {b : Bool} {outputs : List TxOut}
    (h : (verifyInput rules tx index (.one o)).result = .ok b) (hcount : outputs.length = tx.inputs.length)
    (ho : outputs[index]? = some o) :
    verifyInput rules tx index (.all outputs) = verifyInput rules tx index (.one o) := by
  unfold verifyInput at h ⊢
  cases hs : InputSpend.of rules tx index (.one o) with
  | error e => rw [hs] at h; cases h
  | ok s =>
    obtain ⟨hinput, houtput, -, hview⟩ := InputSpend.of_eq_ok.mp hs
    have hall : InputSpend.of rules tx index (.all outputs) =
        .ok { s with view := s.view.withSpent (Digest.TxHashes.of tx (some outputs)).spent } := by
      refine InputSpend.of_eq_ok.mpr ⟨hinput, ?_, ?_, ?_⟩
      · cases houtput
        exact SpentOutputs.output_all_eq_ok.mpr ⟨hcount, ho⟩
      · rintro ⟨-, -, h⟩
        cases h
      · rw [hview]
        rfl
    rw [hall]
    refine converse_congr (verifyScript_keeps _ _ _) (fun _ _ => trivial) (fun q cache hq => ?_) []
    refine InputView.responder_withSpent s.view _ ?_ cache
    -- a Schnorr check would have needed the outputs that were not given
    by_contra hschnorr
    obtain ⟨shared, hshared, -⟩ := InputSpend.spent_of_spendsTaproot hs (hq (by simpa using hschnorr))
    rw [hview] at hshared
    cases hshared

/-- If the output that an input spends is enough for a verdict, it is the verdict with all spent
    outputs too, whatever the others are. -/
theorem verifyInput_all_of_one {o : TxOut} {b : Bool} (h : (verifyInput rules tx index (.one o)).result = .ok b)
    (outputs : List TxOut) (hcount : outputs.length = tx.inputs.length) (ho : outputs[index]? = some o) :
    (verifyInput rules tx index (.all outputs)).result = .ok b := by
  rw [verifyInput_all_eq_one h hcount ho, h]

/-- A relative lock time is checked beside an input of taproot, with that output given or not. -/
theorem verifyInput_all_of_one_sequence :
    ∃ (tx : Transaction) (o o' : TxOut), isTaprootOutput o' = true ∧
      (verifyInput Rules.standard tx 1 (.one o)).result = .ok true ∧
      (verifyInput Rules.standard tx 1 (.all [o', o])).result = .ok true := by
  have h : ∃ (tx : Transaction) (o o' : TxOut), tx.inputs.length = 2 ∧ isTaprootOutput o' = true ∧
      (verifyInput Rules.standard tx 1 (.one o)).result = .ok true :=
    ⟨⟨2, [⟨⟨Block.zero 32, 0⟩, [], 8, []⟩, ⟨⟨Block.zero 32, 1⟩, [0x51], 7, []⟩], [⟨5, [0x51]⟩], 0⟩,
      ⟨9, [0xb2]⟩, ⟨3, [0x51, 32] ++ List.replicate 32 1⟩, rfl, by decide, by decide +kernel⟩
  obtain ⟨tx, o, o', hinputs, htap, hone⟩ := h
  exact ⟨tx, o, o', htap, hone, verifyInput_all_of_one hone [o', o] (by simp [hinputs]) rfl⟩

end SpendScript

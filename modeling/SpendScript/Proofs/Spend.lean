/-
  SpendScript.Proofs.Spend — what an accepted spend went through.

  A spend is true exactly when each of its parts ran to its end and let it pass:
  `Spend.run_eval_eq_true` lists them with what each hands on to the next, and
  `run_verifyScript_eq_true` says that verification adds nothing but the check that the
  rules go together. Where a spend fails, `Spend.run_eval_eq_sig_error` tells what may be
  put down to the unlocking script. `InputSpend.of_eq_ok` is about what comes before any of
  this, whether the caller gave enough.
-/

import SpendScript.Proofs.Dialogue
import SpendScript.Verify

namespace SpendScript

/-- Rules that go together. -/
theorem Rules.check_eq_ok {rules : Rules} :
    rules.check = .ok () ↔
      (rules.has .cleanStack = true → rules.has .witness = true) ∧
      (rules.has .witness = true → rules.has .p2sh = true) := by
  unfold Rules.check
  cases rules.has .cleanStack <;> cases rules.has .witness <;> cases rules.has .p2sh <;> simp

namespace Spend

variable {o : Oracle} {rules : Rules} {sig pubKey : Program} {witness : List Bytes}

theorem run_inPart_eq_ok {α : Type} {part : Part} {d : Dialogue ScriptError α} {a : α} :
    (inPart part d).run o = .ok a ↔ d.run o = .ok a := by
  unfold inPart
  rw [Dialogue.run_mapError, mapError_eq_ok]

/-- Without the rule on witnesses no script is a witness program. -/
theorem programStep_of_not_witness (hw : ¬ rules.has .witness = true) {script : Bytes}
    {malleated nested : Bool} {fault : ScriptError} {r : Remains} :
    programStep rules witness script malleated fault nested r = .ret (some r) := by
  unfold programStep
  rw [if_neg hw]

theorem run_andThen_eq_true {step : Step} {next : Remains → Dialogue (Part × ScriptError) Bool} :
    (andThen step next).run o = .ok true ↔
      ∃ r, step.run o = .ok (some r) ∧ (next r).run o = .ok true := by
  unfold andThen
  rw [Dialogue.run_bind_eq_ok]
  constructor
  · intro hx
    obtain ⟨r, hr, h⟩ := hx
    cases r with
    | none => cases h
    | some r => exact ⟨r, hr, h⟩
  · intro hx
    obtain ⟨r, hr, h⟩ := hx
    exact ⟨some r, hr, h⟩

/-- A script hash is passed with a redeem script on top of what the unlocking script
    pushed, and with what that redeem script asks for. -/
theorem run_redeemStep_eq_some {data : Stack} {r r' : Remains}
    (hp : (rules.has .p2sh && Script.isPayToScriptHash pubKey.bytes) = true) :
    (redeemStep rules sig pubKey witness data r).run o = .ok (some r') ↔
      sig.isPushOnly = true ∧ ∃ redeem rest stack, data = redeem :: rest ∧
        (Script.eval rules redeem rest (Context.fresh .base)).run o = .ok stack ∧ isTrue stack = true ∧
        (nestedStep rules sig witness redeem { r with depth := stack.length }).run o = .ok (some r') := by
  unfold redeemStep
  rw [if_pos hp]
  constructor
  · intro h
    split at h
    · cases h
    rename_i hs
    cases data with
    | nil => cases h
    | cons redeem rest =>
      obtain ⟨_, -, h⟩ := Dialogue.run_bind_eq_ok.mp h
      obtain ⟨stack, hst, h⟩ := Dialogue.run_bind_eq_ok.mp h
      split at h
      · rename_i ht
        exact ⟨by simpa using hs, redeem, rest, stack, rfl, run_inPart_eq_ok.mp hst, ht, h⟩
      · cases h
  · intro hx
    obtain ⟨hs, redeem, rest, stack, rfl, hst, ht, h⟩ := hx
    rw [if_neg (by simpa using hs)]
    refine Dialogue.run_bind_eq_ok.mpr ⟨(), rfl, ?_⟩
    refine Dialogue.run_bind_eq_ok.mpr ⟨stack, run_inPart_eq_ok.mpr hst, ?_⟩
    rw [if_pos ht]
    exact h

/-- The parts of a true spend: both scripts, a witness program, a redeem script, and the
    check of what is left. -/
theorem run_eval_eq_true :
    (eval rules sig pubKey witness).run o = .ok true ↔
      (rules.has .sigPushOnly = true → sig.isPushOnly = true) ∧
      ∃ data stack r r', (sig.eval rules [] (Context.fresh .base)).run o = .ok data ∧
        (pubKey.eval rules data (Context.fresh .base)).run o = .ok stack ∧ isTrue stack = true ∧
        (nativeStep rules sig pubKey witness ⟨stack.length, false⟩).run o = .ok (some r) ∧
        (redeemStep rules sig pubKey witness data r).run o = .ok (some r') ∧
        checkRemains rules witness r' = .ok () := by
  constructor
  · intro h
    unfold eval at h
    split at h
    · cases h
    rename_i hp
    obtain ⟨_, -, h⟩ := Dialogue.run_bind_eq_ok.mp h
    obtain ⟨data, hd, h⟩ := Dialogue.run_bind_eq_ok.mp h
    obtain ⟨_, -, h⟩ := Dialogue.run_bind_eq_ok.mp h
    obtain ⟨stack, hst, h⟩ := Dialogue.run_bind_eq_ok.mp h
    split at h
    · rename_i ht
      obtain ⟨r, hn, h⟩ := run_andThen_eq_true.mp h
      obtain ⟨r', hr, h⟩ := run_andThen_eq_true.mp h
      obtain ⟨u, hc, -⟩ := Dialogue.run_bind_eq_ok.mp h
      rw [Dialogue.run_liftM] at hc
      exact ⟨by simpa using hp, data, stack, r, r', run_inPart_eq_ok.mp hd, run_inPart_eq_ok.mp hst, ht, hn, hr, hc⟩
    · cases h
  · intro hx
    obtain ⟨hp, data, stack, r, r', hd, hst, ht, hn, hr, hc⟩ := hx
    unfold eval
    rw [if_neg (by simpa using hp)]
    refine Dialogue.run_bind_eq_ok.mpr ⟨(), rfl, ?_⟩
    refine Dialogue.run_bind_eq_ok.mpr ⟨data, run_inPart_eq_ok.mpr hd, ?_⟩
    refine Dialogue.run_bind_eq_ok.mpr ⟨(), rfl, ?_⟩
    refine Dialogue.run_bind_eq_ok.mpr ⟨stack, run_inPart_eq_ok.mpr hst, ?_⟩
    rw [if_pos ht]
    refine run_andThen_eq_true.mpr ⟨r, hn, run_andThen_eq_true.mpr ⟨r', hr, ?_⟩⟩
    refine Dialogue.run_bind_eq_ok.mpr ⟨(), ?_, rfl⟩
    rw [Dialogue.run_liftM]
    exact hc

/-! ## Failures of the unlocking script -/

/-- Why the unlocking script is at fault, other than that it does not run. -/
def IsSigFault (e : ScriptError) : Prop :=
  e = .sigPushOnly ∨ e = .witnessMalleated ∨ e = .witnessMalleatedP2sh

theorem run_inPart_eq_error {α : Type} {part part' : Part} {d : Dialogue ScriptError α} {e : ScriptError} :
    (inPart part d).run o = .error (part', e) ↔ part = part' ∧ d.run o = .error e := by
  unfold inPart
  rw [Dialogue.run_mapError_eq_error]
  constructor
  · intro hx
    obtain ⟨e', h, he⟩ := hx
    cases he
    exact ⟨rfl, h⟩
  · intro hx
    obtain ⟨rfl, h⟩ := hx
    exact ⟨e, h, rfl⟩

theorem run_witnessStep_ne_sig {program : Nat × Bytes} {nested : Bool} {e : ScriptError} :
    (witnessStep rules witness program nested).run o ≠ .error (.sig, e) := by
  intro h
  rcases Dialogue.run_bind_eq_error.mp h with h | ⟨_, _, h⟩
  · have hp := (run_inPart_eq_error.mp h).1
    cases hp
  · cases h

theorem run_programStep_eq_sig_error {script : Bytes} {malleated nested : Bool} {fault e : ScriptError}
    {r : Remains}
    (h : (programStep rules witness script malleated fault nested r).run o = .error (.sig, e)) :
    e = fault := by
  unfold programStep at h
  split at h
  · cases h
  · split at h
    · cases h; rfl
    · exact absurd h run_witnessStep_ne_sig

theorem sigFault_of_redeemStep {data : Stack} {r : Remains} {e : ScriptError}
    (h : (redeemStep rules sig pubKey witness data r).run o = .error (.sig, e)) : IsSigFault e := by
  unfold redeemStep at h
  split at h
  · split at h
    · cases h; exact Or.inl rfl
    · cases data with
      | nil => cases h
      | cons redeem rest =>
        rcases Dialogue.run_bind_eq_error.mp h with h | ⟨_, -, h⟩
        · cases h
        rcases Dialogue.run_bind_eq_error.mp h with h | ⟨stack, -, h⟩
        · have hp := (run_inPart_eq_error.mp h).1
          cases hp
        split at h
        · exact Or.inr (Or.inr (run_programStep_eq_sig_error h))
        · cases h
  · cases h

theorem run_andThen_eq_error {step : Step} {next : Remains → Dialogue (Part × ScriptError) Bool}
    {e : Part × ScriptError} (h : (andThen step next).run o = .error e) :
    step.run o = .error e ∨ ∃ r, (next r).run o = .error e := by
  rcases Dialogue.run_bind_eq_error.mp h with h | ⟨r, -, h⟩
  · exact Or.inl h
  · cases r with
    | none => cases h
    | some r => exact Or.inr ⟨r, h⟩

/-- A failure is put down to the unlocking script if it fails itself or is at fault. -/
theorem run_eval_eq_sig_error {e : ScriptError}
    (h : (eval rules sig pubKey witness).run o = .error (.sig, e)) :
    (sig.eval rules [] (Context.fresh .base)).run o = .error e ∨ IsSigFault e := by
  unfold eval at h
  split at h
  · cases h; exact Or.inr (Or.inl rfl)
  rcases Dialogue.run_bind_eq_error.mp h with h | ⟨_, -, h⟩
  · cases h
  rcases Dialogue.run_bind_eq_error.mp h with h | ⟨data, -, h⟩
  · exact Or.inl (run_inPart_eq_error.mp h).2
  rcases Dialogue.run_bind_eq_error.mp h with h | ⟨_, -, h⟩
  · cases h
  rcases Dialogue.run_bind_eq_error.mp h with h | ⟨stack, -, h⟩
  · have hp := (run_inPart_eq_error.mp h).1
    cases hp
  split at h
  · rcases run_andThen_eq_error h with h | ⟨r, h⟩
    · exact Or.inr (Or.inr (Or.inl (run_programStep_eq_sig_error h)))
    rcases run_andThen_eq_error h with h | ⟨r', h⟩
    · exact Or.inr (sigFault_of_redeemStep h)
    rcases Dialogue.run_bind_eq_error.mp h with h | ⟨_, _, h⟩
    · rw [Dialogue.run_liftM] at h
      unfold checkRemains at h
      split at h
      · cases h
      · split at h <;> cases h
    · cases h
  · cases h

theorem run_eval_of_sig_error {e : ScriptError} (hp : sig.isPushOnly = true)
    (h : (sig.eval rules [] (Context.fresh .base)).run o = .error e) :
    (eval rules sig pubKey witness).run o = .error (.sig, e) := by
  unfold eval
  rw [if_neg (by simp [hp])]
  refine Dialogue.run_bind_eq_error.mpr (Or.inr ⟨(), rfl, ?_⟩)
  exact Dialogue.run_bind_eq_error.mpr (Or.inl (run_inPart_eq_error.mpr ⟨rfl, h⟩))

/-- A spend depends on its scripts only through their bytes and what running them does. -/
theorem eval_congr {sig' pubKey' : Program} (hb : sig.bytes = sig'.bytes) (hs : sig.size = sig'.size)
    (hp : sig.isPushOnly = sig'.isPushOnly)
    (he : sig.eval rules [] (Context.fresh .base) = sig'.eval rules [] (Context.fresh .base))
    (hkb : pubKey.bytes = pubKey'.bytes) (hks : pubKey.size = pubKey'.size)
    (hke : ∀ data, pubKey.eval rules data (Context.fresh .base) = pubKey'.eval rules data (Context.fresh .base)) :
    eval rules sig pubKey witness = eval rules sig' pubKey' witness := by
  simp only [eval, nativeStep, redeemStep, nestedStep, hb, hs, hp, he, hkb, hks, hke]

end Spend

theorem run_verifyScript_eq_true {o : Oracle} {rules : Rules} {sig pubKey : Bytes} {witness : List Bytes} :
    (verifyScript rules sig pubKey witness).run o = .ok true ↔
      rules.check = .ok () ∧
        (Spend.eval rules (.ofScript sig) (.ofScript pubKey) witness).run o = .ok true := by
  unfold verifyScript
  rw [Dialogue.run_bind_eq_ok]
  constructor
  · intro hx
    obtain ⟨u, hc, h⟩ := hx
    obtain ⟨spend, hs, h⟩ := Dialogue.run_bind_eq_ok.mp h
    rw [Dialogue.run_attempt] at hs
    cases hs
    refine ⟨?_, ?_⟩
    · unfold checkRules at hc
      split at hc
      · assumption
      · cases hc
    · unfold verdict at h
      split at h
      · assumption
      · cases h
      · cases h
  · intro hx
    obtain ⟨hc, h⟩ := hx
    refine ⟨(), ?_, Dialogue.run_bind_eq_ok.mpr ⟨.ok true, ?_, rfl⟩⟩
    · unfold checkRules
      rw [hc]
      rfl
    · rw [Dialogue.run_attempt, h]

/-- An input is verified if it is there with the output it spends, and all outputs are given if
    that one is a taproot output. -/
theorem InputSpend.of_eq_ok {rules : Rules} {tx : Transaction} {index : Nat} {spent : SpentOutputs} {s : InputSpend} :
    InputSpend.of rules tx index spent = .ok s ↔
      tx.inputs[index]? = some s.input ∧ spent.output tx index = .ok s.output ∧
        ¬(rules.has .taproot = true ∧ isTaprootOutput s.output = true ∧ spent.outputs? = none) ∧
        s.view = ⟨tx, index, s.output.value, Digest.TxHashes.of tx spent.outputs?⟩ := by
  unfold InputSpend.of
  cases tx.inputs[index]? with
  | none => simp [throw, throwThe, MonadExceptOf.throw]
  | some input =>
    simp only [bind_eq_ok]
    constructor
    · intro h
      obtain ⟨output, houtput, h⟩ := h
      split at h
      · cases h
      · rename_i hguard
        cases h
        exact ⟨rfl, houtput, by simpa [and_assoc] using hguard, rfl⟩
    · intro h
      obtain ⟨hinput, houtput, hguard, hview⟩ := h
      refine ⟨s.output, houtput, ?_⟩
      rw [if_neg (by simpa [and_assoc] using hguard), ← hview, Option.some.inj hinput]
      rfl

end SpendScript

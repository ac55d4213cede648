/-
  SpendScript.Proofs.NullFail — a check that fails was given no signature.

  Whoever can make a check fail could put any bytes in place of the signature. Under the rule on
  failed checks that is an error of its own, so that of a check which fails quietly, and leaves
  false on the stack, every signature is known to be empty. Told of any course of the answers:
  - `Check.eq_nil_of_single`: a single check that ends in false had an empty signature;
    `yields_evalCheckMultiSig` says it of all signatures of a multisignature check.
  And told from the check to the opcode, where the operands stand on the stack:
  - `Check.result_ecdsaOp_of_false` / `result_evalCheckMultiSig_of_false`: a check that ends in
    false on a signature that is not empty.
  `failed_check_had_no_signature` puts both together.
-/

import Mathlib
import SpendScript.Proofs.Machine

namespace SpendScript

open Dialogue

variable {σ : Type} {r : Responder σ} {a : σ} {rules : Rules} {script : Bytes}

/-! ## One signature -/

namespace Check

variable {context context' : Context} {item key : Bytes}

theorem eq_nil_of_ecdsaOp (hn : rules.has .nullFail = true)
    (h : (ecdsaOp rules script context item key).Yields false) : item = [] := by
  obtain ⟨code, -, h⟩ := yields_liftM_bind.mp h
  obtain ⟨good, -, h⟩ := yields_bind.mp h
  split at h
  · exact absurd h not_yields_fail
  · rename_i hrule
    obtain rfl := yields_pure.mp h
    simpa [hn] using hrule

theorem eq_nil_of_single (hn : rules.has .nullFail = true)
    (hv : context.version = .base ∨ context.version = .witnessV0)
    (h : (single rules script context item key).Yields (false, context')) : item = [] := by
  rw [single_of_ecdsa hv] at h
  obtain ⟨good, hgood, h⟩ := yields_bind.mp h
  cases yields_pure.mp h
  exact eq_nil_of_ecdsaOp hn hgood

theorem result_ecdsaOp_of_false (hn : rules.has .nullFail = true) {code : Bytes}
    (hcode : coveredCode rules script context [item] = .ok code)
    (hfalse : ((ecdsa rules context.version code item key).converse r a).result = .ok false) (hitem : item ≠ []) :
    ((ecdsaOp rules script context item key).converse r a).result = .error .nullFail := by
  unfold ecdsaOp
  rw [hcode, liftM_ok_bind, result_converse_bind_of_ok hfalse]
  have hrule : (!false && rules.has .nullFail && !item.isEmpty) = true := by simp [hn, hitem]
  rw [if_pos hrule]
  rfl

end Check

section Opcodes

variable {s s' : State} {verify : Bool}

theorem conclude_false_eq_ok {result : Bool} (h : conclude false result s = .ok s') :
    s' = { s with stack := Number.ofBool result :: s.stack } := (Except.ok.inj h).symm

theorem Number.ofBool_inj {b c : Bool} : Number.ofBool b = Number.ofBool c ↔ b = c := by
  cases b <;> cases c <;> simp [Number.ofBool]

theorem result_evalCheckSig_of_false (hn : rules.has .nullFail = true)
    (hv : s.context.version = .base ∨ s.context.version = .witnessV0) {key sig code : Bytes} {rest : Stack}
    (hs : s.stack = key :: sig :: rest) (hcode : Check.coveredCode rules script s.context [sig] = .ok code)
    (hfalse : ((Check.ecdsa rules s.context.version code sig key).converse r a).result = .ok false) (hsig : sig ≠ []) :
    ((evalCheckSig rules script verify s).converse r a).result = .error .nullFail := by
  have hcheck := Check.result_ecdsaOp_of_false hn hcode hfalse hsig
  rw [evalCheckSig_cons hs, Check.single_of_ecdsa hv, bind_assoc]
  exact result_converse_bind_of_error hcheck _

/-! ## Many signatures -/

theorem result_evalCheckMultiSig_of_false (hn : rules.has .nullFail = true)
    (hv : s.context.version = .base ∨ s.context.version = .witnessV0) {m : MultiSig} {code : Bytes}
    (hm : m.On (rules.has .minimalData) s.stack) (hops : s.opCount + m.keys.length ≤ State.maxOps)
    (hcode : Check.coveredCode rules script s.context m.sigs = .ok code)
    (hfalse : ((Check.matching rules s.context.version code m.keys m.sigs).converse r a).result = .ok false)
    (hsig : ∃ sig ∈ m.sigs, sig ≠ []) :
    ((evalCheckMultiSig rules script verify s).converse r a).result = .error .nullFail := by
  have hlimited : s.context.version.limited = true := by
    rcases hv with hv | hv <;> rw [hv] <;> rfl
  have hnot : ¬ (s.context.version == .tapscript) = true := by
    rcases hv with hv | hv <;> rw [hv] <;> decide
  have htake := takeMultiSig_of_on hm ((State.countOps_limited hlimited).mpr ⟨hops, rfl⟩)
  have hrule : (!false && rules.has .nullFail && m.sigs.any (!·.isEmpty)) = true := by simpa [hn] using hsig
  unfold evalCheckMultiSig
  rw [if_neg hnot, htake, liftM_ok_bind]
  show (converse r a (liftM (Check.coveredCode rules script s.context m.sigs) >>= _)).result = _
  rw [hcode, liftM_ok_bind, result_converse_bind_of_ok hfalse, if_pos hrule]
  rfl

end Opcodes

/-! ## Both checks -/

/-- Under the rule on failed checks, a check that returns false had no signature that is not empty:
    neither the one of a single check nor, whatever the keys and the counts, any of a
    multisignature check, whose operands can be read off the stack in one way only. And where the
    operands stand on the stack and the check itself ends in false on a signature that is not
    empty, the opcode fails with the error of this rule, in the form that verifies too. -/
theorem failed_check_had_no_signature {σ : Type} (r : Responder σ) (a : σ) (rules : Rules)
    (hn : rules.has .nullFail = true) (script : Bytes) (s : State)
    (hv : s.context.version = .base ∨ s.context.version = .witnessV0) :
    (∀ s', ((Operation.checkSig.eval rules script s).converse r a).result = .ok s' →
      s'.stack.head? = some (Number.ofBool false) → ∃ key rest, s.stack = key :: [] :: rest) ∧
    (∀ s', ((Operation.checkMultiSig.eval rules script s).converse r a).result = .ok s' →
      s'.stack.head? = some (Number.ofBool false) →
      ∃ m : MultiSig, (∀ m' : MultiSig, m'.On (rules.has .minimalData) s.stack ↔ m' = m) ∧
        ∀ sig ∈ m.sigs, sig = []) ∧
    (∀ (key sig code : Bytes) (rest : Stack), s.stack = key :: sig :: rest →
      Check.coveredCode rules script s.context [sig] = .ok code →
      ((Check.ecdsa rules s.context.version code sig key).converse r a).result = .ok false → sig ≠ [] →
      ∀ op ∈ [Operation.checkSig, .checkSigVerify],
        ((op.eval rules script s).converse r a).result = .error .nullFail) ∧
    (∀ (m : MultiSig) (code : Bytes), m.On (rules.has .minimalData) s.stack →
      s.opCount + m.keys.length ≤ State.maxOps → Check.coveredCode rules script s.context m.sigs = .ok code →
      ((Check.matching rules s.context.version code m.keys m.sigs).converse r a).result = .ok false →
      (∃ sig ∈ m.sigs, sig ≠ []) →
      ∀ op ∈ [Operation.checkMultiSig, .checkMultiSigVerify],
        ((op.eval rules script s).converse r a).result = .error .nullFail) := by
  refine ⟨?_, ?_, ?_, ?_⟩
  · intro s' h hfalse
    have h : (evalCheckSig rules script false s).Yields s' := yields_of_converse h
    obtain ⟨key, sig, rest, good, context, hs, hcheck, h⟩ := yields_evalCheckSig h
    rw [conclude_false_eq_ok h] at hfalse
    rw [Number.ofBool_inj.mp (Option.some.inj hfalse)] at hcheck
    rw [Check.eq_nil_of_single hn hv hcheck] at hs
    exact ⟨key, rest, hs⟩
  · intro s' h hfalse
    have h : (evalCheckMultiSig rules script false s).Yields s' := yields_of_converse h
    obtain ⟨m, s₁, good, hm, hempty, h⟩ := yields_evalCheckMultiSig h
    rw [conclude_false_eq_ok h] at hfalse
    have hon := (takeMultiSig_on hm).1
    refine ⟨m, ?_, hempty hn (Number.ofBool_inj.mp (Option.some.inj hfalse))⟩
    intro m'
    constructor
    · intro h'
      exact hon.unique h'
    · intro h'
      rw [h']
      exact hon
  · intro key sig code rest hs hcode hfalse hsig op hop
    simp only [List.mem_cons, List.not_mem_nil, or_false] at hop
    rcases hop with rfl | rfl
    · exact result_evalCheckSig_of_false hn hv hs hcode hfalse hsig
    · exact result_evalCheckSig_of_false hn hv hs hcode hfalse hsig
  · intro m code hm hops hcode hfalse hsig op hop
    simp only [List.mem_cons, List.not_mem_nil, or_false] at hop
    rcases hop with rfl | rfl
    · exact result_evalCheckMultiSig_of_false hn hv hm hops hcode hfalse hsig
    · exact result_evalCheckMultiSig_of_false hn hv hm hops hcode hfalse hsig

/-- One signature for one key, which nobody grants: an error if it is not empty, in both forms, and
    false if it is. -/
theorem failed_check_had_no_signature_one :
    let rules := Rules.ofList [.nullFail]
    let key : Bytes := List.replicate 33 0x02
    let s (sig : Bytes) := State.start [[0x01], key, [0x01], sig, []] (Context.fresh .base)
    let bad : Bytes := [0x30, 0x06, 0x02, 0x01, 0x01, 0x02, 0x01, 0x01]
    (∀ op ∈ [Operation.checkMultiSig, .checkMultiSigVerify],
      ((op.eval rules [0xae] (s bad)).converse Oracle.deny.responder ()).result = .error .nullFail) ∧
    ((Operation.checkMultiSig.eval rules [0xae] (s [])).converse Oracle.deny.responder ()).result =
      .ok { s [] with opCount := 1, stack := [[]] } ∧
    ∃ m : MultiSig, (∀ m' : MultiSig, m'.On (rules.has .minimalData) (s []).stack ↔ m' = m) ∧
      ∀ sig ∈ m.sigs, sig = [] := by
  intro rules key s bad
  have hbad := failed_check_had_no_signature Oracle.deny.responder () rules (by decide) [0xae] (s bad) (.inl rfl)
  have hempty := failed_check_had_no_signature Oracle.deny.responder () rules (by decide) [0xae] (s []) (.inl rfl)
  have hon : MultiSig.On (rules.has .minimalData) (s bad).stack ⟨[key], [bad], [], []⟩ :=
    ⟨[0x01], [0x01], rfl, by decide, by decide, by decide, by decide⟩
  have hrun : ((Operation.checkMultiSig.eval rules [0xae] (s [])).converse Oracle.deny.responder ()).result =
      .ok { s [] with opCount := 1, stack := [[]] } := by decide +kernel
  refine ⟨?_, hrun, hempty.2.1 _ hrun rfl⟩
  exact hbad.2.2.2 _ [0xae] hon (by decide) (by decide +kernel) (by decide +kernel)
    ⟨bad, List.mem_singleton_self bad, by decide⟩

end SpendScript

/-
  SpendScript.Proofs.Relaxation — switching rules off never turns a good spend into a bad one.

  Two runs are compared: one under the rules `strict`, one under `lax ⊆ strict`. A single
  opcode, a script or a witness program that succeeds under `strict` gives the same result
  under `lax` (`RelaxesTo`), as long as no operation that has an effect only under `strict`
  is discouraged under `lax` (`Rules.Relaxed`). The spend as a whole only stays true: with
  the rules on script hashes and witnesses switched off, parts of it are not run at all.
  - `Item.eval_relaxes` / `Script.eval_relaxes`: one step, and a whole run.
  - `Witness.verifyProgram_stays`: a witness program that is accepted stays accepted.
  - `Spend.eval_stays`: so does a spend.
-/

import Mathlib
import SpendScript.Proofs.Machine
import SpendScript.Proofs.Spend

namespace SpendScript

/-! ## Results that survive -/

variable {ε ε' α β : Type}

/-- What the first computation gives, the second gives too. -/
def RelaxesTo (x y : Except ε α) : Prop := ∀ a, x = .ok a → y = .ok a

namespace RelaxesTo

theorem refl (x : Except ε α) : RelaxesTo x x := fun _ h => h

theorem error (e : ε) (y : Except ε α) : RelaxesTo (.error e) y := by
  intro a h
  cases h

theorem bind {x y : Except ε α} {f g : α → Except ε β} (hxy : RelaxesTo x y)
    (hfg : ∀ a, RelaxesTo (f a) (g a)) : RelaxesTo (x >>= f) (y >>= g) := by
  intro b h
  cases hx : x with
  | error e => rw [hx] at h; cases h
  | ok a =>
    rw [hx] at h
    rw [hxy a hx]
    exact hfg a b h

theorem mapError {x y : Except ε α} (hxy : RelaxesTo x y) (f : ε → ε') :
    RelaxesTo (x.mapError f) (y.mapError f) := by
  intro a h
  cases hx : x with
  | error e => rw [hx] at h; cases h
  | ok b =>
    rw [hx] at h
    rw [hxy b hx]
    exact h

/-- A check that the second computation makes only where the first makes it. -/
theorem guard {c c' : Bool} (hc : c' = true → c = true) {e e' : ε} {x y : Except ε α}
    (hxy : RelaxesTo x y) :
    RelaxesTo (if c then .error e else x) (if c' then .error e' else y) := by
  cases c' with
  | false => cases c with
    | false => exact hxy
    | true => exact error e y
  | true => rw [hc rfl]; exact error e _

/-- A check of the same kind in front of what follows. -/
theorem check {c c' : Bool} (hc : c' = true → c = true) (x : Except ε Unit) :
    RelaxesTo (if c then x else .ok ()) (if c' then x else .ok ()) := by
  cases c' with
  | false =>
    intro a _
    rfl
  | true => rw [hc rfl]; exact refl x

end RelaxesTo

namespace Dialogue

/-- The same with anyone who answers questions by themselves. -/
def RelaxesTo (d d' : Dialogue ε α) : Prop := ∀ o, SpendScript.RelaxesTo (d.run o) (d'.run o)

namespace RelaxesTo

theorem refl (d : Dialogue ε α) : RelaxesTo d d := fun _ => .refl _

theorem fail (e : ε) (d : Dialogue ε α) : RelaxesTo (.fail e) d := fun _ => .error e _

theorem lift {x y : Except ε α} (hxy : SpendScript.RelaxesTo x y) :
    RelaxesTo (liftM x : Dialogue ε α) (liftM y) := by
  intro o
  show SpendScript.RelaxesTo (run o (Dialogue.lift x)) (run o (Dialogue.lift y))
  rw [run_lift, run_lift]
  exact hxy

theorem bind {d d' : Dialogue ε α} {f f' : α → Dialogue ε β} (hd : RelaxesTo d d')
    (hf : ∀ a, RelaxesTo (f a) (f' a)) : RelaxesTo (d >>= f) (d' >>= f') := by
  intro o
  rw [run_bind, run_bind]
  exact (hd o).bind fun a => hf a o

theorem mapError {d d' : Dialogue ε α} (hd : RelaxesTo d d') (f : ε → ε') :
    RelaxesTo (d.mapError f) (d'.mapError f) := by
  intro o
  rw [run_mapError, run_mapError]
  exact (hd o).mapError f

theorem guard {c c' : Bool} (hc : c' = true → c = true) {e e' : ε} {d d' : Dialogue ε α}
    (hd : RelaxesTo d d') :
    RelaxesTo (if c then .fail e else d) (if c' then .fail e' else d') := by
  cases c' with
  | false => cases c with
    | false => exact hd
    | true => exact fail e d'
  | true => rw [hc rfl]; exact fail e _

end RelaxesTo

end Dialogue

/-! ## The two sets of rules -/

/-- `lax` has no rule that `strict` lacks, and where it discourages operations without
    effect the two agree on which lock time operations have one. -/
structure Rules.Relaxed (strict lax : Rules) : Prop where
  subset : lax ⊆ strict
  lockTime : lax.has .discourageNops = true → lax.has .checkLockTime = strict.has .checkLockTime
  sequence : lax.has .discourageNops = true → lax.has .checkSequence = strict.has .checkSequence

variable {strict lax : Rules}

theorem Rules.Relaxed.of_and (h : strict.Relaxed lax) {r : Rule} {b : Bool}
    (hr : (lax.has r && b) = true) : (strict.has r && b) = true := by
  rw [Bool.and_eq_true] at hr ⊢
  exact ⟨h.subset r hr.1, hr.2⟩

/-! ## Numbers and stacks -/

section minimal

variable {m m' : Bool} (hm : m' = true → m = true)
include hm

theorem Stack.number_relaxes (size : Nat) (item : Bytes) :
    RelaxesTo (Stack.number m size item) (Stack.number m' size item) := by
  refine RelaxesTo.mapError ?_ _
  unfold Number.parse
  split
  · exact .error _ _
  · refine .guard (fun h => ?_) (.refl _)
    rw [Bool.and_eq_true] at h ⊢
    exact ⟨hm h.1, h.2⟩

theorem Stack.popNumber_relaxes (s : Stack) : RelaxesTo (s.popNumber m) (s.popNumber m') := by
  refine .bind (.refl _) fun (x, s) => ?_
  exact .bind (Stack.number_relaxes hm _ x) fun _ => .refl _

theorem Stack.popPosition_relaxes (s : Stack) :
    RelaxesTo (s.popPosition m) (s.popPosition m') := by
  refine .bind (.refl _) fun _ => ?_
  exact .bind (Stack.popNumber_relaxes hm s) fun _ => .refl _

theorem StackOp.apply_relaxes (s alt : Stack) (op : StackOp) :
    RelaxesTo (op.apply m s alt) (op.apply m' s alt) := by
  cases op with
  | pick | roll => exact .bind (Stack.popPosition_relaxes hm s) fun _ => .refl _
  | _ => exact .refl _

theorem Stack.unary_relaxes (op : UnaryOp) (s : Stack) :
    RelaxesTo (s.unary m op) (s.unary m' op) :=
  .bind (Stack.popNumber_relaxes hm s) fun _ => .refl _

theorem Stack.popPair_relaxes (s : Stack) : RelaxesTo (s.popPair m) (s.popPair m') := by
  refine .bind (.refl _) fun (b, s) => ?_
  refine .bind (.refl _) fun (a, s) => ?_
  refine .bind (Stack.number_relaxes hm _ b) fun _ => ?_
  exact .bind (Stack.number_relaxes hm _ a) fun _ => .refl _

theorem Stack.binary_relaxes (op : BinaryOp) (s : Stack) :
    RelaxesTo (s.binary m op) (s.binary m' op) :=
  .bind (Stack.popPair_relaxes hm s) fun _ => .refl _

theorem Stack.numEqualVerify_relaxes (s : Stack) :
    RelaxesTo (s.numEqualVerify m) (s.numEqualVerify m') :=
  .bind (Stack.popPair_relaxes hm s) fun _ => .refl _

theorem Stack.within_relaxes (s : Stack) : RelaxesTo (s.within m) (s.within m') := by
  refine .bind (.refl _) fun _ => ?_
  refine .bind (.refl _) fun a => .bind (Stack.number_relaxes hm _ a) fun _ => ?_
  refine .bind (.refl _) fun b => .bind (Stack.number_relaxes hm _ b) fun _ => ?_
  exact .bind (.refl _) fun c => .bind (Stack.number_relaxes hm _ c) fun _ => .refl _

end minimal

/-! ## Lock times leave the state alone -/

theorem evalLockTime_state {rules : Rules} {s t : State} {o : Oracle}
    (h : (evalLockTime rules s).run o = .ok t) : t = s := by
  unfold evalLockTime at h
  split at h
  · obtain ⟨n, -, h⟩ := Dialogue.run_bind_eq_ok.mp h
    obtain ⟨reached, -, h⟩ := Dialogue.run_bind_eq_ok.mp h
    cases reached with
    | true => cases h; rfl
    | false => cases h
  · rw [Dialogue.run_liftM] at h
    exact upgradableNop_eq_ok h

theorem evalSequence_state {rules : Rules} {s t : State} {o : Oracle}
    (h : (evalSequence rules s).run o = .ok t) : t = s := by
  unfold evalSequence at h
  split at h
  · obtain ⟨n, -, h⟩ := Dialogue.run_bind_eq_ok.mp h
    split at h
    · cases h; rfl
    · obtain ⟨passed, -, h⟩ := Dialogue.run_bind_eq_ok.mp h
      cases passed with
      | true => cases h; rfl
      | false => cases h
  · rw [Dialogue.run_liftM] at h
    exact upgradableNop_eq_ok h

section machine

variable (h : strict.Relaxed lax)
include h

/-- A signature that is read under stricter encoding rules is read as the same one. -/
theorem Decoded.decode_relaxes (item : Bytes) :
    RelaxesTo (Decoded.decode (Check.encodingRules strict) item)
      (Decoded.decode (Check.encodingRules lax) item) := by
  cases hl : item.getLast? with
  | none =>
    unfold Decoded.decode
    rw [hl]
    exact .refl _
  | some last =>
    rw [Decoded.decode_of_getLast? _ hl, Decoded.decode_of_getLast? _ hl]
    refine .bind (.check (fun hc => ?_) _) fun _ => .guard h.of_and (.bind (.mapError ?_ _) fun _ => .refl _)
    · simp only [Check.encodingRules, Bool.or_eq_true] at hc ⊢
      rcases hc with (hc | hc) | hc
      · exact Or.inl (Or.inl (h.subset _ hc))
      · exact Or.inl (Or.inr (h.subset _ hc))
      · exact Or.inr (h.subset _ hc)
    · exact .guard h.of_and (.guard h.of_and (.refl _))

theorem Check.keyEncoding_relaxes (version : SigVersion) (key : Bytes) :
    RelaxesTo (Check.keyEncoding strict version key) (Check.keyEncoding lax version key) := by
  refine .guard h.of_and (.guard (fun hc => ?_) (.refl _))
  rw [Bool.and_assoc] at hc ⊢
  exact h.of_and hc

theorem Check.ecdsa_relaxes (version : SigVersion) (code item key : Bytes) :
    (Check.ecdsa strict version code item key).RelaxesTo (Check.ecdsa lax version code item key) := by
  have hd := Decoded.decode_relaxes h item
  have hk := Dialogue.RelaxesTo.lift (Check.keyEncoding_relaxes h version key)
  unfold Check.ecdsa
  cases hs : Decoded.decode (Check.encodingRules strict) item with
  | error e => exact .fail _ _
  | ok decoded =>
    rw [hd decoded hs]
    cases decoded with
    | none => exact .bind hk fun _ => .refl _
    | some sig => exact .bind hk fun _ => .refl _

theorem Check.withoutSignatures_relaxes (code : Bytes) (items : List Bytes) :
    RelaxesTo (Check.withoutSignatures strict code items) (Check.withoutSignatures lax code items) := by
  induction items generalizing code with
  | nil => exact .refl _
  | cons item items ih =>
    refine .guard (fun hc => ?_) (ih _)
    rw [Bool.and_comm] at hc ⊢
    exact h.of_and hc

theorem Check.coveredCode_relaxes (script : Bytes) (context : Context) (items : List Bytes) :
    RelaxesTo (Check.coveredCode strict script context items)
      (Check.coveredCode lax script context items) := by
  unfold Check.coveredCode
  split
  · exact Check.withoutSignatures_relaxes h _ _
  · exact .refl _

theorem Check.ecdsaOp_relaxes (script : Bytes) (context : Context) (item key : Bytes) :
    (Check.ecdsaOp strict script context item key).RelaxesTo
      (Check.ecdsaOp lax script context item key) := by
  refine .bind (.lift (Check.coveredCode_relaxes h script context [item])) fun code => ?_
  refine .bind (Check.ecdsa_relaxes h context.version code item key) fun good => ?_
  refine .guard (fun hc => ?_) (.refl _)
  cases good with
  | true => exact absurd hc (by simp)
  | false => exact h.of_and hc

theorem Check.tapscriptOp_relaxes (context : Context) (item key : Bytes) :
    (Check.tapscriptOp strict context item key).RelaxesTo (Check.tapscriptOp lax context item key) := by
  refine .bind (.refl _) fun context => ?_
  split
  · exact .refl _
  · split
    · exact .refl _
    · exact .guard (h.subset _) (.refl _)

theorem Check.single_relaxes (script : Bytes) (context : Context) (item key : Bytes) :
    (Check.single strict script context item key).RelaxesTo
      (Check.single lax script context item key) := by
  unfold Check.single
  cases context.version with
  | base | witnessV0 => exact .bind (Check.ecdsaOp_relaxes h script context item key) fun _ => .refl _
  | tapscript => exact Check.tapscriptOp_relaxes h context item key
  | taproot => exact .refl _

theorem Check.matching_relaxes (version : SigVersion) (code : Bytes) (keys sigs : List Bytes) :
    (Check.matching strict version code keys sigs).RelaxesTo
      (Check.matching lax version code keys sigs) := by
  induction keys generalizing sigs with
  | nil => cases sigs <;> exact .refl _
  | cons key keys ih =>
    cases sigs with
    | nil => exact .refl _
    | cons sig sigs =>
      refine .bind (Check.ecdsa_relaxes h version code sig key) fun good => ?_
      generalize (if good then sigs else sig :: sigs) = left
      dsimp only
      split
      · exact .refl _
      · exact ih left

/-! ## Opcodes -/

theorem Push.eval_relaxes (s : State) (p : Push) : RelaxesTo (p.eval strict s) (p.eval lax s) :=
  .guard h.of_and (.refl _)

theorem checkCondition_relaxes (version : SigVersion) (item : Bytes) :
    RelaxesTo (checkCondition strict version item) (checkCondition lax version item) := by
  cases version with
  | witnessV0 =>
    intro a hs
    simp only [checkCondition] at hs ⊢
    split at hs
    · rename_i hc
      have hc' : (item == [] || item == [1] || !lax.has .minimalIf) = true := by
        rw [Bool.or_eq_true, Bool.not_eq_true'] at hc ⊢
        rcases hc with hc | hc
        · exact Or.inl hc
        · refine Or.inr (Bool.eq_false_iff.mpr fun hl => ?_)
          rw [h.subset _ hl] at hc
          cases hc
      rw [if_pos hc']
    · cases hs
  | base | tapscript | taproot => exact .refl _

theorem openBranch_relaxes (s : State) (flip : Bool) :
    RelaxesTo (openBranch strict s flip) (openBranch lax s flip) := by
  unfold openBranch
  split
  · split
    · exact .refl _
    · exact .bind (checkCondition_relaxes h _ _) fun _ => .refl _
  · exact .refl _

theorem Control.eval_relaxes (s : State) (c : Control) : RelaxesTo (c.eval strict s) (c.eval lax s) := by
  cases c with
  | opIf => exact openBranch_relaxes h s false
  | opNotIf => exact openBranch_relaxes h s true
  | opElse | opEndIf => exact .refl _

theorem upgradableNop_relaxes (s : State) :
    RelaxesTo (upgradableNop strict s) (upgradableNop lax s) :=
  .guard (h.subset _) (.refl _)

theorem lockTimeOperand_relaxes (s : State) :
    RelaxesTo (lockTimeOperand strict s) (lockTimeOperand lax s) :=
  .bind (.refl _) fun item => .bind (Stack.number_relaxes (h.subset _) _ item) fun _ => .refl _

omit h in
/-- A lock time operation that passed may be without effect under fewer rules; there it is
    not discouraged. -/
theorem upgradableNop_of_passed {s : State} {d : Dialogue MachineError State} {r : Rule}
    (hd : ∀ o t, d.run o = .ok t → t = s) (hs : strict.has r = true) (hl : ¬ lax.has r = true)
    (hr : lax.has .discourageNops = true → lax.has r = strict.has r) :
    d.RelaxesTo (liftM (upgradableNop lax s)) := by
  intro o t ht
  have hn : ¬ lax.has .discourageNops = true := fun hn => hl (by rw [hr hn]; exact hs)
  rw [Dialogue.run_liftM, upgradableNop, if_neg hn, hd o t ht]

theorem evalLockTime_relaxes (s : State) :
    (evalLockTime strict s).RelaxesTo (evalLockTime lax s) := by
  by_cases hl : lax.has .checkLockTime = true
  · simp only [evalLockTime, hl, h.subset _ hl, if_true]
    exact .bind (.lift (lockTimeOperand_relaxes h s)) fun _ => .refl _
  have hlax : evalLockTime lax s = liftM (upgradableNop lax s) := if_neg hl
  rw [hlax]
  by_cases hs : strict.has .checkLockTime = true
  · exact upgradableNop_of_passed (fun _ _ ht => evalLockTime_state ht) hs hl h.lockTime
  · rw [evalLockTime, if_neg hs]
    exact .lift (upgradableNop_relaxes h s)

theorem evalSequence_relaxes (s : State) :
    (evalSequence strict s).RelaxesTo (evalSequence lax s) := by
  by_cases hl : lax.has .checkSequence = true
  · simp only [evalSequence, hl, h.subset _ hl, if_true]
    exact .bind (.lift (lockTimeOperand_relaxes h s)) fun _ => .refl _
  have hlax : evalSequence lax s = liftM (upgradableNop lax s) := if_neg hl
  rw [hlax]
  by_cases hs : strict.has .checkSequence = true
  · exact upgradableNop_of_passed (fun _ _ ht => evalSequence_state ht) hs hl h.sequence
  · rw [evalSequence, if_neg hs]
    exact .lift (upgradableNop_relaxes h s)

theorem evalCheckSig_relaxes (script : Bytes) (verify : Bool) (s : State) :
    (evalCheckSig strict script verify s).RelaxesTo (evalCheckSig lax script verify s) := by
  refine .bind (.refl _) fun _ => ?_
  refine .bind (.refl _) fun (key, rest) => ?_
  refine .bind (.refl _) fun (sig, rest) => ?_
  exact .bind (Check.single_relaxes h script s.context sig key) fun _ => .refl _

theorem evalCheckSigAdd_relaxes (script : Bytes) (s : State) :
    (evalCheckSigAdd strict script s).RelaxesTo (evalCheckSigAdd lax script s) := by
  unfold evalCheckSigAdd
  split
  · exact .refl _
  · refine .bind (.refl _) fun _ => ?_
    refine .bind (.refl _) fun item => ?_
    refine .bind (.lift (Stack.number_relaxes (h.subset _) _ item)) fun n => ?_
    refine .bind (.refl _) fun key => ?_
    refine .bind (.refl _) fun sig => ?_
    exact .bind (Check.single_relaxes h script s.context sig key) fun _ => .refl _

theorem takeMultiSig_relaxes (s : State) :
    RelaxesTo (takeMultiSig strict s) (takeMultiSig lax s) := by
  refine .bind (Stack.popNumber_relaxes (h.subset _) s.stack) fun (n, stack) => ?_
  refine .bind (.refl _) fun keyCount => ?_
  refine .bind (.refl _) fun s => ?_
  refine .bind (.refl _) fun item => ?_
  exact .bind (Stack.number_relaxes (h.subset _) _ item) fun _ => .refl _

theorem evalCheckMultiSig_relaxes (script : Bytes) (verify : Bool) (s : State) :
    (evalCheckMultiSig strict script verify s).RelaxesTo (evalCheckMultiSig lax script verify s) := by
  unfold evalCheckMultiSig
  split
  · exact .refl _
  · refine .bind (.lift (takeMultiSig_relaxes h s)) fun (m, s) => ?_
    refine .bind (.lift (Check.coveredCode_relaxes h script s.context m.sigs)) fun code => ?_
    refine .bind (Check.matching_relaxes h s.context.version code m.keys m.sigs) fun good => ?_
    refine .guard (fun hc => ?_) (.guard h.of_and (.refl _))
    cases good with
    | true => exact absurd hc (by simp)
    | false => exact h.of_and hc

omit h in
theorem State.onStack_relaxes (s : State) {f g : Stack → Except MachineError Stack}
    (hfg : RelaxesTo (f s.stack) (g s.stack)) : RelaxesTo (s.onStack f) (s.onStack g) :=
  .bind hfg fun _ => .refl _

theorem Operation.eval_relaxes (script : Bytes) (s : State) (op : Operation) :
    (op.eval strict script s).RelaxesTo (op.eval lax script s) := by
  have hm := h.subset .minimalData
  cases op with
  | stack op => exact .bind (.lift (StackOp.apply_relaxes hm s.stack s.alt op)) fun _ => .refl _
  | unary op => exact .lift (s.onStack_relaxes (Stack.unary_relaxes hm op s.stack))
  | binary op => exact .lift (s.onStack_relaxes (Stack.binary_relaxes hm op s.stack))
  | numEqualVerify => exact .lift (s.onStack_relaxes (Stack.numEqualVerify_relaxes hm s.stack))
  | within => exact .lift (s.onStack_relaxes (Stack.within_relaxes hm s.stack))
  | checkSig => exact evalCheckSig_relaxes h script false s
  | checkSigVerify => exact evalCheckSig_relaxes h script true s
  | checkMultiSig => exact evalCheckMultiSig_relaxes h script false s
  | checkMultiSigVerify => exact evalCheckMultiSig_relaxes h script true s
  | checkSigAdd => exact evalCheckSigAdd_relaxes h script s
  | checkLockTime => exact evalLockTime_relaxes h s
  | checkSequence => exact evalSequence_relaxes h s
  | upgradable => exact .lift (upgradableNop_relaxes h s)
  | nop | verify | abort | equal | equalVerify | hash | codeSeparator => exact .refl _

theorem Opcode.act_relaxes (script : Bytes) (s : State) (op : Opcode) :
    (op.act strict script s).RelaxesTo (op.act lax script s) := by
  cases op with
  | push p =>
    simp only [Opcode.act]
    split
    · exact .lift (Push.eval_relaxes h s p)
    · exact .refl _
  | control c => exact .bind (.refl _) fun s => .lift (Control.eval_relaxes h s c)
  | operation op =>
    refine .bind (.refl _) fun s => .guard (fun hc => ?_) ?_
    · unfold forbidsSeparator at hc ⊢
      rw [Bool.and_comm] at hc ⊢
      exact h.of_and hc
    · split
      · exact Operation.eval_relaxes h script s op
      · exact .refl _

/-- One step of a script. -/
theorem Item.eval_relaxes (script : Bytes) (s : State) (item : Item) :
    (item.eval strict script s).RelaxesTo (item.eval lax script s) := by
  cases item with
  | good op => exact .bind (Opcode.act_relaxes h script s op) fun _ => .refl _
  | bad b => exact .refl _

/-! ## Runs -/

theorem execute_relaxes (script : Bytes) (index : Nat) (s : State)
    (items : List (Except ScriptError Item)) :
    (execute strict script index s items).RelaxesTo (execute lax script index s items) := by
  induction items generalizing index s with
  | nil => exact .refl _
  | cons item rest ih =>
    cases item with
    | error e => exact .refl _
    | ok item => exact .bind (.mapError (Item.eval_relaxes h script _ item) _) fun t => ih (index + 1) t

/-- A whole run. -/
theorem Script.eval_relaxes (script : Bytes) (stack : Stack) (context : Context) :
    (Script.eval strict script stack context).RelaxesTo (Script.eval lax script stack context) :=
  .bind (.refl _) fun _ => .bind (execute_relaxes h script 0 _ _) fun _ => .refl _

/-! ## Witness programs -/

theorem Witness.runScript_relaxes (items : List Bytes) (script : Bytes) (context : Context) :
    (Witness.runScript strict items script context).RelaxesTo
      (Witness.runScript lax items script context) :=
  .bind (.refl _) fun _ => .bind (Script.eval_relaxes h script _ context) fun _ => .refl _

theorem Witness.execute_relaxes (items : List Bytes) (script : Bytes) (context : Context) :
    (Witness.execute strict items script context).RelaxesTo
      (Witness.execute lax items script context) := by
  unfold Witness.execute
  split
  · refine .bind (.refl _) fun found => ?_
    split
    · exact .guard (h.subset _) (.refl _)
    · exact Witness.runScript_relaxes h items script context
  · exact Witness.runScript_relaxes h items script context

theorem Witness.scriptPath_relaxes (witness : List Bytes) (program : Block 32) (items : List Bytes)
    (script control : Bytes) (context : Context) :
    (Witness.scriptPath strict witness program items script control context).RelaxesTo
      (Witness.scriptPath lax witness program items script control context) := by
  refine .bind (.refl _) fun block => ?_
  dsimp only
  split
  · exact .refl _
  · split
    · exact .bind (.refl _) fun _ => Witness.execute_relaxes h items script _
    · exact .guard (h.subset _) (.refl _)

theorem Witness.verifyTaproot_relaxes (witness : List Bytes) (program : Block 32) :
    (Witness.verifyTaproot strict witness program).RelaxesTo
      (Witness.verifyTaproot lax witness program) := by
  refine .guard (fun hc => ?_) ?_
  · rw [Bool.and_comm] at hc ⊢
    exact h.of_and hc
  · split
    · exact .refl _
    · exact .refl _
    · exact Witness.scriptPath_relaxes h witness program _ _ _ _

theorem Witness.verifyVersion0_relaxes (witness : List Bytes) (program : Bytes) :
    (Witness.verifyVersion0 strict witness program).RelaxesTo
      (Witness.verifyVersion0 lax witness program) := by
  unfold Witness.verifyVersion0
  split
  · unfold Witness.verifyScriptHash
    split
    · exact .refl _
    · split
      · exact .refl _
      · exact Witness.execute_relaxes h _ _ _
  · split
    · unfold Witness.verifyKeyHash
      split
      · exact .refl _
      · exact Witness.execute_relaxes h _ _ _
    · exact .refl _

theorem Witness.verifyUnknown_relaxes :
    (Witness.verifyUnknown strict).RelaxesTo (Witness.verifyUnknown lax) :=
  .guard (h.subset _) (.refl _)

/-- Without the rule on taproot, its outputs can be spent by anyone: an accepted program
    stays accepted, but a refused one may be accepted too. -/
theorem Witness.verifyVersion1_stays (witness : List Bytes) (program : Bytes) (o : Oracle)
    (hs : (Witness.verifyVersion1 strict witness program).run o = .ok true) :
    (Witness.verifyVersion1 lax witness program).run o = .ok true := by
  unfold Witness.verifyVersion1 at hs ⊢
  split at hs
  · by_cases hl : lax.has .taproot = true
    · rw [if_pos (h.subset _ hl)] at hs
      rw [if_pos hl]
      exact Witness.verifyTaproot_relaxes h witness _ o _ hs
    · rw [if_neg hl]
      rfl
  · by_cases ha : (program == Witness.anchorProgram) = true
    · rw [if_pos ha]
      rfl
    · rw [if_neg ha] at hs ⊢
      exact Witness.verifyUnknown_relaxes h o _ hs

theorem Witness.verifyProgram_stays (witness : List Bytes) (version : Nat) (program : Bytes)
    (nested : Bool) (o : Oracle)
    (hs : (Witness.verifyProgram strict witness version program nested).run o = .ok true) :
    (Witness.verifyProgram lax witness version program nested).run o = .ok true := by
  obtain ⟨u, hu, hs⟩ := Dialogue.run_bind_eq_ok.mp hs
  refine Dialogue.run_bind_eq_ok.mpr ⟨u, hu, ?_⟩
  by_cases h0 : version = 0
  · rw [if_pos h0] at hs ⊢
    exact Witness.verifyVersion0_relaxes h witness program o _ hs
  rw [if_neg h0] at hs ⊢
  by_cases h1 : (version = 1 && !nested) = true
  · rw [if_pos h1] at hs ⊢
    exact Witness.verifyVersion1_stays h witness program o hs
  · rw [if_neg h1] at hs ⊢
    exact Witness.verifyUnknown_relaxes h o _ hs

/-! ## Spends -/

namespace Spend

variable {sig pubKey : Program} {witness : List Bytes} {o : Oracle}

theorem witnessStep_stays {program : Nat × Bytes} {nested : Bool} {r : Remains}
    (hs : (witnessStep strict witness program nested).run o = .ok (some r)) :
    (witnessStep lax witness program nested).run o = .ok (some r) := by
  obtain ⟨good, hg, hr⟩ := Dialogue.run_bind_eq_ok.mp hs
  cases good with
  | false => cases hr
  | true =>
    have hg' := Witness.verifyProgram_stays h witness program.1 program.2 nested o (run_inPart_eq_ok.mp hg)
    exact Dialogue.run_bind_eq_ok.mpr ⟨true, run_inPart_eq_ok.mpr hg', hr⟩

/-- With witnesses in force on both sides, the same remains are handed on. -/
theorem programStep_stays (hw : lax.has .witness = true) {script : Bytes} {malleated nested : Bool}
    {fault : ScriptError} {r r' : Remains}
    (hs : (programStep strict witness script malleated fault nested r).run o = .ok (some r')) :
    (programStep lax witness script malleated fault nested r).run o = .ok (some r') := by
  simp only [programStep, hw, h.subset _ hw, if_true] at hs ⊢
  split at hs
  · exact hs
  · split at hs
    · cases hs
    · rename_i hz
      rw [if_neg hz]
      exact witnessStep_stays h hs

theorem redeemStep_stays (hw : lax.has .witness = true) (hp : lax.has .p2sh = true) {data : Stack}
    {r r' : Remains} (hs : (redeemStep strict sig pubKey witness data r).run o = .ok (some r')) :
    (redeemStep lax sig pubKey witness data r).run o = .ok (some r') := by
  by_cases hh : Script.isPayToScriptHash pubKey.bytes = true
  · have hp' := h.subset _ hp
    obtain ⟨hpush, redeem, rest, stack, rfl, he, ht, hn⟩ :=
      (run_redeemStep_eq_some (by rw [hp', hh]; rfl)).mp hs
    refine (run_redeemStep_eq_some (by rw [hp, hh]; rfl)).mpr ⟨hpush, redeem, rest, stack, rfl, ?_, ht, ?_⟩
    · exact Script.eval_relaxes h redeem rest _ o _ he
    · exact programStep_stays h hw hn
  · simp only [redeemStep, hh, Bool.and_false] at hs ⊢
    exact hs

/-- Without witnesses, the redeem script is run as before if it is run at all, and nothing
    follows it. -/
theorem redeemStep_some (hw : ¬ lax.has .witness = true) {data : Stack} {r r' : Remains} (q : Remains)
    (hs : (redeemStep strict sig pubKey witness data r).run o = .ok (some r')) :
    ∃ q', (redeemStep lax sig pubKey witness data q).run o = .ok (some q') := by
  by_cases hh : (lax.has .p2sh && Script.isPayToScriptHash pubKey.bytes) = true
  · obtain ⟨hpush, redeem, rest, stack, rfl, he, ht, -⟩ := (run_redeemStep_eq_some (h.of_and hh)).mp hs
    refine ⟨{ q with depth := stack.length }, (run_redeemStep_eq_some hh).mpr ⟨hpush, redeem, rest, stack, rfl, ?_, ht, ?_⟩⟩
    · exact Script.eval_relaxes h redeem rest _ o _ he
    · exact congrArg (Dialogue.run o) (programStep_of_not_witness hw)
  · refine ⟨q, ?_⟩
    simp only [redeemStep, if_neg hh]
    rfl

theorem checkRemains_relaxes (r : Remains) :
    RelaxesTo (checkRemains strict witness r) (checkRemains lax witness r) := by
  refine .guard h.of_and (.guard (fun hc => ?_) (.refl _))
  rw [Bool.and_assoc] at hc ⊢
  exact h.of_and hc

theorem eval_stays {sig pubKey : Bytes} (hc : lax.check = .ok ())
    (hs : (eval strict (.ofScript sig) (.ofScript pubKey) witness).run o = .ok true) :
    (eval lax (.ofScript sig) (.ofScript pubKey) witness).run o = .ok true := by
  obtain ⟨hclean, hp2sh⟩ := Rules.check_eq_ok.mp hc
  obtain ⟨hpush, data, stack, r, r', hd, hst, ht, hn, hr, hrem⟩ := run_eval_eq_true.mp hs
  have hd' := Script.eval_relaxes h sig _ _ o _ hd
  have hst' := Script.eval_relaxes h pubKey _ _ o _ hst
  have hpush' := fun hl => hpush (h.subset _ hl)
  by_cases hw : lax.has .witness = true
  · have hn' := programStep_stays h hw hn
    have hr' := redeemStep_stays h hw (hp2sh hw) hr
    exact run_eval_eq_true.mpr
      ⟨hpush', data, stack, r, r', hd', hst', ht, hn', hr', checkRemains_relaxes h r' _ hrem⟩
  · have hn' : (nativeStep lax (.ofScript sig) (.ofScript pubKey) witness ⟨stack.length, false⟩).run o
        = .ok (some ⟨stack.length, false⟩) := congrArg (Dialogue.run o) (programStep_of_not_witness hw)
    obtain ⟨q, hq⟩ := redeemStep_some h hw ⟨stack.length, false⟩ hr
    have hrem' : checkRemains lax witness q = .ok () := by
      have hcl : ¬ lax.has .cleanStack = true := fun hl => hw (hclean hl)
      simp [checkRemains, hw, hcl]
    exact run_eval_eq_true.mpr
      ⟨hpush', data, stack, ⟨stack.length, false⟩, q, hd', hst', ht, hn', hq, hrem'⟩

end Spend

end machine

/-- Whoever verifies a spend under rules that go together can leave rules out, as long as
    the rest go together too: a spend that was accepted stays accepted. Lock time operations
    are the exception, where operations without effect are discouraged. -/
theorem verifyScript_true_of_subset (hsub : lax ⊆ strict) (hlax : lax.check = .ok ())
    (hnops : lax.has .discourageNops = true →
      lax.has .checkLockTime = strict.has .checkLockTime ∧
        lax.has .checkSequence = strict.has .checkSequence)
    (o : Oracle) (sig pubKey : Bytes) (witness : List Bytes)
    (hs : (verifyScript strict sig pubKey witness).run o = .ok true) :
    (verifyScript lax sig pubKey witness).run o = .ok true := by
  have h : strict.Relaxed lax := ⟨hsub, fun hn => (hnops hn).1, fun hn => (hnops hn).2⟩
  obtain ⟨-, he⟩ := run_verifyScript_eq_true.mp hs
  exact run_verifyScript_eq_true.mpr ⟨hlax, Spend.eval_stays h hlax he⟩

/-- Grants lock times and nothing else. -/
def Oracle.grantLockTimes : Oracle
  | .lockTime _ => true
  | .sequence _ => true
  | q => Oracle.deny q

/-- A lock time that was checked is without effect once only script hashes are left of the
    mandatory rules. -/
theorem verifyScript_lockTime_relaxed :
    (verifyScript Rules.mandatory [0x51] [0xb1] []).run Oracle.grantLockTimes = .ok true ∧
      (verifyScript (Rules.ofList [.p2sh]) [0x51] [0xb1] []).run Oracle.grantLockTimes = .ok true := by
  have hs : (verifyScript Rules.mandatory [0x51] [0xb1] []).run Oracle.grantLockTimes = .ok true := by cbv
  refine ⟨hs, verifyScript_true_of_subset ?_ rfl ?_ _ _ _ _ hs⟩
  · intro r
    cases r <;> decide
  · decide

end SpendScript

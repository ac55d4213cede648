/-
  SpendScript.Proofs.Attribution — the rules that failures are put down to.

  A failure may name a rule (`ScriptError.rule?`). All functions of a spend are gone through
  once, for two things: which questions they ask, and whether the rule that a failure names
  is in force (`MachineError.Due`, `ScriptError.Due`, `Spend.Due`). It is, but for four kinds
  of failures: an encoding of a signature that is not canonical, which three rules ask for and
  which always names one of them; an empty key in a tapscript, which no rule is needed for;
  an unlocking script of a script hash that does more than push; and whatever is given as an
  answer to a Schnorr check.
  - `Item.eval_keeps` / `execute_keeps` / `Script.eval_keeps`: an item, a run, a script.
  - `Witness.verifyProgram_keeps`: a witness program. Only taproot asks for Schnorr signatures.
  - `Spend.eval_keeps`: a spend as a whole.
  - `Spend.rule_of_failure`: what that says of a failure, whoever answers.
  - `Spend.named_rule_not_in_force`: spends that fail by a rule which is not in force.
-/

import Mathlib
import SpendScript.Proofs.Machine
import SpendScript.Spend

namespace SpendScript

open Dialogue

def Query.isSchnorr : Query → Bool
  | .schnorr _ => true
  | _ => false

/-! ## Failures and the rules they name -/

variable {rules : Rules} {tap : Prop} {answers : (q : Query) → q.Answer → Prop}

/-- What a failure of the machine is due to. `tap` is that it runs a tapscript. -/
inductive MachineError.Due (rules : Rules) (tap : Prop) (answers : (q : Query) → q.Answer → Prop) :
    MachineError → Prop
  /-- It names no rule, or one in force. -/
  | inForce {e : MachineError} (h : ∀ r, e.rule? = some r → rules.has r = true) : Due rules tap answers e
  /-- The other rules that ask for canonical encodings. -/
  | encoding {e : Der.Error} (h : rules.has .lowS = true ∨ rules.has .strictEncoding = true) :
      Due rules tap answers (.signature (.der e))
  | emptyKey (h : tap) : Due rules tap answers .keyType
  | answered {c : SchnorrCheck} {e : SignatureError} (h : answers (.schnorr c) (.error e)) :
      Due rules tap answers (.signature e)

inductive ScriptError.Due (rules : Rules) (tap : Prop) (answers : (q : Query) → q.Answer → Prop) :
    ScriptError → Prop
  | inForce {e : ScriptError} (h : ∀ r, e.rule? = some r → rules.has r = true) : Due rules tap answers e
  | machine {item : Option Item} {e : MachineError} (h : e.Due rules tap answers) :
      Due rules tap answers (.machine item e)

theorem named_of_none {o : Option Rule} (h : o = none) (r : Rule) (hr : o = some r) : rules.has r = true := by
  rw [h] at hr
  cases hr

theorem named_of_has {o : Option Rule} {r : Rule} (ho : o = some r) (h : rules.has r = true) (r' : Rule)
    (hr' : o = some r') : rules.has r' = true := by
  rw [ho] at hr'
  cases hr'
  exact h

theorem MachineError.due_of_none {e : MachineError} (h : e.rule? = none) : e.Due rules tap answers :=
  .inForce (named_of_none h)

theorem MachineError.due_of_has {e : MachineError} {r : Rule} (hr : e.rule? = some r) (h : rules.has r = true) :
    e.Due rules tap answers := .inForce (named_of_has hr h)

theorem ScriptError.due_of_none {e : ScriptError} (h : e.rule? = none) : e.Due rules tap answers :=
  .inForce (named_of_none h)

theorem ScriptError.due_of_has {e : ScriptError} {r : Rule} (hr : e.rule? = some r) (h : rules.has r = true) :
    e.Due rules tap answers := .inForce (named_of_has hr h)

/-- The terms that the machine is run on: Schnorr signatures are a matter of taproot, and
    failures are due. -/
def machineTerms (rules : Rules) (tap : Prop) (answers : (q : Query) → q.Answer → Prop) : Terms MachineError where
  answers := answers
  asks q := q.isSchnorr = true → tap
  fails := MachineError.Due rules tap answers

def scriptTerms (rules : Rules) (tap : Prop) (answers : (q : Query) → q.Answer → Prop) : Terms ScriptError where
  answers := answers
  asks q := q.isSchnorr = true → tap
  fails := ScriptError.Due rules tap answers

/-! ## Stacks -/

section Stacks

open MachineError (Due)

theorem Stack.need_fails (n : Nat) (s : Stack) : FailsIn (s.need n) (Due rules tap answers) := by
  unfold Stack.need
  split
  · exact failsIn_ok
  · exact failsIn_error (MachineError.due_of_none rfl)

theorem Stack.get_fails (i : Nat) (s : Stack) : FailsIn (s.get i) (Due rules tap answers) := by
  unfold Stack.get
  split
  · exact failsIn_ok
  · exact failsIn_error (MachineError.due_of_none rfl)

theorem Stack.pop_fails (s : Stack) : FailsIn s.pop (Due rules tap answers) := by
  cases s with
  | nil => exact failsIn_error (MachineError.due_of_none rfl)
  | cons x s => exact failsIn_ok

theorem Stack.copyToTop_fails (i : Nat) (s : Stack) : FailsIn (s.copyToTop i) (Due rules tap answers) :=
  (Stack.get_fails i s).bind fun _ => failsIn_ok

theorem Stack.moveToTop_fails (i : Nat) (s : Stack) : FailsIn (s.moveToTop i) (Due rules tap answers) :=
  (Stack.get_fails i s).bind fun _ => failsIn_ok

theorem require_fails (b : Bool) : FailsIn (require b) (Due rules tap answers) := by
  unfold require
  split
  · exact failsIn_ok
  · exact failsIn_error (MachineError.due_of_none rfl)

/-- Only under the rule on minimal data has a number to be minimal. -/
theorem Stack.number_fails (maxSize : Nat) (item : Bytes) :
    FailsIn (Stack.number (rules.has .minimalData) maxSize item) (Due rules tap answers) := by
  unfold Stack.number Number.parse
  split
  · exact failsIn_error (MachineError.due_of_none rfl)
  · split
    · rename_i hm
      rw [Bool.and_eq_true] at hm
      exact failsIn_error (MachineError.due_of_has rfl hm.1)
    · split
      · exact failsIn_error (MachineError.due_of_none rfl)
      · exact failsIn_ok

theorem Stack.popNumber_fails (s : Stack) :
    FailsIn (s.popNumber (rules.has .minimalData)) (Due rules tap answers) :=
  (Stack.pop_fails s).bind fun top => (Stack.number_fails _ top.1).bind fun _ => failsIn_ok

theorem Stack.popPosition_fails (s : Stack) :
    FailsIn (s.popPosition (rules.has .minimalData)) (Due rules tap answers) := by
  refine (Stack.need_fails 2 s).bind fun _ => (Stack.popNumber_fails s).bind fun n => ?_
  dsimp only
  split
  · exact failsIn_error (MachineError.due_of_none rfl)
  · exact failsIn_ok

theorem StackOp.apply_fails (op : StackOp) (s alt : Stack) :
    FailsIn (op.apply (rules.has .minimalData) s alt) (Due rules tap answers) := by
  cases op with
  | toAlt | drop => exact (Stack.pop_fails s).bind fun _ => failsIn_ok
  | fromAlt => exact (Stack.pop_fails alt).bind fun _ => failsIn_ok
  | drop2 => exact (Stack.pop_fails s).bind fun _ => (Stack.pop_fails _).bind fun _ => failsIn_ok
  | dup | «over» => exact (Stack.copyToTop_fails _ s).bind fun _ => failsIn_ok
  | dup2 | over2 =>
    exact (Stack.copyToTop_fails _ s).bind fun _ => (Stack.copyToTop_fails _ _).bind fun _ => failsIn_ok
  | dup3 =>
    exact (Stack.copyToTop_fails _ s).bind fun _ => (Stack.copyToTop_fails _ _).bind fun _ =>
      (Stack.copyToTop_fails _ _).bind fun _ => failsIn_ok
  | rot | swap => exact (Stack.moveToTop_fails _ s).bind fun _ => failsIn_ok
  | rot2 | swap2 =>
    exact (Stack.moveToTop_fails _ s).bind fun _ => (Stack.moveToTop_fails _ _).bind fun _ => failsIn_ok
  | ifDup | size => exact (Stack.get_fails 0 s).bind fun _ => failsIn_ok
  | depth => exact failsIn_ok
  | nip => exact ((Stack.get_fails 1 s).bind fun _ => failsIn_ok).bind fun _ => failsIn_ok
  | tuck =>
    exact ((Stack.get_fails 0 s).bind fun _ => (Stack.get_fails 1 s).bind fun _ => failsIn_ok).bind
      fun _ => failsIn_ok
  | pick =>
    exact (Stack.popPosition_fails s).bind fun n => (Stack.copyToTop_fails n.1 n.2).bind fun _ => failsIn_ok
  | roll =>
    exact (Stack.popPosition_fails s).bind fun n => (Stack.moveToTop_fails n.1 n.2).bind fun _ => failsIn_ok

theorem Stack.popPair_fails (s : Stack) :
    FailsIn (s.popPair (rules.has .minimalData)) (Due rules tap answers) :=
  (Stack.pop_fails s).bind fun b => (Stack.pop_fails b.2).bind fun a =>
    (Stack.number_fails _ b.1).bind fun _ => (Stack.number_fails _ a.1).bind fun _ => failsIn_ok

theorem Stack.unary_fails (op : UnaryOp) (s : Stack) :
    FailsIn (s.unary (rules.has .minimalData) op) (Due rules tap answers) :=
  (Stack.popNumber_fails s).bind fun _ => failsIn_ok

theorem Stack.binary_fails (op : BinaryOp) (s : Stack) :
    FailsIn (s.binary (rules.has .minimalData) op) (Due rules tap answers) :=
  (Stack.popPair_fails s).bind fun _ => failsIn_ok

theorem Stack.numEqualVerify_fails (s : Stack) :
    FailsIn (s.numEqualVerify (rules.has .minimalData)) (Due rules tap answers) :=
  (Stack.popPair_fails s).bind fun _ => (require_fails _).bind fun _ => failsIn_ok

theorem Stack.within_fails (s : Stack) :
    FailsIn (s.within (rules.has .minimalData)) (Due rules tap answers) :=
  (Stack.need_fails 3 s).bind fun _ =>
    (Stack.get_fails 2 s).bind fun x => (Stack.number_fails _ x).bind fun _ =>
    (Stack.get_fails 1 s).bind fun low => (Stack.number_fails _ low).bind fun _ =>
    (Stack.get_fails 0 s).bind fun high => (Stack.number_fails _ high).bind fun _ => failsIn_ok

theorem Stack.hash_fails (op : HashOp) (s : Stack) : FailsIn (s.hash op) (Due rules tap answers) :=
  (Stack.pop_fails s).bind fun _ => failsIn_ok

theorem Stack.equal_fails (s : Stack) : FailsIn s.equal (Due rules tap answers) :=
  (Stack.pop_fails s).bind fun y => (Stack.pop_fails y.2).bind fun _ => failsIn_ok

theorem Stack.equalVerify_fails (s : Stack) : FailsIn s.equalVerify (Due rules tap answers) :=
  (Stack.pop_fails s).bind fun y => (Stack.pop_fails y.2).bind fun _ =>
    (require_fails _).bind fun _ => failsIn_ok

theorem Stack.verify_fails (s : Stack) : FailsIn s.verify (Due rules tap answers) :=
  (Stack.pop_fails s).bind fun _ => (require_fails _).bind fun _ => failsIn_ok

end Stacks

/-! ## Signature checks -/

theorem HashType.read_fails {strict : Bool} {bits : UInt8} :
    FailsIn (HashType.read strict bits) fun _ => strict = true := by
  intro e h
  simp only [HashType.read] at h
  cases strict with
  | true => rfl
  | false => cases h

namespace Check

variable {script : Bytes} {context : Context}

/-- The encoding of a signature is judged under three rules, and what is wrong with it does
    not tell which of them is in force. -/
theorem decode_fails (item : Bytes) :
    FailsIn (Decoded.decode (encodingRules rules) item) fun e => (MachineError.signature e).Due rules tap answers := by
  cases hl : item.getLast? with
  | none =>
    rw [Decoded.decode, hl]
    exact failsIn_ok
  | some last =>
    rw [Decoded.decode_of_getLast? _ hl]
    refine FailsIn.bind ?_ fun _ => ?_
    · split
      · rename_i hd
        rw [Bool.or_eq_true, Bool.or_eq_true, or_assoc] at hd
        intro e h
        cases hc : Der.check item.dropLast with
        | ok u => rw [hc] at h; cases h
        | error e' =>
          rw [hc] at h
          cases h
          rcases hd with hd | hd
          · exact MachineError.due_of_has rfl hd
          · exact .encoding hd
      · exact failsIn_ok
    · split
      · rename_i hs
        rw [Bool.and_eq_true] at hs
        exact failsIn_error (MachineError.due_of_has rfl hs.1)
      · have hread : FailsIn ((HashType.read (encodingRules rules).strict last).mapError SignatureError.hashType)
            fun e => (MachineError.signature e).Due rules tap answers :=
          HashType.read_fails.mapError fun _ hs => MachineError.due_of_has rfl hs
        exact hread.bind fun _ => failsIn_ok

theorem keyEncoding_fails (version : SigVersion) (key : Bytes) :
    FailsIn (keyEncoding rules version key) (MachineError.Due rules tap answers) := by
  unfold keyEncoding
  split
  · rename_i hs
    rw [Bool.and_eq_true] at hs
    exact failsIn_error (MachineError.due_of_has rfl hs.1)
  · split
    · rename_i hw
      rw [Bool.and_eq_true, Bool.and_eq_true] at hw
      exact failsIn_error (MachineError.due_of_has rfl hw.1.1)
    · exact failsIn_ok

theorem ecdsa_keeps (version : SigVersion) (code item key : Bytes) :
    (ecdsa rules version code item key).Keeps (machineTerms rules tap answers) := by
  have hdecode : FailsIn (Decoded.decode (encodingRules rules) item)
      fun e => (MachineError.signature e).Due rules tap answers := decode_fails item
  unfold ecdsa
  split
  · rename_i e he
    exact keeps_fail (hdecode e he)
  · exact keeps_liftM_bind (keyEncoding_fails version key) fun _ _ => keeps_pure _
  · refine keeps_liftM_bind (keyEncoding_fails version key) fun _ _ => ?_
    refine ⟨fun h => ?_, fun good _ => keeps_pure good⟩
    cases h

theorem withoutSignatures_fails (code : Bytes) (items : List Bytes) :
    FailsIn (withoutSignatures rules code items) (MachineError.Due rules tap answers) := by
  induction items generalizing code with
  | nil => exact failsIn_ok
  | cons item items ih =>
    simp only [withoutSignatures]
    split
    · rename_i hc
      rw [Bool.and_eq_true] at hc
      exact failsIn_error (MachineError.due_of_has rfl hc.2)
    · exact ih _

theorem coveredCode_fails (items : List Bytes) :
    FailsIn (coveredCode rules script context items) (MachineError.Due rules tap answers) := by
  unfold coveredCode
  split
  · exact withoutSignatures_fails _ items
  · exact failsIn_ok

theorem ecdsaOp_keeps (item key : Bytes) :
    (ecdsaOp rules script context item key).Keeps (machineTerms rules tap answers) := by
  refine keeps_liftM_bind (coveredCode_fails [item]) fun code _ => ?_
  refine (ecdsa_keeps context.version code item key).bind fun good _ => ?_
  split
  · rename_i hn
    rw [Bool.and_eq_true, Bool.and_eq_true] at hn
    exact keeps_fail (MachineError.due_of_has rfl hn.1.2)
  · exact keeps_pure good

theorem spendWeight_fails (item : Bytes) :
    FailsIn (spendWeight context item) (MachineError.Due rules tap answers) := by
  unfold spendWeight
  split
  · split
    · exact failsIn_ok
    · split
      · exact failsIn_error (MachineError.due_of_none rfl)
      · exact failsIn_ok
  · exact failsIn_ok

theorem schnorrDecode_fails (item : Bytes) :
    FailsIn (Schnorr.decode item) fun e => (MachineError.signature e).Due rules tap answers := by
  unfold Schnorr.decode
  split
  · exact failsIn_ok
  · split
    · dsimp only
      split
      · exact failsIn_error (MachineError.due_of_none rfl)
      · exact failsIn_ok
    · exact failsIn_error (MachineError.due_of_none rfl)

/-- In a tapscript an empty key fails without a rule, and a Schnorr check as it is answered. -/
theorem tapscriptOp_keeps (htap : tap) (item key : Bytes) :
    (tapscriptOp rules context item key).Keeps (machineTerms rules tap answers) := by
  refine keeps_liftM_bind (spendWeight_fails item) fun context' _ => ?_
  split
  · exact keeps_fail (.emptyKey htap)
  split
  · split
    · exact keeps_pure _
    · refine keeps_liftM_bind ((schnorrDecode_fails item).mapError fun _ h => h) fun sig _ => ?_
      refine keeps_query_bind (fun _ => htap) fun good hgood => ?_
      refine keeps_liftM_bind ?_ fun _ _ => keeps_pure _
      cases good with
      | ok u => exact failsIn_ok
      | error e => exact failsIn_error (.answered hgood)
  · split
    · rename_i hd
      exact keeps_fail (MachineError.due_of_has rfl hd)
    · exact keeps_pure _

theorem single_keeps (htap : context.version = .tapscript → tap) (item key : Bytes) :
    (single rules script context item key).Keeps (machineTerms rules tap answers) := by
  unfold single
  split
  · exact (ecdsaOp_keeps item key).bind fun _ _ => keeps_pure _
  · exact (ecdsaOp_keeps item key).bind fun _ _ => keeps_pure _
  · rename_i hv
    exact tapscriptOp_keeps (htap hv) item key
  · exact keeps_fail (MachineError.due_of_none rfl)

theorem matching_keeps (version : SigVersion) (code : Bytes) (keys sigs : List Bytes) :
    (matching rules version code keys sigs).Keeps (machineTerms rules tap answers) := by
  induction keys generalizing sigs with
  | nil => cases sigs <;> exact keeps_pure _
  | cons key keys ih =>
    cases sigs with
    | nil => exact keeps_pure _
    | cons sig sigs =>
      refine (ecdsa_keeps version code sig key).bind fun good _ => ?_
      dsimp only
      generalize (if good = true then sigs else sig :: sigs) = left
      split
      · exact keeps_pure _
      · exact ih left

end Check

/-! ## Opcodes -/

section Opcodes

open MachineError (Due)

variable {script : Bytes} {s : State}

theorem Push.eval_fails (p : Push) : FailsIn (p.eval rules s) (Due rules tap answers) := by
  unfold Push.eval
  split
  · rename_i hm
    rw [Bool.and_eq_true] at hm
    exact failsIn_error (MachineError.due_of_has rfl hm.1)
  · exact failsIn_ok

theorem checkCondition_fails (version : SigVersion) (item : Bytes) :
    FailsIn (checkCondition rules version item) (Due rules tap answers) := by
  unfold checkCondition
  cases version with
  | base | taproot => exact failsIn_ok
  | tapscript =>
    dsimp only
    split
    · exact failsIn_ok
    · exact failsIn_error (MachineError.due_of_none rfl)
  | witnessV0 =>
    dsimp only
    split
    · exact failsIn_ok
    · rename_i hm
      rw [Bool.or_eq_true, not_or] at hm
      exact failsIn_error (MachineError.due_of_has rfl (by simpa using hm.2))

theorem openBranch_fails (flip : Bool) : FailsIn (openBranch rules s flip) (Due rules tap answers) := by
  unfold openBranch
  split
  · split
    · exact failsIn_error (MachineError.due_of_none rfl)
    · exact (checkCondition_fails _ _).bind fun _ => failsIn_ok
  · exact failsIn_ok

theorem Control.eval_fails (c : Control) : FailsIn (c.eval rules s) (Due rules tap answers) := by
  cases c with
  | opIf | opNotIf => exact openBranch_fails _
  | opElse | opEndIf =>
    simp only [Control.eval]
    split
    · exact failsIn_error (MachineError.due_of_none rfl)
    · exact failsIn_ok

theorem upgradableNop_fails : FailsIn (upgradableNop rules s) (Due rules tap answers) := by
  unfold upgradableNop
  split
  · rename_i hd
    exact failsIn_error (MachineError.due_of_has rfl hd)
  · exact failsIn_ok

theorem lockTimeOperand_fails : FailsIn (lockTimeOperand rules s) (Due rules tap answers) := by
  refine (Stack.get_fails 0 s.stack).bind fun x => (Stack.number_fails _ x).bind fun n => ?_
  split
  · exact failsIn_error (MachineError.due_of_none rfl)
  · exact failsIn_ok

theorem evalLockTime_keeps : (evalLockTime rules s).Keeps (machineTerms rules tap answers) := by
  unfold evalLockTime
  split
  · refine keeps_liftM_bind lockTimeOperand_fails fun n _ => ?_
    refine keeps_query_bind (fun h => by cases h) fun reached _ => ?_
    split
    · exact keeps_pure _
    · exact keeps_fail (MachineError.due_of_none rfl)
  · exact keeps_liftM upgradableNop_fails

theorem evalSequence_keeps : (evalSequence rules s).Keeps (machineTerms rules tap answers) := by
  unfold evalSequence
  split
  · refine keeps_liftM_bind lockTimeOperand_fails fun n _ => ?_
    split
    · exact keeps_pure _
    · refine keeps_query_bind (fun h => by cases h) fun passed _ => ?_
      split
      · exact keeps_pure _
      · exact keeps_fail (MachineError.due_of_none rfl)
  · exact keeps_liftM upgradableNop_fails

theorem conclude_fails (verify result : Bool) : FailsIn (conclude verify result s) (Due rules tap answers) := by
  unfold conclude
  split
  · exact (require_fails result).bind fun _ => failsIn_ok
  · exact failsIn_ok

theorem evalCheckSig_keeps (htap : s.context.version = .tapscript → tap) (verify : Bool) :
    (evalCheckSig rules script verify s).Keeps (machineTerms rules tap answers) := by
  refine keeps_liftM_bind (Stack.need_fails 2 s.stack) fun _ _ => ?_
  refine keeps_liftM_bind (Stack.pop_fails s.stack) fun key _ => ?_
  refine keeps_liftM_bind (Stack.pop_fails key.2) fun sig _ => ?_
  exact (Check.single_keeps htap sig.1 key.1).bind fun _ _ => keeps_liftM (conclude_fails verify _)

theorem evalCheckSigAdd_keeps (htap : s.context.version = .tapscript → tap) :
    (evalCheckSigAdd rules script s).Keeps (machineTerms rules tap answers) := by
  unfold evalCheckSigAdd
  split
  · exact keeps_fail (MachineError.due_of_none rfl)
  · refine keeps_liftM_bind (Stack.need_fails 3 s.stack) fun _ _ => ?_
    refine keeps_liftM_bind (Stack.get_fails 1 s.stack) fun x _ => ?_
    refine keeps_liftM_bind (Stack.number_fails _ x) fun n _ => ?_
    refine keeps_liftM_bind (Stack.get_fails 0 s.stack) fun key _ => ?_
    refine keeps_liftM_bind (Stack.get_fails 2 s.stack) fun sig _ => ?_
    exact (Check.single_keeps htap sig key).bind fun _ _ => keeps_pure _

theorem readCount_fails {wrong : Bool → MachineError} (hw : ∀ b, (wrong b).rule? = none) (limit : Nat) (n : Int) :
    FailsIn (readCount wrong limit n) (Due rules tap answers) := by
  unfold readCount
  split
  · exact failsIn_error (MachineError.due_of_none (hw true))
  · split
    · exact failsIn_error (MachineError.due_of_none (hw false))
    · exact failsIn_ok

theorem State.countOps_fails (n : Nat) : FailsIn (s.countOps n) (Due rules tap answers) := by
  unfold State.countOps
  split
  · split
    · exact failsIn_ok
    · exact failsIn_error (MachineError.due_of_none rfl)
  · exact failsIn_ok

theorem takeMultiSig_fails : FailsIn (takeMultiSig rules s) (Due rules tap answers) :=
  (Stack.popNumber_fails s.stack).bind fun n =>
    (readCount_fails (fun _ => rfl) Item.maxKeys n.1).bind fun keyCount =>
    (State.countOps_fails keyCount).bind fun _ =>
    (Stack.get_fails keyCount n.2).bind fun x => (Stack.number_fails _ x).bind fun m =>
    (readCount_fails (fun _ => rfl) keyCount m).bind fun sigCount =>
    (Stack.need_fails _ n.2).bind fun _ =>
    (Stack.get_fails (keyCount + 1 + sigCount) n.2).bind fun _ => failsIn_ok

theorem evalCheckMultiSig_keeps (verify : Bool) :
    (evalCheckMultiSig rules script verify s).Keeps (machineTerms rules tap answers) := by
  unfold evalCheckMultiSig
  split
  · exact keeps_fail (MachineError.due_of_none rfl)
  · refine keeps_liftM_bind takeMultiSig_fails fun ⟨m, s'⟩ _ => ?_
    refine keeps_liftM_bind (Check.coveredCode_fails m.sigs) fun code _ => ?_
    refine (Check.matching_keeps s'.context.version code m.keys m.sigs).bind fun good _ => ?_
    split
    · rename_i hn
      rw [Bool.and_eq_true, Bool.and_eq_true] at hn
      exact keeps_fail (MachineError.due_of_has rfl hn.1.2)
    · split
      · rename_i hd
        rw [Bool.and_eq_true] at hd
        exact keeps_fail (MachineError.due_of_has rfl hd.1)
      · exact keeps_liftM (conclude_fails verify good)

theorem State.onStack_fails {f : Stack → Except MachineError Stack} (h : ∀ st, FailsIn (f st) (Due rules tap answers)) :
    FailsIn (s.onStack f) (Due rules tap answers) :=
  (h s.stack).bind fun _ => failsIn_ok

theorem Operation.eval_keeps (htap : s.context.version = .tapscript → tap) (op : Operation) :
    (op.eval rules script s).Keeps (machineTerms rules tap answers) := by
  cases op with
  | nop => exact keeps_pure s
  | verify => exact keeps_liftM (State.onStack_fails Stack.verify_fails)
  | abort => exact keeps_fail (MachineError.due_of_none rfl)
  | stack op => exact keeps_liftM_bind (op.apply_fails s.stack s.alt) fun _ _ => keeps_pure _
  | equal => exact keeps_liftM (State.onStack_fails Stack.equal_fails)
  | equalVerify => exact keeps_liftM (State.onStack_fails Stack.equalVerify_fails)
  | unary op => exact keeps_liftM (State.onStack_fails (Stack.unary_fails op))
  | binary op => exact keeps_liftM (State.onStack_fails (Stack.binary_fails op))
  | numEqualVerify => exact keeps_liftM (State.onStack_fails Stack.numEqualVerify_fails)
  | within => exact keeps_liftM (State.onStack_fails Stack.within_fails)
  | hash op => exact keeps_liftM (State.onStack_fails (Stack.hash_fails op))
  | codeSeparator => exact keeps_pure _
  | checkSig => exact evalCheckSig_keeps htap false
  | checkSigVerify => exact evalCheckSig_keeps htap true
  | checkMultiSig => exact evalCheckMultiSig_keeps false
  | checkMultiSigVerify => exact evalCheckMultiSig_keeps true
  | checkSigAdd => exact evalCheckSigAdd_keeps htap
  | checkLockTime => exact evalLockTime_keeps
  | checkSequence => exact evalSequence_keeps
  | upgradable _ => exact keeps_liftM upgradableNop_fails

theorem Opcode.act_keeps (htap : s.context.version = .tapscript → tap) (op : Opcode) :
    (op.act rules script s).Keeps (machineTerms rules tap answers) := by
  cases op with
  | push p =>
    simp only [Opcode.act]
    split
    · exact keeps_liftM p.eval_fails
    · exact keeps_pure s
  | control c => exact keeps_liftM_bind (State.countOps_fails 1) fun s₁ _ => keeps_liftM c.eval_fails
  | operation op =>
    refine keeps_liftM_bind (State.countOps_fails 1) fun s₁ hc => ?_
    split
    · rename_i hf
      unfold forbidsSeparator at hf
      rw [Bool.and_eq_true] at hf
      exact keeps_fail (MachineError.due_of_has rfl hf.2)
    · split
      · rw [← (State.frame_countOps hc).version] at htap
        exact op.eval_keeps htap
      · exact keeps_pure s₁

theorem State.checkDepth_fails : FailsIn s.checkDepth (Due rules tap answers) := by
  unfold State.checkDepth
  split
  · exact failsIn_error (MachineError.due_of_none rfl)
  · exact failsIn_ok

theorem Opcode.eval_keeps (htap : s.context.version = .tapscript → tap) (op : Opcode) :
    (op.eval rules script s).Keeps (machineTerms rules tap answers) :=
  (op.act_keeps htap).bind fun _ _ => keeps_liftM State.checkDepth_fails

theorem Bad.eval_fails (b : Bad) : FailsIn (b.eval s) (Due rules tap answers) := by
  have hreach (s₁ : State) : FailsIn (if (b.isAlwaysReached || s₁.executing) = true then
      Except.error MachineError.badOpcode else .ok s₁) (Due rules tap answers) := by
    split
    · exact failsIn_error (MachineError.due_of_none rfl)
    · exact failsIn_ok
  unfold Bad.eval
  split
  · exact hreach s
  · exact (State.countOps_fails 1).bind hreach

/-- What one item asks, and how it fails. -/
theorem Item.eval_keeps (htap : s.context.version = .tapscript → tap) (item : Item) :
    (item.eval rules script s).Keeps (machineTerms rules tap answers) := by
  cases item with
  | good op => exact op.eval_keeps htap
  | bad b => exact keeps_liftM b.eval_fails

end Opcodes

/-! ## Scripts -/

/-- Instructions that keep to the terms of the machine, and leave alone what they are run
    under. -/
structure Instruction.Keeps (ι : Type) [Instruction ι] : Prop where
  terms : ∀ {rules : Rules} {tap : Prop} {answers : (q : Query) → q.Answer → Prop} {script : Bytes} {s : State} (i : ι),
    (s.context.version = .tapscript → tap) →
      (Instruction.eval rules script s i).Keeps (machineTerms rules tap answers)
  version : ∀ {rules : Rules} {script : Bytes} {s s' : State} (i : ι),
    (Instruction.eval rules script s i).Yields s' → s'.context.version = s.context.version

theorem Instruction.keeps_item : Instruction.Keeps Item where
  terms item htap := item.eval_keeps htap
  version _ h := (Item.step_of_yields h).keeps.2

theorem Instruction.keeps_opcode : Instruction.Keeps Opcode where
  terms op htap := op.eval_keeps htap
  version op h := by
    have hstep : Item.Step _ _ _ (.good op) _ := Item.step_of_yields h
    exact hstep.keeps.2

theorem Instruction.keeps_push : Instruction.Keeps Push where
  terms p _ := keeps_liftM p.eval_fails
  version p h := by
    obtain ⟨-, rfl⟩ := Push.eval_eq_ok.mp (yields_liftM.mp h)
    rfl

section Scripts

variable {ι : Type} [Instruction ι] {script : Bytes}

/-- A run keeps to the terms if each of its instructions does. -/
theorem execute_keeps (hι : Instruction.Keeps ι) {xs : List (Except ScriptError ι)} {index : Nat} {s : State}
    (hxs : ∀ e, .error e ∈ xs → e.Due rules tap answers) (htap : s.context.version = .tapscript → tap) :
    (execute rules script index s xs).Keeps (scriptTerms rules tap answers) := by
  induction xs generalizing index s with
  | nil => exact keeps_pure s
  | cons x xs ih =>
    cases x with
    | error e => exact keeps_fail (hxs e List.mem_cons_self)
    | ok i =>
      have heval : (Instruction.eval rules script (s.reach index (Instruction.toItem i).size) i).Keeps
          (machineTerms rules tap answers) := hι.terms i htap
      refine Keeps.bind (heval.mapError (fun _ _ h => h) (fun _ h => h) fun _ h => ?_) fun s' hs' => ?_
      · exact ScriptError.Due.machine h
      refine ih (fun e he => hxs e (List.mem_cons_of_mem _ he)) ?_
      rw [hι.version i (yields_mapError.mp hs')]
      exact htap

theorem State.finish_fails (s : State) : FailsIn s.finish (ScriptError.Due rules tap answers) := by
  unfold State.finish
  split
  · exact failsIn_ok
  · exact failsIn_error (ScriptError.due_of_none rfl)

theorem checkScriptSize_fails (version : SigVersion) (size : Nat) :
    FailsIn (checkScriptSize version size) (ScriptError.Due rules tap answers) := by
  unfold checkScriptSize
  split
  · exact failsIn_error (ScriptError.due_of_none rfl)
  · exact failsIn_ok

theorem evalInstructions_keeps (hι : Instruction.Keeps ι) {xs : List (Except ScriptError ι)} (size : Nat)
    (stack : Stack) {context : Context} (hxs : ∀ e, .error e ∈ xs → e.Due rules tap answers)
    (htap : context.version = .tapscript → tap) :
    (evalInstructions rules script size xs stack context).Keeps (scriptTerms rules tap answers) := by
  refine keeps_liftM_bind (checkScriptSize_fails _ size) fun _ _ => ?_
  exact (execute_keeps hι hxs htap).bind fun s _ => keeps_liftM s.finish_fails

theorem Script.eval_keeps (s : Bytes) (stack : Stack) {context : Context} (htap : context.version = .tapscript → tap) :
    (Script.eval rules s stack context).Keeps (scriptTerms rules tap answers) := by
  refine evalInstructions_keeps Instruction.keeps_item _ stack (fun e he => ?_) htap
  obtain ⟨x, -, hx⟩ := List.mem_map.mp he
  cases x with
  | ok item => cases hx
  | error e' => cases hx; exact ScriptError.due_of_none rfl

theorem Component.eval_keeps (hι : Instruction.Keeps ι) (c : Component ι) (stack : Stack) {context : Context}
    (htap : context.version = .tapscript → tap) :
    (c.eval rules stack context).Keeps (scriptTerms rules tap answers) := by
  refine evalInstructions_keeps hι _ stack (fun e he => ?_) htap
  obtain ⟨i, -, hi⟩ := List.mem_map.mp he
  cases hi

/-- A part of a spend is a script in bytes, or a list of instructions of one of the kinds. -/
inductive Program.IsScript : Program → Prop
  | bytes (s : Bytes) : IsScript (.ofScript s)
  | items (c : Component Item) : IsScript (.ofComponent c)
  | opcodes (c : Component Opcode) : IsScript (.ofComponent c)
  | pushes (c : Component Push) : IsScript (.ofComponent c)

theorem Program.eval_keeps {p : Program} (hp : p.IsScript) (stack : Stack) :
    (p.eval rules stack (Context.fresh .base)).Keeps (scriptTerms rules False answers) := by
  have hbase : (Context.fresh .base).version = .tapscript → False := fun h => by cases h
  cases hp with
  | bytes s => exact Script.eval_keeps s stack hbase
  | items c => exact c.eval_keeps Instruction.keeps_item stack hbase
  | opcodes c => exact c.eval_keeps Instruction.keeps_opcode stack hbase
  | pushes c => exact c.eval_keeps Instruction.keeps_push stack hbase

end Scripts

/-! ## Witnesses -/

namespace Witness

variable {witness items : List Bytes} {script : Bytes} {context : Context}

theorem holdsOpSuccess_fails (pieces : List Piece) :
    FailsIn (holdsOpSuccess pieces) (ScriptError.Due rules tap answers) := by
  induction pieces with
  | nil => exact failsIn_ok
  | cons p rest ih =>
    simp only [holdsOpSuccess]
    split
    · exact failsIn_ok
    · split
      · exact failsIn_error (ScriptError.due_of_none rfl)
      · exact ih

theorem checkItems_fails (version : SigVersion) :
    FailsIn (checkItems version items) (ScriptError.Due rules tap answers) := by
  unfold checkItems
  split
  · exact failsIn_error (ScriptError.due_of_none rfl)
  · split
    · exact failsIn_error (ScriptError.due_of_none rfl)
    · exact failsIn_ok

theorem runScript_keeps (htap : context.version = .tapscript → tap) :
    (runScript rules items script context).Keeps (scriptTerms rules tap answers) := by
  refine keeps_liftM_bind (checkItems_fails context.version) fun _ _ => ?_
  refine (Script.eval_keeps script items.reverse htap).bind fun stack _ => ?_
  split
  · exact keeps_pure _
  · exact keeps_fail (ScriptError.due_of_none rfl)

theorem execute_keeps (htap : context.version = .tapscript → tap) :
    (execute rules items script context).Keeps (scriptTerms rules tap answers) := by
  unfold execute
  split
  · refine keeps_liftM_bind (holdsOpSuccess_fails _) fun found _ => ?_
    split
    · split
      · rename_i hd
        exact keeps_fail (ScriptError.due_of_has rfl hd)
      · exact keeps_pure true
    · exact runScript_keeps htap
  · exact runScript_keeps htap

theorem keyPath_keeps (htap : tap) (program : Block 32) (sig : Bytes) :
    (keyPath program sig context).Keeps (scriptTerms rules tap answers) := by
  refine keeps_report.bind fun _ _ => ?_
  refine keeps_liftM_bind ((Check.schnorrDecode_fails sig).mapError fun _ h => .machine h) fun sig _ => ?_
  refine keeps_query_bind (fun _ => htap) fun good hgood => ?_
  refine keeps_liftM_bind ?_ fun _ _ => keeps_pure true
  cases good with
  | ok u => exact failsIn_ok
  | error e => exact failsIn_error (.machine (.answered hgood))

theorem controlBlock_fails (control : Bytes) :
    FailsIn ((Taproot.ControlBlock.parse control).mapError fun _ => ScriptError.controlSize control.length)
      (ScriptError.Due rules tap answers) := by
  cases Taproot.ControlBlock.parse control with
  | ok block => exact failsIn_ok
  | error e => exact failsIn_error (ScriptError.due_of_none rfl)

theorem scriptPath_keeps (htap : tap) (program : Block 32) (control : Bytes) :
    (scriptPath rules witness program items script control context).Keeps (scriptTerms rules tap answers) := by
  refine keeps_liftM_bind (controlBlock_fails control) fun block _ => ?_
  dsimp only
  split
  · exact keeps_fail (ScriptError.due_of_none rfl)
  · split
    · exact keeps_report.bind fun _ _ => execute_keeps fun _ => htap
    · split
      · rename_i hd
        exact keeps_fail (ScriptError.due_of_has rfl hd)
      · exact keeps_pure true

theorem verifyTaproot_keeps (htap : tap) (program : Block 32) :
    (verifyTaproot rules witness program).Keeps (scriptTerms rules tap answers) := by
  unfold verifyTaproot
  dsimp only
  split
  · rename_i ha
    rw [Bool.and_eq_true] at ha
    exact keeps_fail (ScriptError.due_of_has rfl ha.2)
  · split
    · exact keeps_fail (ScriptError.due_of_none rfl)
    · exact keyPath_keeps htap program _
    · exact scriptPath_keeps htap program _

theorem verifyVersion0_keeps (program : Bytes) :
    (verifyVersion0 rules witness program).Keeps (scriptTerms rules tap answers) := by
  have hfresh : (Context.fresh .witnessV0).version = .tapscript → tap := fun h => by cases h
  unfold verifyVersion0
  split
  · unfold verifyScriptHash
    split
    · exact keeps_fail (ScriptError.due_of_none rfl)
    · split
      · exact keeps_fail (ScriptError.due_of_none rfl)
      · exact execute_keeps hfresh
  · split
    · unfold verifyKeyHash
      split
      · exact keeps_fail (ScriptError.due_of_none rfl)
      · exact execute_keeps hfresh
    · exact keeps_fail (ScriptError.due_of_none rfl)

theorem verifyUnknown_keeps : (verifyUnknown rules).Keeps (scriptTerms rules tap answers) := by
  unfold verifyUnknown
  split
  · rename_i hd
    exact keeps_fail (ScriptError.due_of_has rfl hd)
  · exact keeps_pure true

theorem verifyVersion1_keeps {program : Bytes} (htap : rules.has .taproot = true → program.length = 32 → tap) :
    (verifyVersion1 rules witness program).Keeps (scriptTerms rules tap answers) := by
  unfold verifyVersion1
  split
  · rename_i key hkey
    split
    · rename_i ht
      exact verifyTaproot_keeps (htap ht (Block.length_of_ofBytes? hkey)) key
    · exact keeps_pure true
  · split
    · exact keeps_pure true
    · exact verifyUnknown_keeps

/-- Of all programs only those of version 1 and 32 bytes, and not behind a script hash, are
    spends of taproot. -/
theorem verifyProgram_keeps {version : Nat} {program : Bytes} {nested : Bool}
    (htap : version = 1 → nested = false → rules.has .taproot = true → program.length = 32 → tap) :
    (verifyProgram rules witness version program nested).Keeps (scriptTerms rules tap answers) := by
  refine keeps_report.bind fun _ _ => ?_
  split
  · exact verifyVersion0_keeps program
  · split
    · rename_i hv
      simp only [Bool.and_eq_true, decide_eq_true_eq, Bool.not_eq_true'] at hv
      exact verifyVersion1_keeps (htap hv.1 hv.2)
    · exact verifyUnknown_keeps

end Witness

/-! ## Spends -/

namespace Spend

variable {sig pubKey : Program} {witness : List Bytes}

/-- The locking script is an output key of taproot, and is spent as one. -/
def SpendsTaproot (rules : Rules) (pubKey : Bytes) : Prop :=
  rules.has .witness = true ∧ rules.has .taproot = true ∧
    ∃ program, Script.witnessProgram? pubKey = some (1, program) ∧ program.length = 32

/-- What a failure of a spend is due to. Tapscripts stand in the witness. -/
inductive Due (rules : Rules) (sig pubKey : Program) (answers : (q : Query) → q.Answer → Prop) :
    Part × ScriptError → Prop
  | inPart {part : Part} {e : ScriptError} {tap : Prop} (h : e.Due rules tap answers)
      (htap : tap → part = .witness ∧ SpendsTaproot rules pubKey.bytes) : Due rules sig pubKey answers (part, e)
  /-- What unlocks a script hash only pushes, whether or not that is asked of all scripts. -/
  | scriptHash (hrule : rules.has .p2sh = true) (hkey : Script.isPayToScriptHash pubKey.bytes = true)
      (hsig : sig.isPushOnly = false) : Due rules sig pubKey answers (.sig, .sigPushOnly)

def terms (rules : Rules) (sig pubKey : Program) (answers : (q : Query) → q.Answer → Prop) :
    Terms (Part × ScriptError) where
  answers := answers
  asks q := q.isSchnorr = true → SpendsTaproot rules pubKey.bytes
  fails := Due rules sig pubKey answers

/-- A failure of the spend itself that names no rule, or one in force. -/
theorem due_of {part : Part} {e : ScriptError} (h : e.Due rules False answers) :
    Due rules sig pubKey answers (part, e) := .inPart h False.elim

theorem inPart_keeps {α : Type} (part : Part) {d : Dialogue ScriptError α}
    (h : d.Keeps (scriptTerms rules tap answers)) (htap : tap → part = .witness ∧ SpendsTaproot rules pubKey.bytes) :
    (inPart part d).Keeps (terms rules sig pubKey answers) :=
  h.mapError (fun _ _ h => h) (fun _ h hq => (htap (h hq)).2) fun _ he => .inPart he htap

theorem programStep_keeps {script : Bytes} {malleated nested : Bool} {fault : ScriptError} {r : Remains}
    (hfault : fault.rule? = none) (hscript : nested = false → script = pubKey.bytes) :
    (programStep rules witness script malleated fault nested r).Keeps (terms rules sig pubKey answers) := by
  unfold programStep
  split
  · exact keeps_pure _
  · rename_i program hprogram
    split
    · exact keeps_fail (due_of (ScriptError.due_of_none hfault))
    · have hverify : (Witness.verifyProgram rules witness program.1 program.2 nested).Keeps
          (scriptTerms rules (SpendsTaproot rules pubKey.bytes) answers) := by
        refine Witness.verifyProgram_keeps fun hv hn ht hlen => ?_
        split at hprogram
        · rename_i hw
          rw [hscript hn] at hprogram
          exact ⟨hw, ht, program.2, by rw [hprogram, ← hv], hlen⟩
        · cases hprogram
      refine (inPart_keeps .witness hverify fun h => ⟨rfl, h⟩).bind fun good _ => ?_
      exact keeps_pure _

theorem redeemStep_keeps {data : Stack} {r : Remains} :
    (redeemStep rules sig pubKey witness data r).Keeps (terms rules sig pubKey answers) := by
  unfold redeemStep
  split
  · rename_i hp
    rw [Bool.and_eq_true] at hp
    split
    · rename_i hs
      exact keeps_fail (.scriptHash hp.1 hp.2 (by simpa using hs))
    · cases data with
      | nil => exact keeps_fail (due_of (ScriptError.due_of_none rfl))
      | cons redeem rest =>
        refine keeps_report.bind fun _ _ => ?_
        refine (inPart_keeps .redeem (Program.eval_keeps (.bytes redeem) rest) False.elim).bind fun stack _ => ?_
        split
        · exact programStep_keeps rfl fun h => by cases h
        · exact keeps_pure _
  · exact keeps_pure _

theorem checkRemains_fails (r : Remains) :
    FailsIn (checkRemains rules witness r) (Due rules sig pubKey answers) := by
  unfold checkRemains
  split
  · rename_i hc
    rw [Bool.and_eq_true] at hc
    exact failsIn_error (due_of (ScriptError.due_of_has rfl hc.1))
  · split
    · exact failsIn_error (due_of (ScriptError.due_of_none rfl))
    · exact failsIn_ok

theorem andThen_keeps {step : Step} {next : Remains → Dialogue (Part × ScriptError) Bool}
    (hstep : step.Keeps (terms rules sig pubKey answers))
    (hnext : ∀ r, (next r).Keeps (terms rules sig pubKey answers)) :
    (andThen step next).Keeps (terms rules sig pubKey answers) := by
  refine hstep.bind fun r _ => ?_
  cases r with
  | none => exact keeps_pure false
  | some r => exact hnext r

/-- A spend asks for Schnorr signatures only if it is one of taproot, and its failures are
    due. -/
theorem eval_keeps (hsig : sig.IsScript) (hkey : pubKey.IsScript) :
    (eval rules sig pubKey witness).Keeps (terms rules sig pubKey answers) := by
  unfold eval
  split
  · rename_i hs
    rw [Bool.and_eq_true] at hs
    exact keeps_fail (due_of (ScriptError.due_of_has rfl hs.1))
  refine keeps_report.bind fun _ _ => ?_
  refine (inPart_keeps .sig (Program.eval_keeps hsig []) False.elim).bind fun data _ => ?_
  refine keeps_report.bind fun _ _ => ?_
  refine (inPart_keeps .pubKey (Program.eval_keeps hkey data) False.elim).bind fun stack _ => ?_
  split
  · refine andThen_keeps (programStep_keeps rfl fun _ => rfl) fun r => ?_
    refine andThen_keeps redeemStep_keeps fun r => ?_
    exact keeps_liftM_bind (checkRemains_fails r) fun _ _ => keeps_pure true
  · exact keeps_pure false

/-- Whoever answers, a failure that names a rule has that rule in force, or it is one of four:
    what unlocks a script hash does more than push, the encoding of a signature is not
    canonical under one of the other rules that ask for it, a key in a tapscript is empty, or
    the failure is the answer to a Schnorr check. -/
theorem rule_of_failure {σ : Type} (hsig : sig.IsScript) (hkey : pubKey.IsScript) (rules : Rules)
    (witness : List Bytes) (r : Responder σ) (s : σ) {part : Part} {e : ScriptError} {rule : Rule}
    (h : ((eval rules sig pubKey witness).converse r s).result = .error (part, e)) (hrule : e.rule? = some rule) :
    rules.has rule = true ∨
    (part = .sig ∧ e = .sigPushOnly ∧ rules.has .p2sh = true ∧
      Script.isPayToScriptHash pubKey.bytes = true ∧ sig.isPushOnly = false) ∨
    (∃ item err, e = .machine item (.signature (.der err)) ∧
      (rules.has .lowS = true ∨ rules.has .strictEncoding = true)) ∨
    (∃ item, e = .machine item .keyType ∧ part = .witness ∧ SpendsTaproot rules pubKey.bytes) ∨
    ∃ item check err, e = .machine item (.signature err) ∧
      ⟨.schnorr check, .error err⟩ ∈ ((eval rules sig pubKey witness).converse r s).exchanges := by
  have hkeeps : (eval rules sig pubKey witness).Keeps (terms rules sig pubKey fun q a =>
      ⟨q, a⟩ ∈ ((eval rules sig pubKey witness).converse r s).exchanges) := eval_keeps hsig hkey
  have hdue := (hkeeps.of_converse r s fun _ hx => hx).2 _ h
  cases hdue with
  | scriptHash hp hk hs => exact Or.inr (Or.inl ⟨rfl, rfl, hp, hk, hs⟩)
  | inPart he htap =>
    cases he with
    | inForce hforce => exact Or.inl (hforce rule hrule)
    | machine hm =>
      cases hm with
      | inForce hforce => exact Or.inl (hforce rule hrule)
      | encoding hr => exact Or.inr (Or.inr (Or.inl ⟨_, _, rfl, hr⟩))
      | emptyKey ht => exact Or.inr (Or.inr (Or.inr (Or.inl ⟨_, rfl, htap ht⟩)))
      | answered ha => exact Or.inr (Or.inr (Or.inr (Or.inr ⟨_, _, _, rfl, ha⟩)))

/-- Under the rule on low values alone a signature fails by its encoding, and names another
    rule. -/
theorem rule_of_failure_lowS :
    ∃ (part : Part) (item : Option Item) (err : Der.Error),
      ((eval (Rules.ofList [.lowS]) (.ofScript [2, 0x30, 1]) (.ofScript [0x51, 0xac]) []).converse
        Oracle.deny.responder ()).result = .error (part, .machine item (.signature (.der err))) ∧
      (Rules.ofList [.lowS]).has .derSignature = false ∧
      ((Rules.ofList [.lowS]).has .lowS = true ∨ (Rules.ofList [.lowS]).has .strictEncoding = true) := by
  have hrun : ((eval (Rules.ofList [.lowS]) (.ofScript [2, 0x30, 1]) (.ofScript [0x51, 0xac]) []).converse
      Oracle.deny.responder ()).result =
        .error (.pubKey, .machine (some (.good (.operation .checkSig))) (.signature (.der .wrongType))) := by
    decide +kernel
  rcases rule_of_failure (.bytes _) (.bytes _) _ _ _ _ hrun rfl with h | ⟨h, -⟩ | ⟨_, _, -, h⟩ | ⟨_, h, -⟩ | ⟨_, _, _, -, h⟩
  · exact absurd h (by decide)
  · cases h
  · exact ⟨_, _, _, hrun, by decide, h⟩
  · cases h
  · have hnone : ((eval (Rules.ofList [.lowS]) (.ofScript [2, 0x30, 1]) (.ofScript [0x51, 0xac]) []).converse
        Oracle.deny.responder ()).exchanges.isEmpty = true := by decide +kernel
    rw [List.isEmpty_iff.mp hnone] at h
    cases h

/-- A rule that a failure names may not be in force: with low values asked for and not
    canonical encodings, and with redeem scripts run and not only pushes asked for. -/
theorem named_rule_not_in_force :
    (∃ e : ScriptError, e.rule? = some .derSignature ∧ (Rules.ofList [.lowS]).has .derSignature = false ∧
      (eval (Rules.ofList [.lowS]) (.ofScript [2, 0x30, 1]) (.ofScript [0x51, 0xac]) []).run Oracle.deny =
        .error (.pubKey, e)) ∧
    ∃ e : ScriptError, e.rule? = some .sigPushOnly ∧ (Rules.ofList [.p2sh]).has .sigPushOnly = false ∧
      (eval (Rules.ofList [.p2sh]) (.ofScript [0x61, 0])
        (.ofScript [0xa9, 20, 0xb4, 0x72, 0xa2, 0x66, 0xd0, 0xbd, 0x89, 0xc1, 0x37, 0x6,
          0xa4, 0x13, 0x2c, 0xcf, 0xb1, 0x6f, 0x7c, 0x3b, 0x9f, 0xcb, 0x87]) []).run Oracle.deny =
        .error (.sig, e) := by
  refine ⟨⟨.machine (some (.good (.operation .checkSig))) (.signature (.der .wrongType)), rfl, by decide, ?_⟩,
    ⟨.sigPushOnly, rfl, by decide, ?_⟩⟩
  · decide +kernel
  · decide +kernel

end Spend

end SpendScript

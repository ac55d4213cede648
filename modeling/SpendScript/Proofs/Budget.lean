/-
  SpendScript.Proofs.Budget — the budget of a tapscript bounds its signature checks.

  A tapscript starts with a budget above the size of its witness. A check of a signature that
  is not empty takes its share before anything is asked, whatever the key is, and nothing gives
  it back. So what is left tells how many such checks were made, and how many questions can
  still be asked (`checksLeft`):
  - `Check.tapscriptOp_pays` / `Operation.eval_pays` / `Item.eval_pays`: one check, one
    operation, one item, with what it asks and what it leaves of the budget.
  - `weight_of_trace` / `execute_pays`: what a run leaves, and what it asks wherever it ends.
  - `Witness.schnorr_checks_within_budget`: the bound on the spend of a taproot output, by key
    or by script, and the budget in each state of its tapscript.
-/

import Mathlib
import SpendScript.Proofs.Attribution
import SpendScript.Proofs.Trace

namespace SpendScript

open Dialogue

/-! ## What is charged -/

/-- The signature that an operation checks. It lies below the key, and below a number too if the
    operation adds to one. -/
def Operation.signature? (stack : Stack) : Operation → Option Bytes
  | .checkSig | .checkSigVerify => stack[1]?
  | .checkSigAdd => stack[2]?
  | _ => none

/-- Whether a signature that is not empty is checked at a stop. -/
def Stop.spends (x : Stop) : Bool :=
  match x.item with
  | .good (.operation op) => x.before.executing && (op.signature? x.before.stack).any (!·.isEmpty)
  | _ => false

/-- What is taken from the budget where a signature is checked or not. -/
def charge (spends : Bool) : Int := if spends then Check.weightPerCheck else 0

/-- The checks that a budget still pays for. -/
def checksLeft (w : Int) : Nat := (w / Check.weightPerCheck).toNat

/-- A tapscript is run with `w` left of its budget. -/
structure Context.Holds (c : Context) (w : Int) : Prop where
  version : c.version = .tapscript
  weight : c.weightLeft = some w
  nonneg : 0 ≤ w

/-- The questions that were paid for and those that can still be paid for. -/
theorem checksLeft_split (w : Int) (spends : Bool) :
    checksLeft w - checksLeft (w - charge spends) + checksLeft (w - charge spends) ≤ checksLeft w := by
  unfold checksLeft charge Check.weightPerCheck
  split <;> omega

/-- A share that was taken pays for one question. -/
theorem one_le_checksLeft {w : Int} (h : 0 ≤ w - charge true) :
    1 ≤ checksLeft w - checksLeft (w - charge true) := by
  simp only [checksLeft, charge, Check.weightPerCheck, if_true] at h ⊢
  omega

theorem Context.Holds.of_not_spends {c : Context} {w : Int} (h : c.Holds w) : c.Holds (w - charge false) := by
  simpa [charge] using h

/-! ## One check -/

namespace Check

variable {rules : Rules} {script : Bytes} {c c' : Context} {w : Int} {item key : Bytes}

theorem spendWeight_holds (hc : c.Holds w) (h : spendWeight c item = .ok c') :
    c'.Holds (w - charge (!item.isEmpty)) := by
  unfold spendWeight at h
  rw [hc.weight] at h
  dsimp only at h
  split at h
  · rename_i hempty
    cases h
    rw [hempty]
    exact hc.of_not_spends
  · rename_i hempty
    split at h
    · cases h
    · rename_i hleft
      cases h
      have hspends : (!item.isEmpty) = true := by simpa using hempty
      rw [hspends]
      exact ⟨hc.version, rfl, Int.not_lt.mp hleft⟩

/-- The share is taken before the key is looked at and before anything is asked. -/
theorem tapscriptOp_pays (hc : c.Holds w) :
    (tapscriptOp rules c item key).Costs Query.isSchnorr
      (checksLeft w - checksLeft (w - charge (!item.isEmpty))) fun r => r.2.Holds (w - charge (!item.isEmpty)) := by
  refine costs_liftM_bind fun c' h => ?_
  have hc' := spendWeight_holds hc h
  split
  · exact costs_fail
  split
  · split
    · exact costs_pure hc'
    · rename_i hempty
      have hspends : (!item.isEmpty) = true := by simpa using hempty
      rw [hspends] at hc' ⊢
      refine costs_liftM_bind fun sig _ => ?_
      refine costs_query.bind (n := 0) (fun good _ => ?_) (one_le_checksLeft hc'.nonneg)
      exact costs_liftM_bind fun _ _ => costs_pure hc'
  · split
    · exact costs_fail
    · exact costs_pure hc'

theorem single_pays (hc : c.Holds w) :
    (single rules script c item key).Costs Query.isSchnorr
      (checksLeft w - checksLeft (w - charge (!item.isEmpty))) fun r => r.2.Holds (w - charge (!item.isEmpty)) := by
  rw [single_of_tapscript hc.version]
  exact tapscriptOp_pays hc

end Check

/-! ## Operations -/

section Operations

variable {rules : Rules} {script : Bytes} {s : State} {w : Int}

theorem evalCheckSig_pays (hc : s.context.Holds w) (verify : Bool) {spends : Bool}
    (hs : s.stack[1]?.any (!·.isEmpty) = spends) :
    (evalCheckSig rules script verify s).Costs Query.isSchnorr (checksLeft w - checksLeft (w - charge spends))
      fun s' => s'.context.Holds (w - charge spends) := by
  refine costs_liftM_bind fun _ _ => costs_liftM_bind fun ⟨key, below⟩ hkey => costs_liftM_bind fun ⟨sig, rest⟩ hsig => ?_
  have hspends : (!sig.isEmpty) = spends := by
    rw [← hs, Stack.pop_eq_ok.mp hkey, Stack.pop_eq_ok.mp hsig]
    rfl
  subst hspends
  refine (Check.single_pays hc).bind (n := 0) (fun r hr => costs_liftM fun s' h => ?_) (by omega)
  obtain ⟨stack, rfl⟩ := conclude_eq_ok h
  exact hr

theorem evalCheckSigAdd_pays (hc : s.context.Holds w) {spends : Bool} (hs : s.stack[2]?.any (!·.isEmpty) = spends) :
    (evalCheckSigAdd rules script s).Costs Query.isSchnorr (checksLeft w - checksLeft (w - charge spends))
      fun s' => s'.context.Holds (w - charge spends) := by
  unfold evalCheckSigAdd
  split
  · exact costs_fail
  refine costs_liftM_bind fun _ _ => costs_liftM_bind fun x _ => costs_liftM_bind fun n _ => ?_
  refine costs_liftM_bind fun key _ => costs_liftM_bind fun sig hsig => ?_
  have hspends : (!sig.isEmpty) = spends := by
    rw [← hs, Stack.get_eq_ok.mp hsig]
    rfl
  subst hspends
  exact (Check.single_pays hc).bind (n := 0) (fun r hr => costs_pure hr) (by omega)

/-- Only signature checks are charged for; the other operations ask nothing about Schnorr
    signatures and leave the budget alone. -/
theorem Operation.eval_pays (op : Operation) (hc : s.context.Holds w) {spends : Bool}
    (hs : (op.signature? s.stack).any (!·.isEmpty) = spends) :
    (op.eval rules script s).Costs Query.isSchnorr (checksLeft w - checksLeft (w - charge spends))
      fun s' => s'.context.Holds (w - charge spends) := by
  have hsilent {d : Dialogue MachineError State} (h : d.Keeps (machineTerms rules False fun _ _ => True))
      (hd : ∀ s', d.Yields s' → s' = s) :
      d.Costs Query.isSchnorr (checksLeft w - checksLeft (w - charge false)) fun s' =>
        s'.context.Holds (w - charge false) := by
    refine (h.costs (fun _ _ => trivial) fun q hq => ?_).mono (Nat.le_refl _) fun s' hy => ?_
    · exact Bool.eq_false_iff.mpr hq
    · rw [hd s' hy]
      exact hc.of_not_spends
  cases op with
  | checkSig => exact evalCheckSig_pays hc false hs
  | checkSigVerify => exact evalCheckSig_pays hc true hs
  | checkSigAdd => exact evalCheckSigAdd_pays hc hs
  | checkMultiSig | checkMultiSigVerify =>
    simp only [Operation.eval, evalCheckMultiSig, hc.version]
    exact costs_fail
  | abort => exact costs_fail
  | nop | codeSeparator =>
    subst hs
    exact costs_pure ⟨hc.version, hc.of_not_spends.weight, hc.of_not_spends.nonneg⟩
  | stack op =>
    subst hs
    exact costs_liftM_bind fun r _ => costs_pure hc.of_not_spends
  | verify | equal | equalVerify | unary _ | binary _ | numEqualVerify | within | hash _ =>
    subst hs
    refine costs_liftM fun s' h => ?_
    obtain ⟨stack, -, rfl⟩ := State.onStack_eq_ok h
    exact hc.of_not_spends
  | checkLockTime =>
    subst hs
    exact hsilent evalLockTime_keeps fun _ => yields_evalLockTime
  | checkSequence =>
    subst hs
    exact hsilent evalSequence_keeps fun _ => yields_evalSequence
  | upgradable _ =>
    subst hs
    refine costs_liftM fun s' h => ?_
    rw [upgradableNop_eq_ok h]
    exact hc.of_not_spends

end Operations

/-! ## Items -/

section Items

variable {rules : Rules} {script : Bytes} {s s' : State} {w : Int}

theorem Context.Holds.of_countOps {n : Nat} (hc : s.context.Holds w) (h : s.countOps n = .ok s') :
    s'.context.Holds w := by
  rw [State.context_countOps h]
  exact hc

theorem Opcode.act_pays (op : Opcode) (hc : s.context.Holds w) :
    (op.act rules script s).Costs Query.isSchnorr (checksLeft w - checksLeft (w - charge (Stop.mk (.good op) s).spends))
      fun s' => s'.context.Holds (w - charge (Stop.mk (.good op) s).spends) := by
  cases op with
  | push p =>
    simp only [Opcode.act]
    split
    · refine costs_liftM fun s' h => ?_
      obtain ⟨-, rfl⟩ := Push.eval_eq_ok.mp h
      exact hc.of_not_spends
    · exact costs_pure hc.of_not_spends
  | control c =>
    refine costs_liftM_bind fun s₁ h₁ => costs_liftM fun s' h => ?_
    obtain ⟨stack, branches, rfl⟩ := Control.eval_eq_ok h
    exact (hc.of_countOps h₁).of_not_spends
  | operation op =>
    refine costs_liftM_bind fun s₁ h₁ => ?_
    have hc₁ := hc.of_countOps h₁
    have hexec := (State.frame_countOps h₁).executing
    have hstack : s₁.stack = s.stack := by
      rcases State.countOps_eq_ok h₁ with rfl | ⟨-, rfl⟩ <;> rfl
    split
    · exact costs_fail
    · split
      · rename_i he
        refine op.eval_pays hc₁ ?_
        simp only [Stop.spends]
        rw [← hexec, he, hstack, Bool.true_and]
      · rename_i he
        have hspends : (Stop.mk (.good (.operation op)) s).spends = false := by
          simp only [Stop.spends]
          rw [← hexec, Bool.eq_false_iff.mpr he, Bool.false_and]
        rw [hspends]
        exact costs_pure hc₁.of_not_spends

/-- What one item asks is paid for, and what it leaves of the budget is known. -/
theorem Item.eval_pays (item : Item) (hc : s.context.Holds w) :
    (item.eval rules script s).Costs Query.isSchnorr (checksLeft w - checksLeft (w - charge (Stop.mk item s).spends))
      fun s' => s'.context.Holds (w - charge (Stop.mk item s).spends) := by
  cases item with
  | good op =>
    refine (op.act_pays hc).bind (n := 0) (fun s₁ h₁ => costs_liftM fun s' h => ?_) (by omega)
    rw [(State.checkDepth_eq_ok.mp h).2]
    exact h₁
  | bad b =>
    refine costs_liftM fun s' h => ?_
    obtain ⟨-, count, rfl⟩ := Bad.eval_eq_ok h
    exact hc.of_not_spends

end Items

/-! ## Runs -/

section Runs

variable {rules : Rules} {script : Bytes} {index : Nat} {s t : State} {w : Int} {stops : List Stop}
  {xs : List (Except ScriptError Item)}

/-- What is left behind a run is what it started with, less a share for each check. -/
theorem weight_of_trace (h : (trace rules script index s xs).Yields (stops, t)) (hc : s.context.Holds w) :
    t.context.Holds (w - Check.weightPerCheck * stops.countP Stop.spends) := by
  induction xs generalizing index s w stops with
  | nil =>
    obtain ⟨rfl, rfl⟩ := yields_trace_nil h
    simpa using hc
  | cons x xs ih =>
    obtain ⟨item, s', rest, -, ⟨ys, hstep⟩, hrest, rfl⟩ := yields_trace_cons h
    have hreach : (s.reach index item.size).context.Holds w := hc
    have hc' := ih hrest ((item.eval_pays hreach _ _ hstep).2 s' rfl)
    have hsum : w - charge (Stop.mk item (s.reach index item.size)).spends
        - Check.weightPerCheck * rest.countP Stop.spends =
        w - Check.weightPerCheck * (Stop.mk item (s.reach index item.size) :: rest).countP Stop.spends := by
      rw [List.countP_cons]
      unfold charge
      split <;> push_cast <;> ring
    rw [hsum] at hc'
    exact hc'

/-- A run asks no more than its budget pays for, wherever it ends. -/
theorem execute_pays (hc : s.context.Holds w) :
    (execute rules script index s xs).Costs Query.isSchnorr (checksLeft w) fun _ => True := by
  induction xs generalizing index s w with
  | nil => exact costs_pure trivial
  | cons x xs ih =>
    cases x with
    | error e => exact costs_fail
    | ok item =>
      have hreach : (s.reach index item.size).context.Holds w := hc
      exact (item.eval_pays hreach).mapError.bind (fun s' hs' => ih hs') (checksLeft_split w _)

theorem Script.eval_pays {c : Context} (hc : c.Holds w) (code : Bytes) (stack : Stack) :
    (Script.eval rules code stack c).Costs Query.isSchnorr (checksLeft w) fun _ => True := by
  refine costs_liftM_bind fun _ _ => ?_
  have hstart : (State.start stack c).context.Holds w := hc
  exact (execute_pays hstart).bind (n := 0) (fun t _ => costs_liftM fun _ _ => trivial) (by omega)

end Runs

/-! ## Witnesses -/

/-- Grants every check. -/
def Oracle.grant : Oracle
  | .ecdsa _ => true
  | .schnorr _ => .ok ()
  | .lockTime _ => true
  | .sequence _ => true

namespace Witness

variable {rules : Rules} {witness : List Bytes} {program : Block 32}

/-- What a taproot spend runs: a script on items, in a context. -/
structure Tapscript where
  items : List Bytes
  script : Bytes
  context : Context
  deriving DecidableEq

/-- The context that a tapscript is run in. -/
def tapscriptContext (witness : List Bytes) (annex : Option Bytes) (leaf : Block 32) : Context :=
  { taprootContext annex with
    version := .tapscript
    leafHash := some leaf
    weightLeft := some ((encodeWitness witness).length + weightOffset) }

/-- The tapscript that a control block shows, if the program commits to it. -/
def shownTapscript? (witness : List Bytes) (program : Block 32) (items : List Bytes) (script control : Bytes)
    (annex : Option Bytes) : Option Tapscript :=
  match Taproot.ControlBlock.parse control with
  | .error _ => none
  | .ok block =>
    let leaf := Taproot.leafHash block.version script
    if block.commits program leaf && block.version == Taproot.tapscriptVersion then
      some ⟨items, script, tapscriptContext witness annex leaf⟩
    else none

/-- The tapscript that the spend of a taproot output comes to, if it comes to one. -/
def tapscript? (rules : Rules) (witness : List Bytes) (program : Block 32) : Option Tapscript :=
  let (items, annex) := splitAnnex witness
  if rules.has .taproot && !(annex.isSome && rules.has .discourageAnnex) then
    match items.reverse with
    | control :: script :: below => shownTapscript? witness program below.reverse script control annex
    | _ => none
  else none

theorem scriptPath_of_shown {items : List Bytes} {script control : Bytes} {annex : Option Bytes} {run : Tapscript}
    (h : shownTapscript? witness program items script control annex = some run) :
    ∃ depth, scriptPath rules witness program items script control (taprootContext annex) =
      .note (.scriptPath depth) (execute rules run.items run.script run.context) := by
  unfold shownTapscript? at h
  unfold scriptPath
  cases hparse : Taproot.ControlBlock.parse control with
  | error e => rw [hparse] at h; cases h
  | ok block =>
    rw [hparse] at h
    dsimp only at h
    split at h
    · rename_i hshown
      rw [Bool.and_eq_true] at hshown
      cases h
      have hcommits : ¬ (!block.commits program (Taproot.leafHash block.version script)) = true := by
        simp [hshown.1]
      refine ⟨block.path.length, ?_⟩
      exact (if_neg hcommits).trans (if_pos hshown.2)
    · cases h

theorem scriptPath_costs_of_not_shown {items : List Bytes} {script control : Bytes} {annex : Option Bytes}
    (h : shownTapscript? witness program items script control annex = none) :
    (scriptPath rules witness program items script control (taprootContext annex)).Costs Query.isSchnorr 0
      fun _ => True := by
  unfold shownTapscript? at h
  unfold scriptPath
  cases hparse : Taproot.ControlBlock.parse control with
  | error e => exact costs_fail
  | ok block =>
    rw [hparse] at h
    dsimp only at h
    refine costs_liftM_bind fun b hb => ?_
    cases hb
    dsimp only
    split
    · exact costs_fail
    · rename_i hcommits
      split
      · rename_i hversion
        rw [if_pos (by simpa using ⟨by simpa using hcommits, by simpa using hversion⟩)] at h
        cases h
      · split
        · exact costs_fail
        · exact costs_pure trivial

theorem keyPath_costs_one {sig : Bytes} {context : Context} :
    (keyPath program sig context).Costs Query.isSchnorr 1 fun _ => True := by
  refine costs_report.bind (m := 0) (n := 1) (fun _ _ => ?_) (by omega)
  refine costs_liftM_bind fun sig _ => ?_
  refine costs_query.bind (n := 0) (fun good _ => ?_) (by omega)
  exact costs_liftM_bind fun _ _ => costs_pure trivial

theorem verifyProgram_eq_verifyTaproot (ht : rules.has .taproot = true) :
    verifyProgram rules witness 1 program.val false =
      .note (.witnessProgram 1 program.val.length false) (verifyTaproot rules witness program) := by
  have hversion : verifyVersion1 rules witness program.val = verifyTaproot rules witness program := by
    unfold verifyVersion1
    rw [Block.ofBytes?_val]
    exact if_pos ht
  rw [← hversion]
  rfl

/-- The spend of a taproot output that comes to a tapscript does nothing but run it. -/
theorem verifyProgram_of_tapscript {run : Tapscript} (h : tapscript? rules witness program = some run) :
    ∃ depth, verifyProgram rules witness 1 program.val false =
      .note (.witnessProgram 1 program.val.length false)
        (.note (.scriptPath depth) (execute rules run.items run.script run.context)) := by
  unfold tapscript? at h
  dsimp only at h
  split at h
  · rename_i hrules
    rw [Bool.and_eq_true, Bool.not_eq_true'] at hrules
    split at h
    · rename_i control script below hitems
      obtain ⟨depth, hpath⟩ := @scriptPath_of_shown rules _ _ _ _ _ _ _ h
      refine ⟨depth, ?_⟩
      rw [verifyProgram_eq_verifyTaproot hrules.1, ← hpath]
      congr 1
      unfold verifyTaproot
      dsimp only
      rw [if_neg (Bool.eq_false_iff.mp hrules.2), hitems]
    · cases h
  · cases h

theorem verifyTaproot_costs_of_none (ht : rules.has .taproot = true) (h : tapscript? rules witness program = none) :
    (verifyTaproot rules witness program).Costs Query.isSchnorr 1 fun _ => True := by
  unfold tapscript? at h
  unfold verifyTaproot
  dsimp only at h ⊢
  split
  · exact costs_fail
  · rename_i hannex
    rw [if_pos (by rw [ht, Bool.true_and, Bool.not_eq_true', Bool.eq_false_iff]; exact hannex)] at h
    split
    · exact costs_fail
    · exact keyPath_costs_one
    · rename_i control script below hitems
      rw [hitems] at h
      exact (scriptPath_costs_of_not_shown h).of_eq_zero

/-- Any other spend of such an output asks once at most. -/
theorem verifyProgram_costs_of_none (h : tapscript? rules witness program = none) :
    (verifyProgram rules witness 1 program.val false).Costs Query.isSchnorr 1 fun _ => True := by
  by_cases ht : rules.has .taproot = true
  · rw [verifyProgram_eq_verifyTaproot ht]
    exact (verifyTaproot_costs_of_none ht h).note
  · refine costs_report.bind (m := 0) (n := 1) (fun _ _ => ?_) (Nat.le_refl _)
    show (verifyVersion1 rules witness program.val).Costs Query.isSchnorr 1 fun _ => True
    unfold verifyVersion1
    rw [Block.ofBytes?_val]
    dsimp only
    rw [if_neg ht]
    exact costs_pure trivial

theorem holds_of_tapscript {run : Tapscript} (h : tapscript? rules witness program = some run) :
    run.context.Holds ((encodeWitness witness).length + weightOffset) := by
  have hshown {items : List Bytes} {script control : Bytes} {annex : Option Bytes}
      (h : shownTapscript? witness program items script control annex = some run) :
      run.context.Holds ((encodeWitness witness).length + weightOffset) := by
    unfold shownTapscript? at h
    split at h
    · cases h
    · dsimp only at h
      split at h
      · cases h
        exact ⟨rfl, rfl, by unfold weightOffset; omega⟩
      · cases h
  unfold tapscript? at h
  dsimp only at h
  split at h
  · split at h
    · exact hshown h
    · cases h
  · cases h

theorem execute_pays {run : Tapscript} {w : Int} (hc : run.context.Holds w) :
    (execute rules run.items run.script run.context).Costs Query.isSchnorr (checksLeft w) fun _ => True := by
  have hrun : (runScript rules run.items run.script run.context).Costs Query.isSchnorr (checksLeft w) fun _ => True := by
    refine costs_liftM_bind fun _ _ => ?_
    refine (Script.eval_pays hc run.script run.items.reverse).bind (n := 0) (fun stack _ => ?_) (by omega)
    split
    · exact costs_pure trivial
    · exact costs_fail
  unfold execute
  split
  · refine costs_liftM_bind fun found _ => ?_
    split
    · split
      · exact costs_fail
      · exact costs_pure trivial
    · exact hrun
  · exact hrun

/-- A key path asks once, and a tapscript starts with a budget for one check more than the size
    of the witness pays for. -/
theorem verifyProgram_pays :
    (verifyProgram rules witness 1 program.val false).Costs Query.isSchnorr (1 + (encodeWitness witness).length / 50)
      fun _ => True := by
  cases hrun : tapscript? rules witness program with
  | none => exact (verifyProgram_costs_of_none hrun).mono (by omega) fun _ h => h
  | some run =>
    obtain ⟨depth, heq⟩ := verifyProgram_of_tapscript hrun
    rw [heq]
    refine ((execute_pays (holds_of_tapscript hrun)).mono ?_ fun _ h => h).note.note
    unfold checksLeft weightOffset Check.weightPerCheck
    omega

/-- The spend of a taproot output asks about no more Schnorr signatures than the size of its
    witness allows, whoever answers. In each state of its tapscript, `stops` being the items up
    to there, the budget is the size with the offset, less a share for each signature that was
    not empty, and never negative. -/
theorem schnorr_checks_within_budget {σ : Type} (r : Responder σ) (a : σ) (rules : Rules) (witness : List Bytes)
    (program : Block 32) :
    asked Query.isSchnorr ((verifyProgram rules witness 1 program.val false).converse r a).exchanges ≤
        1 + (encodeWitness witness).length / 50 ∧
      ∀ run, tapscript? rules witness program = some run →
        (∃ depth, verifyProgram rules witness 1 program.val false =
          .note (.witnessProgram 1 program.val.length false)
            (.note (.scriptPath depth) (execute rules run.items run.script run.context))) ∧
        ∀ (xs : List (Except ParseError Item)) (b : σ) (t : State), xs <+: Script.items run.script →
          ((SpendScript.execute rules run.script 0 (State.start run.items.reverse run.context)
            (xs.map (·.mapError ScriptError.parse))).converse r b).result = .ok t →
          ∃ (stops : List Stop) (w : Int),
            ((trace rules run.script 0 (State.start run.items.reverse run.context)
              (xs.map (·.mapError ScriptError.parse))).converse r b).result = .ok (stops, t) ∧
            xs = stops.map (fun x => .ok x.item) ∧
            t.context.weightLeft = some w ∧
            w = (encodeWitness witness).length + 50 - 50 * stops.countP Stop.spends ∧ 0 ≤ w := by
  refine ⟨verifyProgram_pays.asked_le r a, fun run hrun => ⟨verifyProgram_of_tapscript hrun, fun xs b t _ h => ?_⟩⟩
  obtain ⟨stops, htrace⟩ := converse_execute_eq_ok h
  have hyields := yields_of_converse htrace
  have hitems : xs = (stops.map Stop.item).map .ok := by
    refine eq_map_ok_of_mapError ?_
    rw [trace_items hyields, List.map_map]
    rfl
  have hc : (State.start run.items.reverse run.context).context.Holds
      ((encodeWitness witness).length + weightOffset) := holds_of_tapscript hrun
  obtain ⟨-, hweight, hnonneg⟩ := weight_of_trace hyields hc
  exact ⟨stops, _, htrace, by rw [hitems, List.map_map]; rfl, hweight, rfl, hnonneg⟩

/-- One signature is checked by a tapscript in a witness of 135 bytes: a share is taken of the
    185 that it starts with. -/
theorem schnorr_checks_within_budget_checkSig :
    ∃ (witness : List Bytes) (program : Block 32) (run : Tapscript) (t : State) (stops : List Stop),
      tapscript? (Rules.ofList [.p2sh, .witness, .taproot]) witness program = some run ∧
      ((SpendScript.execute (Rules.ofList [.p2sh, .witness, .taproot]) run.script 0
        (State.start run.items.reverse run.context)
        ((Script.items run.script).map (·.mapError ScriptError.parse))).converse Oracle.grant.responder ()).result =
          .ok t ∧
      (encodeWitness witness).length = 135 ∧ t.context.weightLeft = some 135 ∧ stops.countP Stop.spends = 1 := by
  have h : ∃ (witness : List Bytes) (program : Block 32) (run : Tapscript) (t : State),
      tapscript? (Rules.ofList [.p2sh, .witness, .taproot]) witness program = some run ∧
      ((SpendScript.execute (Rules.ofList [.p2sh, .witness, .taproot]) run.script 0
        (State.start run.items.reverse run.context)
        ((Script.items run.script).map (·.mapError ScriptError.parse))).converse Oracle.grant.responder ()).result =
          .ok t ∧
      (encodeWitness witness).length = 135 ∧ t.context.weightLeft = some 135 := by
    let code : Bytes := 0x20 :: (List.replicate 32 1 ++ [0xac])
    let witness : List Bytes := [List.replicate 64 1, code, 0xc0 :: beBytes 32 Curve.Point.generator.x]
    let context := tapscriptContext witness none (Taproot.leafHash 0xc0 code)
    refine ⟨witness, ⟨beBytes 32 0xd9274d3bb7e0776bb0de7e392cabe9a25c3973435d262f7e376e3b430c421b2f, beBytes_length 32 _⟩,
      ⟨[List.replicate 64 1], code, context⟩,
      ⟨[[1]], [], 0, [], { context with weightLeft := some 135 }, 1, 34⟩, ?_, ?_, ?_, rfl⟩
    · decide +kernel
    · decide +kernel
    · decide +kernel
  obtain ⟨witness, program, run, t, hrun, ht, hsize, hweight⟩ := h
  obtain ⟨-, hall⟩ := schnorr_checks_within_budget Oracle.grant.responder () _ witness program
  obtain ⟨stops, w, -, -, hw, heq, -⟩ := (hall run hrun).2 _ () t (List.prefix_refl _) ht
  rw [hweight] at hw
  cases hw
  exact ⟨witness, program, run, t, stops, hrun, ht, hsize, hweight, by omega⟩

end Witness

end SpendScript

/-
  SpendScript.Proofs.SigOps — signature operations bound the ECDSA checks of a spend.

  Signature operations are counted on the bytes of the scripts, without running anything.
  What an item may ask is counted item by item, so the bound of a run is the sum over its
  items. The one thing that is read off the stack is the number of keys of a
  multisignature check: it is at most twenty, and it is the small number that was pushed
  right before, if there was one (`Linked`).
  - `Item.eval_costs`: what one item asks. `execute_costs` / `Script.eval_costs`: a script.
  - `Script.eval_costs_pushes`: the redeem script that is counted is the one that is run.
  - `Spend.ecdsa_checks_le_sigOps`: the bound on a whole spend, whoever answers.
-/

import SpendScript.Proofs.Machine
import SpendScript.Proofs.Reading
import SpendScript.Verify

namespace SpendScript

open Dialogue

/-- A question of the kind that signature operations are counted for. -/
def Query.isEcdsa : Query → Bool
  | .ecdsa _ => true
  | _ => false

/-! ## Checks -/

namespace Check

variable {rules : Rules} {script : Bytes} {context : Context}

theorem ecdsa_costs (version : SigVersion) (code item key : Bytes) :
    (ecdsa rules version code item key).Costs Query.isEcdsa 1 fun _ => True := by
  unfold ecdsa
  split
  · exact costs_fail
  · exact costs_liftM_bind fun _ _ => costs_pure trivial
  · exact costs_liftM_bind fun _ _ => costs_query

theorem ecdsaOp_costs (item key : Bytes) :
    (ecdsaOp rules script context item key).Costs Query.isEcdsa 1 fun _ => True := by
  refine costs_liftM_bind fun code _ => ?_
  refine (ecdsa_costs context.version code item key).bind (n := 0) (fun good _ => ?_) (by omega)
  split
  · exact costs_fail
  · exact costs_pure trivial

theorem spendWeight_version {item : Bytes} {context' : Context} (h : spendWeight context item = .ok context') :
    context'.version = context.version := by
  unfold spendWeight at h
  split at h
  · split at h
    · cases h; rfl
    · split at h
      · cases h
      · cases h; rfl
  · cases h; rfl

/-- A tapscript asks for Schnorr signatures only. -/
theorem tapscriptOp_costs (item key : Bytes) :
    (tapscriptOp rules context item key).Costs Query.isEcdsa 0 fun r => r.2.version = context.version := by
  refine costs_liftM_bind fun context' hw => ?_
  have hv := spendWeight_version hw
  split
  · exact costs_fail
  split
  · split
    · exact costs_pure hv
    · refine costs_liftM_bind fun sig _ => ?_
      refine (costs_query_of_not (n := 0) rfl).bind (n := 0) (fun good _ => ?_) (by omega)
      exact costs_liftM_bind fun _ _ => costs_pure hv
  · split
    · exact costs_fail
    · exact costs_pure hv

/-- One question at most, and none where there are no limits on operations. -/
theorem single_costs (item key : Bytes) :
    (single rules script context item key).Costs Query.isEcdsa (if context.version.limited then 1 else 0)
      fun r => r.2.version = context.version := by
  have hecdsa : (do
      let good ← ecdsaOp rules script context item key
      return (good, context) : Dialogue MachineError (Bool × Context)).Costs Query.isEcdsa 1
        fun r => r.2.version = context.version :=
    (ecdsaOp_costs item key).bind (n := 0) (fun good _ => costs_pure rfl) (by omega)
  unfold single
  cases hv : context.version with
  | base => rw [hv] at hecdsa; exact hecdsa
  | witnessV0 => rw [hv] at hecdsa; exact hecdsa
  | tapscript =>
    have h := @tapscriptOp_costs rules context item key
    rw [hv] at h
    exact h
  | taproot => exact costs_fail

/-- Each key is tried once. -/
theorem matching_costs (version : SigVersion) (code : Bytes) (keys sigs : List Bytes) :
    (matching rules version code keys sigs).Costs Query.isEcdsa keys.length fun _ => True := by
  induction keys generalizing sigs with
  | nil =>
    cases sigs with
    | nil => exact costs_pure trivial
    | cons sig sigs => exact costs_pure trivial
  | cons key keys ih =>
    cases sigs with
    | nil => exact costs_pure trivial
    | cons sig sigs =>
      refine (ecdsa_costs version code sig key).bind (fun good _ => ?_)
        (show 1 + keys.length ≤ (key :: keys).length by rw [List.length_cons]; omega)
      dsimp only
      generalize (if good = true then sigs else sig :: sigs) = left
      split
      · exact costs_pure trivial
      · exact ih _

end Check

/-! ## Operations -/

/-- The rules that a script is run under do not change while it is run. -/
def SameVersion (s s' : State) : Prop := s'.context.version = s.context.version

/-- A small number that was pushed right before is still on top, if it was reached. -/
def Linked (previous : Option Item) (s : State) : Prop :=
  ∀ k : Fin 16, previous = some (.good (.push (.small k))) → s.executing = true →
    s.stack.head? = some (Push.small k).value

section Operations

variable {rules : Rules} {script : Bytes} {s : State}

theorem evalCheckSig_costs (verify : Bool) :
    (evalCheckSig rules script verify s).Costs Query.isEcdsa (if s.context.version.limited then 1 else 0)
      (SameVersion s) := by
  refine costs_liftM_bind fun _ _ => costs_liftM_bind fun top _ => costs_liftM_bind fun next _ => ?_
  refine (Check.single_costs next.1 top.1).bind (n := 0) (fun r hr => ?_) (by omega)
  refine costs_liftM fun s' h => ?_
  obtain ⟨stack, rfl⟩ := conclude_eq_ok h
  exact hr

theorem evalCheckSigAdd_costs : (evalCheckSigAdd rules script s).Costs Query.isEcdsa 0 (SameVersion s) := by
  unfold evalCheckSigAdd
  by_cases hl : s.context.version.limited = true
  · rw [if_pos hl]
    exact costs_fail
  · rw [if_neg hl]
    refine costs_liftM_bind fun _ _ => costs_liftM_bind fun x _ => costs_liftM_bind fun n _ => ?_
    refine costs_liftM_bind fun key _ => costs_liftM_bind fun sig _ => ?_
    exact (Check.single_costs sig key).bind (n := 0) (fun r hr => costs_pure hr) (by simp [hl])

/-- As many questions as there may be keys; a tapscript has no such check. -/
theorem evalCheckMultiSig_costs (verify : Bool) {n : Nat}
    (hn : ∀ m s', takeMultiSig rules s = .ok (m, s') → m.keys.length ≤ n) :
    (evalCheckMultiSig rules script verify s).Costs Query.isEcdsa
      (if s.context.version = .tapscript then 0 else n) (SameVersion s) := by
  unfold evalCheckMultiSig
  by_cases hv : s.context.version = .tapscript
  · rw [if_pos (by simp [hv])]
    exact costs_fail
  · rw [if_neg (by simp [hv]), if_neg hv]
    refine costs_liftM_bind fun ⟨m, s'⟩ hm => ?_
    obtain ⟨count, rfl⟩ := (takeMultiSig_eq_ok hm).1
    refine costs_liftM_bind fun code _ => ?_
    refine (Check.matching_costs _ code m.keys m.sigs).bind (n := 0) (fun good _ => ?_) (hn m _ hm)
    split
    · exact costs_fail
    · split
      · exact costs_fail
      · refine costs_liftM fun t ht => ?_
        obtain ⟨stack, rfl⟩ := conclude_eq_ok ht
        rfl

theorem upgradableNop_costs :
    (liftM (upgradableNop rules s) : Dialogue MachineError State).Costs Query.isEcdsa 0 (SameVersion s) := by
  refine costs_liftM fun s' h => ?_
  rw [upgradableNop_eq_ok h]
  rfl

theorem evalLockTime_costs : (evalLockTime rules s).Costs Query.isEcdsa 0 (SameVersion s) := by
  unfold evalLockTime
  split
  · refine costs_liftM_bind fun n _ => ?_
    refine (costs_query_of_not (n := 0) rfl).bind (n := 0) (fun reached _ => ?_) (by omega)
    split
    · exact costs_pure rfl
    · exact costs_fail
  · exact upgradableNop_costs

theorem evalSequence_costs : (evalSequence rules s).Costs Query.isEcdsa 0 (SameVersion s) := by
  unfold evalSequence
  split
  · refine costs_liftM_bind fun n _ => ?_
    split
    · exact costs_pure rfl
    · refine (costs_query_of_not (n := 0) rfl).bind (n := 0) (fun passed _ => ?_) (by omega)
      split
      · exact costs_pure rfl
      · exact costs_fail
  · exact upgradableNop_costs

theorem onStack_costs (f : Stack → Except MachineError Stack) :
    (liftM (s.onStack f) : Dialogue MachineError State).Costs Query.isEcdsa 0 (SameVersion s) := by
  refine costs_liftM fun s' h => ?_
  obtain ⟨stack, -, rfl⟩ := State.onStack_eq_ok h
  rfl

end Operations

/-! ## Items -/

/-- What signature operations stand for: a tapscript asks no ECDSA question at all. -/
def SigVersion.ecdsaBound (version : SigVersion) (n : Nat) : Nat := if version = .tapscript then 0 else n

theorem SigVersion.ecdsaBound_add (version : SigVersion) (m n : Nat) :
    version.ecdsaBound m + version.ecdsaBound n = version.ecdsaBound (m + n) := by
  unfold ecdsaBound
  split <;> rfl

theorem SigVersion.ecdsaBound_le (version : SigVersion) (n : Nat) : version.ecdsaBound n ≤ n := by
  unfold ecdsaBound
  split <;> omega

section Items

variable {rules : Rules} {script : Bytes} {s : State} {previous : Option Item}

theorem keys_le_sigOps (hl : Linked previous s) (he : s.executing = true) {m : MultiSig} {s' : State}
    (h : takeMultiSig rules s = .ok (m, s')) :
    m.keys.length ≤ (Item.good (.operation .checkMultiSig)).sigOps previous := by
  obtain ⟨-, hmax, hsmall⟩ := takeMultiSig_eq_ok h
  simp only [Item.sigOps]
  split
  · rename_i k
    exact hsmall k (hl k rfl he)
  · exact hmax

theorem Operation.eval_costs (op : Operation) (hl : Linked previous s) (he : s.executing = true) :
    (op.eval rules script s).Costs Query.isEcdsa
      (s.context.version.ecdsaBound ((Item.good (.operation op)).sigOps previous)) (SameVersion s) := by
  have hsig : (if s.context.version.limited = true then 1 else 0) ≤ s.context.version.ecdsaBound 1 := by
    cases s.context.version <;> decide
  cases op with
  | nop => exact costs_pure rfl
  | abort => exact costs_fail
  | stack op =>
    refine costs_liftM_bind fun r _ => ?_
    exact costs_pure rfl
  | verify | equal | equalVerify | unary _ | binary _ | numEqualVerify | within | hash _ =>
    exact (onStack_costs _).of_eq_zero
  | codeSeparator => exact costs_pure rfl
  | checkSig => exact (evalCheckSig_costs false).mono hsig fun _ h => h
  | checkSigVerify => exact (evalCheckSig_costs true).mono hsig fun _ h => h
  | checkMultiSig => exact evalCheckMultiSig_costs false fun _ _ h => keys_le_sigOps hl he h
  | checkMultiSigVerify => exact evalCheckMultiSig_costs true fun _ _ h => keys_le_sigOps hl he h
  | checkSigAdd => exact evalCheckSigAdd_costs.of_eq_zero
  | checkLockTime => exact evalLockTime_costs.of_eq_zero
  | checkSequence => exact evalSequence_costs.of_eq_zero
  | upgradable _ => exact upgradableNop_costs.of_eq_zero

theorem Linked.of_countOps {n : Nat} {s' : State} (hl : Linked previous s) (h : s.countOps n = .ok s') :
    Linked previous s' ∧ SameVersion s s' := by
  rcases State.countOps_eq_ok h with rfl | ⟨-, rfl⟩
  · exact ⟨hl, rfl⟩
  · exact ⟨hl, rfl⟩

theorem linked_of_ne {item : Item} (h : ∀ k, item ≠ .good (.push (.small k))) : Linked (some item) s := by
  intro k hk
  cases hk
  exact absurd rfl (h k)

/-- Before the number of items is checked. -/
theorem Opcode.act_costs (op : Opcode) (hl : Linked previous s) :
    (op.act rules script s).Costs Query.isEcdsa
      (s.context.version.ecdsaBound ((Item.good op).sigOps previous))
      fun s' => SameVersion s s' ∧ Linked (some (.good op)) s' := by
  cases op with
  | push p =>
    simp only [Opcode.act]
    split
    · refine costs_liftM fun s' h => ?_
      obtain ⟨-, rfl⟩ := Push.eval_eq_ok.mp h
      refine ⟨rfl, fun k hk _ => ?_⟩
      cases hk
      rfl
    · rename_i he
      exact costs_pure ⟨rfl, fun _ _ hexec => absurd hexec he⟩
  | control c =>
    refine costs_liftM_bind fun s₁ h₁ => costs_liftM fun s' h => ?_
    obtain ⟨stack, branches, rfl⟩ := Control.eval_eq_ok h
    exact ⟨(hl.of_countOps h₁).2, linked_of_ne fun k hk => by cases hk⟩
  | operation op =>
    refine costs_liftM_bind fun s₁ h₁ => ?_
    obtain ⟨hl₁, hv⟩ := hl.of_countOps h₁
    have hn : ∀ s' : State, Linked (some (.good (.operation op))) s' :=
      fun s' => linked_of_ne fun k hk => by cases hk
    split
    · exact costs_fail
    · split
      · rename_i he
        rw [← hv]
        exact (op.eval_costs hl₁ he).mono (Nat.le_refl _) fun s' h => ⟨h.trans hv, hn s'⟩
      · exact costs_pure ⟨hv, hn s₁⟩

/-- What one item asks is counted for it, and what it leaves on top is known to the next. -/
theorem Item.eval_costs (item : Item) (hl : Linked previous s) :
    (item.eval rules script s).Costs Query.isEcdsa (s.context.version.ecdsaBound (item.sigOps previous))
      fun s' => SameVersion s s' ∧ Linked (some item) s' := by
  cases item with
  | good op =>
    refine (op.act_costs hl).bind (n := 0) (fun s₁ h₁ => costs_liftM fun s' h => ?_) (by omega)
    rw [(State.checkDepth_eq_ok.mp h).2]
    exact h₁
  | bad b =>
    refine costs_liftM fun s' h => ?_
    obtain ⟨-, count, rfl⟩ := Bad.eval_eq_ok h
    exact ⟨rfl, linked_of_ne fun k hk => by cases hk⟩

end Items

/-! ## Scripts -/

section Scripts

variable {rules : Rules} {script : Bytes}

/-- Counting may look at the previous item or not. -/
theorem Linked.ite {previous : Option Item} {s : State} (h : Linked previous s) (accurate : Bool) :
    Linked (if accurate = true then previous else none) s := by
  cases accurate with
  | true => exact h
  | false => intro k hk; cases hk

/-- A run asks no more than is counted, wherever it ends. -/
theorem execute_costs (accurate : Bool) (xs : List (Except ParseError Item)) {previous : Option Item}
    {index : Nat} {s : State} (hl : Linked previous s) :
    (execute rules script index s (xs.map (·.mapError ScriptError.parse))).Costs Query.isEcdsa
      (s.context.version.ecdsaBound (Script.countSigOps accurate previous xs)) fun _ => True := by
  induction xs generalizing previous index s with
  | nil => exact costs_pure trivial
  | cons x xs ih =>
    cases x with
    | error e => exact costs_fail
    | ok item =>
      have hr : Linked (if accurate = true then previous else none) (s.reach index item.size) := hl.ite accurate
      have hstep := (@Item.eval_costs rules script _ _ item hr).mapError (g := ScriptError.machine (some item))
      refine hstep.bind (fun s' hs' => ?_) (Nat.le_of_eq (SigVersion.ecdsaBound_add _ _ _))
      have hrest := @ih (some item) (index + 1) s' hs'.2
      rw [hs'.1] at hrest
      exact hrest

theorem Item.sigOps_le (previous : Option Item) (item : Item) : item.sigOps previous ≤ Item.maxKeys := by
  unfold Item.sigOps
  split
  · decide
  · decide
  · split
    · rename_i k
      exact Nat.le_trans k.isLt (by decide)
    · exact Nat.le_refl _
  · split
    · rename_i k
      exact Nat.le_trans k.isLt (by decide)
    · exact Nat.le_refl _
  · exact Nat.zero_le _

theorem Script.countSigOps_le (accurate : Bool) (previous : Option Item) (xs : List (Except ParseError Item)) :
    Script.countSigOps accurate previous xs ≤ Item.maxKeys * xs.length := by
  fun_induction Script.countSigOps accurate previous xs with
  | case1 previous => exact Nat.zero_le _
  | case2 previous item rest ih =>
    have hi := Item.sigOps_le (if accurate = true then previous else none) item
    rw [List.length_cons, Nat.mul_succ]
    omega
  | case3 => exact Nat.zero_le _
  | case4 previous e rest _ ih =>
    rw [List.length_cons, Nat.mul_succ]
    omega

theorem Script.items_length_le (s : Bytes) : (Script.items s).length ≤ s.length := by
  unfold Script.items
  rw [List.length_map]
  fun_induction Script.pieces s with
  | case1 => exact Nat.le_refl _
  | case2 b s next ih =>
    have hrest : next.2.length ≤ s.length := readItem_rest_length b s
    rw [List.length_cons, List.length_cons]
    omega

/-- More is never asked by a script that may be run. -/
def Script.askLimit : Nat := Item.maxKeys * Script.maxSize

/-- A script asks no more than is counted for it. Counts may be taken up to any number above
    the limit, since a script that is too large is not run. -/
theorem Script.eval_costs (accurate : Bool) (s : Bytes) (stack : Stack) {context : Context}
    (hv : context.version.limited = true) :
    (Script.eval rules s stack context).Costs Query.isEcdsa
      (min (Script.sigOps accurate s) Script.askLimit) fun _ => True := by
  refine costs_liftM_bind fun _ hsize => ?_
  have hs : s.length ≤ Script.maxSize := by
    unfold checkScriptSize at hsize
    rw [hv, Bool.true_and] at hsize
    split at hsize
    · cases hsize
    · rename_i hn
      simpa using hn
  have hcount := Script.countSigOps_le accurate none (Script.items s)
  have hlen := Script.items_length_le s
  have hlimit : Script.countSigOps accurate none (Script.items s) ≤ Script.askLimit :=
    Nat.le_trans hcount (Nat.mul_le_mul_left _ (Nat.le_trans hlen hs))
  have hrun := @execute_costs rules s accurate (Script.items s) none 0 (State.start stack context)
    (fun k hk => by cases hk)
  refine (hrun.bind (n := 0) (fun t _ => costs_liftM fun _ _ => trivial) ?_)
  have hb := SigVersion.ecdsaBound_le (State.start stack context).context.version
    (Script.countSigOps accurate none (Script.items s))
  unfold Script.sigOps Script.saturate
  unfold Script.askLimit Item.maxKeys Script.maxSize at *
  omega

theorem Script.eval_costs_tapscript (s : Bytes) (stack : Stack) {context : Context}
    (hv : context.version = .tapscript) :
    (Script.eval rules s stack context).Costs Query.isEcdsa 0 fun _ => True := by
  refine costs_liftM_bind fun _ _ => ?_
  have hrun := @execute_costs rules s true (Script.items s) none 0 (State.start stack context)
    (fun k hk => by cases hk)
  have hzero : (State.start stack context).context.version.ecdsaBound
      (Script.countSigOps true none (Script.items s)) = 0 := if_pos hv
  rw [hzero] at hrun
  exact hrun.bind (n := 0) (fun t _ => costs_liftM fun _ _ => trivial) (by omega)

end Scripts

/-! ## Witnesses -/

namespace Witness

variable {rules : Rules} {witness : List Bytes}

theorem runScript_costs {items : List Bytes} {script : Bytes} {context : Context} {n : Nat}
    (h : ∀ stack, (Script.eval rules script stack context).Costs Query.isEcdsa n fun _ => True) :
    (runScript rules items script context).Costs Query.isEcdsa n fun _ => True := by
  refine costs_liftM_bind fun _ _ => ?_
  refine (h items.reverse).bind (n := 0) (fun stack _ => ?_) (by omega)
  split
  · exact costs_pure trivial
  · exact costs_fail

theorem execute_costs_witnessV0 {items : List Bytes} (script : Bytes) :
    (execute rules items script (Context.fresh .witnessV0)).Costs Query.isEcdsa
      (min (Script.sigOps true script) Script.askLimit) fun _ => True :=
  runScript_costs fun stack => Script.eval_costs true script stack rfl

theorem execute_costs_tapscript {items : List Bytes} {script : Bytes} {context : Context}
    (hv : context.version = .tapscript) :
    (execute rules items script context).Costs Query.isEcdsa 0 fun _ => True := by
  have hrun : (runScript rules items script context).Costs Query.isEcdsa 0 fun _ => True :=
    runScript_costs fun stack => Script.eval_costs_tapscript script stack hv
  unfold execute
  split
  · refine costs_liftM_bind fun found _ => ?_
    split
    · split
      · exact costs_fail
      · exact costs_pure trivial
    · exact hrun
  · exact hrun

theorem keyPath_costs {program : Block 32} {sig : Bytes} {context : Context} :
    (keyPath program sig context).Costs Query.isEcdsa 0 fun _ => True := by
  refine costs_report.bind (m := 0) (n := 0) (fun _ _ => ?_) (by omega)
  refine costs_liftM_bind fun sig _ => ?_
  refine (costs_query_of_not (n := 0) rfl).bind (n := 0) (fun good _ => ?_) (by omega)
  exact costs_liftM_bind fun _ _ => costs_pure trivial

theorem scriptPath_costs {program : Block 32} {items : List Bytes} {script control : Bytes} {context : Context} :
    (scriptPath rules witness program items script control context).Costs Query.isEcdsa 0 fun _ => True := by
  refine costs_liftM_bind fun block _ => ?_
  dsimp only
  split
  · exact costs_fail
  · split
    · refine costs_report.bind (m := 0) (n := 0) (fun _ _ => ?_) (by omega)
      exact execute_costs_tapscript rfl
    · split
      · exact costs_fail
      · exact costs_pure trivial

theorem verifyTaproot_costs {program : Block 32} :
    (verifyTaproot rules witness program).Costs Query.isEcdsa 0 fun _ => True := by
  unfold verifyTaproot
  dsimp only
  split
  · exact costs_fail
  · split
    · exact costs_fail
    · exact keyPath_costs
    · exact scriptPath_costs

theorem verifyUnknown_costs : (verifyUnknown rules).Costs Query.isEcdsa 0 fun _ => True := by
  unfold verifyUnknown
  split
  · exact costs_fail
  · exact costs_pure trivial

theorem verifyVersion1_costs {program : Bytes} :
    (verifyVersion1 rules witness program).Costs Query.isEcdsa 0 fun _ => True := by
  unfold verifyVersion1
  split
  · split
    · exact verifyTaproot_costs
    · exact costs_pure trivial
  · split
    · exact costs_pure trivial
    · exact verifyUnknown_costs

/-- The script of a key hash holds one signature check. -/
theorem sigOps_payToPubKeyHashOf (hash : Block 20) :
    Script.sigOps true (Script.encode (Pattern.payToPubKeyHashOf hash)) = 1 := by
  unfold Script.sigOps
  rw [Script.items_encode]
  rfl

theorem verifyVersion0_costs {program : Bytes} :
    (verifyVersion0 rules witness program).Costs Query.isEcdsa
      (min (programSigOps witness (0, program)) Script.askLimit) fun _ => True := by
  unfold verifyVersion0
  split
  · rename_i hlen
    unfold verifyScriptHash
    split
    · exact costs_fail
    · rename_i script hscript
      have hops : programSigOps witness (0, program) = Script.sigOps true script := by
        simp [programSigOps, hlen, hscript]
      split
      · exact costs_fail
      · rw [hops]
        exact execute_costs_witnessV0 script
  · split
    · rename_i hash hhash
      have hlen : program.length = 20 := Block.length_of_ofBytes? hhash
      have hops : programSigOps witness (0, program) = 1 := by simp [programSigOps, hlen]
      unfold verifyKeyHash
      split
      · exact costs_fail
      · rw [hops, ← sigOps_payToPubKeyHashOf hash]
        exact execute_costs_witnessV0 _
    · exact costs_fail

/-- A program asks no more than is counted for it, nested or not. -/
theorem verifyProgram_costs {version : Nat} {program : Bytes} {nested : Bool} :
    (verifyProgram rules witness version program nested).Costs Query.isEcdsa
      (min (programSigOps witness (version, program)) Script.askLimit) fun _ => True := by
  refine costs_report.bind (m := 0) (fun _ _ => ?_) (Nat.le_of_eq (Nat.zero_add _))
  split
  · rename_i hv
    rw [hv]
    exact verifyVersion0_costs
  · split
    · exact verifyVersion1_costs.of_eq_zero
    · exact verifyUnknown_costs.of_eq_zero

end Witness

/-! ## The redeem script -/

section Redeem

variable {rules : Rules} {script : Bytes}

theorem eval_push_costs {s : State} (hb : s.branches = []) (p : Push) :
    (Item.eval rules script s (.good (.push p))).Costs Query.isEcdsa 0 fun s' =>
      s'.stack = p.value :: s.stack ∧ s'.branches = [] := by
  rw [Item.eval_push (State.executing_of_closed hb)]
  refine costs_liftM fun s' h => ?_
  obtain ⟨s₁, h₁, h⟩ := bind_eq_ok.mp h
  obtain ⟨-, rfl⟩ := Push.eval_eq_ok.mp h₁
  rw [(State.checkDepth_eq_ok.mp h).2]
  exact ⟨rfl, hb⟩

/-- The reserved opcode is no push once it is reached. -/
theorem eval_reserved_costs {s : State} (hb : s.branches = []) :
    (Item.eval rules script s (.bad .reserved)).Costs Query.isEcdsa 0 fun _ => False := by
  refine costs_liftM fun s' h => ?_
  have hn := (Bad.eval_eq_ok h).1
  rw [State.executing_of_closed hb] at hn
  cases hn

/-- What counts as pushes and is run to its end are pushes, which leave their values with the
    last one on top. -/
theorem execute_pushes_costs {xs : List (Except ParseError Item)} {index : Nat} {s : State}
    (hb : s.branches = []) (hp : ∀ x ∈ xs, Script.countsAsPush x = true) :
    (execute rules script index s (xs.map (·.mapError ScriptError.parse))).Costs Query.isEcdsa 0 fun t =>
      ∃ ops : List Push, xs = ops.map (fun p => .ok (.good (.push p))) ∧
        t.stack = (ops.map Push.value).reverse ++ s.stack := by
  induction xs generalizing index s with
  | nil => exact costs_pure ⟨[], rfl, rfl⟩
  | cons x xs ih =>
    rw [List.forall_mem_cons] at hp
    obtain ⟨hx, hp⟩ := hp
    cases x with
    | error e => exact costs_fail
    | ok item =>
      have hr : (s.reach index item.size).branches = [] := hb
      cases item with
      | good op =>
        cases op with
        | push p =>
          refine (eval_push_costs hr p).mapError.bind (n := 0) (fun s' hs' => ?_) (by omega)
          refine (ih hs'.2 hp).mono (Nat.le_refl 0) ?_
          intro t hx
          obtain ⟨ops, rfl, ht⟩ := hx
          refine ⟨p :: ops, rfl, ?_⟩
          rw [ht, hs'.1, List.map_cons, List.reverse_cons, List.append_assoc]
          rfl
        | control c => cases hx
        | operation op => cases hx
      | bad b =>
        cases b with
        | reserved =>
          exact (eval_reserved_costs hr).mapError.bind (n := 0) (fun _ hf => hf.elim) (by omega)
        | _ => cases hx

theorem lastPush?_of_items {sig : Bytes} {ops : List Push}
    (h : Script.items sig = ops.map fun p => .ok (.good (.push p))) :
    lastPush? sig = ops.getLast?.map Push.value := by
  have hm : (Script.items sig).filterMap Except.toOption = ops.map fun p => Item.good (.push p) := by
    rw [h, List.filterMap_map]
    exact congrFun List.filterMap_eq_map' ops
  unfold lastPush?
  rw [hm, List.getLast?_map]
  cases ops.getLast? <;> rfl

/-- The redeem script that is run is the one that can be told without running anything. -/
theorem Script.eval_costs_pushes {sig : Bytes} (hp : Script.isPushOnly sig = true) :
    (Script.eval rules sig [] (Context.fresh .base)).Costs Query.isEcdsa 0 fun data =>
      data.head? = lastPush? sig := by
  refine costs_liftM_bind fun _ _ => ?_
  have hrun := @execute_pushes_costs rules sig (Script.items sig) 0 (State.start [] (Context.fresh .base)) rfl
    (List.all_eq_true.mp hp)
  refine hrun.bind (n := 0) (fun t ht => costs_liftM fun data hd => ?_) (by omega)
  obtain ⟨ops, hops, hst⟩ := ht
  have hdata : data = t.stack := by
    unfold State.finish at hd
    split at hd
    · cases hd; rfl
    · cases hd
  rw [hdata, hst, lastPush?_of_items hops]
  show ((ops.map Push.value).reverse ++ []).head? = _
  rw [List.append_nil, List.head?_reverse, List.getLast?_map]

end Redeem

/-! ## Spends -/

theorem Script.not_payToScriptHash_of_program {s : Bytes} {program : Nat × Bytes}
    (h : Script.witnessProgram? s = some program) : Script.isPayToScriptHash s = false := by
  cases s with
  | nil => cases h
  | cons version rest =>
    cases hp : Script.isPayToScriptHash (version :: rest) with
    | false => rfl
    | true =>
      -- a script hash starts with an opcode that is no version
      have hv : version = (Operation.hash .hash160).byte := by
        simp only [Script.isPayToScriptHash, Bool.and_eq_true] at hp
        simpa using hp.1.1.2
      subst hv
      cases rest with
      | nil => cases h
      | cons size program =>
        simp only [Script.witnessProgram?] at h
        split at h
        · cases h
        · cases h

namespace Spend

variable {rules : Rules} {sig pubKey : Bytes} {witness : List Bytes}

/-- The signature operations of a script that may be a witness program. -/
def programOps (rules : Rules) (witness : List Bytes) (s : Bytes) : Nat :=
  (if rules.has .witness then Script.witnessProgram? s else none).elim 0 (programSigOps witness)

theorem witnessStep_costs {program : Nat × Bytes} {nested : Bool} :
    (witnessStep rules witness program nested).Costs Query.isEcdsa
      (min (programSigOps witness program) Script.askLimit) fun _ => True :=
  Witness.verifyProgram_costs.mapError.bind (n := 0) (fun _ _ => costs_pure trivial) (Nat.le_refl _)

theorem programStep_costs {script : Bytes} {malleated nested : Bool} {fault : ScriptError} {r : Remains} :
    (programStep rules witness script malleated fault nested r).Costs Query.isEcdsa
      (min (programOps rules witness script) Script.askLimit) fun _ => True := by
  unfold programStep programOps
  split
  · exact costs_pure trivial
  · rename_i program hprogram
    rw [hprogram]
    split
    · exact costs_fail
    · exact witnessStep_costs

/-- What a redeem script and the witness behind it may ask. -/
def redeemBound (rules : Rules) (witness : List Bytes) (redeem : Bytes) : Nat :=
  min (Script.sigOps true redeem) Script.askLimit + min (programOps rules witness redeem) Script.askLimit

theorem redeemStep_costs {data : Stack} {r : Remains}
    (hd : Script.isPushOnly sig = true → data.head? = lastPush? sig) :
    (redeemStep rules (.ofScript sig) (.ofScript pubKey) witness data r).Costs Query.isEcdsa
      (if rules.has .p2sh then (redeemScript? sig pubKey).elim 0 (redeemBound rules witness) else 0)
      fun _ => True := by
  unfold redeemStep
  split
  · rename_i hp
    rw [Bool.and_eq_true] at hp
    split
    · exact costs_fail
    · rename_i hs
      have hs : (Program.ofScript sig).isPushOnly = true := by simpa using hs
      cases data with
      | nil => exact costs_fail
      | cons redeem rest =>
        have hredeem : redeemScript? sig pubKey = some redeem := by
          unfold redeemScript?
          rw [if_pos (by rw [Bool.and_eq_true]; exact ⟨hp.2, hs⟩), ← hd hs]
          rfl
        rw [if_pos hp.1, hredeem]
        refine costs_report.bind (m := 0) (fun _ _ => ?_) (Nat.le_of_eq (Nat.zero_add _))
        refine (Script.eval_costs true redeem rest rfl).mapError.bind (fun stack _ => ?_) (Nat.le_refl _)
        split
        · exact programStep_costs
        · exact costs_pure trivial
  · exact costs_pure trivial

/-- The parts of a spend, each with what is counted for it. -/
theorem eval_costs :
    (eval rules (.ofScript sig) (.ofScript pubKey) witness).Costs Query.isEcdsa
      (min (Script.sigOps false sig) Script.askLimit + min (Script.sigOps false pubKey) Script.askLimit
        + min (programOps rules witness pubKey) Script.askLimit
        + if rules.has .p2sh then (redeemScript? sig pubKey).elim 0 (redeemBound rules witness) else 0)
      fun _ => True := by
  have hsig : (Script.eval rules sig [] (Context.fresh .base)).Costs Query.isEcdsa
      (min (Script.sigOps false sig) Script.askLimit) fun data =>
        Script.isPushOnly sig = true → data.head? = lastPush? sig := by
    have hcost := @Script.eval_costs rules false sig [] (Context.fresh .base) rfl
    by_cases hp : Script.isPushOnly sig = true
    · exact (hcost.and_post (Script.eval_costs_pushes hp)).mono (Nat.le_refl _) fun _ h _ => h.2
    · exact hcost.mono (Nat.le_refl _) fun _ _ h => absurd h hp
  unfold eval
  split
  · exact costs_fail
  refine costs_report.bind (m := 0) (fun _ _ => ?_) (Nat.le_of_eq (Nat.zero_add _))
  rw [Nat.add_assoc, Nat.add_assoc]
  refine hsig.mapError.bind (fun data hdata => ?_) (Nat.le_refl _)
  refine costs_report.bind (m := 0) (fun _ _ => ?_) (Nat.le_of_eq (Nat.zero_add _))
  refine (Script.eval_costs false pubKey data rfl).mapError.bind (fun stack _ => ?_) (Nat.le_refl _)
  split
  · refine programStep_costs.bind (fun native _ => ?_) (Nat.le_refl _)
    split
    · exact costs_pure trivial
    · refine (redeemStep_costs hdata).bind (n := 0) (fun redeemed _ => ?_) (Nat.le_refl _)
      split
      · exact costs_pure trivial
      · exact costs_liftM_bind fun _ _ => costs_pure trivial
  · exact costs_pure trivial

/-- A locking script is a program or a script hash and never both, so the witness is counted
    once. -/
theorem witness_le_sigOps :
    min (programOps rules witness pubKey) Script.askLimit
        + (if rules.has .p2sh then (redeemScript? sig pubKey).elim 0 (redeemBound rules witness) else 0) ≤
      min (if rules.has .p2sh then (redeemScript? sig pubKey).elim 0 (Script.sigOps true) else 0) Script.askLimit
        + min (witnessSigOps rules sig pubKey witness) Script.askLimit := by
  unfold witnessSigOps
  cases hw : rules.has .witness with
  | false =>
    have hprogram (s : Bytes) : programOps rules witness s = 0 := by simp [programOps, hw]
    cases rules.has .p2sh <;> cases redeemScript? sig pubKey <;> simp [redeemBound, hprogram]
  | true =>
    have hprogram (s : Bytes) :
        programOps rules witness s = (Script.witnessProgram? s).elim 0 (programSigOps witness) := by
      simp [programOps, hw]
    cases hk : Script.witnessProgram? pubKey with
    | some program =>
      have hnone : redeemScript? sig pubKey = none := by
        simp [redeemScript?, Script.not_payToScriptHash_of_program hk]
      simp [hprogram, hk, hnone]
    | none =>
      cases hr : redeemScript? sig pubKey with
      | none => simp [hprogram, hk]
      | some redeem =>
        cases hn : Script.witnessProgram? redeem <;> cases rules.has .p2sh <;>
          simp [redeemBound, hprogram, hk, hn]

/-- Counts that are cut off are still above what may be asked. -/
theorem parts_le_sigOps :
    min (Script.sigOps false sig) Script.askLimit + min (Script.sigOps false pubKey) Script.askLimit
        + min (programOps rules witness pubKey) Script.askLimit
        + (if rules.has .p2sh then (redeemScript? sig pubKey).elim 0 (redeemBound rules witness) else 0) ≤
      sigOps rules sig pubKey witness := by
  have hrest := @witness_le_sigOps rules sig pubKey witness
  unfold sigOps Script.saturate
  generalize (if rules.has .p2sh then (redeemScript? sig pubKey).elim 0 (redeemBound rules witness) else 0) = a
    at hrest ⊢
  generalize (if rules.has .p2sh then (redeemScript? sig pubKey).elim 0 (Script.sigOps true) else 0) = b
    at hrest ⊢
  unfold Script.askLimit Item.maxKeys Script.maxSize at *
  omega

/-- However a spend goes and whoever answers, no more ECDSA signatures are checked than there
    are signature operations. -/
theorem ecdsa_checks_le_sigOps {σ : Type} (rules : Rules) (sig pubKey : Bytes) (witness : List Bytes)
    (r : Responder σ) (s : σ) :
    asked Query.isEcdsa ((eval rules (.ofScript sig) (.ofScript pubKey) witness).converse r s).exchanges ≤
      sigOps rules sig pubKey witness :=
  Nat.le_trans (eval_costs.asked_le r s) parts_le_sigOps

end Spend

end SpendScript

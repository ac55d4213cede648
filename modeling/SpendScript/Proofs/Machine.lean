/-
  SpendScript.Proofs.Machine — what one step of the machine leaves.

  For each part of a step that asks nothing: when it succeeds, and the state it leaves then,
  told by the fields it changes. Proofs about runs go through these and do not look into the
  definitions again.
  - `State.countOps_eq_ok` / `State.checkDepth_eq_ok`: the limits.
  - `Push.eval_eq_ok` / `Item.eval_push`: pushes, alone and in a script; `Item.eval_operation`: an
    operation that is reached, told by what it does alone.
  - `Control.eval_eq_ok` / `Bad.eval_eq_ok`: the opcodes that are reached in any branch.
  - `takeMultiSig_on` / `takeMultiSig_of_on`: the operands of a multisignature check are taken
    from where they stand (`MultiSig.On`); `takeMultiSig_eq_ok`: how many keys there are.
  An operation may ask, so of it is told what it leaves if it ends at all:
  - `yields_evalCheckSig` / `yields_evalCheckSigAdd` / `yields_evalCheckMultiSig`.
  - `Operation.effect_of_yields`: all that an operation can do beside the stacks
    (`Operation.Effect`), and `Operation.Effect.frame`: what none of them touches.
  - `Item.step_of_yields`: all that an item of a script can do (`Item.Step`), and
    `Item.Step.keeps`: what stays.
-/

import SpendScript.Proofs.Dialogue
import SpendScript.Machine.Eval

namespace SpendScript

variable {rules : Rules} {s s' : State}

/-! ## Limits -/

theorem State.countOps_eq_ok {n : Nat} (h : s.countOps n = .ok s') :
    s' = s ∨ s.opCount + n ≤ State.maxOps ∧ s' = { s with opCount := s.opCount + n } := by
  unfold State.countOps at h
  split at h
  · split at h
    · rename_i hle
      cases h
      exact Or.inr ⟨hle, rfl⟩
    · cases h
  · cases h
    exact Or.inl rfl

theorem State.countOps_limited (hl : s.context.version.limited = true) {n : Nat} :
    s.countOps n = .ok s' ↔ s.opCount + n ≤ State.maxOps ∧ s' = { s with opCount := s.opCount + n } := by
  unfold State.countOps
  rw [if_pos hl]
  constructor
  · intro h
    split at h
    · rename_i hle
      cases h
      exact ⟨hle, rfl⟩
    · cases h
  · intro hx
    obtain ⟨hle, rfl⟩ := hx
    rw [if_pos hle]

theorem State.checkDepth_eq_ok :
    s.checkDepth = .ok s' ↔ s.stack.length + s.alt.length ≤ State.maxDepth ∧ s' = s := by
  unfold State.checkDepth
  constructor
  · intro h
    split at h
    · cases h
    · cases h
      exact ⟨by omega, rfl⟩
  · intro hx
    obtain ⟨hle, rfl⟩ := hx
    rw [if_neg (by omega)]

theorem State.executing_of_closed (hb : s.branches = []) : s.executing = true := by
  unfold State.executing
  rw [hb]
  rfl

/-! ## Pushes -/

/-- The rules let the form of the push pass. -/
def Push.Allowed (rules : Rules) (p : Push) : Prop := rules.has .minimalData = true → p.isMinimal = true

theorem Push.eval_of_allowed {p : Push} (h : p.Allowed rules) (s : State) :
    p.eval rules s = .ok { s with stack := p.value :: s.stack } := by
  unfold Push.eval
  rw [if_neg]
  unfold Push.Allowed at h
  simpa using h

theorem Push.eval_of_not_allowed {p : Push} (h : ¬ p.Allowed rules) (s : State) :
    p.eval rules s = .error .minimalData := by
  unfold Push.eval
  rw [if_pos]
  unfold Push.Allowed at h
  simpa using h

theorem Push.eval_eq_ok {p : Push} :
    p.eval rules s = .ok s' ↔ p.Allowed rules ∧ s' = { s with stack := p.value :: s.stack } := by
  by_cases hp : p.Allowed rules
  · rw [Push.eval_of_allowed hp]
    constructor
    · intro h; cases h; exact ⟨hp, rfl⟩
    · intro hx
      obtain ⟨-, rfl⟩ := hx
      rfl
  · rw [Push.eval_of_not_allowed hp]
    constructor
    · intro h; cases h
    · intro hx
      obtain ⟨h, -⟩ := hx
      exact absurd h hp

/-- A push in a script that is reached checks the depth behind it. -/
theorem Item.eval_push {script : Bytes} (he : s.executing = true) (p : Push) :
    Item.eval rules script s (.good (.push p)) = Dialogue.lift (p.eval rules s >>= State.checkDepth) := by
  have ha : Opcode.act rules script s (.push p) = Dialogue.lift (p.eval rules s) := if_pos he
  show Opcode.act rules script s (.push p) >>= (fun s => Dialogue.lift s.checkDepth) = _
  rw [ha]
  cases p.eval rules s <;> rfl

/-! ## Opcodes that are reached in any branch -/

theorem openBranch_eq_ok {flip : Bool} (h : openBranch rules s flip = .ok s') :
    ∃ stack b, s' = { s with stack := stack, branches := b :: s.branches } := by
  unfold openBranch at h
  split at h
  · split at h
    · cases h
    · obtain ⟨_, -, h⟩ := bind_eq_ok.mp h
      cases h
      exact ⟨_, _, rfl⟩
  · cases h
    exact ⟨_, _, rfl⟩

theorem Control.eval_eq_ok {c : Control} (h : c.eval rules s = .ok s') :
    ∃ stack branches, s' = { s with stack := stack, branches := branches } := by
  cases c with
  | opIf | opNotIf =>
    obtain ⟨stack, b, rfl⟩ := openBranch_eq_ok h
    exact ⟨_, _, rfl⟩
  | opElse | opEndIf =>
    simp only [Control.eval] at h
    split at h
    · cases h
    · cases h
      exact ⟨_, _, rfl⟩

/-- A bad opcode passes only in a branch that is not taken. -/
theorem Bad.eval_eq_ok {b : Bad} (h : b.eval s = .ok s') :
    s.executing = false ∧ ∃ count, s' = { s with opCount := count } := by
  have hpass {s₁ : State} (h : (if (b.isAlwaysReached || s₁.executing) = true then
      Except.error MachineError.badOpcode else .ok s₁) = .ok s') : s₁.executing = false ∧ s' = s₁ := by
    split at h
    · cases h
    · rename_i hn
      cases h
      refine ⟨?_, rfl⟩
      cases he : s'.executing with
      | false => rfl
      | true => rw [he, Bool.or_true] at hn; exact absurd rfl hn
  unfold Bad.eval at h
  split at h
  · obtain ⟨he, rfl⟩ := hpass h
    exact ⟨he, s'.opCount, rfl⟩
  · obtain ⟨s₁, h₁, h⟩ := bind_eq_ok.mp h
    obtain ⟨he, rfl⟩ := hpass h
    rcases State.countOps_eq_ok h₁ with rfl | ⟨-, rfl⟩
    · exact ⟨he, _, rfl⟩
    · exact ⟨he, _, rfl⟩

/-! ## Operations -/

theorem upgradableNop_eq_ok (h : upgradableNop rules s = .ok s') : s' = s := by
  unfold upgradableNop at h
  split at h
  · cases h
  · cases h; rfl

theorem State.onStack_eq_ok {f : Stack → Except MachineError Stack} (h : s.onStack f = .ok s') :
    ∃ stack, f s.stack = .ok stack ∧ s' = { s with stack := stack } := by
  obtain ⟨stack, hf, h⟩ := bind_eq_ok.mp h
  cases h
  exact ⟨stack, hf, rfl⟩

theorem conclude_eq_ok {verify result : Bool} (h : conclude verify result s = .ok s') :
    ∃ stack, s' = { s with stack := stack } := by
  unfold conclude at h
  split at h
  · obtain ⟨_, -, h⟩ := bind_eq_ok.mp h
    cases h
    exact ⟨_, rfl⟩
  · cases h
    exact ⟨_, rfl⟩

/-! ## Access to the stack -/

theorem Stack.get_eq_ok {stack : Stack} {i : Nat} {x : Bytes} :
    stack.get i = .ok x ↔ stack[i]? = some x := by
  unfold Stack.get
  cases stack[i]? <;> simp

theorem Stack.pop_eq_ok {stack rest : Stack} {x : Bytes} :
    stack.pop = .ok (x, rest) ↔ stack = x :: rest := by
  cases stack <;> simp [Stack.pop]

/-- An operand is the number that it spells, in no more than the bytes allowed. -/
theorem Stack.number_eq_ok {minimal : Bool} {maxSize : Nat} {x : Bytes} {n : Int}
    (h : Stack.number minimal maxSize x = .ok n) : n = Number.value x ∧ x.length ≤ maxSize := by
  unfold Stack.number Number.parse at h
  split at h
  · cases h
  · split at h
    · cases h
    · split at h
      · cases h
      · cases h
        exact ⟨rfl, by omega⟩

theorem Stack.popNumber_eq_ok {minimal : Bool} {stack rest : Stack} {n : Int}
    (h : stack.popNumber minimal = .ok (n, rest)) :
    ∃ x, stack = x :: rest ∧ Stack.number minimal Number.operandSize x = .ok n := by
  obtain ⟨⟨x, rest'⟩, hpop, h⟩ := bind_eq_ok.mp h
  obtain ⟨n', hn, h⟩ := bind_eq_ok.mp h
  cases h
  exact ⟨x, Stack.pop_eq_ok.mp hpop, hn⟩

theorem Stack.need_eq_ok {stack : Stack} {n : Nat} (h : stack.need n = .ok ()) : n ≤ stack.length := by
  unfold Stack.need at h
  split at h
  · assumption
  · cases h

theorem Stack.drop_eq_cons {stack : Stack} {i : Nat} {x : Bytes} (h : stack[i]? = some x) :
    stack.drop i = x :: stack.drop (i + 1) := by
  obtain ⟨hi, rfl⟩ := List.getElem?_eq_some_iff.mp h
  exact List.drop_eq_getElem_cons hi

/-! ## Operands of a multisignature check -/

theorem readCount_eq_ok {wrong : Bool → MachineError} {limit c : Nat} {n : Int}
    (h : readCount wrong limit n = .ok c) : n = c ∧ c ≤ limit := by
  unfold readCount at h
  split at h
  · cases h
  · split at h
    · cases h
    · cases h
      omega

theorem readCount_of_le {wrong : Bool → MachineError} {limit c : Nat} (h : c ≤ limit) (hlimit : limit ≤ 255) :
    readCount wrong limit (c : Int) = .ok c := by
  unfold readCount
  rw [if_neg (by omega), Int.toNat_natCast, if_neg (by omega)]

/-- The operands where a check looks for them, from the top: the number of keys, the keys, the
    number of signatures, the signatures, and the item without a meaning. -/
def MultiSig.On (minimal : Bool) (stack : Stack) (m : MultiSig) : Prop :=
  ∃ top count, stack = top :: (m.keys ++ count :: (m.sigs ++ m.dummy :: m.rest)) ∧
    Stack.number minimal Number.operandSize top = .ok (m.keys.length : Int) ∧
    Stack.number minimal Number.operandSize count = .ok (m.sigs.length : Int) ∧
    m.sigs.length ≤ m.keys.length ∧ m.keys.length ≤ Item.maxKeys

/-- The operands are told by the stack. -/
theorem MultiSig.On.unique {minimal : Bool} {stack : Stack} {m m' : MultiSig} (h : m.On minimal stack)
    (h' : m'.On minimal stack) : m' = m := by
  obtain ⟨top, count, hstack, htop, hcount, -, -⟩ := h
  obtain ⟨top', count', hstack', htop', hcount', -, -⟩ := h'
  -- the same number stands on top, so the keys end at the same place, and then the signatures do
  obtain ⟨rfl, hbelow⟩ := List.cons.inj (hstack'.symm.trans hstack)
  have hkeyCount : m'.keys.length = m.keys.length := Int.ofNat.inj (Except.ok.inj (htop'.symm.trans htop))
  obtain ⟨hkeys, hbehind⟩ := List.append_inj hbelow hkeyCount
  obtain ⟨rfl, hlast⟩ := List.cons.inj hbehind
  have hsigCount : m'.sigs.length = m.sigs.length := Int.ofNat.inj (Except.ok.inj (hcount'.symm.trans hcount))
  obtain ⟨hsigs, hend⟩ := List.append_inj hlast hsigCount
  obtain ⟨hdummy, hrest⟩ := List.cons.inj hend
  cases m
  cases m'
  exact MultiSig.mk.injEq .. ▸ ⟨hkeys, hsigs, hdummy, hrest⟩

theorem takeMultiSig_on {m : MultiSig} (h : takeMultiSig rules s = .ok (m, s')) :
    m.On (rules.has .minimalData) s.stack ∧ s.countOps m.keys.length = .ok s' := by
  obtain ⟨⟨n, stack⟩, hn, h⟩ := bind_eq_ok.mp h
  obtain ⟨keyCount, hkeys, h⟩ := bind_eq_ok.mp h
  obtain ⟨s₁, hs, h⟩ := bind_eq_ok.mp h
  obtain ⟨count, hcount, h⟩ := bind_eq_ok.mp h
  obtain ⟨n', hn', h⟩ := bind_eq_ok.mp h
  obtain ⟨sigCount, hsigs, h⟩ := bind_eq_ok.mp h
  obtain ⟨_, hneed, h⟩ := bind_eq_ok.mp h
  obtain ⟨dummy, hdummy, h⟩ := bind_eq_ok.mp h
  cases h
  obtain ⟨top, hstack, htop⟩ := Stack.popNumber_eq_ok hn
  obtain ⟨rfl, hmax⟩ := readCount_eq_ok hkeys
  obtain ⟨rfl, hle⟩ := readCount_eq_ok hsigs
  have hlength := Stack.need_eq_ok hneed
  have hk : (stack.take keyCount).length = keyCount := List.length_take_of_le (by omega)
  have hm : ((stack.drop (keyCount + 1)).take sigCount).length = sigCount :=
    List.length_take_of_le (by rw [List.length_drop]; omega)
  have hbehind : stack.drop (keyCount + 1) =
      (stack.drop (keyCount + 1)).take sigCount ++ dummy :: stack.drop (keyCount + 1 + sigCount + 1) :=
    calc stack.drop (keyCount + 1)
      _ = (stack.drop (keyCount + 1)).take sigCount ++ (stack.drop (keyCount + 1)).drop sigCount :=
        (List.take_append_drop _ _).symm
      _ = _ := by rw [List.drop_drop, Stack.drop_eq_cons (Stack.get_eq_ok.mp hdummy)]
  have hbelow : stack = stack.take keyCount ++ count ::
      ((stack.drop (keyCount + 1)).take sigCount ++ dummy :: stack.drop (keyCount + 1 + sigCount + 1)) :=
    calc stack
      _ = stack.take keyCount ++ stack.drop keyCount := (List.take_append_drop _ _).symm
      _ = stack.take keyCount ++ count :: stack.drop (keyCount + 1) := by
        rw [Stack.drop_eq_cons (Stack.get_eq_ok.mp hcount)]
      _ = _ := congrArg (stack.take keyCount ++ count :: ·) hbehind
  refine ⟨⟨top, count, hstack.trans (congrArg _ hbelow), ?_, ?_, ?_, ?_⟩, ?_⟩
  · rw [hk]
    exact htop
  · rw [hm]
    exact hn'
  · rw [hk, hm]
    exact hle
  · rw [hk]
    exact hmax
  · rw [hk]
    exact hs

/-- What stands where it is looked for is taken, if its keys can be counted. -/
theorem takeMultiSig_of_on {m : MultiSig} (h : m.On (rules.has .minimalData) s.stack)
    (hops : s.countOps m.keys.length = .ok s') : takeMultiSig rules s = .ok (m, s') := by
  obtain ⟨top, count, hstack, htop, hcount, hle, hmax⟩ := h
  have hbyte : Item.maxKeys ≤ 255 := by decide
  -- what lies below the number of keys, told from each position that is looked at
  let below := m.keys ++ count :: (m.sigs ++ m.dummy :: m.rest)
  have hget : below[m.keys.length]? = some count := by simp [below]
  have hbehind : below.drop (m.keys.length + 1) = m.sigs ++ m.dummy :: m.rest := by
    show (m.keys ++ count :: (m.sigs ++ m.dummy :: m.rest)).drop _ = _
    rw [List.append_cons m.keys count, List.drop_left' (by simp)]
  have hlast : below.drop (m.keys.length + 1 + m.sigs.length) = m.dummy :: m.rest := by
    rw [← List.drop_drop, hbehind, List.drop_left]
  have hdummy : below[m.keys.length + 1 + m.sigs.length]? = some m.dummy := by
    rw [← List.head?_drop, hlast]
    rfl
  have hrest : below.drop (m.keys.length + 1 + m.sigs.length + 1) = m.rest := by
    rw [← List.tail_drop, hlast]
    rfl
  have hneed : m.keys.length + 1 + m.sigs.length + 1 ≤ below.length := by
    simp only [below, List.length_append, List.length_cons]
    omega
  have hpop : s.stack.popNumber (rules.has .minimalData) = .ok ((m.keys.length : Int), below) := by
    rw [hstack]
    exact bind_eq_ok.mpr ⟨_, rfl, bind_eq_ok.mpr ⟨_, htop, rfl⟩⟩
  refine bind_eq_ok.mpr ⟨_, hpop, bind_eq_ok.mpr ⟨_, readCount_of_le hmax hbyte, bind_eq_ok.mpr ⟨s', hops, ?_⟩⟩⟩
  refine bind_eq_ok.mpr ⟨count, Stack.get_eq_ok.mpr hget, bind_eq_ok.mpr ⟨_, hcount, ?_⟩⟩
  refine bind_eq_ok.mpr ⟨_, readCount_of_le hle (Nat.le_trans hmax hbyte), ?_⟩
  refine bind_eq_ok.mpr ⟨(), if_pos hneed, bind_eq_ok.mpr ⟨m.dummy, Stack.get_eq_ok.mpr hdummy, ?_⟩⟩
  rw [List.take_left, hbehind, List.take_left, hrest]
  rfl

/-- The items between the number of keys and the rest of the stack. -/
theorem takeMultiSig_stack {m : MultiSig} (h : takeMultiSig rules s = .ok (m, s')) :
    ∃ top count, s.stack = top :: (m.keys ++ count :: (m.sigs ++ m.dummy :: m.rest)) ∧
      Number.value top = m.keys.length ∧ Number.value count = m.sigs.length ∧
      m.sigs.length ≤ m.keys.length ∧ m.keys.length ≤ Item.maxKeys ∧ s.countOps m.keys.length = .ok s' := by
  obtain ⟨⟨top, count, hstack, htop, hcount, hle, hmax⟩, hops⟩ := takeMultiSig_on h
  exact ⟨top, count, hstack, (Stack.number_eq_ok htop).1.symm, (Stack.number_eq_ok hcount).1.symm, hle, hmax, hops⟩

/-- There are at most twenty keys, and as many as a small number on top says. -/
theorem takeMultiSig_eq_ok {m : MultiSig} (h : takeMultiSig rules s = .ok (m, s')) :
    (∃ count, s' = { s with opCount := count }) ∧ m.keys.length ≤ Item.maxKeys ∧
      ∀ k : Fin 16, s.stack.head? = some (Push.small k).value → m.keys.length ≤ k.val + 1 := by
  obtain ⟨top, _, hstack, htop, -, -, hmax, hops⟩ := takeMultiSig_stack h
  refine ⟨?_, hmax, fun k hk => ?_⟩
  · rcases State.countOps_eq_ok hops with rfl | ⟨-, rfl⟩
    · exact ⟨_, rfl⟩
    · exact ⟨_, rfl⟩
  · -- the count was read from the item on top
    have hsmall : ∀ k : Fin 16, Number.value (Push.small k).value = (k.val + 1 : Int) := by decide
    rw [hstack] at hk
    cases hk
    rw [hsmall] at htop
    omega

/-- The number on top is the number of keys, and the keys are counted as operations. -/
theorem takeMultiSig_counts {m : MultiSig} (h : takeMultiSig rules s = .ok (m, s')) :
    ∃ top rest, s.stack = top :: rest ∧ (∃ k, m.rest = rest.drop k) ∧
      s.countOps (Number.value top).toNat = .ok s' := by
  obtain ⟨top, count, hstack, htop, -, -, -, hops⟩ := takeMultiSig_stack h
  refine ⟨top, _, hstack, ⟨(m.keys ++ count :: (m.sigs ++ [m.dummy])).length, ?_⟩, ?_⟩
  · rw [show m.keys ++ count :: (m.sigs ++ m.dummy :: m.rest) = (m.keys ++ count :: (m.sigs ++ [m.dummy])) ++ m.rest by
      simp, List.drop_left]
  · rw [htop]
    exact hops

/-! ## Operations that ask -/

section Checks

variable {script : Bytes}

open Dialogue

theorem conclude_cases {verify result : Bool} (h : conclude verify result s = .ok s') :
    s' = s ∨ s' = { s with stack := Number.ofBool result :: s.stack } := by
  unfold conclude at h
  split at h
  · obtain ⟨_, -, h⟩ := bind_eq_ok.mp h
    cases h
    exact Or.inl rfl
  · cases h
    exact Or.inr rfl

theorem Check.spendWeight_eq_ok {context context' : Context} {item : Bytes}
    (h : Check.spendWeight context item = .ok context') : ∃ w, context' = { context with weightLeft := w } := by
  unfold Check.spendWeight at h
  split at h
  · split at h
    · cases h
      exact ⟨_, rfl⟩
    · split at h
      · cases h
      · cases h
        exact ⟨_, rfl⟩
  · cases h
    exact ⟨_, rfl⟩

theorem Check.yields_tapscriptOp {context context' : Context} {item key : Bytes} {good : Bool}
    (h : (Check.tapscriptOp rules context item key).Yields (good, context')) :
    Check.spendWeight context item = .ok context' := by
  obtain ⟨spent, hw, h⟩ := yields_liftM_bind.mp h
  split at h
  · exact absurd h not_yields_fail
  split at h
  · split at h
    · cases yields_pure.mp h
      exact hw
    · obtain ⟨_, -, h⟩ := yields_bind.mp h
      obtain ⟨_, -, h⟩ := yields_bind.mp h
      obtain ⟨_, -, h⟩ := yields_bind.mp h
      cases yields_pure.mp h
      exact hw
  · split at h
    · exact absurd h not_yields_fail
    · cases yields_pure.mp h
      exact hw

/-- A check changes nothing of the context but the budget, and that only in a tapscript. -/
theorem Check.yields_single {context context' : Context} {item key : Bytes} {good : Bool}
    (h : (Check.single rules script context item key).Yields (good, context')) :
    context' = context ∨ Check.spendWeight context item = .ok context' := by
  unfold Check.single at h
  split at h
  · obtain ⟨_, -, h⟩ := yields_bind.mp h
    cases yields_pure.mp h
    exact Or.inl rfl
  · obtain ⟨_, -, h⟩ := yields_bind.mp h
    cases yields_pure.mp h
    exact Or.inl rfl
  · exact Or.inr (Check.yields_tapscriptOp h)
  · exact absurd h not_yields_fail

/-- Outside of taproot a signature check is an ECDSA check, and leaves the context alone. -/
theorem Check.single_of_ecdsa {context : Context} {item key : Bytes}
    (hv : context.version = .base ∨ context.version = .witnessV0) :
    Check.single rules script context item key =
      Check.ecdsaOp rules script context item key >>= fun good => pure (good, context) := by
  unfold Check.single
  rcases hv with hv | hv
  · rw [hv]
  · rw [hv]

theorem Check.single_of_tapscript {context : Context} {item key : Bytes} (hv : context.version = .tapscript) :
    Check.single rules script context item key = Check.tapscriptOp rules context item key := by
  unfold Check.single
  rw [hv]

/-- A signature check with its operands on the stack. -/
theorem evalCheckSig_cons {verify : Bool} {key sig : Bytes} {rest : Stack} (hs : s.stack = key :: sig :: rest) :
    evalCheckSig rules script verify s =
      Check.single rules script s.context sig key >>= fun r =>
        liftM (conclude verify r.1 { s with stack := rest, context := r.2 }) := by
  have hneed : Stack.need 2 (key :: sig :: rest) = .ok () := if_pos (by simp)
  unfold evalCheckSig
  rw [hs, hneed]
  rfl

theorem yields_evalCheckSig {verify : Bool} (h : (evalCheckSig rules script verify s).Yields s') :
    ∃ key sig rest good context, s.stack = key :: sig :: rest ∧
      (Check.single rules script s.context sig key).Yields (good, context) ∧
      conclude verify good { s with stack := rest, context := context } = .ok s' := by
  obtain ⟨_, -, h⟩ := yields_liftM_bind.mp h
  obtain ⟨⟨key, below⟩, hkey, h⟩ := yields_liftM_bind.mp h
  obtain ⟨⟨sig, rest⟩, hsig, h⟩ := yields_liftM_bind.mp h
  obtain ⟨⟨good, context⟩, hcheck, h⟩ := yields_bind.mp h
  refine ⟨key, sig, rest, good, context, ?_, hcheck, yields_liftM.mp h⟩
  rw [Stack.pop_eq_ok.mp hkey, Stack.pop_eq_ok.mp hsig]

theorem yields_evalCheckSigAdd (h : (evalCheckSigAdd rules script s).Yields s') :
    ∃ key x sig n good context, s.stack[0]? = some key ∧ s.stack[1]? = some x ∧ s.stack[2]? = some sig ∧
      Stack.number (rules.has .minimalData) Number.operandSize x = .ok n ∧
      (Check.single rules script s.context sig key).Yields (good, context) ∧
      s' = { s with stack := Number.encode (n + if good then 1 else 0) :: s.stack.drop 3, context := context } := by
  unfold evalCheckSigAdd at h
  split at h
  · exact absurd h not_yields_fail
  obtain ⟨_, -, h⟩ := yields_liftM_bind.mp h
  obtain ⟨x, hx, h⟩ := yields_liftM_bind.mp h
  obtain ⟨n, hn, h⟩ := yields_liftM_bind.mp h
  obtain ⟨key, hkey, h⟩ := yields_liftM_bind.mp h
  obtain ⟨sig, hsig, h⟩ := yields_liftM_bind.mp h
  obtain ⟨⟨good, context⟩, hcheck, h⟩ := yields_bind.mp h
  exact ⟨key, x, sig, n, good, context, Stack.get_eq_ok.mp hkey, Stack.get_eq_ok.mp hx,
    Stack.get_eq_ok.mp hsig, hn, hcheck, yields_pure.mp h⟩

/-- A multisignature check has failed on empty signatures alone, if that is asked for. -/
theorem yields_evalCheckMultiSig {verify : Bool} (h : (evalCheckMultiSig rules script verify s).Yields s') :
    ∃ m s₁ good, takeMultiSig rules s = .ok (m, s₁) ∧
      (rules.has .nullFail = true → good = false → ∀ sig ∈ m.sigs, sig = []) ∧
      conclude verify good { s₁ with stack := m.rest } = .ok s' := by
  unfold evalCheckMultiSig at h
  split at h
  · exact absurd h not_yields_fail
  obtain ⟨⟨m, s₁⟩, hm, h⟩ := yields_liftM_bind.mp h
  obtain ⟨_, -, h⟩ := yields_bind.mp h
  obtain ⟨good, -, h⟩ := yields_bind.mp h
  split at h
  · exact absurd h not_yields_fail
  · rename_i hrule
    split at h
    · exact absurd h not_yields_fail
    refine ⟨m, s₁, good, hm, ?_, yields_liftM.mp h⟩
    intro hn hfalse
    simpa [hn, hfalse] using hrule

theorem yields_evalLockTime (h : (evalLockTime rules s).Yields s') : s' = s := by
  unfold evalLockTime at h
  split at h
  · obtain ⟨_, -, h⟩ := yields_bind.mp h
    obtain ⟨_, -, h⟩ := yields_bind.mp h
    split at h
    · exact yields_pure.mp h
    · exact absurd h not_yields_fail
  · exact upgradableNop_eq_ok (yields_liftM.mp h)

theorem yields_evalSequence (h : (evalSequence rules s).Yields s') : s' = s := by
  unfold evalSequence at h
  split at h
  · obtain ⟨_, -, h⟩ := yields_bind.mp h
    split at h
    · exact yields_pure.mp h
    · obtain ⟨_, -, h⟩ := yields_bind.mp h
      split at h
      · exact yields_pure.mp h
      · exact absurd h not_yields_fail
  · exact upgradableNop_eq_ok (yields_liftM.mp h)

end Checks

/-! ## What an operation can do -/

/-- The keys of a multisignature check: the number on top of the stack. -/
def Operation.keyCount (stack : Stack) : Operation → Nat
  | .checkMultiSig | .checkMultiSigVerify => stack.head?.elim 0 fun top => (Number.value top).toNat
  | _ => 0

/-- What an operation can do beside the stacks: spend weight on a signature, mark where the
    machine is, or count keys. -/
inductive Operation.Effect (s : State) : Operation → State → Prop
  | onStacks {op : Operation} (hk : op.keyCount s.stack = 0) (stack alt : Stack) (weight : Option Int) :
      Effect s op { s with stack := stack, alt := alt, context := { s.context with weightLeft := weight } }
  | separator :
      Effect s .codeSeparator
        { s with context := { s.context with codeStart := s.offset, separatorPos := s.separatorPos } }
  | keys {op : Operation} {s₁ : State} (hc : s.countOps (op.keyCount s.stack) = .ok s₁) (stack : Stack) :
      Effect s op { s₁ with stack := stack }

theorem Check.context_of_single {script : Bytes} {context context' : Context} {item key : Bytes} {good : Bool}
    (h : (Check.single rules script context item key).Yields (good, context')) :
    ∃ weight, context' = { context with weightLeft := weight } := by
  rcases Check.yields_single h with rfl | h
  · exact ⟨_, rfl⟩
  · exact Check.spendWeight_eq_ok h

theorem effect_of_evalCheckSig {script : Bytes} {verify : Bool} {op : Operation} (hk : op.keyCount s.stack = 0)
    (h : (evalCheckSig rules script verify s).Yields s') : op.Effect s s' := by
  obtain ⟨key, sig, rest, good, context, -, hcheck, h⟩ := yields_evalCheckSig h
  obtain ⟨weight, rfl⟩ := Check.context_of_single hcheck
  obtain ⟨stack, rfl⟩ := conclude_eq_ok h
  exact .onStacks hk stack s.alt weight

theorem effect_of_evalCheckMultiSig {script : Bytes} {verify : Bool} {op : Operation}
    (hk : op.keyCount s.stack = Operation.keyCount s.stack .checkMultiSig)
    (h : (evalCheckMultiSig rules script verify s).Yields s') : op.Effect s s' := by
  obtain ⟨m, s₁, good, hm, -, h⟩ := yields_evalCheckMultiSig h
  obtain ⟨top, rest, hstack, -, hcount⟩ := takeMultiSig_counts hm
  obtain ⟨stack, rfl⟩ := conclude_eq_ok h
  have hkeys : op.keyCount s.stack = (Number.value top).toNat := by
    rw [hk, hstack]
    rfl
  rw [← hkeys] at hcount
  exact .keys hcount stack

theorem Operation.effect_of_yields {script : Bytes} {op : Operation} (h : (op.eval rules script s).Yields s') :
    op.Effect s s' := by
  have hsame (op : Operation) (hk : op.keyCount s.stack = 0) (h : s' = s) : op.Effect s s' := by
    subst h
    exact .onStacks hk s'.stack s'.alt s'.context.weightLeft
  cases op with
  | nop => exact hsame _ rfl (Dialogue.yields_pure.mp h)
  | abort => exact absurd h Dialogue.not_yields_fail
  | stack op =>
    obtain ⟨⟨main, alt⟩, -, h⟩ := Dialogue.yields_liftM_bind.mp h
    rw [Dialogue.yields_pure.mp h]
    exact .onStacks rfl main alt s.context.weightLeft
  | verify | equal | equalVerify | unary _ | binary _ | numEqualVerify | within | hash _ =>
    obtain ⟨stack, -, rfl⟩ := State.onStack_eq_ok (Dialogue.yields_liftM.mp h)
    exact .onStacks rfl stack s.alt s.context.weightLeft
  | codeSeparator =>
    rw [Dialogue.yields_pure.mp h]
    exact .separator
  | checkSig | checkSigVerify => exact effect_of_evalCheckSig rfl h
  | checkMultiSig | checkMultiSigVerify => exact effect_of_evalCheckMultiSig rfl h
  | checkSigAdd =>
    obtain ⟨_, _, _, n, good, context, -, -, -, -, hcheck, rfl⟩ := yields_evalCheckSigAdd h
    obtain ⟨weight, rfl⟩ := Check.context_of_single hcheck
    exact .onStacks rfl _ s.alt weight
  | checkLockTime => exact hsame _ rfl (yields_evalLockTime h)
  | checkSequence => exact hsame _ rfl (yields_evalSequence h)
  | upgradable _ => exact hsame _ rfl (upgradableNop_eq_ok (Dialogue.yields_liftM.mp h))

/-- The open conditionals, where the machine is, and the rules it is run under. -/
structure State.Frame (s s' : State) : Prop where
  branches : s'.branches = s.branches
  position : s'.position = s.position
  offset : s'.offset = s.offset
  version : s'.context.version = s.context.version

theorem State.Frame.trans {s s₁ s' : State} (h : s.Frame s₁) (h' : s₁.Frame s') : s.Frame s' :=
  ⟨h'.branches.trans h.branches, h'.position.trans h.position, h'.offset.trans h.offset,
    h'.version.trans h.version⟩

theorem State.Frame.executing {s s' : State} (h : s.Frame s') : s'.executing = s.executing := by
  unfold State.executing
  rw [h.branches]

theorem State.frame_countOps {n : Nat} (h : s.countOps n = .ok s') : s.Frame s' := by
  rcases State.countOps_eq_ok h with rfl | ⟨-, rfl⟩ <;> exact ⟨rfl, rfl, rfl, rfl⟩

theorem State.context_countOps {n : Nat} (h : s.countOps n = .ok s') : s'.context = s.context := by
  rcases State.countOps_eq_ok h with rfl | ⟨-, rfl⟩ <;> rfl

/-- No operation touches the frame. -/
theorem Operation.Effect.frame {op : Operation} (h : op.Effect s s') : s.Frame s' := by
  cases h with
  | onStacks => exact ⟨rfl, rfl, rfl, rfl⟩
  | separator => exact ⟨rfl, rfl, rfl, rfl⟩
  | keys hc stack =>
    obtain ⟨hbranches, hposition, hoffset, hversion⟩ := State.frame_countOps hc
    exact ⟨hbranches, hposition, hoffset, hversion⟩

/-! ## Items -/

/-- Both stacks together hold no more items than they may. -/
def State.Fits (s : State) : Prop := s.stack.length + s.alt.length ≤ State.maxDepth

/-- An operation in a script that is reached is counted and done, and the depth is checked behind
    it. Of a code separator there is more to say. -/
theorem Item.eval_operation {script : Bytes} {op : Operation} (hsep : op ≠ .codeSeparator)
    (he : s.executing = true) :
    Item.eval rules script s (.good (.operation op)) =
      liftM (s.countOps 1) >>= fun s => op.eval rules script s >>= fun s => liftM s.checkDepth := by
  show Dialogue.lift (s.countOps 1) >>= _ >>= _ = Dialogue.lift (s.countOps 1) >>= _
  cases hc : s.countOps 1 with
  | error e => rfl
  | ok s₁ =>
    have he₁ : s₁.executing = true := (State.frame_countOps hc).executing.trans he
    show (if forbidsSeparator rules s₁ op = true then Dialogue.fail MachineError.codeSeparator
      else if s₁.executing = true then op.eval rules script s₁ else pure s₁) >>= _ = _
    rw [if_neg (by simp [forbidsSeparator, hsep]), if_pos he₁]
    rfl

/-- All that an item can do to the machine. In a branch that is not taken it only counts. -/
inductive Item.Step (rules : Rules) (script : Bytes) (s : State) : Item → State → Prop
  | push (p : Push) (he : s.executing = true) (hp : p.Allowed rules)
      (hd : State.Fits { s with stack := p.value :: s.stack }) :
      Step rules script s (.good (.push p)) { s with stack := p.value :: s.stack }
  | passPush (p : Push) (he : s.executing = false) (hd : s.Fits) : Step rules script s (.good (.push p)) s
  | control (c : Control) {s₁ s' : State} (hc : s.countOps 1 = .ok s₁) (h : c.eval rules s₁ = .ok s')
      (hd : s'.Fits) : Step rules script s (.good (.control c)) s'
  | operation (op : Operation) {s₁ s' : State} (hc : s.countOps 1 = .ok s₁) (he : s.executing = true)
      (h : (op.eval rules script s₁).Yields s') (hd : s'.Fits) : Step rules script s (.good (.operation op)) s'
  | passOperation (op : Operation) {s' : State} (hc : s.countOps 1 = .ok s') (he : s.executing = false)
      (hd : s'.Fits) : Step rules script s (.good (.operation op)) s'
  | passReserved (he : s.executing = false) : Step rules script s (.bad .reserved) s
  | passBad (b : Bad) {s' : State} (hb : b ≠ .reserved) (hc : s.countOps 1 = .ok s')
      (hr : b.isAlwaysReached = false) (he : s.executing = false) : Step rules script s (.bad b) s'

theorem Bad.step_of_eval {script : Bytes} {b : Bad} (h : b.eval s = .ok s') :
    Item.Step rules script s (.bad b) s' := by
  have hpass {s₁ : State} (h : (if (b.isAlwaysReached || s₁.executing) = true then
      Except.error MachineError.badOpcode else .ok s₁) = .ok s') :
      b.isAlwaysReached = false ∧ s₁.executing = false ∧ s' = s₁ := by
    split at h
    · cases h
    · rename_i hn
      cases h
      rw [Bool.or_eq_true, not_or, Bool.not_eq_true, Bool.not_eq_true] at hn
      exact ⟨hn.1, hn.2, rfl⟩
  unfold Bad.eval at h
  split at h
  · rename_i hb
    obtain ⟨-, he, rfl⟩ := hpass h
    rw [eq_of_beq hb]
    exact .passReserved he
  · rename_i hb
    obtain ⟨s₁, hc, h⟩ := bind_eq_ok.mp h
    obtain ⟨hr, he, rfl⟩ := hpass h
    rw [(State.frame_countOps hc).executing] at he
    exact .passBad b (by simpa using hb) hc hr he

theorem Item.step_of_yields {script : Bytes} {item : Item} (h : (item.eval rules script s).Yields s') :
    Item.Step rules script s item s' := by
  cases item with
  | bad b => exact Bad.step_of_eval (Dialogue.yields_liftM.mp h)
  | good op =>
    obtain ⟨s₂, hact, h⟩ := Dialogue.yields_bind.mp h
    obtain ⟨hd, rfl⟩ := State.checkDepth_eq_ok.mp (Dialogue.yields_liftM.mp h)
    cases op with
    | push p =>
      simp only [Opcode.act] at hact
      split at hact
      · rename_i he
        obtain ⟨hp, rfl⟩ := Push.eval_eq_ok.mp (Dialogue.yields_liftM.mp hact)
        exact .push p he hp hd
      · rename_i he
        cases Dialogue.yields_pure.mp hact
        exact .passPush p (by simpa using he) hd
    | control c =>
      obtain ⟨s₁, hc, hact⟩ := Dialogue.yields_liftM_bind.mp hact
      exact .control c hc (Dialogue.yields_liftM.mp hact) hd
    | operation op =>
      obtain ⟨s₁, hc, hact⟩ := Dialogue.yields_liftM_bind.mp hact
      have hexec := (State.frame_countOps hc).executing
      split at hact
      · exact absurd hact Dialogue.not_yields_fail
      split at hact
      · rename_i he
        exact .operation op hc (hexec ▸ he) hact hd
      · rename_i he
        cases Dialogue.yields_pure.mp hact
        exact .passOperation op hc (by rw [← hexec]; simpa using he) hd

/-- No item moves the machine or changes the rules it is run under. -/
theorem Item.Step.keeps {script : Bytes} {item : Item} (h : Item.Step rules script s item s') :
    s'.offset = s.offset ∧ s'.context.version = s.context.version := by
  cases h with
  | push => exact ⟨rfl, rfl⟩
  | passPush => exact ⟨rfl, rfl⟩
  | control c hc h =>
    obtain ⟨stack, branches, rfl⟩ := Control.eval_eq_ok h
    exact ⟨(State.frame_countOps hc).offset, (State.frame_countOps hc).version⟩
  | operation op hc he h =>
    have hframe := (State.frame_countOps hc).trans (Operation.effect_of_yields h).frame
    exact ⟨hframe.offset, hframe.version⟩
  | passOperation op hc => exact ⟨(State.frame_countOps hc).offset, (State.frame_countOps hc).version⟩
  | passReserved => exact ⟨rfl, rfl⟩
  | passBad b hb hc => exact ⟨(State.frame_countOps hc).offset, (State.frame_countOps hc).version⟩

end SpendScript

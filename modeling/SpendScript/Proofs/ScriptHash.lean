/-
  SpendScript.Proofs.ScriptHash — what it takes to spend a script hash.

  The locking script of a script hash compares the hash of the item on top with its own; the
  item is then run as the redeem script, on what the unlocking script left below it. Told
  without the locking script, where no witness and no clean stack are asked for.
  - `endsIn_push` / `endsIn_onStack`: a run over a push, or over an operation on the stack
    alone, passes under these conditions and goes on from this state. So a short script is
    run item by item, in both directions at once.
  - `Script.run_eval_scriptHash`: the locking script of a script hash, run on any stack. Its
    push goes on top of what is hashed, so there may be no more than 998 items below that.
  - `Spend.run_eval_scriptHash_eq_true`: the spend is true exactly if the unlocking script
    only pushes, leaves a redeem script of the right hash on at most 998 items, and the redeem
    script is run on these to a true end.
-/

import SpendScript.Proofs.Authored
import SpendScript.Proofs.MinimalPush
import SpendScript.Proofs.Recognition

namespace SpendScript

variable {o : Oracle} {rules : Rules} {script : Bytes} {index : Nat} {s : State}

/-! ## Runs of known items -/

/-- From this state on, the items are run to the end of the script and leave this stack. -/
def EndsIn (o : Oracle) (rules : Rules) (script : Bytes) (index : Nat) (s : State)
    (xs : List (Except ScriptError Item)) (out : Stack) : Prop :=
  ∃ t, (execute rules script index s xs).run o = .ok t ∧ t.finish = .ok out

theorem Script.run_eval_iff_endsIn {code : Bytes} {stack out : Stack} {context : Context} :
    (Script.eval rules code stack context).run o = .ok out ↔
      checkScriptSize context.version code.length = .ok () ∧
        EndsIn o rules code 0 (State.start stack context) ((items code).map (·.mapError ScriptError.parse)) out := by
  unfold Script.eval evalInstructions EndsIn
  simp only [Dialogue.run_bind_eq_ok, Dialogue.run_liftM]
  constructor
  · rintro ⟨_, hsize, hrun⟩
    exact ⟨hsize, hrun⟩
  · rintro ⟨hsize, hrun⟩
    exact ⟨(), hsize, hrun⟩

theorem endsIn_nil {out : Stack} : EndsIn o rules script index s [] out ↔ s.finish = .ok out := by
  constructor
  · rintro ⟨t, hrun, hfinish⟩
    cases hrun
    exact hfinish
  · intro hfinish
    exact ⟨s, rfl, hfinish⟩

theorem endsIn_cons {item : Item} {xs : List (Except ScriptError Item)} {out : Stack} :
    EndsIn o rules script index s (.ok item :: xs) out ↔
      ∃ s', (item.eval rules script (s.reach index item.size)).run o = .ok s' ∧
        EndsIn o rules script (index + 1) s' xs out := by
  have hstep (s' : State) :
      ((item.eval rules script (s.reach index item.size)).mapError (ScriptError.machine (some item))).run o = .ok s' ↔
        (item.eval rules script (s.reach index item.size)).run o = .ok s' := by
    rw [Dialogue.run_mapError, mapError_eq_ok]
  constructor
  · rintro ⟨t, hrun, hfinish⟩
    obtain ⟨s', hs, hrest⟩ := Dialogue.run_bind_eq_ok.mp hrun
    exact ⟨s', (hstep s').mp hs, t, hrest, hfinish⟩
  · rintro ⟨s', hs, t, hrest, hfinish⟩
    exact ⟨t, Dialogue.run_bind_eq_ok.mpr ⟨s', (hstep s').mpr hs, hrest⟩, hfinish⟩

/-- A push passes if it is allowed and there is room for its value. -/
theorem endsIn_push {p : Push} {xs : List (Except ScriptError Item)} {out : Stack} (hb : s.branches = []) :
    EndsIn o rules script index s (.ok (.good (.push p)) :: xs) out ↔
      p.Allowed rules ∧ s.stack.length + 1 + s.alt.length ≤ State.maxDepth ∧
        EndsIn o rules script (index + 1) (s.pushed index p) xs out := by
  have he : (s.reach index p.size).executing = true := State.executing_of_closed hb
  have heval : Item.eval rules script (s.reach index p.size) (.good (.push p)) = _ := Item.eval_push he p
  rw [endsIn_cons]
  constructor
  · rintro ⟨s', hs, hrest⟩
    rw [show (Item.good (.push p)).size = p.size from rfl, heval, Dialogue.run_lift] at hs
    obtain ⟨s₁, hp, hd⟩ := bind_eq_ok.mp hs
    obtain ⟨hallowed, rfl⟩ := Push.eval_eq_ok.mp hp
    obtain ⟨hroom, rfl⟩ := State.checkDepth_eq_ok.mp hd
    exact ⟨hallowed, hroom, hrest⟩
  · rintro ⟨hallowed, hroom, hrest⟩
    refine ⟨s.pushed index p, ?_, hrest⟩
    rw [show (Item.good (.push p)).size = p.size from rfl, heval, Dialogue.run_lift, Push.eval_of_allowed hallowed]
    exact State.checkDepth_eq_ok.mpr ⟨hroom, rfl⟩

/-- An operation on the stack alone asks nothing: it is counted and done, and the depth is
    checked. -/
theorem Item.eval_onStack {op : Operation} {f : Stack → Except MachineError Stack}
    (hop : ∀ s, op.eval rules script s = Dialogue.lift (s.onStack f)) (hsep : op ≠ .codeSeparator)
    (he : s.executing = true) :
    Item.eval rules script s (.good (.operation op)) =
      Dialogue.lift (s.countOps 1 >>= fun s => s.onStack f >>= State.checkDepth) := by
  rw [Item.eval_operation hsep he]
  cases s.countOps 1 with
  | error e => rfl
  | ok s₁ =>
    show op.eval rules script s₁ >>= _ = Dialogue.lift (s₁.onStack f >>= State.checkDepth)
    rw [hop]
    cases s₁.onStack f <;> rfl

/-- The machine behind an operation that was counted and left this stack. -/
def State.operated (index : Nat) (stack : Stack) (s : State) : State :=
  { s.reach index 1 with opCount := s.opCount + 1, stack := stack }

/-- An operation on the stack alone passes if it can be counted and done, and what it leaves is
    not too much. -/
theorem endsIn_onStack {op : Operation} {f : Stack → Except MachineError Stack}
    {xs : List (Except ScriptError Item)} {out : Stack}
    (hop : ∀ s, op.eval rules script s = Dialogue.lift (s.onStack f)) (hsep : op ≠ .codeSeparator)
    (hb : s.branches = []) (hl : s.context.version.limited = true) :
    EndsIn o rules script index s (.ok (.good (.operation op)) :: xs) out ↔
      s.opCount + 1 ≤ State.maxOps ∧ ∃ stack, f s.stack = .ok stack ∧
        stack.length + s.alt.length ≤ State.maxDepth ∧
        EndsIn o rules script (index + 1) (s.operated index stack) xs out := by
  have he : (s.reach index 1).executing = true := State.executing_of_closed hb
  have hl : (s.reach index 1).context.version.limited = true := hl
  have heval := Item.eval_onStack hop hsep he
  rw [endsIn_cons]
  constructor
  · rintro ⟨s', hs, hrest⟩
    rw [show (Item.good (.operation op)).size = 1 from rfl, heval, Dialogue.run_lift] at hs
    obtain ⟨s₁, hc, hs⟩ := bind_eq_ok.mp hs
    obtain ⟨hcount, rfl⟩ := (State.countOps_limited hl).mp hc
    obtain ⟨s₂, hf, hd⟩ := bind_eq_ok.mp hs
    obtain ⟨stack, hstack, rfl⟩ := State.onStack_eq_ok hf
    obtain ⟨hroom, rfl⟩ := State.checkDepth_eq_ok.mp hd
    exact ⟨hcount, stack, hstack, hroom, hrest⟩
  · rintro ⟨hcount, stack, hstack, hroom, hrest⟩
    have hdone : State.onStack { s.reach index 1 with opCount := s.opCount + 1 } f = .ok (s.operated index stack) := by
      show f s.stack >>= _ = _
      rw [hstack]
      rfl
    refine ⟨s.operated index stack, ?_, hrest⟩
    rw [show (Item.good (.operation op)).size = 1 from rfl, heval, Dialogue.run_lift]
    refine bind_eq_ok.mpr ⟨_, (State.countOps_limited hl).mpr ⟨hcount, rfl⟩, ?_⟩
    exact bind_eq_ok.mpr ⟨_, hdone, State.checkDepth_eq_ok.mpr ⟨hroom, rfl⟩⟩

/-! ## The locking script -/

theorem Stack.hash160_eq_ok {s s' : Stack} :
    Stack.hash .hash160 s = .ok s' ↔ ∃ x rest, s = x :: rest ∧ s' = (Hash.hash160 x).val :: rest := by
  cases s with
  | nil => simp [Stack.hash, Stack.pop, bind, Except.bind]
  | cons x rest => simp [Stack.hash, Stack.pop, bind, Except.bind, pure, Except.pure, eq_comm]

theorem Stack.equal_eq_ok {s s' : Stack} :
    Stack.equal s = .ok s' ↔ ∃ y x rest, s = y :: x :: rest ∧ s' = Number.ofBool (x == y) :: rest := by
  rcases s with _ | ⟨y, _ | ⟨x, rest⟩⟩
  · simp [Stack.equal, Stack.pop, bind, Except.bind]
  · simp [Stack.equal, Stack.pop, bind, Except.bind]
  · simp [Stack.equal, Stack.pop, bind, Except.bind, pure, Except.pure, eq_comm]

/-- The locking script of a script hash needs an item to hash, and room for another on top of
    it. It leaves whether the hashes are the same. -/
theorem Script.run_eval_scriptHash {hash : Block 20} {data stack : Stack} :
    (Script.eval rules (0xa9 :: 0x14 :: (hash.val ++ [0x87])) data (Context.fresh .base)).run o = .ok stack ↔
      ∃ redeem rest, data = redeem :: rest ∧ rest.length ≤ 998 ∧
        stack = Number.ofBool ((Hash.hash160 redeem).val == hash.val) :: rest := by
  have hsize : 1 ≤ hash.val.length ∧ hash.val.length ≤ 75 := by
    rw [hash.property]
    decide
  have hallowed : (Push.direct hash.val hsize).Allowed rules := by
    intro _
    show (!Push.isConstant hash.val) = true
    rw [Push.not_isConstant_of_length (by rw [hash.property]; decide)]
    rfl
  have hitems := Script.items_encode
    [.operation (.hash .hash160), .push (.direct hash.val hsize), .operation .equal]
  rw [Script.encode_scriptHash hash.property hsize] at hitems
  rw [Script.run_eval_iff_endsIn, hitems]
  constructor
  · rintro ⟨-, h⟩
    obtain ⟨-, stack₁, hhash, -, h⟩ := (endsIn_onStack (fun _ => rfl) (by decide) rfl rfl).mp h
    obtain ⟨redeem, rest, hdata, rfl⟩ := Stack.hash160_eq_ok.mp hhash
    obtain ⟨-, hroom, h⟩ := (endsIn_push rfl).mp h
    obtain ⟨-, stack₂, hequal, -, h⟩ := (endsIn_onStack (fun _ => rfl) (by decide) rfl rfl).mp h
    obtain ⟨_, _, _, hcons, rfl⟩ := Stack.equal_eq_ok.mp hequal
    cases hcons
    cases endsIn_nil.mp h
    exact ⟨redeem, rest, hdata, Nat.le_of_add_le_add_right (b := 2) hroom, rfl⟩
  · rintro ⟨redeem, rest, rfl, hrest, rfl⟩
    have hroom : rest.length + 2 ≤ State.maxDepth := Nat.add_le_add_right hrest 2
    have hcheck : checkScriptSize .base (0xa9 :: 0x14 :: (hash.val ++ [0x87])).length = .ok () := by
      rw [List.length_cons, List.length_cons, List.length_append, hash.property]
      rfl
    refine ⟨hcheck, (endsIn_onStack (fun _ => rfl) (by decide) rfl rfl).mpr ⟨Nat.le_of_ble_eq_true rfl, _,
      Stack.hash160_eq_ok.mpr ⟨redeem, rest, rfl, rfl⟩, Nat.le_of_succ_le hroom, ?_⟩⟩
    refine (endsIn_push rfl).mpr ⟨hallowed, hroom, ?_⟩
    refine (endsIn_onStack (fun _ => rfl) (by decide) rfl rfl).mpr ⟨Nat.le_of_ble_eq_true rfl, _,
      Stack.equal_eq_ok.mpr ⟨_, _, _, rfl, rfl⟩, Nat.le_of_succ_le hroom, ?_⟩
    exact endsIn_nil.mpr rfl

/-! ## The spend -/

namespace Spend

theorem isTrue_eq_true {stack : Stack} :
    isTrue stack = true ↔ ∃ top below, stack = top :: below ∧ Number.truthy top = true := by
  cases stack with
  | nil => simp [isTrue]
  | cons top below => simp [isTrue]

theorem isTrue_ofBool {b : Bool} {rest : Stack} : isTrue (Number.ofBool b :: rest) = b := by
  cases b <;> rfl

theorem checkRemains_of_neither {witness : List Bytes} {r : Remains} (hw : rules.has .witness = false)
    (hc : rules.has .cleanStack = false) : checkRemains rules witness r = .ok () := by
  unfold checkRemains
  rw [hw, hc]
  rfl

/-- Under the rule on script hashes, without those on witnesses and on a clean stack, a script
    hash is spent exactly by an unlocking script that only pushes and leaves a redeem script of
    this hash on at most 998 items, and by a redeem script that runs on these to a true end. The
    items are those from before the locking script was run. -/
theorem run_eval_scriptHash_eq_true (o : Oracle) {rules : Rules} (hp2sh : rules.has .p2sh = true)
    (hw : rules.has .witness = false) (hc : rules.has .cleanStack = false) (s : Bytes) (hash : Block 20)
    (witness : List Bytes) :
    (eval rules (.ofScript s) (.ofScript (0xa9 :: 0x14 :: (hash.val ++ [0x87]))) witness).run o = .ok true ↔
      Script.isPushOnly s = true ∧ ∃ redeem rest,
        (Script.eval rules s [] (Context.fresh .base)).run o = .ok (redeem :: rest) ∧ rest.length ≤ 998 ∧
        Hash.hash160 redeem = hash ∧ ∃ top below,
          (Script.eval rules redeem rest (Context.fresh .base)).run o = .ok (top :: below) ∧
          Number.truthy top = true := by
  have hw' : ¬ rules.has .witness = true := by simp [hw]
  have hscript : (rules.has .p2sh && Script.isPayToScriptHash (0xa9 :: 0x14 :: (hash.val ++ [0x87]))) = true := by
    rw [hp2sh, Bool.true_and, ← Script.encode_scriptHash hash.property (by rw [hash.property]; decide)]
    exact Script.isPayToScriptHash_iff.mpr ⟨hash.val, _, hash.property, rfl⟩
  rw [run_eval_eq_true]
  constructor
  · rintro ⟨-, data, stack, r, r', hdata, hstack, ht, -, hredeem, -⟩
    obtain ⟨redeem, rest, rfl, hroom, rfl⟩ := Script.run_eval_scriptHash.mp hstack
    rw [isTrue_ofBool, beq_iff_eq] at ht
    obtain ⟨hpush, _, _, stack, hcons, hrun, htrue, -⟩ := (run_redeemStep_eq_some hscript).mp hredeem
    cases hcons
    obtain ⟨top, below, rfl, htop⟩ := isTrue_eq_true.mp htrue
    exact ⟨hpush, redeem, rest, hdata, hroom, Subtype.ext ht, top, below, hrun, htop⟩
  · rintro ⟨hpush, redeem, rest, hdata, hroom, rfl, top, below, hrun, htop⟩
    have htrue : isTrue (top :: below) = true := isTrue_eq_true.mpr ⟨top, below, rfl, htop⟩
    refine ⟨fun _ => hpush, redeem :: rest, _, ⟨rest.length + 1, false⟩, ⟨below.length + 1, false⟩, hdata,
      Script.run_eval_scriptHash.mpr ⟨redeem, rest, rfl, hroom, rfl⟩, ?_, ?_, ?_, checkRemains_of_neither hw hc⟩
    · rw [isTrue_ofBool, beq_iff_eq]
    · unfold nativeStep
      rw [programStep_of_not_witness hw']
      rfl
    · refine (run_redeemStep_eq_some hscript).mpr ⟨hpush, redeem, rest, top :: below, rfl, hrun, htrue, ?_⟩
      unfold nestedStep
      rw [programStep_of_not_witness hw']
      rfl

/-- A redeem script that compares with two, spent by a two. -/
theorem run_eval_scriptHash_eq_true_two :
    (eval (Rules.ofList [.p2sh, .minimalData]) (.ofScript [0x52, 0x02, 0x52, 0x87])
      (.ofScript (0xa9 :: 0x14 :: ((Hash.hash160 [0x52, 0x87]).val ++ [0x87]))) []).run Oracle.deny = .ok true :=
  (run_eval_scriptHash_eq_true Oracle.deny (by decide) (by decide) (by decide) _ _ []).mpr
    ⟨by decide +kernel, [0x52, 0x87], [[0x02]], by decide +kernel, by decide, rfl, [0x01], [], by decide +kernel,
      by decide⟩

end Spend

end SpendScript

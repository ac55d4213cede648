/-
  SpendScript.Proofs.StraightLine — scripts without conditionals, run opcode by opcode.

  Where no conditional is open, every opcode acts. So a script of known opcodes is run from the
  front: what one of them does to the machine is told, and the run goes on behind it.
  - `State.HasRoom` / `State.counted`: operations are counted, where they are limited.
  - `execute_number` / `execute_block`: a number, or data of fixed size, is pushed.
  - `execute_operation`: an operation, by what it does alone (`State.entered` is the machine it
    is done on). `execute_of_ret` and `execute_of_fail` if it asks nothing, `result_execute_of_ok`
    and `result_execute_of_error` if it does.
  - `Script.result_eval_of_ok` / `Script.result_eval_of_error`: the whole script from the run.
-/

import SpendScript.Proofs.Authored
import SpendScript.Proofs.Limits
import SpendScript.Proofs.MinimalPush
import SpendScript.Script.Pattern

namespace SpendScript

open Dialogue

/-! ## Counting -/

namespace State

/-- Whether there is room for `n` more operations, where they are limited. -/
def HasRoom (n : Nat) (s : State) : Prop := s.context.version.limited = true → s.opCount + n ≤ maxOps

/-- The machine with `n` more operations counted, where they are limited. -/
def counted (n : Nat) (s : State) : State :=
  { s with opCount := if s.context.version.limited then s.opCount + n else s.opCount }

theorem countOps_of_hasRoom {n : Nat} {s : State} (h : s.HasRoom n) : s.countOps n = .ok (s.counted n) := by
  unfold countOps counted
  cases hl : s.context.version.limited with
  | true => simp [h hl]
  | false => simp

@[simp] theorem counted_zero (s : State) : s.counted 0 = s := by
  simp [counted]

theorem counted_counted (s : State) (m n : Nat) : (s.counted m).counted n = s.counted (n + m) := by
  cases hl : s.context.version.limited <;> simp [counted, hl, Nat.add_assoc, Nat.add_comm m]

theorem HasRoom.mono {m n : Nat} {s : State} (h : s.HasRoom n) (hle : m ≤ n) : s.HasRoom m := by
  intro hl
  have := h hl
  omega

theorem HasRoom.counted {m n : Nat} {s : State} (h : s.HasRoom (n + m)) : (s.counted m).HasRoom n := by
  intro hl
  have hle := h hl
  have hcount : (s.counted m).opCount = s.opCount + m := if_pos hl
  omega

theorem hasRoom_start (stack : Stack) (context : Context) {n : Nat} (hn : n ≤ maxOps) :
    (start stack context).HasRoom n := by
  intro _
  exact Nat.le_trans (Nat.le_of_eq (Nat.zero_add n)) hn

/-- The machine at the operation number `index`, which is counted already. -/
def entered (index : Nat) (s : State) : State := (s.reach index 1).counted 1

theorem HasRoom.entered {n : Nat} {s : State} (h : s.HasRoom (n + 1)) (index : Nat) : (s.entered index).HasRoom n :=
  HasRoom.counted (s := s.reach index 1) h

end State

section Step

variable {σ : Type} {r : Responder σ} {a : σ} {rules : Rules} {script : Bytes} {index : Nat} {s s' : State}

/-! ## Pushes -/

/-- A number that a lock time could be is pushed in a form that all rules allow. -/
theorem execute_number {n : Int} (hn : n.natAbs < 2 ^ 39) (hb : s.branches = [])
    (hd : s.stack.length + s.alt.length < State.maxDepth) (xs : List (Except ScriptError Item)) :
    execute rules script index s (.ok (.good (Pattern.number n)) :: xs) =
      execute rules script (index + 1)
        { s.reach index (Push.ofNumber n).size with stack := Number.encode n :: s.stack } xs := by
  obtain ⟨hvalue, hminimal⟩ := Push.ofNumber_spec (Number.encode_length_le_maxData hn)
  show execute rules script index s (.ok (.good (.push (Push.ofNumber n))) :: xs) = _
  rw [execute_item_of_room hb (fun _ => hminimal) hd, State.pushed, hvalue]

theorem execute_block {n : Nat} (b : Block n) (h : 1 ≤ n ∧ n ≤ 75) (hn : 2 ≤ n) (hb : s.branches = [])
    (hd : s.stack.length + s.alt.length < State.maxDepth) (xs : List (Except ScriptError Item)) :
    execute rules script index s (.ok (.good (Pattern.block b h)) :: xs) =
      execute rules script (index + 1) { s.reach index (1 + b.val.length) with stack := b.val :: s.stack } xs := by
  have hconstant : Push.isConstant b.val = false := Push.not_isConstant_of_length (by rw [b.property]; exact hn)
  have hallowed : Push.Allowed rules (.direct b.val (by simpa [b.property] using h)) := by
    intro _
    simp [Push.isMinimal, hconstant]
  exact execute_item_of_room hb hallowed hd xs

/-! ## Operations -/

variable {op : Operation}

theorem execute_operation (hsep : op ≠ .codeSeparator) (hb : s.branches = []) (hroom : s.HasRoom 1)
    (xs : List (Except ScriptError Item)) :
    execute rules script index s (.ok (.good (.operation op)) :: xs) =
      (op.eval rules script (s.entered index) >>= fun s => liftM s.checkDepth).mapError
        (.machine (some (.good (.operation op)))) >>= fun s => execute rules script (index + 1) s xs := by
  have he : (s.reach index 1).executing = true := State.executing_of_closed hb
  have hcount : (s.reach index 1).countOps 1 = .ok (s.entered index) := State.countOps_of_hasRoom hroom
  have heval : Item.eval rules script (s.reach index 1) (.good (.operation op)) = _ := Item.eval_operation hsep he
  rw [hcount, liftM_ok_bind] at heval
  rw [← heval]
  rfl

theorem execute_of_ret (hsep : op ≠ .codeSeparator) (hb : s.branches = []) (hroom : s.HasRoom 1)
    (h : op.eval rules script (s.entered index) = .ret s') (hd : s'.Fits) (xs : List (Except ScriptError Item)) :
    execute rules script index s (.ok (.good (.operation op)) :: xs) = execute rules script (index + 1) s' xs := by
  rw [execute_operation hsep hb hroom, h]
  show (Dialogue.lift s'.checkDepth).mapError _ >>= _ = _
  rw [State.checkDepth_eq_ok.mpr ⟨hd, rfl⟩]
  rfl

theorem execute_of_fail {e : MachineError} (hsep : op ≠ .codeSeparator) (hb : s.branches = []) (hroom : s.HasRoom 1)
    (h : op.eval rules script (s.entered index) = .fail e) (xs : List (Except ScriptError Item)) :
    execute rules script index s (.ok (.good (.operation op)) :: xs) =
      .fail (.machine (some (.good (.operation op))) e) := by
  rw [execute_operation hsep hb hroom, h]
  rfl

/-- Whoever answers may have changed their state when the run goes on. -/
theorem result_execute_of_ok (hsep : op ≠ .codeSeparator) (hb : s.branches = []) (hroom : s.HasRoom 1)
    (h : ((op.eval rules script (s.entered index)).converse r a).result = .ok s') (hd : s'.Fits)
    (xs : List (Except ScriptError Item)) :
    ∃ a', ((execute rules script index s (.ok (.good (.operation op)) :: xs)).converse r a).result =
      ((execute rules script (index + 1) s' xs).converse r a').result := by
  have hstep : (((op.eval rules script (s.entered index) >>= fun s => liftM s.checkDepth).mapError
      (ScriptError.machine (some (.good (.operation op))))).converse r a).result = .ok s' := by
    rw [result_converse_mapError, result_converse_bind_of_ok h, converse_liftM, State.checkDepth_eq_ok.mpr ⟨hd, rfl⟩]
    rfl
  rw [execute_operation hsep hb hroom]
  exact ⟨_, result_converse_bind_of_ok hstep _⟩

theorem result_execute_of_error {e : MachineError} (hsep : op ≠ .codeSeparator) (hb : s.branches = [])
    (hroom : s.HasRoom 1) (h : ((op.eval rules script (s.entered index)).converse r a).result = .error e)
    (xs : List (Except ScriptError Item)) :
    ((execute rules script index s (.ok (.good (.operation op)) :: xs)).converse r a).result =
      .error (.machine (some (.good (.operation op))) e) := by
  have hstep : (((op.eval rules script (s.entered index) >>= fun s => liftM s.checkDepth).mapError
      (ScriptError.machine (some (.good (.operation op))))).converse r a).result =
        .error (.machine (some (.good (.operation op))) e) := by
    rw [result_converse_mapError, result_converse_bind_of_error h]
    rfl
  rw [execute_operation hsep hb hroom]
  exact result_converse_bind_of_error hstep _

end Step

/-! ## Whole scripts -/

namespace Script

variable {σ : Type} {r : Responder σ} {a : σ} {rules : Rules} {ops : List Opcode} {stack : Stack} {context : Context}

/-- Opcodes that were written, as they are read and run. -/
def written (ops : List Opcode) : List (Except ScriptError Item) := ops.map fun op => .ok (.good op)

theorem eval_encode (hsize : checkScriptSize context.version (encode ops).length = .ok ()) :
    Script.eval rules (encode ops) stack context =
      execute rules (encode ops) 0 (State.start stack context) (written ops) >>= fun t => liftM t.finish := by
  have hitems : (items (encode ops)).map (·.mapError ScriptError.parse) = written ops := by
    rw [items_encode, List.map_map]
    rfl
  unfold Script.eval evalInstructions
  rw [hitems, hsize]
  rfl

theorem encode_length_le (ops : List Opcode) : (encode ops).length ≤ (5 + Push.maxData) * ops.length := by
  induction ops with
  | nil => exact Nat.zero_le _
  | cons op ops ih =>
    have hop : op.size ≤ 5 + Push.maxData := by
      cases op with
      | push p => exact p.size_le
      | control c | operation op => exact Nat.le_add_left 1 _
    have hlength : (encode (op :: ops)).length = op.size + (encode ops).length := by
      rw [encode, List.flatMap_cons, List.length_append, op.encode_length]
      rfl
    rw [hlength, List.length_cons, Nat.mul_succ]
    omega

/-- A few opcodes are never too long a script. -/
theorem checkScriptSize_encode (version : SigVersion) (h : ops.length ≤ 19) :
    checkScriptSize version (encode ops).length = .ok () := by
  refine Component.checkScriptSize_of_le ?_
  calc (encode ops).length
    _ ≤ (5 + Push.maxData) * ops.length := encode_length_le ops
    _ ≤ (5 + Push.maxData) * 19 := Nat.mul_le_mul_left _ h
    _ ≤ maxSize := by decide

theorem result_eval_of_ok (hsize : checkScriptSize context.version (encode ops).length = .ok ()) {t : State}
    (h : ((execute rules (encode ops) 0 (State.start stack context) (written ops)).converse r a).result = .ok t)
    (hb : t.branches = []) :
    ((Script.eval rules (encode ops) stack context).converse r a).result = .ok t.stack := by
  rw [eval_encode hsize, result_converse_bind_of_ok h, converse_liftM]
  exact State.finish_eq_ok.mpr ⟨hb, rfl⟩

theorem result_eval_of_error (hsize : checkScriptSize context.version (encode ops).length = .ok ()) {e : ScriptError}
    (h : ((execute rules (encode ops) 0 (State.start stack context) (written ops)).converse r a).result = .error e) :
    ((Script.eval rules (encode ops) stack context).converse r a).result = .error e := by
  rw [eval_encode hsize]
  exact result_converse_bind_of_error h _

end Script

end SpendScript

/-
  SpendScript.Proofs.LockTime — what it takes to pass a lock time.

  A script that demands a lock time pushes it, lets an opcode judge it and drops it again. The
  number on the stack is signed and of any length, the fields of the transaction have 32 bits, and
  relative times are compared under a mask. None of this shows from outside: for every number of
  32 bits, the script passes if the transaction meets it (`Transaction.MeetsLockTime`,
  `Transaction.MeetsSequence`), and leaves the stack as it was.
  - `InputView.checkLockTime_iff` / `InputView.checkSequence_iff`: what the answer of an input says.
  - `result_evalLockTime` / `result_evalSequence`: the two opcodes on a number that was pushed.
  - `result_execute_judged`: a number is pushed, judged and dropped, in front of any opcodes.
  `Script.result_eval_lockTime` puts them together.
-/

import Mathlib
import SpendScript.Checker
import SpendScript.Proofs.Number
import SpendScript.Proofs.StraightLine

namespace SpendScript

open Dialogue

namespace Transaction

/-- An absolute lock time is met by a transaction that is locked for as long, both counted in
    blocks or both in seconds, through an input that is not final. -/
def MeetsLockTime (tx : Transaction) (input : TxIn) (n : UInt32) : Prop :=
  (n < 500000000 ∧ tx.lockTime < 500000000 ∨ 500000000 ≤ n ∧ 500000000 ≤ tx.lockTime) ∧
    n ≤ tx.lockTime ∧ input.sequence ≠ 0xffffffff

/-- A relative lock time is met by an input that waits for as long, both counted in blocks or both
    in seconds, if version and sequence number give it a relative lock time at all. One with the
    disabling bit asks for nothing. -/
def MeetsSequence (tx : Transaction) (input : TxIn) (n : UInt32) : Prop :=
  n.toNat.testBit 31 = true ∨
    2 ≤ tx.version.toUInt32 ∧ input.sequence.toNat.testBit 31 = false ∧
      n.toNat.testBit 22 = input.sequence.toNat.testBit 22 ∧ n &&& 0xffff ≤ input.sequence &&& 0xffff

instance (tx : Transaction) (input : TxIn) (n : UInt32) : Decidable (tx.MeetsLockTime input n) :=
  inferInstanceAs (Decidable ((_ ∨ _) ∧ _ ∧ _))

instance (tx : Transaction) (input : TxIn) (n : UInt32) : Decidable (tx.MeetsSequence input n) :=
  inferInstanceAs (Decidable (_ ∨ _ ∧ _ ∧ _ ∧ _))

end Transaction

/-! ## The answers -/

namespace InputView

variable {v : InputView} {input : TxIn}

theorem checkLockTime_iff (hi : v.tx.inputs[v.index]? = some input) (n : UInt32) :
    v.checkLockTime n.toNat = true ↔ v.tx.MeetsLockTime input n := by
  have hfinal : (!input.isFinal) = true ↔ input.sequence ≠ 0xffffffff := by simp [TxIn.isFinal, finalSequence]
  have hthreshold : (500000000 : UInt32).toNat = lockTimeThreshold := rfl
  unfold checkLockTime Transaction.MeetsLockTime
  simp only [hi, Option.any_some, UInt32.lt_iff_toNat_lt, UInt32.le_iff_toNat_le, hthreshold]
  rw [← hfinal]
  split_ifs with hkind hlate
  · rw [bne_iff_ne, ne_eq, decide_eq_decide] at hkind
    refine iff_of_false id fun h => ?_
    omega
  · refine iff_of_false id fun h => ?_
    omega
  · rw [bne_iff_ne, ne_eq, not_not, decide_eq_decide] at hkind
    constructor
    · intro h
      exact ⟨by omega, by omega, h⟩
    · intro h
      exact h.2.2

/-- The mask keeps the bit that tells seconds from blocks, and their number. -/
theorem maskSequence_natCast {n : Nat} (hn : n < 2 ^ 32) :
    maskSequence n = 2 ^ 22 * (n.testBit 22).toNat + n % 2 ^ 16 := by
  have hword : ((n : Int) % 0x100000000).toNat = n := by omega
  have hlow : n % 2 ^ 16 < 2 ^ 22 := Nat.lt_trans (Nat.mod_lt _ (by decide)) (by decide)
  have hkind : n &&& 2 ^ 22 = 2 ^ 22 * (n.testBit 22).toNat := by rw [Nat.and_two_pow, Nat.mul_comm]
  unfold maskSequence sequenceTypeBit sequenceMask
  rw [hword, Nat.and_or_distrib_left, hkind, show 0xffff = 2 ^ 16 - 1 from rfl, Nat.and_two_pow_sub_one_eq_mod,
    Nat.two_pow_add_eq_or_of_lt hlow]

theorem maskSequence_lt {n : Nat} (hn : n < 2 ^ 32) : maskSequence n < 2 ^ 22 ↔ n.testBit 22 = false := by
  have hlow : n % 2 ^ 16 < 2 ^ 16 := Nat.mod_lt _ (by decide)
  rw [maskSequence_natCast hn]
  cases n.testBit 22 with
  | false => exact iff_of_true (by rw [Bool.toNat_false]; omega) rfl
  | true => exact iff_of_false (by rw [Bool.toNat_true]; omega) (by decide)

theorem maskSequence_le {m n : Nat} (hm : m < 2 ^ 32) (hn : n < 2 ^ 32) (h : m.testBit 22 = n.testBit 22) :
    maskSequence m ≤ maskSequence n ↔ m % 2 ^ 16 ≤ n % 2 ^ 16 := by
  rw [maskSequence_natCast hm, maskSequence_natCast hn, h]
  exact Nat.add_le_add_iff_left

/-- Without a sign, negative versions are large. -/
theorem two_le_version (version : Int32) : (version == 0 || version == 1) = false ↔ 2 ≤ version.toUInt32 := by
  have hword (k : UInt32) : version = k.toInt32 ↔ version.toUInt32.toNat = k.toNat := by
    rw [UInt32.toNat_inj]
    constructor
    · intro h
      rw [h, UInt32.toUInt32_toInt32]
    · intro h
      rw [← h, Int32.toInt32_toUInt32]
  have hzero : version = 0 ↔ version.toUInt32.toNat = 0 := hword 0
  have hone : version = 1 ↔ version.toUInt32.toNat = 1 := hword 1
  have htwo : (2 : UInt32).toNat = 2 := rfl
  rw [Bool.or_eq_false_iff, beq_eq_false_iff_ne, beq_eq_false_iff_ne, ne_eq, ne_eq, hzero, hone,
    UInt32.le_iff_toNat_le, htwo]
  omega

theorem checkSequence_iff (hi : v.tx.inputs[v.index]? = some input) {n : UInt32} (hn : n.toNat.testBit 31 = false) :
    v.checkSequence n.toNat = true ↔ v.tx.MeetsSequence input n := by
  have hlow (m : UInt32) : (m &&& 0xffff).toNat = m.toNat % 2 ^ 16 := by
    rw [UInt32.toNat_and]
    exact Nat.and_two_pow_sub_one_eq_mod m.toNat 16
  have hasked : maskSequence n.toNat < 2 ^ sequenceTypeBit ↔ _ := maskSequence_lt n.toNat_lt
  have hgiven : maskSequence input.sequence.toNat < 2 ^ sequenceTypeBit ↔ _ := maskSequence_lt input.sequence.toNat_lt
  unfold checkSequence Transaction.MeetsSequence
  rw [hi, hn, ← two_le_version, UInt32.le_iff_toNat_le, hlow, hlow]
  simp only [hasked, hgiven, Bool.false_eq_true, false_or]
  split_ifs with hversion hdisabled hkind
  · exact iff_of_false id fun h => absurd (hversion.symm.trans h.1) (by decide)
  · exact iff_of_false id fun h => absurd (hdisabled.symm.trans h.2.1) (by decide)
  · refine iff_of_false id fun h => ?_
    rw [h.2.2.1] at hkind
    simp at hkind
  · have hkind : input.sequence.toNat.testBit 22 = n.toNat.testBit 22 := by simpa using hkind
    rw [decide_eq_true_iff, maskSequence_le n.toNat_lt input.sequence.toNat_lt hkind.symm]
    constructor
    · intro h
      exact ⟨(Bool.not_eq_true _).mp hversion, (Bool.not_eq_true _).mp hdisabled, hkind.symm, h⟩
    · intro h
      exact h.2.2.2

end InputView

/-! ## The opcodes -/

section Opcodes

variable {rules : Rules} {s : State} {v : InputView} {cache : InputView.Cache} {input : TxIn} {n : UInt32} {rest : Stack}

/-- Five bytes hold every number of 32 bits, beside its sign. -/
theorem lockTimeOperand_encode (hs : s.stack = Number.encode n.toNat :: rest) :
    lockTimeOperand rules s = .ok (n.toNat : Int) := by
  have hsize : (Number.encode n.toNat).length ≤ min Number.lockTimeSize Number.largestSize :=
    Number.encode_length_le (k := 5) (Nat.lt_trans n.toNat_lt (by decide))
  have hread : Stack.number (rules.has .minimalData) Number.lockTimeSize (Number.encode n.toNat) = .ok (n.toNat : Int) :=
    mapError_eq_ok.mpr (Number.parse_eq_ok.mpr
      ⟨hsize, fun _ => Number.isMinimal_encode n.toNat, Number.signMagnitude_encode n.toNat⟩)
  have hneg : ¬ (n.toNat : Int) < 0 := by omega
  unfold lockTimeOperand
  rw [hs]
  show (Stack.number (rules.has .minimalData) Number.lockTimeSize (Number.encode n.toNat) >>= _) = _
  rw [hread, ok_bind, if_neg hneg]
  rfl

theorem result_evalLockTime (hi : v.tx.inputs[v.index]? = some input) (hrule : rules.has .checkLockTime = true)
    (hs : s.stack = Number.encode n.toNat :: rest) :
    ((evalLockTime rules s).converse v.responder cache).result =
      if v.tx.MeetsLockTime input n then .ok s else .error .unsatisfiedLockTime := by
  unfold evalLockTime
  rw [if_pos hrule, lockTimeOperand_encode hs, liftM_ok_bind, result_converse_query_bind]
  simp only [InputView.responder, InputView.checkLockTime_iff hi]
  split <;> rfl

theorem result_evalSequence (hi : v.tx.inputs[v.index]? = some input) (hrule : rules.has .checkSequence = true)
    (hs : s.stack = Number.encode n.toNat :: rest) :
    ((evalSequence rules s).converse v.responder cache).result =
      if v.tx.MeetsSequence input n then .ok s else .error .unsatisfiedLockTime := by
  unfold evalSequence
  rw [if_pos hrule, lockTimeOperand_encode hs, liftM_ok_bind, Int.toNat_natCast]
  by_cases hbit : n.toNat.testBit 31 = true
  · have hmeets : v.tx.MeetsSequence input n := Or.inl hbit
    have hbit : n.toNat.testBit sequenceDisableBit = true := hbit
    rw [if_pos hmeets, if_pos hbit]
    rfl
  · have hanswer := InputView.checkSequence_iff hi ((Bool.not_eq_true _).mp hbit)
    have hbit : ¬ n.toNat.testBit sequenceDisableBit = true := hbit
    rw [if_neg hbit, result_converse_query_bind]
    simp only [InputView.responder, hanswer]
    split <;> rfl

end Opcodes

/-! ## The scripts -/

section Judged

variable {σ : Type} {r : Responder σ} {a : σ} {rules : Rules} {script : Bytes} {index : Nat} {s : State}
  {n : Nat} {op : Operation} {e : MachineError}

/-- A number is pushed, judged by an operation that leaves it, and dropped. If it passes, the run
    goes on from the stack as it was; otherwise it fails where it was judged. -/
theorem result_execute_judged (hn : n < 2 ^ 39) (hsep : op ≠ .codeSeparator) (hb : s.branches = [])
    (hroom : s.HasRoom 2) (hd : s.stack.length + s.alt.length < State.maxDepth) (passes : Prop) [Decidable passes]
    (hop : ∀ s' : State, s'.stack = Number.encode n :: s.stack →
      ((op.eval rules script s').converse r a).result = if passes then .ok s' else .error e)
    (xs : List (Except ScriptError Item)) :
    let run := (execute rules script index s (.ok (.good (Pattern.number n)) :: .ok (.good (.operation op)) ::
      .ok (.good (.operation (.stack .drop))) :: xs)).converse r a
    (passes → ∃ a' count position offset, run.result =
      ((execute rules script (index + 3)
        { s with opCount := count, position := position, offset := offset } xs).converse r a').result) ∧
    (¬ passes → run.result = .error (.machine (some (.good (.operation op))) e)) := by
  intro run
  -- behind the push, and there with the operation counted
  let pushed : State := { s.reach index (Push.ofNumber n).size with stack := Number.encode n :: s.stack }
  let judged : State := pushed.entered (index + 1)
  have hpush : run = (execute rules script (index + 1) pushed
      (.ok (.good (.operation op)) :: .ok (.good (.operation (.stack .drop))) :: xs)).converse r a :=
    congrArg (Dialogue.converse r a) (execute_number (Int.natAbs_natCast n ▸ hn) hb hd _)
  have hclosed : pushed.branches = [] := hb
  have hone : pushed.HasRoom 1 := hroom.mono (by decide)
  have hjudge := hop judged rfl
  rw [hpush]
  constructor
  · intro hpasses
    rw [if_pos hpasses] at hjudge
    have hfits : judged.Fits := by
      show s.stack.length + 1 + s.alt.length ≤ State.maxDepth
      omega
    have hlast : judged.HasRoom 1 := State.HasRoom.entered (s := pushed) hroom (index + 1)
    have hdrop : (Operation.stack .drop).eval rules script (judged.entered (index + 2)) =
        .ret { judged.entered (index + 2) with stack := s.stack } := rfl
    obtain ⟨a', hrun⟩ := result_execute_of_ok hsep hclosed hone hjudge hfits (.ok (.good (.operation (.stack .drop))) :: xs)
    refine ⟨a', (judged.entered (index + 2)).opCount, index + 2, (judged.entered (index + 2)).offset, ?_⟩
    have hbehind := execute_of_ret (by decide) (show judged.branches = [] from hb) hlast hdrop (Nat.le_of_lt hd) xs
    rw [hrun, hbehind]
    rfl
  · intro hfails
    rw [if_neg hfails] at hjudge
    exact result_execute_of_error hsep hclosed hone hjudge _

end Judged

namespace Script

theorem result_eval_judged {σ : Type} {r : Responder σ} {a : σ} {rules : Rules} {stack : Stack} {context : Context}
    {n : Nat} {op : Operation} {e : MachineError} (hn : n < 2 ^ 39) (hsep : op ≠ .codeSeparator)
    (hstack : stack.length < State.maxDepth) (passes : Prop) [Decidable passes]
    (hop : ∀ (script : Bytes) (s : State), s.stack = Number.encode n :: stack →
      ((op.eval rules script s).converse r a).result = if passes then .ok s else .error e) :
    ((Script.eval rules (encode [Pattern.number n, .operation op, .operation (.stack .drop)]) stack context).converse
        r a).result =
      if passes then .ok stack else .error (.machine (some (.good (.operation op))) e) := by
  have hsize : checkScriptSize context.version
      (encode [Pattern.number n, .operation op, .operation (.stack .drop)]).length = .ok () :=
    checkScriptSize_encode context.version (Nat.le_of_ble_eq_true rfl)
  have hroom := State.hasRoom_start stack context (n := 2) (by decide)
  obtain ⟨hpass, hfail⟩ := result_execute_judged hn hsep rfl hroom hstack passes (hop _) []
  by_cases hpasses : passes
  · obtain ⟨a', count, position, offset, hrun⟩ := hpass hpasses
    rw [if_pos hpasses]
    exact result_eval_of_ok hsize hrun rfl
  · rw [if_neg hpasses]
    exact result_eval_of_error hsize (hfail hpasses)

/-- The scripts that demand a lock time, for every number of 32 bits, on every stack that has room
    for it and under all rules that have their opcode. If the transaction meets the lock time they
    leave the stack as it was, and otherwise they fail as a lock time that is not met. -/
theorem result_eval_lockTime (v : InputView) (cache : InputView.Cache) (input : TxIn)
    (hi : v.tx.inputs[v.index]? = some input) (rules : Rules) (stack : Stack) (hstack : stack.length ≤ 999)
    (context : Context) :
    (rules.has .checkLockTime = true → ∀ n : UInt32,
      ((Script.eval rules (encode (Pattern.checkLockTime n)) stack context).converse v.responder cache).result =
        if v.tx.MeetsLockTime input n then .ok stack
        else .error (.machine (some (.good (.operation .checkLockTime))) .unsatisfiedLockTime)) ∧
    (rules.has .checkSequence = true → ∀ n : UInt32,
      ((Script.eval rules (encode (Pattern.checkSequence n)) stack context).converse v.responder cache).result =
        if v.tx.MeetsSequence input n then .ok stack
        else .error (.machine (some (.good (.operation .checkSequence))) .unsatisfiedLockTime)) := by
  have hroom : stack.length < State.maxDepth := Nat.lt_succ_of_le hstack
  have hsize (n : UInt32) : n.toNat < 2 ^ 39 := Nat.lt_trans n.toNat_lt (by decide)
  constructor
  · intro hrule n
    exact result_eval_judged (hsize n) (by decide) hroom _ fun _ _ hs => result_evalLockTime hi hrule hs
  · intro hrule n
    exact result_eval_judged (hsize n) (by decide) hroom _ fun _ _ hs => result_evalSequence hi hrule hs

/-- A transaction that is locked to block 500000, with an input that waits for 16 blocks. -/
theorem result_eval_lockTime_blocks :
    let tx : Transaction := ⟨2, [⟨⟨Block.zero 32, 0⟩, [], 16, []⟩], [], 500000⟩
    let v : InputView := ⟨tx, 0, 0, ⟨Block.zero 32, Block.zero 32, Block.zero 32, none⟩⟩
    let rules := Rules.ofList [.checkLockTime, .checkSequence, .minimalData]
    let result (ops : List Opcode) :=
      ((Script.eval rules (encode ops) [[7]] (Context.fresh .witnessV0)).converse v.responder []).result
    let late (op : Operation) : Except ScriptError Stack :=
      .error (.machine (some (.good (.operation op))) .unsatisfiedLockTime)
    result (Pattern.checkLockTime 500000) = .ok [[7]] ∧
      result (Pattern.checkLockTime 500001) = late .checkLockTime ∧
      result (Pattern.checkLockTime 0xffffffff) = late .checkLockTime ∧
      result (Pattern.checkSequence 16) = .ok [[7]] ∧
      result (Pattern.checkSequence 17) = late .checkSequence ∧
      result (Pattern.checkSequence 0xffffffff) = .ok [[7]] := by
  intro tx v rules result late
  obtain ⟨hlock, hsequence⟩ :=
    result_eval_lockTime v [] ⟨⟨Block.zero 32, 0⟩, [], 16, []⟩ rfl rules [[7]] (by decide) (Context.fresh .witnessV0)
  have hlock := hlock (by decide)
  have hsequence := hsequence (by decide)
  refine ⟨?_, ?_, ?_, ?_, ?_, ?_⟩
  · exact (hlock 500000).trans (if_pos (by decide))
  · exact (hlock 500001).trans (if_neg (by decide))
  · exact (hlock 0xffffffff).trans (if_neg (by decide))
  · exact (hsequence 16).trans (if_pos (by decide))
  · exact (hsequence 17).trans (if_neg (by decide))
  · exact (hsequence 0xffffffff).trans (if_pos (by decide))

end Script

end SpendScript

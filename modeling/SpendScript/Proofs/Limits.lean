/-
  SpendScript.Proofs.Limits — what bounds every state of a run.

  From a stack of items that pushes could have made, no item ever gets longer than a push
  may be: what operations make are numbers, hashes and truth values (`Operation.sized`).
  The number of items is checked behind every item but those that fail where they are
  reached; these pass only inside a conditional, and then an item before them was checked
  (`State.Bounded`, `bounded_of_step`). Operations are counted one by one, and with each
  multisignature check as many more as it takes keys (`opCount_of_step`).
  - `bounded_of_trace` / `opCount_of_trace`: the same of every run, step after step.
  - `Script.offset_le`: a run is never behind the end of its script.
  - `Script.limits_of_run`: all limits, in each state that some items of a script lead to.
-/

import SpendScript.Proofs.Machine
import SpendScript.Proofs.Reading
import SpendScript.Proofs.Trace

namespace SpendScript

/-! ## Sizes of numbers -/

namespace Number

theorem encode_length_le {n : Int} {k : Nat} (h : n.natAbs < 2 ^ (8 * k - 1)) : (encode n).length ≤ k := by
  unfold encode
  split
  · exact Nat.zero_le k
  · rename_i hn
    have hlog : n.natAbs.log2 < 8 * k - 1 := (Nat.log2_lt (by omega)).mpr h
    rw [leBytes_length]
    unfold width
    omega

/-- A number that fits into five bytes is no longer than an item may be. -/
theorem encode_length_le_maxData {n : Int} (h : n.natAbs < 2 ^ 39) : (encode n).length ≤ Push.maxData :=
  Nat.le_trans (encode_length_le (k := 5) h) (by decide)

theorem ofBool_length_le (b : Bool) : (ofBool b).length ≤ Push.maxData := by
  cases b <;> decide

theorem natAbs_value_lt (b : Bytes) : (value b).natAbs < 256 ^ b.length := by
  have hlt := leNat_lt b
  unfold value
  split
  · exact Nat.pow_pos (by decide)
  · dsimp only
    have hsign := Nat.sub_le (leNat b) (2 ^ (8 * b.length - 1))
    split <;> omega

/-- Operands of arithmetic have four bytes at most. -/
theorem natAbs_operand_lt {minimal : Bool} {x : Bytes} {n : Int}
    (h : Stack.number minimal operandSize x = .ok n) : n.natAbs < 2 ^ 32 := by
  obtain ⟨rfl, hx⟩ := Stack.number_eq_ok h
  calc (value x).natAbs < 256 ^ x.length := natAbs_value_lt x
    _ ≤ 256 ^ 4 := Nat.pow_le_pow_right (by decide) hx
    _ = 2 ^ 32 := by decide

end Number

theorem UnaryOp.apply_length_le (op : UnaryOp) {x : Int} (hx : x.natAbs < 2 ^ 32) :
    (op.apply x).length ≤ Push.maxData := by
  cases op with
  | not | notEqual0 => exact Number.ofBool_length_le _
  | add1 | sub1 | negate | abs => exact Number.encode_length_le_maxData (by omega)

theorem BinaryOp.apply_length_le (op : BinaryOp) {x y : Int} (hx : x.natAbs < 2 ^ 32) (hy : y.natAbs < 2 ^ 32) :
    (op.apply x y).length ≤ Push.maxData := by
  cases op with
  | add | sub | min | max => exact Number.encode_length_le_maxData (by omega)
  | _ => exact Number.ofBool_length_le _

/-! ## Sizes of items -/

namespace Stack

/-- No item is longer than a push may be. -/
def Sized (stack : Stack) : Prop := ∀ x ∈ stack, x.length ≤ Push.maxData

variable {stack stack' : Stack} {x : Bytes} {i : Nat} {minimal : Bool}

theorem sized_cons : Sized (x :: stack) ↔ x.length ≤ Push.maxData ∧ Sized stack := List.forall_mem_cons

theorem Sized.of_sublist (h : Sized stack) (hs : stack'.Sublist stack) : Sized stack' :=
  fun x hx => h x (hs.subset hx)

theorem Sized.get (h : Sized stack) (hx : stack.get i = .ok x) : x.length ≤ Push.maxData :=
  h x (List.mem_of_getElem? (get_eq_ok.mp hx))

theorem Sized.pop (h : Sized stack) (hp : stack.pop = .ok (x, stack')) :
    x.length ≤ Push.maxData ∧ Sized stack' := by
  rw [pop_eq_ok.mp hp] at h
  exact sized_cons.mp h

theorem Sized.copyToTop (h : Sized stack) (hs : stack.copyToTop i = .ok stack') : Sized stack' := by
  obtain ⟨x, hx, hs⟩ := bind_eq_ok.mp hs
  cases hs
  exact sized_cons.mpr ⟨h.get hx, h⟩

theorem Sized.moveToTop (h : Sized stack) (hs : stack.moveToTop i = .ok stack') : Sized stack' := by
  obtain ⟨x, hx, hs⟩ := bind_eq_ok.mp hs
  cases hs
  exact sized_cons.mpr ⟨h.get hx, h.of_sublist (List.eraseIdx_sublist stack i)⟩

theorem Sized.remove (h : Sized stack) (hs : stack.remove i = .ok stack') : Sized stack' := by
  obtain ⟨x, -, hs⟩ := bind_eq_ok.mp hs
  cases hs
  exact h.of_sublist (List.eraseIdx_sublist stack i)

theorem Sized.tuck (h : Sized stack) (hs : stack.tuck = .ok stack') : Sized stack' := by
  obtain ⟨x, hx, hs⟩ := bind_eq_ok.mp hs
  obtain ⟨y, hy, hs⟩ := bind_eq_ok.mp hs
  cases hs
  have hrest : Sized (x :: stack.drop 2) := sized_cons.mpr ⟨h.get hx, h.of_sublist (List.drop_sublist 2 stack)⟩
  exact sized_cons.mpr ⟨h.get hx, sized_cons.mpr ⟨h.get hy, hrest⟩⟩

theorem Sized.popNumber {n : Int} (h : Sized stack) (hs : stack.popNumber minimal = .ok (n, stack')) :
    n.natAbs < 2 ^ 32 ∧ Sized stack' := by
  obtain ⟨x, rfl, hn⟩ := popNumber_eq_ok hs
  exact ⟨Number.natAbs_operand_lt hn, (sized_cons.mp h).2⟩

theorem Sized.popPosition {n : Nat} (h : Sized stack) (hs : stack.popPosition minimal = .ok (n, stack')) :
    Sized stack' := by
  obtain ⟨_, -, hs⟩ := bind_eq_ok.mp hs
  obtain ⟨⟨m, rest⟩, hm, hs⟩ := bind_eq_ok.mp hs
  dsimp only at hs
  split at hs
  · cases hs
  · cases hs
    exact (h.popNumber hm).2

theorem Sized.popPair {x y : Int} (h : Sized stack) (hs : stack.popPair minimal = .ok (x, y, stack')) :
    x.natAbs < 2 ^ 32 ∧ y.natAbs < 2 ^ 32 ∧ Sized stack' := by
  obtain ⟨⟨b, below⟩, hb, hs⟩ := bind_eq_ok.mp hs
  obtain ⟨⟨a, rest⟩, ha, hs⟩ := bind_eq_ok.mp hs
  obtain ⟨y', hy, hs⟩ := bind_eq_ok.mp hs
  obtain ⟨x', hx, hs⟩ := bind_eq_ok.mp hs
  cases hs
  exact ⟨Number.natAbs_operand_lt hx, Number.natAbs_operand_lt hy, ((h.pop hb).2.pop ha).2⟩

theorem Sized.unary {op : UnaryOp} (h : Sized stack) (hs : stack.unary minimal op = .ok stack') : Sized stack' := by
  obtain ⟨⟨x, rest⟩, hx, hs⟩ := bind_eq_ok.mp hs
  cases hs
  obtain ⟨hx, hrest⟩ := h.popNumber hx
  exact sized_cons.mpr ⟨op.apply_length_le hx, hrest⟩

theorem Sized.binary {op : BinaryOp} (h : Sized stack) (hs : stack.binary minimal op = .ok stack') :
    Sized stack' := by
  obtain ⟨⟨x, y, rest⟩, hxy, hs⟩ := bind_eq_ok.mp hs
  cases hs
  obtain ⟨hx, hy, hrest⟩ := h.popPair hxy
  exact sized_cons.mpr ⟨op.apply_length_le hx hy, hrest⟩

theorem Sized.numEqualVerify (h : Sized stack) (hs : stack.numEqualVerify minimal = .ok stack') :
    Sized stack' := by
  obtain ⟨⟨x, y, rest⟩, hxy, hs⟩ := bind_eq_ok.mp hs
  obtain ⟨_, -, hs⟩ := bind_eq_ok.mp hs
  cases hs
  exact (h.popPair hxy).2.2

theorem Sized.within (h : Sized stack) (hs : stack.within minimal = .ok stack') : Sized stack' := by
  obtain ⟨_, -, hs⟩ := bind_eq_ok.mp hs
  obtain ⟨_, -, hs⟩ := bind_eq_ok.mp hs
  obtain ⟨_, -, hs⟩ := bind_eq_ok.mp hs
  obtain ⟨_, -, hs⟩ := bind_eq_ok.mp hs
  obtain ⟨_, -, hs⟩ := bind_eq_ok.mp hs
  obtain ⟨_, -, hs⟩ := bind_eq_ok.mp hs
  obtain ⟨_, -, hs⟩ := bind_eq_ok.mp hs
  cases hs
  exact sized_cons.mpr ⟨Number.ofBool_length_le _, h.of_sublist (List.drop_sublist 3 stack)⟩

theorem Sized.hash {op : HashOp} (h : Sized stack) (hs : stack.hash op = .ok stack') : Sized stack' := by
  obtain ⟨⟨x, rest⟩, hx, hs⟩ := bind_eq_ok.mp hs
  cases hs
  refine sized_cons.mpr ⟨?_, (h.pop hx).2⟩
  cases op with
  | ripemd160 => exact Nat.le_trans (Nat.le_of_eq (Hash.ripemd160 x).property) (by decide)
  | sha1 => exact Nat.le_trans (Nat.le_of_eq (Hash.sha1 x).property) (by decide)
  | sha256 => exact Nat.le_trans (Nat.le_of_eq (Hash.sha256 x).property) (by decide)
  | hash160 => exact Nat.le_trans (Nat.le_of_eq (Hash.hash160 x).property) (by decide)
  | hash256 => exact Nat.le_trans (Nat.le_of_eq (Hash.hash256 x).property) (by decide)

theorem Sized.equal (h : Sized stack) (hs : stack.equal = .ok stack') : Sized stack' := by
  obtain ⟨⟨y, below⟩, hy, hs⟩ := bind_eq_ok.mp hs
  obtain ⟨⟨x, rest⟩, hx, hs⟩ := bind_eq_ok.mp hs
  cases hs
  exact sized_cons.mpr ⟨Number.ofBool_length_le _, ((h.pop hy).2.pop hx).2⟩

theorem Sized.equalVerify (h : Sized stack) (hs : stack.equalVerify = .ok stack') : Sized stack' := by
  obtain ⟨⟨y, below⟩, hy, hs⟩ := bind_eq_ok.mp hs
  obtain ⟨⟨x, rest⟩, hx, hs⟩ := bind_eq_ok.mp hs
  obtain ⟨_, -, hs⟩ := bind_eq_ok.mp hs
  cases hs
  exact ((h.pop hy).2.pop hx).2

theorem Sized.verify (h : Sized stack) (hs : stack.verify = .ok stack') : Sized stack' := by
  obtain ⟨⟨x, rest⟩, hx, hs⟩ := bind_eq_ok.mp hs
  obtain ⟨_, -, hs⟩ := bind_eq_ok.mp hs
  cases hs
  exact (h.pop hx).2

end Stack

open Stack in
/-- The depth of the stack is a number too, so it matters how deep it is. -/
theorem StackOp.sized {op : StackOp} {minimal : Bool} {main alt main' alt' : Stack}
    (h : op.apply minimal main alt = .ok (main', alt')) (hd : main'.length ≤ State.maxDepth)
    (hm : Sized main) (ha : Sized alt) : Sized main' ∧ Sized alt' := by
  cases op with
  | toAlt =>
    obtain ⟨⟨x, rest⟩, hx, h⟩ := bind_eq_ok.mp h
    cases h
    obtain ⟨hx, hrest⟩ := hm.pop hx
    exact ⟨hrest, sized_cons.mpr ⟨hx, ha⟩⟩
  | fromAlt =>
    obtain ⟨⟨x, rest⟩, hx, h⟩ := bind_eq_ok.mp h
    cases h
    obtain ⟨hx, hrest⟩ := ha.pop hx
    exact ⟨sized_cons.mpr ⟨hx, hm⟩, hrest⟩
  | drop2 =>
    obtain ⟨⟨x, below⟩, hx, h⟩ := bind_eq_ok.mp h
    obtain ⟨⟨y, rest⟩, hy, h⟩ := bind_eq_ok.mp h
    cases h
    exact ⟨((hm.pop hx).2.pop hy).2, ha⟩
  | dup2 | over2 =>
    obtain ⟨s₁, h₁, h⟩ := bind_eq_ok.mp h
    obtain ⟨s₂, h₂, h⟩ := bind_eq_ok.mp h
    cases h
    exact ⟨(hm.copyToTop h₁).copyToTop h₂, ha⟩
  | dup3 =>
    obtain ⟨s₁, h₁, h⟩ := bind_eq_ok.mp h
    obtain ⟨s₂, h₂, h⟩ := bind_eq_ok.mp h
    obtain ⟨s₃, h₃, h⟩ := bind_eq_ok.mp h
    cases h
    exact ⟨((hm.copyToTop h₁).copyToTop h₂).copyToTop h₃, ha⟩
  | rot2 | swap2 =>
    obtain ⟨s₁, h₁, h⟩ := bind_eq_ok.mp h
    obtain ⟨s₂, h₂, h⟩ := bind_eq_ok.mp h
    cases h
    exact ⟨(hm.moveToTop h₁).moveToTop h₂, ha⟩
  | ifDup =>
    obtain ⟨x, hx, h⟩ := bind_eq_ok.mp h
    cases h
    refine ⟨?_, ha⟩
    split
    · exact sized_cons.mpr ⟨hm.get hx, hm⟩
    · exact hm
  | depth =>
    cases h
    have hlen : main.length < 1000 := hd
    exact ⟨sized_cons.mpr ⟨Number.encode_length_le_maxData (by omega), hm⟩, ha⟩
  | drop =>
    obtain ⟨⟨x, rest⟩, hx, h⟩ := bind_eq_ok.mp h
    cases h
    exact ⟨(hm.pop hx).2, ha⟩
  | dup | «over» =>
    obtain ⟨s₁, h₁, h⟩ := bind_eq_ok.mp h
    cases h
    exact ⟨hm.copyToTop h₁, ha⟩
  | nip =>
    obtain ⟨s₁, h₁, h⟩ := bind_eq_ok.mp h
    cases h
    exact ⟨hm.remove h₁, ha⟩
  | pick =>
    obtain ⟨⟨n, rest⟩, hn, h⟩ := bind_eq_ok.mp h
    obtain ⟨s₁, h₁, h⟩ := bind_eq_ok.mp h
    cases h
    exact ⟨(hm.popPosition hn).copyToTop h₁, ha⟩
  | roll =>
    obtain ⟨⟨n, rest⟩, hn, h⟩ := bind_eq_ok.mp h
    obtain ⟨s₁, h₁, h⟩ := bind_eq_ok.mp h
    cases h
    exact ⟨(hm.popPosition hn).moveToTop h₁, ha⟩
  | rot | swap =>
    obtain ⟨s₁, h₁, h⟩ := bind_eq_ok.mp h
    cases h
    exact ⟨hm.moveToTop h₁, ha⟩
  | tuck =>
    obtain ⟨s₁, h₁, h⟩ := bind_eq_ok.mp h
    cases h
    exact ⟨hm.tuck h₁, ha⟩
  | size =>
    obtain ⟨x, hx, h⟩ := bind_eq_ok.mp h
    cases h
    have hlen : x.length ≤ 520 := hm.get hx
    exact ⟨sized_cons.mpr ⟨Number.encode_length_le_maxData (by omega), hm⟩, ha⟩

/-! ## Operations -/

/-- Neither stack holds an item that is longer than a push may be. -/
structure State.Sized (s : State) : Prop where
  stack : s.stack.Sized
  alt : s.alt.Sized

section Operations

variable {rules : Rules} {script : Bytes} {s s' : State}

theorem State.Sized.of_countOps {n : Nat} (h : s.Sized) (hc : s.countOps n = .ok s') : s'.Sized := by
  rcases State.countOps_eq_ok hc with rfl | ⟨-, rfl⟩
  · exact h
  · exact ⟨h.stack, h.alt⟩

theorem State.Sized.of_onStack {f : Stack → Except MachineError Stack} (h : s.Sized) (hs : s.onStack f = .ok s')
    (hf : ∀ stack', f s.stack = .ok stack' → stack'.Sized) : s'.Sized := by
  obtain ⟨stack, hstack, rfl⟩ := State.onStack_eq_ok hs
  exact ⟨hf stack hstack, h.alt⟩

theorem State.Sized.of_conclude {verify result : Bool} (h : s.Sized) (hc : conclude verify result s = .ok s') :
    s'.Sized := by
  rcases conclude_cases hc with rfl | rfl
  · exact h
  · exact ⟨Stack.sized_cons.mpr ⟨Number.ofBool_length_le _, h.stack⟩, h.alt⟩

theorem State.Sized.of_checkSig {verify : Bool} (h : s.Sized)
    (hs : (evalCheckSig rules script verify s).Yields s') : s'.Sized := by
  obtain ⟨key, sig, rest, good, context, hstack, -, hc⟩ := yields_evalCheckSig hs
  have hrest : Stack.Sized (key :: sig :: rest) := hstack ▸ h.stack
  have hbelow : State.Sized { s with stack := rest, context := context } :=
    ⟨(Stack.sized_cons.mp (Stack.sized_cons.mp hrest).2).2, h.alt⟩
  exact hbelow.of_conclude hc

theorem State.Sized.of_checkMultiSig {verify : Bool} (h : s.Sized)
    (hs : (evalCheckMultiSig rules script verify s).Yields s') : s'.Sized := by
  obtain ⟨m, s₁, good, hm, -, hc⟩ := yields_evalCheckMultiSig hs
  obtain ⟨top, rest, hstack, ⟨k, hk⟩, hcount⟩ := takeMultiSig_counts hm
  have htop : Stack.Sized (top :: rest) := hstack ▸ h.stack
  have hrest : m.rest.Sized := by
    rw [hk]
    exact (Stack.sized_cons.mp htop).2.of_sublist (List.drop_sublist k rest)
  have hbelow : State.Sized { s₁ with stack := m.rest } := ⟨hrest, (h.of_countOps hcount).alt⟩
  exact hbelow.of_conclude hc

/-- What an operation leaves is no longer than an item may be, if it does not leave too many. -/
theorem Operation.sized {op : Operation} (h : (op.eval rules script s).Yields s') (hd : s'.Fits) (hs : s.Sized) :
    s'.Sized := by
  cases op with
  | nop => rw [Dialogue.yields_pure.mp h]; exact hs
  | abort => exact absurd h Dialogue.not_yields_fail
  | stack op =>
    obtain ⟨⟨main, alt⟩, hop, h⟩ := Dialogue.yields_liftM_bind.mp h
    rw [Dialogue.yields_pure.mp h] at hd ⊢
    have hlen : main.length ≤ State.maxDepth := Nat.le_trans (Nat.le_add_right _ _) hd
    obtain ⟨hmain, halt⟩ := StackOp.sized hop hlen hs.stack hs.alt
    exact ⟨hmain, halt⟩
  | verify => exact hs.of_onStack (Dialogue.yields_liftM.mp h) fun _ => hs.stack.verify
  | equal => exact hs.of_onStack (Dialogue.yields_liftM.mp h) fun _ => hs.stack.equal
  | equalVerify => exact hs.of_onStack (Dialogue.yields_liftM.mp h) fun _ => hs.stack.equalVerify
  | unary op => exact hs.of_onStack (Dialogue.yields_liftM.mp h) fun _ => hs.stack.unary
  | binary op => exact hs.of_onStack (Dialogue.yields_liftM.mp h) fun _ => hs.stack.binary
  | numEqualVerify => exact hs.of_onStack (Dialogue.yields_liftM.mp h) fun _ => hs.stack.numEqualVerify
  | within => exact hs.of_onStack (Dialogue.yields_liftM.mp h) fun _ => hs.stack.within
  | hash op => exact hs.of_onStack (Dialogue.yields_liftM.mp h) fun _ => hs.stack.hash
  | codeSeparator =>
    rw [Dialogue.yields_pure.mp h]
    exact ⟨hs.stack, hs.alt⟩
  | checkSig | checkSigVerify => exact hs.of_checkSig h
  | checkMultiSig | checkMultiSigVerify => exact hs.of_checkMultiSig h
  | checkSigAdd =>
    obtain ⟨_, x, _, n, good, context, -, -, -, hn, -, rfl⟩ := yields_evalCheckSigAdd h
    have hlt := Number.natAbs_operand_lt hn
    have hsum : (n + if good = true then 1 else 0).natAbs < 2 ^ 39 := by split <;> omega
    exact ⟨Stack.sized_cons.mpr
      ⟨Number.encode_length_le_maxData hsum, hs.stack.of_sublist (List.drop_sublist 3 s.stack)⟩, hs.alt⟩
  | checkLockTime => rw [yields_evalLockTime h]; exact hs
  | checkSequence => rw [yields_evalSequence h]; exact hs
  | upgradable _ => rw [upgradableNop_eq_ok (Dialogue.yields_liftM.mp h)]; exact hs

/-- Signatures cover a part of what was passed: only a code separator moves its start, to
    where the machine is. -/
theorem Operation.Effect.codeStart_le {op : Operation} (h : op.Effect s s')
    (hs : s.context.codeStart ≤ s.offset) : s'.context.codeStart ≤ s'.offset := by
  cases h with
  | onStacks => exact hs
  | separator => exact Nat.le_refl _
  | keys hc stack =>
    rcases State.countOps_eq_ok hc with rfl | ⟨-, rfl⟩ <;> exact hs

/-- Beside itself, an operation counts only the keys that it takes. -/
theorem Operation.Effect.opCount_eq {op : Operation} (h : op.Effect s s')
    (hl : s.context.version.limited = true) (hc : s.opCount ≤ State.maxOps) :
    s'.opCount = s.opCount + op.keyCount s.stack ∧ s'.opCount ≤ State.maxOps := by
  cases h with
  | onStacks hk => exact ⟨by rw [hk]; rfl, hc⟩
  | separator => exact ⟨rfl, hc⟩
  | keys hkeys stack =>
    obtain ⟨hle, rfl⟩ := (State.countOps_limited hl).mp hkeys
    exact ⟨rfl, hle⟩

end Operations

/-! ## Items -/

/-- Whether an item counts as an operation: its first byte is above that of the last constant. -/
def Item.isCounted (item : Item) : Bool := item.encode.head?.any (0x60 < ·)

/-- Of an item that fails where it is reached, a script tells the byte that it was read from. -/
def Item.Readable (item : Item) : Prop := ∀ b, item = .bad b → b = .reserved ∨ 0x60 < b.byte

theorem Push.not_isCounted (p : Push) : (Item.good (.push p)).isCounted = false := by
  cases p with
  | zero => rfl
  | minusOne => rfl
  | small k =>
    have hall : ∀ k : Fin 16, decide (0x60 < UInt8.ofNat (0x51 + k.val)) = false := by decide
    exact hall k
  | direct data size =>
    show decide (0x60 < UInt8.ofNat data.length) = false
    rw [decide_eq_false_iff_not, UInt8.lt_iff_toNat_lt, UInt8.toNat_ofNat']
    have hsmall : data.length ≤ 75 := size.2
    show ¬ 96 < data.length % 256
    omega
  | data1 | data2 | data4 => rfl

theorem Control.isCounted (c : Control) : (Item.good (.control c)).isCounted = true := by
  cases c <;> rfl

theorem Operation.isCounted (op : Operation) : (Item.good (.operation op)).isCounted = true := by
  show decide (0x60 < op.byte) = true
  rw [decide_eq_true_eq, UInt8.lt_iff_toNat_lt]
  exact op.byte_ge

theorem Bad.isCounted {b : Bad} (hb : b ≠ .reserved) (hr : (Item.bad b).Readable) :
    (Item.bad b).isCounted = true := by
  show decide (0x60 < b.byte) = true
  rw [decide_eq_true_eq]
  exact (hr b rfl).resolve_left hb

theorem readable_of_readByte {b : UInt8} (hb : b.toNat = 0 ∨ 0x4f ≤ b.toNat) {item : Item}
    (h : readByte b = .ok item) : item.Readable := by
  rintro bad rfl
  unfold readByte at h
  split at h
  · cases h
  · split at h
    · cases h
    · cases h
    · cases h
    · rename_i hp _ _
      cases h
      rw [Bad.byte_ofByte]
      unfold Push.ofByte? at hp
      split at hp
      · cases hp
      · rename_i h0
        split at hp
        · cases hp
        · rename_i h1
          split at hp
          · cases hp
          · rename_i h2
            rw [beq_iff_eq, ← UInt8.toNat_inj] at h0 h1
            have h0 : b.toNat ≠ 0 := h0
            have h1 : b.toNat ≠ 0x4f := h1
            rw [UInt8.lt_iff_toNat_lt]
            by_cases he : b.toNat = 0x50
            · have hreserved : b = 0x50 := UInt8.toNat_inj.mp he
              rw [hreserved]
              exact Or.inl rfl
            · right
              show 0x60 < b.toNat
              omega

theorem readable_of_readItem {b : UInt8} {s : Bytes} {item : Item} (h : (readItem b s).1.result = .ok item) :
    item.Readable := by
  have hdata {lead : Bytes} {wrap : Bytes → Option Push} {n : Nat} {s : Bytes}
      (h : (readData lead wrap n s).1.result = .ok item) : item.Readable := by
    unfold readData at h
    dsimp only at h
    split at h
    · dsimp only at h
      split at h
      · split at h
        · cases h
          intro b hb
          cases hb
        · cases h
      · cases h
    · cases h
  have hsized {lead : UInt8} {wrap : Bytes → Option Push} {w : Nat} {s : Bytes}
      (h : (readSized lead wrap w s).1.result = .ok item) : item.Readable := by
    unfold readSized at h
    dsimp only at h
    split at h
    · exact hdata h
    · cases h
  rcases readItem_cases b with hb | ⟨wrap, w, hb⟩ | ⟨hbyte, hb⟩
  · rw [hb] at h
    exact hdata h
  · rw [hb] at h
    exact hsized h
  · rw [hb] at h
    exact readable_of_readByte hbyte h

theorem Script.readable_of_mem {s : Bytes} {item : Item} (h : .ok item ∈ Script.items s) : item.Readable := by
  obtain ⟨p, hp, hi⟩ := List.mem_map.mp h
  fun_induction Script.pieces s with
  | case1 => cases hp
  | case2 b s next ih =>
    rcases List.mem_cons.mp hp with rfl | hp
    · exact readable_of_readItem hi
    · exact ih (List.mem_map.mpr ⟨p, hp, hi⟩) hp

/-! ## One step -/

/-- The keys that are counted at a stop. -/
def Stop.keyCount (x : Stop) : Nat :=
  match x.item with
  | .good (.operation op) => if x.before.executing then op.keyCount x.before.stack else 0
  | _ => 0

section Step

variable {rules : Rules} {script : Bytes} {s s' : State} {item : Item}

/-- What every state of a run has in common. The number of items is known as soon as a
    conditional is open. -/
structure State.Bounded (s : State) : Prop where
  fits : s.branches ≠ [] → s.Fits
  sized : s.Sized
  codeStart : s.context.codeStart ≤ s.offset

theorem State.Bounded.of_countOps {n : Nat} (h : s.Bounded) (hc : s.countOps n = .ok s') : s'.Bounded := by
  rcases State.countOps_eq_ok hc with rfl | ⟨-, rfl⟩
  · exact h
  · exact ⟨h.fits, ⟨h.sized.stack, h.sized.alt⟩, h.codeStart⟩

theorem State.Bounded.reach (h : s.Bounded) (index size : Nat) : (s.reach index size).Bounded :=
  ⟨h.fits, ⟨h.sized.stack, h.sized.alt⟩, Nat.le_trans h.codeStart (Nat.le_add_right _ _)⟩

theorem State.branches_ne_nil_of_passed (he : s.executing = false) : s.branches ≠ [] := by
  intro hb
  rw [State.executing_of_closed hb] at he
  cases he

/-- A conditional takes one item off the stack, or none. -/
theorem Control.stack_suffix {c : Control} (h : c.eval rules s = .ok s') : s'.stack <:+ s.stack := by
  have hopen {flip : Bool} (h : openBranch rules s flip = .ok s') : s'.stack <:+ s.stack := by
    unfold openBranch at h
    split at h
    · split at h
      · cases h
      · rename_i x rest hs
        obtain ⟨_, -, h⟩ := bind_eq_ok.mp h
        cases h
        rw [hs]
        exact List.suffix_cons x rest
    · cases h
      exact List.suffix_refl _
  cases c with
  | opIf => exact hopen h
  | opNotIf => exact hopen h
  | opElse | opEndIf =>
    simp only [Control.eval] at h
    split at h
    · cases h
    · cases h
      exact List.suffix_refl _

/-- A step keeps the bounds, and leaves no more items than there may be. -/
theorem bounded_of_step (h : Item.Step rules script s item s') (hb : s.Bounded) : s'.Bounded ∧ s'.Fits := by
  cases h with
  | push p he hp hd =>
    have hsized : State.Sized { s with stack := p.value :: s.stack } :=
      ⟨Stack.sized_cons.mpr ⟨p.value_length_le, hb.sized.stack⟩, hb.sized.alt⟩
    exact ⟨⟨fun _ => hd, hsized, hb.codeStart⟩, hd⟩
  | passPush p he hd => exact ⟨hb, hd⟩
  | control c hc h hd =>
    have hb₁ := hb.of_countOps hc
    have hstack := Control.stack_suffix h
    obtain ⟨stack, branches, rfl⟩ := Control.eval_eq_ok h
    exact ⟨⟨fun _ => hd, ⟨hb₁.sized.stack.of_sublist hstack.sublist, hb₁.sized.alt⟩, hb₁.codeStart⟩, hd⟩
  | operation op hc he h hd =>
    have hb₁ := hb.of_countOps hc
    have hstart := (Operation.effect_of_yields h).codeStart_le hb₁.codeStart
    exact ⟨⟨fun _ => hd, Operation.sized h hd hb₁.sized, hstart⟩, hd⟩
  | passOperation op hc he hd => exact ⟨hb.of_countOps hc, hd⟩
  | passReserved he => exact ⟨hb, hb.fits (State.branches_ne_nil_of_passed he)⟩
  | passBad b hn hc hr he =>
    -- nothing is checked here, but the conditional around it was
    have hb' := hb.of_countOps hc
    refine ⟨hb', hb'.fits (State.branches_ne_nil_of_passed ?_)⟩
    rw [(State.frame_countOps hc).executing, he]

theorem opCount_of_step (h : Item.Step rules script s item s') (hl : s.context.version.limited = true)
    (hc : s.opCount ≤ State.maxOps) (hr : item.Readable) :
    s'.opCount = s.opCount + (if item.isCounted then 1 else 0) + (⟨item, s⟩ : Stop).keyCount ∧
      s'.opCount ≤ State.maxOps := by
  cases h with
  | push p he hp hd => rw [p.not_isCounted]; exact ⟨rfl, hc⟩
  | passPush p he hd => rw [p.not_isCounted]; exact ⟨rfl, hc⟩
  | control c h₁ h hd =>
    obtain ⟨hle, rfl⟩ := (State.countOps_limited hl).mp h₁
    obtain ⟨stack, branches, rfl⟩ := Control.eval_eq_ok h
    rw [c.isCounted]
    exact ⟨rfl, hle⟩
  | operation op h₁ he h hd =>
    obtain ⟨hle, rfl⟩ := (State.countOps_limited hl).mp h₁
    have hkeys : (⟨.good (.operation op), s⟩ : Stop).keyCount = op.keyCount s.stack := if_pos he
    rw [op.isCounted, hkeys]
    exact (Operation.effect_of_yields h).opCount_eq hl hle
  | passOperation op h₁ he hd =>
    obtain ⟨hle, rfl⟩ := (State.countOps_limited hl).mp h₁
    have hkeys : (⟨.good (.operation op), s⟩ : Stop).keyCount = 0 := if_neg (by simp [he])
    rw [op.isCounted, hkeys]
    exact ⟨rfl, hle⟩
  | passReserved he => exact ⟨rfl, hc⟩
  | passBad b hn h₁ _ he =>
    obtain ⟨hle, rfl⟩ := (State.countOps_limited hl).mp h₁
    rw [Bad.isCounted hn hr]
    exact ⟨rfl, hle⟩

end Step

/-! ## Runs -/

section Run

variable {rules : Rules} {script : Bytes} {xs : List (Except ScriptError Item)} {stops : List Stop}

theorem bounded_of_trace {index : Nat} {s t : State} (h : (trace rules script index s xs).Yields (stops, t))
    (hb : s.Bounded) : t.Bounded ∧ (stops ≠ [] → t.Fits) := by
  induction xs generalizing index s stops with
  | nil =>
    obtain ⟨rfl, rfl⟩ := yields_trace_nil h
    exact ⟨hb, fun hne => absurd rfl hne⟩
  | cons x xs ih =>
    obtain ⟨item, s', rest, -, hs, hrest, rfl⟩ := yields_trace_cons h
    obtain ⟨hb', hfits⟩ := bounded_of_step (Item.step_of_yields hs) (hb.reach index item.size)
    obtain ⟨ht, hmore⟩ := ih hrest hb'
    refine ⟨ht, fun _ => ?_⟩
    cases rest with
    | nil =>
      -- the run ends behind this item
      cases xs with
      | nil =>
        obtain ⟨-, rfl⟩ := yields_trace_nil hrest
        exact hfits
      | cons x xs => exact absurd (trace_items hrest) (by simp)
    | cons y rest => exact hmore (by simp)

theorem offset_of_trace {index : Nat} {s t : State} (h : (trace rules script index s xs).Yields (stops, t)) :
    t.offset = s.offset + (stops.map fun x => x.item.size).sum := by
  induction xs generalizing index s stops with
  | nil =>
    obtain ⟨rfl, rfl⟩ := yields_trace_nil h
    rfl
  | cons x xs ih =>
    obtain ⟨item, s', rest, -, hs, hrest, rfl⟩ := yields_trace_cons h
    have hoffset := (Item.step_of_yields hs).keeps.1
    rw [ih hrest, hoffset, List.map_cons, List.sum_cons, ← Nat.add_assoc]
    rfl

theorem version_of_trace {index : Nat} {s t : State} (h : (trace rules script index s xs).Yields (stops, t)) :
    t.context.version = s.context.version := by
  induction xs generalizing index s stops with
  | nil =>
    obtain ⟨-, rfl⟩ := yields_trace_nil h
    rfl
  | cons x xs ih =>
    obtain ⟨item, s', rest, -, hs, hrest, rfl⟩ := yields_trace_cons h
    rw [ih hrest, (Item.step_of_yields hs).keeps.2]
    rfl

theorem opCount_of_trace {index : Nat} {s t : State} (h : (trace rules script index s xs).Yields (stops, t))
    (hl : s.context.version.limited = true) (hc : s.opCount ≤ State.maxOps)
    (hr : ∀ x ∈ stops, x.item.Readable) :
    t.opCount = s.opCount + stops.countP (·.item.isCounted) + (stops.map Stop.keyCount).sum ∧
      t.opCount ≤ State.maxOps := by
  induction xs generalizing index s stops with
  | nil =>
    obtain ⟨rfl, rfl⟩ := yields_trace_nil h
    exact ⟨rfl, hc⟩
  | cons x xs ih =>
    obtain ⟨item, s', rest, -, hs, hrest, rfl⟩ := yields_trace_cons h
    rw [List.forall_mem_cons] at hr
    have hstep := Item.step_of_yields hs
    have hl' : s'.context.version.limited = true := by rw [hstep.keeps.2]; exact hl
    obtain ⟨hcount, hle⟩ := opCount_of_step hstep hl hc hr.1
    obtain ⟨ht, hlast⟩ := ih hrest hl' hle hr.2
    refine ⟨?_, hlast⟩
    have hstart : (s.reach index item.size).opCount = s.opCount := rfl
    rw [ht, hcount, hstart, List.countP_cons, List.map_cons, List.sum_cons]
    dsimp only
    omega

end Run

/-! ## Scripts -/

namespace Script

/-- Items that a script starts with take the bytes that they were read from. -/
theorem size_of_items {s : Bytes} {l : List Item} (h : l.map .ok <+: items s) :
    (l.map Item.size).sum = (((pieces s).take l.length).flatMap Piece.span).length := by
  have hl : ((pieces s).take l.length).map Piece.result = l.map .ok := by
    rw [List.map_take, List.prefix_iff_eq_take.mp h, List.length_map]
    rfl
  have hbytes := flatMap_encode_of_results (fun p hp item => span_of_mem_pieces (List.take_subset _ _ hp)) hl
  rw [sum_size, hbytes]

theorem offset_le {s : Bytes} {l : List Item} (h : l.map .ok <+: items s) : (l.map Item.size).sum ≤ s.length := by
  have hspans : ((pieces s).take l.length).flatMap Piece.span <+: s := by
    refine ⟨((pieces s).drop l.length).flatMap Piece.span, ?_⟩
    rw [← List.flatMap_append, List.take_append_drop, pieces_spans]
  rw [size_of_items h]
  exact hspans.length_le

theorem bounded_start {stack : Stack} {context : Context} (hs : ∀ x ∈ stack, x.length ≤ 520)
    (hc : context.codeStart = 0) : (State.start stack context).Bounded :=
  ⟨fun hn => absurd rfl hn, ⟨hs, fun _ hx => by cases hx⟩, Nat.le_of_eq hc⟩

/-- Whoever answers, a state that the first items of a script lead to is within all limits.
    `stops` are the items up to there, with the machine in front of each. -/
theorem limits_of_run {σ : Type} (r : Responder σ) (w : σ) (rules : Rules) (s : Bytes) (stack : Stack)
    (context : Context) (hstack : ∀ x ∈ stack, x.length ≤ 520) (hfresh : context.codeStart = 0)
    (xs : List (Except ParseError Item)) (hxs : xs <+: items s) (hne : xs ≠ []) (t : State)
    (h : ((execute rules s 0 (State.start stack context) (xs.map (·.mapError ScriptError.parse))).converse
      r w).result = .ok t) :
    ∃ stops : List Stop,
      ((SpendScript.trace rules s 0 (State.start stack context)
        (xs.map (·.mapError ScriptError.parse))).converse r w).result = .ok (stops, t) ∧
      xs = stops.map (fun x => .ok x.item) ∧
      t.stack.length + t.alt.length ≤ 1000 ∧
      (∀ x ∈ t.stack, x.length ≤ 520) ∧ (∀ x ∈ t.alt, x.length ≤ 520) ∧
      t.context.codeStart ≤ t.offset ∧ t.offset ≤ s.length ∧
      (context.version = .base ∨ context.version = .witnessV0 →
        t.opCount ≤ 201 ∧
        t.opCount = stops.countP (·.item.isCounted) + (stops.map Stop.keyCount).sum) := by
  obtain ⟨stops, htrace⟩ := converse_execute_eq_ok h
  have hyields := Dialogue.yields_of_converse htrace
  have hitems : xs = (stops.map Stop.item).map .ok := by
    refine eq_map_ok_of_mapError ?_
    rw [trace_items hyields, List.map_map]
    rfl
  have hstops : stops ≠ [] := by
    rintro rfl
    exact hne hitems
  have hread : ∀ x ∈ stops, x.item.Readable := by
    intro x hx
    refine readable_of_mem (hxs.subset ?_)
    rw [hitems]
    exact List.mem_map_of_mem (List.mem_map_of_mem hx)
  obtain ⟨hb, hfits⟩ := bounded_of_trace hyields (bounded_start hstack hfresh)
  have hoffset := offset_of_trace hyields
  have hend := offset_le (hitems ▸ hxs)
  refine ⟨stops, htrace, by rw [hitems, List.map_map]; rfl, hfits hstops, hb.sized.stack, hb.sized.alt,
    hb.codeStart, ?_, fun hv => ?_⟩
  · have hsizes : stops.map (fun x => x.item.size) = (stops.map Stop.item).map Item.size := by
      rw [List.map_map]
      rfl
    rw [hoffset, hsizes]
    exact Nat.le_trans (Nat.le_of_eq (Nat.zero_add _)) hend
  · have hl : (State.start stack context).context.version.limited = true := by
      show context.version.limited = true
      rcases hv with hv | hv <;> rw [hv] <;> rfl
    obtain ⟨hcount, hle⟩ := opCount_of_trace hyields hl (Nat.zero_le _) hread
    refine ⟨hle, hcount.trans ?_⟩
    rw [show (State.start stack context).opCount = 0 from rfl, Nat.zero_add]

/-- A check of no signature against one key counts twice: itself, and the key. -/
theorem limits_of_run_multiSig :
    ∃ (t : State) (stops : List Stop),
      ((execute (Rules.ofBits 0) [0x00, 0x00, 0x51, 0x51, 0xae] 0 (State.start [] (Context.fresh .base))
        ((items [0x00, 0x00, 0x51, 0x51, 0xae]).map (·.mapError ScriptError.parse))).converse
          Oracle.deny.responder ()).result = .ok t ∧
      t.opCount = 2 ∧
      t.opCount = stops.countP (·.item.isCounted) + (stops.map Stop.keyCount).sum := by
  have h : ∃ t : State, ((execute (Rules.ofBits 0) [0x00, 0x00, 0x51, 0x51, 0xae] 0
      (State.start [] (Context.fresh .base))
      ((items [0x00, 0x00, 0x51, 0x51, 0xae]).map (·.mapError ScriptError.parse))).converse
        Oracle.deny.responder ()).result = .ok t ∧ t.opCount = 2 := ⟨_, by cbv, by cbv⟩
  obtain ⟨t, ht, hcount⟩ := h
  obtain ⟨stops, -, -, -, -, -, -, -, hops⟩ := limits_of_run _ _ _ _ _ _ (by simp) rfl _ (List.prefix_refl _)
    (by cbv; simp) t ht
  exact ⟨t, stops, ht, hcount, (hops (Or.inl rfl)).2⟩

end Script

end SpendScript

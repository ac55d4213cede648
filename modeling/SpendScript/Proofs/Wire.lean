/-
  SpendScript.Proofs.Wire — transactions are read back from their encoding.

  A reader takes a value off the front of a byte string. `Reads r e a` says that `r` takes
  `a` off the bytes `e`, whatever follows them: what is written can then be told from what
  comes after it. The readers are strict, a length is read in its shortest form only.
  - `Reads.inj`: where two encodings of one reader are followed by anything, equal bytes
    mean equal values and equal remainders.
  - `flatMap_inj_of_reads` / `flatMap_eq_iff_of_reads`: lists of such encodings without a count
    are told apart too.
  - `Transaction.reads_encode`: a transaction without its witnesses is read back, so its
    counts and lengths are right.
-/

import Mathlib
import SpendScript.Transaction

namespace SpendScript

/-- Takes a value off the front of a byte string, and leaves what is behind it. -/
abbrev Reader (α : Type) := StateT Bytes Option α

/-- The reader takes `a` off the bytes `e`, whatever follows them. -/
def Reads {α : Type} (r : Reader α) (e : Bytes) (a : α) : Prop := ∀ rest, r (e ++ rest) = some (a, rest)

namespace Reads

variable {α β : Type} {r : Reader α} {e e' : Bytes} {a a' : α}

theorem pure (a : α) : Reads (Pure.pure a) [] a := fun _ => rfl

theorem bind {f : α → Reader β} {b : β} (ha : Reads r e a) (hb : Reads (f a) e' b) :
    Reads (r >>= f) (e ++ e') b := by
  intro rest
  show (r (e ++ e' ++ rest)).bind (fun p => f p.1 p.2) = some (b, rest)
  rw [List.append_assoc, ha, Option.bind_some]
  exact hb rest

theorem map (f : α → β) (ha : Reads r e a) : Reads (do return f (← r)) e (f a) := by
  have h := ha.bind (f := fun a => Pure.pure (f a)) (pure (f a))
  rw [List.append_nil] at h
  exact h

theorem inj {x y : Bytes} (h : Reads r e a) (h' : Reads r e' a') (heq : e ++ x = e' ++ y) : a = a' ∧ x = y := by
  have hx := h x
  rw [heq, h' y] at hx
  cases hx
  exact ⟨rfl, rfl⟩

end Reads

/-- Encodings that are not empty can be put one behind the other, and told apart. -/
theorem flatMap_inj_of_reads {α : Type} {r : Reader α} {enc : α → Bytes} (hne : ∀ a, enc a ≠ []) {l l' : List α}
    (hl : ∀ a ∈ l, Reads r (enc a) a) (hl' : ∀ a ∈ l', Reads r (enc a) a)
    (h : l.flatMap enc = l'.flatMap enc) : l = l' := by
  induction l generalizing l' with
  | nil =>
    cases l' with
    | nil => rfl
    | cons a' l' => exact absurd (List.append_eq_nil_iff.mp h.symm).1 (hne a')
  | cons a l ih =>
    cases l' with
    | nil => exact absurd (List.append_eq_nil_iff.mp h).1 (hne a)
    | cons a' l' =>
      rw [List.forall_mem_cons] at hl hl'
      obtain ⟨rfl, hrest⟩ := hl.1.inj hl'.1 h
      rw [ih hl.2 hl'.2 hrest]

theorem flatMap_eq_iff_of_reads {α β : Type} {r : Reader β} {enc : β → Bytes} (hne : ∀ b, enc b ≠ []) {f : α → β}
    {l l' : List α} (hl : ∀ a ∈ l, Reads r (enc (f a)) (f a)) (hl' : ∀ a ∈ l', Reads r (enc (f a)) (f a)) :
    (l.flatMap fun a => enc (f a)) = (l'.flatMap fun a => enc (f a)) ↔ l.map f = l'.map f := by
  rw [← List.flatMap_map f enc, ← List.flatMap_map f enc]
  have hmap : ∀ b ∈ l.map f, Reads r (enc b) b := List.forall_mem_map.mpr hl
  have hmap' : ∀ b ∈ l'.map f, Reads r (enc b) b := List.forall_mem_map.mpr hl'
  exact ⟨flatMap_inj_of_reads hne hmap hmap', congrArg (List.flatMap enc)⟩

/-! ## Readers -/

namespace Reader

def block (n : Nat) : Reader (Block n) := fun b =>
  if h : n ≤ b.length then some (⟨b.take n, List.length_take_of_le h⟩, b.drop n) else none

/-- The number in `w` bytes. -/
def nat (w : Nat) : Reader Nat := do return leNat (← block w).val

/-- The number in `w` bytes, unless it is one that has a shorter form. -/
def natFrom (least w : Nat) : Reader Nat := do
  let n ← nat w
  if least ≤ n then return n else failure

def compactSize : Reader Nat := do
  let n ← nat 1
  if n = 0xfd then natFrom 0xfd 2
  else if n = 0xfe then natFrom 0x10000 4
  else if n = 0xff then natFrom 0x100000000 8
  else return n

def u32 : Reader UInt32 := do return UInt32.ofNat (← nat 4)

def u64 : Reader UInt64 := do return UInt64.ofNat (← nat 8)

def sized : Reader Bytes := do
  let n ← compactSize
  return (← block n).val

def times {α : Type} (r : Reader α) : Nat → Reader (List α)
  | 0 => return []
  | n + 1 => do
    let a ← r
    return a :: (← times r n)

/-- As many values as a count in front of them says. -/
def counted {α : Type} (r : Reader α) : Reader (List α) := do
  let n ← compactSize
  times r n

end Reader

namespace Reads

theorem block {n : Nat} (x : Block n) : Reads (Reader.block n) x.val x := by
  obtain ⟨x, rfl⟩ := x
  intro rest
  have h : x.length ≤ (x ++ rest).length := by
    rw [List.length_append]
    exact Nat.le_add_right _ _
  unfold Reader.block
  rw [dif_pos h]
  simp only [List.take_left, List.drop_left]

theorem nat {w n : Nat} (h : n < 256 ^ w) : Reads (Reader.nat w) (leBytes w n) n := by
  have hread := (block ⟨leBytes w n, leBytes_length w n⟩).map fun x => leNat x.val
  dsimp only at hread
  rw [leNat_leBytes, Nat.mod_eq_of_lt h] at hread
  exact hread

theorem natFrom {least w n : Nat} (hl : least ≤ n) (h : n < 256 ^ w) :
    Reads (Reader.natFrom least w) (leBytes w n) n := by
  have hread : Reads (if least ≤ n then return n else failure : Reader Nat) [] n := by
    rw [if_pos hl]
    exact pure n
  rw [← List.append_nil (leBytes w n)]
  exact (nat h).bind hread

theorem compactSize {n : Nat} (h : n < 2 ^ 64) : Reads Reader.compactSize (compactSize n) n := by
  unfold Reader.compactSize SpendScript.compactSize
  split
  · -- one byte, which is none of the three marks
    have hread : Reads (if n = 0xfd then Reader.natFrom 0xfd 2 else if n = 0xfe then Reader.natFrom 0x10000 4
        else if n = 0xff then Reader.natFrom 0x100000000 8 else return n) [] n := by
      rw [if_neg (by omega), if_neg (by omega), if_neg (by omega)]
      exact pure n
    rw [← List.append_nil (leBytes 1 n)]
    exact (nat (by omega)).bind hread
  · split
    · exact (nat (w := 1) (n := 0xfd) (by decide)).bind (natFrom (by omega) (by omega))
    · split
      · exact (nat (w := 1) (n := 0xfe) (by decide)).bind (natFrom (by omega) (by omega))
      · exact (nat (w := 1) (n := 0xff) (by decide)).bind (natFrom (by omega) (by omega))

theorem u32 (x : UInt32) : Reads Reader.u32 (le32 x) x := by
  have hread := (nat (w := 4) (n := x.toNat) x.toNat_lt).map UInt32.ofNat
  rw [UInt32.ofNat_toNat] at hread
  exact hread

theorem u64 (x : UInt64) : Reads Reader.u64 (le64 x) x := by
  have hread := (nat (w := 8) (n := x.toNat) x.toNat_lt).map UInt64.ofNat
  rw [UInt64.ofNat_toNat] at hread
  exact hread

theorem sized {b : Bytes} (h : b.length < 2 ^ 64) : Reads Reader.sized (sized b) b :=
  (compactSize h).bind ((block ⟨b, rfl⟩).map Subtype.val)

variable {α : Type} {r : Reader α} {enc : α → Bytes} {l : List α}

theorem times (h : ∀ a ∈ l, Reads r (enc a) a) : Reads (Reader.times r l.length) (l.flatMap enc) l := by
  induction l with
  | nil => exact pure []
  | cons a l ih =>
    rw [List.forall_mem_cons] at h
    exact h.1.bind ((ih h.2).map (a :: ·))

end Reads

/-! ## Transactions -/

/-- The encodings of a list behind their number. -/
def counted {α : Type} (enc : α → Bytes) (l : List α) : Bytes := compactSize l.length ++ l.flatMap enc

theorem Reads.counted {α : Type} {r : Reader α} {enc : α → Bytes} {l : List α} (hn : l.length < 2 ^ 64)
    (h : ∀ a ∈ l, Reads r (enc a) a) : Reads (Reader.counted r) (counted enc l) l :=
  (Reads.compactSize hn).bind (Reads.times h)

/-- An input without its witness. -/
def TxIn.encode (i : TxIn) : Bytes := i.prevout.encode ++ sized i.scriptSig ++ le32 i.sequence

/-- A transaction without its witnesses. -/
def Transaction.encode (tx : Transaction) : Bytes :=
  le32 tx.version.toUInt32 ++ counted TxIn.encode tx.inputs ++ counted TxOut.encode tx.outputs ++ le32 tx.lockTime

def OutPoint.read : Reader OutPoint := do
  let txid ← Reader.block 32
  return ⟨txid, ← Reader.u32⟩

def TxIn.read : Reader TxIn := do
  let prevout ← OutPoint.read
  let scriptSig ← Reader.sized
  return ⟨prevout, scriptSig, ← Reader.u32, []⟩

def TxOut.read : Reader TxOut := do
  let value ← Reader.u64
  return ⟨value.toInt64, ← Reader.sized⟩

def Transaction.read : Reader Transaction := do
  let version ← Reader.u32
  let inputs ← Reader.counted TxIn.read
  let outputs ← Reader.counted TxOut.read
  return ⟨version.toInt32, inputs, outputs, ← Reader.u32⟩

/-- Lengths are below what can be written. -/
structure Transaction.Writable (tx : Transaction) : Prop where
  inputs : tx.inputs.length < 2 ^ 64
  outputs : tx.outputs.length < 2 ^ 64
  scriptSigs : ∀ i ∈ tx.inputs, i.scriptSig.length < 2 ^ 64
  scriptPubKeys : ∀ o ∈ tx.outputs, o.scriptPubKey.length < 2 ^ 64

theorem OutPoint.reads_encode (o : OutPoint) : Reads OutPoint.read o.encode o :=
  (Reads.block o.txid).bind ((Reads.u32 o.vout).map (OutPoint.mk o.txid))

theorem TxIn.reads_encode (i : TxIn) (h : i.scriptSig.length < 2 ^ 64) :
    Reads TxIn.read i.encode { i with witness := [] } := by
  unfold TxIn.encode
  rw [List.append_assoc]
  exact (OutPoint.reads_encode i.prevout).bind
    ((Reads.sized h).bind ((Reads.u32 i.sequence).map (TxIn.mk i.prevout i.scriptSig · [])))

theorem TxOut.reads_encode {o : TxOut} (h : o.scriptPubKey.length < 2 ^ 64) : Reads TxOut.read o.encode o :=
  (Reads.u64 o.value.toUInt64).bind ((Reads.sized h).map (TxOut.mk o.value))

theorem le32_ne_nil (n : UInt32) : le32 n ≠ [] := List.cons_ne_nil _ _

theorem le64_ne_nil (n : UInt64) : le64 n ≠ [] := List.cons_ne_nil _ _

theorem sized_ne_nil (b : Bytes) : sized b ≠ [] := by
  refine List.append_ne_nil_of_left_ne_nil ?_ b
  unfold compactSize
  split
  · exact List.cons_ne_nil _ _
  · split
    · exact List.cons_ne_nil _ _
    · split <;> exact List.cons_ne_nil _ _

theorem OutPoint.encode_ne_nil (o : OutPoint) : o.encode ≠ [] :=
  List.append_ne_nil_of_right_ne_nil _ (le32_ne_nil _)

def Transaction.withoutWitnesses (tx : Transaction) : Transaction :=
  { tx with inputs := tx.inputs.map fun i => { i with witness := [] } }

theorem Transaction.encode_withoutWitnesses (tx : Transaction) : tx.withoutWitnesses.encode = tx.encode := by
  unfold encode withoutWitnesses counted
  rw [List.length_map, List.flatMap_map]
  rfl

/-- A transaction is read back from its encoding, up to the witnesses. -/
theorem Transaction.reads_encode {tx : Transaction} (h : tx.Writable) :
    Reads Transaction.read tx.encode tx.withoutWitnesses := by
  have hinputs : Reads (Reader.counted TxIn.read) (counted TxIn.encode tx.withoutWitnesses.inputs)
      tx.withoutWitnesses.inputs := by
    refine Reads.counted (by rw [withoutWitnesses, List.length_map]; exact h.inputs) ?_
    intro i hi
    obtain ⟨j, hj, rfl⟩ := List.mem_map.mp hi
    exact TxIn.reads_encode _ (h.scriptSigs j hj)
  have houtputs := Reads.counted h.outputs fun o ho => TxOut.reads_encode (h.scriptPubKeys o ho)
  rw [← encode_withoutWitnesses]
  unfold encode
  rw [List.append_assoc, List.append_assoc]
  exact (Reads.u32 tx.version.toUInt32).bind (hinputs.bind (houtputs.bind
    ((Reads.u32 tx.lockTime).map (Transaction.mk tx.version tx.withoutWitnesses.inputs tx.outputs))))

end SpendScript

/-
  SpendScript.Proofs.Commitment — what a hash of encoded parts commits to.

  A digest is a hash of a message, and parts of the message are hashes themselves. Nothing is
  assumed of the hash function: that two strings which were hashed are different and have
  one hash (`Hash.Collide`) is a possible outcome of every statement. Where it is ruled out,
  equal hashes are hashes of one string (`Hash.eq_of_sha256`, `Hash.eq_of_hash256`), and equal
  strings have equal parts:
  - `block_inj` / `le32_inj` / `le64_inj` / `sized_inj`: a part in front of others is told
    from them.
  - `prevoutList_eq_iff` / `sequenceList_eq_iff` / `outputList_inj` and the like: the lists
    behind the shared hashes.
-/

import SpendScript.Digest
import SpendScript.Proofs.Wire

namespace SpendScript

/-! ## Collisions -/

namespace Hash

/-- A string of each list, different ones, with the same hash. -/
def Collide (xs ys : List Bytes) : Prop := ∃ x ∈ xs, ∃ y ∈ ys, x ≠ y ∧ sha256 x = sha256 y

variable {xs ys : List Bytes} {x y : Bytes}

/-- Unless two strings collide, equal hashes are hashes of one string. -/
theorem eq_of_sha256 (hno : ¬ Collide xs ys) (hx : x ∈ xs) (hy : y ∈ ys) (h : sha256 x = sha256 y) : x = y :=
  Decidable.byContradiction fun hne => hno ⟨x, hx, y, hy, hne, h⟩

/-- What is hashed when each of the strings is hashed twice. -/
def twice (xs : List Bytes) : List Bytes := xs ++ xs.map fun x => (sha256 x).val

theorem eq_of_hash256 (hno : ¬ Collide (twice xs) (twice ys)) (hx : x ∈ xs) (hy : y ∈ ys)
    (h : hash256 x = hash256 y) : x = y := by
  have hx' : (sha256 x).val ∈ twice xs := List.mem_append_right _ (List.mem_map_of_mem hx)
  have hy' : (sha256 y).val ∈ twice ys := List.mem_append_right _ (List.mem_map_of_mem hy)
  -- the outer hashes have one string behind them, which is the inner hash of both
  have hinner : (sha256 x).val = (sha256 y).val := eq_of_sha256 hno hx' hy' h
  exact eq_of_sha256 hno (List.mem_append_left _ hx) (List.mem_append_left _ hy) (Subtype.ext hinner)

end Hash

namespace Digest

/-! ## Parts in a row -/

section Parts

variable {x y : Bytes}

theorem block_inj {n : Nat} {p q : Block n} (h : p.val ++ x = q.val ++ y) : p = q ∧ x = y :=
  (Reads.block p).inj (Reads.block q) h

theorem le32_inj {p q : UInt32} (h : le32 p ++ x = le32 q ++ y) : p = q ∧ x = y :=
  (Reads.u32 p).inj (Reads.u32 q) h

theorem le64_inj {p q : UInt64} (h : le64 p ++ x = le64 q ++ y) : p = q ∧ x = y :=
  (Reads.u64 p).inj (Reads.u64 q) h

theorem sized_inj {p q : Bytes} (hp : p.length < 2 ^ 64) (hq : q.length < 2 ^ 64)
    (h : sized p ++ x = sized q ++ y) : p = q ∧ x = y :=
  (Reads.sized hp).inj (Reads.sized hq) h

theorem outPoint_inj {p q : OutPoint} (h : p.encode ++ x = q.encode ++ y) : p = q ∧ x = y :=
  p.reads_encode.inj q.reads_encode h

theorem txOut_inj {p q : TxOut} (hp : p.scriptPubKey.length < 2 ^ 64) (hq : q.scriptPubKey.length < 2 ^ 64)
    (h : p.encode = q.encode) : p = q :=
  ((TxOut.reads_encode hp).inj (TxOut.reads_encode hq) (congrArg (· ++ []) h)).1

end Parts

/-! ## Lists behind one hash -/

section Lists

theorem prevoutList_eq_iff {ta tb : Transaction} :
    prevoutList ta = prevoutList tb ↔ ta.inputs.map TxIn.prevout = tb.inputs.map TxIn.prevout :=
  flatMap_eq_iff_of_reads OutPoint.encode_ne_nil (fun i _ => i.prevout.reads_encode) fun i _ => i.prevout.reads_encode

theorem sequenceList_eq_iff {ta tb : Transaction} :
    sequenceList ta = sequenceList tb ↔ ta.inputs.map TxIn.sequence = tb.inputs.map TxIn.sequence :=
  flatMap_eq_iff_of_reads le32_ne_nil (fun i _ => Reads.u32 i.sequence) fun i _ => Reads.u32 i.sequence

variable {la lb : List TxOut}

theorem amountList_eq_iff : amountList la = amountList lb ↔ la.map TxOut.value = lb.map TxOut.value := by
  have hread (value : Int64) : Reads (do return (← Reader.u64).toInt64) (le64 value.toUInt64) value :=
    (Reads.u64 value.toUInt64).map UInt64.toInt64
  exact flatMap_eq_iff_of_reads (fun value : Int64 => le64_ne_nil value.toUInt64) (fun o _ => hread o.value)
    fun o _ => hread o.value

theorem scriptList_eq_iff (ha : ∀ o ∈ la, o.scriptPubKey.length < 2 ^ 64)
    (hb : ∀ o ∈ lb, o.scriptPubKey.length < 2 ^ 64) :
    scriptList la = scriptList lb ↔ la.map TxOut.scriptPubKey = lb.map TxOut.scriptPubKey :=
  flatMap_eq_iff_of_reads sized_ne_nil (fun o ho => Reads.sized (ha o ho)) fun o ho => Reads.sized (hb o ho)

theorem outputList_inj (ha : ∀ o ∈ la, o.scriptPubKey.length < 2 ^ 64)
    (hb : ∀ o ∈ lb, o.scriptPubKey.length < 2 ^ 64) (h : outputList la = outputList lb) : la = lb :=
  flatMap_inj_of_reads (fun _ => List.append_ne_nil_of_left_ne_nil (le64_ne_nil _) _)
    (fun o ho => TxOut.reads_encode (ha o ho)) (fun o ho => TxOut.reads_encode (hb o ho)) h

end Lists

end Digest

end SpendScript

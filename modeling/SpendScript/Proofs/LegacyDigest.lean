/-
  SpendScript.Proofs.LegacyDigest — the legacy digest is that of a modified copy.

  The message of the legacy digest is put together from the parts of the transaction. It is
  the encoding of a copy (`signedCopy`) that is made step by step: input scripts are
  emptied and the signed input gets the script code, outputs that are not covered are
  cleared or blanked, inputs that are not covered are left out.
  - `Script.pieces_withoutSeparators`: the script code of the copy is read as the given one,
    less its code separators.
  - `legacyCode_eq_sized`: its length is counted right where no push is truncated.
  - `legacyMessage_eq_encode`: the message is the encoding of the copy and the hash type.
  - `legacy_eq_hash_signedCopy`: so is the digest, and the copy can be read back.
-/

import SpendScript.Digest
import SpendScript.Proofs.Reading
import SpendScript.Proofs.Wire

namespace SpendScript

/-! ## Script code without separators -/

def Item.isCodeSeparator : Item → Bool
  | .good (.operation .codeSeparator) => true
  | _ => false

/-- Whether reading came upon a code separator. Data of a push is not looked into. -/
def Piece.isCodeSeparator (p : Piece) : Bool :=
  match p.result with
  | .ok item => item.isCodeSeparator
  | .error _ => false

namespace Script

def withoutSeparators (code : Bytes) : Bytes :=
  ((pieces code).filter (!·.isCodeSeparator)).flatMap Piece.span

/-- Whether no push of the script is cut off by its end. -/
def isWhole (code : Bytes) : Bool := (pieces code).all (!·.isTruncated)

variable {code : Bytes} {p : Piece}

theorem not_isTruncated_of_mem (h : isWhole code = true) (hp : p ∈ pieces code) : p.isTruncated = false := by
  simpa using List.all_eq_true.mp h p hp

/-- Without its code separators a script is read as before, less these. -/
theorem pieces_withoutSeparators (h : isWhole code = true) :
    pieces (withoutSeparators code) = (pieces code).filter (!·.isCodeSeparator) :=
  pieces_flatMap_span fun _ hp =>
    have hp := (List.mem_filter.mp hp).1
    ⟨hp, not_isTruncated_of_mem h hp⟩

/-- A code separator is the one item of its byte. -/
theorem isSeparator_of_mem (hp : p ∈ pieces code) : Digest.isSeparator p = p.isCodeSeparator := by
  rw [Bool.eq_iff_iff]
  constructor
  · intro hs
    have hspan : p.span = [Operation.codeSeparator.byte] := eq_of_beq hs
    fun_induction pieces code with
    | case1 => cases hp
    | case2 b s next ih =>
      rcases List.mem_cons.mp hp with rfl | hp
      · have hbytes := readItem_append b s
        rw [hspan] at hbytes
        obtain ⟨rfl, -⟩ := List.cons.inj hbytes
        have hread : next = (⟨readByte Operation.codeSeparator.byte, [Operation.codeSeparator.byte]⟩, s) :=
          readItem_of_ge (by decide) s
        rw [hread, readByte_operation]
        rfl
      · exact ih hp
  · intro hs
    unfold Piece.isCodeSeparator at hs
    split at hs
    · rename_i item hi
      have hspan := span_of_mem_pieces hp hi
      unfold Item.isCodeSeparator at hs
      split at hs
      · exact beq_of_eq hspan.symm
      · cases hs
    · cases hs

/-- Each separator is one byte. -/
theorem length_filter_add_countP {ps : List Piece} (hp : ∀ p ∈ ps, Digest.isSeparator p = p.isCodeSeparator) :
    ((ps.filter (!·.isCodeSeparator)).flatMap Piece.span).length + ps.countP Digest.isSeparator =
      (ps.flatMap Piece.span).length := by
  induction ps with
  | nil => rfl
  | cons p ps ih =>
    rw [List.forall_mem_cons] at hp
    have ih := ih hp.2
    rw [List.filter_cons, List.countP_cons, List.flatMap_cons, List.length_append, hp.1]
    cases hs : p.isCodeSeparator with
    | true =>
      have hspan : p.span = [Operation.codeSeparator.byte] := eq_of_beq (hp.1.trans hs)
      rw [hspan]
      simp only [Bool.not_true, Bool.false_eq_true, if_false, if_true, List.length_singleton]
      omega
    | false =>
      simp only [Bool.not_false, Bool.false_eq_true, if_false, if_true, List.flatMap_cons, List.length_append]
      omega

theorem length_withoutSeparators (code : Bytes) :
    (withoutSeparators code).length + (pieces code).countP Digest.isSeparator = code.length := by
  have h := length_filter_add_countP fun p (hp : p ∈ pieces code) => isSeparator_of_mem hp
  rw [pieces_spans] at h
  exact h

end Script

namespace Digest

theorem flatMap_coveredSpan {code : Bytes} (h : Script.isWhole code = true) :
    (Script.pieces code).flatMap coveredSpan = Script.withoutSeparators code := by
  have hcovered (p : Piece) (hp : p ∈ Script.pieces code) :
      coveredSpan p = if p.isCodeSeparator then [] else p.span := by
    rw [← Script.isSeparator_of_mem hp]
    have ht := Script.not_isTruncated_of_mem h hp
    unfold coveredSpan
    split
    · rename_i hr
      rw [Piece.isTruncated, hr] at ht
      cases ht
    · rfl
  unfold Script.withoutSeparators
  generalize Script.pieces code = ps at hcovered
  induction ps with
  | nil => rfl
  | cons p ps ih =>
    rw [List.forall_mem_cons] at hcovered
    rw [List.flatMap_cons, hcovered.1, ih hcovered.2, List.filter_cons]
    cases p.isCodeSeparator <;> rfl

/-- Where no push is truncated, the length in front of the covered code is that of its bytes. -/
theorem legacyCode_eq_sized {code : Bytes} (h : Script.isWhole code = true) :
    legacyCode code = sized (Script.withoutSeparators code) := by
  have hlen := Script.length_withoutSeparators code
  have hsub : code.length - (Script.pieces code).countP isSeparator = (Script.withoutSeparators code).length := by
    omega
  unfold legacyCode sized
  dsimp only
  rw [hsub, flatMap_coveredSpan h]

/-! ## The copy -/

/-- All input scripts are emptied, but the signed input gets the script code. -/
def withScriptCode (index : Nat) (code : Bytes) (tx : Transaction) : Transaction :=
  { tx with inputs := tx.inputs.mapIdx fun k i => { i with scriptSig := if k = index then code else [] } }

def zeroOtherSequences (index : Nat) (inputs : List TxIn) : List TxIn :=
  inputs.mapIdx fun k i => if k = index then i else { i with sequence := 0 }

/-- Outputs that are not covered are cleared, or blanked in front of the one that is; other
    inputs may then change their sequence numbers. -/
def coverOutputs (outputs : SignedOutputs) (index : Nat) (tx : Transaction) : Transaction :=
  match outputs with
  | .all => tx
  | .none => { tx with inputs := zeroOtherSequences index tx.inputs, outputs := [] }
  | .single =>
    { tx with
      inputs := zeroOtherSequences index tx.inputs
      outputs := (tx.outputs.take (index + 1)).mapIdx fun k o => if k = index then o else TxOut.blank }

def coverInputs (anyoneCanPay : Bool) (index : Nat) (tx : Transaction) : Transaction :=
  if anyoneCanPay then { tx with inputs := tx.inputs[index]?.toList } else tx

/-- What a legacy signature signs. -/
def signedCopy (tx : Transaction) (index : Nat) (code : Bytes) (t : HashType) : Transaction :=
  coverInputs t.anyoneCanPay index
    (coverOutputs t.signedOutputs index (withScriptCode index (Script.withoutSeparators code) tx))

/-! ## The message is the encoding of the copy -/

section Message

variable {tx : Transaction} {index : Nat} {code : Bytes} {t : HashType}

/-- What the copy has for the input at one position. -/
def copyInput (code : Bytes) (outputs : SignedOutputs) (signed : Bool) (i : TxIn) : TxIn :=
  { i with
    scriptSig := if signed then code else []
    sequence := if signed || outputs == .all then i.sequence else 0 }

theorem inputs_coverOutputs (tx : Transaction) (index : Nat) (code : Bytes) (outputs : SignedOutputs) :
    (coverOutputs outputs index (withScriptCode index code tx)).inputs =
      tx.inputs.mapIdx fun k i => copyInput code outputs (k == index) i := by
  have hsigned (k : Nat) (c : Bytes) : (if (k == index) = true then c else []) = if k = index then c else [] := by
    simp only [beq_iff_eq]
  cases outputs with
  | all =>
    show tx.inputs.mapIdx _ = tx.inputs.mapIdx _
    congr 1
    funext k i
    simp only [copyInput, hsigned, beq_self_eq_true, Bool.or_true, if_true]
  | none | single =>
    show zeroOtherSequences index (tx.inputs.mapIdx _) = _
    unfold zeroOtherSequences
    rw [List.mapIdx_mapIdx]
    congr 1
    funext k i
    by_cases hk : k = index
    · simp [copyInput, hk]
    · simp [copyInput, hk]

theorem legacyInput_eq_encode (h : Script.isWhole code = true) (outputs : SignedOutputs) (signed : Bool) (i : TxIn) :
    legacyInput code outputs signed i = (copyInput (Script.withoutSeparators code) outputs signed i).encode := by
  unfold legacyInput TxIn.encode copyInput
  rw [legacyCode_eq_sized h]
  cases signed <;> rfl

theorem legacyInputs_eq_counted (h : Script.isWhole code = true) (hi : index < tx.inputs.length) :
    legacyInputs tx index code t = counted TxIn.encode (signedCopy tx index code t).inputs := by
  have hinputs := inputs_coverOutputs tx index (Script.withoutSeparators code) t.signedOutputs
  unfold legacyInputs signedCopy coverInputs counted
  cases t.anyoneCanPay with
  | true =>
    simp only [if_true, hinputs, List.getElem?_mapIdx, List.getElem?_eq_getElem hi]
    simp [legacyInput_eq_encode h]
  | false =>
    simp only [Bool.false_eq_true, if_false, hinputs, List.length_mapIdx]
    rw [List.mapIdx_eq_zipIdx_map, List.flatMap_map]
    simp only [legacyInput_eq_encode h]

theorem mapIdx_take_blank (outputs : List TxOut) {index : Nat} (h : index < outputs.length) :
    ((outputs.take (index + 1)).mapIdx fun k o => if k = index then o else TxOut.blank) =
      List.replicate index TxOut.blank ++ [outputs[index]] := by
  refine List.ext_getElem ?_ ?_
  · simp only [List.length_mapIdx, List.length_take, List.length_append, List.length_replicate,
      List.length_singleton]
    omega
  · intro k hk hk'
    rw [List.getElem_mapIdx, List.getElem_take, List.getElem_append]
    by_cases he : k = index
    · subst he
      simp
    · have hlt : k < index := by
        simp only [List.length_append, List.length_replicate, List.length_singleton] at hk'
        omega
      simp [he, hlt]

theorem legacyOutputs_eq_counted (ho : t.signedOutputs = .single → index < tx.outputs.length) :
    legacyOutputs tx index t = counted TxOut.encode (signedCopy tx index code t).outputs := by
  have houtputs : (signedCopy tx index code t).outputs =
      (coverOutputs t.signedOutputs index (withScriptCode index (Script.withoutSeparators code) tx)).outputs := by
    unfold signedCopy coverInputs
    split <;> rfl
  rw [houtputs]
  unfold legacyOutputs
  cases hs : t.signedOutputs with
  | all => rfl
  | none => rfl
  | single =>
    have hlt := ho hs
    have hsingle : (coverOutputs .single index (withScriptCode index (Script.withoutSeparators code) tx)).outputs =
        List.replicate index TxOut.blank ++ [tx.outputs[index]] := mapIdx_take_blank tx.outputs hlt
    rw [hsingle, List.getElem?_eq_getElem hlt]
    simp [counted]

/-- The message is the encoding of the copy, and behind it the hash type. -/
theorem legacyMessage_eq_encode (h : Script.isWhole code = true) (hi : index < tx.inputs.length)
    (ho : t.signedOutputs = .single → index < tx.outputs.length) :
    legacyMessage tx index code t = (signedCopy tx index code t).encode ++ le32 t.raw.toUInt32 := by
  have hrest : (signedCopy tx index code t).version = tx.version ∧
      (signedCopy tx index code t).lockTime = tx.lockTime := by
    unfold signedCopy coverInputs coverOutputs
    cases t.signedOutputs <;> split <;> exact ⟨rfl, rfl⟩
  unfold legacyMessage Transaction.encode
  rw [legacyInputs_eq_counted h hi, legacyOutputs_eq_counted ho, hrest.1, hrest.2]

end Message

/-! ## Lengths -/

section Lengths

variable {tx : Transaction} {index : Nat} {code : Bytes}

theorem writable_withScriptCode (h : tx.Writable) (hc : code.length < 2 ^ 64) :
    (withScriptCode index code tx).Writable := by
  refine ⟨?_, h.outputs, ?_, h.scriptPubKeys⟩
  · rw [withScriptCode, List.length_mapIdx]
    exact h.inputs
  · intro i hi
    obtain ⟨k, hk, rfl⟩ := List.mem_mapIdx.mp hi
    dsimp only
    split
    · exact hc
    · decide

theorem writable_zeroOtherSequences (h : tx.Writable) :
    ({ tx with inputs := zeroOtherSequences index tx.inputs } : Transaction).Writable := by
  refine ⟨?_, h.outputs, ?_, h.scriptPubKeys⟩
  · rw [zeroOtherSequences, List.length_mapIdx]
    exact h.inputs
  · intro i hi
    obtain ⟨k, hk, rfl⟩ := List.mem_mapIdx.mp hi
    have hlen := h.scriptSigs _ (List.getElem_mem hk)
    split <;> exact hlen

theorem writable_coverOutputs (outputs : SignedOutputs) (h : tx.Writable) :
    (coverOutputs outputs index tx).Writable := by
  have hz : ({ tx with inputs := zeroOtherSequences index tx.inputs } : Transaction).Writable :=
    writable_zeroOtherSequences h
  cases outputs with
  | all => exact h
  | none => exact ⟨hz.inputs, Nat.pow_pos (by decide), hz.scriptSigs, fun o ho => by cases ho⟩
  | single =>
    refine ⟨hz.inputs, ?_, hz.scriptSigs, ?_⟩
    · have hle := List.length_take_le' (index + 1) tx.outputs
      have hlen := h.outputs
      simp only [coverOutputs, List.length_mapIdx]
      omega
    · intro o ho
      obtain ⟨k, hk, rfl⟩ := List.mem_mapIdx.mp ho
      have hlen := h.scriptPubKeys _ (List.mem_of_mem_take (List.getElem_mem hk))
      split
      · exact hlen
      · decide

theorem writable_coverInputs (anyoneCanPay : Bool) (h : tx.Writable) :
    (coverInputs anyoneCanPay index tx).Writable := by
  unfold coverInputs
  split
  · refine ⟨?_, h.outputs, ?_, h.scriptPubKeys⟩
    · dsimp only
      cases tx.inputs[index]? <;> simp
    · intro i hi
      exact h.scriptSigs i (List.mem_of_getElem? (Option.mem_toList.mp hi))
  · exact h

theorem writable_signedCopy (t : HashType) (h : tx.Writable) (hc : code.length < 2 ^ 64) :
    (signedCopy tx index code t).Writable := by
  have hlen := Script.length_withoutSeparators code
  have hcode : (Script.withoutSeparators code).length < 2 ^ 64 := by omega
  exact writable_coverInputs _ (writable_coverOutputs _ (writable_withScriptCode h hcode))

end Lengths

/-- Where no push of the script code is truncated, the digest is the hash of the copy, which
    is read back from its encoding and whose script code has lost its code separators and
    nothing else. Where a single output should be covered and there is none, it is the
    number one. -/
theorem legacy_eq_hash_signedCopy (tx : Transaction) (index : Nat) (code : Bytes) (t : HashType)
    (hi : index < tx.inputs.length) (h : Script.isWhole code = true) (hw : tx.Writable)
    (hc : code.length < 2 ^ 64) :
    legacy tx index code t =
      (if t.signedOutputs = .single ∧ tx.outputs.length ≤ index then singleWithoutOutput
       else Hash.hash256 ((signedCopy tx index code t).encode ++ le32 t.raw.toUInt32)) ∧
    Reads Transaction.read (signedCopy tx index code t).encode (signedCopy tx index code t).withoutWitnesses ∧
    Script.pieces (Script.withoutSeparators code) = (Script.pieces code).filter (!·.isCodeSeparator) := by
  refine ⟨?_, Transaction.reads_encode (writable_signedCopy t hw hc), Script.pieces_withoutSeparators h⟩
  unfold legacy
  by_cases hs : t.signedOutputs = .single ∧ tx.outputs.length ≤ index
  · rw [if_pos hs, if_pos]
    simp [hs.1, hs.2]
  · have ho (hsingle : t.signedOutputs = .single) : index < tx.outputs.length :=
      Nat.lt_of_not_le fun hle => hs ⟨hsingle, hle⟩
    rw [if_neg hs, if_neg]
    · rw [legacyMessage_eq_encode h hi ho]
    · simp only [Bool.or_eq_true, Bool.and_eq_true, decide_eq_true_eq, beq_iff_eq]
      rintro (hle | hsingle)
      · omega
      · exact hs hsingle

/-- A separator in front of a push of the same byte, and two outputs: the second input
    covers the second output only, and nothing of the other input. -/
theorem legacy_eq_hash_signedCopy_single :
    legacy ⟨2, [⟨⟨Block.zero 32, 0⟩, [0x51], 7, []⟩, ⟨⟨Block.zero 32, 1⟩, [], 9, [[1]]⟩], [⟨5, [0x51]⟩, ⟨6, []⟩], 0⟩
      1 [0xab, 0x01, 0xab] ⟨0x83⟩ =
        Hash.hash256 ((⟨2, [⟨⟨Block.zero 32, 1⟩, [0x01, 0xab], 9, [[1]]⟩], [TxOut.blank, ⟨6, []⟩], 0⟩ :
          Transaction).encode ++ le32 0x83) := by
  have hcopy : signedCopy ⟨2, [⟨⟨Block.zero 32, 0⟩, [0x51], 7, []⟩, ⟨⟨Block.zero 32, 1⟩, [], 9, [[1]]⟩],
      [⟨5, [0x51]⟩, ⟨6, []⟩], 0⟩ 1 [0xab, 0x01, 0xab] ⟨0x83⟩ =
        ⟨2, [⟨⟨Block.zero 32, 1⟩, [0x01, 0xab], 9, [[1]]⟩], [TxOut.blank, ⟨6, []⟩], 0⟩ := by cbv
  rw [← hcopy]
  exact (legacy_eq_hash_signedCopy _ 1 [0xab, 0x01, 0xab] ⟨0x83⟩ (by decide) (by cbv)
    ⟨by decide, by decide, by decide, by decide⟩ (by decide)).1

end Digest

end SpendScript

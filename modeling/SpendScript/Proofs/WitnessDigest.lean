/-
  SpendScript.Proofs.WitnessDigest — what the digest of a version 0 witness script commits to.

  The message has one layout for all hash types: a hash that is not covered is replaced by
  zeros of the same size, and the hash type itself stands at the end. So the parts of a
  message can be told apart before the hash type is known (`witnessMessage_inj`), and which of
  them are hashes is known once all are. A covered list or output is then behind two
  hashes, and either it is the same on both sides or two of the hashed strings collide.
  - `WitnessCall.agrees_of_message_eq`: calls with equal messages agree on all that is covered.
  - `WitnessCall.message_eq_of_agrees`: what is not covered changes nothing.
  - `WitnessCall.witness_digest_commits`: both, for digests.
-/

import SpendScript.Proofs.Commitment

namespace SpendScript.Digest

/-! ## Parts of the message -/

/-- The hash over all prevouts, or zeros where others may add inputs. -/
def witnessPrevouts (hashes : TxHashes) (t : HashType) : Block 32 :=
  if t.anyoneCanPay then Block.zero 32 else Hash.sha256 hashes.prevouts.val

/-- The hash over all sequence numbers, where these are covered. -/
def witnessSequences (hashes : TxHashes) (t : HashType) : Block 32 :=
  if !t.anyoneCanPay && t.signedOutputs == .all then Hash.sha256 hashes.sequences.val else Block.zero 32

section Parts

variable {ta tb : Transaction} {ha hb : TxHashes} {i j : Nat} {p q : TxIn} {ca cb : Bytes} {m n : Int64}
  {s t : HashType}

/-- The message is a row of parts, and only the script code has no fixed length. -/
theorem witnessMessage_eq_parts (tx : Transaction) (hashes : TxHashes) (index : Nat) (input : TxIn) (code : Bytes)
    (amount : Int64) (t : HashType) :
    witnessMessage tx hashes index input code amount t =
      le32 tx.version.toUInt32 ++ (witnessPrevouts hashes t).val ++ (witnessSequences hashes t).val
        ++ input.prevout.encode ++ sized code ++ le64 amount.toUInt64 ++ le32 input.sequence
        ++ (witnessOutputs tx hashes index t).val ++ le32 tx.lockTime ++ le32 t.raw.toUInt32 :=
  rfl

/-- A byte is found again in the four bytes it is written in. -/
theorem hashType_inj (h : le32 s.raw.toUInt32 = le32 t.raw.toUInt32) : s = t := by
  have hraw := (le32_inj (congrArg (· ++ []) h)).1
  have hraw : s.raw = t.raw := by simpa using congrArg UInt32.toUInt8 hraw
  exact congrArg HashType.mk hraw

/-- Equal messages have equal parts, whatever their hash types. -/
theorem witnessMessage_inj (hca : ca.length < 2 ^ 64) (hcb : cb.length < 2 ^ 64)
    (h : witnessMessage ta ha i p ca m s = witnessMessage tb hb j q cb n t) :
    (s = t ∧ ta.version = tb.version ∧ ta.lockTime = tb.lockTime ∧ p.prevout = q.prevout ∧
      p.sequence = q.sequence ∧ ca = cb ∧ m = n) ∧
    witnessPrevouts ha s = witnessPrevouts hb t ∧ witnessSequences ha s = witnessSequences hb t ∧
    witnessOutputs ta ha i s = witnessOutputs tb hb j t := by
  simp only [witnessMessage_eq_parts, List.append_assoc] at h
  obtain ⟨hversion, h⟩ := le32_inj h
  obtain ⟨hprevouts, h⟩ := block_inj h
  obtain ⟨hsequences, h⟩ := block_inj h
  obtain ⟨hprevout, h⟩ := outPoint_inj h
  obtain ⟨hcode, h⟩ := sized_inj hca hcb h
  obtain ⟨hamount, h⟩ := le64_inj h
  obtain ⟨hsequence, h⟩ := le32_inj h
  obtain ⟨houtputs, h⟩ := block_inj h
  obtain ⟨hlock, h⟩ := le32_inj h
  exact ⟨⟨hashType_inj h, congrArg UInt32.toInt32 hversion, hlock, hprevout, hsequence, hcode,
    congrArg UInt64.toInt64 hamount⟩, hprevouts, hsequences, houtputs⟩

end Parts

/-! ## Calls -/

/-- A digest that is asked for. The lengths in it can be written, and where a single output is
    to be covered there is one. -/
structure WitnessCall where
  tx : Transaction
  spent : Option (List TxOut)
  index : Nat
  code : Bytes
  amount : Int64
  hashType : HashType
  outputLengths : ∀ o ∈ tx.outputs, o.scriptPubKey.length < 2 ^ 64
  codeLength : code.length < 2 ^ 64
  hasOutput : hashType.signedOutputs = .single → index < tx.outputs.length

namespace WitnessCall

def hashes (c : WitnessCall) : TxHashes := TxHashes.of c.tx c.spent

def message (c : WitnessCall) (input : TxIn) : Bytes :=
  witnessMessage c.tx c.hashes c.index input c.code c.amount c.hashType

def digest (c : WitnessCall) : Except DigestError (Block 32) :=
  witnessV0 c.tx c.hashes c.index c.code c.amount c.hashType

/-- The encodings of the outputs that are covered, as they are hashed. -/
def coveredOutputs (c : WitnessCall) : List Bytes :=
  match c.hashType.signedOutputs with
  | .all => [outputList c.tx.outputs]
  | .single => c.tx.outputs[c.index]?.toList.map TxOut.encode
  | .none => []

/-- The strings of which the digest needs a double hash, the last one being the message. -/
def covered (c : WitnessCall) : List Bytes :=
  (if c.hashType.anyoneCanPay then [] else [prevoutList c.tx])
  ++ (if !c.hashType.anyoneCanPay && c.hashType.signedOutputs == .all then [sequenceList c.tx] else [])
  ++ c.coveredOutputs
  ++ c.tx.inputs[c.index]?.toList.map c.message

/-- Two strings that are hashed for the two digests are different and have the same hash. -/
def Collide (a b : WitnessCall) : Prop := Hash.Collide (Hash.twice a.covered) (Hash.twice b.covered)

/-- The two calls have in common all that a signature covers. -/
structure Agrees (a b : WitnessCall) : Prop where
  hashType : a.hashType = b.hashType
  version : a.tx.version = b.tx.version
  lockTime : a.tx.lockTime = b.tx.lockTime
  prevout : a.tx.inputs[a.index]?.map TxIn.prevout = b.tx.inputs[b.index]?.map TxIn.prevout
  sequence : a.tx.inputs[a.index]?.map TxIn.sequence = b.tx.inputs[b.index]?.map TxIn.sequence
  code : a.code = b.code
  amount : a.amount = b.amount
  prevouts : a.hashType.anyoneCanPay = false → a.tx.inputs.map TxIn.prevout = b.tx.inputs.map TxIn.prevout
  sequences : a.hashType.anyoneCanPay = false → a.hashType.signedOutputs = .all →
    a.tx.inputs.map TxIn.sequence = b.tx.inputs.map TxIn.sequence
  outputs : a.hashType.signedOutputs = .all → a.tx.outputs = b.tx.outputs
  output : a.hashType.signedOutputs = .single → a.tx.outputs[a.index]? = b.tx.outputs[b.index]?

variable {a b c : WitnessCall}

theorem digest_eq_ok {x : Block 32} (h : c.digest = .ok x) :
    ∃ input, c.tx.inputs[c.index]? = some input ∧ c.message input ∈ c.covered ∧
      x = Hash.hash256 (c.message input) := by
  unfold digest witnessV0 at h
  split at h
  · cases h
  · rename_i input hinput
    cases h
    exact ⟨input, hinput, by simp [covered, hinput], rfl⟩

/-- Where a single output is covered, it is there. -/
theorem exists_output (c : WitnessCall) (hs : c.hashType.signedOutputs = .single) :
    ∃ o, c.tx.outputs[c.index]? = some o ∧ o.scriptPubKey.length < 2 ^ 64 ∧
      witnessOutputs c.tx c.hashes c.index c.hashType = Hash.hash256 o.encode ∧ o.encode ∈ c.covered := by
  have hlt := c.hasOutput hs
  have ho : c.tx.outputs[c.index]? = some c.tx.outputs[c.index] := List.getElem?_eq_getElem hlt
  refine ⟨c.tx.outputs[c.index], ho, c.outputLengths _ (List.getElem_mem hlt), ?_, ?_⟩
  · simp [witnessOutputs, hs, ho]
  · simp [covered, coveredOutputs, hs, ho]

/-- Calls with one message agree on all that is covered, unless two strings collide. -/
theorem agrees_of_message_eq (hno : ¬ Collide a b) {p q : TxIn} (hp : a.tx.inputs[a.index]? = some p)
    (hq : b.tx.inputs[b.index]? = some q) (h : a.message p = b.message q) : Agrees a b := by
  obtain ⟨⟨ht, hversion, hlock, hprevout, hsequence, hcode, hamount⟩, hprevouts, hsequences, houtputs⟩ :=
    witnessMessage_inj a.codeLength b.codeLength h
  -- with one hash type the same hashes stand in both messages, and zeros in place of the others
  refine
    { hashType := ht
      version := hversion
      lockTime := hlock
      prevout := by rw [hp, hq, Option.map_some, Option.map_some, hprevout]
      sequence := by rw [hp, hq, Option.map_some, Option.map_some, hsequence]
      code := hcode
      amount := hamount
      prevouts := fun hpay => ?_
      sequences := fun hpay hall => ?_
      outputs := fun hall => ?_
      output := fun hsingle => ?_ }
  · have hpay' := ht ▸ hpay
    simp only [witnessPrevouts, hpay, hpay', Bool.false_eq_true, if_false] at hprevouts
    exact prevoutList_eq_iff.mp (Hash.eq_of_hash256 hno (by simp [covered, hpay]) (by simp [covered, hpay']) hprevouts)
  · have hpay' := ht ▸ hpay
    have hall' := ht ▸ hall
    simp only [witnessSequences, hpay, hpay', hall, hall', Bool.not_false, beq_self_eq_true, Bool.and_self,
      if_true] at hsequences
    exact sequenceList_eq_iff.mp
      (Hash.eq_of_hash256 hno (by simp [covered, hpay, hall]) (by simp [covered, hpay', hall']) hsequences)
  · have hall' := ht ▸ hall
    simp only [witnessOutputs, hall, hall'] at houtputs
    exact outputList_inj a.outputLengths b.outputLengths (Hash.eq_of_hash256 hno
      (by simp [covered, coveredOutputs, hall]) (by simp [covered, coveredOutputs, hall']) houtputs)
  · obtain ⟨o, ho, hlo, hhash, hmem⟩ := a.exists_output hsingle
    obtain ⟨u, hu, hlu, hhash', hmem'⟩ := b.exists_output (ht ▸ hsingle)
    rw [hhash, hhash'] at houtputs
    rw [ho, hu, txOut_inj hlo hlu (Hash.eq_of_hash256 hno hmem hmem' houtputs)]

namespace Agrees

theorem witnessPrevouts_eq (h : Agrees a b) :
    witnessPrevouts a.hashes a.hashType = witnessPrevouts b.hashes b.hashType := by
  unfold witnessPrevouts
  rw [← h.hashType]
  split
  · rfl
  · rename_i hpay
    have hprevouts : a.hashes.prevouts = b.hashes.prevouts :=
      congrArg Hash.sha256 (prevoutList_eq_iff.mpr (h.prevouts (Bool.eq_false_iff.mpr hpay)))
    rw [hprevouts]

theorem witnessSequences_eq (h : Agrees a b) :
    witnessSequences a.hashes a.hashType = witnessSequences b.hashes b.hashType := by
  unfold witnessSequences
  rw [← h.hashType]
  split
  · rename_i hc
    rw [Bool.and_eq_true, Bool.not_eq_true', beq_iff_eq] at hc
    have hsequences : a.hashes.sequences = b.hashes.sequences :=
      congrArg Hash.sha256 (sequenceList_eq_iff.mpr (h.sequences hc.1 hc.2))
    rw [hsequences]
  · rfl

theorem witnessOutputs_eq (h : Agrees a b) :
    witnessOutputs a.tx a.hashes a.index a.hashType = witnessOutputs b.tx b.hashes b.index b.hashType := by
  unfold witnessOutputs
  rw [← h.hashType]
  split
  · rename_i hall
    have houtputs : a.hashes.outputs = b.hashes.outputs :=
      congrArg (fun outputs => Hash.sha256 (outputList outputs)) (h.outputs hall)
    rw [houtputs]
  · rename_i hsingle
    rw [h.output hsingle]
  · rfl

end Agrees

/-- What is not covered is not in the message. -/
theorem message_eq_of_agrees (h : Agrees a b) {p q : TxIn} (hp : a.tx.inputs[a.index]? = some p)
    (hq : b.tx.inputs[b.index]? = some q) : a.message p = b.message q := by
  have hprevout := h.prevout
  have hsequence := h.sequence
  rw [hp, hq] at hprevout hsequence
  unfold message
  rw [witnessMessage_eq_parts, witnessMessage_eq_parts, h.witnessPrevouts_eq, h.witnessSequences_eq,
    h.witnessOutputs_eq, h.hashType, h.version, h.lockTime, h.code, h.amount, Option.some.inj hprevout,
    Option.some.inj hsequence]

/-- Two calls with one digest agree on all that is covered, or two strings that were hashed
    for them collide. Calls that agree have one digest. -/
theorem witness_digest_commits (a b : WitnessCall) {x y : Block 32} (ha : a.digest = .ok x) (hb : b.digest = .ok y) :
    (x = y → Collide a b ∨ Agrees a b) ∧ (Agrees a b → x = y) := by
  obtain ⟨p, hp, hmem, rfl⟩ := digest_eq_ok ha
  obtain ⟨q, hq, hmem', rfl⟩ := digest_eq_ok hb
  constructor
  · intro h
    by_cases hc : Collide a b
    · exact Or.inl hc
    · exact Or.inr (agrees_of_message_eq hc hp hq (Hash.eq_of_hash256 hc hmem hmem' h))
  · intro h
    rw [message_eq_of_agrees h hp hq]

/-- One input with its output, and behind another input and output: a signature of an undefined
    hash type that covers the output of its input and lets others add inputs is good for
    both. For another amount it is not, unless two strings collide. -/
theorem witness_digest_commits_single :
    ∃ a b c : WitnessCall, a.index ≠ b.index ∧ a.tx.inputs.length ≠ b.tx.inputs.length ∧
      a.amount ≠ c.amount ∧ ∃ x, a.digest = .ok x ∧ b.digest = .ok x ∧ (c.digest = .ok x → Collide a c) := by
  have hcalls : ∃ a b c : WitnessCall, (a.index ≠ b.index ∧ a.tx.inputs.length ≠ b.tx.inputs.length ∧
      a.amount ≠ c.amount) ∧ Agrees a b ∧ (∃ x, a.digest = .ok x) ∧ ∃ y, b.digest = .ok y :=
    ⟨⟨⟨2, [⟨⟨Block.zero 32, 1⟩, [], 7, []⟩], [⟨5, [0x51]⟩], 0⟩, none, 0, [0xac], 9, ⟨0xa3⟩,
        by decide, by decide, by decide⟩,
      ⟨⟨2, [⟨⟨Block.zero 32, 0⟩, [], 8, []⟩, ⟨⟨Block.zero 32, 1⟩, [], 7, [[1]]⟩], [⟨4, []⟩, ⟨5, [0x51]⟩], 0⟩,
        some [⟨3, []⟩, ⟨9, [0x52]⟩], 1, [0xac], 9, ⟨0xa3⟩, by decide, by decide, by decide⟩,
      ⟨⟨2, [⟨⟨Block.zero 32, 1⟩, [], 7, []⟩], [⟨5, [0x51]⟩], 0⟩, none, 0, [0xac], 8, ⟨0xa3⟩,
        by decide, by decide, by decide⟩,
      by decide, by constructor <;> decide, ⟨_, rfl⟩, ⟨_, rfl⟩⟩
  obtain ⟨a, b, c, ⟨hindex, hinputs, hamount⟩, hagrees, ⟨x, hx⟩, ⟨y, hy⟩⟩ := hcalls
  have hxy := (witness_digest_commits a b hx hy).2 hagrees
  refine ⟨a, b, c, hindex, hinputs, hamount, x, hx, hxy ▸ hy, fun hc => ?_⟩
  rcases (witness_digest_commits a c hx hc).1 rfl with h | h
  · exact h
  · exact absurd h.amount hamount

end WitnessCall

end SpendScript.Digest

/-
  SpendScript.Proofs.TaprootDigest — what a taproot digest commits to.

  The message of a taproot digest is a row of parts whose layout depends on the hash type and
  on the spend type, both of which stand in front of what they decide. So equal messages
  have equal parts, one after the other (`taprootLists_inj`, `taprootInput_inj`, ...), and a
  part that is a hash has one string behind it, or two that collide.
  - `TaprootCall.message_eq_ok`: the parts of a message.
  - `TaprootCall.agrees_of_message_eq`: calls with equal messages agree on all that is
    covered, or two of the strings that they hash collide.
  - `TaprootCall.message_eq_of_agrees`: what is not covered changes nothing.
  - `TaprootCall.digest_commits`: both, for digests.
-/

import SpendScript.Proofs.Commitment
import SpendScript.Proofs.Dialogue

namespace SpendScript.Digest

/-- A digest that is asked for, with an output for each input of the transaction. -/
structure TaprootCall where
  tx : Transaction
  spent : List TxOut
  index : Nat
  hashType : HashType
  context : Context
  aligned : spent.length = tx.inputs.length
  outputLengths : ∀ o ∈ tx.outputs, o.scriptPubKey.length < 2 ^ 64
  spentLengths : ∀ o ∈ spent, o.scriptPubKey.length < 2 ^ 64

namespace TaprootCall

def hashes (c : TaprootCall) : TxHashes := TxHashes.of c.tx (some c.spent)

def spentHashes (c : TaprootCall) : SpentHashes :=
  ⟨Hash.sha256 (amountList c.spent), Hash.sha256 (scriptList c.spent), c.spent⟩

def message (c : TaprootCall) : Except DigestError Bytes :=
  taprootMessage c.tx c.hashes c.index c.hashType c.context

def digest (c : TaprootCall) : Except DigestError (Block 32) :=
  taproot c.tx c.hashes c.index c.hashType c.context

/-- The strings that are hashed on the way to the digest. -/
def hashed (c : TaprootCall) : List Bytes :=
  [prevoutList c.tx, sequenceList c.tx, outputList c.tx.outputs, amountList c.spent, scriptList c.spent,
    "TapSighash".toUTF8.toList]
  ++ (if c.hashType.signedOutputs = .single then c.tx.outputs[c.index]?.toList.map TxOut.encode else [])
  ++ c.message.toOption.toList.map (Hash.tagBlock "TapSighash" ++ ·)

/-- Two strings that are hashed for the two digests are different and have the same hash. -/
def Collide (a b : TaprootCall) : Prop :=
  ∃ x ∈ a.hashed, ∃ y ∈ b.hashed, x ≠ y ∧ Hash.sha256 x = Hash.sha256 y

/-- The two calls have in common all that a signature covers. -/
structure Agrees (a b : TaprootCall) : Prop where
  hashType : a.hashType = b.hashType
  version : a.tx.version = b.tx.version
  lockTime : a.tx.lockTime = b.tx.lockTime
  index : a.hashType.anyoneCanPay = false → a.index = b.index
  prevouts : a.hashType.anyoneCanPay = false → a.tx.inputs.map TxIn.prevout = b.tx.inputs.map TxIn.prevout
  amounts : a.hashType.anyoneCanPay = false → a.spent.map TxOut.value = b.spent.map TxOut.value
  scripts : a.hashType.anyoneCanPay = false → a.spent.map TxOut.scriptPubKey = b.spent.map TxOut.scriptPubKey
  sequences : a.hashType.anyoneCanPay = false → a.tx.inputs.map TxIn.sequence = b.tx.inputs.map TxIn.sequence
  prevout : a.hashType.anyoneCanPay = true →
    a.tx.inputs[a.index]?.map TxIn.prevout = b.tx.inputs[b.index]?.map TxIn.prevout
  sequence : a.hashType.anyoneCanPay = true →
    a.tx.inputs[a.index]?.map TxIn.sequence = b.tx.inputs[b.index]?.map TxIn.sequence
  spentOutput : a.hashType.anyoneCanPay = true → a.spent[a.index]? = b.spent[b.index]?
  outputs : a.hashType.signedOutputs = .all → a.tx.outputs = b.tx.outputs
  output : a.hashType.signedOutputs = .single → a.tx.outputs[a.index]? = b.tx.outputs[b.index]?
  tapscript : a.context.version = .tapscript ↔ b.context.version = .tapscript
  annexHash : a.context.annexHash = b.context.annexHash
  /-- A missing leaf counts as zeros. -/
  leafHash : a.context.version = .tapscript →
    a.context.leafHash.getD (Block.zero 32) = b.context.leafHash.getD (Block.zero 32)
  separatorPos : a.context.version = .tapscript → a.context.separatorPos = b.context.separatorPos

end TaprootCall

/-! ## Parts of the message -/

section Parts

variable {t : HashType} {x y : Bytes}

theorem taprootLists_inj {ha hb : TxHashes} {sa sb : SpentHashes}
    (h : taprootLists ha sa t ++ x = taprootLists hb sb t ++ y) :
    (t.anyoneCanPay = false → ha.prevouts = hb.prevouts ∧ sa.amounts = sb.amounts ∧ sa.scripts = sb.scripts ∧
      ha.sequences = hb.sequences) ∧
    (t.signedOutputs = .all → ha.outputs = hb.outputs) ∧ x = y := by
  have houtputs {x y : Bytes}
      (h : (if t.signedOutputs == .all then ha.outputs.val else []) ++ x =
        (if t.signedOutputs == .all then hb.outputs.val else []) ++ y) :
      (t.signedOutputs = .all → ha.outputs = hb.outputs) ∧ x = y := by
    by_cases hall : t.signedOutputs = .all
    · rw [hall] at h
      obtain ⟨ho, hxy⟩ := block_inj h
      exact ⟨fun _ => ho, hxy⟩
    · rw [if_neg (by simpa using hall), if_neg (by simpa using hall)] at h
      exact ⟨fun hn => absurd hn hall, h⟩
  unfold taprootLists at h
  cases hp : t.anyoneCanPay with
  | true =>
    rw [hp] at h
    exact ⟨nofun, houtputs h⟩
  | false =>
    rw [hp] at h
    simp only [Bool.false_eq_true, if_false, List.append_assoc] at h
    obtain ⟨hprevouts, h⟩ := block_inj h
    obtain ⟨hamounts, h⟩ := block_inj h
    obtain ⟨hscripts, h⟩ := block_inj h
    obtain ⟨hsequences, h⟩ := block_inj h
    exact ⟨fun _ => ⟨hprevouts, hamounts, hscripts, hsequences⟩, houtputs h⟩

theorem spendType_inj {ca cb : Context} (h : spendType ca = spendType cb) :
    (ca.version = .tapscript ↔ cb.version = .tapscript) ∧ ca.annexHash.isSome = cb.annexHash.isSome := by
  have hbits : ∀ s s' n n' : Bool,
      (if s then 2 else 0 : UInt8) + (if n then 1 else 0) = (if s' then 2 else 0) + (if n' then 1 else 0) →
        s = s' ∧ n = n' := by decide
  obtain ⟨hversion, hannex⟩ := hbits _ _ _ _ h
  exact ⟨by rw [← beq_iff_eq, hversion, beq_iff_eq], hannex⟩

theorem taprootInput_inj {ta tb : Transaction} {sa sb : SpentHashes} {i j : Nat} {p q : TxIn} {o u : TxOut}
    {pa pb : Bytes} (ha : taprootInput ta sa i p t = .ok pa) (hb : taprootInput tb sb j q t = .ok pb)
    (hoa : sa.outputs[i]? = some o) (hob : sb.outputs[j]? = some u) (hla : o.scriptPubKey.length < 2 ^ 64)
    (hlb : u.scriptPubKey.length < 2 ^ 64) (h : pa ++ x = pb ++ y) :
    (t.anyoneCanPay = false → i = j) ∧
    (t.anyoneCanPay = true → p.prevout = q.prevout ∧ p.sequence = q.sequence ∧ o = u) ∧ x = y := by
  unfold taprootInput at ha hb
  cases hp : t.anyoneCanPay with
  | true =>
    rw [hp, hoa] at ha
    rw [hp, hob] at hb
    cases ha
    cases hb
    simp only [Option.elim_some, List.append_assoc] at h
    obtain ⟨hprevout, h⟩ := (OutPoint.reads_encode _).inj (OutPoint.reads_encode _) h
    obtain ⟨hspent, h⟩ := (TxOut.reads_encode hla).inj (TxOut.reads_encode hlb) h
    obtain ⟨hsequence, h⟩ := le32_inj h
    exact ⟨nofun, fun _ => ⟨hprevout, hsequence, hspent⟩, h⟩
  | false =>
    rw [hp] at ha hb
    simp only [Bool.false_eq_true, if_false] at ha hb
    split at ha
    · split at hb
      · rename_i hi hj
        cases ha
        cases hb
        obtain ⟨hindex, h⟩ := (Reads.nat (w := 4) hi).inj (Reads.nat (w := 4) hj) h
        exact ⟨fun _ => hindex, nofun, h⟩
      · cases hb
    · cases ha

theorem annexPart_inj {p q : Option (Block 32)} (hs : p.isSome = q.isSome)
    (h : p.elim [] Subtype.val ++ x = q.elim [] Subtype.val ++ y) : p = q ∧ x = y := by
  cases p with
  | none =>
    cases q with
    | none => exact ⟨rfl, h⟩
    | some q => cases hs
  | some p =>
    cases q with
    | none => cases hs
    | some q =>
      obtain ⟨rfl, hxy⟩ := block_inj h
      exact ⟨rfl, hxy⟩

theorem taprootOutput_inj {ta tb : Transaction} {i j : Nat} {pa pb : Bytes} (ha : taprootOutput ta i t = .ok pa)
    (hb : taprootOutput tb j t = .ok pb) (h : pa ++ x = pb ++ y) :
    (t.signedOutputs = .single → ∃ o u, ta.outputs[i]? = some o ∧ tb.outputs[j]? = some u ∧
      Hash.sha256 o.encode = Hash.sha256 u.encode) ∧ x = y := by
  unfold taprootOutput at ha hb
  by_cases hs : t.signedOutputs = .single
  · rw [hs] at ha hb
    simp only [beq_self_eq_true, if_true] at ha hb
    split at ha
    · cases ha
    · split at hb
      · cases hb
      · rename_i _ o ho _ u hu
        cases ha
        cases hb
        obtain ⟨hhash, h⟩ := block_inj h
        exact ⟨fun _ => ⟨o, u, ho, hu, hhash⟩, h⟩
  · rw [if_neg (by simpa using hs)] at ha hb
    cases ha
    cases hb
    exact ⟨fun hn => absurd hn hs, h⟩

theorem tapscriptPart_inj {ca cb : Context} (hv : ca.version = .tapscript ↔ cb.version = .tapscript)
    (h : tapscriptPart ca = tapscriptPart cb) (ht : ca.version = .tapscript) :
    ca.leafHash.getD (Block.zero 32) = cb.leafHash.getD (Block.zero 32) ∧ ca.separatorPos = cb.separatorPos := by
  unfold tapscriptPart at h
  rw [ht, hv.mp ht] at h
  simp only [beq_self_eq_true, if_true, List.append_assoc] at h
  obtain ⟨hleaf, h⟩ := block_inj h
  have hpos : le32 ca.separatorPos = le32 cb.separatorPos := (List.cons.inj h).2
  exact ⟨hleaf, (le32_inj (congrArg (· ++ []) hpos)).1⟩

end Parts

/-! ## Calls -/

namespace TaprootCall

variable {a b c : TaprootCall} {m : Bytes}

theorem hashes_spent (c : TaprootCall) : c.hashes.spent = some c.spentHashes := if_pos c.aligned

/-- There is a message only if there is a signed input, and then it has all its parts. -/
theorem message_eq_ok (h : c.message = .ok m) :
    ∃ input output inputPart outputPart,
      c.tx.inputs[c.index]? = some input ∧ c.spent[c.index]? = some output ∧
      taprootInput c.tx c.spentHashes c.index input c.hashType = .ok inputPart ∧
      taprootOutput c.tx c.index c.hashType = .ok outputPart ∧
      m = [0, c.hashType.raw] ++ le32 c.tx.version.toUInt32 ++ le32 c.tx.lockTime
        ++ taprootLists c.hashes c.spentHashes c.hashType ++ [spendType c.context] ++ inputPart
        ++ c.context.annexHash.elim [] Subtype.val ++ outputPart ++ tapscriptPart c.context := by
  unfold message taprootMessage at h
  rw [hashes_spent] at h
  cases hinput : c.tx.inputs[c.index]? with
  | none => rw [hinput] at h; cases h
  | some input =>
    rw [hinput] at h
    have hlt : c.index < c.spent.length := by
      rw [c.aligned]
      exact (List.getElem?_eq_some_iff.mp hinput).1
    dsimp only at h
    split at h
    · cases h
    · obtain ⟨inputPart, hin, h⟩ := bind_eq_ok.mp h
      obtain ⟨outputPart, hout, h⟩ := bind_eq_ok.mp h
      cases h
      exact ⟨input, c.spent[c.index], inputPart, outputPart, rfl, List.getElem?_eq_getElem hlt, hin, hout, rfl⟩

/-- Unless two strings collide, equal hashes are hashes of one string. -/
theorem eq_of_sha256 (hno : ¬ Collide a b) {x y : Bytes} (hx : x ∈ a.hashed) (hy : y ∈ b.hashed)
    (h : Hash.sha256 x = Hash.sha256 y) : x = y :=
  Hash.eq_of_sha256 hno hx hy h

/-- Calls with one message agree on all that is covered, unless two strings collide. -/
theorem agrees_of_message_eq (hno : ¬ Collide a b) (ha : a.message = .ok m) (hb : b.message = .ok m) :
    Agrees a b := by
  obtain ⟨inA, spentA, inputA, outputA, hinA, hspentA, hinputA, houtputA, hmA⟩ := message_eq_ok ha
  obtain ⟨inB, spentB, inputB, outputB, hinB, hspentB, hinputB, houtputB, hmB⟩ := message_eq_ok hb
  have h := hmA.symm.trans hmB
  simp only [List.append_assoc, List.cons_append, List.nil_append] at h
  obtain ⟨hraw, h⟩ := List.cons.inj (List.cons.inj h).2
  -- from here on the layout is the same on both sides
  have ht : b.hashType = a.hashType := congrArg HashType.mk hraw.symm
  rw [ht] at h hinputB houtputB
  obtain ⟨hversion, h⟩ := le32_inj h
  obtain ⟨hlock, h⟩ := le32_inj h
  obtain ⟨hlists, houtputs, h⟩ := taprootLists_inj h
  obtain ⟨hspend, h⟩ := List.cons.inj h
  obtain ⟨htapscript, hannex⟩ := spendType_inj hspend
  obtain ⟨hindex, hinput, h⟩ := taprootInput_inj hinputA hinputB hspentA hspentB
    (a.spentLengths _ (List.mem_of_getElem? hspentA)) (b.spentLengths _ (List.mem_of_getElem? hspentB)) h
  obtain ⟨hannex, h⟩ := annexPart_inj hannex h
  obtain ⟨houtput, h⟩ := taprootOutput_inj houtputA houtputB h
  have htail := tapscriptPart_inj htapscript h
  refine
    { hashType := ht.symm
      version := congrArg UInt32.toInt32 hversion
      lockTime := hlock
      index := hindex
      prevouts := fun hp => prevoutList_eq_iff.mp ?_
      amounts := fun hp => amountList_eq_iff.mp ?_
      scripts := fun hp => (scriptList_eq_iff a.spentLengths b.spentLengths).mp ?_
      sequences := fun hp => sequenceList_eq_iff.mp ?_
      prevout := fun hp => by rw [hinA, hinB, Option.map_some, Option.map_some, (hinput hp).1]
      sequence := fun hp => by rw [hinA, hinB, Option.map_some, Option.map_some, (hinput hp).2.1]
      spentOutput := fun hp => by rw [hspentA, hspentB, (hinput hp).2.2]
      outputs := fun ho => outputList_inj a.outputLengths b.outputLengths ?_
      output := fun ho => ?_
      tapscript := htapscript
      annexHash := hannex
      leafHash := fun hv => (htail hv).1
      separatorPos := fun hv => (htail hv).2 }
  · exact eq_of_sha256 hno (by simp [hashed]) (by simp [hashed]) (hlists hp).1
  · exact eq_of_sha256 hno (by simp [hashed]) (by simp [hashed]) (hlists hp).2.1
  · exact eq_of_sha256 hno (by simp [hashed]) (by simp [hashed]) (hlists hp).2.2.1
  · exact eq_of_sha256 hno (by simp [hashed]) (by simp [hashed]) (hlists hp).2.2.2
  · exact eq_of_sha256 hno (by simp [hashed]) (by simp [hashed]) (houtputs ho)
  · obtain ⟨o, u, hoA, huB, hhash⟩ := houtput ho
    have hencode := eq_of_sha256 hno (by simp [hashed, ho, hoA]) (by simp [hashed, ht, ho, huB]) hhash
    have hlo := a.outputLengths o (List.mem_of_getElem? hoA)
    have hlu := b.outputLengths u (List.mem_of_getElem? huB)
    rw [hoA, huB, txOut_inj hlo hlu hencode]

namespace Agrees

theorem taprootLists_eq (h : Agrees a b) :
    taprootLists a.hashes a.spentHashes a.hashType = taprootLists b.hashes b.spentHashes b.hashType := by
  unfold taprootLists
  rw [← h.hashType]
  congr 1
  · split
    · rfl
    · rename_i hp
      have hp : a.hashType.anyoneCanPay = false := Bool.eq_false_iff.mpr hp
      have hprevouts : a.hashes.prevouts = b.hashes.prevouts :=
        congrArg Hash.sha256 (prevoutList_eq_iff.mpr (h.prevouts hp))
      have hamounts : a.spentHashes.amounts = b.spentHashes.amounts :=
        congrArg Hash.sha256 (amountList_eq_iff.mpr (h.amounts hp))
      have hscripts : a.spentHashes.scripts = b.spentHashes.scripts :=
        congrArg Hash.sha256 ((scriptList_eq_iff a.spentLengths b.spentLengths).mpr (h.scripts hp))
      have hsequences : a.hashes.sequences = b.hashes.sequences :=
        congrArg Hash.sha256 (sequenceList_eq_iff.mpr (h.sequences hp))
      rw [hprevouts, hamounts, hscripts, hsequences]
  · split
    · rename_i ho
      have houtputs : a.hashes.outputs = b.hashes.outputs :=
        congrArg (fun outputs => Hash.sha256 (outputList outputs)) (h.outputs (eq_of_beq ho))
      rw [houtputs]
    · rfl

theorem taprootInput_eq (h : Agrees a b) {inA inB : TxIn} {pa pb : Bytes} (hinA : a.tx.inputs[a.index]? = some inA)
    (hinB : b.tx.inputs[b.index]? = some inB)
    (ha : taprootInput a.tx a.spentHashes a.index inA a.hashType = .ok pa)
    (hb : taprootInput b.tx b.spentHashes b.index inB b.hashType = .ok pb) : pa = pb := by
  unfold taprootInput at ha hb
  rw [← h.hashType] at hb
  cases hp : a.hashType.anyoneCanPay with
  | true =>
    have hprevout := h.prevout hp
    have hsequence := h.sequence hp
    have hspent : a.spentHashes.outputs[a.index]? = b.spentHashes.outputs[b.index]? := h.spentOutput hp
    rw [hinA, hinB] at hprevout hsequence
    rw [hp, hspent, Option.some.inj hprevout, Option.some.inj hsequence] at ha
    rw [hp] at hb
    exact Except.ok.inj (ha.symm.trans hb)
  | false =>
    rw [hp, h.index hp] at ha
    rw [hp] at hb
    simp only [Bool.false_eq_true, if_false] at ha hb
    split at ha
    · rw [if_pos ‹_›] at hb
      exact Except.ok.inj (ha.symm.trans hb)
    · cases ha

theorem taprootOutput_eq (h : Agrees a b) {pa pb : Bytes} (ha : taprootOutput a.tx a.index a.hashType = .ok pa)
    (hb : taprootOutput b.tx b.index b.hashType = .ok pb) : pa = pb := by
  unfold taprootOutput at ha hb
  rw [← h.hashType] at hb
  split at ha
  · rename_i hs
    rw [if_pos hs, ← h.output (eq_of_beq hs)] at hb
    split at ha
    · cases ha
    · rename_i ho
      rw [ho] at hb
      exact Except.ok.inj (ha.symm.trans hb)
  · rw [if_neg ‹_›] at hb
    exact Except.ok.inj (ha.symm.trans hb)

theorem isTapscript_eq (h : Agrees a b) :
    (a.context.version == .tapscript) = (b.context.version == .tapscript) := by
  rw [Bool.eq_iff_iff, beq_iff_eq, beq_iff_eq]
  exact h.tapscript

theorem spendType_eq (h : Agrees a b) : spendType a.context = spendType b.context := by
  unfold spendType
  rw [h.isTapscript_eq, h.annexHash]

theorem tapscriptPart_eq (h : Agrees a b) : tapscriptPart a.context = tapscriptPart b.context := by
  unfold tapscriptPart
  rw [← h.isTapscript_eq]
  split
  · rename_i hv
    rw [h.leafHash (eq_of_beq hv), h.separatorPos (eq_of_beq hv)]
  · rfl

end Agrees

/-- What is not covered is not in the message. -/
theorem message_eq_of_agrees (h : Agrees a b) {m m' : Bytes} (ha : a.message = .ok m) (hb : b.message = .ok m') :
    m = m' := by
  obtain ⟨inA, spentA, inputA, outputA, hinA, -, hinputA, houtputA, rfl⟩ := message_eq_ok ha
  obtain ⟨inB, spentB, inputB, outputB, hinB, -, hinputB, houtputB, rfl⟩ := message_eq_ok hb
  rw [h.taprootInput_eq hinA hinB hinputA hinputB, h.taprootOutput_eq houtputA houtputB, h.taprootLists_eq,
    h.spendType_eq, h.tapscriptPart_eq, h.hashType, h.version, h.lockTime, h.annexHash]

theorem digest_eq_ok {x : Block 32} (h : c.digest = .ok x) :
    ∃ m, c.message = .ok m ∧ Hash.tagBlock "TapSighash" ++ m ∈ c.hashed ∧
      x = Hash.sha256 (Hash.tagBlock "TapSighash" ++ m) := by
  have hmap : c.digest = c.message.map (Hash.tagged "TapSighash") := rfl
  cases hm : c.message with
  | error e => rw [hmap, hm] at h; cases h
  | ok m =>
    rw [hmap, hm] at h
    cases h
    exact ⟨m, rfl, by simp [hashed, hm, Except.toOption], rfl⟩

/-- Two calls with one digest agree on all that is covered, or two strings that were hashed
    for them collide. Calls that agree have one digest. -/
theorem digest_commits (a b : TaprootCall) {x y : Block 32} (ha : a.digest = .ok x) (hb : b.digest = .ok y) :
    (x = y → Collide a b ∨ Agrees a b) ∧ (Agrees a b → x = y) := by
  obtain ⟨m, hm, hmem, rfl⟩ := digest_eq_ok ha
  obtain ⟨m', hm', hmem', rfl⟩ := digest_eq_ok hb
  constructor
  · intro h
    by_cases hc : Collide a b
    · exact Or.inl hc
    · have hblocks := eq_of_sha256 hc hmem hmem' h
      rw [← List.append_cancel_left hblocks] at hm'
      exact Or.inr (agrees_of_message_eq hc hm hm')
  · intro h
    rw [message_eq_of_agrees h hm hm']

/-- One input on its own, and behind another one: a signature without outputs that lets
    others add inputs covers no more. -/
theorem digest_commits_anyoneCanPay :
    ∃ a b : TaprootCall, a.index ≠ b.index ∧ a.tx.inputs.length ≠ b.tx.inputs.length ∧
      a.tx.outputs ≠ b.tx.outputs ∧ ∃ x, a.digest = .ok x ∧ b.digest = .ok x := by
  have hcalls : ∃ a b : TaprootCall, (a.index ≠ b.index ∧ a.tx.inputs.length ≠ b.tx.inputs.length ∧
      a.tx.outputs ≠ b.tx.outputs) ∧ Agrees a b ∧ (∃ x, a.digest = .ok x) ∧ ∃ y, b.digest = .ok y :=
    ⟨⟨⟨2, [⟨⟨Block.zero 32, 1⟩, [], 7, []⟩], [⟨5, [0x51]⟩], 0⟩, [⟨9, [0x52]⟩], 0, ⟨0x82⟩,
        Context.fresh .tapscript, rfl, by decide, by decide⟩,
      ⟨⟨2, [⟨⟨Block.zero 32, 0⟩, [], 8, []⟩, ⟨⟨Block.zero 32, 1⟩, [0x51], 7, []⟩], [], 0⟩, [⟨3, []⟩, ⟨9, [0x52]⟩], 1,
        ⟨0x82⟩, Context.fresh .tapscript, rfl, by decide, by decide⟩,
      by decide, by constructor <;> decide, ⟨_, rfl⟩, ⟨_, rfl⟩⟩
  obtain ⟨a, b, ⟨hindex, hinputs, houtputs⟩, hagrees, ⟨x, hx⟩, ⟨y, hy⟩⟩ := hcalls
  have hxy := (digest_commits a b hx hy).2 hagrees
  exact ⟨a, b, hindex, hinputs, houtputs, x, hx, hxy ▸ hy⟩

end TaprootCall

end SpendScript.Digest

/-
  SpendScript.Proofs.Outputs — output scripts are recognised with the data they were built from.

  A pattern is written with the shortest pushes of its data, read again as opcodes and compared
  with one template after the other. The forms overlap: a key and a program are both direct
  pushes, and a multisignature script may start like a program. So what has to be shown is that
  no push changes its form on the way and that no earlier template takes the script.
  - `Pattern.push?_of_length`: data of 2 to 75 bytes is pushed directly. Keys and programs are.
  - `Template.smallNumber?_ofNumber`: a number up to sixteen is pushed as a constant.
  - `Template.ofOpcodes?_multiSig`: a script that starts with a push and is long enough is looked
    at for a multisignature only, and `Template.mapM_keyPush?` says that its keys are read back.
  `Template.pattern_classified` puts them together.
-/

import SpendScript.Proofs.MinimalPush
import SpendScript.Proofs.Recognition
import SpendScript.Script.Pattern

namespace SpendScript

/-! ## Pushes -/

theorem Curve.Key.length_of_wellFormed {key : Bytes} (h : wellFormed key = true) : key.length = 33 ∨ key.length = 65 := by
  unfold wellFormed impliedSize compressedSize uncompressedSize at h
  rw [beq_iff_eq] at h
  split at h
  · split_ifs at h
    · exact .inl (Option.some_inj.mp h).symm
    · exact .inr (Option.some_inj.mp h).symm
  · cases h

theorem Pattern.push?_of_length {v : Bytes} (h : 2 ≤ v.length ∧ v.length ≤ 75) :
    push? v = some (.push (.direct v ⟨by omega, h.2⟩)) := by
  unfold push?
  rw [Push.ofBytes?_of_not_isConstant (Push.not_isConstant_of_length h.1), if_pos h.2, Push.direct?,
    dif_pos ⟨by omega, h.2⟩]
  rfl

namespace Template

theorem smallNumber?_ofNumber {n : Nat} (h : n ≤ 16) : smallNumber? (Push.ofNumber n) = some n := by
  have hall : ∀ n : Fin 17, smallNumber? (Push.ofNumber n.val) = some n.val := by decide +kernel
  exact hall ⟨n, by omega⟩

theorem key?_of_wellFormed {key : Bytes} (h : Curve.Key.wellFormed key = true) : key? key = some key := if_pos h

/-! ## Programs -/

theorem classify?_numbered {v : Nat} (hv : v ≤ 16) {p : Bytes} (hp : 2 ≤ p.length ∧ p.length ≤ 40) (size) :
    classify? (Script.encode [Pattern.number v, .push (.direct p size)]) = ofProgram? v p := by
  have hprogram : Script.witnessProgram? (Script.encode [Pattern.number v, .push (.direct p size)]) = some (v, p) :=
    Script.witnessProgram?_eq_some.mpr ⟨_, size, smallNumber?_ofNumber hv, hp, rfl⟩
  exact classify?_of_program hprogram

theorem classify?_block {v n : Nat} (hv : v ≤ 16) (b : Block n) (hn : 2 ≤ n ∧ n ≤ 40) (h) :
    classify? (Script.encode [Pattern.number v, Pattern.block b h]) = ofProgram? v b.val :=
  classify?_numbered hv (by rw [b.property]; exact hn) _

/-- The version and the size tell what a program of a later version is. -/
theorem ofProgram?_of_pos {v : Nat} (hv : 1 ≤ v) (p : Bytes) :
    ofProgram? v p = some (if h : v = 1 ∧ p.length = 32 then .taproot ⟨p, h.2⟩
      else if v = 1 ∧ p = [0x4e, 0x73] then .anchor else .witnessUnknown v p) := by
  rw [ofProgram?_eq_some]
  split_ifs with htaproot hanchor
  · exact ⟨htaproot.1, rfl⟩
  · exact hanchor
  · refine ⟨rfl, rfl, hv, ?_⟩
    rintro ⟨hone, hlength | hbytes⟩
    · exact htaproot ⟨hone, hlength⟩
    · exact hanchor ⟨hone, hbytes⟩

theorem classify?_witnessProgram {v : Nat} (hv : v ≤ 16) {p : Bytes} (hp : 2 ≤ p.length ∧ p.length ≤ 40) :
    ∃ ops, Pattern.witnessProgram v p = some ops ∧ classify? (Script.encode ops) = ofProgram? v p := by
  refine ⟨_, ?_, classify?_numbered hv hp ⟨by omega, by omega⟩⟩
  rw [Pattern.witnessProgram, if_pos hv, Pattern.push?_of_length ⟨hp.1, by omega⟩]
  rfl

/-! ## Keys -/

theorem classify?_payToPubKey {key : Bytes} (h : Curve.Key.wellFormed key = true) :
    ∃ ops, Pattern.payToPubKey key = some ops ∧ classify? (Script.encode ops) = some (.pubKey key) := by
  have hlength := Curve.Key.length_of_wellFormed h
  refine ⟨[.push (.direct key ⟨by omega, by omega⟩), .operation .checkSig], ?_, ?_⟩
  · rw [Pattern.payToPubKey, Pattern.checkSig, Pattern.push?_of_length ⟨by omega, by omega⟩]
    rfl
  · rw [classify?_encode]
    simp [ofOpcodes?, key?_of_wellFormed h]

/-- The pushes of keys give the keys back. -/
theorem mapM_keyPush? {keys : List Bytes} (h : ∀ key ∈ keys, Curve.Key.wellFormed key = true) :
    ∃ pushes, keys.mapM Pattern.push? = some pushes ∧ pushes.mapM keyPush? = some keys ∧
      pushes.length = keys.length := by
  induction keys with
  | nil => exact ⟨[], rfl, rfl, rfl⟩
  | cons key keys ih =>
    rw [List.forall_mem_cons] at h
    have hlength := Curve.Key.length_of_wellFormed h.1
    obtain ⟨pushes, hpushes, hkeys, hcount⟩ := ih h.2
    refine ⟨.push (.direct key ⟨by omega, by omega⟩) :: pushes, ?_, ?_, congrArg Nat.succ hcount⟩
    · rw [List.mapM_cons, Pattern.push?_of_length ⟨by omega, by omega⟩, hpushes]
      rfl
    · have hkey : keyPush? (.push (.direct key ⟨by omega, by omega⟩)) = some key := key?_of_wellFormed h.1
      rw [List.mapM_cons, hkey, hkeys]
      rfl

/-- With three opcodes or more behind its first push, a script is too long for the other templates
    that start with a push. -/
theorem ofOpcodes?_multiSig (required : Push) {rest : List Opcode} (h : 3 ≤ rest.length) :
    ofOpcodes? (.push required :: rest) = multiSig? required rest := by
  match rest, h with
  | a :: b :: c :: rest, _ => simp [ofOpcodes?]

theorem multiSig?_of_keys {required count : Push} {k n : Nat} (hrequired : smallNumber? required = some k)
    (hcount : smallNumber? count = some n) (hk : 1 ≤ k ∧ k ≤ n) {pushes : List Opcode} {keys : List Bytes}
    (hkeys : pushes.mapM keyPush? = some keys) (hn : keys.length = n) :
    multiSig? required (pushes ++ [.push count, .operation .checkMultiSig]) = some (.multiSig k keys) := by
  unfold multiSig?
  rw [List.reverse_append]
  simp [hrequired, hcount, hkeys, hk, hn]

theorem classify?_checkMultiSig {k : Nat} {keys : List Bytes} (hk : 1 ≤ k ∧ k ≤ keys.length) (hn : keys.length ≤ 16)
    (hkeys : ∀ key ∈ keys, Curve.Key.wellFormed key = true) :
    ∃ ops, Pattern.checkMultiSig k keys false = some ops ∧ classify? (Script.encode ops) = some (.multiSig k keys) := by
  obtain ⟨pushes, hpushes, hread, hcount⟩ := mapM_keyPush? hkeys
  refine ⟨.push (Push.ofNumber k) :: (pushes ++ [.push (Push.ofNumber keys.length), .operation .checkMultiSig]), ?_, ?_⟩
  · rw [Pattern.checkMultiSig, hpushes]
    rfl
  · rw [classify?_encode, ofOpcodes?_multiSig]
    · exact multiSig?_of_keys (smallNumber?_ofNumber (by omega)) (smallNumber?_ofNumber hn) hk hread rfl
    · rw [List.length_append, List.length_cons, List.length_singleton]
      omega

/-! ## Data -/

theorem classify?_nullData {data : Bytes} (h : data.length ≤ Push.maxData) :
    ∃ ops push, Pattern.nullData data = some ops ∧ push.value = data ∧ push.isMinimal = true ∧
      classify? (Script.encode ops) = some (.nullData [push]) := by
  obtain ⟨push, hpush⟩ := Push.exists_ofBytes? h
  obtain ⟨hvalue, hsize⟩ := Push.ofBytes?_eq_some hpush
  refine ⟨[.operation .abort, .push push], push, ?_, hvalue, ?_, ?_⟩
  · rw [Pattern.nullData, Pattern.push?, hpush]
    rfl
  · rw [Push.isMinimal_iff_size, hvalue]
    exact hsize
  · rw [classify?_encode]
    rfl

/-! ## Output scripts -/

/-- Every output script is recognised as what it was built as, with the data it was built from. A
    program is what its version and its bytes make it, data is carried by its minimal push, and the
    keys of a multisignature script come in the order they were given. -/
theorem pattern_classified :
    (∀ key, Curve.Key.wellFormed key = true →
      ∃ ops, Pattern.payToPubKey key = some ops ∧ classify? (Script.encode ops) = some (.pubKey key)) ∧
    (∀ key, classify? (Script.encode (Pattern.payToPubKeyHash key)) = some (.pubKeyHash (Hash.hash160 key))) ∧
    (∀ redeem, classify? (Script.encode (Pattern.payToScriptHash redeem)) = some (.scriptHash (Hash.hash160 redeem))) ∧
    (∀ key, classify? (Script.encode (Pattern.payToWitnessPubKeyHash key)) = some (.witnessKeyHash (Hash.hash160 key))) ∧
    (∀ script, classify? (Script.encode (Pattern.payToWitnessScriptHash script)) =
      some (.witnessScriptHash (Hash.sha256 script))) ∧
    (∀ outputKey, classify? (Script.encode (Pattern.payToTaproot outputKey)) = some (.taproot outputKey)) ∧
    (∀ v p, (1 ≤ v ∧ v ≤ 16) → (2 ≤ p.length ∧ p.length ≤ 40) →
      ∃ ops, Pattern.witnessProgram v p = some ops ∧
        classify? (Script.encode ops) =
          some (if h : v = 1 ∧ p.length = 32 then .taproot ⟨p, h.2⟩
            else if v = 1 ∧ p = [0x4e, 0x73] then .anchor else .witnessUnknown v p)) ∧
    (∀ data, data.length ≤ 520 →
      ∃ ops push, Pattern.nullData data = some ops ∧ push.value = data ∧ push.isMinimal = true ∧
        classify? (Script.encode ops) = some (.nullData [push])) ∧
    ∀ k keys, (1 ≤ k ∧ k ≤ keys.length) → keys.length ≤ 16 → (∀ key ∈ keys, Curve.Key.wellFormed key = true) →
      ∃ ops, Pattern.checkMultiSig k keys false = some ops ∧
        classify? (Script.encode ops) = some (.multiSig k keys) := by
  refine ⟨fun key => classify?_payToPubKey, fun key => ?_, fun redeem => ?_, fun key => ?_, fun script => ?_,
    fun outputKey => ?_, fun v p hv hp => ?_, fun data => classify?_nullData, fun k keys => classify?_checkMultiSig⟩
  · rw [classify?_encode]
    simp [Pattern.payToPubKeyHash, Pattern.payToPubKeyHashOf, Pattern.equals, Pattern.op, Pattern.block20,
      Pattern.block, ofOpcodes?]
  · rw [classify?_encode]
    simp [Pattern.payToScriptHash, Pattern.op, Pattern.block20, Pattern.block, ofOpcodes?]
  · exact (classify?_block (v := 0) (by decide) _ (by decide) _).trans (ofProgram?_eq_some.mpr ⟨rfl, rfl⟩)
  · exact (classify?_block (v := 0) (by decide) _ (by decide) _).trans (ofProgram?_eq_some.mpr ⟨rfl, rfl⟩)
  · exact (classify?_block (v := 1) (by decide) _ (by decide) _).trans (ofProgram?_eq_some.mpr ⟨rfl, rfl⟩)
  · rw [← ofProgram?_of_pos hv.1]
    exact classify?_witnessProgram hv.2 hp

/-- One of a compressed and an uncompressed key, and the two bytes that are no program of an
    unknown kind. -/
theorem pattern_classified_two :
    let keys : List Bytes := [0x02 :: List.replicate 32 7, 0x04 :: List.replicate 64 9]
    (∃ ops, Pattern.checkMultiSig 1 keys false = some ops ∧
      classify? (Script.encode ops) = some (.multiSig 1 keys)) ∧
    ∃ ops, Pattern.witnessProgram 1 [0x4e, 0x73] = some ops ∧ classify? (Script.encode ops) = some .anchor := by
  intro keys
  obtain ⟨-, -, -, -, -, -, hprogram, -, hmultiSig⟩ := pattern_classified
  refine ⟨hmultiSig 1 keys (by decide) (by decide) (by decide), ?_⟩
  obtain ⟨ops, hops, hclassify⟩ := hprogram 1 [0x4e, 0x73] (by decide) (by decide)
  exact ⟨ops, hops, hclassify⟩

end Template

end SpendScript

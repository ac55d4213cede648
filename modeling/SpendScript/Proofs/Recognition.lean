/-
  SpendScript.Proofs.Recognition — templates and spends tell the same scripts apart.

  Whether a script is a witness program or a script hash is told twice. A spend looks at the
  bytes (`Script.witnessProgram?`, `Script.isPayToScriptHash`); a template is found by reading
  all opcodes and matching their list (`Template.classify?`). Each side is brought to the
  opcodes that such a script is written with:
  - `Script.witnessProgram?_eq_some` / `Script.isPayToScriptHash_iff`: from the bytes.
  - `Template.classify?_eq_some`: from the template, whose script is the opcodes written.
  - `Template.classify?_program_iff` / `Template.classify?_eq_some_scriptHash`: so the template
    of a program stands for its version and data, and that of a script hash for the hash.
  - `Template.classification_agrees`: what this says of each template.
-/

import SpendScript.Proofs.Component
import SpendScript.Script.Template

namespace SpendScript

/-! ## From the bytes -/

namespace Script

/-- The opcodes of the versions zero to sixteen are the small numbers. -/
theorem smallNumber_byte {b : UInt8} {v : Nat} :
    (∃ version : Push, version.encode = [b] ∧ Template.smallNumber? version = some v) ↔
      (b = 0 ∧ v = 0) ∨ ((0x51 ≤ b ∧ b ≤ 0x60) ∧ v = b.toNat - 0x50) := by
  constructor
  · rintro ⟨version, he, hv⟩
    cases version with
    | zero =>
      cases he
      cases hv
      exact .inl ⟨rfl, rfl⟩
    | small k =>
      cases he
      cases hv
      refine .inr ?_
      revert k
      decide
    | _ => cases hv
  · rintro (⟨rfl, rfl⟩ | ⟨hb, rfl⟩)
    · exact ⟨.zero, rfl, rfl⟩
    · simp only [UInt8.le_iff_toNat_le, UInt8.reduceToNat] at hb
      refine ⟨.small ⟨b.toNat - 0x51, by omega⟩, ?_, ?_⟩
      · simp only [Push.encode]
        rw [show 0x51 + (b.toNat - 0x51) = b.toNat by omega, UInt8.ofNat_toNat]
      · simp only [Template.smallNumber?]
        congr 1
        omega

/-- A witness program is written as a small number and a direct push. -/
theorem witnessProgram?_eq_some {s : Bytes} {v : Nat} {p : Bytes} :
    witnessProgram? s = some (v, p) ↔
      ∃ version size, Template.smallNumber? version = some v ∧ (2 ≤ p.length ∧ p.length ≤ 40) ∧
        s = encode [.push version, .push (.direct p size)] := by
  constructor
  · intro h
    unfold witnessProgram? at h
    split at h
    · rename_i b size program
      split at h
      · rename_i hsize
        simp only [Bool.and_eq_true, decide_eq_true_eq, beq_iff_eq] at hsize
        obtain ⟨hbounds, hsize⟩ := hsize
        have hb : ((b = 0 ∧ v = 0) ∨ ((0x51 ≤ b ∧ b ≤ 0x60) ∧ v = b.toNat - 0x50)) ∧ program = p := by
          grind
        obtain ⟨hb, rfl⟩ := hb
        obtain ⟨version, he, hv⟩ := smallNumber_byte.mpr hb
        refine ⟨version, ⟨by omega, by omega⟩, hv, hbounds, ?_⟩
        show b :: size :: program = version.encode ++ ((UInt8.ofNat program.length :: program) ++ [])
        rw [he, ← hsize, UInt8.ofNat_toNat, List.append_nil]
        rfl
      · cases h
    · cases h
  · rintro ⟨version, size, hv, hbounds, rfl⟩
    have hlength : (UInt8.ofNat p.length).toNat = p.length := by
      rw [UInt8.toNat_ofNat']
      omega
    have hbyte : ∃ b, version.encode = [b] := by
      cases version with
      | zero | small k => exact ⟨_, rfl⟩
      | _ => cases hv
    obtain ⟨b, he⟩ := hbyte
    have hs : encode [.push version, .push (.direct p size)] = b :: UInt8.ofNat p.length :: p := by
      show version.encode ++ ((UInt8.ofNat p.length :: p) ++ []) = _
      rw [he, List.append_nil]
      rfl
    have hb := smallNumber_byte.mp ⟨version, he, hv⟩
    rw [hs]
    unfold witnessProgram?
    simp only [hbounds, hlength]
    grind

theorem encode_scriptHash {hash : Bytes} (hlength : hash.length = 20) (size) :
    encode [.operation (.hash .hash160), .push (.direct hash size), .operation .equal] =
      0xa9 :: 0x14 :: (hash ++ [0x87]) := by
  show [0xa9] ++ ((UInt8.ofNat hash.length :: hash) ++ ([0x87] ++ [])) = _
  rw [hlength]
  rfl

/-- A script hash is written as the hash between the two opcodes that compare it. -/
theorem isPayToScriptHash_iff {s : Bytes} :
    isPayToScriptHash s = true ↔
      ∃ hash size, hash.length = 20 ∧
        s = encode [.operation (.hash .hash160), .push (.direct hash size), .operation .equal] := by
  constructor
  · intro h
    simp only [isPayToScriptHash, Bool.and_eq_true, beq_iff_eq] at h
    obtain ⟨⟨⟨hlength, h0⟩, h1⟩, h22⟩ := h
    match s with
    | a :: b :: rest =>
      cases h0
      cases h1
      simp only [List.length_cons, List.getElem?_cons_succ] at hlength h22
      have htake : (rest.take 20).length = 20 := by
        rw [List.length_take]
        omega
      refine ⟨rest.take 20, ⟨by omega, by omega⟩, htake, ?_⟩
      rw [encode_scriptHash htake]
      have hlast : rest.drop 20 = [0x87] := by
        rw [List.drop_eq_getElem_cons (by omega), List.drop_of_length_le (by omega)]
        congr 1
        exact Option.some_inj.mp ((List.getElem?_eq_getElem _).symm.trans h22)
      rw [← hlast, List.take_append_drop]
      rfl
  · rintro ⟨hash, size, hlength, rfl⟩
    rw [encode_scriptHash hlength]
    simp [isPayToScriptHash, hlength, Operation.byte, HashOp.byte]

end Script

/-! ## From the template -/

namespace Template

variable {s : Bytes} {ops : List Opcode} {t : Template} {v : Nat} {p : Bytes}

theorem classify?_encode (ops : List Opcode) : classify? (Script.encode ops) = ofOpcodes? ops := by
  have h : (Component.parse (Script.encode ops) : Except ScriptError (Component Opcode)) = .ok ⟨ops⟩ := by
    unfold Component.parse
    rw [mapM_of_map_eq_ok (r := ops)]
    · rfl
    · rw [Script.items_encode, List.map_map]
      rfl
  rw [classify?, h]

/-- A template is that of a list of opcodes, and the script is how they are written. -/
theorem classify?_eq_some :
    classify? s = some t ↔ ∃ ops, s = Script.encode ops ∧ ofOpcodes? ops = some t := by
  constructor
  · intro h
    unfold classify? at h
    split at h
    · rename_i c hc
      exact ⟨c.ops, (Component.bytes_of_spells (Component.spells_of_parse restoresItem_opcode hc)).symm, h⟩
    · cases h
  · rintro ⟨ops, rfl, h⟩
    rw [classify?_encode, h]

/-- The templates of witness programs. -/
def isProgram : Template → Bool
  | .witnessKeyHash _ | .witnessScriptHash _ | .taproot _ | .anchor | .witnessUnknown _ _ => true
  | _ => false

/-- The version and the data of the program that a template stands for. -/
def StandsFor (v : Nat) (p : Bytes) : Template → Prop
  | .witnessKeyHash hash => v = 0 ∧ p = hash.val
  | .witnessScriptHash hash => v = 0 ∧ p = hash.val
  | .taproot key => v = 1 ∧ p = key.val
  | .anchor => v = 1 ∧ p = [0x4e, 0x73]
  | .witnessUnknown version program =>
    v = version ∧ p = program ∧ 1 ≤ v ∧ ¬(v = 1 ∧ (p.length = 32 ∨ p = [0x4e, 0x73]))
  | _ => False

theorem StandsFor.isProgram (h : t.StandsFor v p) : t.isProgram = true := by
  cases t with
  | witnessKeyHash _ | witnessScriptHash _ | taproot _ | anchor | witnessUnknown _ _ => rfl
  | _ => cases h

theorem ofProgram?_eq_some : ofProgram? v p = some t ↔ t.StandsFor v p := by
  constructor
  · intro h
    unfold ofProgram? at h
    split at h
    · rename_i hv
      split at h
      · cases h
        exact ⟨hv, Block.ofBytes?_eq_some.mp ‹_›⟩
      · cases h
        exact ⟨hv, Block.ofBytes?_eq_some.mp ‹_›⟩
      · cases h
    · split at h
      · rename_i hv
        split at h
        · cases h
          exact ⟨hv, Block.ofBytes?_eq_some.mp ‹_›⟩
        · rename_i hp
          have hlength := Block.ofBytes?_eq_none.mp hp
          split at h
          · rename_i ha
            cases h
            exact ⟨hv, eq_of_beq ha⟩
          · rename_i ha
            cases h
            refine ⟨hv, rfl, by omega, ?_⟩
            rintro ⟨-, h32 | hanchor⟩
            · exact hlength h32
            · exact ha (beq_of_eq hanchor)
      · cases h
        refine ⟨rfl, rfl, by omega, fun h => by omega⟩
  · intro h
    cases t with
    | witnessKeyHash hash =>
      obtain ⟨rfl, rfl⟩ := h
      simp [ofProgram?]
    | witnessScriptHash hash =>
      obtain ⟨rfl, rfl⟩ := h
      have h20 : Block.ofBytes? 20 hash.val = none := Block.ofBytes?_eq_none.mpr (by rw [hash.property]; decide)
      simp [ofProgram?, h20]
    | taproot key =>
      obtain ⟨rfl, rfl⟩ := h
      simp [ofProgram?]
    | anchor =>
      obtain ⟨rfl, rfl⟩ := h
      rfl
    | witnessUnknown version program =>
      obtain ⟨rfl, rfl, hv, hp⟩ := h
      have := Block.ofBytes?_eq_none (n := 32) (b := p)
      grind [ofProgram?, Witness.anchorProgram]
    | _ => cases h

theorem multiSig?_eq_some {required : Push} {rest : List Opcode} (h : multiSig? required rest = some t) :
    ∃ n keys, t = .multiSig n keys := by
  unfold multiSig? at h
  split at h
  · simp only [Option.bind_eq_bind, Option.bind_eq_some_iff] at h
    grind
  · cases h

/-- The opcodes of a template are a version with its data, or a script hash, or else they make
    a template of another kind. -/
theorem ofOpcodes?_cases (h : ofOpcodes? ops = some t) :
    (∃ version v p size, ops = [.push version, .push (.direct p size)] ∧ smallNumber? version = some v ∧
      (2 ≤ p.length ∧ p.length ≤ 40) ∧ ofProgram? v p = some t) ∨
    (∃ (hash : Block 20) (size : _),
      ops = [.operation (.hash .hash160), .push (.direct hash.val size), .operation .equal] ∧
        t = .scriptHash hash) ∨
    (t.isProgram = false ∧ ∀ hash, t ≠ .scriptHash hash) := by
  unfold ofOpcodes? at h
  split at h
  · rename_i version p size
    obtain ⟨v, hv, h⟩ := Option.bind_eq_some_iff.mp h
    split at h
    · rename_i hp
      rw [Bool.and_eq_true, decide_eq_true_eq, decide_eq_true_eq] at hp
      exact .inl ⟨version, v, p, size, rfl, hv, hp, h⟩
    · cases h
  · obtain ⟨hash, hh, rfl⟩ := Option.map_eq_some_iff.mp h
    obtain rfl := Block.ofBytes?_eq_some.mp hh
    exact .inr (.inl ⟨hash, _, rfl, rfl⟩)
  · obtain ⟨hash, -, rfl⟩ := Option.map_eq_some_iff.mp h
    exact .inr (.inr ⟨rfl, fun _ h => by cases h⟩)
  · obtain ⟨data, -, rfl⟩ := Option.map_eq_some_iff.mp h
    exact .inr (.inr ⟨rfl, fun _ h => by cases h⟩)
  · obtain ⟨key, -, rfl⟩ := Option.map_eq_some_iff.mp h
    exact .inr (.inr ⟨rfl, fun _ h => by cases h⟩)
  · obtain ⟨n, keys, rfl⟩ := multiSig?_eq_some h
    exact .inr (.inr ⟨rfl, fun _ h => by cases h⟩)
  · cases h

/-- A program is classified by its version and its data. -/
theorem classify?_of_program (h : Script.witnessProgram? s = some (v, p)) : classify? s = ofProgram? v p := by
  obtain ⟨version, size, hv, hp, rfl⟩ := Script.witnessProgram?_eq_some.mp h
  rw [classify?_encode]
  simp [ofOpcodes?, hv, hp]

/-- What is classified as a program is one, and what is one is classified as what stands for it. -/
theorem classify?_program_iff :
    classify? s = some t ∧ t.isProgram = true ↔
      ∃ v p, Script.witnessProgram? s = some (v, p) ∧ t.StandsFor v p := by
  constructor
  · rintro ⟨h, ht⟩
    obtain ⟨ops, rfl, hops⟩ := classify?_eq_some.mp h
    obtain ⟨version, v, p, size, rfl, hv, hp, hof⟩ | ⟨hash, _, -, rfl⟩ | ⟨hf, -⟩ := ofOpcodes?_cases hops
    · exact ⟨v, p, Script.witnessProgram?_eq_some.mpr ⟨version, size, hv, hp, rfl⟩, ofProgram?_eq_some.mp hof⟩
    · cases ht
    · rw [ht] at hf
      cases hf
  · rintro ⟨v, p, hs, h⟩
    exact ⟨by rw [classify?_of_program hs, ofProgram?_eq_some.mpr h], h.isProgram⟩

theorem classify?_eq_some_scriptHash {hash : Block 20} :
    classify? s = some (.scriptHash hash) ↔
      Script.isPayToScriptHash s = true ∧ hash.val = (s.drop 2).take 20 := by
  rw [classify?_eq_some, Script.isPayToScriptHash_iff]
  constructor
  · rintro ⟨ops, rfl, hops⟩
    obtain ⟨version, v, p, size, -, -, -, hof⟩ | ⟨_, size, rfl, ht⟩ | ⟨-, hf⟩ := ofOpcodes?_cases hops
    · cases ofProgram?_eq_some.mp hof
    · cases ht
      refine ⟨⟨hash.val, size, hash.property, rfl⟩, ?_⟩
      rw [Script.encode_scriptHash hash.property]
      simp [hash.property]
    · cases hf hash rfl
  · rintro ⟨⟨bytes, size, hlength, rfl⟩, hb⟩
    refine ⟨_, rfl, ?_⟩
    rw [Script.encode_scriptHash hlength] at hb
    have hv : bytes = hash.val := by simp [hb, hlength]
    subst hv
    simp [ofOpcodes?]

/-! ## Agreement -/

/-- A template found by its opcodes is the one that the spend goes by: programs are told by
    their version and data, version 0 of other sizes is no template, and a script hash is told
    by its 23 bytes. -/
theorem classification_agrees (s : Bytes) :
    (∀ hash : Block 20, classify? s = some (.witnessKeyHash hash) ↔
      Script.witnessProgram? s = some (0, hash.val)) ∧
    (∀ hash : Block 32, classify? s = some (.witnessScriptHash hash) ↔
      Script.witnessProgram? s = some (0, hash.val)) ∧
    (∀ key : Block 32, classify? s = some (.taproot key) ↔
      Script.witnessProgram? s = some (1, key.val)) ∧
    (classify? s = some .anchor ↔ Script.witnessProgram? s = some (1, [0x4e, 0x73])) ∧
    (∀ v p, classify? s = some (.witnessUnknown v p) ↔
      Script.witnessProgram? s = some (v, p) ∧ 1 ≤ v ∧
        ¬(v = 1 ∧ (p.length = 32 ∨ p = [0x4e, 0x73]))) ∧
    (∀ p, Script.witnessProgram? s = some (0, p) → p.length ≠ 20 → p.length ≠ 32 → classify? s = none) ∧
    (∀ hash : Block 20, classify? s = some (.scriptHash hash) ↔
      Script.isPayToScriptHash s = true ∧ hash.val = (s.drop 2).take 20) := by
  refine ⟨fun hash => ?_, fun hash => ?_, fun key => ?_, ?_, fun v p => ?_, fun p h h20 h32 => ?_,
    fun hash => classify?_eq_some_scriptHash⟩
  · simpa [isProgram, StandsFor] using classify?_program_iff (s := s) (t := .witnessKeyHash hash)
  · simpa [isProgram, StandsFor] using classify?_program_iff (s := s) (t := .witnessScriptHash hash)
  · simpa [isProgram, StandsFor] using classify?_program_iff (s := s) (t := .taproot key)
  · simpa [isProgram, StandsFor] using classify?_program_iff (s := s) (t := .anchor)
  · simpa [isProgram, StandsFor] using classify?_program_iff (s := s) (t := .witnessUnknown v p)
  · rw [classify?_of_program h]
    simp [ofProgram?, Block.ofBytes?_eq_none.mpr h20, Block.ofBytes?_eq_none.mpr h32]

/-- A version 0 program of two bytes can be read, and is no template. -/
theorem classification_agrees_short :
    Script.witnessProgram? [0x00, 0x02, 0x01, 0x02] = some (0, [0x01, 0x02]) ∧
      classify? [0x00, 0x02, 0x01, 0x02] = none := by
  have h : Script.witnessProgram? [0x00, 0x02, 0x01, 0x02] = some (0, [0x01, 0x02]) := by decide
  exact ⟨h, (classification_agrees [0x00, 0x02, 0x01, 0x02]).2.2.2.2.2.1 _ h (by decide) (by decide)⟩

end Template

end SpendScript

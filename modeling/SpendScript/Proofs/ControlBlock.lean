/-
  SpendScript.Proofs.ControlBlock — control blocks and their bytes.

  A control block is read from any bytes of the right size: the first byte splits into a
  version and a parity, and the bytes behind the internal key are cut into nodes. So the size
  alone tells what can be read, and nothing is lost in reading; but not every control block
  can be written so that it is read back, since an odd version takes the bit of the parity.
  - `ControlBlock.nodes_of_length` / `ControlBlock.first_byte_split`: what is cut up is put
    together again.
  - `ControlBlock.parse_of_length` / `ControlBlock.length_of_parse`: what is read, and when.
  - `ControlBlock.parse_eq_ok`: the blocks that are read are those with an even version and a
    path that is not too long, and they are read from what they are written as.
  `ControlBlock.parse_inverse_encode` puts them together.
-/

import SpendScript.Proofs.TaprootTree

namespace SpendScript.Taproot.ControlBlock

variable {b : Bytes} {c : ControlBlock}

/-! ## Parts -/

theorem nodes_of_length (k : Nat) {b : Bytes} (h : b.length = nodeSize * k) :
    (nodes k b).flatMap Subtype.val = b ∧ (nodes k b).length = k := by
  induction k generalizing b with
  | zero =>
    rw [List.length_eq_zero_iff.mp h]
    exact ⟨rfl, rfl⟩
  | succ k ih =>
    unfold nodeSize at h ih
    have htake : (b.take 32).length = 32 := by
      rw [List.length_take]
      omega
    have hnode : Block.ofBytes? 32 (b.take 32) = some ⟨b.take 32, htake⟩ := Block.ofBytes?_val ⟨b.take 32, htake⟩
    obtain ⟨hbytes, hlength⟩ := ih (b := b.drop 32) (by rw [List.length_drop]; omega)
    constructor
    · rw [nodes, hnode, List.flatMap_cons, hbytes, List.take_append_drop]
    · rw [nodes, hnode, List.length_cons, hlength]

/-- The version and the parity make up the first byte, whatever it is. -/
theorem first_byte_split : ∀ first : UInt8,
    ((first &&& versionMask) ||| if first &&& 1 == 1 then 1 else 0) = first := by
  decide +kernel

theorem masked_iff_even : ∀ version : UInt8, version &&& versionMask = version ↔ version.toNat % 2 = 0 := by
  decide +kernel

/-! ## What can be read -/

/-- Bytes of the right size are read, and written again as they stood. -/
theorem parse_of_length {m : Nat} (hm : m ≤ maxDepth) (hb : b.length = baseSize + nodeSize * m) :
    ∃ c, parse b = .ok c ∧ c.encode = b ∧ c.version.toNat % 2 = 0 ∧ c.path.length = m := by
  unfold baseSize nodeSize at hb
  cases b with
  | nil =>
    rw [List.length_nil] at hb
    omega
  | cons first rest =>
    have hrest : rest.length = 32 + 32 * m := by
      rw [List.length_cons] at hb
      omega
    have hkey : (rest.take 32).length = 32 := by
      rw [List.length_take]
      omega
    have hpath : (rest.drop 32).length = nodeSize * m := by
      rw [List.length_drop, hrest, nodeSize]
      omega
    obtain ⟨hbytes, hlength⟩ := nodes_of_length m hpath
    refine ⟨⟨first &&& versionMask, first &&& 1 == 1, ⟨rest.take 32, hkey⟩, nodes m (rest.drop 32)⟩, ?_, ?_, ?_, hlength⟩
    · have hread : Block.ofBytes? 32 (((first :: rest).drop 1).take 32) = some ⟨rest.take 32, hkey⟩ :=
        Block.ofBytes?_val ⟨rest.take 32, hkey⟩
      have hdrop : (first :: rest).drop baseSize = rest.drop 32 := rfl
      have hcount : nodeSize * m / nodeSize = m := Nat.mul_div_cancel_left m (by decide)
      unfold parse
      rw [hread, hdrop]
      simp only [hpath, hcount]
      rw [if_pos (by simp [hm])]
    · simp only [encode, first_byte_split, hbytes, List.take_append_drop]
    · rw [← masked_iff_even, UInt8.and_assoc, UInt8.and_self]

theorem length_of_parse (h : parse b = .ok c) : ∃ m ≤ maxDepth, b.length = baseSize + nodeSize * m := by
  unfold parse at h
  split at h
  · rename_i first rest key hkey
    dsimp only at h
    split at h
    · rename_i hpath
      rw [Bool.and_eq_true, decide_eq_true_eq, decide_eq_true_eq] at hpath
      obtain ⟨hmod, hdepth⟩ := hpath
      have hlength := Block.length_of_ofBytes? hkey
      rw [List.length_take, List.length_drop] at hlength
      refine ⟨_, hdepth, ?_⟩
      rw [Nat.mul_div_cancel' (Nat.dvd_of_mod_eq_zero hmod), List.length_drop, baseSize]
      omega
    · cases h
  · cases h

/-- What is read is written as the bytes it was read from, and all that is written is read if
    the version leaves room for the parity and the path is not too long. -/
theorem parse_eq_ok : parse b = .ok c ↔ b = c.encode ∧ c.version.toNat % 2 = 0 ∧ c.path.length ≤ maxDepth := by
  constructor
  · intro h
    obtain ⟨m, hm, hb⟩ := length_of_parse h
    obtain ⟨c', hparse, hencode, heven, hpath⟩ := parse_of_length hm hb
    cases h.symm.trans hparse
    exact ⟨hencode.symm, heven, hpath ▸ hm⟩
  · rintro ⟨rfl, heven, hpath⟩
    exact parse_encode ((masked_iff_even c.version).mpr heven) hpath

/-- The size alone tells whether bytes are a control block, and then they are what it is written
    as. A control block is read back from what it is written as exactly if its version is even
    and its path has at most 128 nodes. -/
theorem parse_inverse_encode :
    (∀ b : Bytes, (∃ c, parse b = .ok c) ↔ ∃ m ≤ 128, b.length = 33 + 32 * m) ∧
    (∀ (b : Bytes) (c : ControlBlock), parse b = .ok c → c.encode = b) ∧
    ∀ c : ControlBlock, parse c.encode = .ok c ↔ c.version.toNat % 2 = 0 ∧ c.path.length ≤ 128 := by
  refine ⟨fun b => ?_, fun b c h => ?_, fun c => ?_⟩
  · constructor
    · rintro ⟨c, h⟩
      exact length_of_parse h
    · rintro ⟨m, hm, hb⟩
      obtain ⟨c, h, -⟩ := parse_of_length hm hb
      exact ⟨c, h⟩
  · exact (parse_eq_ok.mp h).1.symm
  · rw [parse_eq_ok]
    exact and_iff_right rfl

/-- A block with one node and an odd first byte is read and written again; with the odd byte as
    its version it would not be read back. -/
theorem parse_inverse_encode_odd :
    let b : Bytes := 0xc1 :: List.replicate 64 7
    ∃ c, parse b = .ok c ∧ c.encode = b ∧ parse c.encode = .ok c ∧
      parse { c with version := 0xc1 }.encode ≠ .ok { c with version := 0xc1 } := by
  intro b
  obtain ⟨hsize, hbytes, hback⟩ := parse_inverse_encode
  obtain ⟨c, h⟩ := (hsize b).mpr ⟨1, by decide, by decide⟩
  refine ⟨c, h, hbytes b c h, ?_, ?_⟩
  · rw [hbytes b c h]
    exact h
  · rw [Ne, hback]
    rintro ⟨heven, -⟩
    have hodd : (0xc1 : UInt8).toNat % 2 ≠ 0 := by decide
    exact hodd heven

end SpendScript.Taproot.ControlBlock

/-
  SpendScript.Proofs.Reading — reading and writing scripts undo each other.

  What was read from some bytes is written as those bytes, and what was written is read
  back, whatever follows it:
  - `readItem_span`: an item that was read is written as the bytes that were taken for it.
  - `readItem_encode`: an opcode in front of other bytes is read as that opcode, and exactly
    the other bytes are left.
  - `Script.items_encode_append` / `Script.flatMap_encode_of_items`: the same of scripts, and
    `Script.items_inverse_encode` both together with the sizes.
  - `readItem_stable` / `Script.pieces_flatMap_span_append`: pieces can be taken out of a script, and
    those that are left are read as before, unless one is truncated.
-/

import Mathlib
import SpendScript.Script.Basic

namespace SpendScript

theorem leBytes_leNat (b : Bytes) : leBytes b.length (leNat b) = b := by
  induction b with
  | nil => rfl
  | cons x xs ih =>
    have hx : x.toNat < 256 := x.toNat_lt
    simp only [List.length_cons, leBytes, leNat]
    rw [show (x.toNat + 256 * leNat xs) % 256 = x.toNat by omega,
      show (x.toNat + 256 * leNat xs) / 256 = leNat xs by omega, ih, UInt8.ofNat_toNat]

/-! ## What was read is written as it stood -/

theorem Push.encode_of_ofByte? {b : UInt8} {p : Push} (h : Push.ofByte? b = some p) : p.encode = [b] := by
  unfold Push.ofByte? at h
  split at h
  · rename_i hb
    cases h
    rw [eq_of_beq hb]
    rfl
  · split at h
    · rename_i hb
      cases h
      rw [eq_of_beq hb]
      rfl
    · split at h
      · rename_i hb
        cases h
        simp only [Push.encode]
        rw [show 0x51 + (b.toNat - 0x51) = b.toNat by omega, UInt8.ofNat_toNat]
      · cases h

theorem readByte_encode {b : UInt8} {item : Item} (h : readByte b = .ok item) : item.encode = [b] := by
  unfold readByte at h
  split at h
  · cases h
  · split at h
    · rename_i hp
      cases h
      exact Push.encode_of_ofByte? hp
    · rename_i hc
      cases h
      simp only [Item.encode, Opcode.encode, Control.byte_of_ofByte? hc]
    · rename_i ho
      cases h
      simp only [Item.encode, Opcode.encode, Operation.byte_of_ofByte? ho]
    · cases h
      simp only [Item.encode, Bad.byte_ofByte]

theorem Push.encode_of_direct? {data : Bytes} {p : Push} (h : Push.direct? data = some p) :
    p.encode = UInt8.ofNat data.length :: data := by
  unfold Push.direct? at h
  split at h
  · cases h; rfl
  · cases h

theorem Push.encode_of_data1? {data : Bytes} {p : Push} (h : Push.data1? data = some p) :
    p.encode = 0x4c :: (leBytes 1 data.length ++ data) := by
  unfold Push.data1? at h
  split at h
  · cases h; rfl
  · cases h

theorem Push.encode_of_data2? {data : Bytes} {p : Push} (h : Push.data2? data = some p) :
    p.encode = 0x4d :: (leBytes 2 data.length ++ data) := by
  unfold Push.data2? at h
  split at h
  · cases h; rfl
  · cases h

theorem Push.encode_of_data4? {data : Bytes} {p : Push} (h : Push.data4? data = some p) :
    p.encode = 0x4e :: (leBytes 4 data.length ++ data) := by
  unfold Push.data4? at h
  split at h
  · cases h; rfl
  · cases h

theorem readData_span {lead s : Bytes} {wrap : Bytes → Option Push} {n : Nat} {item : Item}
    (hw : ∀ p, (s.take n).length = n → wrap (s.take n) = some p → p.encode = lead ++ s.take n)
    (h : (readData lead wrap n s).1.result = .ok item) :
    item.encode = (readData lead wrap n s).1.span := by
  unfold readData at h ⊢
  dsimp only at h ⊢
  split at h
  · rename_i hn
    rw [if_pos hn]
    dsimp only at h ⊢
    split at h
    · split at h
      · rename_i p hp
        cases h
        exact hw p hn hp
      · cases h
    · cases h
  · cases h

theorem readSized_span {lead : UInt8} {s : Bytes} {wrap : Bytes → Option Push} {w : Nat} {item : Item}
    (hw : ∀ data p, wrap data = some p → p.encode = lead :: (leBytes w data.length ++ data))
    (h : (readSized lead wrap w s).1.result = .ok item) :
    item.encode = (readSized lead wrap w s).1.span := by
  unfold readSized at h ⊢
  dsimp only at h ⊢
  split at h
  · rename_i hs
    rw [if_pos hs]
    refine readData_span (fun p hn hp => ?_) h
    rw [hw _ p hp, hn]
    have := leBytes_leNat (s.take w)
    rw [hs] at this
    rw [this]
    rfl
  · cases h

theorem readItem_span {b : UInt8} {s : Bytes} {item : Item} (h : (readItem b s).1.result = .ok item) :
    item.encode = (readItem b s).1.span := by
  unfold readItem at h ⊢
  by_cases h1 : (0x01 ≤ b && b < 0x4c) = true
  · rw [if_pos h1] at h ⊢
    refine readData_span (fun p hn hp => ?_) h
    rw [Push.encode_of_direct? hp, hn, UInt8.ofNat_toNat]
    rfl
  rw [if_neg h1] at h ⊢
  by_cases h2 : (b == 0x4c) = true
  · rw [if_pos h2] at h ⊢
    rw [eq_of_beq h2] at h ⊢
    exact readSized_span (fun _ _ => Push.encode_of_data1?) h
  rw [if_neg h2] at h ⊢
  by_cases h3 : (b == 0x4d) = true
  · rw [if_pos h3] at h ⊢
    rw [eq_of_beq h3] at h ⊢
    exact readSized_span (fun _ _ => Push.encode_of_data2?) h
  rw [if_neg h3] at h ⊢
  by_cases h4 : (b == 0x4e) = true
  · rw [if_pos h4] at h ⊢
    rw [eq_of_beq h4] at h ⊢
    exact readSized_span (fun _ _ => Push.encode_of_data4?) h
  rw [if_neg h4] at h ⊢
  exact readByte_encode h

/-! ## What was written is read back -/

/-- The form `wrap` takes the data as the push `p`. -/
theorem readData_append_of (lead : Bytes) {wrap : Bytes → Option Push} {data : Bytes} {p : Push}
    (hw : wrap data = some p) (hn : data.length ≤ Push.maxData) (rest : Bytes) :
    readData lead wrap data.length (data ++ rest) = (⟨.ok (.good (.push p)), lead ++ data⟩, rest) := by
  unfold readData
  simp [List.take_left', List.drop_left', hn, hw]

theorem readSized_append_of (lead : UInt8) (wrap : Bytes → Option Push) (w : Nat) {data : Bytes} {p : Push}
    (hw : wrap data = some p) (hn : data.length ≤ Push.maxData) (hs : data.length < 256 ^ w) (rest : Bytes) :
    readSized lead wrap w (leBytes w data.length ++ data ++ rest) =
      (⟨.ok (.good (.push p)), lead :: (leBytes w data.length ++ data)⟩, rest) := by
  have ht : (leBytes w data.length ++ data ++ rest).take w = leBytes w data.length := by
    rw [List.append_assoc, List.take_left' (leBytes_length w _)]
  have hd : (leBytes w data.length ++ data ++ rest).drop w = data ++ rest := by
    rw [List.append_assoc, List.drop_left' (leBytes_length w _)]
  unfold readSized
  dsimp only
  rw [ht, hd, if_pos (leBytes_length w _), leNat_leBytes, Nat.mod_eq_of_lt hs, readData_append_of _ hw hn]
  rfl

/-- From here on an opcode is a single byte. -/
theorem readItem_of_ge {b : UInt8} (hb : 0x4f ≤ b.toNat) (s : Bytes) :
    readItem b s = (⟨readByte b, [b]⟩, s) := by
  have hne : ∀ c : UInt8, c.toNat < 0x4f → (b == c) = false := by
    intro c hc
    rw [beq_eq_false_iff_ne]
    rintro rfl
    omega
  have hlt : (0x01 ≤ b && b < 0x4c) = false := by
    rw [Bool.and_eq_false_iff, decide_eq_false_iff_not, decide_eq_false_iff_not, UInt8.lt_iff_toNat_lt]
    exact Or.inr (Nat.not_lt.mpr (Nat.le_trans (by decide) hb))
  simp only [readItem, hlt, hne 0x4c (by decide), hne 0x4d (by decide), hne 0x4e (by decide),
    Bool.false_eq_true, if_false]

theorem readItem_data1 (s : Bytes) : readItem 0x4c s = readSized 0x4c Push.data1? 1 s := rfl

theorem readItem_data2 (s : Bytes) : readItem 0x4d s = readSized 0x4d Push.data2? 2 s := rfl

theorem readItem_data4 (s : Bytes) : readItem 0x4e s = readSized 0x4e Push.data4? 4 s := rfl

theorem readByte_small (k : Fin 16) :
    readByte (UInt8.ofNat (0x51 + k.val)) = .ok (.good (.push (.small k))) := by
  have h : ∀ k : Fin 16, Disabled.ofByte? (UInt8.ofNat (0x51 + k.val)) = none ∧
      Push.ofByte? (UInt8.ofNat (0x51 + k.val)) = some (.small k) := by decide
  unfold readByte
  rw [(h k).1, (h k).2]

theorem readByte_control (c : Control) : readByte c.byte = .ok (.good (.control c)) := by
  cases c <;> rfl

theorem readByte_operation (op : Operation) : readByte op.byte = .ok (.good (.operation op)) := by
  have h : Disabled.ofByte? op.byte = none ∧ Push.ofByte? op.byte = none ∧ Control.ofByte? op.byte = none := by
    cases op with
    | stack op | unary op | binary op | hash op | upgradable op => cases op <;> decide
    | _ => decide
  unfold readByte
  rw [h.1, h.2.1, h.2.2, Operation.ofByte?_byte]

theorem Operation.byte_ge (op : Operation) : 0x61 ≤ op.byte.toNat := by
  cases op with
  | stack op | unary op | binary op | hash op | upgradable op => cases op <;> decide
  | _ => decide

theorem Control.byte_ge (c : Control) : 0x63 ≤ c.byte.toNat := by
  cases c <;> decide

/-- An opcode is never written as nothing. -/
theorem Opcode.encode_ne_nil (op : Opcode) : op.encode ≠ [] := by
  cases op with
  | push p => cases p <;> exact List.cons_ne_nil _ _
  | control c => exact List.cons_ne_nil _ _
  | operation op => exact List.cons_ne_nil _ _

theorem Item.encode_ne_nil (item : Item) : item.encode ≠ [] := by
  cases item with
  | good op => exact op.encode_ne_nil
  | bad b => exact List.cons_ne_nil _ _

theorem Push.readItem_encode (p : Push) (rest : Bytes) {b : UInt8} {s : Bytes}
    (hs : p.encode ++ rest = b :: s) : readItem b s = (⟨.ok (.good (.push p)), p.encode⟩, rest) := by
  cases p with
  | zero =>
    cases hs
    rfl
  | minusOne =>
    cases hs
    rfl
  | small k =>
    cases hs
    have hk : (UInt8.ofNat (0x51 + k.val)).toNat = 0x51 + k.val := by
      rw [UInt8.toNat_ofNat']; omega
    rw [readItem_of_ge (by omega), readByte_small]
    rfl
  | direct data size =>
    cases hs
    have hb : (UInt8.ofNat data.length).toNat = data.length := by
      rw [UInt8.toNat_ofNat']; omega
    have hd : (0x01 ≤ UInt8.ofNat data.length && UInt8.ofNat data.length < 0x4c) = true := by
      rw [Bool.and_eq_true, decide_eq_true_eq, decide_eq_true_eq, UInt8.le_iff_toNat_le, UInt8.lt_iff_toNat_lt, hb]
      exact ⟨size.1, Nat.lt_succ_of_le size.2⟩
    unfold readItem
    rw [if_pos hd, hb]
    exact readData_append_of _ (dif_pos size) (Nat.le_trans size.2 (by decide)) rest
  | data1 data size =>
    injection hs with hb hs
    rw [← hb, ← hs, readItem_data1]
    exact readSized_append_of 0x4c Push.data1? 1 (dif_pos size) (Nat.le_trans size (by decide)) (by omega) rest
  | data2 data size =>
    injection hs with hb hs
    rw [← hb, ← hs, readItem_data2]
    exact readSized_append_of 0x4d Push.data2? 2 (dif_pos size) size (by omega) rest
  | data4 data size =>
    injection hs with hb hs
    rw [← hb, ← hs, readItem_data4]
    exact readSized_append_of 0x4e Push.data4? 4 (dif_pos size) size (by omega) rest

theorem readItem_encode (op : Opcode) (rest : Bytes) {b : UInt8} {s : Bytes}
    (hs : op.encode ++ rest = b :: s) : readItem b s = (⟨.ok (.good op), op.encode⟩, rest) := by
  cases op with
  | push p => exact p.readItem_encode rest hs
  | control c =>
    cases hs
    rw [readItem_of_ge (Nat.le_trans (by decide) c.byte_ge), readByte_control]
    rfl
  | operation op =>
    cases hs
    rw [readItem_of_ge (Nat.le_trans (by decide) op.byte_ge), readByte_operation]
    rfl

/-! ## Scripts -/

namespace Script

theorem pieces_encode_append (op : Opcode) (rest : Bytes) :
    pieces (op.encode ++ rest) = ⟨.ok (.good op), op.encode⟩ :: pieces rest := by
  cases hs : op.encode ++ rest with
  | nil => exact absurd (List.append_eq_nil_iff.mp hs).1 op.encode_ne_nil
  | cons b s =>
    rw [pieces, readItem_encode op rest hs]

/-- Opcodes that were written are read back, and then what follows them. -/
theorem items_encode_append (ops : List Opcode) (rest : Bytes) :
    items (encode ops ++ rest) = ops.map (fun op => .ok (.good op)) ++ items rest := by
  induction ops with
  | nil => rfl
  | cons op ops ih =>
    have hs : encode (op :: ops) ++ rest = op.encode ++ (encode ops ++ rest) := by
      simp only [encode, List.flatMap_cons, List.append_assoc]
    rw [hs, items, pieces_encode_append]
    simp only [List.map_cons, List.cons_append]
    rw [← ih]
    rfl

theorem items_encode (ops : List Opcode) : items (encode ops) = ops.map fun op => .ok (.good op) := by
  have hn : items [] = [] := by rw [items, pieces]; rfl
  have h := items_encode_append ops []
  rw [List.append_nil, hn, List.append_nil] at h
  exact h

theorem span_of_mem_pieces {s : Bytes} {p : Piece} (hp : p ∈ pieces s) {item : Item}
    (hi : p.result = .ok item) : item.encode = p.span := by
  fun_induction pieces s with
  | case1 => cases hp
  | case2 b s next ih =>
    rcases List.mem_cons.mp hp with rfl | hp
    · exact readItem_span hi
    · exact ih hp

theorem flatMap_encode_of_results {ps : List Piece} {l : List Item}
    (hp : ∀ p ∈ ps, ∀ item, p.result = .ok item → item.encode = p.span)
    (h : ps.map Piece.result = l.map .ok) : l.flatMap Item.encode = ps.flatMap Piece.span := by
  induction ps generalizing l with
  | nil =>
    cases l with
    | nil => rfl
    | cons item l => cases h
  | cons p ps ih =>
    cases l with
    | nil => cases h
    | cons item l =>
      simp only [List.map_cons, List.cons.injEq] at h
      have hhead := hp p List.mem_cons_self item h.1
      have htail := ih (fun q hq => hp q (List.mem_cons_of_mem p hq)) h.2
      rw [List.flatMap_cons, List.flatMap_cons, hhead, htail]

/-- The items of a script that was read without an error are written as the script. -/
theorem flatMap_encode_of_items {s : Bytes} {l : List Item} (h : items s = l.map .ok) :
    l.flatMap Item.encode = s := by
  rw [flatMap_encode_of_results (fun p hp item => span_of_mem_pieces hp) h]
  exact pieces_spans s

theorem sum_size (l : List Item) : (l.map Item.size).sum = (l.flatMap Item.encode).length := by
  simp only [List.length_flatMap, Item.encode_length]

/-- Opcodes that were written are read back in front of any other bytes, and items that were
    read without an error are written as the bytes they were read from. -/
theorem items_inverse_encode :
    (∀ (ops : List Opcode) (rest : Bytes),
      items (encode ops ++ rest) = ops.map (fun op => .ok (.good op)) ++ items rest) ∧
    ∀ (s : Bytes) (l : List Item), items s = l.map .ok →
      l.flatMap Item.encode = s ∧ (∀ item ∈ l, item.size = item.encode.length) ∧ (l.map Item.size).sum = s.length := by
  refine ⟨items_encode_append, fun s l h => ?_⟩
  have hencode := flatMap_encode_of_items h
  refine ⟨hencode, ?_, ?_⟩
  · intro item _
    exact item.encode_length.symm
  · rw [sum_size, hencode]

/-- A push of one byte in a longer form than it needs, a code separator and the reserved
    opcode are written as they stood. -/
theorem items_inverse_encode_reserved :
    ∃ l : List Item, items [0x4d, 0x01, 0x00, 0xab, 0xab, 0x50] = l.map .ok ∧
      l.flatMap Item.encode = [0x4d, 0x01, 0x00, 0xab, 0xab, 0x50] ∧ (l.map Item.size).sum = 6 := by
  have h : items [0x4d, 0x01, 0x00, 0xab, 0xab, 0x50] =
      [Item.good (.push (.data2 [0xab] (by decide))), .good (.operation .codeSeparator), .bad .reserved].map .ok := by
    cbv
  obtain ⟨hencode, -, hsize⟩ := items_inverse_encode.2 _ _ h
  exact ⟨_, h, hencode, hsize⟩

end Script

/-! ## Pieces are read from their bytes alone -/

/-- The first byte tells how an item is read. -/
theorem readItem_cases (b : UInt8) :
    readItem b = readData [b] Push.direct? b.toNat ∨ (∃ wrap w, readItem b = readSized b wrap w) ∨
      (b.toNat = 0 ∨ 0x4f ≤ b.toNat) ∧ readItem b = fun s => (⟨readByte b, [b]⟩, s) := by
  by_cases h1 : (decide (0x01 ≤ b) && decide (b < 0x4c)) = true
  · exact Or.inl (funext fun s => if_pos h1)
  by_cases h2 : (b == 0x4c) = true
  · refine Or.inr (Or.inl ⟨Push.data1?, 1, funext fun s => ?_⟩)
    rw [readItem, if_neg h1, if_pos h2]
  by_cases h3 : (b == 0x4d) = true
  · refine Or.inr (Or.inl ⟨Push.data2?, 2, funext fun s => ?_⟩)
    rw [readItem, if_neg h1, if_neg h2, if_pos h3]
  by_cases h4 : (b == 0x4e) = true
  · refine Or.inr (Or.inl ⟨Push.data4?, 4, funext fun s => ?_⟩)
    rw [readItem, if_neg h1, if_neg h2, if_neg h3, if_pos h4]
  refine Or.inr (Or.inr ⟨?_, funext fun s => ?_⟩)
  · rw [Bool.and_eq_true, decide_eq_true_eq, decide_eq_true_eq, UInt8.le_iff_toNat_le, UInt8.lt_iff_toNat_lt] at h1
    rw [beq_iff_eq, ← UInt8.toNat_inj] at h2 h3 h4
    have h1 : ¬ (1 ≤ b.toNat ∧ b.toNat < 0x4c) := h1
    have h2 : b.toNat ≠ 0x4c := h2
    have h3 : b.toNat ≠ 0x4d := h3
    have h4 : b.toNat ≠ 0x4e := h4
    omega
  · rw [readItem, if_neg h1, if_neg h2, if_neg h3, if_neg h4]

/-- Whether a piece is a push that the script ends in. -/
def Piece.isTruncated (p : Piece) : Bool :=
  match p.result with
  | .ok _ => false
  | .error e => e.isTruncated

theorem readData_stable {lead s : Bytes} {wrap : Bytes → Option Push} {n : Nat}
    (h : (readData lead wrap n s).1.isTruncated = false) :
    ∃ data, (readData lead wrap n s).1.span = lead ++ data ∧
      ∀ rest, readData lead wrap n (data ++ rest) = ((readData lead wrap n s).1, rest) := by
  unfold readData at h ⊢
  dsimp only at h ⊢
  split at h
  · rename_i hn
    rw [if_pos hn]
    refine ⟨s.take n, rfl, fun rest => ?_⟩
    have htake : (s.take n ++ rest).take n = s.take n := List.take_left' hn
    have hdrop : (s.take n ++ rest).drop n = rest := List.drop_left' hn
    rw [htake, hdrop, if_pos hn]
  · cases h

theorem readSized_stable {lead : UInt8} {s : Bytes} {wrap : Bytes → Option Push} {w : Nat}
    (h : (readSized lead wrap w s).1.isTruncated = false) :
    ∃ data, (readSized lead wrap w s).1.span = lead :: data ∧
      ∀ rest, readSized lead wrap w (data ++ rest) = ((readSized lead wrap w s).1, rest) := by
  unfold readSized at h ⊢
  dsimp only at h ⊢
  split at h
  · rename_i hw
    rw [if_pos hw]
    obtain ⟨data, hspan, hread⟩ := readData_stable h
    refine ⟨s.take w ++ data, hspan, fun rest => ?_⟩
    rw [List.append_assoc, List.take_left' hw, List.drop_left' hw, if_pos hw, hread]
  · cases h

/-- A piece that is not truncated is read in front of any other bytes. -/
theorem readItem_stable {b : UInt8} {s : Bytes} (h : (readItem b s).1.isTruncated = false) :
    ∃ data, (readItem b s).1.span = b :: data ∧ ∀ rest, readItem b (data ++ rest) = ((readItem b s).1, rest) := by
  rcases readItem_cases b with hb | ⟨wrap, w, hb⟩ | ⟨-, hb⟩
  · rw [hb] at h ⊢
    exact readData_stable h
  · rw [hb] at h ⊢
    exact readSized_stable h
  · rw [hb]
    exact ⟨[], rfl, fun rest => rfl⟩

namespace Script

theorem pieces_span_append {code : Bytes} {p : Piece} (hp : p ∈ pieces code) (ht : p.isTruncated = false) (rest : Bytes) :
    pieces (p.span ++ rest) = p :: pieces rest := by
  fun_induction pieces code with
  | case1 => cases hp
  | case2 b s next ih =>
    rcases List.mem_cons.mp hp with rfl | hp
    · obtain ⟨data, hspan, hread⟩ := readItem_stable ht
      rw [hspan, List.cons_append, pieces, hread]
    · exact ih hp

theorem pieces_flatMap_span_append {code : Bytes} {ps : List Piece}
    (hp : ∀ p ∈ ps, p ∈ pieces code ∧ p.isTruncated = false) (rest : Bytes) :
    pieces (ps.flatMap Piece.span ++ rest) = ps ++ pieces rest := by
  induction ps with
  | nil => rfl
  | cons p ps ih =>
    rw [List.forall_mem_cons] at hp
    rw [List.flatMap_cons, List.append_assoc, pieces_span_append hp.1.1 hp.1.2, ih hp.2]
    rfl

theorem pieces_flatMap_span {code : Bytes} {ps : List Piece}
    (hp : ∀ p ∈ ps, p ∈ pieces code ∧ p.isTruncated = false) :
    pieces (ps.flatMap Piece.span) = ps := by
  have hnil : pieces [] = [] := by rw [pieces]
  have hpieces := pieces_flatMap_span_append hp []
  rw [hnil, List.append_nil, List.append_nil] at hpieces
  exact hpieces

end Script

end SpendScript

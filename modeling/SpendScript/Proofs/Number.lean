/-
  SpendScript.Proofs.Number — numbers and the bytes that spell them.

  A byte string has a sign, the top bit of its last byte, and a magnitude, all the other bits
  (`signMagnitude`). Its number is the one that `value` gives (`value_eq_signMagnitude`), and it
  is minimal exactly if the magnitude needs that many bytes (`isMinimal_iff_leastOf`).
  - `encode_of_isMinimal` / `signMagnitude_encode` / `isMinimal_encode`: minimal byte strings
    and integers correspond.
  - `parse_eq_ok`: what is read as which number.
  `parse_iff_encode` puts them together.
-/

import Mathlib
import SpendScript.Proofs.Reading

namespace SpendScript.Number

/-! ## Sign and magnitude -/

/-- What the bytes spell beside the sign, which is the top bit of the last one. -/
def magnitude : Bytes → Nat
  | [] => 0
  | [b] => b.toNat % 128
  | b :: c :: bs => b.toNat + 256 * magnitude (c :: bs)

def isNegative (b : Bytes) : Bool := b.getLast?.any (0x80 ≤ ·)

/-- The number by its sign and its magnitude; negative zero is zero. -/
def signMagnitude (b : Bytes) : Int := if isNegative b then -(magnitude b : Int) else magnitude b

theorem pow_split (k : Nat) : 2 ^ (8 * (k + 1) + 7) = 256 * 2 ^ (8 * k + 7) := by
  rw [show 8 * (k + 1) + 7 = 8 + (8 * k + 7) by omega, Nat.pow_add]

theorem magnitude_lt (b : UInt8) (bs : Bytes) : magnitude (b :: bs) < 2 ^ (8 * bs.length + 7) := by
  induction bs generalizing b with
  | nil => exact Nat.mod_lt _ (by decide)
  | cons c bs ih =>
    have hb : b.toNat < 256 := b.toNat_lt
    have := ih c
    rw [List.length_cons, pow_split, magnitude]
    omega

theorem leNat_eq (b : UInt8) (bs : Bytes) :
    leNat (b :: bs) = magnitude (b :: bs) + if isNegative (b :: bs) then 2 ^ (8 * bs.length + 7) else 0 := by
  induction bs generalizing b with
  | nil =>
    have hb : b.toNat < 256 := b.toNat_lt
    simp only [leNat, magnitude, isNegative, List.getLast?_singleton, Option.any_some, decide_eq_true_eq,
      UInt8.le_iff_toNat_le, List.length_nil]
    show b.toNat + 256 * 0 = b.toNat % 128 + if 128 ≤ b.toNat then 2 ^ 7 else 0
    split <;> omega
  | cons c bs ih =>
    have hsign : isNegative (b :: c :: bs) = isNegative (c :: bs) := by simp [isNegative]
    rw [leNat, ih c, magnitude, hsign, List.length_cons, pow_split]
    split <;> omega

theorem value_eq_signMagnitude (b : Bytes) : value b = signMagnitude b := by
  cases b with
  | nil => rfl
  | cons b bs =>
    have hlt := magnitude_lt b bs
    have hle := leNat_eq b bs
    have hsize : 8 * (b :: bs).length - 1 = 8 * bs.length + 7 := by rw [List.length_cons]; omega
    unfold value signMagnitude
    rw [if_neg (by simp)]
    dsimp only
    rw [hsize]
    cases hs : isNegative (b :: bs) with
    | true =>
      rw [hs, if_pos rfl] at hle
      rw [if_neg (by omega), if_pos rfl, hle, Nat.add_sub_cancel]
    | false =>
      rw [hs, if_neg (by simp), Nat.add_zero] at hle
      rw [if_pos (by omega), if_neg (by simp), hle]

theorem truthy_iff_magnitude (b : Bytes) : truthy b = true ↔ magnitude b ≠ 0 := by
  fun_induction truthy b with
  | case1 => simp [magnitude]
  | case2 b =>
    have h : ∀ b : UInt8, (b != 0 && b != 0x80) = true ↔ b.toNat % 128 ≠ 0 := by decide +kernel
    exact h b
  | case3 b c bs ih =>
    have hb : (b != 0) = true ↔ b.toNat ≠ 0 := by
      rw [bne_iff_ne, ne_eq, ← UInt8.toNat_inj]
      rfl
    rw [Bool.or_eq_true, hb, ih, magnitude]
    omega

theorem truthy_iff_signMagnitude (b : Bytes) : truthy b = true ↔ signMagnitude b ≠ 0 := by
  rw [truthy_iff_magnitude]
  unfold signMagnitude
  split <;> omega

/-! ## Minimal forms -/

/-- The least magnitude that needs so many bytes. -/
def leastOf : Nat → Nat
  | 0 => 0
  | 1 => 1
  | k + 2 => 2 ^ (8 * k + 7)

theorem isMinimal_cons (a b c : UInt8) (bs : Bytes) : isMinimal (a :: b :: c :: bs) = isMinimal (b :: c :: bs) := by
  unfold isMinimal
  rw [List.reverse_cons]
  cases h : (b :: c :: bs).reverse with
  | nil => simp at h
  | cons x xs =>
    cases xs with
    | nil =>
      have := congrArg List.length h
      simp at this
    | cons y ys => rfl

theorem isMinimal_iff_leastOf (b : Bytes) : isMinimal b = true ↔ leastOf b.length ≤ magnitude b := by
  have hlast : ∀ b : UInt8, (b &&& 0x7f != 0) = true ↔ b.toNat % 128 ≠ 0 := by decide +kernel
  have htop : ∀ b : UInt8, (b &&& 0x80 != 0) = true ↔ 128 ≤ b.toNat := by decide +kernel
  match b with
  | [] => exact iff_of_true rfl (Nat.zero_le _)
  | [b] =>
    rw [show isMinimal [b] = (b &&& 0x7f != 0) from rfl, hlast]
    exact Nat.pos_iff_ne_zero.symm
  | [b, c] =>
    have hb : b.toNat < 256 := b.toNat_lt
    rw [show isMinimal [b, c] = (c &&& 0x7f != 0 || b &&& 0x80 != 0) from rfl, Bool.or_eq_true, hlast, htop]
    show _ ↔ 2 ^ 7 ≤ b.toNat + 256 * (c.toNat % 128)
    omega
  | a :: b :: c :: bs =>
    have ha : a.toNat < 256 := a.toNat_lt
    rw [isMinimal_cons, isMinimal_iff_leastOf (b :: c :: bs)]
    show 2 ^ (8 * bs.length + 7) ≤ _ ↔ 2 ^ (8 * (bs.length + 1) + 7) ≤ a.toNat + 256 * magnitude (b :: c :: bs)
    rw [pow_split]
    omega

/-- The width is the least that leaves room for the sign. -/
theorem width_eq_iff {n : Int} {k : Nat} :
    width n = k + 1 ↔ (k = 0 ∨ 2 ^ (8 * k - 1) ≤ n.natAbs) ∧ n.natAbs < 2 ^ (8 * k + 7) := by
  by_cases hn : n.natAbs = 0
  · have hpos : 0 < 2 ^ (8 * k - 1) := Nat.two_pow_pos _
    have hpos' : 0 < 2 ^ (8 * k + 7) := Nat.two_pow_pos _
    simp only [width, hn, Nat.log2_zero]
    omega
  · rw [← Nat.le_log2 hn, ← Nat.log2_lt hn]
    unfold width
    omega

/-- Of a byte string that spells a number, sign and magnitude are what `encode` puts together. -/
theorem encode_of_isMinimal {b : Bytes} (h : isMinimal b = true) : encode (signMagnitude b) = b := by
  rw [isMinimal_iff_leastOf] at h
  cases b with
  | nil => rfl
  | cons b bs =>
    have hlt := magnitude_lt b bs
    have hle := leNat_eq b bs
    have habs : (signMagnitude (b :: bs)).natAbs = magnitude (b :: bs) := by
      unfold signMagnitude
      split <;> omega
    have hpos : 0 < magnitude (b :: bs) ∧ (bs.length = 0 ∨ 2 ^ (8 * bs.length - 1) ≤ magnitude (b :: bs)) := by
      cases bs with
      | nil => exact ⟨h, Or.inl rfl⟩
      | cons c bs => exact ⟨Nat.lt_of_lt_of_le (Nat.two_pow_pos _) h, Or.inr h⟩
    have hwidth : width (signMagnitude (b :: bs)) = (b :: bs).length := by
      rw [List.length_cons, width_eq_iff, habs]
      exact ⟨hpos.2, hlt⟩
    have hnat : leNat (b :: bs) = if signMagnitude (b :: bs) < 0 then
        (signMagnitude (b :: bs)).natAbs + 2 ^ (8 * width (signMagnitude (b :: bs)) - 1)
        else (signMagnitude (b :: bs)).natAbs := by
      rw [hwidth, habs, hle, List.length_cons, show 8 * (bs.length + 1) - 1 = 8 * bs.length + 7 by omega]
      unfold signMagnitude
      split
      · rw [if_pos (by omega)]
      · rw [if_neg (by omega), Nat.add_zero]
    unfold encode
    rw [if_neg (by omega), ← hnat, hwidth]
    exact leBytes_leNat (b :: bs)

theorem encode_length {n : Int} (hn : n ≠ 0) : (encode n).length = width n := by
  unfold encode
  rw [if_neg hn, leBytes_length]

theorem leNat_encode {n : Int} (hn : n ≠ 0) {k : Nat} (hk : width n = k + 1) :
    leNat (encode n) = n.natAbs + if n < 0 then 2 ^ (8 * k + 7) else 0 := by
  obtain ⟨-, hlt⟩ := width_eq_iff.mp hk
  have hroom : 256 ^ (k + 1) = 2 * 2 ^ (8 * k + 7) := by
    rw [show (256 : Nat) = 2 ^ 8 from rfl, ← Nat.pow_mul, ← Nat.pow_succ']
    congr 1
  unfold encode
  rw [if_neg hn, hk, leNat_leBytes, hroom, show 8 * (k + 1) - 1 = 8 * k + 7 by omega]
  split
  · exact Nat.mod_eq_of_lt (by omega)
  · exact Nat.mod_eq_of_lt (by omega)

theorem sign_of_encode {n : Int} (hn : n ≠ 0) :
    magnitude (encode n) = n.natAbs ∧ isNegative (encode n) = decide (n < 0) := by
  obtain ⟨k, hk⟩ : ∃ k, width n = k + 1 := ⟨_, rfl⟩
  obtain ⟨-, hlt⟩ := width_eq_iff.mp hk
  have hnat := leNat_encode hn hk
  have hlength := encode_length hn
  cases hb : encode n with
  | nil => rw [hb, hk] at hlength; cases hlength
  | cons b bs =>
    rw [hb] at hnat hlength
    have hbs : bs.length = k := by rw [hk] at hlength; exact Nat.succ.inj hlength
    have hmag := magnitude_lt b bs
    rw [leNat_eq, hbs] at hnat
    rw [hbs] at hmag
    cases hs : isNegative (b :: bs) with
    | true =>
      rw [hs, if_pos rfl] at hnat
      have hneg : n < 0 := by
        by_contra hneg
        rw [if_neg hneg] at hnat
        omega
      rw [if_pos hneg] at hnat
      exact ⟨by omega, (decide_eq_true hneg).symm⟩
    | false =>
      rw [hs, if_neg (by simp)] at hnat
      have hneg : ¬ n < 0 := by
        intro hneg
        rw [if_pos hneg] at hnat
        omega
      rw [if_neg hneg] at hnat
      exact ⟨by omega, (decide_eq_false hneg).symm⟩

theorem signMagnitude_encode (n : Int) : signMagnitude (encode n) = n := by
  by_cases hn : n = 0
  · rw [hn]
    rfl
  · obtain ⟨hmag, hneg⟩ := sign_of_encode hn
    unfold signMagnitude
    rw [hmag, hneg]
    by_cases h : n < 0
    · rw [if_pos (decide_eq_true h)]
      omega
    · rw [if_neg (by simpa using h)]
      omega

theorem isMinimal_encode (n : Int) : isMinimal (encode n) = true := by
  by_cases hn : n = 0
  · rw [hn]
    rfl
  · rw [isMinimal_iff_leastOf, (sign_of_encode hn).1, encode_length hn]
    obtain ⟨k, hk⟩ : ∃ k, width n = k + 1 := ⟨_, rfl⟩
    obtain ⟨hle, -⟩ := width_eq_iff.mp hk
    rw [hk]
    rcases hle with rfl | hle
    · exact Int.natAbs_pos.mpr hn
    · cases k with
      | zero => exact Int.natAbs_pos.mpr hn
      | succ k => exact hle

/-! ## Reading -/

theorem parse_eq_ok {minimal : Bool} {m : Nat} {b : Bytes} {n : Int} :
    parse minimal m b = .ok n ↔
      b.length ≤ min m largestSize ∧ (minimal = true → isMinimal b = true) ∧ signMagnitude b = n := by
  unfold parse
  rw [Nat.le_min, ← value_eq_signMagnitude]
  split
  · constructor
    · intro h; cases h
    · intro h; omega
  · split
    · rename_i hm
      rw [Bool.and_eq_true, Bool.not_eq_true'] at hm
      constructor
      · intro h; cases h
      · intro h
        rw [h.2.1 hm.1] at hm
        cases hm.2
    · rename_i hm
      split
      · constructor
        · intro h; cases h
        · intro h; omega
      · constructor
        · intro h
          cases h
          refine ⟨by omega, fun hmin => ?_, rfl⟩
          simpa [hmin] using hm
        · rintro ⟨-, -, rfl⟩
          rfl

/-- The shortest form is the only one that is read where numbers have to be minimal, up to the
    size limits. Where they need not be, every form is read as its sign and magnitude, and
    an item is true unless that is zero. -/
theorem parse_iff_encode (b : Bytes) (m : Nat) :
    (∀ n : Int, parse true m b = .ok n ↔ b = encode n ∧ b.length ≤ min m 8) ∧
      (b.length ≤ min m 8 →
        parse false m b = .ok (signMagnitude b) ∧ (truthy b = true ↔ signMagnitude b ≠ 0)) := by
  refine ⟨fun n => ?_, fun h => ⟨?_, ?_⟩⟩
  · rw [parse_eq_ok]
    constructor
    · rintro ⟨hsize, hmin, rfl⟩
      exact ⟨(encode_of_isMinimal (hmin rfl)).symm, hsize⟩
    · rintro ⟨rfl, hsize⟩
      exact ⟨hsize, fun _ => isMinimal_encode n, signMagnitude_encode n⟩
  · exact parse_eq_ok.mpr ⟨h, nofun, rfl⟩
  · rw [truthy_iff_magnitude]
    unfold signMagnitude
    split <;> omega

/-- Negative zero is zero, but not in its shortest form; the least number of 64 bits has a
    shortest form that is too long to be read. -/
theorem parse_iff_encode_zero :
    let b : Bytes := [0, 0, 0, 0, 0, 0, 0, 0x80]
    b.length ≤ min 8 8 ∧ parse false 8 b = .ok 0 ∧ truthy b = false ∧
      parse true 8 b ≠ .ok 0 ∧ parse true 9 (encode (-2 ^ 63)) ≠ .ok (-2 ^ 63) := by
  intro b
  obtain ⟨hmin, hany⟩ := parse_iff_encode b 8
  obtain ⟨hparse, htrue⟩ := hany (by decide)
  have hzero : signMagnitude b = 0 := by decide
  rw [hzero] at hparse htrue
  refine ⟨by decide, hparse, by simpa using htrue, ?_, ?_⟩
  · rw [ne_eq, hmin 0]
    decide
  · rw [ne_eq, (parse_iff_encode (encode (-2 ^ 63)) 9).1]
    decide

end SpendScript.Number

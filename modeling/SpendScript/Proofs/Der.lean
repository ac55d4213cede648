/-
  SpendScript.Proofs.Der — which signatures are canonical.

  An integer passes if it is the shortest spelling of a natural number in two's complement
  (`checkInteger_iff_isShortest`), and a signature if it is a compound of two such integers
  whose three lengths are right (`check_eq_ok`). The same is told by positions in the byte
  string, as it is written down where the form was made a rule (`isValidSignatureEncoding`):
  - `isValidSignatureEncoding_of_parts`: what the positions say of a compound.
  - `parts_of_isValidSignatureEncoding`: only compounds pass.
  `check_iff_encodes` puts them together.
-/

import Mathlib
import SpendScript.Proofs.Dialogue
import SpendScript.Signature.Der

namespace SpendScript

/-! ## Bytes -/

theorem and_top_eq_zero (x : UInt8) : x &&& 0x80 = 0 ↔ x.toNat < 128 := by
  have h : ∀ x : UInt8, x &&& 0x80 = 0 ↔ x.toNat < 128 := by decide +kernel
  exact h x

theorem beNat_cons (x : UInt8) (b : Bytes) : beNat (x :: b) = x.toNat * 256 ^ b.length + beNat b := by
  have hfold (n : Nat) (b : Bytes) :
      b.foldl (fun n x => 256 * n + x.toNat) n = n * 256 ^ b.length + beNat b := by
    induction b generalizing n with
    | nil => simp [beNat]
    | cons x b ih =>
      rw [beNat, List.foldl_cons, List.foldl_cons, ih, ih, List.length_cons, Nat.pow_succ]
      ring
  unfold beNat
  rw [List.foldl_cons, hfold, Nat.mul_zero, Nat.zero_add]
  rfl

theorem beNat_lt (b : Bytes) : beNat b < 256 ^ b.length := by
  induction b with
  | nil => exact Nat.one_pos
  | cons x b ih =>
    rw [beNat_cons, List.length_cons]
    calc x.toNat * 256 ^ b.length + beNat b
      _ < (x.toNat + 1) * 256 ^ b.length := by rw [Nat.add_mul]; omega
      _ ≤ 256 * 256 ^ b.length := Nat.mul_le_mul_right _ x.toNat_lt
      _ = 256 ^ (b.length + 1) := (Nat.pow_succ').symm

namespace Der

/-! ## Integers -/

/-- The number that bytes spell in two's complement, the most significant byte first. -/
def twosComplement (b : Bytes) : Int :=
  if b.head?.any (0x80 ≤ ·) then beNat b - 256 ^ b.length else beNat b

/-- The bytes are the fewest, and at least one, that spell the number. -/
structure IsShortest (b : Bytes) (n : Int) : Prop where
  nonempty : b ≠ []
  spells : twosComplement b = n
  least : ∀ c, c ≠ [] → twosComplement c = n → b.length ≤ c.length

theorem any_sign_iff (x : UInt8) (b : Bytes) : (x :: b).head?.any (0x80 ≤ ·) = true ↔ 128 ≤ x.toNat := by
  rw [List.head?_cons, Option.any_some, decide_eq_true_eq, UInt8.le_iff_toNat_le]
  rfl

theorem twosComplement_of_lt {x : UInt8} {b : Bytes} (hx : x.toNat < 128) :
    twosComplement (x :: b) = beNat (x :: b) := by
  unfold twosComplement
  rw [if_neg]
  rw [any_sign_iff]
  omega

theorem lt_of_twosComplement {x : UInt8} {b : Bytes} {n : Nat} (h : twosComplement (x :: b) = n) :
    x.toNat < 128 := by
  by_contra hx
  unfold twosComplement at h
  rw [if_pos ((any_sign_iff x b).mpr (by omega))] at h
  have hlt : (beNat (x :: b) : Int) < 256 ^ (x :: b).length := by exact_mod_cast beNat_lt (x :: b)
  omega

/-- What is checked of an integer: it is there, it has no sign, and its first byte is needed. -/
theorem checkInteger_cons {x : UInt8} {b : Bytes} :
    checkInteger (x :: b) = .ok () ↔ x.toNat < 128 ∧ (x = 0 → ∀ y c, b = y :: c → 128 ≤ y.toNat) := by
  cases b with
  | nil =>
    simp only [checkInteger, beq_iff_eq, and_top_eq_zero]
    by_cases hx : x.toNat < 128
    · simp [hx]
    · simp [hx]
  | cons y c =>
    simp only [checkInteger, beq_iff_eq, bne_iff_ne, ne_eq, and_top_eq_zero, Nat.not_lt]
    by_cases hx : x = 0
    · by_cases hy : 128 ≤ y.toNat
      · simp [hx, hy]
      · simp [hx, hy]
    · by_cases hx' : x.toNat < 128
      · simp [hx, hx']
      · simp [hx, hx']

theorem le_beNat {x : UInt8} {b : Bytes} {k : Nat} (h : k ≤ x.toNat) : k * 256 ^ b.length ≤ beNat (x :: b) := by
  rw [beNat_cons]
  exact Nat.le_trans (Nat.mul_le_mul_right _ h) (Nat.le_add_right _ _)

theorem ne_nil_of_checkInteger {b : Bytes} (h : checkInteger b = .ok ()) : b ≠ [] := by
  rintro rfl
  cases h

theorem isShortest_of_checkInteger {b : Bytes} (h : checkInteger b = .ok ()) : IsShortest b (beNat b) := by
  cases b with
  | nil => cases h
  | cons x b =>
    obtain ⟨hx, hzero⟩ := checkInteger_cons.mp h
    refine ⟨List.cons_ne_nil x b, twosComplement_of_lt hx, fun c hc hspells => ?_⟩
    cases c with
    | nil => exact absurd rfl hc
    | cons z c =>
      have hz := lt_of_twosComplement hspells
      rw [twosComplement_of_lt hz, Int.natCast_inj] at hspells
      have hhigh : beNat (z :: c) < 128 * 256 ^ c.length := by
        have hlt := beNat_lt c
        have hle : z.toNat * 256 ^ c.length ≤ 127 * 256 ^ c.length := Nat.mul_le_mul_right _ (by omega)
        rw [beNat_cons]
        omega
      rw [List.length_cons, List.length_cons]
      by_contra hlt
      cases b with
      | nil => simp at hlt
      | cons y b =>
        have hlow : 128 * 256 ^ b.length ≤ beNat (x :: y :: b) := by
          by_cases hx0 : x = 0
          · have hy := le_beNat (b := b) (hzero hx0 y b rfl)
            rw [beNat_cons]
            omega
          · have hpos : 1 ≤ x.toNat := Nat.pos_of_ne_zero fun h0 => hx0 (UInt8.toNat_inj.mp h0)
            have hx1 := le_beNat (b := y :: b) hpos
            rw [List.length_cons, Nat.pow_succ] at hx1
            omega
        have hpow : 256 ^ c.length ≤ 256 ^ b.length :=
          Nat.pow_le_pow_right (by decide) (by rw [List.length_cons] at hlt; omega)
        omega

theorem checkInteger_of_isShortest {b : Bytes} {n : Nat} (h : IsShortest b n) : checkInteger b = .ok () := by
  cases b with
  | nil => exact absurd rfl h.nonempty
  | cons x b =>
    have hx := lt_of_twosComplement h.spells
    refine checkInteger_cons.mpr ⟨hx, ?_⟩
    rintro rfl y c rfl
    by_contra hy
    -- without the zero in front it is the same number
    have hspells : twosComplement (y :: c) = n := by
      rw [← h.spells, twosComplement_of_lt hx, twosComplement_of_lt (by omega), beNat_cons 0]
      simp
    have := h.least (y :: c) (List.cons_ne_nil y c) hspells
    rw [List.length_cons] at this
    omega

theorem checkInteger_iff_isShortest {b : Bytes} : checkInteger b = .ok () ↔ ∃ n : Nat, IsShortest b n := by
  constructor
  · intro h
    exact ⟨beNat b, isShortest_of_checkInteger h⟩
  · rintro ⟨n, h⟩
    exact checkInteger_of_isShortest h

/-! ## The compound -/

/-- The bytes of two integers in a compound, each length in one byte. -/
def Holds (b r s : Bytes) : Prop :=
  ∃ total rSize sSize : UInt8, b = 0x30 :: total :: 0x02 :: rSize :: (r ++ 0x02 :: sSize :: s) ∧
    total.toNat = r.length + s.length + 4 ∧ rSize.toNat = r.length ∧ sSize.toNat = s.length

theorem Holds.unique {b r s r' s' : Bytes} (h : Holds b r s) (h' : Holds b r' s') : r = r' ∧ s = s' := by
  obtain ⟨_, rSize, _, rfl, -, hr, -⟩ := h
  obtain ⟨_, rSize', _, hb, -, hr', -⟩ := h'
  simp only [List.cons.injEq, true_and] at hb
  obtain ⟨-, rfl, hb⟩ := hb
  obtain ⟨rfl, htail⟩ := List.append_inj hb (hr.symm.trans hr')
  simp only [List.cons.injEq, true_and] at htail
  exact ⟨rfl, htail.2⟩

theorem checkLast_eq_ok {size : UInt8} {s : Bytes} :
    checkLast size s = .ok () ↔ size.toNat = s.length ∧ checkInteger s = .ok () := by
  unfold checkLast
  split
  · rename_i h
    rw [mapError_eq_ok]
    simp [h]
  · rename_i h
    simp [h]

theorem checkContent_eq_ok {content : Bytes} :
    checkContent content = .ok () ↔
      ∃ rSize r sSize s, content = 0x02 :: rSize :: (r ++ 0x02 :: sSize :: s) ∧ rSize.toNat = r.length ∧
        sSize.toNat = s.length ∧ checkInteger r = .ok () ∧ checkInteger s = .ok () := by
  constructor
  · intro h
    unfold checkContent at h
    split at h
    · rename_i tag rSize rest
      split at h
      · cases h
      · rename_i htag
        have htag : tag = 0x02 := by simpa using htag
        dsimp only at h
        split at h
        · rename_i tag' sSize s hdrop
          split at h
          · cases h
          · rename_i htag'
            have htag' : tag' = 0x02 := by simpa using htag'
            obtain ⟨_, hr, hs⟩ := bind_eq_ok.mp h
            obtain ⟨hsize, hs⟩ := checkLast_eq_ok.mp hs
            have hlength : (rest.take rSize.toNat).length = rSize.toNat := by
              have := congrArg List.length hdrop
              rw [List.length_drop, List.length_cons] at this
              exact List.length_take_of_le (by omega)
            refine ⟨rSize, rest.take rSize.toNat, sSize, s, ?_, hlength.symm, hsize, mapError_eq_ok.mp hr, hs⟩
            rw [htag, ← htag', ← hdrop, List.take_append_drop]
        · cases h
    · cases h
  · rintro ⟨rSize, r, sSize, s, rfl, hr, hs, hcheckR, hcheckS⟩
    have hdrop : (r ++ 0x02 :: sSize :: s).drop rSize.toNat = 0x02 :: sSize :: s := List.drop_left' hr.symm
    have htake : (r ++ 0x02 :: sSize :: s).take rSize.toNat = r := List.take_left' hr.symm
    simp only [checkContent, hdrop, htake, hcheckR, checkLast_eq_ok.mpr ⟨hs, hcheckS⟩]
    rfl

theorem check_eq_ok {b : Bytes} :
    check b = .ok () ↔
      b.length ≤ 72 ∧ ∃ r s, Holds b r s ∧ checkInteger r = .ok () ∧ checkInteger s = .ok () := by
  constructor
  · intro h
    unfold check at h
    split at h
    · rename_i tag total content
      split at h
      · cases h
      · rename_i htag
        split at h
        · cases h
        · rename_i hmax
          split at h
          · cases h
          · rename_i htotal
            obtain ⟨rSize, r, sSize, s, rfl, hr, hs, hcheckR, hcheckS⟩ := checkContent_eq_ok.mp h
            have htag : tag = 0x30 := by simpa using htag
            have htotal : total.toNat = (0x02 :: rSize :: (r ++ 0x02 :: sSize :: s)).length := by simpa using htotal
            unfold maxContent at hmax
            simp only [List.length_cons, List.length_append] at htotal ⊢
            rw [htag]
            exact ⟨by omega, r, s, ⟨total, rSize, sSize, rfl, by omega, hr, hs⟩, hcheckR, hcheckS⟩
    · cases h
  · rintro ⟨hmax, r, s, ⟨total, rSize, sSize, rfl, htotal, hr, hs⟩, hcheckR, hcheckS⟩
    simp only [List.length_cons, List.length_append] at hmax
    unfold check
    dsimp only
    rw [if_neg (by simp), if_neg (by unfold maxContent; omega), if_neg]
    · exact checkContent_eq_ok.mpr ⟨rSize, r, sSize, s, rfl, hr, hs, hcheckR, hcheckS⟩
    · simp only [List.length_cons, List.length_append, bne_iff_ne, ne_eq, Decidable.not_not]
      omega

/-! ## By positions -/

/-- The byte at a position; behind the end there are zeros. -/
def byteAt (b : Bytes) (i : Nat) : Nat := (b[i]?.getD 0).toNat

/-- An integer of `size` bytes at a position: there is one, it is not negative, and it does not
    start with a zero unless it would be negative without it. -/
def integerAt (b : Bytes) (i size : Nat) : Bool :=
  size != 0 && byteAt b i < 0x80 && !(1 < size && byteAt b i == 0 && byteAt b (i + 1) < 0x80)

/-- The canonical form as BIP66 tells it, of a signature with its hash type behind it:
    `30 [total] 02 [R] 02 [S] [hash type]`, where each integer has its length in front. -/
def isValidSignatureEncoding (sig : Bytes) : Bool :=
  let rSize := byteAt sig 3
  let sSize := byteAt sig (5 + rSize)
  9 ≤ sig.length && sig.length ≤ 73 && byteAt sig 0 == 0x30 && byteAt sig 1 == sig.length - 3
    && 5 + rSize < sig.length && rSize + sSize + 7 == sig.length
    && byteAt sig 2 == 0x02 && integerAt sig 4 rSize
    && byteAt sig (rSize + 4) == 0x02 && integerAt sig (rSize + 6) sSize

@[simp] theorem byteAt_cons_zero (x : UInt8) (b : Bytes) : byteAt (x :: b) 0 = x.toNat := rfl

@[simp] theorem byteAt_cons_succ (x : UInt8) (b : Bytes) (i : Nat) : byteAt (x :: b) (i + 1) = byteAt b i := rfl

theorem byteAt_append_length (b c : Bytes) (i : Nat) : byteAt (b ++ c) (b.length + i) = byteAt c i := by
  unfold byteAt
  rw [List.getElem?_append_right (by omega), Nat.add_sub_cancel_left]

theorem integerAt_iff {b : Bytes} {i size : Nat} :
    integerAt b i size = true ↔
      size ≠ 0 ∧ byteAt b i < 128 ∧ (1 < size → byteAt b i = 0 → 128 ≤ byteAt b (i + 1)) := by
  unfold integerAt
  rw [Bool.and_eq_true, Bool.and_eq_true, bne_iff_ne, decide_eq_true_eq, Bool.not_eq_true', ← Bool.not_eq_true,
    Bool.and_eq_true, Bool.and_eq_true, decide_eq_true_eq, decide_eq_true_eq, beq_iff_eq]
  omega

/-- Only the bytes of the integer count. -/
theorem integerAt_append (before b rest : Bytes) :
    integerAt (before ++ (b ++ rest)) before.length b.length = true ↔ checkInteger b = .ok () := by
  rw [integerAt_iff]
  cases b with
  | nil => exact iff_of_false (fun h => h.1 rfl) nofun
  | cons x b =>
    have hfirst : byteAt (before ++ (x :: b ++ rest)) before.length = x.toNat := byteAt_append_length before _ 0
    have hzero : x = 0 ↔ x.toNat = 0 := UInt8.toNat_inj.symm
    rw [checkInteger_cons, hfirst, byteAt_append_length before _ 1, hzero]
    cases b with
    | nil => simp
    | cons y c => simp

/-- Where the length of the first integer is right, the positions are those of the parts. -/
theorem isValidSignatureEncoding_of_parts {tag total tagR rSize tagS sSize hashType : UInt8} {r s : Bytes}
    (hr : rSize.toNat = r.length) :
    isValidSignatureEncoding (tag :: total :: tagR :: rSize :: (r ++ tagS :: sSize :: s) ++ [hashType]) = true ↔
      tag.toNat = 0x30 ∧ tagR.toNat = 0x02 ∧ tagS.toNat = 0x02 ∧ r.length + s.length + 4 ≤ 70 ∧
        total.toNat = r.length + s.length + 4 ∧ sSize.toNat = s.length ∧
        checkInteger r = .ok () ∧ checkInteger s = .ok () := by
  let lead : Bytes := [tag, total, tagR, rSize]
  let rest : Bytes := tagS :: sSize :: (s ++ [hashType])
  have hsig : tag :: total :: tagR :: rSize :: (r ++ tagS :: sSize :: s) ++ [hashType] = lead ++ (r ++ rest) := by
    simp [lead, rest]
  have hsize : (lead ++ (r ++ rest)).length = r.length + s.length + 7 := by simp [lead, rest]; omega
  have htagS : byteAt (lead ++ (r ++ rest)) (r.length + 4) = tagS.toNat := by
    rw [Nat.add_comm]
    exact (byteAt_append_length lead (r ++ rest) r.length).trans (byteAt_append_length r rest 0)
  have hsSize : byteAt (lead ++ (r ++ rest)) (5 + r.length) = sSize.toNat := by
    rw [show 5 + r.length = lead.length + (r.length + 1) by simp [lead]; omega]
    exact (byteAt_append_length lead (r ++ rest) (r.length + 1)).trans (byteAt_append_length r rest 1)
  have hR : integerAt (lead ++ (r ++ rest)) 4 r.length = true ↔ checkInteger r = .ok () :=
    integerAt_append lead r rest
  have hS : integerAt (lead ++ (r ++ rest)) (r.length + 6) s.length = true ↔ checkInteger s = .ok () := by
    have hbefore : lead ++ (r ++ rest) = (lead ++ (r ++ [tagS, sSize])) ++ (s ++ [hashType]) := by simp [rest]
    rw [hbefore, show r.length + 6 = (lead ++ (r ++ [tagS, sSize])).length by simp [lead]]
    exact integerAt_append _ s [hashType]
  rw [hsig]
  unfold isValidSignatureEncoding
  rw [show byteAt (lead ++ (r ++ rest)) 3 = r.length from hr]
  simp only [Bool.and_eq_true, decide_eq_true_eq, beq_iff_eq, and_assoc, hsize, htagS, hsSize, hR]
  constructor
  · rintro ⟨-, hmax, htag, htotal, -, hs, htagR, hcheckR, htagS, hcheckS⟩
    have hs : sSize.toNat = s.length := by omega
    have htotal : total.toNat = r.length + s.length + 7 - 3 := htotal
    rw [hs, hS] at hcheckS
    exact ⟨htag, htagR, htagS, by omega, by omega, hs, hcheckR, hcheckS⟩
  · rintro ⟨htag, htagR, htagS, hmax, htotal, hs, hcheckR, hcheckS⟩
    have hposR := List.length_pos_iff.mpr (ne_nil_of_checkInteger hcheckR)
    have hposS := List.length_pos_iff.mpr (ne_nil_of_checkInteger hcheckS)
    have htotal : total.toNat = r.length + s.length + 7 - 3 := by omega
    rw [hs, hS]
    exact ⟨by omega, by omega, htag, htotal, by omega, rfl, htagR, hcheckR, htagS, hcheckS⟩

/-- A string that passes has all its parts. -/
theorem parts_of_isValidSignatureEncoding {b : Bytes} {hashType : UInt8}
    (h : isValidSignatureEncoding (b ++ [hashType]) = true) :
    ∃ tag total tagR rSize r tagS sSize s, b = tag :: total :: tagR :: rSize :: (r ++ tagS :: sSize :: s) ∧
      rSize.toNat = r.length := by
  unfold isValidSignatureEncoding at h
  simp only [Bool.and_eq_true, decide_eq_true_eq, beq_iff_eq, and_assoc, List.length_append, List.length_singleton] at h
  obtain ⟨hmin, -, -, -, -, hsize, -, -, -, hS⟩ := h
  obtain ⟨hpos, -⟩ := integerAt_iff.mp hS
  match b, hmin with
  | tag :: total :: tagR :: rSize :: content, _ =>
    rw [show byteAt (tag :: total :: tagR :: rSize :: content ++ [hashType]) 3 = rSize.toNat from rfl] at hsize hpos
    simp only [List.length_cons] at hsize
    have hdrop : (content.drop rSize.toNat).length = content.length - rSize.toNat := List.length_drop
    match hc : content.drop rSize.toNat, hdrop with
    | [], hdrop | [_], hdrop => simp only [List.length_nil, List.length_singleton] at hdrop; omega
    | tagS :: sSize :: s, _ =>
      have hr : (content.take rSize.toNat).length = rSize.toNat := List.length_take_of_le (by omega)
      refine ⟨tag, total, tagR, rSize, content.take rSize.toNat, tagS, sSize, s, ?_, hr.symm⟩
      rw [← hc, List.take_append_drop]

theorem check_eq_ok_iff_isValidSignatureEncoding (b : Bytes) (hashType : UInt8) :
    check b = .ok () ↔ isValidSignatureEncoding (b ++ [hashType]) = true := by
  rw [check_eq_ok]
  constructor
  · rintro ⟨hmax, r, s, ⟨total, rSize, sSize, rfl, htotal, hr, hs⟩, hcheckR, hcheckS⟩
    simp only [List.length_cons, List.length_append] at hmax
    exact (isValidSignatureEncoding_of_parts hr).mpr ⟨rfl, rfl, rfl, by omega, htotal, hs, hcheckR, hcheckS⟩
  · intro h
    obtain ⟨tag, total, tagR, rSize, r, tagS, sSize, s, rfl, hr⟩ := parts_of_isValidSignatureEncoding h
    obtain ⟨htag, htagR, htagS, hmax, htotal, hs, hcheckR, hcheckS⟩ := (isValidSignatureEncoding_of_parts hr).mp h
    obtain rfl : tag = 0x30 := UInt8.toNat_inj.mp htag
    obtain rfl : tagR = 0x02 := UInt8.toNat_inj.mp htagR
    obtain rfl : tagS = 0x02 := UInt8.toNat_inj.mp htagS
    refine ⟨?_, r, s, ⟨total, rSize, sSize, rfl, htotal, hr, hs⟩, hcheckR, hcheckS⟩
    simp only [List.length_cons, List.length_append]
    omega

/-! ## Canonical encodings -/

/-- The canonical encoding of a signature: its components in a compound, each in the fewest
    bytes. -/
def Encodes (b : Bytes) (r s : Nat) : Prop :=
  ∃ R S : Bytes, IsShortest R r ∧ IsShortest S s ∧ Holds b R S

/-- What passes as canonical are the encodings of two natural numbers in at most 72 bytes. An
    encoding tells its numbers. The same passes if positions are looked at, with any hash
    type behind it. -/
theorem check_iff_encodes (b : Bytes) :
    (check b = .ok () ↔ b.length ≤ 72 ∧ ∃ r s : Nat, Encodes b r s) ∧
      (∀ r s r' s' : Nat, Encodes b r s → Encodes b r' s' → r = r' ∧ s = s') ∧
      ∀ hashType : UInt8, check b = .ok () ↔ isValidSignatureEncoding (b ++ [hashType]) = true := by
  refine ⟨?_, ?_, check_eq_ok_iff_isValidSignatureEncoding b⟩
  · rw [check_eq_ok]
    constructor
    · rintro ⟨hmax, R, S, hb, hR, hS⟩
      obtain ⟨r, hR⟩ := checkInteger_iff_isShortest.mp hR
      obtain ⟨s, hS⟩ := checkInteger_iff_isShortest.mp hS
      exact ⟨hmax, r, s, R, S, hR, hS, hb⟩
    · rintro ⟨hmax, r, s, R, S, hR, hS, hb⟩
      exact ⟨hmax, R, S, hb, checkInteger_iff_isShortest.mpr ⟨r, hR⟩, checkInteger_iff_isShortest.mpr ⟨s, hS⟩⟩
  · rintro r s r' s' ⟨R, S, hR, hS, hb⟩ ⟨R', S', hR', hS', hb'⟩
    obtain ⟨rfl, rfl⟩ := hb.unique hb'
    exact ⟨Int.natCast_inj.mp (hR.spells.symm.trans hR'.spells), Int.natCast_inj.mp (hS.spells.symm.trans hS'.spells)⟩

/-- Zero takes one byte, and a number with its eighth bit set takes two. -/
theorem check_iff_encodes_padded :
    let b : Bytes := [0x30, 0x07, 0x02, 0x01, 0x00, 0x02, 0x02, 0x00, 0x80]
    Encodes b 0 128 ∧ check b = .ok () ∧ ∀ r s : Nat, Encodes b r s → r = 0 ∧ s = 128 := by
  intro b
  have hencodes : Encodes b 0 128 :=
    ⟨[0x00], [0x00, 0x80], isShortest_of_checkInteger rfl, isShortest_of_checkInteger rfl, 0x07, 0x01, 0x02, rfl,
      rfl, rfl, rfl⟩
  obtain ⟨hcheck, hunique, -⟩ := check_iff_encodes b
  exact ⟨hencodes, hcheck.mpr ⟨by decide, 0, 128, hencodes⟩, fun r s h => hunique r s 0 128 h hencodes⟩

end Der

end SpendScript

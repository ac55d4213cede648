/-
  SpendScript.Proofs.Cursor — deletion of any bytes, by rules and by two cursors.

  What deletion leaves can be told by rules that look only at the front of what is left of the
  script (`Script.Deletes`). It can also be worked out in place, by a loop over positions that
  copies late: `pc` is where the script is read, `start` the position up to which it has been
  copied or deleted, and only what lies between them is copied, in the next round
  (`Script.cursorLoop`). A loop has no result if it slices the script out of range, or if it takes
  more rounds than it is given.
  - `Script.Deletes.unique` / `Script.exists_deletes`: the rules leave one result, and
    `findAndDelete` comes to it.
  - `Script.cursorLoop_of_deletes`: so does the loop, from any position, by induction on the rules,
    and there are never more rounds than bytes that are left.
  - `Script.Deletes.length_eq` / `Script.Deletes.eq_of_zero`: nothing is lost but the matches.
  `Script.findAndDelete_by_rules` puts them together.
-/

import SpendScript.Proofs.Deletion

namespace SpendScript.Script

/-! ## By rules -/

/-- What is left of a script, and how many matches went. -/
inductive Deletes (pattern : Bytes) : Bytes → Bytes → Nat → Prop
  | found {s r : Bytes} {k : Nat} (hmatch : pattern <+: s) (h : Deletes pattern (s.drop pattern.length) r k) :
    Deletes pattern s r (k + 1)
  | done (hmiss : ¬ pattern <+: []) : Deletes pattern [] [] 0
  | truncated {b : UInt8} {s : Bytes} (hmiss : ¬ pattern <+: b :: s) (ht : (readItem b s).1.isTruncated = true) :
    Deletes pattern (b :: s) (b :: s) 0
  /-- An item is kept as it stands, whether or not it can be run. -/
  | item {b : UInt8} {s r : Bytes} {k : Nat} (hmiss : ¬ pattern <+: b :: s)
      (ht : (readItem b s).1.isTruncated = false) (h : Deletes pattern (readItem b s).2 r k) :
    Deletes pattern (b :: s) ((readItem b s).1.span ++ r) k

variable {pattern s r : Bytes} {k : Nat}

theorem Deletes.unique (h : Deletes pattern s r k) {r' : Bytes} {k' : Nat} (h' : Deletes pattern s r' k') :
    r = r' ∧ k = k' := by
  induction h generalizing r' k' with
  | found hmatch _ ih =>
    cases h' with
    | found _ h' =>
      obtain ⟨rfl, rfl⟩ := ih h'
      exact ⟨rfl, rfl⟩
    | done hmiss => exact absurd hmatch hmiss
    | truncated hmiss => exact absurd hmatch hmiss
    | item hmiss => exact absurd hmatch hmiss
  | done hmiss =>
    cases h' with
    | found hmatch => exact absurd hmatch hmiss
    | done => exact ⟨rfl, rfl⟩
  | truncated hmiss ht =>
    cases h' with
    | found hmatch => exact absurd hmatch hmiss
    | truncated => exact ⟨rfl, rfl⟩
    | item _ hf =>
      rw [ht] at hf
      cases hf
  | item hmiss hf _ ih =>
    cases h' with
    | found hmatch => exact absurd hmatch hmiss
    | truncated _ ht =>
      rw [ht] at hf
      cases hf
    | item _ _ h' =>
      obtain ⟨rfl, rfl⟩ := ih h'
      exact ⟨rfl, rfl⟩

theorem Deletes.length_eq (h : Deletes pattern s r k) : r.length + k * pattern.length = s.length := by
  induction h with
  | @found s r k hmatch _ ih =>
    have hlength := hmatch.length_le
    rw [List.length_drop] at ih
    rw [Nat.succ_mul]
    omega
  | done => rw [Nat.zero_mul, Nat.add_zero]
  | truncated => rw [Nat.zero_mul, Nat.add_zero]
  | @item b s r k _ _ _ ih =>
    have hspan := congrArg List.length (readItem_append b s)
    rw [List.length_append] at hspan ⊢
    omega

theorem Deletes.eq_of_zero (h : Deletes pattern s r k) (hk : k = 0) : r = s := by
  induction h with
  | found => cases hk
  | done => rfl
  | truncated => rfl
  | @item b s r k _ _ _ ih => rw [ih hk, readItem_append]

/-- What is kept so far stays in front. -/
theorem exists_deletes (hne : pattern ≠ []) (kept : List Bytes) (found : Nat) (s : Bytes) :
    ∃ r k, Deletes pattern s r k ∧
      (deleteFrom pattern kept found s).1.reverse.flatten = kept.reverse.flatten ++ r ∧
      (deleteFrom pattern kept found s).2 = found + k := by
  fun_induction deleteFrom pattern kept found s with
  | case1 kept found s hmatch ih =>
    obtain ⟨r, k, h, hkept, hfound⟩ := ih
    refine ⟨r, k + 1, .found hmatch.2 h, hkept, ?_⟩
    rw [hfound]
    omega
  | case2 kept found hmiss =>
    refine ⟨[], 0, .done fun h => hmiss ⟨hne, h⟩, ?_, rfl⟩
    rw [List.append_nil]
  | case3 kept found b s hmiss next _ _ hresult =>
    have ht : next.1.isTruncated = true := by rw [Piece.isTruncated, hresult]; rfl
    refine ⟨b :: s, 0, .truncated (fun h => hmiss ⟨hne, h⟩) ht, ?_, rfl⟩
    rw [List.reverse_cons, List.flatten_append]
    simp
  | case4 kept found b s hmiss next hresult ih =>
    have ht : next.1.isTruncated = false := Piece.not_isTruncated hresult
    obtain ⟨r, k, h, hkept, hfound⟩ := ih
    refine ⟨next.1.span ++ r, k, .item (fun h => hmiss ⟨hne, h⟩) ht h, ?_, hfound⟩
    rw [hkept]
    simp

theorem findAndDelete_eq_iff (hne : pattern ≠ []) : findAndDelete pattern s = (r, k) ↔ Deletes pattern s r k := by
  obtain ⟨r', k', h, hkept, hfound⟩ := exists_deletes hne [] 0 s
  have heq : findAndDelete pattern s = (r', k') := Prod.ext hkept (hfound.trans (Nat.zero_add k'))
  rw [heq]
  constructor
  · intro hpair
    cases hpair
    exact h
  · intro h'
    obtain ⟨rfl, rfl⟩ := h.unique h'
    rfl

/-! ## By two cursors -/

/-- The bytes from one position up to another, if the script has them. -/
def slice? (s : Bytes) (i j : Nat) : Option Bytes :=
  if i ≤ j ∧ j ≤ s.length then some ((s.drop i).take (j - i)) else none

/-- Goes on behind the match as long as there is one, and counts. -/
def skipMatches (pattern s : Bytes) : (rounds pc found : Nat) → Option (Nat × Nat)
  | 0, _, _ => none
  | rounds + 1, pc, found => do
    let rest ← slice? s pc s.length
    if pattern <+: rest then skipMatches pattern s rounds (pc + pattern.length) (found + 1) else return (pc, found)

/-- What was copied, from where on it was not, and the number of matches. -/
def cursorLoop (pattern s : Bytes) :
    (rounds : Nat) → (copied : Bytes) → (start pc found : Nat) → Option (Bytes × Nat × Nat)
  | 0, _, _, _, _ => none
  | rounds + 1, copied, start, pc, found => do
    let part ← slice? s start pc
    let (pc, found) ← skipMatches pattern s (rounds + 1) pc found
    if s.length ≤ pc then return (copied ++ part, pc, found)
    else
      match ← slice? s pc s.length with
      | [] => return (copied ++ part, pc, found)
      | b :: rest =>
        let next := readItem b rest
        if next.1.isTruncated then return (copied ++ part, pc, found)
        else cursorLoop pattern s rounds (copied ++ part) pc (s.length - next.2.length) found

/-- What is left of the script is copied at the end, if anything was found at all. -/
def cursorDelete (rounds : Nat) (pattern s : Bytes) : Option (Bytes × Nat) :=
  if pattern = [] then some (s, 0)
  else do
    let (copied, start, found) ← cursorLoop pattern s rounds [] 0 0 0
    if found = 0 then return (s, 0)
    else
      let rest ← slice? s start s.length
      return (copied ++ rest, found)

theorem slice?_append (before part after : Bytes) :
    slice? (before ++ (part ++ after)) before.length (before.length + part.length) = some part := by
  unfold slice?
  rw [if_pos (by simp)]
  simp

theorem slice?_end {pc : Nat} (hpc : pc ≤ s.length) : slice? s pc s.length = some (s.drop pc) := by
  unfold slice?
  rw [if_pos ⟨hpc, Nat.le_refl _⟩, ← List.length_drop, List.take_length]

theorem skipMatches_of_match {rounds pc : Nat} (hpc : pc ≤ s.length) (hmatch : pattern <+: s.drop pc) (found : Nat) :
    skipMatches pattern s (rounds + 1) pc found = skipMatches pattern s rounds (pc + pattern.length) (found + 1) := by
  rw [skipMatches, slice?_end hpc]
  exact if_pos hmatch

theorem skipMatches_of_miss {rounds pc : Nat} (hpc : pc ≤ s.length) (hmiss : ¬ pattern <+: s.drop pc) (found : Nat) :
    skipMatches pattern s (rounds + 1) pc found = some (pc, found) := by
  rw [skipMatches, slice?_end hpc]
  exact if_neg hmiss

/-- One round of the loop, once the matches at `pc₀` have led to `pc`. -/
theorem cursorLoop_round {rounds : Nat} {copied part : Bytes} {start pc₀ found₀ pc found : Nat}
    (hpart : slice? s start pc₀ = some part)
    (hskip : skipMatches pattern s (rounds + 1) pc₀ found₀ = some (pc, found)) (hpc : pc ≤ s.length) :
    cursorLoop pattern s (rounds + 1) copied start pc₀ found₀ =
      match s.drop pc with
      | [] => some (copied ++ part, pc, found)
      | b :: rest =>
        if (readItem b rest).1.isTruncated then some (copied ++ part, pc, found)
        else cursorLoop pattern s rounds (copied ++ part) pc (s.length - (readItem b rest).2.length) found := by
  rw [cursorLoop, hpart, hskip]
  by_cases hend : s.length ≤ pc
  · rw [List.drop_eq_nil_iff.mpr hend]
    exact if_pos hend
  · refine (if_neg hend).trans ?_
    rw [slice?_end hpc]
    rfl

/-- The cursors move over the item that was read, and it is copied in the next round. -/
theorem slice?_item {pc : Nat} {b : UInt8} {rest : Bytes} (hrest : s.drop pc = b :: rest) :
    let next := s.length - (readItem b rest).2.length
    next ≤ s.length ∧ pc < next ∧ slice? s pc next = some (readItem b rest).1.span ∧
      s.drop next = (readItem b rest).2 := by
  intro next
  have hspan := readItem_append b rest
  have hs : s = s.take pc ++ ((readItem b rest).1.span ++ (readItem b rest).2) := by
    rw [hspan, ← hrest, List.take_append_drop]
  have hleft := congrArg List.length hrest
  rw [List.length_drop, List.length_cons] at hleft
  have htake : (s.take pc).length = pc := List.length_take_of_le (by omega)
  have hnext : next = pc + (readItem b rest).1.span.length := by
    have hlength := congrArg List.length hs
    rw [List.length_append, List.length_append, htake] at hlength
    omega
  have hshorter := readItem_rest_length b rest
  refine ⟨Nat.sub_le _ _, by omega, ?_, ?_⟩
  · have hslice := slice?_append (s.take pc) (readItem b rest).1.span (readItem b rest).2
    rw [← hs, htake, ← hnext] at hslice
    exact hslice
  · have hdrop : (s.take pc ++ ((readItem b rest).1.span ++ (readItem b rest).2)).drop next = (readItem b rest).2 := by
      rw [← List.append_assoc]
      refine List.drop_left' ?_
      rw [List.length_append, htake, hnext]
    rw [← hs] at hdrop
    exact hdrop

/-- The loop from `pc₀` on, if the matches there lead to `pc` and no more than `steps` are left to
    try: it ends, and what it has copied with what it left uncopied is what the rules leave. The
    induction is on the rules from `pc` on; each of them uses up a byte and at most one round. -/
theorem cursorLoop_of_deletes {pc : Nat} (h : Deletes pattern (s.drop pc) r k) (hpc : pc ≤ s.length) (hne : pattern ≠ [])
    {rounds steps start pc₀ found₀ found : Nat} {copied part : Bytes} (hrounds : s.length - pc ≤ rounds)
    (hsteps : s.length - pc ≤ steps) (hpart : slice? s start pc₀ = some part)
    (hskip : skipMatches pattern s (rounds + 1) pc₀ found₀ = skipMatches pattern s (steps + 1) pc found) :
    ∃ copied' start', cursorLoop pattern s (rounds + 1) copied start pc₀ found₀ = some (copied', start', found + k) ∧
      start' ≤ s.length ∧ copied' ++ s.drop start' = copied ++ part ++ r := by
  generalize hrest : s.drop pc = rest at h
  induction h generalizing pc rounds steps start pc₀ found₀ found copied part with
  | @found rest r k hmatch _ ih =>
    subst hrest
    have hlength := hmatch.length_le
    have hpos := List.length_pos_iff.mpr hne
    rw [List.length_drop] at hlength
    obtain ⟨steps, rfl⟩ := Nat.exists_eq_add_one.mpr (show 0 < steps by omega)
    have hnext := hskip.trans (skipMatches_of_match hpc hmatch found)
    obtain ⟨copied', start', hloop, hstart, hbytes⟩ :=
      ih (by omega) (by omega) (by omega) hpart hnext List.drop_drop.symm
    refine ⟨copied', start', ?_, hstart, hbytes⟩
    rw [hloop, Nat.add_assoc, Nat.add_comm 1]
  | done hmiss =>
    rw [skipMatches_of_miss hpc (hrest ▸ hmiss)] at hskip
    refine ⟨copied ++ part, pc, ?_, hpc, by rw [hrest]⟩
    rw [cursorLoop_round hpart hskip hpc, hrest]
    rfl
  | truncated hmiss ht =>
    rw [skipMatches_of_miss hpc (hrest ▸ hmiss)] at hskip
    refine ⟨copied ++ part, pc, ?_, hpc, by rw [hrest]⟩
    rw [cursorLoop_round hpart hskip hpc, hrest]
    exact if_pos ht
  | @item b rest r k hmiss ht _ ih =>
    rw [skipMatches_of_miss hpc (hrest ▸ hmiss)] at hskip
    obtain ⟨hle, hlt, hspan, hdrop⟩ := slice?_item hrest
    obtain ⟨rounds, rfl⟩ := Nat.exists_eq_add_one.mpr (show 0 < rounds by omega)
    have hleft : s.length - (s.length - (readItem b rest).2.length) ≤ rounds := by omega
    obtain ⟨copied', start', hloop, hstart, hbytes⟩ := ih hle hleft hleft hspan rfl hdrop
    refine ⟨copied', start', ?_, hstart, ?_⟩
    · rw [cursorLoop_round hpart hskip hpc, hrest]
      simp only [ht, Bool.false_eq_true, if_false]
      exact hloop
    · rw [hbytes, List.append_assoc _ _ r]

/-- The loop ends without a slice out of range, with what the rules leave. -/
theorem cursorDelete_of_deletes (hne : pattern ≠ []) (h : Deletes pattern s r k) {rounds : Nat}
    (hrounds : s.length ≤ rounds) : cursorDelete (rounds + 1) pattern s = some (r, k) := by
  have hfront : Deletes pattern (s.drop 0) r k := h
  have hpart : slice? s 0 0 = some [] := slice?_append [] [] s
  obtain ⟨copied, start, hloop, hstart, hbytes⟩ :
      ∃ copied start, cursorLoop pattern s (rounds + 1) [] 0 0 0 = some (copied, start, 0 + k) ∧
        start ≤ s.length ∧ copied ++ s.drop start = r :=
    cursorLoop_of_deletes hfront (Nat.zero_le _) hne hrounds hrounds hpart rfl
  rw [Nat.zero_add] at hloop
  unfold cursorDelete
  rw [if_neg hne, hloop]
  by_cases hk : k = 0
  · refine (if_pos hk).trans ?_
    rw [h.eq_of_zero hk, hk]
    rfl
  · refine (if_neg hk).trans ?_
    rw [slice?_end hstart]
    exact congrArg (fun bytes => some (bytes, k)) hbytes

/-! ## Deletion -/

/-- Deletion goes by the rules, whatever the pattern is: it may span items and end inside one. The
    loop with two cursors comes to the same, without a slice out of range and in no more than one
    round for each byte and one for the end. All bytes are kept but
    those of the matches, and if there are none, the script is as it was. -/
theorem findAndDelete_by_rules (s pattern : Bytes) (hne : pattern ≠ []) :
    (∀ rounds, s.length < rounds → cursorDelete rounds pattern s = some (findAndDelete pattern s)) ∧
    (∀ r k, findAndDelete pattern s = (r, k) ↔ Deletes pattern s r k) ∧
    (findAndDelete pattern s).1.length + (findAndDelete pattern s).2 * pattern.length = s.length ∧
    ((findAndDelete pattern s).2 = 0 → (findAndDelete pattern s).1 = s) := by
  have h : Deletes pattern s (findAndDelete pattern s).1 (findAndDelete pattern s).2 := (findAndDelete_eq_iff hne).mp rfl
  refine ⟨fun rounds hrounds => ?_, fun r k => findAndDelete_eq_iff hne, h.length_eq, h.eq_of_zero⟩
  obtain ⟨rounds, rfl⟩ := Nat.exists_eq_add_one.mpr (Nat.zero_lt_of_lt hrounds)
  exact cursorDelete_of_deletes hne h (Nat.le_of_lt_succ hrounds)

/-- The match ends inside a push, whose last byte is then read as an opcode of its own; the script
    ends in a truncated push. -/
theorem findAndDelete_by_rules_inside :
    let pattern : Bytes := [0x51, 0x02, 0xaa]
    let s : Bytes := [0x76, 0x51, 0x02, 0xaa, 0x6a, 0x51, 0x02, 0xaa, 0x4c, 0x05, 0x51, 0x02, 0xaa]
    cursorDelete (s.length + 1) pattern s = some ([0x76, 0x6a, 0x4c, 0x05, 0x51, 0x02, 0xaa], 2) ∧
      Deletes pattern s [0x76, 0x6a, 0x4c, 0x05, 0x51, 0x02, 0xaa] 2 := by
  intro pattern s
  obtain ⟨hcursor, hrules, -⟩ := findAndDelete_by_rules s pattern (by decide)
  have hdelete : findAndDelete pattern s = ([0x76, 0x6a, 0x4c, 0x05, 0x51, 0x02, 0xaa], 2) := by decide +kernel
  exact ⟨(hcursor (s.length + 1) (Nat.lt_succ_self _)).trans (congrArg some hdelete), (hrules _ _).mp hdelete⟩

end SpendScript.Script

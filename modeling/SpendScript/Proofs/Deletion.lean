/-
  SpendScript.Proofs.Deletion — what is left of a script without some pushes.

  Deletion compares bytes, and goes on behind a match without reading it. For a pattern that is
  read as one item whatever follows (`Script.IsItem`), and every push in its shortest length is
  one (`Script.isItem_pushEncoding`), it comes to the same as leaving out items:
  - `Script.keep`: the script with some of its items, up to the first truncated push.
  - `Script.whole_keep` / `Script.keep_keep`: what is left is read as before, so one may leave
    out in turn.
  - `Script.deleteFrom_eq` / `Script.findAndDelete_pushEncoding`: deletion leaves out the items
    that are written as the pattern.
  - `Check.withoutSignatures_eq`: what a script code is without some signatures.
  `Script.findAndDelete_filters_pushes` puts them together.
-/

import Mathlib
import SpendScript.Machine.Check
import SpendScript.Proofs.Reading

namespace SpendScript

/-! ## What a truncated push leaves -/

theorem readData_rest (lead : Bytes) (wrap : Bytes → Option Push) (n : Nat) (s : Bytes) :
    (readData lead wrap n s).2 = s.drop n := by
  unfold readData
  dsimp only
  split
  · rfl
  · rename_i hn
    rw [List.length_take] at hn
    exact (List.drop_of_length_le (by omega)).symm

/-- A push is truncated if its bytes are not there; whether its size is allowed does not count. -/
theorem readData_isTruncated (lead : Bytes) (wrap : Bytes → Option Push) (n : Nat) (s : Bytes) :
    (readData lead wrap n s).1.isTruncated = true ↔ s.length < n := by
  unfold readData
  dsimp only
  split
  · rename_i hn
    rw [List.length_take] at hn
    refine iff_of_false ?_ (by omega)
    unfold Piece.isTruncated
    dsimp only
    split
    · exact Bool.false_ne_true
    · rename_i he
      split at he
      · split at he
        · cases he
        · cases he; exact Bool.false_ne_true
      · cases he; exact Bool.false_ne_true
  · rename_i hn
    rw [List.length_take] at hn
    exact iff_of_true rfl (by omega)

theorem readSized_truncated {lead : UInt8} {s : Bytes} {wrap : Bytes → Option Push} {w : Nat}
    (h : (readSized lead wrap w s).1.isTruncated = true) : (readSized lead wrap w s).2 = [] := by
  unfold readSized at h ⊢
  dsimp only at h ⊢
  split
  · rename_i hw
    rw [if_pos hw, readData_isTruncated] at h
    rw [readData_rest]
    exact List.drop_of_length_le (Nat.le_of_lt h)
  · rfl

theorem readByte_isTruncated (b : UInt8) (span : Bytes) : (⟨readByte b, span⟩ : Piece).isTruncated = false := by
  unfold Piece.isTruncated readByte
  dsimp only
  split
  · rfl
  · rename_i he
    split at he
    · cases he; rfl
    · split at he <;> cases he

theorem Piece.not_isTruncated {p : Piece}
    (h : ∀ expected available, p.result = .error (.read expected available) → False) : p.isTruncated = false := by
  unfold Piece.isTruncated
  cases hr : p.result with
  | ok item => rfl
  | error e =>
    cases e with
    | read expected available => exact absurd hr (h expected available)
    | disabled | pushSize => rfl

theorem readItem_truncated {b : UInt8} {s : Bytes} (h : (readItem b s).1.isTruncated = true) :
    (readItem b s).2 = [] := by
  rcases readItem_cases b with hb | ⟨wrap, w, hb⟩ | ⟨-, hb⟩
  · rw [hb, readData_isTruncated] at h
    rw [hb, readData_rest]
    exact List.drop_of_length_le (Nat.le_of_lt h)
  · rw [hb] at h ⊢
    exact readSized_truncated h
  · rw [hb] at h
    dsimp only at h
    rw [readByte_isTruncated] at h
    cases h

namespace Script

/-! ## Items that end by themselves -/

/-- Bytes that are read as one item, whatever follows them. -/
def IsItem (b : Bytes) : Prop :=
  ∃ p : Piece, p.span = b ∧ p.isTruncated = false ∧ ∀ rest, pieces (b ++ rest) = p :: pieces rest

theorem pieces_cons (b : UInt8) (s : Bytes) : pieces (b :: s) = (readItem b s).1 :: pieces (readItem b s).2 := by
  rw [pieces]

/-- It is enough to read the bytes alone. -/
theorem isItem_of_readItem {b : UInt8} {s : Bytes} (ht : (readItem b s).1.isTruncated = false)
    (hrest : (readItem b s).2 = []) : IsItem (b :: s) := by
  have hspan := readItem_append b s
  rw [hrest, List.append_nil] at hspan
  obtain ⟨data, hdata, hread⟩ := readItem_stable ht
  obtain ⟨-, rfl⟩ := List.cons.inj (hdata.symm.trans hspan)
  refine ⟨(readItem b data).1, hspan, ht, fun rest => ?_⟩
  rw [List.cons_append, pieces_cons, hread]

theorem isItem_sized {lead : UInt8} {wrap : Bytes → Option Push} {w : Nat} (hlead : readItem lead = readSized lead wrap w)
    {v : Bytes} (hv : v.length < 256 ^ w) : IsItem (lead :: (leBytes w v.length ++ v)) := by
  have htake : (leBytes w v.length ++ v).take w = leBytes w v.length := List.take_left' (leBytes_length w _)
  have hdrop : (leBytes w v.length ++ v).drop w = v := List.drop_left' (leBytes_length w _)
  have hread : readItem lead (leBytes w v.length ++ v) = readData (lead :: leBytes w v.length) wrap v.length v := by
    rw [hlead]
    unfold readSized
    dsimp only
    rw [htake, hdrop, if_pos (leBytes_length w _), leNat_leBytes, Nat.mod_eq_of_lt hv]
  refine isItem_of_readItem ?_ ?_
  · rw [hread, ← Bool.not_eq_true, readData_isTruncated]
    omega
  · rw [hread, readData_rest, List.drop_length]

theorem isItem_encode (op : Opcode) : IsItem op.encode :=
  ⟨⟨.ok (.good op), op.encode⟩, rfl, rfl, pieces_encode_append op⟩

/-- A push in the shortest length is told from what follows it, also if it is too large to be run. -/
theorem isItem_pushEncoding {v : Bytes} (hv : v.length < 2 ^ 32) : IsItem (pushEncoding v) := by
  unfold pushEncoding
  split
  · rename_i hshort
    cases v with
    | nil => exact isItem_encode (.push .zero)
    | cons x v => exact isItem_encode (.push (.direct (x :: v) ⟨Nat.le_add_left 1 _, Nat.le_of_lt_succ hshort⟩))
  · split
    · exact isItem_sized (funext readItem_data1) (by omega)
    · split
      · exact isItem_sized (funext readItem_data2) (by omega)
      · exact isItem_sized (funext readItem_data4) (by omega)

/-! ## Whole items and the rest -/

/-- The items up to the first truncated push. -/
def wholePieces (s : Bytes) : List Piece := (pieces s).takeWhile (!·.isTruncated)

/-- The bytes from the first truncated push on. -/
def truncatedTail (s : Bytes) : Bytes := ((pieces s).dropWhile (!·.isTruncated)).flatMap Piece.span

/-- The script with some of its whole items only. -/
def keep (f : Piece → Bool) (s : Bytes) : Bytes := ((wholePieces s).filter f).flatMap Piece.span ++ truncatedTail s

theorem whole_nil : wholePieces [] = [] ∧ truncatedTail [] = [] := by
  unfold wholePieces truncatedTail
  rw [pieces]
  exact ⟨rfl, rfl⟩

theorem whole_of_pieces_cons {s rest : Bytes} {p : Piece} (h : pieces s = p :: pieces rest) (ht : p.isTruncated = false) :
    wholePieces s = p :: wholePieces rest ∧ truncatedTail s = truncatedTail rest := by
  unfold wholePieces truncatedTail
  rw [h]
  simp [ht]

theorem keep_of_pieces_cons {f : Piece → Bool} {s rest : Bytes} {p : Piece} (h : pieces s = p :: pieces rest)
    (ht : p.isTruncated = false) : keep f s = (if f p then p.span else []) ++ keep f rest := by
  obtain ⟨hwhole, htail⟩ := whole_of_pieces_cons h ht
  unfold keep
  rw [hwhole, htail, List.filter_cons]
  split
  · rw [List.flatMap_cons, List.append_assoc]
  · rw [List.nil_append]

theorem whole_of_truncated {b : UInt8} {s : Bytes} (ht : (readItem b s).1.isTruncated = true) :
    wholePieces (b :: s) = [] ∧ truncatedTail (b :: s) = b :: s := by
  have hspan := readItem_append b s
  rw [readItem_truncated ht, List.append_nil] at hspan
  unfold wholePieces truncatedTail
  rw [pieces_cons, readItem_truncated ht, pieces]
  simp [ht, hspan]

theorem mem_wholePieces {s : Bytes} {p : Piece} (h : p ∈ wholePieces s) : p ∈ pieces s ∧ p.isTruncated = false := by
  refine ⟨(List.takeWhile_sublist _).subset h, ?_⟩
  simpa using List.mem_takeWhile_imp h

theorem wholePieces_spans (s : Bytes) : (wholePieces s).flatMap Piece.span ++ truncatedTail s = s := by
  unfold wholePieces truncatedTail
  rw [← List.flatMap_append, List.takeWhile_append_dropWhile, pieces_spans]

/-- Behind whole items a script is read as it would be alone. -/
theorem whole_append {code : Bytes} {ps : List Piece} (hp : ∀ p ∈ ps, p ∈ wholePieces code) (rest : Bytes) :
    wholePieces (ps.flatMap Piece.span ++ rest) = ps ++ wholePieces rest ∧
      truncatedTail (ps.flatMap Piece.span ++ rest) = truncatedTail rest := by
  have hpieces := pieces_flatMap_span_append (fun p h => mem_wholePieces (hp p h)) rest
  have hwhole (p : Piece) (h : p ∈ ps) : (!p.isTruncated) = true := by rw [(mem_wholePieces (hp p h)).2]; rfl
  unfold wholePieces truncatedTail
  rw [hpieces, List.takeWhile_append_of_pos hwhole, List.dropWhile_append_of_pos hwhole]
  exact ⟨rfl, rfl⟩

theorem whole_truncatedTail (s : Bytes) :
    wholePieces (truncatedTail s) = [] ∧ truncatedTail (truncatedTail s) = truncatedTail s := by
  fun_induction pieces s with
  | case1 =>
    rw [whole_nil.2]
    exact whole_nil
  | case2 b s next ih =>
    cases ht : next.1.isTruncated with
    | true =>
      rw [(whole_of_truncated ht).2]
      exact whole_of_truncated ht
    | false =>
      rw [(whole_of_pieces_cons (pieces_cons b s) ht).2]
      exact ih

/-- What is kept is read as before. -/
theorem whole_keep (f : Piece → Bool) (s : Bytes) :
    wholePieces (keep f s) = (wholePieces s).filter f ∧ truncatedTail (keep f s) = truncatedTail s := by
  obtain ⟨hwhole, htail⟩ := whole_append (fun p hp => (List.mem_filter.mp hp).1) (truncatedTail s)
  obtain ⟨hwhole', htail'⟩ := whole_truncatedTail s
  unfold keep
  rw [hwhole, htail, hwhole', htail', List.append_nil]
  exact ⟨rfl, rfl⟩

theorem keep_keep (f g : Piece → Bool) (s : Bytes) : keep g (keep f s) = keep (fun p => g p && f p) s := by
  obtain ⟨hwhole, htail⟩ := whole_keep f s
  rw [keep, hwhole, htail, List.filter_filter]
  rfl

theorem keep_sublist (f : Piece → Bool) (s : Bytes) : (keep f s).Sublist s := by
  have hkept := ((List.filter_sublist (p := f) (l := wholePieces s)).flatMap Piece.span).append_right (truncatedTail s)
  rw [wholePieces_spans] at hkept
  exact hkept

theorem keep_eq_self {f : Piece → Bool} {s : Bytes} (h : ∀ p ∈ wholePieces s, f p = true) : keep f s = s := by
  unfold keep
  rw [List.filter_eq_self.mpr h, wholePieces_spans]

/-! ## Deletion -/

/-- Deleting the bytes of one item takes out the items that are written so. The pattern need be
    one only if the script is long enough to hold it. -/
theorem deleteFrom_eq {pattern : Bytes} (hne : pattern ≠ []) (kept : List Bytes) (found : Nat) (s : Bytes)
    (hp : pattern.length ≤ s.length → IsItem pattern) :
    (deleteFrom pattern kept found s).1.reverse.flatten =
        kept.reverse.flatten ++ keep (·.span != pattern) s ∧
      (deleteFrom pattern kept found s).2 = found + (wholePieces s).countP (·.span == pattern) := by
  fun_induction deleteFrom pattern kept found s with
  | case1 kept found s hmatch ih =>
    obtain ⟨-, rest, rfl⟩ := hmatch
    rw [List.drop_left] at ih ⊢
    obtain ⟨p, rfl, ht, hread⟩ := hp (by simp)
    obtain ⟨hkept, hfound⟩ := ih fun _ => hp (by simp)
    rw [hkept, hfound, keep_of_pieces_cons (hread rest) ht, (whole_of_pieces_cons (hread rest) ht).1, List.countP_cons]
    constructor
    · rw [bne_self_eq_false, if_neg Bool.false_ne_true, List.nil_append]
    · rw [beq_self_eq_true, if_pos rfl]
      omega
  | case2 kept found =>
    unfold keep
    simp [whole_nil]
  | case3 kept found b s hmatch next _ _ hresult =>
    have ht : next.1.isTruncated = true := by rw [Piece.isTruncated, hresult]; rfl
    obtain ⟨hwhole, htail⟩ := whole_of_truncated ht
    unfold keep
    rw [hwhole, htail]
    simp
  | case4 kept found b s hmatch next hresult ih =>
    have ht : next.1.isTruncated = false := Piece.not_isTruncated hresult
    -- an item that is written as the pattern would have been a match
    have hspan : next.1.span ≠ pattern := by
      intro h
      exact hmatch ⟨hne, next.2, h ▸ readItem_append b s⟩
    have hlength : next.2.length ≤ s.length := readItem_rest_length b s
    obtain ⟨hkept, hfound⟩ := ih fun hle => hp (Nat.le_succ_of_le (Nat.le_trans hle hlength))
    rw [hkept, hfound, keep_of_pieces_cons (pieces_cons b s) ht, (whole_of_pieces_cons (pieces_cons b s) ht).1,
      List.countP_cons]
    simp [next, hspan]

theorem pushEncoding_length (v : Bytes) : v.length < (pushEncoding v).length := by
  unfold pushEncoding
  split
  · simp
  · split
    · simp
    · split <;> simp

theorem pushEncoding_ne_nil (v : Bytes) : pushEncoding v ≠ [] :=
  List.ne_nil_of_length_pos (Nat.zero_lt_of_lt (pushEncoding_length v))

/-! ## Several pushes -/

/-- The script without the pushes of the given values, as far as it is read. -/
def withoutPushes (values : List Bytes) (s : Bytes) : Bytes := keep (fun p => !values.any (p.span == pushEncoding ·)) s

theorem findAndDelete_pushEncoding {v s : Bytes} (h : v.length < 2 ^ 32 ∨ s.length < 2 ^ 32) :
    findAndDelete (pushEncoding v) s =
      (keep (·.span != pushEncoding v) s, (wholePieces s).countP (·.span == pushEncoding v)) := by
  have hitem (hle : (pushEncoding v).length ≤ s.length) : IsItem (pushEncoding v) := by
    have := pushEncoding_length v
    exact isItem_pushEncoding (by omega)
  obtain ⟨hkept, hfound⟩ := deleteFrom_eq (pushEncoding_ne_nil v) [] 0 s hitem
  refine Prod.ext (hkept.trans ?_) (hfound.trans (Nat.zero_add _))
  rfl

theorem withoutPushes_perm {values values' : List Bytes} (h : values.Perm values') (s : Bytes) :
    withoutPushes values s = withoutPushes values' s := by
  unfold withoutPushes
  congr 1
  funext p
  rw [h.any_eq]

/-- Whether a push of the value is among the items of the script. -/
def holdsPush (s v : Bytes) : Bool := (wholePieces s).any (·.span == pushEncoding v)

theorem withoutPushes_cons (v : Bytes) (values : List Bytes) (s : Bytes) :
    withoutPushes values (keep (·.span != pushEncoding v) s) = withoutPushes (v :: values) s := by
  unfold withoutPushes
  rw [keep_keep]
  congr 1
  funext p
  rw [List.any_cons, Bool.not_or, Bool.and_comm]
  rfl

end Script

/-! ## Signatures -/

namespace Check

open Script

/-- One signature after the other is taken out. Where the code may not be changed, it is an error
    if one of them is in it. -/
theorem withoutSignatures_eq {rules : Rules} {code : Bytes} {items : List Bytes}
    (h : ∀ item ∈ items, item.length < 2 ^ 32 ∨ code.length < 2 ^ 32) :
    withoutSignatures rules code items =
      if rules.has .constScriptCode && items.any (holdsPush code) then .error .findAndDelete
      else .ok (withoutPushes items code) := by
  induction items generalizing code with
  | nil =>
    have hkeep : withoutPushes [] code = code := keep_eq_self fun _ _ => rfl
    rw [List.any_nil, Bool.and_false, if_neg Bool.false_ne_true, hkeep]
    rfl
  | cons item items ih =>
    rw [List.forall_mem_cons] at h
    have hfound : (0 < (wholePieces code).countP (·.span == pushEncoding item) : Bool) = holdsPush code item := by
      rw [Bool.eq_iff_iff, decide_eq_true_eq, List.countP_pos_iff, holdsPush, List.any_eq_true]
    simp only [withoutSignatures, findAndDelete_pushEncoding h.1, hfound, List.any_cons]
    cases hconst : rules.has .constScriptCode with
    | false =>
      have hlength := (keep_sublist (·.span != pushEncoding item) code).length_le
      rw [Bool.and_false, if_neg Bool.false_ne_true, ih fun x hx => (h.2 x hx).imp_right fun h => by omega, hconst,
        withoutPushes_cons]
      rfl
    | true =>
      by_cases hitem : holdsPush code item = true
      · simp [hitem]
      · have hkeep : keep (·.span != pushEncoding item) code = code := by
          refine keep_eq_self fun p hp => ?_
          rw [holdsPush, List.any_eq_true] at hitem
          simpa using fun hspan => hitem ⟨p, hp, hspan⟩
        have hrest := withoutPushes_cons item items code
        rw [hkeep] at hrest ⊢
        rw [ih h.2, hconst, ← hrest]
        simp [hitem]

end Check

namespace Script

/-- Deletion of a push acts on items: it takes out those that are written as the push, and leaves
    what a truncated push hides. So it is done after one pass, the order of several deletions does
    not count, nor does the order of the signatures that a script code is freed of. -/
theorem findAndDelete_filters_pushes (s v : Bytes) (hv : v.length < 2 ^ 32) :
    findAndDelete (pushEncoding v) s =
        (((wholePieces s).filter (·.span != pushEncoding v)).flatMap Piece.span ++ truncatedTail s,
          (wholePieces s).countP (·.span == pushEncoding v)) ∧
      findAndDelete (pushEncoding v) (findAndDelete (pushEncoding v) s).1 =
        ((findAndDelete (pushEncoding v) s).1, 0) ∧
      (∀ v' : Bytes, v'.length < 2 ^ 32 →
        (findAndDelete (pushEncoding v') (findAndDelete (pushEncoding v) s).1).1 =
          (findAndDelete (pushEncoding v) (findAndDelete (pushEncoding v') s).1).1) ∧
      ∀ (rules : Rules) (context : Context) (sigs sigs' : List Bytes), sigs.Perm sigs' →
        (∀ sig ∈ sigs, sig.length < 2 ^ 32) →
          Check.coveredCode rules s context sigs = Check.coveredCode rules s context sigs' := by
  have hdelete {v : Bytes} (hv : v.length < 2 ^ 32) (s : Bytes) := findAndDelete_pushEncoding (s := s) (Or.inl hv)
  refine ⟨hdelete hv s, ?_, fun v' hv' => ?_, fun rules context sigs sigs' hperm hsigs => ?_⟩
  · rw [hdelete hv s, hdelete hv, keep_keep, (whole_keep _ s).1]
    simp [List.countP_filter]
  · rw [hdelete hv s, hdelete hv' s, hdelete hv', hdelete hv]
    dsimp only
    rw [keep_keep, keep_keep]
    congr 1
    funext p
    exact Bool.and_comm _ _
  · unfold Check.coveredCode
    split
    · rw [Check.withoutSignatures_eq fun sig hsig => Or.inl (hsigs sig hsig),
        Check.withoutSignatures_eq fun sig hsig => Or.inl (hsigs sig (hperm.mem_iff.mpr hsig)),
        hperm.any_eq, withoutPushes_perm hperm]
    · rfl

/-- Both pushes go, and a truncated push that ends in the same bytes stays as it is. -/
theorem findAndDelete_filters_pushes_truncated :
    findAndDelete (pushEncoding [0xaa, 0xbb])
        [0x02, 0xaa, 0xbb, 0x51, 0x02, 0xaa, 0xbb, 0x4c, 0x05, 0x02, 0xaa, 0xbb] =
      ([0x51, 0x4c, 0x05, 0x02, 0xaa, 0xbb], 2) := by
  rw [(findAndDelete_filters_pushes _ [0xaa, 0xbb] (by decide)).1]
  decide +kernel

-- a pattern that is no item is found at the start of one
example : findAndDelete [0x02] [0x02, 0xaa, 0xbb, 0x51] = ([0xaa, 0xbb, 0x51], 1) := by decide +kernel

end Script

end SpendScript

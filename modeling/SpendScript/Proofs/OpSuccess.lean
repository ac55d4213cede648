/-
  SpendScript.Proofs.OpSuccess — opcodes that make a tapscript succeed.

  A tapscript is looked through before it is run. It succeeds if an item in front of any
  truncated push starts with a byte that is set aside for upgrades, and it fails if there is a
  truncated push otherwise. What is run after that holds no disabled opcode, no truncated push
  and three bad opcodes only, since all other bytes that are no opcodes are set aside:
  - `Piece.mayRun_of_mem`: the items of a script that is run.
  - `Witness.holdsOpSuccess_of_succeedsIn` / `Witness.holdsOpSuccess_of_not_succeedsIn`: what
    looking through a script comes to.
  - `Script.parseError_of_eval` / `Witness.parseError_of_runScript`: a run fails with a reading
    error only if it came upon that error.
  `Witness.opSuccess_decides` puts them together.
-/

import Mathlib
import SpendScript.Proofs.Deletion
import SpendScript.Proofs.Trace
import SpendScript.Witness

namespace SpendScript

open Dialogue

/-! ## Bytes and items -/

/-- Whether an item starts with a byte that makes a tapscript succeed. -/
def Piece.isOpSuccess (p : Piece) : Bool := p.span.head?.any Witness.isOpSuccess

/-- What a tapscript that is run may hold. Of the opcodes that fail where they are reached, these
    are the two that fail in any branch, and the last byte. -/
def Piece.mayRun (p : Piece) : Bool :=
  match p.result with
  | .ok (.good _) | .error (.pushSize _) => true
  | .ok (.bad b) => b.byte == 0x65 || b.byte == 0x66 || b.byte == 0xff
  | .error _ => false

theorem Piece.pushSize_of_mayRun {p : Piece} (h : p.mayRun = true) {e : ParseError} (he : p.result = .error e) :
    ∃ n, e = .pushSize n := by
  unfold Piece.mayRun at h
  rw [he] at h
  cases e with
  | pushSize n => exact ⟨n, rfl⟩
  | read expected available => cases h
  | disabled op => cases h

theorem Piece.bad_of_mayRun {p : Piece} (h : p.mayRun = true) {b : Bad} (hb : p.result = .ok (.bad b)) :
    b.byte = 0x65 ∨ b.byte = 0x66 ∨ b.byte = 0xff := by
  unfold Piece.mayRun at h
  rw [hb] at h
  simpa [or_assoc] using h

theorem Piece.isTruncated_of_error {p : Piece} {e : ParseError} (he : p.result = .error e) :
    p.isTruncated = e.isTruncated := by
  unfold Piece.isTruncated
  rw [he]

theorem Script.not_isTruncated_of_items {s : Bytes} (h : ∀ e, .error e ∈ Script.items s → e.isTruncated = false)
    {p : Piece} (hp : p ∈ Script.pieces s) : p.isTruncated = false := by
  cases hr : p.result with
  | ok item =>
    unfold Piece.isTruncated
    rw [hr]
  | error e =>
    rw [Piece.isTruncated_of_error hr]
    exact h e (List.mem_map.mpr ⟨p, hp, hr⟩)

theorem readByte_mayRun {b : UInt8} (hb : b.toNat = 0 ∨ 0x4f ≤ b.toNat) (hs : Witness.isOpSuccess b = false)
    (span : Bytes) : (⟨readByte b, span⟩ : Piece).mayRun = true := by
  have h : ∀ b : UInt8, b.toNat = 0 ∨ 0x4f ≤ b.toNat → Witness.isOpSuccess b = false →
      (⟨readByte b, []⟩ : Piece).mayRun = true := by
    decide +kernel
  exact h b hb hs

theorem readData_mayRun {lead s : Bytes} {wrap : Bytes → Option Push} {n : Nat}
    (h : (readData lead wrap n s).1.isTruncated = false) : (readData lead wrap n s).1.mayRun = true := by
  unfold readData at h ⊢
  dsimp only at h ⊢
  split at h
  · rename_i hn
    rw [if_pos hn]
    unfold Piece.mayRun
    dsimp only
    by_cases hmax : n ≤ Push.maxData
    · rw [if_pos hmax]
      cases wrap (s.take n) <;> rfl
    · rw [if_neg hmax]
  · cases h

theorem readSized_mayRun {lead : UInt8} {s : Bytes} {wrap : Bytes → Option Push} {w : Nat}
    (h : (readSized lead wrap w s).1.isTruncated = false) : (readSized lead wrap w s).1.mayRun = true := by
  unfold readSized at h ⊢
  dsimp only at h ⊢
  split at h
  · rename_i hw
    rw [if_pos hw]
    exact readData_mayRun h
  · cases h

theorem readItem_head (b : UInt8) (s : Bytes) : (readItem b s).1.span.head? = some b := by
  have hspan := readItem_append b s
  cases h : (readItem b s).1.span with
  | nil =>
    have hlength := readItem_rest_length b s
    rw [h, List.nil_append] at hspan
    rw [hspan, List.length_cons] at hlength
    omega
  | cons c span =>
    rw [h, List.cons_append] at hspan
    rw [List.head?_cons, (List.cons.inj hspan).1]

theorem readItem_isOpSuccess (b : UInt8) (s : Bytes) : (readItem b s).1.isOpSuccess = Witness.isOpSuccess b := by
  rw [Piece.isOpSuccess, readItem_head, Option.any_some]

theorem readItem_mayRun {b : UInt8} {s : Bytes} (ht : (readItem b s).1.isTruncated = false)
    (hb : (readItem b s).1.isOpSuccess = false) : (readItem b s).1.mayRun = true := by
  rw [readItem_isOpSuccess] at hb
  rcases readItem_cases b with hr | ⟨wrap, w, hr⟩ | ⟨hbyte, hr⟩
  · rw [hr] at ht ⊢
    exact readData_mayRun ht
  · rw [hr] at ht ⊢
    exact readSized_mayRun ht
  · rw [hr]
    exact readByte_mayRun hbyte hb [b]

/-- A truncated push is a push, and none of these is set aside. -/
theorem readItem_not_isOpSuccess {b : UInt8} {s : Bytes} (ht : (readItem b s).1.isTruncated = true) :
    (readItem b s).1.isOpSuccess = false := by
  have hset : ∀ b : UInt8, Witness.isOpSuccess b = true → 0x4f ≤ b.toNat := by decide +kernel
  rw [readItem_isOpSuccess, ← Bool.not_eq_true]
  intro hb
  rw [readItem_of_ge (hset b hb), readByte_isTruncated] at ht
  cases ht

theorem Piece.mayRun_of_mem {s : Bytes} {p : Piece} (hp : p ∈ Script.pieces s) (ht : p.isTruncated = false)
    (hs : p.isOpSuccess = false) : p.mayRun = true := by
  fun_induction Script.pieces s with
  | case1 => cases hp
  | case2 b s next ih =>
    rcases List.mem_cons.mp hp with rfl | hp
    · exact readItem_mayRun ht hs
    · exact ih hp

theorem Piece.not_isOpSuccess_of_mem {s : Bytes} {p : Piece} (hp : p ∈ Script.pieces s)
    (ht : p.isTruncated = true) : p.isOpSuccess = false := by
  fun_induction Script.pieces s with
  | case1 => cases hp
  | case2 b s next ih =>
    rcases List.mem_cons.mp hp with rfl | hp
    · exact readItem_not_isOpSuccess ht
    · exact ih hp

/-- A truncated push ends the script. -/
theorem Piece.eq_of_isTruncated {s : Bytes} {p q : Piece} (hp : p ∈ Script.pieces s) (hq : q ∈ Script.pieces s)
    (htp : p.isTruncated = true) (htq : q.isTruncated = true) : p = q := by
  fun_induction Script.pieces s with
  | case1 => cases hp
  | case2 b s next ih =>
    have hend (ht : next.1.isTruncated = true) : Script.pieces next.2 = [] := by
      rw [readItem_truncated ht, Script.pieces]
    rcases List.mem_cons.mp hp with rfl | hp
    · rw [hend htp] at hq
      exact (List.mem_singleton.mp hq).symm
    · rcases List.mem_cons.mp hq with rfl | hq
      · rw [hend htq] at hp
        cases hp
      · exact ih hp hq

/-! ## Looking through a script -/

namespace Witness

theorem holdsOpSuccess_cons_of_isOpSuccess {p : Piece} (h : p.isOpSuccess = true) (rest : List Piece) :
    holdsOpSuccess (p :: rest) = .ok true := if_pos h

theorem holdsOpSuccess_cons_of_isTruncated {p : Piece} (h : p.isOpSuccess = false) (ht : p.isTruncated = true)
    (rest : List Piece) : ∃ e, p.result = .error e ∧ holdsOpSuccess (p :: rest) = .error (.parse e) := by
  obtain ⟨result, span⟩ := p
  cases result with
  | ok item => cases ht
  | error e =>
    cases e with
    | read expected available =>
      refine ⟨_, rfl, ?_⟩
      rw [holdsOpSuccess, if_neg (by simpa [Piece.isOpSuccess] using h)]
    | disabled op => cases ht
    | pushSize n => cases ht

theorem holdsOpSuccess_cons_of_not {p : Piece} (h : p.isOpSuccess = false) (ht : p.isTruncated = false)
    (rest : List Piece) : holdsOpSuccess (p :: rest) = holdsOpSuccess rest := by
  obtain ⟨result, span⟩ := p
  rw [holdsOpSuccess, if_neg (by simpa [Piece.isOpSuccess] using h)]
  cases result with
  | ok item => rfl
  | error e =>
    cases e with
    | read expected available => cases ht
    | disabled op => rfl
    | pushSize n => rfl

/-- Some item in front of any truncated push makes a tapscript succeed. -/
def SucceedsIn (ps : List Piece) : Prop := ∃ p ∈ ps.takeWhile (!·.isTruncated), p.isOpSuccess = true

theorem succeedsIn_cons {p : Piece} {ps : List Piece} (ht : p.isTruncated = false) :
    SucceedsIn (p :: ps) ↔ p.isOpSuccess = true ∨ SucceedsIn ps := by
  simp [SucceedsIn, ht]

theorem holdsOpSuccess_of_succeedsIn {ps : List Piece} (h : SucceedsIn ps) : holdsOpSuccess ps = .ok true := by
  induction ps with
  | nil => simp [SucceedsIn] at h
  | cons p ps ih =>
    cases ht : p.isTruncated with
    | true => simp [SucceedsIn, ht] at h
    | false =>
      cases hs : p.isOpSuccess with
      | true => exact holdsOpSuccess_cons_of_isOpSuccess hs ps
      | false =>
        rw [succeedsIn_cons ht, hs] at h
        rw [holdsOpSuccess_cons_of_not hs ht]
        exact ih (h.resolve_left Bool.false_ne_true)

/-- Otherwise the first truncated push is an error, and without one nothing is found. -/
theorem holdsOpSuccess_of_not_succeedsIn {ps : List Piece}
    (hps : ∀ p ∈ ps, p.isTruncated = true → p.isOpSuccess = false) (h : ¬ SucceedsIn ps) :
    (∃ p ∈ ps, p.isTruncated = true ∧ ∃ e, p.result = .error e ∧ holdsOpSuccess ps = .error (.parse e)) ∨
      (∀ p ∈ ps, p.isTruncated = false) ∧ holdsOpSuccess ps = .ok false := by
  induction ps with
  | nil => exact Or.inr ⟨by simp, rfl⟩
  | cons p ps ih =>
    cases ht : p.isTruncated with
    | true =>
      have hs := hps p List.mem_cons_self ht
      exact Or.inl ⟨p, List.mem_cons_self, ht, holdsOpSuccess_cons_of_isTruncated hs ht ps⟩
    | false =>
      rw [succeedsIn_cons ht, not_or, Bool.not_eq_true] at h
      rw [holdsOpSuccess_cons_of_not h.1 ht]
      rcases ih (fun q hq => hps q (List.mem_cons_of_mem p hq)) h.2 with ⟨q, hq, htq, he⟩ | ⟨hall, hfalse⟩
      · exact Or.inl ⟨q, List.mem_cons_of_mem p hq, htq, he⟩
      · exact Or.inr ⟨List.forall_mem_cons.mpr ⟨ht, hall⟩, hfalse⟩

/-- What is run after that. -/
theorem mayRun_of_not_succeedsIn {s : Bytes} (h : ¬ SucceedsIn (Script.pieces s))
    (hwhole : ∀ p ∈ Script.pieces s, p.isTruncated = false) {p : Piece} (hp : p ∈ Script.pieces s) :
    p.mayRun = true := by
  refine Piece.mayRun_of_mem hp (hwhole p hp) (Bool.not_eq_true _ ▸ fun hs => h ⟨p, ?_, hs⟩)
  rwa [List.takeWhile_eq_self_iff.mpr fun q hq => by simp [hwhole q hq]]

theorem pushSize_of_mem_items {s : Bytes} (h : ¬ SucceedsIn (Script.pieces s))
    (hwhole : ∀ p ∈ Script.pieces s, p.isTruncated = false) {e : ParseError} (he : .error e ∈ Script.items s) :
    ∃ n, e = .pushSize n := by
  obtain ⟨p, hp, hpe⟩ := List.mem_map.mp he
  exact Piece.pushSize_of_mayRun (mayRun_of_not_succeedsIn h hwhole hp) hpe

theorem bad_of_mem_items {s : Bytes} (h : ¬ SucceedsIn (Script.pieces s))
    (hwhole : ∀ p ∈ Script.pieces s, p.isTruncated = false) {b : Bad} (hb : .ok (.bad b) ∈ Script.items s) :
    b.byte = 0x65 ∨ b.byte = 0x66 ∨ b.byte = 0xff := by
  obtain ⟨p, hp, hpb⟩ := List.mem_map.mp hb
  exact Piece.bad_of_mayRun (mayRun_of_not_succeedsIn h hwhole hp) hpb

end Witness

/-! ## Reading errors of a run -/

section Run

variable {rules : Rules} {script : Bytes}

theorem parseError_of_execute {index : Nat} {s : State} {xs : List (Except ScriptError Item)} {es : List Exchange}
    {e : ParseError} (h : Course (execute rules script index s xs) es (.error (.parse e))) :
    .error (.parse e) ∈ xs := by
  induction xs generalizing index s es with
  | nil => cases h
  | cons x xs ih =>
    cases x with
    | error err =>
      cases h
      exact List.mem_cons_self
    | ok item =>
      rcases course_bind.mp h with ⟨s', ys, zs, -, hrest, -⟩ | ⟨err, hitem, herr⟩
      · exact List.mem_cons_of_mem _ (ih hrest)
      · -- the item itself fails with an error of the machine
        obtain ⟨r, -, hr⟩ := course_mapError.mp hitem
        cases r with
        | ok s' => cases hr
        | error m =>
          cases hr
          cases herr

theorem Script.parseError_of_eval {s : Bytes} {stack : Stack} {context : Context} {es : List Exchange} {e : ParseError}
    (h : Course (Script.eval rules s stack context) es (.error (.parse e))) : .error e ∈ Script.items s := by
  rcases course_bind.mp h with ⟨_, ys, zs, -, h, -⟩ | ⟨err, hsize, herr⟩
  · rcases course_bind.mp h with ⟨t, ys', zs', -, hfinish, -⟩ | ⟨err, hrun, herr⟩
    · have hfinish := (course_liftM.mp hfinish).2
      unfold State.finish at hfinish
      split at hfinish <;> cases hfinish
    · cases herr
      obtain ⟨x, hx, hxe⟩ := List.mem_map.mp (parseError_of_execute hrun)
      cases x with
      | ok item => cases hxe
      | error e' =>
        cases hxe
        exact hx
  · cases herr
    have hsize := (course_liftM.mp hsize).2
    unfold checkScriptSize at hsize
    split at hsize <;> cases hsize

/-- Items that are too large are refused as pushes are. -/
theorem Witness.parseError_of_runScript {items : List Bytes} {context : Context} {es : List Exchange} {e : ParseError}
    (h : Course (Witness.runScript rules items script context) es (.error (.parse e))) :
    (∃ n, e = .pushSize n) ∨ .error e ∈ Script.items script := by
  rcases course_bind.mp h with ⟨_, ys, zs, -, h, -⟩ | ⟨err, hitems, herr⟩
  · rcases course_bind.mp h with ⟨stack, ys', zs', -, hend, -⟩ | ⟨err, hrun, herr⟩
    · split at hend <;> cases hend
    · cases herr
      exact Or.inr (Script.parseError_of_eval hrun)
  · cases herr
    have hitems := (course_liftM.mp hitems).2
    unfold Witness.checkItems at hitems
    split at hitems
    · cases hitems
    · split at hitems
      · cases hitems
        exact Or.inl ⟨_, rfl⟩
      · cases hitems

end Run

/-! ## Tapscripts -/

namespace Witness

theorem execute_of_holdsOpSuccess {rules : Rules} {items : List Bytes} {s : Bytes} {context : Context}
    (hv : context.version = .tapscript) {found : Bool} (h : holdsOpSuccess (Script.pieces s) = .ok found) :
    execute rules items s context =
      if found then if rules.has .discourageOpSuccess then .fail .discourageOpSuccess else .ret true
      else runScript rules items s context := by
  unfold execute
  rw [if_pos (by simp [hv]), h]
  rfl

theorem execute_of_holdsOpSuccess_error {rules : Rules} {items : List Bytes} {s : Bytes} {context : Context}
    (hv : context.version = .tapscript) {e : ScriptError} (h : holdsOpSuccess (Script.pieces s) = .error e) :
    execute rules items s context = .fail e := by
  unfold execute
  rw [if_pos (by simp [hv]), h]
  rfl

/-- Before anything else a tapscript is looked through. An item that is set aside for upgrades, in
    front of any truncated push, decides it whatever the items and whoever answers. Otherwise
    a truncated push is an error. In what is then run, no disabled opcode and no truncated push is
    come upon, and of the bad opcodes there are three only. -/
theorem opSuccess_decides (rules : Rules) (s : Bytes) (context : Context) (hv : context.version = .tapscript) :
    (SucceedsIn (Script.pieces s) → ∀ items, execute rules items s context =
      if rules.has .discourageOpSuccess then .fail .discourageOpSuccess else .ret true) ∧
    (¬ SucceedsIn (Script.pieces s) → ∀ e, .error e ∈ Script.items s → e.isTruncated = true →
      ∀ items, execute rules items s context = .fail (.parse e)) ∧
    (¬ SucceedsIn (Script.pieces s) → (∀ e, .error e ∈ Script.items s → e.isTruncated = false) →
      (∀ {σ : Type} (r : Responder σ) (w : σ) (items : List Bytes) (e : ParseError),
        ((execute rules items s context).converse r w).result = .error (.parse e) → ∃ n, e = .pushSize n) ∧
      (∀ {σ : Type} (r : Responder σ) (w : σ) (stack : Stack) (e : ParseError),
        ((Script.eval rules s stack context).converse r w).result = .error (.parse e) → ∃ n, e = .pushSize n) ∧
      ∀ b, .ok (.bad b) ∈ Script.items s → b.byte = 0x65 ∨ b.byte = 0x66 ∨ b.byte = 0xff) := by
  have htruncated : ∀ p ∈ Script.pieces s, p.isTruncated = true → p.isOpSuccess = false :=
    fun p => Piece.not_isOpSuccess_of_mem
  refine ⟨fun h items => ?_, fun h e he ht items => ?_, fun h hwhole => ?_⟩
  · exact execute_of_holdsOpSuccess hv (holdsOpSuccess_of_succeedsIn h)
  · obtain ⟨p, hp, hpe⟩ := List.mem_map.mp he
    have htp : p.isTruncated = true := (Piece.isTruncated_of_error hpe).trans ht
    rcases holdsOpSuccess_of_not_succeedsIn htruncated h with ⟨q, hq, htq, e', hqe, herror⟩ | ⟨hall, -⟩
    · rw [← Piece.eq_of_isTruncated hp hq htp htq, hpe] at hqe
      cases hqe
      exact execute_of_holdsOpSuccess_error hv herror
    · rw [hall p hp] at htp
      cases htp
  · have hwhole : ∀ p ∈ Script.pieces s, p.isTruncated = false :=
      fun p => Script.not_isTruncated_of_items hwhole
    have hrun : holdsOpSuccess (Script.pieces s) = .ok false := by
      rcases holdsOpSuccess_of_not_succeedsIn htruncated h with ⟨q, hq, htq, -⟩ | ⟨-, hfalse⟩
      · rw [hwhole q hq] at htq
        cases htq
      · exact hfalse
    refine ⟨fun r w items e he => ?_, fun r w stack e he => ?_, fun b => bad_of_mem_items h hwhole⟩
    · have hcourse := converse_course r w (execute rules items s context)
      rw [he, execute_of_holdsOpSuccess hv hrun] at hcourse
      rcases parseError_of_runScript hcourse with hn | hmem
      · exact hn
      · exact pushSize_of_mem_items h hwhole hmem
    · have hcourse := converse_course r w (Script.eval rules s stack context)
      rw [he] at hcourse
      exact pushSize_of_mem_items h hwhole (Script.parseError_of_eval hcourse)

/-- The byte in a push does not count, the opcode behind it does, and what follows that no
    more. Without the opcode the push that follows is an error. A script with neither is run, here
    one that no answers can make fail for a reading error. -/
theorem opSuccess_decides_behind_push :
    (Context.fresh .tapscript).version = .tapscript ∧
      execute (Rules.ofBits 0) [] [0x01, 0x50, 0x7e, 0x4c] (Context.fresh .tapscript) = .ret true ∧
      execute (Rules.ofBits 0) [] [0x01, 0x50, 0x4c] (Context.fresh .tapscript) = .fail (.parse (.read 1 0)) ∧
      ∀ (r : Responder Unit) (items : List Bytes) (e : ParseError),
        ((execute (Rules.ofBits 0) items [0x01, 0x50, 0x65] (Context.fresh .tapscript)).converse r ()).result =
          .error (.parse e) → ∃ n, e = .pushSize n := by
  have hfound : SucceedsIn (Script.pieces [0x01, 0x50, 0x7e, 0x4c]) := by
    rw [SucceedsIn, ← List.any_eq_true]
    cbv
  have hnone : ¬ SucceedsIn (Script.pieces [0x01, 0x50, 0x4c]) := by
    rw [SucceedsIn, ← List.any_eq_true, Bool.not_eq_true]
    cbv
  have hlast : .error (.read 1 0) ∈ Script.items [0x01, 0x50, 0x4c] := by
    refine List.mem_of_getElem? (i := 1) ?_
    cbv
  have hnone' : ¬ SucceedsIn (Script.pieces [0x01, 0x50, 0x65]) := by
    rw [SucceedsIn, ← List.any_eq_true, Bool.not_eq_true]
    cbv
  have hread : ∀ e, .error e ∈ Script.items [0x01, 0x50, 0x65] → e.isTruncated = false := by
    intro e he
    have hitems : (Script.items [0x01, 0x50, 0x65]).all Except.isOk = true := by cbv
    cases List.all_eq_true.mp hitems _ he
  exact ⟨rfl, (opSuccess_decides (Rules.ofBits 0) _ _ rfl).1 hfound [],
    (opSuccess_decides (Rules.ofBits 0) _ _ rfl).2.1 hnone _ hlast rfl [],
    fun r => ((opSuccess_decides (Rules.ofBits 0) _ _ rfl).2.2 hnone' hread).1 r ()⟩

end Witness

end SpendScript

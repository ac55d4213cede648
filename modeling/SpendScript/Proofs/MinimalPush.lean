/-
  SpendScript.Proofs.MinimalPush — the one shortest push of a value, and scripts of such pushes.

  A value can be pushed in up to five forms. Which one is minimal is told in three ways: by a
  check on the push (`Push.isMinimal`), by the push that is picked for the value
  (`Push.ofBytes?`), and by the bytes that each form takes. The three are brought to the fewest
  bytes that a value needs (`Push.leastSize`):
  - `Push.leastSize_le` / `Push.isMinimal_iff_size`: no push takes fewer, and the minimal ones
    take exactly that many.
  - `Push.ofBytes?_eq_some`: so does the push that is picked, and it leaves the value.
  - `Push.minimal_iff_picked_iff_shortest`: the three ways agree, and every value up to
    `Push.maxData` bytes has a push.
  A script that only pushes leaves the values of its pushes and nothing else, so under the rule
  on minimal data it is told by the stack it leaves:
  - `Script.pushes_of_yields`: what a run of such a script says about it.
  - `Script.pushOnly_eq_of_result_eq`: two of them with the same result are the same bytes.
-/

import SpendScript.Proofs.Machine
import SpendScript.Proofs.Trace

namespace SpendScript

namespace Push

variable {p : Push} {v : Bytes}

/-! ## The fewest bytes -/

/-- The bytes that a push of a value takes at least: one for a constant, and otherwise those of
    the data and of the shortest length in front of it. -/
def leastSize (v : Bytes) : Nat :=
  if isConstant v then 1
  else if v.length ≤ 75 then 1 + v.length
  else if v.length ≤ 255 then 2 + v.length
  else 3 + v.length

theorem length_le_of_isConstant (h : isConstant v = true) : v.length ≤ 1 := by
  rcases v with _ | ⟨b, _ | ⟨c, v⟩⟩
  · exact Nat.zero_le 1
  · exact Nat.le_refl 1
  · cases h

theorem not_isConstant_of_length (h : 2 ≤ v.length) : isConstant v = false := by
  rw [Bool.eq_false_iff]
  intro hc
  have := length_le_of_isConstant hc
  omega

theorem isConstant_value_small (k : Fin 16) : isConstant (Push.small k).value = true := by
  revert k
  decide

theorem leastSize_of_isConstant (h : isConstant v = true) : leastSize v = 1 := if_pos h

theorem leastSize_of_not_isConstant (h : isConstant v = false) :
    leastSize v =
      if v.length ≤ 75 then 1 + v.length else if v.length ≤ 255 then 2 + v.length else 3 + v.length := by
  unfold leastSize
  rw [if_neg (by simp [h])]

theorem leastSize_le (p : Push) : leastSize p.value ≤ p.size := by
  cases p with
  | zero => exact Nat.le_refl 1
  | minusOne => exact Nat.le_refl 1
  | small k => exact (leastSize_of_isConstant (isConstant_value_small k)).le
  | direct data h | data1 data h | data2 data h | data4 data h =>
    show leastSize data ≤ _
    cases hc : isConstant data with
    | true =>
      rw [leastSize_of_isConstant hc]
      simp only [size]
      omega
    | false =>
      rw [leastSize_of_not_isConstant hc]
      simp only [size]
      split_ifs <;> omega

theorem size_le (p : Push) : p.size ≤ 5 + maxData := by
  cases p <;> simp only [size, maxData] <;> omega

theorem isMinimal_iff_size (p : Push) : p.isMinimal = true ↔ p.size = leastSize p.value := by
  cases p with
  | zero => exact iff_of_true rfl rfl
  | minusOne => exact iff_of_true rfl rfl
  | small k => exact iff_of_true rfl (leastSize_of_isConstant (isConstant_value_small k)).symm
  | direct data h =>
    show (!isConstant data) = true ↔ 1 + data.length = leastSize data
    cases hc : isConstant data with
    | true =>
      rw [leastSize_of_isConstant hc]
      exact iff_of_false (by decide) (by omega)
    | false =>
      rw [leastSize_of_not_isConstant hc, if_pos h.2]
      exact iff_of_true rfl rfl
  | data1 data h | data2 data h | data4 data h =>
    simp only [value, size, isMinimal, decide_eq_true_eq]
    cases hc : isConstant data with
    | true =>
      have hone := length_le_of_isConstant hc
      rw [leastSize_of_isConstant hc]
      omega
    | false =>
      rw [leastSize_of_not_isConstant hc]
      split_ifs <;> omega

/-! ## The push that is picked -/

theorem ofBytes?_of_isConstant (h : isConstant v = true) :
    ∃ p, ofBytes? v = some p ∧ p.value = v ∧ p.size = 1 := by
  rcases v with _ | ⟨b, _ | ⟨c, v⟩⟩
  · exact ⟨.zero, rfl, rfl, rfl⟩
  · simp only [isConstant, Bool.or_eq_true, Bool.and_eq_true, beq_iff_eq, decide_eq_true_eq] at h
    rcases h with rfl | ⟨hlow, hhigh⟩
    · exact ⟨.minusOne, rfl, rfl, rfl⟩
    · have hb : 1 ≤ b.toNat ∧ b.toNat ≤ 16 := ⟨hlow, hhigh⟩
      have hne : (b == 0x81) = false := by
        rw [beq_eq_false_iff_ne]
        rintro rfl
        exact absurd hb.2 (by decide)
      refine ⟨.small ⟨b.toNat - 1, by omega⟩, ?_, ?_, rfl⟩
      · simp [ofBytes?, hne, hb]
      · simp only [value]
        rw [Nat.sub_add_cancel hb.1, UInt8.ofNat_toNat]
  · cases h

/-- A value without a constant gets the shortest length that can tell its size. -/
theorem ofBytes?_of_not_isConstant (h : isConstant v = false) :
    ofBytes? v = if v.length ≤ 75 then direct? v else if v.length ≤ 255 then data1? v else data2? v := by
  rcases v with _ | ⟨b, _ | ⟨c, v⟩⟩
  · cases h
  · simp only [isConstant, Bool.or_eq_false_iff, Bool.and_eq_false_iff, decide_eq_false_iff_not] at h
    have hb : ¬ (1 ≤ b.toNat ∧ b.toNat ≤ 16) := fun hb => h.2.elim (fun hn => hn hb.1) fun hn => hn hb.2
    simp [ofBytes?, direct?, h.1, hb]
  · simp only [ofBytes?, direct?, data1?, data2?, List.length_cons]
    grind

theorem ofBytes?_eq_some (h : ofBytes? v = some p) : p.value = v ∧ p.size = leastSize v := by
  cases hc : isConstant v with
  | true =>
    obtain ⟨q, hq, hvalue, hsize⟩ := ofBytes?_of_isConstant hc
    rw [hq] at h
    cases h
    exact ⟨hvalue, hsize.trans (leastSize_of_isConstant hc).symm⟩
  | false =>
    rw [ofBytes?_of_not_isConstant hc] at h
    rw [leastSize_of_not_isConstant hc]
    -- each form is picked under the bound that gives its size
    split_ifs at h ⊢
    all_goals
      obtain ⟨_, hp⟩ := Option.dite_none_right_eq_some.mp h
      cases hp
      exact ⟨rfl, rfl⟩

theorem exists_ofBytes? (h : v.length ≤ maxData) : ∃ p, ofBytes? v = some p := by
  cases hc : isConstant v with
  | true =>
    obtain ⟨p, hp, -⟩ := ofBytes?_of_isConstant hc
    exact ⟨p, hp⟩
  | false =>
    have hpos : 1 ≤ v.length := by
      cases v with
      | nil => cases hc
      | cons b v => exact Nat.le_add_left 1 _
    rw [ofBytes?_of_not_isConstant hc]
    split
    · exact ⟨_, dif_pos ⟨hpos, ‹_›⟩⟩
    · split
      · exact ⟨_, dif_pos ‹_›⟩
      · exact ⟨_, dif_pos h⟩

theorem ofBytes?_eq_none : ofBytes? v = none ↔ maxData < v.length := by
  constructor
  · intro h
    by_contra hle
    obtain ⟨p, hp⟩ := exists_ofBytes? (v := v) (by omega)
    rw [hp] at h
    cases h
  · intro h
    cases hp : ofBytes? v with
    | none => rfl
    | some p =>
      have hlength := p.value_length_le
      rw [(ofBytes?_eq_some hp).1] at hlength
      omega

/-- The push of a number leaves its shortest form, and is minimal itself. -/
theorem ofNumber_spec {n : Int} (h : (Number.encode n).length ≤ maxData) :
    (ofNumber n).value = Number.encode n ∧ (ofNumber n).isMinimal = true := by
  obtain ⟨p, hp⟩ := exists_ofBytes? h
  obtain ⟨hvalue, hsize⟩ := ofBytes?_eq_some hp
  have hpicked : ofNumber n = p := by
    unfold ofNumber
    rw [hp]
    rfl
  rw [hpicked, isMinimal_iff_size, hvalue]
  exact ⟨rfl, hsize⟩

/-- A minimal push is the one that is picked for its value. -/
theorem ofBytes?_value (h : p.isMinimal = true) : ofBytes? p.value = some p := by
  cases p with
  | zero => rfl
  | minusOne => rfl
  | small k =>
    revert k
    decide
  | direct data size =>
    have hc : isConstant data = false := by simpa [isMinimal] using h
    show ofBytes? data = _
    rw [ofBytes?_of_not_isConstant hc, if_pos size.2]
    exact dif_pos size
  | data1 data size =>
    have hn : 0x4c ≤ data.length := of_decide_eq_true h
    show ofBytes? data = _
    rw [ofBytes?_of_not_isConstant (not_isConstant_of_length (by omega)), if_neg (by omega), if_pos size]
    exact dif_pos size
  | data2 data size =>
    have hn : 0x100 ≤ data.length := of_decide_eq_true h
    show ofBytes? data = _
    rw [ofBytes?_of_not_isConstant (not_isConstant_of_length (by omega)), if_neg (by omega), if_neg (by omega)]
    exact dif_pos size
  | data4 data size =>
    have hn : 0x10000 ≤ data.length := of_decide_eq_true h
    omega

/-- Minimal pushes are told by the values they leave. -/
theorem eq_of_values_eq {ops ops' : List Push} (h : ∀ p ∈ ops, p.isMinimal = true)
    (h' : ∀ p ∈ ops', p.isMinimal = true) (hv : ops.map value = ops'.map value) : ops = ops' := by
  have hpicked {ops : List Push} (h : ∀ p ∈ ops, p.isMinimal = true) :
      (ops.map value).map ofBytes? = ops.map some := by
    rw [List.map_map]
    exact List.map_congr_left fun p hp => ofBytes?_value (h p hp)
  refine List.map_injective_iff.mpr (Option.some_injective Push) ?_
  rw [← hpicked h, hv, hpicked h']

/-- A push passes as minimal exactly if it is the one that is picked for its value, and exactly
    if no push of the same value is written in fewer bytes. A push is picked for the values that
    one push can hold, and leaves the value; for the others there is none. -/
theorem minimal_iff_picked_iff_shortest :
    (∀ p : Push, (p.isMinimal = true ↔ ofBytes? p.value = some p) ∧
      (ofBytes? p.value = some p ↔ ¬ ∃ q : Push, q.value = p.value ∧ q.encode.length < p.encode.length)) ∧
    ∀ v : Bytes, ((∃ p, ofBytes? v = some p ∧ p.value = v) ↔ v.length ≤ 520) ∧
      (ofBytes? v = none ↔ 520 < v.length) := by
  have hpicked (p : Push) : p.isMinimal = true ↔ ofBytes? p.value = some p :=
    ⟨ofBytes?_value, fun h => p.isMinimal_iff_size.mpr (ofBytes?_eq_some h).2⟩
  refine ⟨fun p => ⟨hpicked p, ?_⟩, fun v => ⟨⟨?_, fun h => ?_⟩, ofBytes?_eq_none⟩⟩
  · rw [← hpicked, isMinimal_iff_size]
    simp only [encode_length, not_exists, not_and, Nat.not_lt]
    constructor
    · intro h q hq
      rw [h, ← hq]
      exact q.leastSize_le
    · intro h
      obtain ⟨c, hc⟩ := exists_ofBytes? p.value_length_le
      obtain ⟨hvalue, hsize⟩ := ofBytes?_eq_some hc
      have := h c hvalue
      have := p.leastSize_le
      omega
  · rintro ⟨p, -, rfl⟩
    exact p.value_length_le
  · obtain ⟨p, hp⟩ := exists_ofBytes? h
    exact ⟨p, hp, (ofBytes?_eq_some hp).1⟩

end Push

/-! ## Scripts that only push -/

section PushOnly

variable {rules : Rules} {script : Bytes}

/-- A run over pushes to the end: each was allowed, and their values are on the stack, the last
    one on top. The reserved opcode and an oversized push do not get there. -/
theorem pushes_of_execute {xs : List (Except ParseError Item)} {index : Nat} {s t : State} (hb : s.branches = [])
    (hp : xs.all Script.countsAsPush = true)
    (h : (execute rules script index s (xs.map (·.mapError ScriptError.parse))).Yields t) :
    ∃ ops : List Push, xs = ops.map (fun p => .ok (.good (.push p))) ∧ (∀ p ∈ ops, p.Allowed rules) ∧
      t.stack = (ops.map Push.value).reverse ++ s.stack := by
  induction xs generalizing index s with
  | nil =>
    cases Dialogue.yields_pure.mp h
    exact ⟨[], rfl, by simp, rfl⟩
  | cons x xs ih =>
    rw [List.all_cons, Bool.and_eq_true] at hp
    cases x with
    | error e => exact absurd h Dialogue.not_yields_fail
    | ok item =>
      obtain ⟨s', hs, hrest⟩ := Dialogue.yields_bind.mp h
      have hstep := Item.step_of_yields (Dialogue.yields_mapError.mp hs)
      have he : ∀ size, (s.reach index size).executing = true := fun _ => State.executing_of_closed hb
      cases hstep with
      | push p _ hallowed _ =>
        obtain ⟨ops, rfl, hops, hstack⟩ :=
          ih (s := { s.reach index p.size with stack := p.value :: s.stack }) hb hp.2 hrest
        refine ⟨p :: ops, rfl, List.forall_mem_cons.mpr ⟨hallowed, hops⟩, ?_⟩
        rw [hstack, List.map_cons, List.reverse_cons, List.append_assoc]
        rfl
      | control | operation | passOperation => cases hp.1
      | passPush _ hn | passReserved hn | passBad _ _ _ _ hn =>
        rw [he] at hn
        cases hn

/-- What a script that only pushes has in it if it runs to its end, and the stack it leaves. -/
theorem Script.pushes_of_yields {s : Bytes} {stack out : Stack} {context : Context} (hp : isPushOnly s = true)
    (h : (Script.eval rules s stack context).Yields out) :
    ∃ ops : List Push, s = encode (ops.map .push) ∧ (∀ p ∈ ops, p.Allowed rules) ∧
      out = (ops.map Push.value).reverse ++ stack := by
  obtain ⟨_, -, h⟩ := Dialogue.yields_bind.mp h
  obtain ⟨t, hexec, h⟩ := Dialogue.yields_bind.mp h
  obtain ⟨-, rfl⟩ := State.finish_eq_ok.mp (Dialogue.yields_liftM.mp h)
  obtain ⟨ops, hitems, hallowed, hstack⟩ := pushes_of_execute (s := State.start stack context) rfl hp hexec
  refine ⟨ops, ?_, hallowed, hstack⟩
  have hwritten : (ops.map fun p => Item.good (.push p)).flatMap Item.encode = s :=
    flatMap_encode_of_items (by rw [hitems, List.map_map]; rfl)
  rw [← hwritten]
  simp only [encode, List.flatMap_map]
  rfl

/-- Two scripts that only push, run on one stack where pushes have to be minimal, each under its
    own rules and with its own answers: if they leave the same stack, they are the same bytes. -/
theorem Script.pushOnly_eq_of_result_eq {σ σ' : Type} {rules rules' : Rules} (hm : rules.has .minimalData = true)
    (hm' : rules'.has .minimalData = true) {s s' : Bytes} (hs : isPushOnly s = true) (hs' : isPushOnly s' = true)
    {stack out : Stack} (r : Responder σ) (w : σ) (r' : Responder σ') (w' : σ')
    (h : ((Script.eval rules s stack (Context.fresh .base)).converse r w).result = .ok out)
    (h' : ((Script.eval rules' s' stack (Context.fresh .base)).converse r' w').result = .ok out) : s = s' := by
  obtain ⟨ops, rfl, hallowed, hout⟩ := pushes_of_yields hs (Dialogue.yields_of_converse h)
  obtain ⟨ops', rfl, hallowed', hout'⟩ := pushes_of_yields hs' (Dialogue.yields_of_converse h')
  have hvalues : ops.map Push.value = ops'.map Push.value :=
    List.reverse_injective (List.append_cancel_right (hout.symm.trans hout'))
  have hops := Push.eq_of_values_eq (fun p hp => hallowed p hp hm) (fun p hp => hallowed' p hp hm') hvalues
  rw [hops]

/-- Zero, sixteen and two bytes of data on one item, as bytes and as written opcodes, under
    different rules. -/
theorem Script.pushOnly_eq_of_result_eq_three :
    let s : Bytes := [0x00, 0x60, 0x02, 0xaa, 0xbb]
    let s' := encode [.push .zero, .push (.small 15), .push (.direct [0xaa, 0xbb] (by decide))]
    let out : Stack := [[0xaa, 0xbb], [0x10], [], [0x07]]
    isPushOnly s = true ∧ isPushOnly s' = true ∧
      ((Script.eval (Rules.ofList [.minimalData]) s [[0x07]] (Context.fresh .base)).converse
        Oracle.deny.responder ()).result = .ok out ∧
      ((Script.eval (Rules.ofList [.minimalData, .p2sh]) s' [[0x07]] (Context.fresh .base)).converse
        Oracle.deny.responder ()).result = .ok out ∧ s = s' := by
  intro s s' out
  have hs : isPushOnly s = true := by decide +kernel
  have hs' : isPushOnly s' = true := by decide +kernel
  have h : ((Script.eval (Rules.ofList [.minimalData]) s [[0x07]] (Context.fresh .base)).converse
      Oracle.deny.responder ()).result = .ok out := by decide +kernel
  have h' : ((Script.eval (Rules.ofList [.minimalData, .p2sh]) s' [[0x07]] (Context.fresh .base)).converse
      Oracle.deny.responder ()).result = .ok out := by decide +kernel
  exact ⟨hs, hs', h, h', pushOnly_eq_of_result_eq (by decide) (by decide) hs hs' _ _ _ _ h h'⟩

end PushOnly

end SpendScript

/-
  SpendScript.Proofs.Malleability — a witness spend leaves no choice of the unlocking script.

  A witness program takes what unlocks it from the witness alone. So the unlocking script is
  empty, or, where the program stands behind a script hash, the one push of the redeem script;
  and which redeem script that is was settled by the hash. What a single accepted spend says:
  - `Program.hash_of_yields`: a script hash that passes has hashed the item on top, in
    whatever form the locking script was given.
  - `Spend.bytes_of_native` / `Spend.bytes_of_nested`: the bytes of the unlocking script.
  - `Spend.sig_determined`: two spends of one output have the same unlocking script, or
    redeem scripts with the same hash.
-/

import SpendScript.Proofs.Attribution
import SpendScript.Proofs.Authored
import SpendScript.Proofs.Recognition
import SpendScript.Proofs.Trace

namespace SpendScript

/-! ## Runs over written opcodes -/

section Written

variable {rules : Rules} {script : Bytes} {index : Nat} {s s' t : State}

/-- An item that is reached and passes is the opcode that its bytes spell. -/
theorem Item.Step.eq_of_encode {item : Item} (h : Item.Step rules script s item s') (hb : s.branches = [])
    {op : Opcode} {rest rest' : Bytes} (hw : item.encode ++ rest = op.encode ++ rest') :
    item = .good op ∧ rest = rest' := by
  have he := State.executing_of_closed hb
  cases item with
  | good written =>
    cases hs : op.encode ++ rest' with
    | nil => exact absurd (List.append_eq_nil_iff.mp hs).1 op.encode_ne_nil
    | cons b bytes =>
      have hread := readItem_encode op rest' hs
      rw [readItem_encode written rest (hw.trans hs)] at hread
      cases hread
      exact ⟨rfl, rfl⟩
  | bad b =>
    -- a bad opcode with the same byte fails where it is reached
    cases h with
    | passReserved hn => rw [he] at hn; cases hn
    | passBad _ _ _ _ hn => rw [he] at hn; cases hn

/-- Items that are written as opcodes are run from the first of them on. -/
theorem yields_execute_written {l : List Item} {op : Opcode} {ops : List Opcode} (hb : s.branches = [])
    (hw : l.flatMap Item.encode = Script.encode (op :: ops))
    (h : (execute rules script index s (l.map .ok)).Yields t) :
    ∃ (l' : List Item) (s' : State), l'.flatMap Item.encode = Script.encode ops ∧
      Item.Step rules script (s.reach index op.size) (.good op) s' ∧
      (execute rules script (index + 1) s' (l'.map .ok)).Yields t := by
  cases l with
  | nil => exact absurd (List.append_eq_nil_iff.mp hw.symm).1 op.encode_ne_nil
  | cons item l =>
    obtain ⟨s', hs, hrun⟩ := Dialogue.yields_bind.mp h
    have hstep := Item.step_of_yields (Dialogue.yields_mapError.mp hs)
    obtain ⟨rfl, hrest⟩ := hstep.eq_of_encode hb hw
    exact ⟨l, s', hrest, hstep, hrun⟩

/-- An operation that only looks at the stack, where it is reached. -/
theorem Item.Step.onStack {op : Operation} {f : Stack → Except MachineError Stack} {size : Nat}
    (h : Item.Step rules script (s.reach index size) (.good (.operation op)) s')
    (hop : ∀ s, op.eval rules script s = Dialogue.lift (s.onStack f)) (hb : s.branches = []) :
    f s.stack = .ok s'.stack ∧ s'.branches = [] := by
  have he : (s.reach index size).executing = true := State.executing_of_closed hb
  cases h with
  | passOperation _ _ hn =>
    rw [he] at hn
    cases hn
  | @operation _ s₁ _ hc _ h _ =>
    have hbranches := ((State.frame_countOps hc).trans (Operation.effect_of_yields h).frame).branches
    rw [hop] at h
    obtain ⟨stack, hf, rfl⟩ := State.onStack_eq_ok (Dialogue.yields_liftM.mp h)
    refine ⟨?_, hbranches.trans hb⟩
    rcases State.countOps_eq_ok hc with rfl | ⟨-, rfl⟩
    · exact hf
    · exact hf

theorem Item.Step.onPush {p : Push} {size : Nat}
    (h : Item.Step rules script (s.reach index size) (.good (.push p)) s') (hb : s.branches = []) :
    s'.stack = p.value :: s.stack ∧ s'.branches = [] := by
  have he : (s.reach index size).executing = true := State.executing_of_closed hb
  cases h with
  | push => exact ⟨rfl, hb⟩
  | passPush _ hn =>
    rw [he] at hn
    cases hn

/-- The opcodes of a script hash leave whether the item on top hashes to it. -/
theorem hash_of_execute {l : List Item} {hash : Bytes} {size} (hb : s.branches = [])
    (hw : l.flatMap Item.encode =
      Script.encode [.operation (.hash .hash160), .push (.direct hash size), .operation .equal])
    (h : (execute rules script index s (l.map .ok)).Yields t) (ht : Spend.isTrue t.stack = true) :
    ∃ redeem rest, s.stack = redeem :: rest ∧ (Hash.hash160 redeem).val = hash := by
  obtain ⟨l₁, s₁, hw₁, hstep, h⟩ := yields_execute_written hb hw h
  obtain ⟨hhash, hb₁⟩ := hstep.onStack (fun _ => rfl) hb
  obtain ⟨l₂, s₂, hw₂, hstep, h⟩ := yields_execute_written hb₁ hw₁ h
  obtain ⟨hpush, hb₂⟩ := hstep.onPush hb₁
  obtain ⟨l₃, s₃, hw₃, hstep, h⟩ := yields_execute_written hb₂ hw₂ h
  obtain ⟨hequal, -⟩ := hstep.onStack (fun _ => rfl) hb₂
  have hl₃ : l₃ = [] := by
    cases l₃ with
    | nil => rfl
    | cons item l => exact absurd (List.append_eq_nil_iff.mp hw₃).1 item.encode_ne_nil
  subst hl₃
  obtain rfl := Dialogue.yields_pure.mp h
  obtain ⟨⟨redeem, rest⟩, hpop, hhash⟩ := bind_eq_ok.mp hhash
  have hstack₁ : s₁.stack = (Hash.hash160 redeem).val :: rest := (Except.ok.inj hhash).symm
  rw [hpush, hstack₁] at hequal
  have hstack₃ : t.stack = Number.ofBool ((Hash.hash160 redeem).val == hash) :: rest :=
    (Except.ok.inj hequal).symm
  refine ⟨redeem, rest, Stack.pop_eq_ok.mp hpop, ?_⟩
  rw [hstack₃] at ht
  cases hgood : (Hash.hash160 redeem).val == hash with
  | true => exact eq_of_beq hgood
  | false =>
    rw [hgood] at ht
    cases ht

end Written

section Hash

variable {rules : Rules} {data stack : Stack} {context : Context}

theorem Component.hash_of_yields {c : Component Item} (hs : Script.isPayToScriptHash c.bytes = true)
    (h : (c.eval rules data context).Yields stack) (ht : Spend.isTrue stack = true) :
    ∃ redeem rest, data = redeem :: rest ∧ (Hash.hash160 redeem).val = (c.bytes.drop 2).take 20 := by
  obtain ⟨hash, size, hlength, hbytes⟩ := Script.isPayToScriptHash_iff.mp hs
  have hhash : (c.bytes.drop 2).take 20 = hash := by
    rw [hbytes, Script.encode_scriptHash hlength]
    simp [hlength]
  rw [hhash]
  obtain ⟨_, -, h⟩ := Dialogue.yields_bind.mp h
  obtain ⟨t, hexec, h⟩ := Dialogue.yields_bind.mp h
  obtain ⟨-, rfl⟩ := State.finish_eq_ok.mp (Dialogue.yields_liftM.mp h)
  exact hash_of_execute (s := State.start data context) rfl hbytes hexec ht

theorem Script.hash_of_yields {s : Bytes} (hs : Script.isPayToScriptHash s = true)
    (h : (Script.eval rules s data context).Yields stack) (ht : Spend.isTrue stack = true) :
    ∃ redeem rest, data = redeem :: rest ∧ (Hash.hash160 redeem).val = (s.drop 2).take 20 := by
  obtain ⟨hash, size, -, hbytes⟩ := Script.isPayToScriptHash_iff.mp hs
  let c : Component Item :=
    ⟨[.good (.operation (.hash .hash160)), .good (.push (.direct hash size)), .good (.operation .equal)]⟩
  have hspells : c.Spells s := by
    rw [hbytes]
    exact Script.items_encode _
  rw [← Component.eval_of_spells actsAsItem_item hspells] at h
  rw [← Component.bytes_of_spells hspells] at hs ⊢
  exact Component.hash_of_yields hs h ht

/-- A script hash passes only with an item on top that hashes to it, in whatever form it is
    given. -/
theorem Program.hash_of_yields {p : Program} (hp : p.IsScript) (hs : Script.isPayToScriptHash p.bytes = true)
    (h : (p.eval rules data context).Yields stack) (ht : Spend.isTrue stack = true) :
    ∃ redeem rest, data = redeem :: rest ∧ (Hash.hash160 redeem).val = (p.bytes.drop 2).take 20 := by
  cases hp with
  | bytes s => exact Script.hash_of_yields hs h ht
  | items c => exact Component.hash_of_yields hs h ht
  | opcodes c =>
    have h : (c.eval rules data context).Yields stack := h
    rw [Component.eval_of_spells actsAsItem_opcode c.spells_opcode] at h
    exact Script.hash_of_yields hs h ht
  | pushes c =>
    -- the first opcode of a script hash is no push
    obtain ⟨hash, size, -, hbytes⟩ := Script.isPayToScriptHash_iff.mp hs
    have hitems : Script.items c.bytes = c.ops.map fun p => .ok (.good (.push p)) := c.spells_push
    have hbytes : c.bytes = _ := hbytes
    rw [hbytes, Script.items_encode] at hitems
    cases hops : c.ops with
    | nil => rw [hops] at hitems; cases hitems
    | cons p ops => rw [hops] at hitems; cases hitems

end Hash

theorem Program.IsScript.size_eq {p : Program} (hp : p.IsScript) : p.size = p.bytes.length := by
  cases hp with
  | bytes s => rfl
  | items c => exact c.bytes_length.symm
  | opcodes c => exact c.bytes_length.symm
  | pushes c => exact c.bytes_length.symm

/-! ## Accepted spends -/

namespace Spend

variable {σ : Type} {rules : Rules} {sig pubKey : Program} {witness : List Bytes} {r : Responder σ} {s : σ}

theorem yields_andThen {step : Step} {next : Remains → Dialogue (Part × ScriptError) Bool}
    (h : (andThen step next).Yields true) : ∃ left, step.Yields (some left) ∧ (next left).Yields true := by
  obtain ⟨left, hstep, h⟩ := Dialogue.yields_bind.mp h
  cases left with
  | none => cases Dialogue.yields_pure.mp h
  | some left => exact ⟨left, hstep, h⟩

/-- The parts of an accepted spend, and what the unlocking script leaves in this very run. -/
theorem parts_of_converse (h : ((eval rules sig pubKey witness).converse r s).result = .ok true) :
    ∃ data stack left left', ((sig.eval rules [] (Context.fresh .base)).converse r s).result = .ok data ∧
      (pubKey.eval rules data (Context.fresh .base)).Yields stack ∧ isTrue stack = true ∧
      (nativeStep rules sig pubKey witness ⟨stack.length, false⟩).Yields (some left) ∧
      (redeemStep rules sig pubKey witness data left).Yields (some left') := by
  unfold eval at h
  split at h
  · cases h
  obtain ⟨_, -, h⟩ := Dialogue.result_converse_bind_eq_ok.mp h
  obtain ⟨data, hdata, h⟩ := Dialogue.result_converse_bind_eq_ok.mp h
  obtain ⟨_, -, h⟩ := Dialogue.yields_bind.mp (Dialogue.yields_of_converse h)
  obtain ⟨stack, hstack, h⟩ := Dialogue.yields_bind.mp h
  split at h
  · rename_i ht
    obtain ⟨left, hnative, h⟩ := yields_andThen h
    obtain ⟨left', hredeem, -⟩ := yields_andThen h
    rw [inPart, Dialogue.result_converse_mapError, mapError_eq_ok] at hdata
    exact ⟨data, stack, left, left', hdata, Dialogue.yields_mapError.mp hstack, ht, hnative, hredeem⟩
  · cases Dialogue.yields_pure.mp h

/-- A witness program is passed only by an unlocking script that is not malleated. -/
theorem not_malleated_of_yields (hw : rules.has .witness = true) {script : Bytes} {malleated nested : Bool}
    {fault : ScriptError} {left left' : Remains} (hprogram : (Script.witnessProgram? script).isSome = true)
    (h : (programStep rules witness script malleated fault nested left).Yields (some left')) :
    malleated = false := by
  obtain ⟨program, hprogram⟩ := Option.isSome_iff_exists.mp hprogram
  unfold programStep at h
  rw [if_pos hw, hprogram] at h
  cases malleated with
  | false => rfl
  | true => exact absurd h Dialogue.not_yields_fail

/-- The redeem script that a spend runs: where the locking script is a script hash, the item
    that the unlocking script leaves on top. -/
def Redeems (rules : Rules) (sig pubKey : Program) (r : Responder σ) (s : σ) (redeem : Bytes) : Prop :=
  Script.isPayToScriptHash pubKey.bytes = true ∧
    ∃ rest, ((sig.eval rules [] (Context.fresh .base)).converse r s).result = .ok (redeem :: rest)

/-- Before a native witness program stands nothing. -/
theorem bytes_of_native (hsig : sig.IsScript) (hw : rules.has .witness = true)
    (hprogram : (Script.witnessProgram? pubKey.bytes).isSome = true)
    (h : ((eval rules sig pubKey witness).converse r s).result = .ok true) : sig.bytes = [] := by
  obtain ⟨data, stack, left, left', -, -, -, hnative, -⟩ := parts_of_converse h
  have hsize := not_malleated_of_yields hw hprogram hnative
  rw [hsig.size_eq, decide_eq_false_iff_not] at hsize
  exact List.eq_nil_of_length_eq_zero (by omega)

/-- Before a witness program behind a script hash stands the push of it, and its hash is the
    one in the locking script. -/
theorem bytes_of_nested (hkey : pubKey.IsScript) (hp2sh : rules.has .p2sh = true)
    (hw : rules.has .witness = true) {redeem : Bytes} (hredeem : Redeems rules sig pubKey r s redeem)
    (hprogram : (Script.witnessProgram? redeem).isSome = true)
    (h : ((eval rules sig pubKey witness).converse r s).result = .ok true) :
    sig.bytes = pushEncoding redeem ∧ (Hash.hash160 redeem).val = (pubKey.bytes.drop 2).take 20 := by
  obtain ⟨data, stack, left, left', hdata, hstack, ht, -, hstep⟩ := parts_of_converse h
  obtain ⟨hscript, rest, hrest⟩ := hredeem
  rw [hrest] at hdata
  cases hdata
  obtain ⟨_, _, hcons, hhash⟩ := Program.hash_of_yields hkey hscript hstack ht
  cases hcons
  refine ⟨?_, hhash⟩
  unfold redeemStep at hstep
  rw [if_pos (by rw [hp2sh, hscript]; rfl)] at hstep
  split at hstep
  · exact absurd hstep Dialogue.not_yields_fail
  obtain ⟨_, -, hstep⟩ := Dialogue.yields_bind.mp hstep
  obtain ⟨_, -, hstep⟩ := Dialogue.yields_bind.mp hstep
  split at hstep
  · simpa using not_malleated_of_yields hw hprogram hstep
  · cases Dialogue.yields_pure.mp hstep

/-- Two spends of one output, by whatever witness and whoever answers: a native witness program
    leaves only the empty unlocking script, and one behind a script hash only the push of the
    redeem script. So the unlocking scripts are the same, unless two redeem scripts have the
    same hash. -/
theorem sig_determined {σ σ' : Type} (rules : Rules) (hp2sh : rules.has .p2sh = true)
    (hw : rules.has .witness = true) {pubKey sig sig' : Program} (hkey : pubKey.IsScript)
    (hsig : sig.IsScript) (hsig' : sig'.IsScript) (witness witness' : List Bytes)
    (r : Responder σ) (s : σ) (r' : Responder σ') (s' : σ')
    (h : ((eval rules sig pubKey witness).converse r s).result = .ok true)
    (h' : ((eval rules sig' pubKey witness').converse r' s').result = .ok true) :
    ((Script.witnessProgram? pubKey.bytes).isSome = true → sig.bytes = [] ∧ sig'.bytes = []) ∧
    ∀ redeem redeem', Redeems rules sig pubKey r s redeem → Redeems rules sig' pubKey r' s' redeem' →
      (Script.witnessProgram? redeem).isSome = true → (Script.witnessProgram? redeem').isSome = true →
      sig.bytes = pushEncoding redeem ∧ sig'.bytes = pushEncoding redeem' ∧
        (sig.bytes = sig'.bytes ∨ redeem ≠ redeem' ∧ Hash.hash160 redeem = Hash.hash160 redeem') := by
  refine ⟨fun hprogram => ?_, fun redeem redeem' hredeem hredeem' hprogram hprogram' => ?_⟩
  · exact ⟨bytes_of_native hsig hw hprogram h, bytes_of_native hsig' hw hprogram h'⟩
  · obtain ⟨hbytes, hhash⟩ := bytes_of_nested hkey hp2sh hw hredeem hprogram h
    obtain ⟨hbytes', hhash'⟩ := bytes_of_nested hkey hp2sh hw hredeem' hprogram' h'
    refine ⟨hbytes, hbytes', ?_⟩
    by_cases heq : redeem = redeem'
    · exact .inl (by rw [hbytes, hbytes', heq])
    · exact .inr ⟨heq, Subtype.ext (hhash.trans hhash'.symm)⟩

/-- A program of a version without a meaning yet, behind a script hash: unlocked by bytes, and
    by a push that was written here, with another witness. -/
theorem sig_determined_nested :
    let redeem : Bytes := [0x52, 0x02, 0xaa, 0xbb]
    let rules := Rules.ofList [.p2sh, .witness]
    let pubKey := Program.ofScript (0xa9 :: 0x14 :: ((Hash.hash160 redeem).val ++ [0x87]))
    let sig := Program.ofScript [0x04, 0x52, 0x02, 0xaa, 0xbb]
    let sig' := Program.ofComponent (⟨[.direct redeem (by decide)]⟩ : Component Push)
    ((eval rules sig pubKey []).converse Oracle.deny.responder ()).result = .ok true ∧
      ((eval rules sig' pubKey [[0x01]]).converse Oracle.deny.responder ()).result = .ok true ∧
      Redeems rules sig pubKey Oracle.deny.responder () redeem ∧
      Redeems rules sig' pubKey Oracle.deny.responder () redeem ∧
      sig.bytes = pushEncoding redeem ∧ sig'.bytes = pushEncoding redeem := by
  intro redeem rules pubKey sig sig'
  have h : ((eval rules sig pubKey []).converse Oracle.deny.responder ()).result = .ok true := by decide +kernel
  have h' : ((eval rules sig' pubKey [[0x01]]).converse Oracle.deny.responder ()).result = .ok true := by
    decide +kernel
  have hredeem : Redeems rules sig pubKey Oracle.deny.responder () redeem := ⟨by decide +kernel, [], by decide +kernel⟩
  have hredeem' : Redeems rules sig' pubKey Oracle.deny.responder () redeem := ⟨by decide +kernel, [], by decide +kernel⟩
  have hall := (sig_determined rules (by decide) (by decide) (.bytes _) (.bytes _) (.pushes _) [] [[0x01]]
    Oracle.deny.responder () Oracle.deny.responder () h h').2
  obtain ⟨hbytes, hbytes', -⟩ := hall redeem redeem hredeem hredeem' (by decide) (by decide)
  exact ⟨h, h', hredeem, hredeem', hbytes, hbytes'⟩

end Spend

end SpendScript

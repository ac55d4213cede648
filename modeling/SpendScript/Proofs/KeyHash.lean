/-
  SpendScript.Proofs.KeyHash — what it takes to spend a witness program that is the hash of a key.

  For such a program a script is made up, written as bytes, read again and run on the witness. Told
  without that script: the witness is a signature and a key of this hash, and the signature passes
  for the key. None of the optional rules adds to this but those on encodings, and none of the
  opcodes takes away from it.
  - `Check.run_ecdsa_eq_true`: an ECDSA check passes if signature and key have an encoding that the
    rules allow and the answer is yes.
  - `Script.eval_keyHash`: the script on two items. It compares the hashes, and what it then does is
    a single check.
  - `Witness.run_verifyProgram_keyHash`: the spend.
-/

import SpendScript.Proofs.StraightLine
import SpendScript.Witness

namespace SpendScript

open Dialogue

variable {o : Oracle} {rules : Rules}

/-! ## The check -/

namespace Check

theorem keyEncoding_eq_ok {key : Bytes} :
    keyEncoding rules .witnessV0 key = .ok () ↔
      (rules.has .strictEncoding = true → Curve.Key.isCompressed key = true ∨ Curve.Key.isUncompressed key = true) ∧
      (rules.has .witnessPubKeyType = true → Curve.Key.isCompressed key = true) := by
  unfold keyEncoding
  cases rules.has .strictEncoding <;> cases rules.has .witnessPubKeyType <;>
    cases Curve.Key.isCompressed key <;> cases Curve.Key.isUncompressed key <;> simp

theorem run_ecdsa_eq_true {version : SigVersion} {code item key : Bytes} :
    (ecdsa rules version code item key).run o = .ok true ↔
      ∃ sig, Decoded.decode (encodingRules rules) item = .ok (some sig) ∧ keyEncoding rules version key = .ok () ∧
        o (.ecdsa ⟨item, sig, key, code, version⟩) = true := by
  unfold ecdsa
  cases hdecode : Decoded.decode (encodingRules rules) item with
  | error e => simp [run]
  | ok sig? =>
    cases sig? with
    | none =>
      refine iff_of_false ?_ (by simp)
      intro h
      obtain ⟨_, -, h⟩ := run_bind_eq_ok.mp h
      cases h
    | some sig =>
      simp only [run_bind_eq_ok, run_liftM]
      constructor
      · intro h
        obtain ⟨_, hkey, hanswer⟩ := h
        exact ⟨sig, rfl, hkey, Except.ok.inj hanswer⟩
      · intro h
        obtain ⟨_, hsig, hkey, hanswer⟩ := h
        cases hsig
        exact ⟨(), hkey, congrArg Except.ok hanswer⟩

/-- Whether a failed check is an error makes no difference to one that passes. -/
theorem run_ecdsaOp_eq_true {script item key : Bytes} {context : Context} (hv : context.version = .witnessV0) :
    (ecdsaOp rules script context item key).run o = .ok true ↔
      (ecdsa rules .witnessV0 (scriptCode script context) item key).run o = .ok true := by
  have hcode : coveredCode rules script context [item] = .ok (scriptCode script context) := by
    unfold coveredCode
    rw [hv]
    rfl
  unfold ecdsaOp
  rw [hcode, liftM_ok_bind, hv, run_bind_eq_ok]
  constructor
  · intro h
    obtain ⟨good, hgood, h⟩ := h
    split at h
    · cases h
    · cases h
      exact hgood
  · intro h
    exact ⟨true, h, rfl⟩

end Check

/-- Outside of taproot, a check in a script goes on from its result in place of key and signature. -/
theorem execute_checkSig {script : Bytes} {index : Nat} {s : State} {key sig : Bytes} {rest : Stack}
    (hv : s.context.version = .base ∨ s.context.version = .witnessV0) (hb : s.branches = []) (hroom : s.HasRoom 1)
    (hs : s.stack = key :: sig :: rest) (hd : rest.length + 1 + s.alt.length ≤ State.maxDepth)
    (xs : List (Except ScriptError Item)) :
    execute rules script index s (.ok (.good (.operation .checkSig)) :: xs) =
      (Check.ecdsaOp rules script s.context sig key).mapError (.machine (some (.good (.operation .checkSig)))) >>=
        fun good => execute rules script (index + 1) { s.entered index with stack := Number.ofBool good :: rest } xs := by
  have hcheck : Operation.checkSig.eval rules script (s.entered index) =
      Check.ecdsaOp rules script s.context sig key >>= fun good =>
        pure { s.entered index with stack := Number.ofBool good :: rest } := by
    have hs : (s.entered index).stack = key :: sig :: rest := hs
    show evalCheckSig rules script false (s.entered index) = _
    rw [evalCheckSig_cons hs]
    show Check.single rules script s.context sig key >>= _ = _
    rw [Check.single_of_ecdsa hv, Dialogue.bind_assoc]
    rfl
  have hdepth (good : Bool) : State.checkDepth { s.entered index with stack := Number.ofBool good :: rest } = .ok _ :=
    State.checkDepth_eq_ok.mpr ⟨hd, rfl⟩
  rw [execute_operation (by decide) hb hroom, hcheck, Dialogue.bind_assoc, mapError_bind, Dialogue.bind_assoc]
  congr 1
  funext good
  show ((Dialogue.lift (State.checkDepth _)).mapError _ >>= _) = _
  rw [hdepth]
  rfl

/-! ## The script -/

namespace Script

/-- The first opcodes bring the hash of the key and the one it has to be on top of key and
    signature, whatever these are. -/
theorem execute_keyHash_hashes (rules : Rules) (script : Bytes) (hash : Block 20) (sig key : Bytes) :
    ∃ s : State, execute rules script 0 (State.start [key, sig] (Context.fresh .witnessV0))
        (written (Pattern.payToPubKeyHashOf hash)) =
      execute rules script 3 s (written [.operation .equalVerify, .operation .checkSig]) ∧
      s.stack = [hash.val, (Hash.hash160 key).val, key, sig] ∧ s.alt = [] ∧ s.branches = [] ∧ s.HasRoom 2 ∧
      s.context = Context.fresh .witnessV0 := by
  let s₀ := State.start [key, sig] (Context.fresh .witnessV0)
  let s₁ : State := { s₀.entered 0 with stack := [key, key, sig] }
  let s₂ : State := { s₁.entered 1 with stack := [(Hash.hash160 key).val, key, sig] }
  have h₀ : s₀.HasRoom 4 := State.hasRoom_start _ _ (by decide)
  have h₁ : s₁.HasRoom 3 := State.HasRoom.entered h₀ 0
  have h₂ : s₂.HasRoom 2 := State.HasRoom.entered h₁ 1
  have hdup : (Operation.stack .dup).eval rules script (s₀.entered 0) = .ret s₁ := rfl
  have hhash : (Operation.hash .hash160).eval rules script (s₁.entered 1) = .ret s₂ := rfl
  refine ⟨{ s₂.reach 2 (1 + hash.val.length) with stack := hash.val :: s₂.stack }, ?_, rfl, rfl, rfl, h₂, rfl⟩
  calc execute rules script 0 s₀ (written (Pattern.payToPubKeyHashOf hash))
    _ = execute rules script 1 s₁ (written [.operation (.hash .hash160), Pattern.block20 hash,
          .operation .equalVerify, .operation .checkSig]) :=
      execute_of_ret (by decide) rfl (h₀.mono (by decide)) hdup (Nat.le_of_ble_eq_true rfl) _
    _ = execute rules script 2 s₂ (written [Pattern.block20 hash, .operation .equalVerify, .operation .checkSig]) :=
      execute_of_ret (by decide) rfl (h₁.mono (by decide)) hhash (Nat.le_of_ble_eq_true rfl) _
    _ = _ := execute_block hash (by decide) (by decide) rfl (Nat.le_of_ble_eq_true rfl) _

theorem eval_keyHash (hash : Block 20) (sig key : Bytes) :
    Script.eval rules (encode (Pattern.payToPubKeyHashOf hash)) [key, sig] (Context.fresh .witnessV0) =
      if Hash.hash160 key = hash then
        (Check.ecdsaOp rules (encode (Pattern.payToPubKeyHashOf hash)) (Context.fresh .witnessV0) sig key).mapError
          (.machine (some (.good (.operation .checkSig)))) >>= fun good => pure [Number.ofBool good]
      else .fail (.machine (some (.good (.operation .equalVerify))) .verify) := by
  let code := encode (Pattern.payToPubKeyHashOf hash)
  have hsize : checkScriptSize .witnessV0 code.length = .ok () :=
    checkScriptSize_encode .witnessV0 (Nat.le_of_ble_eq_true rfl)
  obtain ⟨s, hrun, hstack, halt, hb, hroom, hcontext⟩ := execute_keyHash_hashes rules code hash sig key
  have hverify : Stack.equalVerify (s.entered 3).stack =
      require (Hash.hash160 key == hash) >>= fun _ => .ok [key, sig] := congrArg Stack.equalVerify hstack
  rw [eval_encode hsize, hrun]
  by_cases h : Hash.hash160 key = hash
  · let t : State := { s.entered 3 with stack := [key, sig] }
    have hequal : Operation.equalVerify.eval rules code (s.entered 3) = .ret t := by
      show Dialogue.lift (Stack.equalVerify (s.entered 3).stack >>= _) = _
      rw [hverify, h, beq_self_eq_true]
      rfl
    have hfits (n : Nat) (hn : n ≤ 2) : n + s.alt.length ≤ State.maxDepth := by
      rw [halt]
      exact Nat.le_trans hn (by decide)
    have hpass : execute rules code 3 s (written [.operation .equalVerify, .operation .checkSig]) =
        execute rules code 4 t (written [.operation .checkSig]) :=
      execute_of_ret (by decide) hb (hroom.mono (by decide)) hequal (hfits 2 (by decide)) _
    have hcheck : execute rules code 4 t (written [.operation .checkSig]) = _ :=
      execute_checkSig (s := t) (.inr (congrArg Context.version hcontext)) hb (State.HasRoom.entered hroom 3) rfl
        (hfits 1 (by decide)) []
    rw [if_pos h, hpass, hcheck, Dialogue.bind_assoc, show t.context = _ from hcontext]
    congr 1
    funext good
    have hfinish : State.finish { t.entered 4 with stack := [Number.ofBool good] } = .ok [Number.ofBool good] :=
      State.finish_eq_ok.mpr ⟨hb, rfl⟩
    exact congrArg Dialogue.lift hfinish
  · have hunequal : Operation.equalVerify.eval rules code (s.entered 3) = .fail .verify := by
      show Dialogue.lift (Stack.equalVerify (s.entered 3).stack >>= _) = _
      rw [hverify, beq_eq_false_iff_ne.mpr h]
      rfl
    have hfail : execute rules code 3 s (written [.operation .equalVerify, .operation .checkSig]) = _ :=
      execute_of_fail (by decide) hb (hroom.mono (by decide)) hunequal _
    rw [if_neg h, hfail]
    rfl

end Script

/-! ## The spend -/

theorem Number.truthy_ofBool (b : Bool) : Number.truthy (Number.ofBool b) = b := by
  cases b <;> rfl

namespace Witness

theorem checkItems_eq_ok {items : List Bytes} :
    checkItems .witnessV0 items = .ok () ↔ ∀ item ∈ items, item.length ≤ Push.maxData := by
  unfold checkItems
  rw [if_neg (by simp)]
  cases hfind : items.find? fun item => Push.maxData < item.length with
  | none => simpa using hfind
  | some item =>
    refine iff_of_false nofun fun h => ?_
    have hlong := List.find?_some hfind
    have := h item (List.mem_of_find?_eq_some hfind)
    simp only [decide_eq_true_eq] at hlong
    omega

theorem run_verifyKeyHash_cons {hash : Block 20} {sig key : Bytes} :
    (verifyKeyHash rules [sig, key] hash).run o = .ok true ↔
      checkItems .witnessV0 [sig, key] = .ok () ∧ Hash.hash160 key = hash ∧
        (Check.ecdsaOp rules (Script.encode (Pattern.payToPubKeyHashOf hash)) (Context.fresh .witnessV0) sig key).run o =
          .ok true := by
  show (runScript rules [sig, key] (Script.encode (Pattern.payToPubKeyHashOf hash)) (Context.fresh .witnessV0)).run o =
    .ok true ↔ _
  unfold runScript
  rw [run_bind_eq_ok, run_liftM]
  constructor
  · intro h
    obtain ⟨_, hitems, h⟩ := h
    obtain ⟨stack, heval, htrue⟩ := run_bind_eq_ok.mp h
    have heval : (Script.eval rules _ [key, sig] (Context.fresh .witnessV0)).run o = .ok stack := heval
    rw [Script.eval_keyHash] at heval
    split at heval
    · rename_i hhash
      obtain ⟨good, hgood, hstack⟩ := run_bind_eq_ok.mp heval
      cases hstack
      rw [run_mapError, mapError_eq_ok] at hgood
      have hone : Number.truthy (Number.ofBool good) = true := Except.ok.inj htrue
      rw [Number.truthy_ofBool] at hone
      rw [hone] at hgood
      exact ⟨hitems, hhash, hgood⟩
    · cases heval
  · intro h
    obtain ⟨hitems, hhash, hgood⟩ := h
    refine ⟨(), hitems, run_bind_eq_ok.mpr ⟨[Number.ofBool true], ?_, rfl⟩⟩
    show (Script.eval rules _ [key, sig] (Context.fresh .witnessV0)).run o = _
    rw [Script.eval_keyHash, if_pos hhash, run_bind, run_mapError, hgood]
    rfl

/-- A program that is the hash of a key is spent exactly by a signature and a key of this hash,
    neither of more bytes than a push can hold, in encodings that the rules allow, where the
    signature passes for the key and for the script that stands for the program. -/
theorem run_verifyProgram_keyHash (o : Oracle) (rules : Rules) (witness : List Bytes) (hash : Block 20)
    (nested : Bool) :
    (verifyProgram rules witness 0 hash.val nested).run o = .ok true ↔
      ∃ sig key d, witness = [sig, key] ∧ sig.length ≤ 520 ∧ key.length ≤ 520 ∧ Hash.hash160 key = hash ∧
        Decoded.decode (Check.encodingRules rules) sig = .ok (some d) ∧
        (rules.has .strictEncoding = true → Curve.Key.isCompressed key = true ∨ Curve.Key.isUncompressed key = true) ∧
        (rules.has .witnessPubKeyType = true → Curve.Key.isCompressed key = true) ∧
        o (.ecdsa ⟨sig, d, key, Script.encode (Pattern.payToPubKeyHashOf hash), .witnessV0⟩) = true := by
  have hprogram : (verifyProgram rules witness 0 hash.val nested).run o = (verifyKeyHash rules witness hash).run o := by
    show (verifyVersion0 rules witness hash.val).run o = _
    unfold verifyVersion0
    rw [if_neg (by rw [hash.property]; decide), Block.ofBytes?_val]
  rw [hprogram]
  constructor
  · intro h
    have htwo : witness.length = 2 := by
      by_contra hlength
      unfold verifyKeyHash at h
      rw [if_pos (by simpa using hlength)] at h
      cases h
    obtain ⟨sig, key, rfl⟩ := List.length_eq_two.mp htwo
    obtain ⟨hitems, hhash, hcheck⟩ := run_verifyKeyHash_cons.mp h
    obtain ⟨d, hdecode, hkey, hanswer⟩ := Check.run_ecdsa_eq_true.mp ((Check.run_ecdsaOp_eq_true rfl).mp hcheck)
    obtain ⟨hstrict, hcompressed⟩ := Check.keyEncoding_eq_ok.mp hkey
    have hsizes := checkItems_eq_ok.mp hitems
    exact ⟨sig, key, d, rfl, hsizes sig (by simp), hsizes key (by simp), hhash, hdecode, hstrict, hcompressed, hanswer⟩
  · intro h
    obtain ⟨sig, key, d, rfl, hsig, hkey, hhash, hdecode, hstrict, hcompressed, hanswer⟩ := h
    have hitems : checkItems .witnessV0 [sig, key] = .ok () := by
      rw [checkItems_eq_ok, List.forall_mem_cons, List.forall_mem_singleton]
      exact ⟨hsig, hkey⟩
    have hcheck := Check.run_ecdsa_eq_true.mpr ⟨d, hdecode, Check.keyEncoding_eq_ok.mpr ⟨hstrict, hcompressed⟩, hanswer⟩
    exact run_verifyKeyHash_cons.mpr ⟨hitems, hhash, (Check.run_ecdsaOp_eq_true rfl).mpr hcheck⟩

end Witness

end SpendScript

/-
  SpendScript.Proofs.SignatureCount — counting signatures in a tapscript.

  The script checks one signature for each key, adds up those that pass, and compares the sum with
  the number asked for. The sum lies on the stack between the key and the signatures that are
  left, and is a number like any other: what the first check leaves as a truth value, the next one
  reads as zero or one. An empty signature counts nothing and costs nothing; any other one has to
  pass, or the script fails.
  - `Context.Affords`: the context of the script, up to the weight left, which is enough for so
    many signatures. `Check.result_tapscriptOp_of_signed` and its counterpart for an empty
    signature: one check takes its share of it.
  - `Operation.CountsOn`: both opcodes count on from a sum, told once for the two of them.
  - `State.Tally`: the stack between two keys. `result_execute_counted` is one key, and
    `result_execute_counts` all of them, by induction.
  `Script.result_eval_checkSigAddMultiSig` is the whole script.
-/

import Mathlib
import SpendScript.Proofs.Arithmetic
import SpendScript.Proofs.StraightLine

namespace SpendScript

open Dialogue

variable {σ : Type}

/-- What is answered about a Schnorr signature depends neither on what came before nor on the
    weight that is left. -/
def Responder.IgnoresWeight (r : Responder σ) : Prop :=
  ∀ (c : SchnorrCheck) (w : Option Int) (a b : σ),
    (r (.schnorr { c with context := { c.context with weightLeft := w } }) a).answer = (r (.schnorr c) b).answer

/-- The item is a signature that passes for the key. -/
def SignedBy (r : Responder σ) (a : σ) (context : Context) (item : Bytes) (key : Block 32) : Prop :=
  ∃ sig, Schnorr.decode item = .ok sig ∧ (r (.schnorr ⟨sig, key, context⟩) a).answer = .ok ()

/-- The number of signatures among the items: those that are not empty. -/
def signatureCount (items : List Bytes) : Nat := items.countP (!·.isEmpty)

@[simp] theorem signatureCount_nil_cons (items : List Bytes) : signatureCount ([] :: items) = signatureCount items :=
  List.countP_cons_of_neg (by decide)

theorem signatureCount_cons {item : Bytes} (h : item ≠ []) (items : List Bytes) :
    signatureCount (item :: items) = signatureCount items + 1 :=
  List.countP_cons_of_pos (by simpa using h)

theorem signatureCount_split (item : Bytes) (items : List Bytes) :
    signatureCount (item :: items) = signatureCount [item] + signatureCount items := by
  unfold signatureCount
  rw [← List.countP_append]
  rfl

theorem natCast_signatureCount_singleton (item : Bytes) :
    (signatureCount [item] : Int) = if (!item.isEmpty) = true then 1 else 0 := by
  by_cases h : item = []
  · simp [h, signatureCount]
  · simp [h, signatureCount]

theorem signatureCount_le (items : List Bytes) : signatureCount items ≤ items.length := List.countP_le_length

/-! ## One check -/

/-- The same context up to its budget, which pays for `n` signatures. -/
structure Context.Affords (context : Context) (n : Nat) (c : Context) : Prop where
  same : ∃ w, c = { context with weightLeft := w }
  weight : ∀ w, c.weightLeft = some w → Check.weightPerCheck * n ≤ w

theorem Context.Affords.version {context c : Context} {n : Nat} (h : context.Affords n c) :
    c.version = context.version := by
  obtain ⟨w, hw⟩ := h.same
  rw [hw]

namespace Check

variable {r : Responder σ} {a : σ} {rules : Rules} {context c : Context} {item : Bytes} {key : Block 32}

theorem spendWeight_of_affords {items : List Bytes} (h : context.Affords (signatureCount (item :: items)) c) :
    ∃ c', spendWeight c item = .ok c' ∧ context.Affords (signatureCount items) c' := by
  obtain ⟨⟨left, rfl⟩, hweight⟩ := h
  cases left with
  | none => exact ⟨_, rfl, ⟨none, rfl⟩, nofun⟩
  | some w =>
    have hweight := hweight w rfl
    by_cases hitem : item = []
    · subst hitem
      refine ⟨_, rfl, ⟨some w, rfl⟩, ?_⟩
      intro w' hw'
      cases hw'
      simpa using hweight
    · rw [signatureCount_cons hitem, weightPerCheck] at hweight
      have hnonneg : ¬ w - weightPerCheck < 0 := by
        rw [weightPerCheck]
        omega
      refine ⟨{ context with weightLeft := some (w - weightPerCheck) }, ?_, ⟨_, rfl⟩, ?_⟩
      · exact (if_neg (by simpa using hitem)).trans (if_neg hnonneg)
      · intro w' hw'
        cases hw'
        rw [weightPerCheck]
        omega

/-- Of a check for a key of known size, what follows the payment. -/
theorem tapscriptOp_of_spendWeight {c' : Context} (h : spendWeight c item = .ok c') :
    tapscriptOp rules c item key.val =
      if item.isEmpty then pure (false, c')
      else do
        let sig ← (Schnorr.decode item).mapError MachineError.signature
        let good ← Dialogue.query (.schnorr ⟨sig, key, c'⟩)
        good.mapError MachineError.signature
        return (true, c') := by
  have hkey : ¬ key.val.isEmpty = true := by
    rw [List.isEmpty_iff_length_eq_zero, key.property]
    decide
  unfold tapscriptOp
  rw [h, liftM_ok_bind, if_neg hkey, Block.ofBytes?_val]

/-- An empty item passes and counts nothing, a signature that is good counts one. -/
theorem result_tapscriptOp_of_signed (rules : Rules) (b : σ) (hr : r.IgnoresWeight) {items : List Bytes}
    (hc : context.Affords (signatureCount (item :: items)) c) (h : item ≠ [] → SignedBy r a context item key) :
    ∃ c', ((tapscriptOp rules c item key.val).converse r b).result = .ok (!item.isEmpty, c') ∧
      context.Affords (signatureCount items) c' := by
  obtain ⟨c', hspend, hc'⟩ := spendWeight_of_affords hc
  refine ⟨c', ?_, hc'⟩
  rw [tapscriptOp_of_spendWeight hspend]
  by_cases hitem : item = []
  · rw [hitem]
    rfl
  · obtain ⟨sig, hsig, hanswer⟩ := h hitem
    obtain ⟨w, rfl⟩ := hc'.same
    have hanswer : (r (.schnorr ⟨sig, key, { context with weightLeft := w }⟩) b).answer = .ok () :=
      (hr ⟨sig, key, context⟩ w b a).trans hanswer
    have hnonempty : item.isEmpty = false := by simpa using hitem
    rw [hnonempty, if_neg Bool.false_ne_true, hsig]
    show ((query (.schnorr ⟨sig, key, { context with weightLeft := w }⟩) >>= _).converse r b).result = _
    rw [result_converse_query_bind, hanswer]
    rfl

theorem result_tapscriptOp_of_unsigned (rules : Rules) (b : σ) (hr : r.IgnoresWeight) {items : List Bytes}
    (hc : context.Affords (signatureCount (item :: items)) c) (hitem : item ≠ [])
    (h : ¬ SignedBy r a context item key) :
    ∃ e, ((tapscriptOp rules c item key.val).converse r b).result = .error e := by
  obtain ⟨c', hspend, ⟨w, rfl⟩, -⟩ := spendWeight_of_affords hc
  have hnonempty : item.isEmpty = false := by simpa using hitem
  rw [tapscriptOp_of_spendWeight hspend, hnonempty, if_neg Bool.false_ne_true]
  cases hsig : Schnorr.decode item with
  | error e => exact ⟨_, rfl⟩
  | ok sig =>
    show ∃ e, ((query (.schnorr ⟨sig, key, { context with weightLeft := w }⟩) >>= _).converse r b).result = _
    rw [result_converse_query_bind]
    cases hanswer : (r (.schnorr ⟨sig, key, { context with weightLeft := w }⟩) b).answer with
    | error e => exact ⟨_, rfl⟩
    | ok u => exact absurd ⟨sig, hsig, (hr ⟨sig, key, context⟩ w b a).symm.trans hanswer⟩ h

end Check

/-! ## Counting on -/

/-- In a tapscript, the operation checks the signature below `above` for the key on top, and leaves
    the sum: one more than `count` if the signature is good. -/
def Operation.CountsOn (rules : Rules) (op : Operation) (count : Nat) (above : List Bytes) : Prop :=
  ∀ (script : Bytes) (s : State) (key sig : Bytes) (rest : Stack), s.context.version = .tapscript →
    s.stack = key :: (above ++ sig :: rest) →
    op.eval rules script s = Check.tapscriptOp rules s.context sig key >>= fun p =>
      pure { s with stack := Number.encode (count + if p.1 then 1 else 0) :: rest, context := p.2 }

section CountsOn

variable (rules : Rules)

/-- A truth value is a number. -/
theorem Number.ofBool_eq_encode (b : Bool) : Number.ofBool b = Number.encode (0 + if b then 1 else 0) := by
  cases b <;> decide

theorem countsOn_checkSig : Operation.CountsOn rules .checkSig 0 [] := by
  intro script s key sig rest hv hs
  show evalCheckSig rules script false s = _
  rw [evalCheckSig_cons hs, Check.single_of_tapscript hv]
  congr 1
  funext p
  show Dialogue.ret { s with stack := Number.ofBool p.1 :: rest, context := p.2 } = _
  rw [Number.ofBool_eq_encode]
  rfl

theorem countsOn_checkSigAdd {count : Nat} (h : count < 2 ^ 31) :
    Operation.CountsOn rules .checkSigAdd count [Number.encode count] := by
  intro script s key sig rest hv hs
  have hs : s.stack = key :: Number.encode count :: sig :: rest := hs
  have hlimited : ¬ s.context.version.limited = true := by
    rw [hv]
    decide
  have hneed : Stack.need 3 (key :: Number.encode count :: sig :: rest) = .ok () := if_pos (by simp)
  have hread : Stack.number (rules.has .minimalData) Number.operandSize (Number.encode count) = .ok (count : Int) :=
    Stack.number_iff_isOperand.mpr ⟨Number.isOperand_encode h, (Number.signMagnitude_encode count).symm⟩
  show evalCheckSigAdd rules script s = _
  unfold evalCheckSigAdd
  rw [if_neg hlimited, hs, hneed]
  show Dialogue.lift (Stack.number (rules.has .minimalData) Number.operandSize (Number.encode count)) >>= _ = _
  rw [hread]
  show Check.single rules script s.context sig key >>= _ = _
  rw [Check.single_of_tapscript hv]
  rfl

end CountsOn

namespace Operation.CountsOn

variable {r : Responder σ} {a : σ} {rules : Rules} {context : Context} {op : Operation} {count : Nat}
  {above items : List Bytes} {item : Bytes} {key : Block 32} {rest : Stack} {s : State}

theorem result_of_signed (hop : op.CountsOn rules count above) (hr : r.IgnoresWeight)
    (hv : context.version = .tapscript) (hs : s.stack = key.val :: (above ++ item :: rest))
    (hc : context.Affords (signatureCount (item :: items)) s.context)
    (h : item ≠ [] → SignedBy r a context item key) (script : Bytes) (b : σ) :
    ∃ c', ((op.eval rules script s).converse r b).result =
        .ok { s with stack := Number.encode (count + signatureCount [item] : Nat) :: rest, context := c' } ∧
      context.Affords (signatureCount items) c' := by
  obtain ⟨c', hcheck, hc'⟩ := Check.result_tapscriptOp_of_signed rules b hr hc h
  refine ⟨c', ?_, hc'⟩
  rw [hop script s key.val item rest (hc.version.trans hv) hs, result_converse_bind_pure, hcheck, Nat.cast_add,
    natCast_signatureCount_singleton]
  rfl

theorem result_of_unsigned (hop : op.CountsOn rules count above) (hr : r.IgnoresWeight)
    (hv : context.version = .tapscript) (hs : s.stack = key.val :: (above ++ item :: rest))
    (hc : context.Affords (signatureCount (item :: items)) s.context) (hitem : item ≠ [])
    (h : ¬ SignedBy r a context item key) (script : Bytes) (b : σ) :
    ∃ e, ((op.eval rules script s).converse r b).result = .error e := by
  obtain ⟨e, hcheck⟩ := Check.result_tapscriptOp_of_unsigned rules b hr hc hitem h
  refine ⟨e, ?_⟩
  rw [hop script s key.val item rest (hc.version.trans hv) hs]
  exact result_converse_bind_of_error hcheck _

end Operation.CountsOn

/-! ## All keys -/

/-- The machine between two keys: what was counted lies above the signatures that are left. -/
structure State.Tally (context : Context) (above items : List Bytes) (base : Stack) (s : State) : Prop where
  stack : s.stack = above ++ (items ++ base)
  alt : s.alt = []
  branches : s.branches = []
  context : context.Affords (signatureCount items) s.context

section Run

variable {r : Responder σ} {rules : Rules} {context : Context} {base : Stack}

/-- A tapscript has room for any number of operations. -/
theorem State.hasRoom_of_tapscript {s : State} (h : s.context.version = .tapscript) (n : Nat) : s.HasRoom n := by
  intro hl
  rw [h] at hl
  cases hl

/-- One key: its signature is counted, or the script fails. -/
theorem result_execute_counted (hr : r.IgnoresWeight) (hv : context.version = .tapscript) {op : Operation}
    (hsep : op ≠ .codeSeparator) {count : Nat} {above : List Bytes} (hop : op.CountsOn rules count above)
    {item : Bytes} {items : List Bytes} {s : State} (hs : s.Tally context above (item :: items) base)
    (hd : s.stack.length < State.maxDepth) (a b : σ) (script : Bytes) (index : Nat) (key : Block 32)
    (xs : List (Except ScriptError Item)) :
    let run := (execute rules script index s
      (.ok (.good (Pattern.block32 key)) :: .ok (.good (.operation op)) :: xs)).converse r b
    ((item ≠ [] → SignedBy r a context item key) → ∃ b' s',
      run.result = ((execute rules script (index + 2) s' xs).converse r b').result ∧
        s'.Tally context [Number.encode (count + signatureCount [item] : Nat)] items base) ∧
    (item ≠ [] ∧ ¬ SignedBy r a context item key → ∃ e, run.result = .error e) := by
  intro run
  obtain ⟨hstack, halt, hb, hc⟩ := hs
  have hversion : s.context.version = .tapscript := hc.version.trans hv
  -- behind the push, and there at the check
  let pushed : State := { s.reach index (1 + key.val.length) with stack := key.val :: s.stack }
  let check : State := pushed.entered (index + 1)
  have hroom : pushed.HasRoom 1 := State.hasRoom_of_tapscript hversion 1
  have hclosed : pushed.branches = [] := hb
  have hpush : run = (execute rules script (index + 1) pushed (.ok (.good (.operation op)) :: xs)).converse r b :=
    congrArg (Dialogue.converse r b) (execute_block key (by decide) (by decide) hb (by rw [halt]; exact hd) _)
  have htop : check.stack = key.val :: (above ++ item :: (items ++ base)) := congrArg (key.val :: ·) hstack
  rw [hpush]
  constructor
  · intro hsigned
    obtain ⟨c', hresult, hc'⟩ := hop.result_of_signed hr hv htop hc hsigned script b
    let counted : State :=
      { check with stack := Number.encode (count + signatureCount [item] : Nat) :: (items ++ base), context := c' }
    have hfits : counted.Fits := by
      rw [hstack] at hd
      simp only [List.length_append, List.length_cons] at hd
      show (items ++ base).length + 1 + s.alt.length ≤ State.maxDepth
      rw [halt, List.length_append, List.length_nil]
      omega
    obtain ⟨b', hrun⟩ := result_execute_of_ok hsep hclosed hroom hresult hfits xs
    exact ⟨b', counted, hrun, rfl, halt, hb, hc'⟩
  · intro hunsigned
    obtain ⟨e, hresult⟩ := hop.result_of_unsigned hr hv htop hc hunsigned.1 hunsigned.2 script b
    exact ⟨_, result_execute_of_error hsep hclosed hroom hresult xs⟩

/-- The keys behind the first one. -/
def Pattern.counts (keys : List (Block 32)) : List Opcode :=
  keys.flatMap fun key => [Pattern.block32 key, .operation .checkSigAdd]

/-- All keys: the signatures among the items are added to the count, or the script fails. The
    first operation may be another one than those behind it. -/
theorem result_execute_counts (hr : r.IgnoresWeight) (hv : context.version = .tapscript) {op : Operation}
    (hsep : op ≠ .codeSeparator) {count : Nat} {above : List Bytes} (hop : op.CountsOn rules count above)
    {keys : List (Block 32)} {item : Bytes} {items : List Bytes} (hlength : items.length = keys.length) {s : State}
    (hs : s.Tally context above (item :: items) base) (hd : s.stack.length < State.maxDepth)
    (hcount : count + items.length + 1 < 2 ^ 31) (a b : σ) (script : Bytes) (index : Nat) (key : Block 32)
    (xs : List (Except ScriptError Item)) :
    let run := (execute rules script index s (.ok (.good (Pattern.block32 key)) :: .ok (.good (.operation op)) ::
      (Script.written (Pattern.counts keys) ++ xs))).converse r b
    ((∀ p ∈ (item :: items).zip (key :: keys), p.1 ≠ [] → SignedBy r a context p.1 p.2) →
      ∃ b' s' next, run.result = ((execute rules script next s' xs).converse r b').result ∧
        s'.Tally context [Number.encode (count + signatureCount (item :: items) : Nat)] [] base) ∧
    ((∃ p ∈ (item :: items).zip (key :: keys), p.1 ≠ [] ∧ ¬ SignedBy r a context p.1 p.2) →
      ∃ e, run.result = .error e) := by
  induction keys generalizing op count above key item items index s b with
  | nil =>
    obtain rfl := List.length_eq_zero_iff.mp hlength
    obtain ⟨hpass, hfail⟩ := result_execute_counted hr hv hsep hop hs hd a b script index key xs
    simp only [List.zip_cons_cons, List.zip_nil_left, List.forall_mem_cons, List.exists_mem_cons_iff]
    constructor
    · intro hsigned
      obtain ⟨b', s', hrun, hs'⟩ := hpass hsigned.1
      exact ⟨b', s', index + 2, hrun, hs'⟩
    · intro hunsigned
      exact hfail (hunsigned.resolve_right (by simp))
  | cons second keys ih =>
    obtain ⟨item', items, rfl⟩ := List.exists_cons_of_length_eq_add_one hlength
    obtain ⟨hpass, hfail⟩ := result_execute_counted hr hv hsep hop hs hd a b script index key
      (Script.written (Pattern.counts (second :: keys)) ++ xs)
    rw [List.length_cons] at hcount
    rw [List.zip_cons_cons, signatureCount_split, List.forall_mem_cons, List.exists_mem_cons_iff]
    by_cases hsigned : item ≠ [] → SignedBy r a context item key
    · obtain ⟨b', s', hrun, hs'⟩ := hpass hsigned
      have hone : signatureCount [item] ≤ 1 := signatureCount_le [item]
      have hd' : s'.stack.length < State.maxDepth := by
        rw [hs.stack] at hd
        rw [hs'.stack]
        simp only [List.length_append, List.length_cons, List.length_nil] at hd ⊢
        omega
      have hadd : Operation.CountsOn rules .checkSigAdd (count + signatureCount [item]) _ :=
        countsOn_checkSigAdd rules (by omega)
      obtain ⟨hall, hsome⟩ := ih (by decide) hadd (Nat.succ.inj hlength) hs' hd' (by omega) b' (index + 2) second
      rw [Nat.add_assoc] at hall
      constructor
      · intro hrest
        obtain ⟨b'', s'', next, hrun', hs''⟩ := hall hrest.2
        exact ⟨b'', s'', next, hrun.trans hrun', hs''⟩
      · intro hunsigned
        rcases hunsigned with hhere | hrest
        · exact absurd (hsigned hhere.1) hhere.2
        · obtain ⟨e, he⟩ := hsome hrest
          exact ⟨e, hrun.trans he⟩
    · constructor
      · intro hrest
        exact absurd hrest.1 hsigned
      · intro _
        exact hfail (Classical.not_imp.mp hsigned)

/-- The sum is compared with the number asked for. -/
theorem execute_compare (hv : context.version = .tapscript) {count k : Nat} {s : State}
    (hs : s.Tally context [Number.encode count] [] base) (hcount : count < 2 ^ 31) (hk : k < 2 ^ 31)
    (hd : base.length + 1 < State.maxDepth) (script : Bytes) (index : Nat) :
    ∃ t, execute rules script index s (Script.written [Pattern.number k, .operation (.binary .numEqual)]) = .ret t ∧
      t.stack = (if count = k then [1] else []) :: base ∧ t.branches = [] := by
  obtain ⟨hstack, halt, hb, hc⟩ := hs
  have hversion : s.context.version = .tapscript := hc.version.trans hv
  have hroom : s.stack.length + s.alt.length < State.maxDepth := by
    rw [hstack, halt]
    simpa using hd
  let pushed : State := { s.reach index (Push.ofNumber k).size with stack := Number.encode k :: s.stack }
  let compared : State := { pushed.entered (index + 1) with stack := Number.ofBool ((count : Int) == k) :: base }
  have hequal : Stack.binary (rules.has .minimalData) .numEqual (Number.encode k :: s.stack) =
      .ok (Number.ofBool ((count : Int) == k) :: base) := by
    refine Stack.binary_eq_ok.mpr ⟨_, _, base, congrArg (_ :: ·) hstack, Number.isOperand_encode hk,
      Number.isOperand_encode hcount, ?_⟩
    rw [Number.signMagnitude_encode, Number.signMagnitude_encode]
    rfl
  have heval : (Operation.binary .numEqual).eval rules script (pushed.entered (index + 1)) = .ret compared := by
    show Dialogue.lift (Stack.binary (rules.has .minimalData) .numEqual (Number.encode k :: s.stack) >>= _) = _
    rw [hequal]
    rfl
  have hfits : compared.Fits := by
    show base.length + 1 + s.alt.length ≤ State.maxDepth
    rw [halt]
    exact Nat.le_of_lt hd
  have habs : (k : Int).natAbs < 2 ^ 39 := Nat.lt_trans hk (by decide)
  have hcompare := execute_of_ret (by decide) (show pushed.branches = [] from hb)
    (State.hasRoom_of_tapscript hversion 1) heval hfits []
  refine ⟨compared, (execute_number habs hb hroom _).trans hcompare, ?_, hb⟩
  show Number.ofBool ((count : Int) == k) :: base = _
  by_cases h : count = k
  · simp [h, Number.ofBool]
  · simp [h, Number.ofBool]

end Run

/-! ## The script -/

namespace Pattern

theorem flatMap_zipIdx (keys : List (Block 32)) (n : Nat) :
    ((keys.zipIdx (n + 1)).flatMap fun (key, i) =>
      [block32 key, op (if i = 0 then .checkSig else .checkSigAdd)]) = counts keys := by
  induction keys generalizing n with
  | nil => rfl
  | cons key keys ih =>
    rw [List.zipIdx_cons, List.flatMap_cons, ih]
    rfl

/-- The first check leaves a truth value, and the others count on from it. -/
theorem checkSigAddMultiSig_cons (k : Nat) (key : Block 32) (keys : List (Block 32)) :
    checkSigAddMultiSig k (key :: keys) =
      block32 key :: .operation .checkSig :: (counts keys ++ [number k, .operation (.binary .numEqual)]) := by
  unfold checkSigAddMultiSig
  rw [List.zipIdx_cons, List.flatMap_cons, flatMap_zipIdx]
  rfl

end Pattern

namespace Script

/-- The script that counts signatures, on one item for each key: if every item that is not empty is
    a signature that passes for its key, it leaves whether there are exactly `k` of them; if one of
    them is not, it fails. The weight has to be enough for them and the stack must have room for
    one key more. -/
theorem result_eval_checkSigAddMultiSig (r : Responder σ) (hr : r.IgnoresWeight) (a : σ) (rules : Rules) (k : Nat)
    (keys : List (Block 32)) (hkeys : keys ≠ []) (hk : k ≤ keys.length) (items : List Bytes)
    (hitems : items.length = keys.length) (base : Stack) (hdepth : base.length + keys.length + 1 ≤ 1000)
    (context : Context) (hversion : context.version = .tapscript)
    (hweight : ∀ w, context.weightLeft = some w → 50 * (signatureCount items : Int) ≤ w) :
    let result := ((Script.eval rules (encode (Pattern.checkSigAddMultiSig k keys)) (items ++ base) context).converse
      r a).result
    ((∀ p ∈ items.zip keys, p.1 ≠ [] → SignedBy r a context p.1 p.2) →
      result = .ok ((if signatureCount items = k then [1] else []) :: base)) ∧
    ((∃ p ∈ items.zip keys, p.1 ≠ [] ∧ ¬ SignedBy r a context p.1 p.2) → ∃ e, result = .error e) := by
  intro result
  obtain ⟨key, keys, rfl⟩ := List.exists_cons_of_ne_nil hkeys
  obtain ⟨item, items, rfl⟩ := List.exists_cons_of_length_eq_add_one hitems
  rw [List.length_cons] at hk hdepth
  have hlength : items.length = keys.length := Nat.succ.inj hitems
  let code := encode (Pattern.checkSigAddMultiSig k (key :: keys))
  let start := State.start (item :: items ++ base) context
  have hstart : start.Tally context [] (item :: items) base := ⟨rfl, rfl, rfl, ⟨context.weightLeft, rfl⟩, hweight⟩
  have hroom : start.stack.length < State.maxDepth := by
    show (item :: items ++ base).length < 1000
    rw [List.length_append, List.length_cons]
    omega
  have hcount : signatureCount (item :: items) ≤ items.length + 1 := signatureCount_le (item :: items)
  have hsize : checkScriptSize context.version code.length = .ok () := by
    rw [hversion]
    rfl
  have hops : written (Pattern.checkSigAddMultiSig k (key :: keys)) =
      .ok (.good (Pattern.block32 key)) :: .ok (.good (.operation .checkSig)) ::
        (written (Pattern.counts keys) ++ written [Pattern.number k, .operation (.binary .numEqual)]) := by
    rw [Pattern.checkSigAddMultiSig_cons, written, List.map_cons, List.map_cons, List.map_append]
    rfl
  obtain ⟨hall, hsome⟩ := result_execute_counts hr hversion (by decide) (countsOn_checkSig rules) hlength hstart
    hroom (by omega) a a code 0 key (written [Pattern.number k, .operation (.binary .numEqual)])
  rw [← hops] at hall hsome
  constructor
  · intro hsigned
    obtain ⟨b, s, next, hrun, hs⟩ := hall hsigned
    rw [Nat.zero_add] at hs
    have hbelow : base.length + 1 < State.maxDepth := by
      show base.length + 1 < 1000
      omega
    obtain ⟨t, hcompare, hstack, hclosed⟩ :=
      execute_compare hversion hs (by omega) (show k < 2 ^ 31 by omega) hbelow code next
    rw [hcompare] at hrun
    rw [← hstack]
    exact result_eval_of_ok hsize hrun hclosed
  · intro hunsigned
    obtain ⟨e, he⟩ := hsome hunsigned
    exact ⟨e, result_eval_of_error hsize he⟩

/-- One of two, where a signature passes for the key that starts alike: one signature is right, two
    are too many, and one for the wrong key is an error. -/
theorem result_eval_checkSigAddMultiSig_two :
    let o : Oracle := fun
      | .schnorr c => if c.sig.sig.val.head? = c.key.val.head? then .ok () else .error .schnorr
      | .ecdsa _ | .lockTime _ | .sequence _ => false
    let key (b : UInt8) : Block 32 := ⟨List.replicate 32 b, List.length_replicate⟩
    let sig (b : UInt8) : Bytes := List.replicate 64 b
    let context := { Context.fresh .tapscript with weightLeft := some 100 }
    let result (items : List Bytes) :=
      ((Script.eval Rules.standard (encode (Pattern.checkSigAddMultiSig 1 [key 1, key 2])) (items ++ [[7]])
        context).converse o.responder ()).result
    result [sig 1, []] = .ok [[1], [7]] ∧ result [sig 1, sig 2] = .ok [[], [7]] ∧ ∃ e, result [[], sig 1] = .error e := by
  intro o key sig context result
  have hsigned (b : UInt8) : SignedBy o.responder () context (sig b) (key b) :=
    ⟨⟨⟨sig b, List.length_replicate⟩, .default⟩, rfl, if_pos rfl⟩
  have hwrong : ¬ SignedBy o.responder () context (sig 1) (key 2) := by
    intro h
    obtain ⟨s, hs, hanswer⟩ := h
    cases hs
    cases hanswer
  have hcount (items : List Bytes) (hitems : items.length = 2) :=
    result_eval_checkSigAddMultiSig o.responder (fun _ _ _ _ => rfl) () Rules.standard 1 [key 1, key 2] (by simp)
      (by simp) items hitems [[7]] (by simp) context rfl (by
        intro w hw
        cases hw
        have := signatureCount_le items
        omega)
  refine ⟨(hcount [sig 1, []] rfl).1 ?_, (hcount [sig 1, sig 2] rfl).1 ?_, (hcount [[], sig 1] rfl).2 ?_⟩
  · rw [List.zip_cons_cons, List.forall_mem_cons, List.zip_cons_cons, List.forall_mem_cons]
    exact ⟨fun _ => hsigned 1, fun h => absurd rfl h, by simp⟩
  · rw [List.zip_cons_cons, List.forall_mem_cons, List.zip_cons_cons, List.forall_mem_cons]
    exact ⟨fun _ => hsigned 1, fun _ => hsigned 2, by simp⟩
  · exact ⟨(sig 1, key 2), by simp, by decide, hwrong⟩

end Script

end SpendScript

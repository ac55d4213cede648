/-
  SpendScript.Proofs.ScriptCode — the part of a script that a signature check covers.

  The machine keeps where the code starts: the offset behind a code separator, and its index
  (`Context.mark`). Both are counted along while it runs, and only a separator that is executed
  sets them, so they tell the last one of these in the script:
  - `mark_of_step` / `mark_of_trace`: what one item does to them, and a run.
  - `Script.ComesTo.marks`: in any run, at any stop, they are the place in the bytes of the script.
  What is asked at a stop depends on them alone. An ECDSA check is given the code from there on,
  less the signatures that the operation takes off the stack if the script is a legacy one:
  - `multiSignatures_eq`: which signatures these are, by their positions.
  - `Operation.eval_asks` / `Item.eval_asks`: all questions of one operation, and of one item.
  - `Script.asksAt_of_exchange`: every question of a run is asked at a stop that it comes to.
  `Script.checks_see_script_code` puts them together.
-/

import Mathlib
import SpendScript.Proofs.Budget
import SpendScript.Proofs.Deletion
import SpendScript.Proofs.Limits
import SpendScript.Proofs.SigOps

namespace SpendScript

open Dialogue

/-! ## Code separators -/

/-- Whether a code separator is executed at a stop. -/
def Stop.separates (x : Stop) : Bool := x.item == .good (.operation .codeSeparator) && x.before.executing

/-- The index of the last code separator that was executed. -/
def lastSeparator? : List Stop → Option Nat
  | [] => none
  | x :: stops =>
    match lastSeparator? stops with
    | some i => some (i + 1)
    | none => if x.separates then some 0 else none

/-- What a context keeps of a separator: the offset behind it, and its index. -/
def Context.mark (c : Context) : Nat × UInt32 := (c.codeStart, c.separatorPos)

theorem Operation.Effect.mark_eq {s s' : State} {op : Operation} (h : op.Effect s s') (hop : op ≠ .codeSeparator) :
    s'.context.mark = s.context.mark := by
  cases h with
  | onStacks => rfl
  | separator => exact absurd rfl hop
  | keys hc stack =>
    have hcontext := State.context_countOps hc
    exact congrArg Context.mark hcontext

section Marks

variable {rules : Rules} {script : Bytes} {s s' t : State} {item : Item}

/-- Only an executed separator sets the mark, to where the machine is. -/
theorem mark_of_step (h : Item.Step rules script s item s') :
    s'.context.mark = if (Stop.mk item s).separates then (s.offset, s.separatorPos) else s.context.mark := by
  cases h with
  | push => rfl
  | passPush => rfl
  | control c hc h =>
    obtain ⟨stack, branches, rfl⟩ := Control.eval_eq_ok h
    have hcontext := State.context_countOps hc
    exact congrArg Context.mark hcontext
  | operation op hc he h =>
    by_cases hop : op = .codeSeparator
    · subst hop
      rw [Dialogue.yields_pure.mp h, if_pos (by simp [Stop.separates, he])]
      rcases State.countOps_eq_ok hc with rfl | ⟨-, rfl⟩ <;> rfl
    · rw [if_neg (by simp [Stop.separates, hop]), (Operation.effect_of_yields h).mark_eq hop,
        State.context_countOps hc]
  | passOperation op hc he => rw [if_neg (by simp [Stop.separates, he]), State.context_countOps hc]
  | passReserved => rfl
  | passBad b hb hc => exact congrArg Context.mark (State.context_countOps hc)

/-- Behind a run the mark is that of the last separator in it, or what it was if there is none. -/
theorem mark_of_trace {index : Nat} {xs : List (Except ScriptError Item)} {stops : List Stop}
    (h : (trace rules script index s xs).Yields (stops, t)) :
    t.context.mark = (lastSeparator? stops).elim s.context.mark fun i =>
      (s.offset + ((stops.take (i + 1)).map fun x => x.item.size).sum,
        UInt32.ofNat (min (index + i) 0xffffffff)) := by
  induction xs generalizing index s stops with
  | nil =>
    obtain ⟨rfl, rfl⟩ := yields_trace_nil h
    rfl
  | cons x xs ih =>
    obtain ⟨item, s', rest, -, hs, hrest, rfl⟩ := yields_trace_cons h
    have hstep := Item.step_of_yields hs
    have hmark := mark_of_step hstep
    have hoffset : s'.offset = s.offset + item.size := hstep.keeps.1
    rw [ih hrest, lastSeparator?]
    cases hlast : lastSeparator? rest with
    | some i =>
      rw [Option.elim_some, Option.elim_some, List.take_succ_cons, List.map_cons, List.sum_cons, hoffset,
        Nat.add_assoc, Nat.add_assoc, Nat.add_comm 1 i]
    | none =>
      rw [Option.elim_none, hmark]
      split
      · rw [Option.elim_some]
        simp [State.reach, State.separatorPos]
      · rfl

end Marks

theorem lt_of_lastSeparator? {stops : List Stop} {i : Nat} (h : lastSeparator? stops = some i) : i < stops.length := by
  induction stops generalizing i with
  | nil => cases h
  | cons x stops ih =>
    rw [lastSeparator?] at h
    cases hlast : lastSeparator? stops with
    | some j =>
      rw [hlast] at h
      cases h
      exact Nat.succ_lt_succ (ih hlast)
    | none =>
      rw [hlast] at h
      dsimp only at h
      split at h
      · cases h
        exact Nat.succ_pos _
      · cases h

/-! ## Signatures on the stack -/

/-- The signatures of a multisignature check. From the top stand the number of keys, the keys, the
    number of signatures and the signatures. -/
def multiSignatures (stack : Stack) : List Bytes :=
  let keys := Operation.checkMultiSig.keyCount stack
  let count := stack[keys + 1]?.elim 0 fun item => (Number.value item).toNat
  (stack.drop (keys + 2)).take count

/-- All signatures that an operation checks. -/
def Operation.signatures (stack : Stack) : Operation → List Bytes
  | .checkMultiSig | .checkMultiSigVerify => multiSignatures stack
  | op => (op.signature? stack).toList

def Operation.checksSignature : Operation → Bool
  | .checkSig | .checkSigVerify | .checkSigAdd | .checkMultiSig | .checkMultiSigVerify => true
  | _ => false

/-- Whether a signature check is executed at a stop. -/
def Stop.checksSignature (x : Stop) : Bool :=
  match x.item with
  | .good (.operation op) => op.checksSignature && x.before.executing
  | _ => false

def Stop.signatures (x : Stop) : List Bytes :=
  match x.item with
  | .good (.operation op) => op.signatures x.before.stack
  | _ => []

theorem multiSignatures_eq {rules : Rules} {s s' : State} {m : MultiSig} (h : takeMultiSig rules s = .ok (m, s')) :
    multiSignatures s.stack = m.sigs := by
  obtain ⟨top, count, hstack, htop, hcount, -⟩ := takeMultiSig_stack h
  have hkeys : Operation.checkMultiSig.keyCount s.stack = m.keys.length := by
    rw [hstack]
    show (Number.value top).toNat = _
    rw [htop, Int.toNat_natCast]
  have hget : s.stack[m.keys.length + 1]? = some count := by
    rw [hstack, List.getElem?_cons_succ, List.getElem?_append_right (Nat.le_refl _), Nat.sub_self]
    rfl
  have hdrop : s.stack.drop (m.keys.length + 2) = m.sigs ++ m.dummy :: m.rest := by
    rw [hstack, List.drop_succ_cons, ← List.drop_drop, List.drop_left]
    rfl
  unfold multiSignatures
  dsimp only
  rw [hkeys, hget, hdrop, Option.elim_some, hcount, Int.toNat_natCast, List.take_left]

/-! ## Questions -/

/-- The code that signatures cover: a legacy script is freed of them. -/
def signedCode (version : SigVersion) (code : Bytes) (sigs : List Bytes) : Bytes :=
  if version = .base then Script.withoutPushes sigs code else code

/-- A question about a signature is asked at an executed check, of the code behind the mark. -/
def Query.FitsAt (script : Bytes) (x : Stop) : Query → Prop
  | .ecdsa check =>
    x.checksSignature = true ∧ check.item ∈ x.signatures ∧ check.version = x.before.context.version ∧
      check.code = signedCode x.before.context.version (script.drop x.before.context.codeStart) x.signatures
  | .schnorr check =>
    x.checksSignature = true ∧ ∃ weight, check.context = { x.before.context with weightLeft := weight }
  | .lockTime _ | .sequence _ => True

namespace Check

variable {rules : Rules} {script code item key : Bytes} {version : SigVersion} {context : Context} {P : Query → Prop}

theorem coveredCode_eq_ok {items : List Bytes} (hs : script.length < 2 ^ 32)
    (h : coveredCode rules script context items = .ok code) :
    code = signedCode context.version (script.drop context.codeStart) items := by
  unfold coveredCode at h
  unfold signedCode
  split at h
  · rename_i hbase
    have hlength : (script.drop context.codeStart).length < 2 ^ 32 := by
      rw [List.length_drop]
      omega
    rw [scriptCode, withoutSignatures_eq fun _ _ => Or.inr hlength] at h
    rw [if_pos (eq_of_beq hbase)]
    split at h
    · cases h
    · cases h
      rfl
  · rename_i hbase
    cases h
    rw [if_neg (by simpa using hbase)]
    rfl

theorem ecdsa_asks (h : ∀ sig, P (.ecdsa ⟨item, sig, key, code, version⟩)) :
    (ecdsa rules version code item key).Keeps (.asking P) := by
  unfold ecdsa
  split
  · exact asking_fail _
  · exact asking_liftM_bind fun _ _ => keeps_pure _
  · exact asking_liftM_bind fun _ _ => ⟨h _, fun _ _ => keeps_pure _⟩

theorem ecdsaOp_asks (h : ∀ code sig, coveredCode rules script context [item] = .ok code →
      P (.ecdsa ⟨item, sig, key, code, context.version⟩)) :
    (ecdsaOp rules script context item key).Keeps (.asking P) := by
  refine asking_liftM_bind fun code hcode => ?_
  refine (ecdsa_asks fun sig => h code sig hcode).bind fun good _ => ?_
  split
  · exact asking_fail _
  · exact keeps_pure _

theorem tapscriptOp_asks (h : ∀ sig key weight, P (.schnorr ⟨sig, key, { context with weightLeft := weight }⟩)) :
    (tapscriptOp rules context item key).Keeps (.asking P) := by
  refine asking_liftM_bind fun context' hweight => ?_
  obtain ⟨weight, rfl⟩ := spendWeight_eq_ok hweight
  split
  · exact asking_fail _
  split
  · split
    · exact keeps_pure _
    · refine asking_liftM_bind fun sig _ => asking_query_bind (h sig _ weight) fun good => ?_
      exact asking_liftM_bind fun _ _ => keeps_pure _
  · split
    · exact asking_fail _
    · exact keeps_pure _

theorem matching_asks {keys sigs : List Bytes}
    (h : ∀ item ∈ sigs, ∀ sig key, P (.ecdsa ⟨item, sig, key, code, version⟩)) :
    (matching rules version code keys sigs).Keeps (.asking P) := by
  induction keys generalizing sigs with
  | nil => cases sigs <;> exact keeps_pure _
  | cons key keys ih =>
    cases sigs with
    | nil => exact keeps_pure _
    | cons sig sigs =>
      refine (ecdsa_asks fun decoded => h sig List.mem_cons_self decoded key).bind fun good _ => ?_
      have hleft : (if good = true then sigs else sig :: sigs) ⊆ sig :: sigs := by
        split
        · exact List.subset_cons_self sig sigs
        · exact List.Subset.refl _
      dsimp only
      generalize (if good = true then sigs else sig :: sigs) = left at hleft ⊢
      split
      · exact keeps_pure _
      · exact ih fun item hitem => h item (hleft hitem)

/-- A check of the one signature at a stop. -/
theorem single_asks {x : Stop} (hs : script.length < 2 ^ 32) (hx : x.checksSignature = true)
    (hsig : x.signatures = [item]) :
    (single rules script x.before.context item key).Keeps (.asking (Query.FitsAt script x)) := by
  have hecdsa : (ecdsaOp rules script x.before.context item key).Keeps (.asking (Query.FitsAt script x)) := by
    refine ecdsaOp_asks fun code sig hcode => ⟨hx, ?_, rfl, ?_⟩
    · rw [hsig]
      exact List.mem_singleton_self item
    · rw [hsig]
      exact coveredCode_eq_ok hs hcode
  unfold single
  split
  · exact hecdsa.bind fun _ _ => keeps_pure _
  · exact hecdsa.bind fun _ _ => keeps_pure _
  · exact tapscriptOp_asks fun sig key weight => ⟨hx, weight, rfl⟩
  · exact asking_fail _

end Check

section Items

variable {rules : Rules} {script : Bytes} {s : State} {op : Operation} {P : Query → Prop}

theorem evalLockTime_asks (h : ∀ n, P (.lockTime n)) : (evalLockTime rules s).Keeps (.asking P) := by
  unfold evalLockTime
  split
  · refine asking_liftM_bind fun n _ => asking_query_bind (h n) fun reached => ?_
    split
    · exact keeps_pure _
    · exact asking_fail _
  · exact asking_liftM _

theorem evalSequence_asks (h : ∀ n, P (.sequence n)) : (evalSequence rules s).Keeps (.asking P) := by
  unfold evalSequence
  split
  · refine asking_liftM_bind fun n _ => ?_
    split
    · exact keeps_pure _
    · refine asking_query_bind (h n) fun passed => ?_
      split
      · exact keeps_pure _
      · exact asking_fail _
  · exact asking_liftM _

theorem evalCheckSig_asks (hs : script.length < 2 ^ 32) {verify : Bool}
    (hx : (Stop.mk (.good (.operation op)) s).checksSignature = true)
    (hop : op.signatures s.stack = s.stack[1]?.toList) :
    (evalCheckSig rules script verify s).Keeps (.asking (Query.FitsAt script ⟨.good (.operation op), s⟩)) := by
  refine asking_liftM_bind fun _ _ => ?_
  refine asking_liftM_bind fun ⟨key, below⟩ hkey => ?_
  refine asking_liftM_bind fun ⟨sig, rest⟩ hsig => ?_
  have hsigs : op.signatures s.stack = [sig] := by
    rw [hop, Stack.pop_eq_ok.mp hkey, Stack.pop_eq_ok.mp hsig]
    rfl
  exact (Check.single_asks hs hx hsigs).bind fun _ _ => asking_liftM _

theorem evalCheckSigAdd_asks (hs : script.length < 2 ^ 32)
    (hx : (Stop.mk (.good (.operation .checkSigAdd)) s).checksSignature = true) :
    (evalCheckSigAdd rules script s).Keeps (.asking (Query.FitsAt script ⟨.good (.operation .checkSigAdd), s⟩)) := by
  unfold evalCheckSigAdd
  split
  · exact asking_fail _
  refine asking_liftM_bind fun _ _ => ?_
  refine asking_liftM_bind fun x _ => ?_
  refine asking_liftM_bind fun n _ => ?_
  refine asking_liftM_bind fun key _ => ?_
  refine asking_liftM_bind fun sig hsig => ?_
  have hsigs : Operation.signatures s.stack .checkSigAdd = [sig] := by
    show s.stack[2]?.toList = [sig]
    rw [Stack.get_eq_ok.mp hsig]
    rfl
  exact (Check.single_asks hs hx hsigs).bind fun _ _ => keeps_pure _

theorem evalCheckMultiSig_asks (hs : script.length < 2 ^ 32) {verify : Bool}
    (hx : (Stop.mk (.good (.operation op)) s).checksSignature = true)
    (hop : op.signatures s.stack = multiSignatures s.stack) :
    (evalCheckMultiSig rules script verify s).Keeps (.asking (Query.FitsAt script ⟨.good (.operation op), s⟩)) := by
  unfold evalCheckMultiSig
  split
  · exact asking_fail _
  refine asking_liftM_bind fun ⟨m, s₁⟩ hm => ?_
  refine asking_liftM_bind fun code hcode => ?_
  obtain ⟨⟨count, rfl⟩, -⟩ := takeMultiSig_eq_ok hm
  have hsigs : (Stop.mk (.good (.operation op)) s).signatures = m.sigs := hop.trans (multiSignatures_eq hm)
  have hcode := Check.coveredCode_eq_ok hs hcode
  have hmatching : (Check.matching rules s.context.version code m.keys m.sigs).Keeps
      (.asking (Query.FitsAt script ⟨.good (.operation op), s⟩)) := by
    refine Check.matching_asks fun item hitem sig key => ⟨hx, ?_, rfl, ?_⟩
    · rw [hsigs]
      exact hitem
    · rw [hsigs]
      exact hcode
  refine hmatching.bind fun good _ => ?_
  split
  · exact asking_fail _
  split
  · exact asking_fail _
  · exact asking_liftM _

theorem Operation.eval_asks (hs : script.length < 2 ^ 32) (op : Operation) (he : s.executing = true) :
    (op.eval rules script s).Keeps (.asking (Query.FitsAt script ⟨.good (.operation op), s⟩)) := by
  have hx (hop : op.checksSignature = true) : (Stop.mk (.good (.operation op)) s).checksSignature = true := by
    simp [Stop.checksSignature, hop, he]
  cases op with
  | nop | codeSeparator => exact keeps_pure _
  | abort => exact asking_fail _
  | stack op => exact asking_liftM_bind fun _ _ => keeps_pure _
  | verify | equal | equalVerify | unary _ | binary _ | numEqualVerify | within | hash _ | upgradable _ =>
    exact asking_liftM _
  | checkSig | checkSigVerify => exact evalCheckSig_asks hs (hx rfl) rfl
  | checkMultiSig | checkMultiSigVerify => exact evalCheckMultiSig_asks hs (hx rfl) rfl
  | checkSigAdd => exact evalCheckSigAdd_asks hs (hx rfl)
  | checkLockTime => exact evalLockTime_asks fun _ => trivial
  | checkSequence => exact evalSequence_asks fun _ => trivial

theorem Opcode.act_asks (hs : script.length < 2 ^ 32) (op : Opcode) :
    (op.act rules script s).Keeps (.asking (Query.FitsAt script ⟨.good op, s⟩)) := by
  cases op with
  | push p =>
    simp only [Opcode.act]
    split
    · exact asking_liftM _
    · exact keeps_pure s
  | control c => exact asking_liftM_bind fun s₁ _ => asking_liftM _
  | operation op =>
    refine asking_liftM_bind fun s₁ hc => ?_
    split
    · exact asking_fail _
    split
    · rename_i he
      -- counting changes nothing that a question depends on
      rcases State.countOps_eq_ok hc with rfl | ⟨-, rfl⟩
      · exact op.eval_asks hs he
      · exact op.eval_asks hs he
    · exact keeps_pure s₁

/-- What is asked at a stop. -/
theorem Item.eval_asks (hs : script.length < 2 ^ 32) (item : Item) :
    (item.eval rules script s).Keeps (.asking (Query.FitsAt script ⟨item, s⟩)) := by
  cases item with
  | good op => exact (op.act_asks hs).bind fun _ _ => asking_liftM _
  | bad b => exact asking_liftM _

end Items

/-! ## Scripts -/

namespace Script

/-- The offset behind the item with an index. -/
def offsetBehind (s : Bytes) (i : Nat) : Nat := (((pieces s).take (i + 1)).flatMap Piece.span).length

/-- The offset behind the last executed separator: where the code starts that signatures cover. -/
def codeOffset (s : Bytes) (stops : List Stop) : Nat := (lastSeparator? stops).elim 0 (offsetBehind s)

/-- A run of the first items of a script. -/
def runTo {σ : Type} (r : Responder σ) (w : σ) (rules : Rules) (s : Bytes) (stack : Stack) (context : Context)
    (before : List (Except ParseError Item)) : Outcome ScriptError (List Stop × State) σ :=
  (SpendScript.trace rules s 0 (State.start stack context) (before.map (·.mapError ScriptError.parse))).converse r w

/-- A run of the script comes to `x` behind `stops`, and whoever answers is in the state `w'` then. -/
def ComesTo {σ : Type} (r : Responder σ) (w : σ) (rules : Rules) (s : Bytes) (stack : Stack) (context : Context)
    (stops : List Stop) (x : Stop) (w' : σ) : Prop :=
  checkScriptSize context.version s.length = .ok () ∧
    ∃ before after t, items s = before ++ .ok x.item :: after ∧
      (runTo r w rules s stack context before).result = .ok (stops, t) ∧
      (runTo r w rules s stack context before).state = w' ∧ x.before = t.reach before.length x.item.size

/-- A run of the script has the exchange at `x`, behind `stops`. -/
def AsksAt {σ : Type} (r : Responder σ) (w : σ) (rules : Rules) (s : Bytes) (stack : Stack) (context : Context)
    (stops : List Stop) (x : Stop) (e : Exchange) : Prop :=
  ∃ w', ComesTo r w rules s stack context stops x w' ∧ e ∈ ((x.item.eval rules s x.before).converse r w').exchanges

end Script

/-- The context knows where in the script the last executed separator is, or that there was none. -/
structure Context.Marks (c : Context) (s : Bytes) (initial : Context) (stops : List Stop) : Prop where
  version : c.version = initial.version
  start : c.codeStart = Script.codeOffset s stops
  position : ∀ i, lastSeparator? stops = some i → c.separatorPos.toNat = i
  unset : lastSeparator? stops = none → c.separatorPos = initial.separatorPos

namespace Script

variable {rules : Rules} {σ : Type} {r : Responder σ} {w w' : σ} {s : Bytes} {stack : Stack} {context : Context}
  {stops : List Stop} {x : Stop}

theorem ComesTo.marks (h : ComesTo r w rules s stack context stops x w') (hs : s.length < 2 ^ 32)
    (hstart : context.codeStart = 0) : x.before.context.Marks s context stops := by
  obtain ⟨-, before, after, t, hitems, htrace, -, hx⟩ := h
  have hyields := yields_of_converse htrace
  have hprefix : (stops.map Stop.item).map .ok <+: items s := ⟨_, items_of_trace hyields ▸ hitems.symm⟩
  have hcontext : x.before.context = t.context := by rw [hx]; rfl
  have hmark := mark_of_trace hyields
  rw [hcontext]
  refine ⟨version_of_trace hyields, ?_, fun i hi => ?_, fun hnone => ?_⟩
  · rw [show t.context.codeStart = t.context.mark.1 from rfl, hmark, codeOffset]
    cases hlast : lastSeparator? stops with
    | none => exact hstart
    | some i =>
      have hi := lt_of_lastSeparator? hlast
      have htake : ((stops.take (i + 1)).map Stop.item).map .ok <+: items s := by
        rw [List.map_take, List.map_take]
        exact (List.take_prefix _ _).trans hprefix
      have hsize := size_of_items htake
      rw [List.length_map, List.length_take_of_le hi, List.map_map] at hsize
      exact (Nat.zero_add _).trans hsize
  · have hindex : i < s.length := by
      have hlength := hprefix.length_le
      rw [List.length_map, List.length_map] at hlength
      exact Nat.lt_of_lt_of_le (lt_of_lastSeparator? hi) (Nat.le_trans hlength (items_length_le s))
    rw [show t.context.separatorPos = t.context.mark.2 from rfl, hmark, hi, Option.elim_some, UInt32.toNat_ofNat']
    omega
  · rw [show t.context.separatorPos = t.context.mark.2 from rfl, hmark, hnone]
    rfl

/-- Each exchange of a run is made at a stop that the run comes to. -/
theorem asksAt_of_exchange {e : Exchange} (h : e ∈ ((Script.eval rules s stack context).converse r w).exchanges) :
    ∃ stops x, AsksAt r w rules s stack context stops x e := by
  obtain ⟨_, hsize, h⟩ := mem_exchanges_liftM_bind.mp h
  rcases mem_exchanges_bind.mp h with h | ⟨t, -, h⟩
  · obtain ⟨before', item, after', stops, t, hitems, htrace, h⟩ := exchange_of_execute h
    obtain ⟨before, rest, hitems, rfl, hrest⟩ := List.map_eq_append_iff.mp hitems
    obtain ⟨y, after, rfl, hy, -⟩ := List.map_eq_cons_iff.mp hrest
    rw [mapError_eq_ok.mp hy] at hitems
    rw [List.length_map, Nat.zero_add] at h
    exact ⟨stops, ⟨item, t.reach before.length item.size⟩, _, ⟨hsize, before, after, t, hitems, htrace, rfl, rfl⟩, h⟩
  · rw [converse_liftM] at h
    cases h

/-- Whoever answers, a run that comes to a signature check knows the last code separator that was
    executed before it. Every ECDSA check that it asks for covers the script from there on, in a
    legacy script without the signatures of that operation; a Schnorr check is given the place. -/
theorem checks_see_script_code (r : Responder σ) (w : σ) (rules : Rules) (s : Bytes) (hs : s.length < 2 ^ 32)
    (stack : Stack) (context : Context) (hstart : context.codeStart = 0) :
    (∀ stops x w', ComesTo r w rules s stack context stops x w' → x.checksSignature = true →
      x.before.context.Marks s context stops) ∧
    (∀ check a, ⟨.ecdsa check, a⟩ ∈ ((Script.eval rules s stack context).converse r w).exchanges →
      ∃ stops x, AsksAt r w rules s stack context stops x ⟨.ecdsa check, a⟩ ∧ x.checksSignature = true ∧
        check.item ∈ x.signatures ∧ check.version = context.version ∧
        check.code = signedCode context.version (s.drop (codeOffset s stops)) x.signatures) ∧
    (∀ check a, ⟨.schnorr check, a⟩ ∈ ((Script.eval rules s stack context).converse r w).exchanges →
      ∃ stops x, AsksAt r w rules s stack context stops x ⟨.schnorr check, a⟩ ∧ x.checksSignature = true ∧
        check.context.Marks s context stops) := by
  refine ⟨fun stops x w' h _ => h.marks hs hstart, fun check a he => ?_, fun check a he => ?_⟩
  · obtain ⟨stops, x, w', hcomes, hasks⟩ := asksAt_of_exchange he
    obtain ⟨hx, hitem, hversion, hcode⟩ := (x.item.eval_asks hs).of_asking hasks
    have hmarks := hcomes.marks hs hstart
    rw [hmarks.version] at hversion
    rw [hmarks.version, hmarks.start] at hcode
    exact ⟨stops, x, ⟨w', hcomes, hasks⟩, hx, hitem, hversion, hcode⟩
  · obtain ⟨stops, x, w', hcomes, hasks⟩ := asksAt_of_exchange he
    obtain ⟨hx, weight, hcontext⟩ := (x.item.eval_asks hs).of_asking hasks
    have hmarks := hcomes.marks hs hstart
    rw [hcontext]
    exact ⟨stops, x, ⟨w', hcomes, hasks⟩, hx, hmarks.version, hmarks.start, hmarks.position, hmarks.unset⟩

/-- A separator in a branch that is not taken leaves the start of the code where it is. -/
theorem checks_see_script_code_skipped :
    let s : Bytes := [0xab, 0x00, 0x63, 0xab, 0x68, 0xac]
    let stack : Stack := [[0x02], [0x30, 6, 2, 1, 1, 2, 1, 1, 1]]
    let check : EcdsaCheck :=
      ⟨[0x30, 6, 2, 1, 1, 2, 1, 1, 1], ⟨⟨1, 1⟩, .all⟩, [0x02], [0x00, 0x63, 0xab, 0x68, 0xac], .base⟩
    (∃ stops x, ComesTo Oracle.deny.responder () (Rules.ofBits 0) s stack (Context.fresh .base) stops x () ∧
      x.checksSignature = true ∧ x.before.context.separatorPos.toNat = 0 ∧ x.before.context.codeStart = 1) ∧
    ∃ stops x,
      AsksAt Oracle.deny.responder () (Rules.ofBits 0) s stack (Context.fresh .base) stops x ⟨.ecdsa check, false⟩ ∧
        check.code = signedCode .base (s.drop (codeOffset s stops)) x.signatures := by
  intro s stack check
  obtain ⟨hmarks, hecdsa, -⟩ := checks_see_script_code Oracle.deny.responder () (Rules.ofBits 0) s (by decide) stack
    (Context.fresh .base) rfl
  constructor
  · have hrun : ∃ stops t, (runTo Oracle.deny.responder () (Rules.ofBits 0) s stack (Context.fresh .base)
        ((items s).take 5)).result = .ok (stops, t) ∧ lastSeparator? stops = some 0 ∧ t.executing = true :=
      ⟨_, _, by cbv, by cbv, by cbv⟩
    obtain ⟨stops, t, hrun, hlast, he⟩ := hrun
    have hitems : items s = (items s).take 5 ++ [.ok (.good (.operation .checkSig))] := by decide +kernel
    let x : Stop := ⟨.good (.operation .checkSig), t.reach ((items s).take 5).length 1⟩
    have hcomes : ComesTo Oracle.deny.responder () (Rules.ofBits 0) s stack (Context.fresh .base) stops x () :=
      ⟨rfl, (items s).take 5, [], t, hitems, hrun, rfl, rfl⟩
    have hx := hmarks stops x () hcomes he
    refine ⟨stops, x, hcomes, he, hx.position 0 hlast, ?_⟩
    rw [hx.start, codeOffset, hlast]
    decide +kernel
  · have hasked : ⟨.ecdsa check, false⟩ ∈ ((Script.eval (Rules.ofBits 0) s stack (Context.fresh .base)).converse
        Oracle.deny.responder ()).exchanges := by
      refine List.mem_of_mem_head? ?_
      cbv
    obtain ⟨stops, x, hasks, -, -, -, hcode⟩ := hecdsa check false hasked
    exact ⟨stops, x, hasks, hcode⟩

end Script

end SpendScript

/-
  SpendScript.Proofs.MultiSig — what a multisignature check decides.

  The search goes once through the keys and gives each signature the first key that it is good
  for, until it is done or more signatures than keys are left. That decides whether the
  signatures belong to some of the keys in the same order (`List.SublistForall₂`), or, which is
  the same, along an increasing map of indices (`sublistForall₂_iff_strictMono`):
  - `Check.sublistForall₂_cons_iff`: the exchange, one key at a time.
  - `Check.run_matching_eq_ok`: the whole search.

  The operands may also be told by positions on the stack that are counted in single bytes
  (`Counted.eval`). A counter that leaves its range is a fault of its own there, and so is one
  that points past the stack:
  - `Counted.Window`: what a position and a count hold; one turn moves it on by one item.
  - `Counted.walk_eq` / `Counted.deleteSigs_eq`: so the loops do what the lists say.
  - `Counted.eval_eq`: and the check ends as it does without counters, with neither fault.

  `checkMultiSig_decides` puts both together.
-/

import Mathlib
import SpendScript.Proofs.Machine

namespace SpendScript

/-! ## Signatures in the order of their keys -/

/-- The relation holds along an increasing choice of indices exactly when it holds between the
    one list and a part of the other. -/
theorem sublistForall₂_iff_strictMono {α β : Type} {P : α → β → Prop} {l : List α} {l' : List β} :
    List.SublistForall₂ P l l' ↔
      ∃ f : Fin l.length → Fin l'.length, StrictMono f ∧ ∀ i, P (l.get i) (l'.get (f i)) := by
  rw [List.sublistForall₂_iff]
  constructor
  · rintro ⟨chosen, hP, hsub⟩
    obtain ⟨hlength, hP⟩ := List.forall₂_iff_get.mp hP
    obtain ⟨f, hf⟩ := List.sublist_iff_exists_fin_orderEmbedding_get_eq.mp hsub
    refine ⟨fun i => f (i.cast hlength), fun i j hij => f.strictMono hij, fun i => ?_⟩
    rw [← hf]
    exact hP i.val i.isLt (hlength ▸ i.isLt)
  · rintro ⟨f, hf, hP⟩
    refine ⟨List.ofFn fun i => l'.get (f i), List.forall₂_iff_get.mpr ⟨by simp, ?_⟩,
      List.sublist_iff_exists_fin_orderEmbedding_get_eq.mpr ?_⟩
    · intro i hi _
      simpa using hP ⟨i, hi⟩
    · refine ⟨OrderEmbedding.ofStrictMono (fun i => f (i.cast (List.length_ofFn))) fun i j hij => hf hij, ?_⟩
      intro i
      rw [List.get_ofFn]
      rfl

namespace Check

variable {o : Oracle} {rules : Rules} {version : SigVersion} {code : Bytes}

/-- The signature is good for the key. -/
def Valid (o : Oracle) (rules : Rules) (version : SigVersion) (code sig key : Bytes) : Prop :=
  (ecdsa rules version code sig key).run o = .ok true

theorem sublistForall₂_tail {P : Bytes → Bytes → Prop} {sig : Bytes} {sigs keys : List Bytes}
    (h : List.SublistForall₂ P (sig :: sigs) keys) : List.SublistForall₂ P sigs keys := by
  obtain ⟨chosen, hP, hsub⟩ := List.sublistForall₂_iff.mp h
  cases hP with
  | @cons _ key _ chosen _ hP =>
    exact List.sublistForall₂_iff.mpr ⟨chosen, hP, (List.sublist_cons_self key chosen).trans hsub⟩

theorem length_le_of_sublistForall₂ {P : Bytes → Bytes → Prop} {sigs keys : List Bytes}
    (h : List.SublistForall₂ P sigs keys) : sigs.length ≤ keys.length := by
  obtain ⟨chosen, hP, hsub⟩ := List.sublistForall₂_iff.mp h
  exact hP.length_eq ▸ hsub.length_le

/-- The choice at one key: a signature that is good for it may as well take it, and one that is
    not must wait for a later key. -/
theorem sublistForall₂_cons_iff {P : Bytes → Bytes → Prop} {sig key : Bytes} {sigs keys : List Bytes} {good : Bool}
    (hgood : good = true ↔ P sig key) :
    List.SublistForall₂ P (sig :: sigs) (key :: keys) ↔
      List.SublistForall₂ P (if good then sigs else sig :: sigs) keys := by
  cases good with
  | true =>
    constructor
    · intro h
      cases h with
      | cons _ h => exact h
      | cons_right h => exact sublistForall₂_tail h
    · intro h
      exact .cons (hgood.mp rfl) h
  | false =>
    constructor
    · intro h
      cases h with
      | cons hP _ => cases hgood.mpr hP
      | cons_right h => exact h
    · intro h
      exact .cons_right h

/-- The search tries each key once and gives up early, and still finds the signatures in the
    order of their keys whenever they are. -/
theorem run_matching_eq_ok {keys sigs : List Bytes} {good : Bool}
    (h : (matching rules version code keys sigs).run o = .ok good) :
    good = true ↔ List.SublistForall₂ (Valid o rules version code) sigs keys := by
  fun_induction matching rules version code keys sigs with
  | case1 keys =>
    cases h
    exact ⟨fun _ => .nil, fun _ => rfl⟩
  | case2 sig sigs =>
    cases h
    exact ⟨nofun, nofun⟩
  | case3 key keys sig sigs ih =>
    obtain ⟨first, hfirst, h⟩ := Dialogue.run_bind_eq_ok.mp h
    have hvalid : first = true ↔ Valid o rules version code sig key := by
      rw [Valid, hfirst]
      simp
    rw [sublistForall₂_cons_iff hvalid]
    let left := if first then sigs else sig :: sigs
    have h : (if keys.length < left.length then pure false else matching rules version code keys left).run o =
      .ok good := h
    by_cases hfew : keys.length < left.length
    · rw [if_pos hfew] at h
      cases h
      exact ⟨nofun, fun hmatch => absurd (length_le_of_sublistForall₂ hmatch) (Nat.not_le_of_lt hfew)⟩
    · rw [if_neg hfew] at h
      exact ih first h

end Check

/-! ## Counters of one byte -/

/-- Why a check that counts in bytes stops. -/
inductive CounterFault where
  /-- A counter leaves its range. -/
  | wraps
  /-- There is no item where a counter points. -/
  | outOfRange
  | machine (e : MachineError)
  deriving DecidableEq

namespace Counted

def add (a b : UInt8) : Except CounterFault UInt8 :=
  if a.toNat + b.toNat < 256 then .ok (a + b) else .error .wraps

def sub (a b : UInt8) : Except CounterFault UInt8 := if b ≤ a then .ok (a - b) else .error .wraps

def item (stack : Stack) (i : UInt8) : Except CounterFault Bytes :=
  match stack[i.toNat]? with
  | some x => .ok x
  | none => .error .outOfRange

theorem toNat_add {a b : UInt8} (h : a.toNat + b.toNat < 256) : (a + b).toNat = a.toNat + b.toNat := by
  rw [UInt8.toNat_add, Nat.mod_eq_of_lt h]

theorem toNat_succ {k n : UInt8} (h : k < n) : (k + 1).toNat = k.toNat + 1 := by
  have hlt := UInt8.lt_iff_toNat_lt.mp h
  have hn := n.toNat_lt
  exact toNat_add (by simp only [UInt8.reduceToNat]; omega)

theorem toNat_pred {k : UInt8} (h : 0 < k) : (k - 1).toNat + 1 = k.toNat := by
  have hpos : 1 ≤ k.toNat := UInt8.lt_iff_toNat_lt.mp h
  rw [UInt8.toNat_sub_of_le k 1 (UInt8.le_iff_toNat_le.mpr hpos)]
  simp only [UInt8.reduceToNat]
  omega

/-- Where the operands of a check are, below the number of keys. -/
structure Counters where
  keysCount : UInt8
  sigsCount : UInt8
  /-- The items above the signatures. -/
  nonSigItems : UInt8
  /-- The first signature. -/
  isig : UInt8
  /-- The item behind the signatures. -/
  i : UInt8

/-- Reads the counts; gives the counters and what they point into. -/
def start (rules : Rules) (s : State) : Except CounterFault (Counters × Stack × State) := do
  let minimal := rules.has .minimalData
  let (n, stack) ← (s.stack.popNumber minimal).mapError .machine
  let keysCount ← (readCount .keyCount Item.maxKeys n).mapError .machine
  let keysCount := UInt8.ofNat keysCount
  let s ← (s.countOps keysCount.toNat).mapError .machine
  let i := keysCount
  let nonSigItems ← add keysCount 1
  let count ← (stack.get i.toNat).mapError .machine
  let m ← (Stack.number minimal Number.operandSize count).mapError .machine
  let sigsCount ← (readCount .sigCount keysCount.toNat m).mapError .machine
  let sigsCount := UInt8.ofNat sigsCount
  let i ← add i 1
  let isig := i
  let i ← add i sigsCount
  (stack.need (i.toNat + 1)).mapError .machine
  return (⟨keysCount, sigsCount, nonSigItems, isig, i⟩, stack, s)

/-- The script code without the signatures from number `k` on. -/
def deleteSigs (rules : Rules) (stack : Stack) (isig sigsCount k : UInt8) (code : Bytes) :
    Except CounterFault Bytes :=
  if k < sigsCount then do
    let sig ← item stack (← add isig k)
    let (code, found) := Script.findAndDelete (pushEncoding sig) code
    if 0 < found && rules.has .constScriptCode then .error (.machine .findAndDelete)
    else deleteSigs rules stack isig sigsCount (k + 1) code
  else .ok code
termination_by sigsCount.toNat - k.toNat
decreasing_by
  have hlt : k < sigsCount := by assumption
  have hsucc := toNat_succ hlt
  have hlt := UInt8.lt_iff_toNat_lt.mp hlt
  omega

/-- The script code that the check covers. -/
def coveredCode (rules : Rules) (script : Bytes) (context : Context) (stack : Stack) (c : Counters) :
    Except CounterFault Bytes :=
  let code := Check.scriptCode script context
  if context.version == .base then deleteSigs rules stack c.isig c.sigsCount 0 code else .ok code

/-- The position and the count behind an item, if it was used. -/
def next (used : Bool) (i count : UInt8) : Except CounterFault (UInt8 × UInt8) :=
  if used then do
    let i ← add i 1
    let count ← sub count 1
    return (i, count)
  else .ok (i, count)

/-- The search with a position and a count for the keys and for the signatures. -/
def walk (rules : Rules) (version : SigVersion) (code : Bytes) (stack : Stack)
    (ikey isig keysCount sigsCount : UInt8) : Dialogue CounterFault Bool :=
  if 0 < sigsCount then do
    let sig ← item stack isig
    let key ← item stack ikey
    let good ← (Check.ecdsa rules version code sig key).mapError .machine
    let (isig, sigsCount) ← next good isig sigsCount
    let ikey ← add ikey 1
    if h : 0 < keysCount then
      if keysCount - 1 < sigsCount then return false
      else walk rules version code stack ikey isig (keysCount - 1) sigsCount
    else .fail .wraps
  else return true
termination_by keysCount.toNat
decreasing_by
  have hpred := toNat_pred h
  omega

/-- A multisignature check as `evalCheckMultiSig` makes it, with counters. -/
def eval (rules : Rules) (script : Bytes) (verify : Bool) (s : State) : Dialogue CounterFault State := do
  if s.context.version == .tapscript then .fail (.machine .tapscriptCheckMultiSig)
  else
    let (c, stack, s) ← start rules s
    let code ← coveredCode rules script s.context stack c
    let good ← walk rules s.context.version code stack 0 c.isig c.keysCount c.sigsCount
    let sigs := (stack.take c.i.toNat).drop c.nonSigItems.toNat
    let dummy ← item stack c.i
    if !good && rules.has .nullFail && sigs.any (!·.isEmpty) then .fail (.machine .nullFail)
    else if rules.has .nullDummy && !dummy.isEmpty then .fail (.machine .nullDummy)
    else
      let done := conclude verify good { s with stack := stack.drop (c.i.toNat + 1) }
      done.mapError CounterFault.machine

/-! ## Where the counters point -/

theorem item_eq_ok {stack : Stack} {i : UInt8} {x : Bytes} {xs : List Bytes} (h : x :: xs <+: stack.drop i.toNat) :
    item stack i = .ok x := by
  obtain ⟨rest, hrest⟩ := h
  have hx : stack[i.toNat]? = some x := by
    rw [← List.head?_drop, ← hrest]
    rfl
  rw [item, hx]

/-- The items from a position on, as many as a count says, with room for the position to go
    past them. -/
structure Window (stack : Stack) (pos count : UInt8) (items : List Bytes) : Prop where
  length : count.toNat = items.length
  held : items <+: stack.drop pos.toNat
  fits : pos.toNat + items.length < 256

namespace Window

variable {stack : Stack} {pos count : UInt8} {x : Bytes} {xs : List Bytes}

theorem item_eq (h : Window stack pos count (x :: xs)) : item stack pos = .ok x := item_eq_ok h.held

theorem count_pos (h : Window stack pos count (x :: xs)) : 0 < count := by
  rw [UInt8.lt_iff_toNat_lt, h.length]
  exact Nat.succ_pos _

theorem not_count_pos (h : Window stack pos count []) : ¬ 0 < count := by
  rw [UInt8.lt_iff_toNat_lt, h.length]
  exact Nat.lt_irrefl 0

theorem toNat_pos (h : Window stack pos count (x :: xs)) : (pos + 1).toNat = pos.toNat + 1 := by
  have hfits := h.fits
  rw [List.length_cons] at hfits
  exact toNat_add (by simp only [UInt8.reduceToNat]; omega)

theorem add_eq (h : Window stack pos count (x :: xs)) : add pos 1 = .ok (pos + 1) := by
  have hfits := h.fits
  rw [List.length_cons] at hfits
  exact if_pos (by simp only [UInt8.reduceToNat]; omega)

theorem sub_eq (h : Window stack pos count (x :: xs)) : sub count 1 = .ok (count - 1) := by
  have hpos : 1 ≤ count.toNat := UInt8.lt_iff_toNat_lt.mp h.count_pos
  exact if_pos (show (1 : UInt8) ≤ count from UInt8.le_iff_toNat_le.mpr hpos)

theorem tail (h : Window stack pos count (x :: xs)) : Window stack (pos + 1) (count - 1) xs := by
  have hcount := h.length
  have hpred := toNat_pred h.count_pos
  have hfits := h.fits
  rw [List.length_cons] at hcount hfits
  refine ⟨by omega, ?_, by rw [h.toNat_pos]; omega⟩
  obtain ⟨rest, hrest⟩ := h.held
  rw [h.toNat_pos, ← List.tail_drop, ← hrest]
  exact ⟨rest, rfl⟩

end Window

section Equal

variable {rules : Rules} {stack : Stack} {version : SigVersion}

/-- The step from one turn of the search to the next. -/
theorem next_eq {isig sigsCount : UInt8} {sig : Bytes} {sigs : List Bytes} (good : Bool)
    (h : Window stack isig sigsCount (sig :: sigs)) :
    ∃ isig' sigsCount', next good isig sigsCount = .ok (isig', sigsCount') ∧
      Window stack isig' sigsCount' (if good then sigs else sig :: sigs) := by
  cases good with
  | true => exact ⟨_, _, by rw [next, if_pos rfl, h.add_eq, h.sub_eq]; rfl, h.tail⟩
  | false => exact ⟨_, _, rfl, h⟩

theorem walk_nil {code : Bytes} {ikey isig keysCount sigsCount : UInt8} (h : Window stack isig sigsCount [])
    (keys : List Bytes) :
    walk rules version code stack ikey isig keysCount sigsCount =
      (Check.matching rules version code keys []).mapError .machine := by
  rw [walk, if_neg h.not_count_pos, Check.matching]
  rfl

/-- The search by positions is the search on the lists. -/
theorem walk_eq {code : Bytes} {keys sigs : List Bytes} {ikey isig keysCount sigsCount : UInt8}
    (hkeys : Window stack ikey keysCount keys) (hsigs : Window stack isig sigsCount sigs)
    (hle : sigs.length ≤ keys.length) :
    walk rules version code stack ikey isig keysCount sigsCount =
      (Check.matching rules version code keys sigs).mapError .machine := by
  induction keys generalizing sigs ikey isig keysCount sigsCount with
  | nil =>
    cases sigs with
    | nil => exact walk_nil hsigs []
    | cons sig sigs => cases hle
  | cons key keys ih =>
    cases sigs with
    | nil => exact walk_nil hsigs (key :: keys)
    | cons sig sigs =>
      rw [walk, if_pos hsigs.count_pos, hsigs.item_eq, hkeys.item_eq, Dialogue.liftM_ok_bind, Dialogue.liftM_ok_bind,
        Check.matching, Dialogue.mapError_bind]
      congr 1
      funext good
      obtain ⟨isig', sigsCount', hnext, hsigs'⟩ := next_eq good hsigs
      rw [hnext, hkeys.add_eq, Dialogue.liftM_ok_bind]
      show _ >>= _ = _
      rw [Dialogue.liftM_ok_bind, dif_pos hkeys.count_pos]
      have hfew : keysCount - 1 < sigsCount' ↔ keys.length < (if good then sigs else sig :: sigs).length := by
        rw [UInt8.lt_iff_toNat_lt, hkeys.tail.length, hsigs'.length]
      by_cases hc : keys.length < (if good then sigs else sig :: sigs).length
      · rw [if_pos (hfew.mpr hc)]
        simp only [hc, if_true]
        rfl
      · rw [if_neg (mt hfew.mp hc), ih hkeys.tail hsigs' (Nat.le_of_not_lt hc)]
        simp only [hc, if_false]

/-- The signatures from number `k` on are deleted as their list is. -/
theorem deleteSigs_eq {sigs : List Bytes} {isig sigsCount k : UInt8} {code : Bytes}
    (hfits : isig.toNat + sigsCount.toNat < 256) (hcount : k.toNat + sigs.length = sigsCount.toNat)
    (hheld : sigs <+: stack.drop (isig.toNat + k.toNat)) :
    deleteSigs rules stack isig sigsCount k code =
      (Check.withoutSignatures rules code sigs).mapError .machine := by
  induction sigs generalizing k code with
  | nil =>
    have hend : ¬ k < sigsCount := by
      rw [UInt8.lt_iff_toNat_lt]
      rw [List.length_nil] at hcount
      omega
    rw [deleteSigs, if_neg hend]
    rfl
  | cons sig sigs ih =>
    rw [List.length_cons] at hcount
    have hlt : k < sigsCount := by
      rw [UInt8.lt_iff_toNat_lt]
      omega
    have hadd : add isig k = .ok (isig + k) := if_pos (by omega)
    have hpos : (isig + k).toNat = isig.toNat + k.toNat := toNat_add (by omega)
    have hitem : item stack (isig + k) = .ok sig := item_eq_ok (hpos ▸ hheld)
    rw [deleteSigs, if_pos hlt, hadd]
    show item stack (isig + k) >>= _ = _
    rw [hitem, Check.withoutSignatures]
    show (if (decide (0 < (Script.findAndDelete (pushEncoding sig) code).2) && rules.has .constScriptCode) = true
      then .error (.machine .findAndDelete)
      else deleteSigs rules stack isig sigsCount (k + 1) (Script.findAndDelete (pushEncoding sig) code).1) = _
    rcases Script.findAndDelete (pushEncoding sig) code with ⟨left, found⟩
    by_cases hfound : (decide (0 < found) && rules.has .constScriptCode) = true
    · simp only [hfound, if_true]
      rfl
    · have hsucc := toNat_succ hlt
      have hnext : sigs <+: stack.drop (isig.toNat + (k + 1).toNat) := by
        obtain ⟨rest, hrest⟩ := hheld
        rw [hsucc, ← Nat.add_assoc, ← List.tail_drop, ← hrest]
        exact ⟨rest, rfl⟩
      simp only [hfound]
      exact ih (by omega) hnext

/-- The code that a check covers, from the signatures where the counters point. -/
theorem coveredCode_eq {script : Bytes} {context : Context} {c : Counters} {sigs : List Bytes}
    (h : Window stack c.isig c.sigsCount sigs) :
    coveredCode rules script context stack c = (Check.coveredCode rules script context sigs).mapError .machine := by
  unfold coveredCode Check.coveredCode
  split
  · refine deleteSigs_eq ?_ ?_ h.held
    · rw [h.length]
      exact h.fits
    · rw [h.length]
      exact Nat.zero_add _
  · rfl

/-- The counters of given operands. -/
def Counters.of (m : MultiSig) : Counters where
  keysCount := UInt8.ofNat m.keys.length
  sigsCount := UInt8.ofNat m.sigs.length
  nonSigItems := UInt8.ofNat (m.keys.length + 1)
  isig := UInt8.ofNat (m.keys.length + 1)
  i := UInt8.ofNat (m.keys.length + 1 + m.sigs.length)

theorem toNat_ofNat {n : Nat} (h : n < 256) : (UInt8.ofNat n).toNat = n := by
  rw [UInt8.toNat_ofNat', Nat.mod_eq_of_lt h]

theorem add_ofNat {a b : Nat} (h : a + b < 256) : add (UInt8.ofNat a) (UInt8.ofNat b) = .ok (UInt8.ofNat (a + b)) := by
  have ha : (UInt8.ofNat a).toNat = a := toNat_ofNat (by omega)
  have hb : (UInt8.ofNat b).toNat = b := toNat_ofNat (by omega)
  rw [add, if_pos (by omega), UInt8.ofNat_add]

/-- A step that is taken alike on both sides. -/
theorem mapError_bind_eq {α β : Type} {x : Except MachineError α} {f : α → Except CounterFault β}
    {f' : α → Except MachineError β} (h : ∀ a, x = .ok a → f a = (f' a).mapError .machine) :
    x.mapError .machine >>= f = (x >>= f').mapError .machine := by
  cases x with
  | error e => rfl
  | ok a => exact h a rfl

/-- The counters are read with the operands, and never leave their range. -/
theorem start_eq (rules : Rules) (s : State) :
    start rules s =
      (takeMultiSig rules s >>= fun r => .ok (Counters.of r.1, s.stack.tail, r.2)).mapError .machine := by
  unfold start takeMultiSig
  simp only [bind_assoc]
  refine mapError_bind_eq fun r hn => ?_
  obtain ⟨n, stack⟩ := r
  obtain ⟨top, hstack, -⟩ := Stack.popNumber_eq_ok hn
  refine mapError_bind_eq fun keyCount hkeys => ?_
  have hmax : keyCount ≤ 20 := (readCount_eq_ok hkeys).2
  rw [toNat_ofNat (by omega)]
  refine mapError_bind_eq fun s₁ _ => ?_
  rw [show (1 : UInt8) = UInt8.ofNat 1 from rfl, add_ofNat (by omega), ok_bind]
  refine mapError_bind_eq fun count hcount => ?_
  refine mapError_bind_eq fun n' _ => ?_
  refine mapError_bind_eq fun sigCount hsigs => ?_
  have hle := (readCount_eq_ok hsigs).2
  rw [ok_bind, add_ofNat (by omega), ok_bind, toNat_ofNat (by omega)]
  refine mapError_bind_eq fun _ hneed => ?_
  have hlength : keyCount + 1 + sigCount + 1 ≤ stack.length := Stack.need_eq_ok hneed
  have hdummy : stack.get (keyCount + 1 + sigCount) = .ok stack[keyCount + 1 + sigCount] :=
    Stack.get_eq_ok.mpr (List.getElem?_eq_getElem _)
  have hk : (stack.take keyCount).length = keyCount := List.length_take_of_le (by omega)
  have hm : ((stack.drop (keyCount + 1)).take sigCount).length = sigCount :=
    List.length_take_of_le (by rw [List.length_drop]; omega)
  rw [hdummy, hstack]
  simp only [ok_bind, pure_bind, Counters.of, hk, hm]
  rfl

/-- The counters of operands point at them. -/
structure Counters.Fit (c : Counters) (stack : Stack) (m : MultiSig) : Prop where
  keys : Window stack 0 c.keysCount m.keys
  sigs : Window stack c.isig c.sigsCount m.sigs
  sigItems : (stack.take c.i.toNat).drop c.nonSigItems.toNat = m.sigs
  dummy : item stack c.i = .ok m.dummy
  rest : stack.drop (c.i.toNat + 1) = m.rest

theorem Counters.fit_of {m : MultiSig} {count : Bytes} {stack : Stack}
    (hstack : stack = m.keys ++ count :: (m.sigs ++ m.dummy :: m.rest)) (hle : m.sigs.length ≤ m.keys.length)
    (hmax : m.keys.length ≤ Item.maxKeys) : (Counters.of m).Fit stack m := by
  have hmax : m.keys.length ≤ 20 := hmax
  have hkeys : (Counters.of m).keysCount.toNat = m.keys.length := toNat_ofNat (by omega)
  have hsigs : (Counters.of m).sigsCount.toNat = m.sigs.length := toNat_ofNat (by omega)
  have hisig : (Counters.of m).isig.toNat = m.keys.length + 1 := toNat_ofNat (by omega)
  have hnon : (Counters.of m).nonSigItems.toNat = m.keys.length + 1 := toNat_ofNat (by omega)
  have hi : (Counters.of m).i.toNat = m.keys.length + 1 + m.sigs.length := toNat_ofNat (by omega)
  have hbehind : stack.drop (m.keys.length + 1) = m.sigs ++ m.dummy :: m.rest := by
    rw [hstack, List.append_cons, List.drop_left' (by simp)]
  have hlast : stack.drop (m.keys.length + 1 + m.sigs.length) = m.dummy :: m.rest := by
    rw [← List.drop_drop, hbehind, List.drop_left]
  constructor
  · exact ⟨hkeys, ⟨_, hstack.symm⟩, by simp only [UInt8.reduceToNat]; omega⟩
  · refine ⟨hsigs, ?_, by rw [hisig]; omega⟩
    rw [hisig, hbehind]
    exact List.prefix_append _ _
  · rw [hi, hnon, List.drop_take, hbehind, Nat.add_sub_cancel_left, List.take_left]
  · have hheld : [m.dummy] <+: stack.drop (Counters.of m).i.toNat := by
      rw [hi, hlast]
      exact ⟨m.rest, rfl⟩
    exact item_eq_ok hheld
  · rw [hi, ← List.tail_drop, hlast]
    rfl

/-- With counters of one byte the check does what it does without: no counter leaves its range,
    and none points past the stack. -/
theorem eval_eq (rules : Rules) (script : Bytes) (verify : Bool) (s : State) :
    eval rules script verify s = (evalCheckMultiSig rules script verify s).mapError .machine := by
  unfold eval evalCheckMultiSig
  split
  · rfl
  rw [start_eq]
  cases hm : takeMultiSig rules s with
  | error e => rfl
  | ok r =>
    obtain ⟨m, s₁⟩ := r
    obtain ⟨top, count, hstack, -, -, hle, hmax, -⟩ := takeMultiSig_stack hm
    have hfit : (Counters.of m).Fit s.stack.tail m := Counters.fit_of (by rw [hstack]; rfl) hle hmax
    rw [ok_bind]
    show (liftM (coveredCode rules script s₁.context s.stack.tail (Counters.of m)) >>= _) =
      Dialogue.mapError _ (liftM (Check.coveredCode rules script s₁.context m.sigs) >>= _)
    rw [coveredCode_eq hfit.sigs]
    cases Check.coveredCode rules script s₁.context m.sigs with
    | error e => rfl
    | ok code =>
      show (walk rules s₁.context.version code s.stack.tail 0 _ _ _ >>= _) =
        Dialogue.mapError _ (Check.matching rules s₁.context.version code m.keys m.sigs >>= _)
      rw [walk_eq hfit.keys hfit.sigs hle, Dialogue.mapError_bind]
      congr 1
      funext good
      rw [hfit.dummy, Dialogue.liftM_ok_bind, hfit.sigItems, hfit.rest]
      split
      · rfl
      · split
        · rfl
        · cases conclude verify good { s₁ with stack := m.rest } <;> rfl

end Equal

end Counted

/-! ## The whole check -/

section Decides

variable {o : Oracle} {rules : Rules} {script : Bytes} {s s' : State}

/-- What a check that gives a result has found. -/
theorem run_checkMultiSig_eq_ok (h : (Operation.checkMultiSig.eval rules script s).run o = .ok s') :
    ∃ m s₁ code good, takeMultiSig rules s = .ok (m, s₁) ∧
      Check.coveredCode rules script s₁.context m.sigs = .ok code ∧
      (Check.matching rules s₁.context.version code m.keys m.sigs).run o = .ok good ∧
      s' = { s₁ with stack := Number.ofBool good :: m.rest } := by
  have h : (evalCheckMultiSig rules script false s).run o = .ok s' := h
  unfold evalCheckMultiSig at h
  split at h
  · cases h
  obtain ⟨⟨m, s₁⟩, hm, h⟩ := Dialogue.run_bind_eq_ok.mp h
  obtain ⟨code, hcode, h⟩ := Dialogue.run_bind_eq_ok.mp h
  obtain ⟨good, hgood, h⟩ := Dialogue.run_bind_eq_ok.mp h
  rw [Dialogue.run_liftM] at hm hcode
  split at h
  · cases h
  split at h
  · cases h
  cases h
  exact ⟨m, s₁, code, good, hm, hcode, hgood, rfl⟩

/-- The operands are told by the stack they stand on. -/
theorem takeMultiSig_unique {m : MultiSig} (h : takeMultiSig rules s = .ok (m, s')) {top count dummy : Bytes}
    {keys sigs : List Bytes} {rest : Stack} (hstack : s.stack = top :: (keys ++ count :: (sigs ++ dummy :: rest)))
    (hkeys : Number.value top = keys.length) (hsigs : Number.value count = sigs.length) :
    m = ⟨keys, sigs, dummy, rest⟩ ∧ s.countOps keys.length = .ok s' := by
  obtain ⟨top', count', hstack', htop, hcount, -, -, hops⟩ := takeMultiSig_stack h
  rw [hstack, List.cons.injEq] at hstack'
  obtain ⟨rfl, hbelow⟩ := hstack'
  obtain ⟨hk, hbehind⟩ := List.append_inj hbelow (by omega)
  rw [List.cons.injEq] at hbehind
  obtain ⟨rfl, hbehind⟩ := hbehind
  obtain ⟨hm, hlast⟩ := List.append_inj hbehind (by omega)
  rw [List.cons.injEq] at hlast
  obtain ⟨hd, hr⟩ := hlast
  subst hk hm hd hr
  exact ⟨rfl, hops⟩

/-- A multisignature check decides whether the signatures belong to keys in the same order. A
    result comes with all operands taken off, and is true exactly when each signature can be
    given a key that it is good for, later signatures later keys. Counters of one byte are
    enough for it: with them it ends in the same way, whatever the stack, and so never with a
    counter that wraps or points past the stack. -/
theorem checkMultiSig_decides (o : Oracle) (rules : Rules) (script : Bytes) (s : State)
    (hversion : s.context.version = .base ∨ s.context.version = .witnessV0) {top count dummy : Bytes}
    {keys sigs : List Bytes} {rest : Stack} (hstack : s.stack = top :: (keys ++ count :: (sigs ++ dummy :: rest)))
    (hkeys : Number.value top = keys.length) (hsigs : Number.value count = sigs.length) :
    (∀ s', (Operation.checkMultiSig.eval rules script s).run o = .ok s' →
      ∃ code good, Check.coveredCode rules script s.context sigs = .ok code ∧
        s' = { s with
          opCount := s.opCount + keys.length
          stack := Number.ofBool good :: s.stack.drop (keys.length + sigs.length + 3) } ∧
        (good = true ↔ ∃ f : Fin sigs.length → Fin keys.length, StrictMono f ∧
          ∀ i, (Check.ecdsa rules s.context.version code (sigs.get i) (keys.get (f i))).run o = .ok true)) ∧
    Counted.eval rules script false s = (Operation.checkMultiSig.eval rules script s).mapError .machine ∧
    (Counted.eval rules script false s).run o ≠ .error .wraps ∧
    (Counted.eval rules script false s).run o ≠ .error .outOfRange := by
  have heq : Counted.eval rules script false s = (Operation.checkMultiSig.eval rules script s).mapError .machine :=
    Counted.eval_eq rules script false s
  refine ⟨fun s' h => ?_, heq, ?_, ?_⟩
  · obtain ⟨m, s₁, code, good, hm, hcode, hgood, rfl⟩ := run_checkMultiSig_eq_ok h
    obtain ⟨rfl, hops⟩ := takeMultiSig_unique hm hstack hkeys hsigs
    have hlimited : s.context.version.limited = true := by
      rcases hversion with hv | hv <;> rw [hv] <;> rfl
    have hrest : s.stack.drop (keys.length + sigs.length + 3) = rest := by
      have happ : s.stack = (top :: (keys ++ count :: (sigs ++ [dummy]))) ++ rest := by simp [hstack]
      rw [happ, List.drop_left' (by simp; omega)]
    obtain ⟨-, rfl⟩ := (State.countOps_limited hlimited).mp hops
    refine ⟨code, good, hcode, ?_, ?_⟩
    · rw [hrest]
    · rw [Check.run_matching_eq_ok hgood, sublistForall₂_iff_strictMono]
      rfl
  · rw [heq]
    intro h
    obtain ⟨e, -, he⟩ := Dialogue.run_mapError_eq_error.mp h
    cases he
  · rw [heq]
    intro h
    obtain ⟨e, -, he⟩ := Dialogue.run_mapError_eq_error.mp h
    cases he

/-- Says yes to the signatures of one key. -/
def Oracle.signedBy (key : Bytes) : Oracle
  | .ecdsa check => check.key == key
  | .schnorr _ => .error .schnorr
  | .lockTime _ => false
  | .sequence _ => false

/-- One signature for two keys, good for the second. -/
theorem checkMultiSig_decides_second :
    let sig : Bytes := [0x30, 0x06, 0x02, 0x01, 0x01, 0x02, 0x01, 0x01, 0x01]
    let keys : List Bytes := [[0x02], [0x03]]
    let s := State.start ([0x02] :: (keys ++ [0x01] :: ([sig] ++ [] :: [[0x05]]))) (Context.fresh .base)
    let o := Oracle.signedBy [0x03]
    (Operation.checkMultiSig.eval (Rules.ofList []) [0xae] s).run o =
        .ok { s with opCount := 2, stack := [[0x01], [0x05]] } ∧
      ∃ f : Fin 1 → Fin 2, StrictMono f ∧
        ∀ i, (Check.ecdsa (Rules.ofList []) .base [0xae] sig (keys.get (f i))).run o = .ok true := by
  intro sig keys s o
  have hrun : (Operation.checkMultiSig.eval (Rules.ofList []) [0xae] s).run o =
      .ok { s with opCount := 2, stack := [[0x01], [0x05]] } := by decide +kernel
  have hstack : s.stack = [0x02] :: (keys ++ [0x01] :: ([sig] ++ [] :: [[0x05]])) := rfl
  obtain ⟨hall, -⟩ := checkMultiSig_decides o (Rules.ofList []) [0xae] s (.inl rfl) hstack (by decide) (by decide)
  obtain ⟨code, good, hcode, hs, hgood⟩ := hall _ hrun
  have hcode' : Check.coveredCode (Rules.ofList []) [0xae] s.context [sig] = .ok [0xae] := by decide +kernel
  rw [hcode'] at hcode
  cases hcode
  have htrue : good = true := by
    cases good with
    | true => rfl
    | false => cases congrArg State.stack hs
  obtain ⟨f, hf, hvalid⟩ := hgood.mp htrue
  refine ⟨hrun, f, hf, fun i => ?_⟩
  fin_cases i
  exact hvalid 0

end Decides

end SpendScript

/-
  SpendScript.Proofs.Authored — scripts that were written here, against their bytes.

  A locking script written as opcodes is run as its bytes are. An unlocking script written
  as pushes is not quite: a push alone does not check the depth of the stack, and the
  same push met in a script does. The two come apart at the push that takes the stack over
  its limit, if one is reached at all (`Component.Overfull`):
  - `execute_pushes_of_not_overfills` / `execute_pushes_of_overfills`: the loops side by side.
  - `Spend.authored_eq_iff`: a spend ends for the written scripts as for their bytes
    exactly when the unlocking script is not overfull.
  - `Spend.authored_exceeds_depth`: a thousand and one pushes, which the chain refuses and
    the written scripts spend.
-/

import SpendScript.Proofs.Component
import SpendScript.Proofs.Machine
import SpendScript.Proofs.Spend

namespace SpendScript

/-! ## Written scripts spell their bytes -/

theorem Component.spells_opcode (c : Component Opcode) : c.Spells c.bytes := Script.items_encode c.ops

theorem Component.spells_push (c : Component Push) : c.Spells c.bytes := by
  have h := spells_opcode ⟨c.ops.map .push⟩
  unfold Spells bytes at h ⊢
  rw [List.flatMap_map, List.map_map] at h
  exact h

/-! ## Pushes with and without a limit -/

/-- With room for `room` more items, some push is one too many, and all pushes up to it are
    made. -/
def Overfills (rules : Rules) (room : Nat) (ops : List Push) : Prop :=
  room < ops.length ∧ ∀ p ∈ ops.take (room + 1), p.Allowed rules

theorem overfills_cons_zero {rules : Rules} {p : Push} {ops : List Push} :
    Overfills rules 0 (p :: ops) ↔ p.Allowed rules := by
  unfold Overfills
  simp

theorem overfills_cons_succ {rules : Rules} {room : Nat} {p : Push} {ops : List Push} :
    Overfills rules (room + 1) (p :: ops) ↔ p.Allowed rules ∧ Overfills rules room ops := by
  unfold Overfills
  simp only [List.length_cons, List.take_succ_cons, List.forall_mem_cons, Nat.add_lt_add_iff_right]
  exact and_left_comm

/-! ## One push -/

/-- The machine behind the push number `index`. -/
def State.pushed (index : Nat) (p : Push) (s : State) : State :=
  { s.reach index p.size with stack := p.value :: s.stack }

section Step

variable {rules : Rules} {script : Bytes} {index : Nat} {s : State} {p : Push}

theorem execute_bare_of_allowed (hp : p.Allowed rules) (xs : List (Except ScriptError Push)) :
    execute rules script index s (.ok p :: xs) = execute rules script (index + 1) (s.pushed index p) xs := by
  show (Dialogue.lift (p.eval rules (s.reach index p.size))).mapError _ >>= _ = _
  rw [Push.eval_of_allowed hp]
  rfl

theorem execute_bare_of_not_allowed (hp : ¬ p.Allowed rules) (xs : List (Except ScriptError Push)) :
    execute rules script index s (.ok p :: xs) =
      .fail (.machine (some (.good (.push p))) .minimalData) := by
  show (Dialogue.lift (p.eval rules (s.reach index p.size))).mapError _ >>= _ = _
  rw [Push.eval_of_not_allowed hp]
  rfl

theorem execute_item_eq (hb : s.branches = []) (xs : List (Except ScriptError Item)) :
    execute rules script index s (.ok (.good (.push p)) :: xs) =
      (Dialogue.lift (p.eval rules (s.reach index p.size) >>= State.checkDepth)).mapError
        (ScriptError.machine (some (.good (.push p)))) >>= fun s => execute rules script (index + 1) s xs := by
  have he : (s.reach index p.size).executing = true := State.executing_of_closed hb
  rw [← Item.eval_push he]
  rfl

theorem execute_item_of_not_allowed (hb : s.branches = []) (hp : ¬ p.Allowed rules)
    (xs : List (Except ScriptError Item)) :
    execute rules script index s (.ok (.good (.push p)) :: xs) =
      .fail (.machine (some (.good (.push p))) .minimalData) := by
  rw [execute_item_eq hb, Push.eval_of_not_allowed hp]
  rfl

theorem execute_item_of_room (hb : s.branches = []) (hp : p.Allowed rules)
    (hd : s.stack.length + s.alt.length < State.maxDepth) (xs : List (Except ScriptError Item)) :
    execute rules script index s (.ok (.good (.push p)) :: xs) =
      execute rules script (index + 1) (s.pushed index p) xs := by
  have hc : (s.pushed index p).checkDepth = .ok (s.pushed index p) := by
    refine State.checkDepth_eq_ok.mpr ⟨?_, rfl⟩
    show s.stack.length + 1 + s.alt.length ≤ State.maxDepth
    omega
  rw [execute_item_eq hb, Push.eval_of_allowed hp]
  show (Dialogue.lift (s.pushed index p).checkDepth).mapError _ >>= _ = _
  rw [hc]
  rfl

theorem execute_item_of_full (hb : s.branches = []) (hp : p.Allowed rules)
    (hd : s.stack.length + s.alt.length = State.maxDepth) (xs : List (Except ScriptError Item)) :
    execute rules script index s (.ok (.good (.push p)) :: xs) =
      .fail (.machine (some (.good (.push p))) .stackSize) := by
  have hc : (s.pushed index p).checkDepth = .error .stackSize := by
    unfold State.checkDepth
    rw [if_pos]
    show State.maxDepth < s.stack.length + 1 + s.alt.length
    omega
  rw [execute_item_eq hb, Push.eval_of_allowed hp]
  show (Dialogue.lift (s.pushed index p).checkDepth).mapError _ >>= _ = _
  rw [hc]
  rfl

end Step

/-! ## All pushes -/

section Run

variable {rules : Rules} {script : Bytes}

/-- As long as the limit is not met, it makes no difference that it is not checked. -/
theorem execute_pushes_of_not_overfills {ops : List Push} {room index : Nat} {s : State}
    (hb : s.branches = []) (hd : s.stack.length + s.alt.length + room = State.maxDepth)
    (h : ¬ Overfills rules room ops) :
    execute rules script index s (ops.map .ok) =
      execute rules script index s (ops.map fun p => .ok (Item.good (.push p))) := by
  induction ops generalizing room index s with
  | nil => rfl
  | cons p ops ih =>
    simp only [List.map_cons]
    by_cases hp : p.Allowed rules
    · cases room with
      | zero => exact absurd (overfills_cons_zero.mpr hp) h
      | succ room =>
        have hroom : (s.pushed index p).stack.length + s.alt.length + room = State.maxDepth := by
          show s.stack.length + 1 + s.alt.length + room = State.maxDepth
          omega
        rw [execute_bare_of_allowed hp, execute_item_of_room hb hp (by omega)]
        exact ih hb hroom fun ho => h (overfills_cons_succ.mpr ⟨hp, ho⟩)
    · rw [execute_bare_of_not_allowed hp, execute_item_of_not_allowed hb hp]

/-- A script fails at the push that is one too many. -/
theorem execute_pushes_of_overfills {ops : List Push} {room index : Nat} {s : State}
    (hb : s.branches = []) (hd : s.stack.length + s.alt.length + room = State.maxDepth)
    (h : Overfills rules room ops) :
    ∃ p, ops[room]? = some p ∧ execute rules script index s (ops.map fun p => .ok (Item.good (.push p))) =
      .fail (.machine (some (.good (.push p))) .stackSize) := by
  induction ops generalizing room index s with
  | nil => exact absurd h.1 (Nat.not_lt_zero room)
  | cons p ops ih =>
    simp only [List.map_cons]
    cases room with
    | zero =>
      rw [execute_item_of_full hb (overfills_cons_zero.mp h) hd]
      exact ⟨p, rfl, rfl⟩
    | succ room =>
      obtain ⟨hp, ho⟩ := overfills_cons_succ.mp h
      have hroom : (s.pushed index p).stack.length + s.alt.length + room = State.maxDepth := by
        show s.stack.length + 1 + s.alt.length + room = State.maxDepth
        omega
      rw [execute_item_of_room hb hp (by omega)]
      exact ih hb hroom ho

/-- Bare pushes fail for their form only. -/
theorem run_execute_pushes_eq_error {o : Oracle} {ops : List Push} {index : Nat} {s : State} {e : ScriptError}
    (h : (execute rules script index s (ops.map .ok)).run o = .error e) :
    ∃ p, e = .machine (some (.good (.push p))) .minimalData := by
  induction ops generalizing index s with
  | nil => cases h
  | cons p ops ih =>
    rw [List.map_cons] at h
    by_cases hp : p.Allowed rules
    · rw [execute_bare_of_allowed hp] at h
      exact ih h
    · rw [execute_bare_of_not_allowed hp] at h
      cases h
      exact ⟨p, rfl⟩

/-- Bare pushes that are allowed leave their values, the last one on top. -/
theorem execute_pushes_of_allowed {ops : List Push} {index : Nat} {s : State}
    (h : ∀ p ∈ ops, p.Allowed rules) :
    ∃ t : State, execute rules script index s (ops.map .ok) = .ret t ∧
      t.stack = (ops.map Push.value).reverse ++ s.stack ∧ t.branches = s.branches := by
  induction ops generalizing index s with
  | nil => exact ⟨s, rfl, rfl, rfl⟩
  | cons p ops ih =>
    rw [List.forall_mem_cons] at h
    obtain ⟨t, ht, hst, hbr⟩ := @ih (index + 1) (s.pushed index p) h.2
    refine ⟨t, ?_, ?_, hbr⟩
    · rw [List.map_cons, execute_bare_of_allowed h.1, ht]
    · rw [hst, List.map_cons, List.reverse_cons, List.append_assoc]
      rfl

end Run

/-! ## Unlocking scripts -/

namespace Component

variable {rules : Rules}

/-- As an unlocking script, it could be run but for its number of pushes. -/
def Overfull (rules : Rules) (c : Component Push) : Prop :=
  c.size ≤ Script.maxSize ∧ Overfills rules State.maxDepth c.ops

/-- The bytes of pushes, run as an unlocking script. -/
theorem eval_bytes_eq (c : Component Push) :
    Script.eval rules c.bytes [] (Context.fresh .base) =
      evalInstructions rules c.bytes c.size (c.ops.map fun p => .ok (Item.good (.push p))) []
        (Context.fresh .base) := by
  have hm : (Script.items c.bytes).map (·.mapError ScriptError.parse) =
      c.ops.map fun p => .ok (Item.good (.push p)) := by
    rw [c.spells_push, List.map_map]
    rfl
  unfold Script.eval
  rw [hm, bytes_length]

theorem checkScriptSize_of_lt {size : Nat} (h : Script.maxSize < size) :
    checkScriptSize .base size = .error (.scriptSize size) := by
  unfold checkScriptSize
  rw [if_pos]
  simpa [SigVersion.limited] using h

theorem checkScriptSize_of_le {version : SigVersion} {size : Nat} (h : size ≤ Script.maxSize) :
    checkScriptSize version size = .ok () := by
  unfold checkScriptSize
  rw [if_neg]
  simpa using fun _ => h

theorem eval_of_not_overfull {c : Component Push} (h : ¬ c.Overfull rules) :
    c.eval rules [] (Context.fresh .base) = Script.eval rules c.bytes [] (Context.fresh .base) := by
  rw [eval_bytes_eq]
  unfold Component.eval evalInstructions
  by_cases hs : c.size ≤ Script.maxSize
  · have ho : ¬ Overfills rules State.maxDepth c.ops := fun ho => h ⟨hs, ho⟩
    rw [execute_pushes_of_not_overfills rfl rfl ho]
  · have hc : checkScriptSize (Context.fresh .base).version c.size = .error (.scriptSize c.size) :=
      checkScriptSize_of_lt (by omega)
    rw [hc]
    rfl

theorem eval_bytes_of_overfull {c : Component Push} (h : c.Overfull rules) :
    ∃ p, c.ops[State.maxDepth]? = some p ∧ Script.eval rules c.bytes [] (Context.fresh .base) =
      .fail (.machine (some (.good (.push p))) .stackSize) := by
  have hroom : (State.start [] (Context.fresh .base)).stack.length
      + (State.start [] (Context.fresh .base)).alt.length + State.maxDepth = State.maxDepth := rfl
  obtain ⟨p, hp, he⟩ := execute_pushes_of_overfills rfl hroom h.2
  refine ⟨p, hp, ?_⟩
  rw [eval_bytes_eq]
  unfold evalInstructions
  rw [checkScriptSize_of_le h.1, he]
  rfl

theorem run_eval_pushes_ne_stackSize {o : Oracle} (c : Component Push) (stack : Stack) (context : Context)
    (item : Option Item) :
    (c.eval rules stack context).run o ≠ .error (.machine item .stackSize) := by
  intro h
  rcases Dialogue.run_bind_eq_error.mp h with h | ⟨_, -, h⟩
  · rw [Dialogue.run_liftM] at h
    unfold checkScriptSize at h
    split at h <;> cases h
  · rcases Dialogue.run_bind_eq_error.mp h with h | ⟨s, -, h⟩
    · obtain ⟨p, hp⟩ := run_execute_pushes_eq_error h
      cases hp
    · rw [Dialogue.run_liftM] at h
      unfold State.finish at h
      split at h <;> cases h

theorem eval_of_allowed {c : Component Push} (hs : c.size ≤ Script.maxSize)
    (h : ∀ p ∈ c.ops, p.Allowed rules) (stack : Stack) (context : Context) :
    c.eval rules stack context = .ret ((c.ops.map Push.value).reverse ++ stack) := by
  obtain ⟨t, ht, hst, hbr⟩ :=
    @execute_pushes_of_allowed rules c.bytes c.ops 0 (State.start stack context) h
  have hf : t.finish = .ok t.stack := by unfold State.finish; rw [hbr]; rfl
  unfold Component.eval evalInstructions
  rw [checkScriptSize_of_le hs, ht]
  show Dialogue.lift t.finish = _
  rw [hf, hst]
  rfl

/-- Pushes of one and nothing else. -/
def ones (n : Nat) : Component Push := ⟨List.replicate n (.small 0)⟩

theorem ones_size (n : Nat) : (ones n).size = n := by
  simp [ones, size, Instruction.toItem, Item.size, Opcode.size, Push.size]

theorem ones_allowed (n : Nat) (rules : Rules) (p : Push) (hp : p ∈ (ones n).ops) : p.Allowed rules := by
  rw [List.eq_of_mem_replicate hp]
  exact fun _ => rfl

theorem ones_overfull {n : Nat} (hlow : State.maxDepth < n) (hhigh : n ≤ Script.maxSize) (rules : Rules) :
    (ones n).Overfull rules := by
  refine ⟨?_, ?_, fun p hp => ones_allowed n rules p (List.mem_of_mem_take hp)⟩
  · rw [ones_size]
    exact hhigh
  · simpa [ones] using hlow

theorem eval_ones {n : Nat} (h : n ≤ Script.maxSize) (rules : Rules) (stack : Stack) (context : Context) :
    (ones n).eval rules stack context = .ret (List.replicate n [1] ++ stack) := by
  rw [eval_of_allowed (by rw [ones_size]; exact h) (ones_allowed n rules)]
  simp [ones, Push.value]

end Component

/-! ## Spends -/

namespace Spend

variable {o : Oracle} {rules : Rules} {sig : Component Push}

theorem run_eval_bytes_of_overfull (ho : sig.Overfull rules) (pubKey : Program) (witness : List Bytes) :
    ∃ p, sig.ops[State.maxDepth]? = some p ∧
      (eval rules (.ofScript sig.bytes) pubKey witness).run o =
        .error (.sig, .machine (some (.good (.push p))) .stackSize) := by
  obtain ⟨p, hp, he⟩ := Component.eval_bytes_of_overfull ho
  have hpush : Script.isPushOnly sig.bytes = true := by
    rw [← Component.isPushOnly_of_spells sig.spells_push]
    exact List.all_eq_true.mpr fun _ _ => rfl
  exact ⟨p, hp, run_eval_of_sig_error hpush (congrArg (Dialogue.run o) he)⟩

theorem eval_of_not_overfull (ho : ¬ sig.Overfull rules) (pubKey : Component Opcode) (witness : List Bytes) :
    eval rules (.ofComponent sig) (.ofComponent pubKey) witness =
      eval rules (.ofScript sig.bytes) (.ofScript pubKey.bytes) witness := by
  have hkey := Component.agrees_of_spells actsAsItem_opcode pubKey.spells_opcode
  exact eval_congr rfl sig.bytes_length.symm (Component.isPushOnly_of_spells sig.spells_push)
    (Component.eval_of_not_overfull ho) rfl hkey.size fun data => hkey.eval rules data _

/-- A spend of written scripts ends as one of their bytes, in its value or in the part and
    the error it fails with, exactly when its unlocking script is not overfull. -/
theorem authored_eq_iff (o : Oracle) (rules : Rules) (sig : Component Push) (pubKey : Component Opcode)
    (witness : List Bytes) :
    (eval rules (.ofComponent sig) (.ofComponent pubKey) witness).run o =
        (eval rules (.ofScript sig.bytes) (.ofScript pubKey.bytes) witness).run o ↔
      ¬ sig.Overfull rules := by
  constructor
  · intro heq ho
    -- the bytes fail at the push too many, and bare pushes never fail so
    obtain ⟨p, -, hraw⟩ := run_eval_bytes_of_overfull ho (.ofScript pubKey.bytes) witness
    rw [hraw] at heq
    rcases run_eval_eq_sig_error heq with h | h
    · exact sig.run_eval_pushes_ne_stackSize _ _ _ h
    · rcases h with h | h | h <;> cases h
  · intro ho
    rw [eval_of_not_overfull ho]

/-- A thousand and one pushes on an empty locking script: refused as bytes, a true spend as
    written. -/
theorem authored_exceeds_depth :
    (eval (Rules.ofList []) (.ofComponent (.ones 1001)) (.ofComponent (⟨[]⟩ : Component Opcode)) []).run
        Oracle.deny = .ok true ∧
      (eval (Rules.ofList []) (.ofScript (Component.ones 1001).bytes)
          (.ofScript (⟨[]⟩ : Component Opcode).bytes) []).run Oracle.deny =
        .error (.sig, .machine (some (.good (.push (.small 0)))) .stackSize) := by
  constructor
  · have hd := Component.eval_ones (show 1001 ≤ Script.maxSize by decide) (Rules.ofList []) []
      (Context.fresh .base)
    exact run_eval_eq_true.mpr
      ⟨fun h => absurd h (by decide), _, _, _, _, congrArg _ hd, rfl, rfl, rfl, rfl, rfl⟩
  · have ho := Component.ones_overfull (show State.maxDepth < 1001 by decide) (by decide) (Rules.ofList [])
    obtain ⟨p, hp, he⟩ := @run_eval_bytes_of_overfull Oracle.deny _ _ ho
      (.ofScript (⟨[]⟩ : Component Opcode).bytes) []
    rw [he, List.eq_of_mem_replicate (List.mem_of_getElem? hp)]

end Spend

end SpendScript

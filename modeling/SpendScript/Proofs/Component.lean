/-
  SpendScript.Proofs.Component — a script and the list of its instructions are run alike.

  `Script.eval` reads and runs in turn, `Component.eval` runs what was read before. Both
  come down to one loop over items, if an instruction acts as the item it stands for
  (`ActsAsItem`; a bare push does not, its depth is not checked):
  - `Component.eval_of_spells`: instructions that spell the items of a script are run as the
    script is, question by question.
  - `Script.eval_agrees_component`: in particular those that were read from it, which are
    also written as it was.
-/

import Mathlib
import SpendScript.Proofs.Dialogue
import SpendScript.Proofs.Reading
import SpendScript.Script.Program

namespace SpendScript

open Instruction (toItem ofItem)

/-- Instructions of this kind do what the items do that they stand for. -/
def ActsAsItem (ι : Type) [Instruction ι] : Prop :=
  ∀ (rules : Rules) (script : Bytes) (s : State) (i : ι),
    Instruction.eval rules script s i = Item.eval rules script s (toItem i)

/-- What an item is taken for stands for that item. -/
def RestoresItem (ι : Type) [Instruction ι] : Prop :=
  ∀ (item : Item) (i : ι), ofItem item = .ok i → toItem i = item

theorem actsAsItem_item : ActsAsItem Item := fun _ _ _ _ => rfl

theorem actsAsItem_opcode : ActsAsItem Opcode := fun _ _ _ _ => rfl

theorem restoresItem_item : RestoresItem Item := by
  intro item i h
  cases h
  rfl

theorem restoresItem_opcode : RestoresItem Opcode := by
  intro item i h
  cases item with
  | good op => cases h; rfl
  | bad b => cases h

/-! ## Lists that were read -/

theorem mapM_eq_ok {ε α β : Type} {f : α → Except ε β} {l : List α} {r : List β} (h : l.mapM f = .ok r) :
    l.map f = r.map .ok := by
  induction l generalizing r with
  | nil => cases h; rfl
  | cons x l ih =>
    rw [List.mapM_cons] at h
    obtain ⟨y, hy, h⟩ := bind_eq_ok.mp h
    obtain ⟨ys, hys, h⟩ := bind_eq_ok.mp h
    cases h
    rw [List.map_cons, hy, ih hys]
    rfl

theorem mapM_of_map_eq_ok {ε α β : Type} {f : α → Except ε β} {l : List α} {r : List β}
    (h : l.map f = r.map .ok) : l.mapM f = .ok r := by
  induction l generalizing r with
  | nil =>
    cases r with
    | nil => rfl
    | cons y r => cases h
  | cons x l ih =>
    cases r with
    | nil => cases h
    | cons y r =>
      simp only [List.map_cons, List.cons.injEq] at h
      rw [List.mapM_cons, h.1, ih h.2]
      rfl

/-- All items were read. -/
theorem Script.parse_eq_ok {s : Bytes} {l : List Item} :
    Script.parse s = .ok l ↔ Script.items s = l.map .ok := by
  unfold Script.parse
  constructor
  · intro h
    simpa using mapM_eq_ok h
  · intro h
    exact mapM_of_map_eq_ok (by simpa using h)

/-! ## Items and instructions in the loop -/

variable {ι : Type} [Instruction ι] {rules : Rules} {script : Bytes}

theorem execute_map_toItem (ha : ActsAsItem ι) (ops : List ι) (index : Nat) (s : State) :
    execute rules script index s (ops.map .ok) =
      execute rules script index s (ops.map fun i => .ok (toItem i)) := by
  induction ops generalizing index s with
  | nil => rfl
  | cons i ops ih =>
    simp only [List.map_cons, execute]
    congr 1
    · exact congrArg _ (ha rules script _ i)
    · funext s'
      exact ih (index + 1) s'

/-- A run to the end has met no instruction that is none. -/
theorem eq_map_ok_of_execute {o : Oracle} {xs : List (Except ScriptError ι)} {index : Nat} {s t : State}
    (h : (execute rules script index s xs).run o = .ok t) : ∃ ops : List ι, xs = ops.map .ok := by
  induction xs generalizing index s with
  | nil => exact ⟨[], rfl⟩
  | cons x xs ih =>
    cases x with
    | error e => cases h
    | ok i =>
      obtain ⟨s', -, h⟩ := Dialogue.run_bind_eq_ok.mp h
      obtain ⟨ops, rfl⟩ := ih h
      exact ⟨i :: ops, rfl⟩

theorem eq_map_ok_of_mapError {xs : List (Except ParseError Item)} {l : List Item}
    (h : xs.map (·.mapError ScriptError.parse) = l.map .ok) : xs = l.map .ok := by
  induction xs generalizing l with
  | nil =>
    cases l with
    | nil => rfl
    | cons i l => cases h
  | cons x xs ih =>
    cases l with
    | nil => cases h
    | cons i l =>
      simp only [List.map_cons, List.cons.injEq] at h
      cases x with
      | error e => cases h.1
      | ok j =>
        cases h.1
        rw [ih h.2]
        rfl

theorem eq_map_toItem_of_restrict (hr : RestoresItem ι) {xs : List (Except ParseError Item)} {ops : List ι}
    (h : (xs.map fun r => r.mapError ScriptError.parse >>= ofItem) = ops.map .ok) :
    xs = ops.map fun i => .ok (toItem i) := by
  induction xs generalizing ops with
  | nil =>
    cases ops with
    | nil => rfl
    | cons i ops => cases h
  | cons x xs ih =>
    cases ops with
    | nil => cases h
    | cons i ops =>
      simp only [List.map_cons, List.cons.injEq] at h
      obtain ⟨item, hx, hi⟩ := bind_eq_ok.mp h.1
      cases x with
      | error e => cases hx
      | ok j =>
        cases hx
        rw [ih h.2, List.map_cons, hr item i hi]

namespace Component

/-- The instructions spell the items of the script. -/
def Spells (c : Component ι) (s : Bytes) : Prop := Script.items s = c.ops.map fun i => .ok (toItem i)

theorem spells_of_parse (hr : RestoresItem ι) {s : Bytes} {c : Component ι} (h : parse s = .ok c) :
    c.Spells s := by
  obtain ⟨ops, hm, hc⟩ := bind_eq_ok.mp h
  cases hc
  exact eq_map_toItem_of_restrict hr (mapM_eq_ok hm)

theorem bytes_length (c : Component ι) : c.bytes.length = c.size := by
  simp only [bytes, size, List.length_flatMap, Item.encode_length]

theorem bytes_of_spells {s : Bytes} {c : Component ι} (h : c.Spells s) : c.bytes = s := by
  have hl : Script.items s = (c.ops.map toItem).map .ok := by rw [h, List.map_map]; rfl
  rw [← Script.flatMap_encode_of_items hl, List.flatMap_map]
  rfl

theorem isPushOnly_of_spells {s : Bytes} {c : Component ι} (h : c.Spells s) :
    c.isPushOnly = Script.isPushOnly s := by
  unfold isPushOnly Script.isPushOnly
  rw [h, List.all_map]
  rfl

/-- Instructions that spell a script are run as it is: the same questions are asked, and the
    same answers lead to the same end. -/
theorem eval_of_spells (ha : ActsAsItem ι) {s : Bytes} {c : Component ι} (h : c.Spells s)
    (rules : Rules) (stack : Stack) (context : Context) :
    c.eval rules stack context = Script.eval rules s stack context := by
  have hb := bytes_of_spells h
  have hm : (Script.items s).map (·.mapError ScriptError.parse) = c.ops.map fun i => .ok (toItem i) := by
    rw [h, List.map_map]
    rfl
  unfold Component.eval Script.eval evalInstructions
  rw [hm, hb, ← bytes_length, hb]
  simp only [execute_map_toItem ha]

/-- A component stands for a script in every respect. -/
structure Agrees (c : Component ι) (s : Bytes) : Prop where
  bytes : c.bytes = s
  size : c.size = s.length
  isPushOnly : c.isPushOnly = Script.isPushOnly s
  isPayToScriptHash : Script.isPayToScriptHash c.bytes = Script.isPayToScriptHash s
  eval (rules : Rules) (stack : Stack) (context : Context) :
    c.eval rules stack context = Script.eval rules s stack context

theorem agrees_of_spells (ha : ActsAsItem ι) {s : Bytes} {c : Component ι} (h : c.Spells s) :
    c.Agrees s := by
  have hb := bytes_of_spells h
  refine ⟨hb, ?_, isPushOnly_of_spells h, ?_, eval_of_spells ha h⟩
  · rw [← bytes_length, hb]
  · rw [hb]

end Component

/-- A script runs to its end exactly when all of it can be read and its items do. -/
theorem Script.run_eval_eq_ok {o : Oracle} {s : Bytes} {rules : Rules} {stack t : Stack} {context : Context} :
    (Script.eval rules s stack context).run o = .ok t ↔
      ∃ l, Script.parse s = .ok l ∧
        ((⟨l⟩ : Component Item).eval rules stack context).run o = .ok t := by
  constructor
  · intro h
    obtain ⟨_, -, h'⟩ := Dialogue.run_bind_eq_ok.mp h
    obtain ⟨s', hs, -⟩ := Dialogue.run_bind_eq_ok.mp h'
    obtain ⟨l, hl⟩ := eq_map_ok_of_execute hs
    have hl := eq_map_ok_of_mapError hl
    refine ⟨l, Script.parse_eq_ok.mpr hl, ?_⟩
    rw [Component.eval_of_spells actsAsItem_item hl]
    exact h
  · intro hx
    obtain ⟨l, hl, h⟩ := hx
    rw [Component.eval_of_spells actsAsItem_item (Script.parse_eq_ok.mp hl)] at h
    exact h

/-- To run a script, and to read it and run what was read, is the same; only in how they
    fail on a script that cannot be read may the two differ. -/
theorem Script.eval_agrees_component (s : Bytes) :
    (∀ (o : Oracle) (rules : Rules) (stack t : Stack) (context : Context),
      (Script.eval rules s stack context).run o = .ok t ↔
        ∃ l, Script.parse s = .ok l ∧
          ((⟨l⟩ : Component Item).eval rules stack context).run o = .ok t) ∧
    (∀ c : Component Item, Component.parse s = .ok c → c.Agrees s) ∧
    (∀ c : Component Opcode, Component.parse s = .ok c → c.Agrees s) := by
  refine ⟨fun _ _ _ _ _ => Script.run_eval_eq_ok, fun c h => ?_, fun c h => ?_⟩
  · exact Component.agrees_of_spells actsAsItem_item (Component.spells_of_parse restoresItem_item h)
  · exact Component.agrees_of_spells actsAsItem_opcode (Component.spells_of_parse restoresItem_opcode h)

/-- A one before a lock time check, as opcodes. -/
theorem Script.eval_agrees_component_lockTime :
    ∃ c : Component Opcode, Component.parse [0x51, 0xb1] = .ok c ∧ c.Agrees [0x51, 0xb1] := by
  have h : Component.parse [0x51, 0xb1] = .ok ⟨[Opcode.push (.small 0), .operation .checkLockTime]⟩ := by
    cbv
  exact ⟨_, h, (Script.eval_agrees_component [0x51, 0xb1]).2.2 _ h⟩

end SpendScript

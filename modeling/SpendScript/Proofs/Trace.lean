/-
  SpendScript.Proofs.Trace — runs with their stops.

  `trace` runs a script as `execute` does and keeps, for each item it comes by, the item and
  the machine in front of it (`Stop`). What a run did is told from its stops: which
  conditions it met, what it executed, how many keys it counted.
  - `execute_eq_trace` / `Script.eval_eq_trace`: a run is its trace without the stops, so
    each run has one (`converse_execute_eq_ok`, `Script.converse_eval_eq_ok`).
  - `trace_items` / `items_of_trace`: the stops are the items of the script, one after the other.
  - `yields_trace_cons`: the first step of a run and the rest of it.
  - `exchange_of_execute`: whatever is asked in a run is asked at one of its items.
  - `Script.yields_trace`: what a run to the end of a script comes to.
-/

import SpendScript.Proofs.Component

namespace SpendScript

/-- An item of a script, and the machine as it comes to it. -/
structure Stop where
  item : Item
  before : State

/-- Runs as `execute` does and keeps the stops. -/
def trace (rules : Rules) (script : Bytes) :
    (index : Nat) → State → List (Except ScriptError Item) → Dialogue ScriptError (List Stop × State)
  | _, s, [] => .ret ([], s)
  | _, _, .error e :: _ => .fail e
  | index, s, .ok item :: rest => do
    let before := s.reach index item.size
    let s' ← (item.eval rules script before).mapError (ScriptError.machine (some item))
    let (stops, t) ← trace rules script (index + 1) s' rest
    return (⟨item, before⟩ :: stops, t)

/-- A script run to its end, with the stops on the way. -/
def Script.trace (rules : Rules) (s : Bytes) (stack : Stack) (context : Context) :
    Dialogue ScriptError (List Stop × Stack) := do
  checkScriptSize context.version s.length
  let (stops, t) ← SpendScript.trace rules s 0 (State.start stack context)
    ((Script.items s).map (·.mapError ScriptError.parse))
  let stack ← t.finish
  return (stops, stack)

variable {rules : Rules} {script : Bytes} {σ : Type}

/-! ## A run is its trace without the stops -/

theorem execute_eq_trace (index : Nat) (s : State) (xs : List (Except ScriptError Item)) :
    execute rules script index s xs = trace rules script index s xs >>= fun r => pure r.2 := by
  induction xs generalizing index s with
  | nil => rfl
  | cons x xs ih =>
    cases x with
    | error e => rfl
    | ok item =>
      simp only [execute, trace, Dialogue.bind_assoc]
      congr 1
      funext s'
      rw [ih]
      rfl

theorem Script.eval_eq_trace (rules : Rules) (s : Bytes) (stack : Stack) (context : Context) :
    Script.eval rules s stack context = Script.trace rules s stack context >>= fun r => pure r.2 := by
  simp only [Script.eval, Script.trace, evalInstructions, execute_eq_trace, Dialogue.bind_assoc]
  congr 1
  funext _
  congr 1
  funext r
  show Dialogue.lift r.2.finish = Dialogue.lift r.2.finish >>= pure
  cases r.2.finish <;> rfl

theorem converse_execute_eq_ok {r : Responder σ} {w : σ} {index : Nat} {s t : State}
    {xs : List (Except ScriptError Item)}
    (h : ((execute rules script index s xs).converse r w).result = .ok t) :
    ∃ stops, ((trace rules script index s xs).converse r w).result = .ok (stops, t) := by
  rw [execute_eq_trace, Dialogue.result_converse_bind_pure] at h
  cases htrace : ((trace rules script index s xs).converse r w).result with
  | error e => rw [htrace] at h; cases h
  | ok run => rw [htrace] at h; cases h; exact ⟨run.1, rfl⟩

theorem Script.converse_eval_eq_ok {r : Responder σ} {w : σ} {s : Bytes} {stack out : Stack} {context : Context}
    (h : ((Script.eval rules s stack context).converse r w).result = .ok out) :
    ∃ stops, ((Script.trace rules s stack context).converse r w).result = .ok (stops, out) := by
  rw [Script.eval_eq_trace, Dialogue.result_converse_bind_pure] at h
  cases htrace : ((Script.trace rules s stack context).converse r w).result with
  | error e => rw [htrace] at h; cases h
  | ok run => rw [htrace] at h; cases h; exact ⟨run.1, rfl⟩

/-! ## Steps -/

theorem yields_trace_nil {index : Nat} {s t : State} {stops : List Stop}
    (h : (trace rules script index s []).Yields (stops, t)) : stops = [] ∧ t = s := by
  have h := Dialogue.yields_pure.mp h
  cases h
  exact ⟨rfl, rfl⟩

/-- The first step leaves a state that the rest of the run starts from. -/
theorem yields_trace_cons {index : Nat} {s t : State} {x : Except ScriptError Item}
    {xs : List (Except ScriptError Item)} {stops : List Stop}
    (h : (trace rules script index s (x :: xs)).Yields (stops, t)) :
    ∃ item s' rest, x = .ok item ∧ (item.eval rules script (s.reach index item.size)).Yields s' ∧
      (trace rules script (index + 1) s' xs).Yields (rest, t) ∧
      stops = ⟨item, s.reach index item.size⟩ :: rest := by
  cases x with
  | error e => exact absurd h Dialogue.not_yields_fail
  | ok item =>
    obtain ⟨s', hs, h⟩ := Dialogue.yields_bind.mp h
    obtain ⟨⟨rest, t'⟩, hrest, h⟩ := Dialogue.yields_bind.mp h
    have h := Dialogue.yields_pure.mp h
    cases h
    exact ⟨item, s', rest, rfl, Dialogue.yields_mapError.mp hs, hrest, rfl⟩

/-- A run stops at every item, and has met none that cannot be read. -/
theorem trace_items {index : Nat} {s t : State} {xs : List (Except ScriptError Item)} {stops : List Stop}
    (h : (trace rules script index s xs).Yields (stops, t)) : xs = stops.map fun x => .ok x.item := by
  induction xs generalizing index s stops with
  | nil =>
    obtain ⟨rfl, -⟩ := yields_trace_nil h
    rfl
  | cons x xs ih =>
    obtain ⟨item, s', rest, rfl, -, hrest, rfl⟩ := yields_trace_cons h
    rw [ih hrest]
    rfl

/-- The same of items as they are read. -/
theorem items_of_trace {index : Nat} {s t : State} {xs : List (Except ParseError Item)} {stops : List Stop}
    (h : (trace rules script index s (xs.map (·.mapError ScriptError.parse))).Yields (stops, t)) :
    xs = (stops.map Stop.item).map .ok := by
  refine eq_map_ok_of_mapError ?_
  rw [trace_items h, List.map_map]
  rfl

/-! ## Exchanges -/

section Exchanges

open Dialogue

variable {r : Responder σ} {w : σ}

/-- Whoever answers, the stops of a run are its first item and the stops behind it. -/
theorem converse_trace_cons {index : Nat} {s s' t : State} {item : Item} {xs : List (Except ScriptError Item)}
    {stops : List Stop} {w₁ w₂ : σ}
    (hresult : ((item.eval rules script (s.reach index item.size)).converse r w).result = .ok s')
    (hstate : ((item.eval rules script (s.reach index item.size)).converse r w).state = w₁)
    (hrest : ((trace rules script (index + 1) s' xs).converse r w₁).result = .ok (stops, t))
    (hend : ((trace rules script (index + 1) s' xs).converse r w₁).state = w₂) :
    ((trace rules script index s (.ok item :: xs)).converse r w).result =
        .ok (⟨item, s.reach index item.size⟩ :: stops, t) ∧
      ((trace rules script index s (.ok item :: xs)).converse r w).state = w₂ := by
  simp only [trace, converse_bind, converse_mapError, hresult, hstate, Except.mapError, hrest, hend]
  exact ⟨rfl, rfl⟩

/-- Each exchange of a run is made at one of its items. -/
theorem exchange_of_execute {index : Nat} {s : State} {xs : List (Except ScriptError Item)} {e : Exchange}
    (h : e ∈ ((execute rules script index s xs).converse r w).exchanges) :
    ∃ before item after stops t, xs = before ++ .ok item :: after ∧
      ((trace rules script index s before).converse r w).result = .ok (stops, t) ∧
      e ∈ ((item.eval rules script (t.reach (index + before.length) item.size)).converse r
        ((trace rules script index s before).converse r w).state).exchanges := by
  induction xs generalizing index s w with
  | nil => cases h
  | cons x xs ih =>
    cases x with
    | error err => cases h
    | ok item =>
      have h : e ∈ (((item.eval rules script (s.reach index item.size)).mapError (ScriptError.machine (some item))
          >>= fun s' => execute rules script (index + 1) s' xs).converse r w).exchanges := h
      rw [mem_exchanges_bind, converse_mapError] at h
      rcases h with h | ⟨s', hresult, h⟩
      · exact ⟨[], item, xs, [], s, rfl, rfl, h⟩
      · obtain ⟨before, item', after, stops, t, rfl, hrest, h⟩ := ih h
        obtain ⟨htrace, hstate⟩ := converse_trace_cons (mapError_eq_ok.mp hresult) rfl hrest rfl
        refine ⟨.ok item :: before, item', after, _, t, rfl, htrace, ?_⟩
        rw [hstate, List.length_cons, ← Nat.add_assoc, Nat.add_right_comm]
        exact h

end Exchanges

/-! ## The end of a script -/

theorem State.finish_eq_ok {s : State} {out : Stack} :
    s.finish = .ok out ↔ s.branches = [] ∧ out = s.stack := by
  unfold State.finish
  cases s.branches with
  | nil => simp [eq_comm]
  | cons b branches => simp

/-- A script that was run to its end was read to its end, and has closed its conditionals. -/
theorem Script.yields_trace {s : Bytes} {stack out : Stack} {context : Context} {stops : List Stop}
    (h : (Script.trace rules s stack context).Yields (stops, out)) :
    ∃ t : State, (SpendScript.trace rules s 0 (State.start stack context)
        ((Script.items s).map (·.mapError ScriptError.parse))).Yields (stops, t) ∧
      t.branches = [] ∧ out = t.stack ∧ Script.parse s = .ok (stops.map Stop.item) := by
  obtain ⟨_, -, h⟩ := Dialogue.yields_bind.mp h
  obtain ⟨⟨stops', t⟩, htrace, h⟩ := Dialogue.yields_bind.mp h
  obtain ⟨out', hfinish, h⟩ := Dialogue.yields_liftM_bind.mp h
  cases Dialogue.yields_pure.mp h
  obtain ⟨hclosed, hout⟩ := State.finish_eq_ok.mp hfinish
  exact ⟨t, htrace, hclosed, hout, Script.parse_eq_ok.mpr (items_of_trace htrace)⟩

end SpendScript

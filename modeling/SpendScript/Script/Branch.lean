/-
  SpendScript.Script.Branch — the ways through a script.

  Each conditional that is reached takes one of two ways. `decisions` follows both and
  builds a tree of them; its leaves, false before true, are the ways through the script,
  each with the items it comes by. Nothing is run: only the nesting of the conditionals and
  the two opcodes that fail in every branch can go wrong.
-/

import SpendScript.Script.Program

namespace SpendScript

inductive Tree (α : Type) where
  | leaf (a : α)
  | decision (onFalse onTrue : Tree α)

/-- The leaves, with false before true. -/
def Tree.leaves {α : Type} : Tree α → List α
  | .leaf a => [a]
  | .decision f t => f.leaves ++ t.leaves

/-- One way through a script. -/
structure Branch where
  /-- The condition of each conditional that is reached, in order. -/
  path : List Bool
  /-- All conditionals, and the other items that are reached. -/
  items : List Item

namespace Branch

/-- The items that are run, without the conditionals around them. -/
def executed (b : Branch) : List Item :=
  b.items.filter fun
    | .good (.control _) => false
    | _ => true

/-- The ways through the rest of a script. `path` and `seen` are in reverse; `taken` says of
    each open conditional, the innermost first, whether its branch is taken. -/
def explore (path : List Bool) (seen : List Item) (taken : List Bool) :
    List Item → Except ScriptError (Tree Branch)
  | [] =>
    match taken.length with
    | 0 => .ok (.leaf ⟨path.reverse, seen.reverse⟩)
    | n => .error (.unclosedConditional n)
  | item :: rest =>
    let unbalanced := ScriptError.machine (some item) .unbalancedConditional
    match item with
    | .good (.control c) =>
      match c with
      | .opIf | .opNotIf =>
        if taken.all id then do
          let flip := c == .opNotIf
          let f ← explore (false :: path) (item :: seen) ((false != flip) :: taken) rest
          let t ← explore (true :: path) (item :: seen) ((true != flip) :: taken) rest
          return .decision f t
        else explore path (item :: seen) (false :: taken) rest
      | .opElse =>
        match taken with
        | [] => .error unbalanced
        | b :: outer => explore path (item :: seen) ((!b) :: outer) rest
      | .opEndIf =>
        match taken with
        | [] => .error unbalanced
        | _ :: outer => explore path (item :: seen) outer rest
    | .bad b =>
      if b.isAlwaysReached then .error (.machine (some item) .badOpcode)
      else explore path (if taken.all id then item :: seen else seen) taken rest
    | _ => explore path (if taken.all id then item :: seen else seen) taken rest

/-- The tree of decisions of a script. -/
def decisions (s : Bytes) : Except ScriptError (Tree Branch) := do
  let items ← (Script.parse s).mapError ScriptError.parse
  explore [] [] [] items

/-- Every way through a script. -/
def all (s : Bytes) : Except ScriptError (List Branch) := (decisions s).map Tree.leaves

/-- The conditions of every way through a script. -/
def paths (s : Bytes) : Except ScriptError (List (List Bool)) := (all s).map (·.map Branch.path)

end Branch

end SpendScript

/-
  SpendScript.Dialogue — running scripts as a dialogue with whoever knows the transaction.

  A script cannot check a signature or a lock time by itself: it asks, and goes on from the
  answer. So a run is a tree of questions and reports that ends in a result or an error
  (`Dialogue`). It becomes a result once someone answers: an `Oracle`, whose answers depend
  on the question alone (`run`), or a `Responder` that keeps state and reports events
  (`converse`), whose exchanges are kept as a transcript.
  - `run_bind` / `run_mapError`: answering commutes with sequencing and with tagging errors.
  - `converse_bind`: so does conversing, the transcripts being joined.
-/

import SpendScript.Event

namespace SpendScript

/-! ## Questions -/

/-- Whether an ECDSA signature is good for a key and a script code. -/
structure EcdsaCheck where
  /-- The signature as it stood on the stack. -/
  item : Bytes
  sig : Decoded
  key : Bytes
  code : Bytes
  version : SigVersion
  deriving DecidableEq

structure SchnorrCheck where
  sig : Schnorr
  key : Block 32
  context : Context
  deriving DecidableEq

inductive Query where
  | ecdsa (check : EcdsaCheck)
  | schnorr (check : SchnorrCheck)
  /-- Whether an absolute lock time has been reached. -/
  | lockTime (n : Int)
  /-- Whether a relative lock time has passed. -/
  | sequence (n : Int)
  deriving DecidableEq

/-- A failed Schnorr check says why. -/
@[reducible] def Query.Answer : Query → Type
  | .ecdsa _ => Bool
  | .schnorr _ => Except SignatureError Unit
  | .lockTime _ => Bool
  | .sequence _ => Bool

/-! ## Dialogues -/

inductive Dialogue (ε α : Type) where
  | ret (a : α)
  | fail (e : ε)
  | note (event : Event) (next : Dialogue ε α)
  | ask (q : Query) (next : q.Answer → Dialogue ε α)

namespace Dialogue

variable {ε ε' α β : Type}

def bind : Dialogue ε α → (α → Dialogue ε β) → Dialogue ε β
  | .ret a, f => f a
  | .fail e, _ => .fail e
  | .note event d, f => .note event (d.bind f)
  | .ask q k, f => .ask q fun a => (k a).bind f

instance : Monad (Dialogue ε) where
  pure := .ret
  bind := bind

/-- A computation that asks nothing. -/
def lift : Except ε α → Dialogue ε α
  | .ok a => .ret a
  | .error e => .fail e

instance : MonadLift (Except ε) (Dialogue ε) := ⟨lift⟩

def report (event : Event) : Dialogue ε Unit := .note event (.ret ())

def query (q : Query) : Dialogue ε q.Answer := .ask q .ret

def mapError (f : ε → ε') : Dialogue ε α → Dialogue ε' α
  | .ret a => .ret a
  | .fail e => .fail (f e)
  | .note event d => .note event (d.mapError f)
  | .ask q k => .ask q fun a => (k a).mapError f

/-- The result with its error as a value. -/
def attempt : Dialogue ε α → Dialogue ε' (Except ε α)
  | .ret a => .ret (.ok a)
  | .fail e => .ret (.error e)
  | .note event d => .note event d.attempt
  | .ask q k => .ask q fun a => (k a).attempt

end Dialogue

/-! ## Answers that depend on the question alone -/

abbrev Oracle := (q : Query) → q.Answer

/-- Denies everything. -/
def Oracle.deny : Oracle
  | .ecdsa _ => false
  | .schnorr _ => .error .schnorr
  | .lockTime _ => false
  | .sequence _ => false

namespace Dialogue

variable {ε ε' α β : Type}

def run (o : Oracle) : Dialogue ε α → Except ε α
  | .ret a => .ok a
  | .fail e => .error e
  | .note _ d => d.run o
  | .ask q k => (k (o q)).run o

@[simp] theorem run_pure (o : Oracle) (a : α) : run o (pure a : Dialogue ε α) = .ok a := rfl

@[simp] theorem run_lift (o : Oracle) (x : Except ε α) : run o (lift x) = x := by
  cases x <;> rfl

@[simp] theorem run_bind (o : Oracle) (d : Dialogue ε α) (f : α → Dialogue ε β) :
    run o (d >>= f) = run o d >>= fun a => run o (f a) := by
  show run o (d.bind f) = _
  induction d with
  | ret a => rfl
  | fail e => rfl
  | note event d ih => exact ih
  | ask q k ih => exact ih (o q)

@[simp] theorem run_mapError (o : Oracle) (g : ε → ε') (d : Dialogue ε α) :
    run o (d.mapError g) = (run o d).mapError g := by
  induction d with
  | ret a => rfl
  | fail e => rfl
  | note event d ih => exact ih
  | ask q k ih => exact ih (o q)

@[simp] theorem run_attempt (o : Oracle) (d : Dialogue ε α) :
    run o (d.attempt : Dialogue ε' _) = .ok (run o d) := by
  induction d with
  | ret a => rfl
  | fail e => rfl
  | note event d ih => exact ih
  | ask q k ih => exact ih (o q)

end Dialogue

/-! ## Answers that depend on what came before -/

structure Reply (q : Query) (σ : Type) where
  answer : q.Answer
  events : List Event
  state : σ

/-- Answers each question from a state. -/
abbrev Responder (σ : Type) := (q : Query) → σ → Reply q σ

/-- A responder without a state. -/
def Oracle.responder (o : Oracle) : Responder Unit := fun q _ => ⟨o q, [], ()⟩

/-- One line of a transcript. -/
inductive Entry where
  | event (e : Event)
  | exchange (q : Query) (a : q.Answer)

structure Outcome (ε α σ : Type) where
  result : Except ε α
  state : σ
  transcript : List Entry

namespace Outcome

variable {ε α σ : Type}

def after (entries : List Entry) (o : Outcome ε α σ) : Outcome ε α σ :=
  { o with transcript := entries ++ o.transcript }

/-- The questions with their answers. -/
def exchanges (o : Outcome ε α σ) : List ((q : Query) × q.Answer) :=
  o.transcript.filterMap fun
    | .exchange q a => some ⟨q, a⟩
    | .event _ => none

def events (o : Outcome ε α σ) : List Event :=
  o.transcript.filterMap fun
    | .event e => some e
    | .exchange _ _ => none

end Outcome

namespace Dialogue

variable {ε α β σ : Type}

def converse (r : Responder σ) (s : σ) : Dialogue ε α → Outcome ε α σ
  | .ret a => ⟨.ok a, s, []⟩
  | .fail e => ⟨.error e, s, []⟩
  | .note event d => (d.converse r s).after [.event event]
  | .ask q k =>
    let reply := r q s
    ((k reply.answer).converse r reply.state).after
      (reply.events.map .event ++ [.exchange q reply.answer])

theorem converse_bind (r : Responder σ) (s : σ) (d : Dialogue ε α) (f : α → Dialogue ε β) :
    converse r s (d >>= f) =
      match (converse r s d).result with
      | .ok a => (converse r (converse r s d).state (f a)).after (converse r s d).transcript
      | .error e => ⟨.error e, (converse r s d).state, (converse r s d).transcript⟩ := by
  show converse r s (d.bind f) = _
  induction d generalizing s with
  | ret a => rfl
  | fail e => rfl
  | note event d ih =>
    simp only [bind, converse, ih, Outcome.after]
    split <;> simp
  | ask q k ih =>
    simp only [bind, converse, ih, Outcome.after]
    split <;> simp

end Dialogue

end SpendScript

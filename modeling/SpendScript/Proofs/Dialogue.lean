/-
  SpendScript.Proofs.Dialogue — what a dialogue can come to.

  A run that gives a result is taken apart at its sequencing points (`bind_eq_ok`,
  `run_bind_eq_ok`). Where the answers are not known, a dialogue has many courses: each is
  the list of its exchanges together with the result it ends in (`Course`). Every way to
  answer follows one of them (`converse_course`), so what holds of all courses holds
  whoever answers, with a state or without one.
  - `course_bind` / `course_mapError` / `course_liftM`: courses of composed dialogues.
  - `yields_bind` / `yields_mapError` / `yields_liftM`: the values they may end in.
  - `Costs`: a bound on the questions of one kind, together with what holds of the value;
    `Costs.bind` adds the bounds up.
  - `Keeps`: a dialogue whose questions and errors are within given terms as long as its
    answers are; `Keeps.of_converse` is what that says of a transcript, and `converse_congr`
    that who answers matters only for the questions within the terms. `Terms.asking` leaves
    all but the questions free.
  - `mem_exchanges_bind`: where in a composed dialogue an exchange is made.
-/

import SpendScript.Dialogue

namespace SpendScript

variable {ε ε' α β σ : Type}

theorem bind_eq_ok {x : Except ε α} {f : α → Except ε β} {b : β} :
    x >>= f = .ok b ↔ ∃ a, x = .ok a ∧ f a = .ok b := by
  constructor
  · intro h
    cases x with
    | error e => cases h
    | ok a => exact ⟨a, rfl, h⟩
  · intro hx
    obtain ⟨a, rfl, h⟩ := hx
    exact h

theorem ok_bind (a : α) (f : α → Except ε β) : (.ok a : Except ε α) >>= f = f a := rfl

theorem mapError_eq_ok {x : Except ε α} {g : ε → ε'} {a : α} :
    x.mapError g = .ok a ↔ x = .ok a := by
  cases x with
  | error e => exact ⟨fun h => (by cases h), fun h => (by cases h)⟩
  | ok b => exact ⟨fun h => (by cases h; rfl), fun h => (by cases h; rfl)⟩

/-- Every error it may end in is a `P`. -/
def FailsIn (x : Except ε α) (P : ε → Prop) : Prop := ∀ e, x = .error e → P e

theorem failsIn_ok {a : α} {P : ε → Prop} : FailsIn (.ok a) P := by
  intro e h
  cases h

theorem failsIn_error {e : ε} {P : ε → Prop} (h : P e) : FailsIn (.error e : Except ε α) P := by
  intro e' he
  cases he
  exact h

theorem FailsIn.bind {x : Except ε α} {f : α → Except ε β} {P : ε → Prop} (hx : FailsIn x P)
    (hf : ∀ a, FailsIn (f a) P) : FailsIn (x >>= f) P := by
  intro e h
  cases x with
  | error e' => cases h; exact hx e rfl
  | ok a => exact hf a e h

theorem FailsIn.mapError {x : Except ε α} {g : ε → ε'} {P : ε → Prop} {P' : ε' → Prop} (hx : FailsIn x P)
    (hg : ∀ e, P e → P' (g e)) : FailsIn (x.mapError g) P' := by
  intro e h
  cases x with
  | error e' => cases h; exact hg e' (hx e' rfl)
  | ok a => cases h

theorem FailsIn.map {x : Except ε α} {f : α → β} {P : ε → Prop} (hx : FailsIn x P) : FailsIn (x.map f) P := by
  intro e h
  cases x with
  | error e' => cases h; exact hx e rfl
  | ok a => cases h

namespace Dialogue

/-! ## Runs -/

@[simp] theorem run_liftM (o : Oracle) (x : Except ε α) : run o (liftM x : Dialogue ε α) = x :=
  run_lift o x

theorem run_bind_eq_ok {o : Oracle} {d : Dialogue ε α} {f : α → Dialogue ε β} {b : β} :
    run o (d >>= f) = .ok b ↔ ∃ a, run o d = .ok a ∧ run o (f a) = .ok b := by
  rw [run_bind, bind_eq_ok]

theorem run_bind_eq_error {o : Oracle} {d : Dialogue ε α} {f : α → Dialogue ε β} {e : ε} :
    run o (d >>= f) = .error e ↔
      run o d = .error e ∨ ∃ a, run o d = .ok a ∧ run o (f a) = .error e := by
  rw [run_bind]
  cases run o d with
  | error e' =>
    constructor
    · intro h; cases h; exact Or.inl rfl
    · intro hx
      rcases hx with h | ⟨a, h, -⟩
      · cases h; rfl
      · cases h
  | ok a =>
    constructor
    · intro h; exact Or.inr ⟨a, rfl, h⟩
    · intro hx
      rcases hx with h | ⟨a, h, hf⟩
      · cases h
      · cases h; exact hf

theorem run_mapError_eq_error {o : Oracle} {d : Dialogue ε α} {g : ε → ε'} {e : ε'} :
    run o (d.mapError g) = .error e ↔ ∃ e', run o d = .error e' ∧ g e' = e := by
  rw [run_mapError]
  cases run o d with
  | error e' =>
    constructor
    · intro h; cases h; exact ⟨e', rfl, rfl⟩
    · intro hx
      obtain ⟨e', h, rfl⟩ := hx
      cases h
      rfl
  | ok a =>
    constructor
    · intro h; cases h
    · intro hx
      obtain ⟨e', h, -⟩ := hx
      cases h

/-! ## Courses -/

abbrev Exchange := (q : Query) × q.Answer

/-- The exchanges that a dialogue may make before it ends in a result. -/
inductive Course : Dialogue ε α → List Exchange → Except ε α → Prop
  | ret (a : α) : Course (.ret a) [] (.ok a)
  | fail (e : ε) : Course (.fail e) [] (.error e)
  | note (event : Event) {d : Dialogue ε α} {xs : List Exchange} {r : Except ε α} :
      Course d xs r → Course (.note event d) xs r
  | ask (q : Query) (a : q.Answer) {k : q.Answer → Dialogue ε α} {xs : List Exchange} {r : Except ε α} :
      Course (k a) xs r → Course (.ask q k) (⟨q, a⟩ :: xs) r

theorem course_pure {a : α} {xs : List Exchange} {r : Except ε α} :
    Course (pure a : Dialogue ε α) xs r ↔ xs = [] ∧ r = .ok a := by
  constructor
  · intro h; cases h; exact ⟨rfl, rfl⟩
  · intro hx
    obtain ⟨rfl, rfl⟩ := hx
    exact .ret a

theorem course_fail {e : ε} {xs : List Exchange} {r : Except ε α} :
    Course (.fail e) xs r ↔ xs = [] ∧ r = .error e := by
  constructor
  · intro h; cases h; exact ⟨rfl, rfl⟩
  · intro hx
    obtain ⟨rfl, rfl⟩ := hx
    exact .fail e

theorem course_liftM {x : Except ε α} {xs : List Exchange} {r : Except ε α} :
    Course (liftM x : Dialogue ε α) xs r ↔ xs = [] ∧ r = x := by
  cases x with
  | ok a => exact course_pure
  | error e => exact course_fail

theorem course_query {q : Query} {xs : List Exchange} {r : Except ε q.Answer} :
    Course (query q) xs r ↔ ∃ a, xs = [⟨q, a⟩] ∧ r = .ok a := by
  constructor
  · intro h
    cases h with
    | ask _ a h => cases h; exact ⟨a, rfl, rfl⟩
  · intro hx
    obtain ⟨a, rfl, rfl⟩ := hx
    exact .ask q a (.ret a)

theorem course_report {event : Event} {xs : List Exchange} {r : Except ε Unit} :
    Course (report event) xs r ↔ xs = [] ∧ r = .ok () := by
  constructor
  · intro h
    cases h with
    | note _ h => cases h; exact ⟨rfl, rfl⟩
  · intro hx
    obtain ⟨rfl, rfl⟩ := hx
    exact .note event (.ret ())

/-- A course of two dialogues in a row: the first ends in a value and the second goes on
    from it, or the first fails. -/
theorem course_bind {d : Dialogue ε α} {f : α → Dialogue ε β} {xs : List Exchange} {r : Except ε β} :
    Course (d >>= f) xs r ↔
      (∃ a ys zs, Course d ys (.ok a) ∧ Course (f a) zs r ∧ xs = ys ++ zs) ∨
      ∃ e, Course d xs (.error e) ∧ r = .error e := by
  show Course (d.bind f) xs r ↔ _
  induction d generalizing xs with
  | ret a =>
    constructor
    · intro h; exact Or.inl ⟨a, [], xs, .ret a, h, rfl⟩
    · intro hx
      rcases hx with ⟨_, _, _, h, hf, rfl⟩ | ⟨_, h, _⟩
      · cases h; exact hf
      · cases h
  | fail e =>
    constructor
    · intro h; cases h; exact Or.inr ⟨e, .fail e, rfl⟩
    · intro hx
      rcases hx with ⟨_, _, _, h, _⟩ | ⟨_, h, rfl⟩
      · cases h
      · cases h; exact .fail e
  | note event d ih =>
    constructor
    · intro h
      cases h with
      | note _ h =>
        rcases ih.mp h with ⟨a, ys, zs, hd, hf, rfl⟩ | ⟨e, hd, rfl⟩
        · exact Or.inl ⟨a, ys, zs, .note event hd, hf, rfl⟩
        · exact Or.inr ⟨e, .note event hd, rfl⟩
    · intro hx
      rcases hx with ⟨a, ys, zs, h, hf, rfl⟩ | ⟨e, h, rfl⟩
      · cases h with
        | note _ h => exact .note event (ih.mpr (Or.inl ⟨a, ys, zs, h, hf, rfl⟩))
      · cases h with
        | note _ h => exact .note event (ih.mpr (Or.inr ⟨e, h, rfl⟩))
  | ask q k ih =>
    constructor
    · intro h
      cases h with
      | ask _ a h =>
        rcases (ih a).mp h with ⟨b, ys, zs, hd, hf, rfl⟩ | ⟨e, hd, rfl⟩
        · exact Or.inl ⟨b, ⟨q, a⟩ :: ys, zs, .ask q a hd, hf, rfl⟩
        · exact Or.inr ⟨e, .ask q a hd, rfl⟩
    · intro hx
      rcases hx with ⟨b, ys, zs, h, hf, rfl⟩ | ⟨e, h, rfl⟩
      · cases h with
        | ask _ a h => exact .ask q a ((ih a).mpr (Or.inl ⟨b, _, zs, h, hf, rfl⟩))
      · cases h with
        | ask _ a h => exact .ask q a ((ih a).mpr (Or.inr ⟨e, h, rfl⟩))

theorem course_mapError {d : Dialogue ε α} {g : ε → ε'} {xs : List Exchange} {r : Except ε' α} :
    Course (d.mapError g) xs r ↔ ∃ r', Course d xs r' ∧ r = r'.mapError g := by
  induction d generalizing xs with
  | ret a =>
    constructor
    · intro h; cases h; exact ⟨.ok a, .ret a, rfl⟩
    · intro hx
      obtain ⟨_, h, rfl⟩ := hx
      cases h
      exact .ret a
  | fail e =>
    constructor
    · intro h; cases h; exact ⟨.error e, .fail e, rfl⟩
    · intro hx
      obtain ⟨_, h, rfl⟩ := hx
      cases h
      exact .fail (g e)
  | note event d ih =>
    constructor
    · intro h
      cases h with
      | note _ h =>
        obtain ⟨r', h', rfl⟩ := ih.mp h
        exact ⟨r', .note event h', rfl⟩
    · intro hx
      obtain ⟨r', h, rfl⟩ := hx
      cases h with
      | note _ h => exact .note event (ih.mpr ⟨r', h, rfl⟩)
  | ask q k ih =>
    constructor
    · intro h
      cases h with
      | ask _ a h =>
        obtain ⟨r', h', rfl⟩ := (ih a).mp h
        exact ⟨r', .ask q a h', rfl⟩
    · intro hx
      obtain ⟨r', h, rfl⟩ := hx
      cases h with
      | ask _ a h => exact .ask q a ((ih a).mpr ⟨r', h, rfl⟩)

/-- What is reported before an exchange does not count as one. -/
theorem exchanges_after (events : List Event) (q : Query) (a : q.Answer) (o : Outcome ε α σ) :
    (o.after (events.map .event ++ [.exchange q a])).exchanges = ⟨q, a⟩ :: o.exchanges := by
  simp [Outcome.exchanges, Outcome.after, List.filterMap_append, List.filterMap_map]

/-- Whoever answers, the exchanges are those of a course, and it ends in the result. -/
theorem converse_course (r : Responder σ) (s : σ) (d : Dialogue ε α) :
    Course d (converse r s d).exchanges (converse r s d).result := by
  induction d generalizing s with
  | ret a => exact .ret a
  | fail e => exact .fail e
  | note event d ih => exact .note event (ih s)
  | ask q k ih =>
    have h := Course.ask q (r q s).answer (ih (r q s).answer (r q s).state)
    rw [← exchanges_after (r q s).events] at h
    exact h

/-- The answers in the exchanges are those that were given, in one state or another. -/
theorem answer_of_mem_exchanges {r : Responder σ} {s : σ} {d : Dialogue ε α} {x : Exchange}
    (h : x ∈ (converse r s d).exchanges) : ∃ s', x.2 = (r x.1 s').answer := by
  induction d generalizing s with
  | ret a | fail e => cases h
  | note event d ih => exact ih h
  | ask q k ih =>
    simp only [converse, exchanges_after, List.mem_cons] at h
    rcases h with rfl | h
    · exact ⟨s, rfl⟩
    · exact ih _ h

/-! ## Values -/

/-- With some answers, the dialogue ends in this value. -/
def Yields (d : Dialogue ε α) (a : α) : Prop := ∃ xs, Course d xs (.ok a)

theorem yields_pure {a b : α} : (pure a : Dialogue ε α).Yields b ↔ b = a := by
  constructor
  · intro hx
    obtain ⟨xs, h⟩ := hx
    cases h
    rfl
  · intro h
    rw [h]
    exact ⟨[], .ret a⟩

theorem not_yields_fail {e : ε} {a : α} : ¬ (.fail e : Dialogue ε α).Yields a := by
  intro hx
  obtain ⟨xs, h⟩ := hx
  cases h

theorem yields_liftM {x : Except ε α} {a : α} : (liftM x : Dialogue ε α).Yields a ↔ x = .ok a := by
  constructor
  · intro hx
    obtain ⟨xs, h⟩ := hx
    exact (course_liftM.mp h).2.symm
  · intro h
    exact ⟨[], course_liftM.mpr ⟨rfl, h.symm⟩⟩

theorem yields_bind {d : Dialogue ε α} {f : α → Dialogue ε β} {b : β} :
    (d >>= f).Yields b ↔ ∃ a, d.Yields a ∧ (f a).Yields b := by
  constructor
  · intro hx
    obtain ⟨xs, h⟩ := hx
    rcases course_bind.mp h with ⟨a, ys, zs, hd, hf, -⟩ | ⟨e, -, h⟩
    · exact ⟨a, ⟨ys, hd⟩, ⟨zs, hf⟩⟩
    · cases h
  · intro hx
    obtain ⟨a, ⟨ys, hd⟩, ⟨zs, hf⟩⟩ := hx
    exact ⟨ys ++ zs, course_bind.mpr (Or.inl ⟨a, ys, zs, hd, hf, rfl⟩)⟩

theorem yields_liftM_bind {x : Except ε α} {f : α → Dialogue ε β} {b : β} :
    ((liftM x : Dialogue ε α) >>= f).Yields b ↔ ∃ a, x = .ok a ∧ (f a).Yields b := by
  simp only [yields_bind, yields_liftM]

theorem yields_mapError {d : Dialogue ε α} {g : ε → ε'} {a : α} :
    (d.mapError g).Yields a ↔ d.Yields a := by
  constructor
  · intro hx
    obtain ⟨xs, h⟩ := hx
    obtain ⟨r, hc, hr⟩ := course_mapError.mp h
    cases r with
    | error e => cases hr
    | ok b => cases hr; exact ⟨xs, hc⟩
  · intro hx
    obtain ⟨xs, h⟩ := hx
    exact ⟨xs, course_mapError.mpr ⟨.ok a, h, rfl⟩⟩

/-- Whoever answers, a result is a value that the dialogue may end in. -/
theorem yields_of_converse {r : Responder σ} {s : σ} {d : Dialogue ε α} {a : α}
    (h : (converse r s d).result = .ok a) : d.Yields a :=
  ⟨(converse r s d).exchanges, h ▸ converse_course r s d⟩

/-! ## Sequencing -/

theorem bind_assoc {γ : Type} (d : Dialogue ε α) (f : α → Dialogue ε β) (g : β → Dialogue ε γ) :
    d >>= f >>= g = d >>= fun a => f a >>= g := by
  show (d.bind f).bind g = d.bind fun a => (f a).bind g
  induction d with
  | ret a => rfl
  | fail e => rfl
  | note event d ih => exact congrArg (Dialogue.note event) ih
  | ask q k ih => exact congrArg (Dialogue.ask q) (funext ih)

theorem liftM_ok_bind (a : α) (f : α → Dialogue ε β) :
    (liftM (.ok a : Except ε α) : Dialogue ε α) >>= f = f a := rfl

theorem mapError_bind {g : ε → ε'} (d : Dialogue ε α) (f : α → Dialogue ε β) :
    (d >>= f).mapError g = d.mapError g >>= fun a => (f a).mapError g := by
  show (d.bind f).mapError g = (d.mapError g).bind fun a => (f a).mapError g
  induction d with
  | ret a => rfl
  | fail e => rfl
  | note event d ih => exact congrArg (Dialogue.note event) ih
  | ask q k ih => exact congrArg (Dialogue.ask q) (funext ih)

/-- To go on without a question changes nothing but the value. -/
theorem result_converse_bind_pure (r : Responder σ) (s : σ) (d : Dialogue ε α) (f : α → β) :
    (converse r s (d >>= fun a => pure (f a))).result = (converse r s d).result.map f := by
  rw [converse_bind]
  cases (converse r s d).result <;> rfl

theorem result_converse_bind_eq_ok {r : Responder σ} {s : σ} {d : Dialogue ε α} {f : α → Dialogue ε β} {b : β} :
    (converse r s (d >>= f)).result = .ok b ↔
      ∃ a, (converse r s d).result = .ok a ∧ (converse r (converse r s d).state (f a)).result = .ok b := by
  rw [converse_bind]
  cases (converse r s d).result with
  | ok a => simp [Outcome.after]
  | error e => simp

/-- A dialogue that ends in a value is followed by what goes on from it, in the state it leaves. -/
theorem result_converse_bind_of_ok {r : Responder σ} {s : σ} {d : Dialogue ε α} {a : α}
    (h : (converse r s d).result = .ok a) (f : α → Dialogue ε β) :
    (converse r s (d >>= f)).result = (converse r (converse r s d).state (f a)).result := by
  rw [converse_bind, h]
  rfl

theorem result_converse_bind_of_error {r : Responder σ} {s : σ} {d : Dialogue ε α} {e : ε}
    (h : (converse r s d).result = .error e) (f : α → Dialogue ε β) :
    (converse r s (d >>= f)).result = .error e := by
  rw [converse_bind, h]

theorem result_converse_query_bind (r : Responder σ) (s : σ) (q : Query) (f : q.Answer → Dialogue ε β) :
    (converse r s (query q >>= f)).result = (converse r (r q s).state (f (r q s).answer)).result := rfl

theorem converse_liftM (r : Responder σ) (s : σ) (x : Except ε α) :
    converse r s (liftM x : Dialogue ε α) = ⟨x, s, []⟩ := by
  cases x <;> rfl

theorem converse_mapError (r : Responder σ) (s : σ) (g : ε → ε') (d : Dialogue ε α) :
    converse r s (d.mapError g) =
      ⟨(converse r s d).result.mapError g, (converse r s d).state, (converse r s d).transcript⟩ := by
  induction d generalizing s with
  | ret a => rfl
  | fail e => rfl
  | note event d ih => simp only [mapError, converse, ih, Outcome.after]
  | ask q k ih => simp only [mapError, converse, ih, Outcome.after]

theorem result_converse_mapError (r : Responder σ) (s : σ) (g : ε → ε') (d : Dialogue ε α) :
    (converse r s (d.mapError g)).result = (converse r s d).result.mapError g := by
  rw [converse_mapError]

/-- The exchanges of two dialogues in a row are those of the one and, if it ends in a value, those
    of the other. -/
theorem mem_exchanges_bind {r : Responder σ} {s : σ} {d : Dialogue ε α} {f : α → Dialogue ε β} {x : Exchange} :
    x ∈ (converse r s (d >>= f)).exchanges ↔
      x ∈ (converse r s d).exchanges ∨
        ∃ a, (converse r s d).result = .ok a ∧ x ∈ (converse r (converse r s d).state (f a)).exchanges := by
  rw [converse_bind]
  cases (converse r s d).result with
  | ok a => simp [Outcome.exchanges, Outcome.after, List.filterMap_append]
  | error e => simp [Outcome.exchanges]

theorem mem_exchanges_liftM_bind {r : Responder σ} {s : σ} {y : Except ε α} {f : α → Dialogue ε β} {x : Exchange} :
    x ∈ (converse r s ((liftM y : Dialogue ε α) >>= f)).exchanges ↔
      ∃ a, y = .ok a ∧ x ∈ (converse r s (f a)).exchanges := by
  rw [mem_exchanges_bind, converse_liftM]
  exact or_iff_right List.not_mem_nil

/-! ## Counting questions -/

/-- How many questions of a kind were asked. -/
def asked (kind : Query → Bool) (xs : List Exchange) : Nat := xs.countP fun x => kind x.1

/-- However it is answered, at most `n` questions of the kind are asked, and a value it ends
    in is a `post`. -/
def Costs (d : Dialogue ε α) (kind : Query → Bool) (n : Nat) (post : α → Prop) : Prop :=
  ∀ (xs : List Exchange) (r : Except ε α), Course d xs r → asked kind xs ≤ n ∧ ∀ a, r = .ok a → post a

section Costs

variable {kind : Query → Bool} {m n k : Nat} {post post' : α → Prop} {d : Dialogue ε α}

theorem Costs.mono (h : d.Costs kind m post) (hle : m ≤ n) (hpost : ∀ a, post a → post' a) :
    d.Costs kind n post' := by
  intro xs r hc
  obtain ⟨ha, hp⟩ := h xs r hc
  exact ⟨Nat.le_trans ha hle, fun a hr => hpost a (hp a hr)⟩

theorem costs_pure {a : α} (h : post a) : (pure a : Dialogue ε α).Costs kind n post := by
  intro xs r hc
  obtain ⟨rfl, rfl⟩ := course_pure.mp hc
  refine ⟨Nat.zero_le n, fun b hb => ?_⟩
  cases hb
  exact h

theorem costs_fail {e : ε} : (.fail e : Dialogue ε α).Costs kind n post := by
  intro xs r hc
  obtain ⟨rfl, rfl⟩ := course_fail.mp hc
  exact ⟨Nat.zero_le n, fun b hb => by cases hb⟩

theorem costs_liftM {x : Except ε α} (h : ∀ a, x = .ok a → post a) :
    (liftM x : Dialogue ε α).Costs kind n post := by
  intro xs r hc
  obtain ⟨rfl, rfl⟩ := course_liftM.mp hc
  exact ⟨Nat.zero_le n, h⟩

theorem costs_query {q : Query} : (query q : Dialogue ε q.Answer).Costs kind 1 fun _ => True := by
  intro xs r hc
  obtain ⟨a, rfl, rfl⟩ := course_query.mp hc
  exact ⟨List.countP_le_length, fun _ _ => trivial⟩

theorem costs_query_of_not {q : Query} (h : kind q = false) :
    (query q : Dialogue ε q.Answer).Costs kind n fun _ => True := by
  intro xs r hc
  obtain ⟨a, rfl, rfl⟩ := course_query.mp hc
  have ha : asked kind [⟨q, a⟩] = 0 := by simp [asked, h]
  exact ⟨by omega, fun _ _ => trivial⟩

theorem costs_report {event : Event} : (report event : Dialogue ε Unit).Costs kind n fun _ => True := by
  intro xs r hc
  obtain ⟨rfl, rfl⟩ := course_report.mp hc
  exact ⟨Nat.zero_le n, fun _ _ => trivial⟩

theorem Costs.note {event : Event} (h : d.Costs kind n post) : (.note event d : Dialogue ε α).Costs kind n post := by
  intro xs r hc
  cases hc with
  | note _ hc => exact h xs r hc

/-- The questions of two dialogues in a row add up. -/
theorem Costs.bind {f : α → Dialogue ε β} {post' : β → Prop} (h : d.Costs kind m post)
    (hf : ∀ a, post a → (f a).Costs kind n post') (hk : m + n ≤ k) : (d >>= f).Costs kind k post' := by
  intro xs r hc
  rcases course_bind.mp hc with ⟨a, ys, zs, hd, hfa, rfl⟩ | ⟨e, hd, rfl⟩
  · obtain ⟨hm, hp⟩ := h ys _ hd
    obtain ⟨hn, hp'⟩ := hf a (hp a rfl) zs r hfa
    refine ⟨?_, hp'⟩
    unfold asked at *
    rw [List.countP_append]
    omega
  · obtain ⟨hm, -⟩ := h xs _ hd
    exact ⟨by omega, fun _ hb => by cases hb⟩

theorem costs_liftM_bind {x : Except ε α} {f : α → Dialogue ε β} {post' : β → Prop}
    (hf : ∀ a, x = .ok a → (f a).Costs kind n post') : ((liftM x : Dialogue ε α) >>= f).Costs kind n post' :=
  (costs_liftM (n := 0) fun _ h => h).bind hf (by omega)

theorem Costs.mapError {g : ε → ε'} (h : d.Costs kind n post) : (d.mapError g).Costs kind n post := by
  intro xs r hc
  obtain ⟨r', hc', rfl⟩ := course_mapError.mp hc
  obtain ⟨ha, hp⟩ := h xs r' hc'
  refine ⟨ha, fun a hr => hp a ?_⟩
  cases r' with
  | error e => cases hr
  | ok b => cases hr; rfl

/-- What another bound says of the value. -/
theorem Costs.and_post (h : d.Costs kind n post) (h' : d.Costs kind m post') :
    d.Costs kind n fun a => post a ∧ post' a := by
  intro xs r hc
  obtain ⟨ha, hp⟩ := h xs r hc
  exact ⟨ha, fun a hr => ⟨hp a hr, (h' xs r hc).2 a hr⟩⟩

theorem Costs.of_eq_zero (h : d.Costs kind 0 post) : d.Costs kind n post := h.mono (Nat.zero_le n) fun _ hp => hp

/-- Whoever answers is asked no more than that. -/
theorem Costs.asked_le (h : d.Costs kind n post) (r : Responder σ) (s : σ) :
    asked kind (converse r s d).exchanges ≤ n :=
  (h _ _ (converse_course r s d)).1

end Costs

/-! ## Terms -/

/-- What may be said in a dialogue: the answers it gets, the questions it asks and the errors
    it ends in. -/
structure Terms (ε : Type) where
  answers : (q : Query) → q.Answer → Prop
  asks : Query → Prop
  fails : ε → Prop

/-- As long as the answers keep to the terms, so does the dialogue. -/
def Keeps (t : Terms ε) : Dialogue ε α → Prop
  | .ret _ => True
  | .fail e => t.fails e
  | .note _ d => d.Keeps t
  | .ask q k => t.asks q ∧ ∀ a, t.answers q a → (k a).Keeps t

section Keeps

variable {t : Terms ε} {t' : Terms ε'} {d : Dialogue ε α}

theorem keeps_pure (a : α) : (pure a : Dialogue ε α).Keeps t := trivial

theorem keeps_fail {e : ε} (h : t.fails e) : (.fail e : Dialogue ε α).Keeps t := h

theorem keeps_liftM {x : Except ε α} (h : FailsIn x t.fails) : (liftM x : Dialogue ε α).Keeps t := by
  cases x with
  | ok a => exact keeps_pure a
  | error e => exact h e rfl

theorem keeps_report {event : Event} : (report event : Dialogue ε Unit).Keeps t := trivial

/-- What follows may rely on what the first dialogue can end in. -/
theorem Keeps.bind {f : α → Dialogue ε β} (h : d.Keeps t) (hf : ∀ a, d.Yields a → (f a).Keeps t) :
    (d >>= f).Keeps t := by
  show (d.bind f).Keeps t
  induction d with
  | ret a => exact hf a ⟨[], .ret a⟩
  | fail e => exact h
  | note event d ih =>
    refine ih h fun a ha => hf a ?_
    obtain ⟨xs, hc⟩ := ha
    exact ⟨xs, .note event hc⟩
  | ask q k ih =>
    refine ⟨h.1, fun a ha => ih a (h.2 a ha) fun b hb => hf b ?_⟩
    obtain ⟨xs, hc⟩ := hb
    exact ⟨_, .ask q a hc⟩

theorem keeps_liftM_bind {x : Except ε α} {f : α → Dialogue ε β} (hx : FailsIn x t.fails)
    (hf : ∀ a, x = .ok a → (f a).Keeps t) : ((liftM x : Dialogue ε α) >>= f).Keeps t :=
  (keeps_liftM hx).bind fun a ha => hf a (yields_liftM.mp ha)

/-- What follows a question may rely on the answer. -/
theorem keeps_query_bind {q : Query} {f : q.Answer → Dialogue ε β} (hq : t.asks q)
    (hf : ∀ a, t.answers q a → (f a).Keeps t) : (query q >>= f).Keeps t := ⟨hq, hf⟩

theorem Keeps.mapError {g : ε → ε'} (h : d.Keeps t) (hanswers : ∀ q a, t'.answers q a → t.answers q a)
    (hasks : ∀ q, t.asks q → t'.asks q) (hfails : ∀ e, t.fails e → t'.fails (g e)) :
    (d.mapError g).Keeps t' := by
  induction d with
  | ret a => exact keeps_pure a
  | fail e => exact hfails e h
  | note event d ih => exact ih h
  | ask q k ih => exact ⟨hasks q h.1, fun a ha => ih a (h.2 a (hanswers q a ha))⟩

/-- An error that is a value is no failure. -/
theorem Keeps.attempt (h : d.Keeps t) (hanswers : ∀ q a, t'.answers q a → t.answers q a)
    (hasks : ∀ q, t.asks q → t'.asks q) : (d.attempt : Dialogue ε' _).Keeps t' := by
  induction d with
  | ret a => exact keeps_pure _
  | fail e => exact keeps_pure _
  | note event d ih => exact ih h
  | ask q k ih => exact ⟨hasks q h.1, fun a ha => ih a (h.2 a (hanswers q a ha))⟩

theorem Keeps.of_course (h : d.Keeps t) {xs : List Exchange} {r : Except ε α} (hc : Course d xs r)
    (hanswers : ∀ x ∈ xs, t.answers x.1 x.2) :
    (∀ x ∈ xs, t.asks x.1) ∧ ∀ e, r = .error e → t.fails e := by
  induction hc with
  | ret a =>
    constructor
    · intro x hx; cases hx
    · intro e he; cases he
  | fail e =>
    constructor
    · intro x hx; cases hx
    · intro e' he; cases he; exact h
  | note event _ ih => exact ih h hanswers
  | ask q a _ ih =>
    rw [List.forall_mem_cons] at hanswers ⊢
    obtain ⟨hasks, hfails⟩ := ih (h.2 a hanswers.1) hanswers.2
    exact ⟨⟨h.1, hasks⟩, hfails⟩

/-- What is never asked within the terms costs nothing. -/
theorem Keeps.costs {kind : Query → Bool} {n : Nat} (h : d.Keeps t) (hanswers : ∀ q a, t.answers q a)
    (hasks : ∀ q, t.asks q → kind q = false) : d.Costs kind n d.Yields := by
  intro xs r hc
  have hasked := (h.of_course hc fun x _ => hanswers x.1 x.2).1
  have hzero : asked kind xs = 0 :=
    List.countP_eq_zero.mpr fun x hx => by simp [hasks x.1 (hasked x hx)]
  refine ⟨by omega, fun a hr => ?_⟩
  rw [hr] at hc
  exact ⟨xs, hc⟩

/-- Whoever answers within the terms is asked within them, and the dialogue fails within
    them. -/
theorem Keeps.of_converse (h : d.Keeps t) (r : Responder σ) (s : σ)
    (hanswers : ∀ x ∈ (converse r s d).exchanges, t.answers x.1 x.2) :
    (∀ x ∈ (converse r s d).exchanges, t.asks x.1) ∧ ∀ e, (converse r s d).result = .error e → t.fails e :=
  h.of_course (converse_course r s d) hanswers

/-- Those who answer alike what may be asked have the same conversation. -/
theorem converse_congr {r r' : Responder σ} (h : d.Keeps t) (hanswers : ∀ q a, t.answers q a)
    (heq : ∀ q s, t.asks q → r q s = r' q s) (s : σ) : converse r s d = converse r' s d := by
  induction d generalizing s with
  | ret a => rfl
  | fail e => rfl
  | note event d ih => simp only [converse, ih h s]
  | ask q k ih => simp only [converse, heq q s h.1, ih _ (h.2 _ (hanswers q _))]

end Keeps

/-! ## Questions alone -/

/-- Nothing is said of answers and errors. -/
def Terms.asking (P : Query → Prop) : Terms ε := ⟨fun _ _ => True, P, fun _ => True⟩

section Asking

variable {P : Query → Prop}

theorem asking_fail (e : ε) : (.fail e : Dialogue ε α).Keeps (.asking P) := keeps_fail trivial

theorem asking_liftM (x : Except ε α) : (liftM x : Dialogue ε α).Keeps (.asking P) := keeps_liftM fun _ _ => trivial

theorem asking_liftM_bind {x : Except ε α} {f : α → Dialogue ε β} (hf : ∀ a, x = .ok a → (f a).Keeps (.asking P)) :
    ((liftM x : Dialogue ε α) >>= f).Keeps (.asking P) :=
  keeps_liftM_bind (fun _ _ => trivial) hf

theorem asking_query_bind {q : Query} {f : q.Answer → Dialogue ε β} (hq : P q) (hf : ∀ a, (f a).Keeps (.asking P)) :
    (query q >>= f).Keeps (.asking P) :=
  keeps_query_bind hq fun a _ => hf a

/-- Whoever answers is asked nothing else. -/
theorem Keeps.of_asking {d : Dialogue ε α} (h : d.Keeps (.asking P)) {r : Responder σ} {s : σ} {x : Exchange}
    (hx : x ∈ (converse r s d).exchanges) : P x.1 :=
  (h.of_converse r s fun _ _ => trivial).1 x hx

end Asking

end Dialogue

end SpendScript

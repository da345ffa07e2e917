/-
  QueryLoom/Proofs/Session/Notification.lean
  ==========================================
  **Every observer is told of every statement once, in order, and of nothing else.**  A session
  goes through calls: a query is compiled, or a recorder is cleared.

  What observers are told is not part of a run, since each may do with it what it likes.  So it is
  noted beside them: `noted` wraps every observer in one that also appends its number and the
  statement to a list.  A session does not look into the state it hands on, so it treats the
  wrapped observers as it treats the observers themselves.

    * `results_run` — the results are those of compiling each query on its own;
    * `run_noted` — what has been noted after a run, which is otherwise the same;
    * `run_complaining` — what observers complain of makes no difference.
-/
import QueryLoom.Session

namespace QueryLoom

/-- A use of a session: compiling a query, or clearing a recorder. -/
inductive Call (ι : Type) where
  | compile (q : Query)
  | clear (recorder : ι)

/-- The result of a call, if it has one. -/
def Call.result? {ι : Type} (caps : Capabilities) (placeholders : Placeholders) :
    Call ι → Option (Except CompileError Statement)
  | compile q => some (QueryLoom.compile caps placeholders q)
  | clear _ => none

namespace Session

variable {ι σ : Type}

/-- The results of calls, and the state after them. -/
def run (s : Session σ) (clear : ι → σ → σ) :
    List (Call ι) → σ → List (Except CompileError Statement) × σ
  | [], state => ([], state)
  | .compile q :: calls, state =>
    let outcome := s.compile q state
    let (results, state) := s.run clear calls outcome.state
    (outcome.result :: results, state)
  | .clear i :: calls, state => s.run clear calls (clear i state)

/-! ### One query -/

theorem result_compile (s : Session σ) (q : Query) (state : σ) :
    (s.compile q state).result = QueryLoom.compile s.caps s.config.placeholders q := by
  rw [compile]
  cases QueryLoom.compile s.caps s.config.placeholders q <;> rfl

theorem state_compile_of_error {s : Session σ} {q : Query} {e : CompileError}
    (h : QueryLoom.compile s.caps s.config.placeholders q = .error e) (state : σ) :
    (s.compile q state).state = state := by
  rw [compile, h]

theorem state_compile_of_ok {s : Session σ} {q : Query} {statement : Statement}
    (h : QueryLoom.compile s.caps s.config.placeholders q = .ok statement) (state : σ) :
    (s.compile q state).state = (notify statement.logged s.observers state).2 := by
  rw [compile, h]

/-! ### Results -/

/-- Neither observers nor their state have a part in the results. -/
theorem results_run (s : Session σ) (clear : ι → σ → σ) (calls : List (Call ι)) (state : σ) :
    (s.run clear calls state).1 =
      calls.filterMap (Call.result? s.caps s.config.placeholders) := by
  induction calls generalizing state with
  | nil => rfl
  | cons call calls ih =>
    cases call with
    | compile q =>
      rw [List.filterMap_cons, ← ih (s.compile q state).state, Call.result?,
        ← result_compile s q state]
      rfl
    | clear i =>
      rw [List.filterMap_cons, ← ih (clear i state)]
      rfl

/-! ### Notes -/

/-- A statement that the observer with a number was told of. -/
abbrev Note := Nat × LoggedStatement

/-- The observer that also notes under a number what it is told. -/
def noting (n : Nat) (o : Observer σ) : Observer (σ × List Note) := fun statement (state, notes) =>
  let (complaint?, state) := o statement state
  (complaint?, state, notes ++ [(n, statement)])

/-- The session whose observers, numbered as they are registered, note what they are told. -/
def noted (s : Session σ) : Session (σ × List Note) :=
  ⟨s.caps, s.config, s.observers.mapIdx noting⟩

/-- Clearing beside notes. -/
def clearBesideNotes (clear : ι → σ → σ) (i : ι) (state : σ × List Note) : σ × List Note :=
  (clear i state.1, state.2)

/-- What `count` observers are to be told when a query has this result. -/
def notes (count : Nat) : Except CompileError Statement → List Note
  | .ok st => (List.range count).map fun n => (n, ⟨st.text, st.bindings.map Binding.shown⟩)
  | .error _ => []

/-- The observers from number `first` on are told of a statement one after the other. -/
theorem notify_noting (statement : LoggedStatement) (os : List (Observer σ)) (first : Nat)
    (state : σ) (before : List Note) :
    (notify statement (os.mapIdx fun n => noting (first + n)) (state, before)).2 =
      ((notify statement os state).2,
        before ++ (List.range' first os.length).map fun n => (n, statement)) := by
  induction os generalizing first state before with
  | nil => simp [notify]
  | cons o os ih =>
    have hnumbers : (fun n => noting (σ := σ) (first + (n + 1))) =
        fun n => noting (first + 1 + n) := funext fun n => by rw [Nat.add_assoc, Nat.add_comm 1 n]
    rw [List.mapIdx_cons, hnumbers]
    simp only [notify, noting, ih, List.length_cons, List.range'_succ, List.map_cons, Nat.add_zero,
      List.append_assoc, List.singleton_append]

theorem result_compile_noted (s : Session σ) (q : Query) (state : σ) (before : List Note) :
    (s.noted.compile q (state, before)).result = (s.compile q state).result := by
  rw [result_compile, result_compile]
  rfl

theorem state_compile_noted (s : Session σ) (q : Query) (state : σ) (before : List Note) :
    (s.noted.compile q (state, before)).state =
      ((s.compile q state).state,
        before ++ notes s.observers.length (s.compile q state).result) := by
  rw [result_compile]
  cases h : QueryLoom.compile s.caps s.config.placeholders q with
  | error e =>
    rw [state_compile_of_error h, state_compile_of_error (s := s.noted) h, notes, List.append_nil]
  | ok st =>
    have hall := notify_noting st.logged s.observers 0 state before
    simp only [Nat.zero_add] at hall
    rw [state_compile_of_ok h, state_compile_of_ok (s := s.noted) h, notes, List.range_eq_range']
    exact hall

/-- The wrapped observers change nothing for the others, and note a statement each, in the order
    of their registration, for every result that is one. -/
theorem run_noted (s : Session σ) (clear : ι → σ → σ) (calls : List (Call ι)) (state : σ)
    (before : List Note) :
    s.noted.run (clearBesideNotes clear) calls (state, before) =
      ((s.run clear calls state).1, (s.run clear calls state).2,
        before ++ (s.run clear calls state).1.flatMap (notes s.observers.length)) := by
  induction calls generalizing state before with
  | nil => simp [run]
  | cons call calls ih =>
    cases call with
    | compile q =>
      simp only [run, result_compile_noted, state_compile_noted, ih, List.flatMap_cons,
        List.append_assoc]
    | clear i => simp only [run, clearBesideNotes, ih]

/-! ### Complaints -/

/-- The observer with other complaints, which does as before. -/
def complainingOf (complaint? : LoggedStatement → σ → Option String) (o : Observer σ) :
    Observer σ :=
  fun statement state => (complaint? statement state, (o statement state).2)

/-- The session whose observers, numbered as they are registered, have other complaints. -/
def complaining (s : Session σ) (complaint? : Nat → LoggedStatement → σ → Option String) :
    Session σ :=
  ⟨s.caps, s.config, s.observers.mapIdx fun n => complainingOf (complaint? n)⟩

theorem notify_complaining (statement : LoggedStatement) (os : List (Observer σ))
    (complaint? : Nat → LoggedStatement → σ → Option String) (state : σ) :
    (notify statement (os.mapIdx fun n => complainingOf (complaint? n)) state).2 =
      (notify statement os state).2 := by
  induction os generalizing complaint? state with
  | nil => rfl
  | cons o os ih =>
    rw [List.mapIdx_cons, notify, notify]
    exact ih (fun n => complaint? (n + 1)) (o statement state).2

theorem result_compile_complaining (s : Session σ)
    (complaint? : Nat → LoggedStatement → σ → Option String) (q : Query) (state : σ) :
    ((s.complaining complaint?).compile q state).result = (s.compile q state).result := by
  rw [result_compile, result_compile]
  rfl

theorem state_compile_complaining (s : Session σ)
    (complaint? : Nat → LoggedStatement → σ → Option String) (q : Query) (state : σ) :
    ((s.complaining complaint?).compile q state).state = (s.compile q state).state := by
  cases h : QueryLoom.compile s.caps s.config.placeholders q with
  | error e =>
    rw [state_compile_of_error h, state_compile_of_error (s := s.complaining complaint?) h]
  | ok st =>
    rw [state_compile_of_ok h, state_compile_of_ok (s := s.complaining complaint?) h]
    exact notify_complaining st.logged s.observers complaint? state

/-- Results and states do not depend on what observers complain of. -/
theorem run_complaining (s : Session σ) (complaint? : Nat → LoggedStatement → σ → Option String)
    (clear : ι → σ → σ) (calls : List (Call ι)) (state : σ) :
    (s.complaining complaint?).run clear calls state = s.run clear calls state := by
  induction calls generalizing state with
  | nil => rfl
  | cons call calls ih =>
    cases call with
    | compile q => simp only [run, result_compile_complaining, state_compile_complaining, ih]
    | clear i => simp only [run, ih]

end Session

end QueryLoom

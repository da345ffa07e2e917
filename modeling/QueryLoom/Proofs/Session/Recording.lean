/-
  QueryLoom/Proofs/Session/Recording.lean
  =======================================
  **A recorder holds the last statement since it was last cleared.**  What is registered with a
  session is a recorder, or an observer that may look at all there is, may complain, and changes
  only what is not a recorder.

  For one recorder most calls pass it by: a query that fails, and the clearing of another recorder.
  A call that touches it settles what it holds, whatever it held before, so after a run it holds
  what the last such call left there (`recorders_run`).
-/
import Mathlib.Logic.Function.Basic
import QueryLoom.Proofs.Session.Notification

namespace QueryLoom

variable {ι τ : Type}

/-- What observers share: the recorders, and everything else. -/
structure World (ι τ : Type) where
  recorders : ι → Recorder
  rest : τ

/-- The world before any call, with nothing recorded. -/
def World.initial (rest : τ) : World ι τ := ⟨fun _ => {}, rest⟩

/-- An observer as it is registered. -/
inductive Registered (ι τ : Type) where
  | recorder (i : ι)
  /-- An observer that only changes what it has of its own. -/
  | watcher (watch : LoggedStatement → World ι τ → Option String × τ)

variable [DecidableEq ι]

/-- The world with another recorder in the place of one. -/
def World.withRecorder (i : ι) (r : Recorder) (w : World ι τ) : World ι τ :=
  { w with recorders := Function.update w.recorders i r }

/-- The world with a recorder cleared. -/
def World.clear (i : ι) (w : World ι τ) : World ι τ := w.withRecorder i (w.recorders i).clear

/-- What a session calls. -/
def Registered.observer : Registered ι τ → Observer (World ι τ)
  | recorder i => Recorder.observer (fun w => w.recorders i) (World.withRecorder i)
  | watcher watch => fun statement w =>
    let (complaint?, rest) := watch statement w
    (complaint?, { w with rest })

namespace Session

/-- The session with everything registered that is listed, in its order. -/
def registering (caps : Capabilities) (config : Config) (registered : List (Registered ι τ)) :
    Session (World ι τ) :=
  registered.foldl (fun s r => s.observe r.observer) { caps, config }

theorem registering_eq (caps : Capabilities) (config : Config)
    (registered : List (Registered ι τ)) :
    registering caps config registered =
      ⟨caps, config, registered.map Registered.observer⟩ := by
  have hfold : ∀ s : Session (World ι τ), registered.foldl (fun s r => s.observe r.observer) s =
      { s with observers := s.observers ++ registered.map Registered.observer } := by
    induction registered with
    | nil => simp
    | cons r rest ih =>
      intro s
      rw [List.foldl_cons, ih]
      simp [observe]
  exact hfold { caps, config }

/-! ### One statement -/

theorem recorders_observer (r : Registered ι τ) (statement : LoggedStatement) (w : World ι τ)
    (i : ι) : (r.observer statement w).2.recorders i = ⟨some statement⟩ ∨
      (r.observer statement w).2.recorders i = w.recorders i ∧ r ≠ .recorder i := by
  cases r with
  | recorder j =>
    by_cases hij : i = j
    · rw [hij]
      exact .inl (Function.update_self ..)
    · exact .inr ⟨Function.update_of_ne hij .., by rintro ⟨⟩; exact hij rfl⟩
  | watcher watch => exact .inr ⟨rfl, by rintro ⟨⟩⟩

/-- A recorder that is registered holds a statement once all have been told of it.  It may be
    registered anywhere, more than once, and others may come after it. -/
theorem recorders_notify (statement : LoggedStatement) (i : ι) (registered : List (Registered ι τ))
    (w : World ι τ) (h : .recorder i ∈ registered ∨ w.recorders i = ⟨some statement⟩) :
    (notify statement (registered.map Registered.observer) w).2.recorders i =
      ⟨some statement⟩ := by
  induction registered generalizing w with
  | nil => exact h.resolve_left (List.not_mem_nil)
  | cons r rest ih =>
    refine ih (r.observer statement w).2 ?_
    rcases recorders_observer r statement w i with hholds | ⟨hkeeps, hr⟩
    · exact .inr hholds
    · rw [hkeeps]
      exact h.imp_left fun hi => (List.mem_cons.mp hi).resolve_left hr.symm

/-! ### Runs -/

/-- What a call leaves in a recorder, if it touches it. -/
def touch? (caps : Capabilities) (placeholders : Placeholders) (i : ι) : Call ι → Option Recorder
  | .compile q =>
    match QueryLoom.compile caps placeholders q with
    | .ok st => some ⟨some st.logged⟩
    | .error _ => none
  | .clear j => if j = i then some ⟨none⟩ else none

/-- A query leaves in a recorder what it has for it, or what was there. -/
theorem recorders_compile (caps : Capabilities) (config : Config)
    {registered : List (Registered ι τ)} {i : ι} (hi : .recorder i ∈ registered) (q : Query)
    (w : World ι τ) :
    ((registering caps config registered).compile q w).state.recorders i =
      (touch? caps config.placeholders i (.compile q)).getD (w.recorders i) := by
  rw [registering_eq, touch?]
  cases h : QueryLoom.compile caps config.placeholders q with
  | error e => rw [state_compile_of_error (s := ⟨caps, config, _⟩) h, Option.getD_none]
  | ok st =>
    rw [state_compile_of_ok (s := ⟨caps, config, _⟩) h, Option.getD_some]
    exact recorders_notify st.logged i registered w (.inl hi)

theorem recorders_clear (caps : Capabilities) (placeholders : Placeholders) (i j : ι)
    (w : World ι τ) :
    (w.clear j).recorders i = (touch? caps placeholders i (.clear j)).getD (w.recorders i) := by
  rw [touch?]
  by_cases hij : j = i
  · rw [if_pos hij, hij]
    exact Function.update_self ..
  · rw [if_neg hij]
    exact Function.update_of_ne (Ne.symm hij) ..

/-- The last call that touches a recorder settles what it holds. -/
theorem recorders_run (caps : Capabilities) (config : Config) {registered : List (Registered ι τ)}
    {i : ι} (hi : .recorder i ∈ registered) (calls : List (Call ι)) (w : World ι τ) :
    ((registering caps config registered).run World.clear calls w).2.recorders i =
      (calls.reverse.findSome? (touch? caps config.placeholders i)).getD (w.recorders i) := by
  induction calls generalizing w with
  | nil => rfl
  | cons call calls ih =>
    rw [List.reverse_cons, List.findSome?_append, List.findSome?_singleton, Option.getD_or]
    cases call with
    | compile q => rw [run, ih, recorders_compile caps config hi]
    | clear j => rw [run, ih, recorders_clear caps config.placeholders]

/-- The call passes a recorder by. -/
def Spares (caps : Capabilities) (placeholders : Placeholders) (i : ι) : Call ι → Prop
  | .compile q => ∃ e, QueryLoom.compile caps placeholders q = .error e
  | .clear j => j ≠ i

theorem touch?_eq_none_iff {caps : Capabilities} {placeholders : Placeholders} {i : ι}
    {call : Call ι} :
    touch? caps placeholders i call = none ↔ Spares caps placeholders i call := by
  cases call with
  | compile q =>
    rw [touch?, Spares]
    cases QueryLoom.compile caps placeholders q <;> simp
  | clear j => simp [touch?, Spares]

theorem touch?_eq_some_iff {caps : Capabilities} {placeholders : Placeholders} {i : ι}
    {call : Call ι} {l : LoggedStatement} :
    touch? caps placeholders i call = some ⟨some l⟩ ↔ ∃ q st, call = .compile q ∧
      QueryLoom.compile caps placeholders q = .ok st ∧ l = st.logged := by
  cases call with
  | compile q =>
    rw [touch?]
    cases h : QueryLoom.compile caps placeholders q <;> simp [h, eq_comm]
  | clear j => simp [touch?]

/-- The statement is that of the last query that compiled, and the recorder has not been cleared
    since. -/
def IsLast (caps : Capabilities) (placeholders : Placeholders) (i : ι) (calls : List (Call ι))
    (l : LoggedStatement) : Prop :=
  ∃ before q after st, calls = before ++ .compile q :: after ∧
    QueryLoom.compile caps placeholders q = .ok st ∧
    l = ⟨st.text, st.bindings.map Binding.shown⟩ ∧
    ∀ call ∈ after, Spares caps placeholders i call

theorem findSome?_touch?_iff {caps : Capabilities} {placeholders : Placeholders} {i : ι}
    {calls : List (Call ι)} {l : LoggedStatement} :
    calls.reverse.findSome? (touch? caps placeholders i) = some ⟨some l⟩ ↔
      IsLast caps placeholders i calls l := by
  rw [List.findSome?_eq_some_iff]
  constructor
  · rintro ⟨after, call, before, hcalls, hcall, hafter⟩
    obtain ⟨q, st, rfl, hq, hl⟩ := touch?_eq_some_iff.mp hcall
    refine ⟨before.reverse, q, after.reverse, st, ?_, hq, hl, fun call hcall => ?_⟩
    · rw [← List.reverse_reverse calls, hcalls]
      simp
    · exact touch?_eq_none_iff.mp (hafter call (List.mem_reverse.mp hcall))
  · rintro ⟨before, q, after, st, rfl, hq, hl, hafter⟩
    refine ⟨after.reverse, .compile q, before.reverse, by simp,
      touch?_eq_some_iff.mpr ⟨q, st, rfl, hq, hl⟩, fun call hcall => ?_⟩
    exact touch?_eq_none_iff.mpr (hafter call (List.mem_reverse.mp hcall))

theorem not_isLast_append_clear {caps : Capabilities} {placeholders : Placeholders} {i : ι}
    (calls : List (Call ι)) {l : LoggedStatement} :
    ¬ IsLast caps placeholders i (calls ++ [.clear i]) l := by
  simp [← findSome?_touch?_iff, touch?]

/-- A session is used for calls of any kind, with anything registered.  The results are those of
    compiling each query on its own.  For each result that is a statement, and for no other, every
    observer is told once, in the order of registration, of its text and of the text of each
    binding.  Whatever observers complain of, neither results nor states nor what any of them is
    told are different.  And a recorder that is registered has the statement compiled last since it
    was last cleared, and none if there is none. -/
theorem run_observed (caps : Capabilities) (config : Config) (registered : List (Registered ι τ))
    (calls : List (Call ι)) (rest : τ) :
    let s := registering caps config registered
    let w := World.initial rest
    (s.run World.clear calls w).1 = calls.filterMap (Call.result? caps config.placeholders) ∧
    s.noted.run (clearBesideNotes World.clear) calls (w, []) =
      ((s.run World.clear calls w).1, (s.run World.clear calls w).2,
        (s.run World.clear calls w).1.flatMap (notes registered.length)) ∧
    (∀ complaint?,
      (s.complaining complaint?).noted.run (clearBesideNotes World.clear) calls (w, []) =
        s.noted.run (clearBesideNotes World.clear) calls (w, [])) ∧
    ∀ i, .recorder i ∈ registered → ∀ l,
      ((s.run World.clear calls w).2.recorders i).last? = some l ↔
        IsLast caps config.placeholders i calls l := by
  intro s w
  have hlength : s.observers.length = registered.length := by
    rw [show s = _ from registering_eq caps config registered, List.length_map]
  refine ⟨?_, ?_, fun complaint? => ?_, fun i hi l => ?_⟩
  · rw [results_run, show s = _ from registering_eq caps config registered]
  · rw [← hlength]
    exact run_noted s World.clear calls w []
  · refine (run_noted (s.complaining complaint?) World.clear calls w []).trans ?_
    rw [run_complaining, show (s.complaining complaint?).observers.length = s.observers.length from
      List.length_mapIdx]
    exact (run_noted s World.clear calls w []).symm
  · rw [recorders_run caps config hi calls w, ← findSome?_touch?_iff]
    cases calls.reverse.findSome? (touch? caps config.placeholders i) with
    | none => simp [w, World.initial]
    | some r =>
      rcases r with ⟨last?⟩
      simp

/-- The items of a price. -/
def itemsOfPrice : Query :=
  .filter (.source "ITEM" none) (.equal (.column "PRICE") (.parameter ⟨"price", .int32⟩))

/-- Two recorders, and between them an observer that counts and always complains. -/
def twoRecorders : List (Registered Bool Nat) :=
  [.recorder false, .watcher fun _ w => (some "full", w.rest + 1), .recorder true]

/-- After a statement, a query that fails and the clearing of one recorder, the other one still has
    the statement. -/
theorem run_observed_cleared :
    let s := registering (.ofVersion ⟨3, 0, 0, 0⟩) {} twoRecorders
    let w := (s.run World.clear [.compile itemsOfPrice, .compile .null, .clear false]
      (World.initial 0)).2
    (w.recorders true).last? = some
      ⟨"SELECT \"i\".* FROM \"ITEM\" \"i\" WHERE \"i\".\"PRICE\" = ?", ["@price: Int32"]⟩ ∧
      (w.recorders false).last? = none := by
  obtain ⟨-, -, -, hrecorders⟩ := run_observed (.ofVersion ⟨3, 0, 0, 0⟩) {} twoRecorders
    [.compile itemsOfPrice, .compile .null, .clear false] 0
  have hnull : QueryLoom.compile (.ofVersion ⟨3, 0, 0, 0⟩) .positional .null =
      .error (.notAQuery "Constant") := rfl
  constructor
  · refine (hrecorders true (by simp [twoRecorders]) _).mpr
      ⟨[], itemsOfPrice, [.compile .null, .clear false],
        ⟨_, [.dynamic ⟨"price", .int32⟩]⟩, rfl, rfl, rfl, ?_⟩
    simp [Spares, hnull]
  · refine Option.eq_none_iff_forall_ne_some.mpr fun l hl => ?_
    exact not_isLast_append_clear [.compile itemsOfPrice, .compile .null]
      ((hrecorders false (by simp [twoRecorders]) l).mp hl)

end Session

end QueryLoom

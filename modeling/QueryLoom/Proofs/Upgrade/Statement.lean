/-
  QueryLoom/Proofs/Upgrade/Statement.lean
  =======================================
  **Upgrading the server.**  A query with a statement for one version has a statement for every
  later one, except that from version 3.0 on a projection may lose a key of the ordering under
  it.  Before, a value that stands as a condition is written as its comparison with one, and so
  a key may be the same as a column that makes the comparison itself; with Booleans they
  are two, and an ordering that no column holds does not get out of a derived table.

    * `statement_of_gain` — the statement for a server with Booleans, from one without;
    * `compile_of_upgrade` — later versions compile what earlier ones do, or lose a key.
-/
import QueryLoom.Proofs.Upgrade.Loss

namespace QueryLoom.Sql

variable {old new : Capabilities}

/-- Without tests at the top every statement is that of a sequence. -/
theorem isSequence_of_ofQuery (h : old.topLevelAny = false) {q : Query} {s : Select}
    (hs : Select.ofQuery old q = .ok s) : q.isSequence = true := by
  obtain ⟨m, hm⟩ := gives_of_ofQuery hs
  by_contra hq
  have hscalar := (succeeds_statement_scalar_iff (Bool.not_eq_true _ |>.mp hq)).mp ⟨s, m, hm⟩
  rw [h] at hscalar
  exact Bool.false_ne_true hscalar.1.2

/-- Where no projection loses a key, the statement for a server without Booleans is that for the
    newer one with coercions. -/
theorem statement_of_gain (h₀ : GainsBooleans old new) (htop : old.topLevelAny = false)
    {q : Query} (hq : Keeping old new q (.ofQuery q)) {s' : Select}
    (hs' : Select.ofQuery old q = .ok s') :
    ∃ s, Select.ofQuery new q = .ok s ∧ s' = s.coerced old := by
  have hsequence := isSequence_of_ofQuery htop hs'
  obtain ⟨d', m, hd', hfinish'⟩ := sequence_of_ofQuery hsequence hs'
  obtain ⟨d, hd, rfl, hkept⟩ := gains_sequence h₀ hq hd'
  obtain ⟨source, hsource⟩ := hkept.source
  obtain ⟨s, hfinish, rfl⟩ := (finish_coerced hsource).mp hfinish'
  exact ⟨s, ofQuery_of_sequence hsequence hd hfinish, rfl⟩

theorem exists_compile_iff {caps : Capabilities} {placeholders : Placeholders} {q : Query} :
    (∃ st, compile caps placeholders q = .ok st) ↔
      ∃ s, Select.ofQuery caps q = .ok s ∧ Writable caps (s.pieces caps) := by
  rw [compile]
  cases Select.ofQuery caps q with
  | error e => simp [bind, Except.bind]
  | ok s => simp [bind, Except.bind, exists_render_iff]

theorem booleanType_ofVersion {v : Version} :
    (Capabilities.ofVersion v).booleanType = true ↔ (⟨3, 0, 0, 0⟩ : Version) ≤ v :=
  decide_eq_true_iff

theorem compile_eq_error {caps : Capabilities} {placeholders : Placeholders} {q : Query}
    {e : CompileError} (h : Select.ofQuery caps q = .error e) :
    compile caps placeholders q = .error e := by
  rw [compile, h]
  rfl

/-- A later version compiles what an earlier one compiles, unless Booleans come between the two,
    a projection that its run visits loses a key, and the ordering is lost with it. -/
theorem compile_of_upgrade {v w : Version} (hvw : v ≤ w) {placeholders : Placeholders} {q : Query}
    (h : ∃ st, compile (.ofVersion v) placeholders q = .ok st) :
    (∃ st, compile (.ofVersion w) placeholders q = .ok st) ∨
      (¬ (⟨3, 0, 0, 0⟩ : Version) ≤ v ∧ (⟨3, 0, 0, 0⟩ : Version) ≤ w) ∧
        compile (.ofVersion w) placeholders q = .error .lostOrdering ∧
        ∃ rows columns n, .project rows columns ∈ q.nodes ∧
          Visits (.ofVersion w) q (.ofQuery q) (.project rows columns) n ∧
          LosesKey (.ofVersion v) (.ofVersion w) n (.project rows columns) := by
  have hup := upgrade_of_le hvw
  obtain ⟨s, hs, hwritable⟩ := exists_compile_iff.mp h
  have hwritable := s.writable_of_upgrade hup hwritable
  by_cases hbetween : ¬ (⟨3, 0, 0, 0⟩ : Version) ≤ v ∧ (⟨3, 0, 0, 0⟩ : Version) ≤ w
  · have h₀ : GainsBooleans (.ofVersion v) (.ofVersion w) :=
      ⟨hup, decide_eq_false hbetween.1, decide_eq_true hbetween.2, rfl⟩
    have htop : (Capabilities.ofVersion v).topLevelAny = false := decide_eq_false hbetween.1
    by_cases hkeeping : Keeping (.ofVersion v) (.ofVersion w) q (.ofQuery q)
    · obtain ⟨s, hs', rfl⟩ := statement_of_gain h₀ htop hkeeping hs
      exact .inl (exists_compile_iff.mpr ⟨s, hs', writable_of_coerced hwritable⟩)
    · simp only [Keeping, not_forall, not_not] at hkeeping
      obtain ⟨rows, columns, n, hvisited, hloses⟩ := hkeeping
      rcases statement_or_lost h₀ htop hs with ⟨s, hs', hw⟩ | hlost
      · exact .inl (exists_compile_iff.mpr ⟨s, hs', hw hwritable⟩)
      · exact .inr ⟨hbetween, compile_eq_error hlost, rows, columns, n, hvisited.mem_nodes,
          hvisited, hloses⟩
  · have htruth : (Capabilities.ofVersion v).booleanType
        = (Capabilities.ofVersion w).booleanType := by
      rw [Bool.eq_iff_iff, booleanType_ofVersion, booleanType_ofVersion]
      refine ⟨fun hv => Version.le_trans hv hvw, fun hw => ?_⟩
      by_contra hv
      exact hbetween ⟨hv, hw⟩
    have hs' := statement_of_upgrade hup htruth hs
    exact .inl (exists_compile_iff.mpr ⟨s, hs', hwritable⟩)

/-- The parts with a flag for those that are used and sold, in the order of the flag, of which only
    the flagged ones are wanted.  The flag compares with one, and the key of the ordering does
    not. -/
def flaggedInOrder : Query :=
  .filter
    (.project
      (.orderBy (.source "PART" none) (.and (.column "USED") (.column "SOLD")) .ascending)
      [("GONE", .and (.equal (.column "USED") (.constant (.int32 1))) (.column "SOLD"))])
    (.column "GONE")

/-- The text of that for a server without Booleans. -/
def flaggedInOrderText : String :=
  "SELECT \"t0\".* FROM (SELECT CASE WHEN \"p\".\"USED\" = 1 AND \"p\".\"SOLD\" = 1 THEN 1 " ++
    "ELSE 0 END AS \"GONE\" FROM \"PART\" \"p\") \"t0\" WHERE \"t0\".\"GONE\" = 1 " ++
    "ORDER BY \"t0\".\"GONE\" ASC"

theorem compile_flaggedInOrder :
    compile (.ofVersion ⟨2, 5, 0, 0⟩) .positional flaggedInOrder = .ok ⟨flaggedInOrderText, []⟩ ∧
      compile (.ofVersion ⟨3, 0, 0, 0⟩) .positional flaggedInOrder = .error .lostOrdering := by
  decide +kernel

theorem losesKey_flaggedInOrder :
    (⟨2, 5, 0, 0⟩ : Version) ≤ ⟨3, 0, 0, 0⟩ ∧
    (∃ st, compile (.ofVersion ⟨2, 5, 0, 0⟩) .positional flaggedInOrder = .ok st) ∧
    compile (.ofVersion ⟨3, 0, 0, 0⟩) .positional flaggedInOrder = .error .lostOrdering ∧
    ∃ rows columns n, .project rows columns ∈ flaggedInOrder.nodes ∧
      Visits (.ofVersion ⟨3, 0, 0, 0⟩) flaggedInOrder (.ofQuery flaggedInOrder)
        (.project rows columns) n ∧
      LosesKey (.ofVersion ⟨2, 5, 0, 0⟩) (.ofVersion ⟨3, 0, 0, 0⟩) n (.project rows columns) := by
  have hversions : (⟨2, 5, 0, 0⟩ : Version) ≤ ⟨3, 0, 0, 0⟩ := by decide
  obtain ⟨hold, hnew⟩ := compile_flaggedInOrder
  refine ⟨hversions, ⟨_, hold⟩, ((compile_of_upgrade hversions ⟨_, hold⟩).resolve_left ?_).2⟩
  rintro ⟨st, hst⟩
  cases hnew.symm.trans hst

/-- Not everything that an earlier version compiles is compiled by a later one. -/
theorem not_compile_of_le : ¬ ∀ v w : Version, v ≤ w → ∀ (placeholders : Placeholders) (q : Query),
    (∃ st, compile (.ofVersion v) placeholders q = .ok st) →
      ∃ st, compile (.ofVersion w) placeholders q = .ok st := by
  intro hall
  obtain ⟨hold, hnew⟩ := compile_flaggedInOrder
  obtain ⟨st, hst⟩ := hall ⟨2, 5, 0, 0⟩ ⟨3, 0, 0, 0⟩ (by decide) .positional flaggedInOrder
    ⟨_, hold⟩
  cases hnew.symm.trans hst

end QueryLoom.Sql

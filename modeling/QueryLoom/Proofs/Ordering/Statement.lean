/-
  QueryLoom/Proofs/Ordering/Statement.lean
  ========================================
  **The constants that a statement is ordered by.**  A key is drafted from a sort key of the
  sequence, and pushing a draft down makes a column of it or renames its source.  A constant is
  neither made nor changed that way: where a key of a SELECT is a constant, it was one in the query.

  A constant key is written as it stands.  So a sequence that is sorted by a whole number is
  ordered by the column with that number.  Nothing else in a query has that effect.

    * `constant_of_literal`, a constant key of a draft is a sort key of the sequence;
    * `exists_literal_of_sortKeys`, without projections the constant sort keys stay;
    * `columnNumbers_of_compile`, the items of every ORDER BY list that are column numbers.
-/
import QueryLoom.Proofs.Ordering.ColumnNumber
import QueryLoom.Proofs.Ordering.Drafted

namespace QueryLoom.Sql

/-- Some sequence in the query is sorted by the constant. -/
def SortsBy (q : Query) (v : Value) : Prop :=
  ∃ m meant, Meant q [] m meant ∧ .constant v ∈ m.sortKeys

section

variable {caps : Capabilities} {q : Query} {d : Draft} {s : Select} {n m : Naming} {v : Value}

/-! ### Constants among the keys -/

theorem literal?_eq_some {e : Expr} : e.literal? = some v ↔ e = .literal v := by
  cases e <;> simp [Expr.literal?]

theorem constant?_eq_some {p : Query} : p.constant? = some v ↔ p = .constant v := by
  cases p <;> simp [Query.constant?]

theorem literal?_rename (old new : String) (e : Expr) :
    (e.rename old new).literal? = e.literal? := by
  cases e <;> rfl

/-- A constant key of a draft is a sort key of the sequence. -/
theorem constant_of_literal (h : Drafts caps q n d m) :
    ∀ k ∈ d.select.ordering, k.expr.literal? = some v → .constant v ∈ q.sortKeys := by
  induction h with
  | source => exact fun k hk => absurd hk List.not_mem_nil
  | @pushed q n m k d d' _ hpush ih =>
    obtain ⟨inner, ordering, hfinish, hcarry, -, rfl⟩ := gives_pushDown.mp hpush
    obtain ⟨_, _, _, _, rfl⟩ := Draft.finish_inv hfinish
    intro key hkey hliteral
    obtain ⟨old, hold, hcarried⟩ := exists_carry_of_carryOrdering hcarry hkey
    rcases carry_eq_some hcarried with ⟨_, _, name, _, _, hcolumn⟩ | ⟨from', _, _, _, hrename⟩
    · rw [hcolumn] at hliteral
      cases hliteral
    · rw [hrename, literal?_rename] at hliteral
      exact ih old hold hliteral
  | filter _ _ _ _ ih | project _ _ _ ih | skip _ _ _ ih | take _ _ _ ih => exact ih
  | @orderBy rows key direction n m k d e _ _ _ he ih =>
    intro key' hkey' hliteral
    obtain ⟨k', hk', -⟩ := gives_inRow.mp he
    rcases List.mem_append.mp hkey' with hkey' | hkey'
    · exact List.mem_append_left _ (ih key' hkey' hliteral)
    · obtain rfl := List.mem_singleton.mp hkey'
      rw [literal?_asValue, literal?_of_gives hk', constant?_eq_some] at hliteral
      rw [hliteral]
      exact List.mem_append_right _ List.mem_cons_self

theorem exists_carried_of_carryOrdering {source : String} {ordering : List OrderKey}
    (h : s.carryOrdering source = .ok ordering) {k : OrderKey} (hk : k ∈ s.ordering) :
    ∃ k' ∈ ordering, s.carry source k.expr = some k'.expr := by
  obtain ⟨i, hi, rfl⟩ := List.getElem_of_mem hk
  obtain ⟨hlength, heach⟩ := List.forall₂_iff_get.mp (carryOrdering_eq_ok h)
  have hi' : i < ordering.length := by
    rw [← hlength]
    exact hi
  exact ⟨_, List.getElem_mem hi', (heach i hi hi').1⟩

/-- Without projections a draft has no columns of its own, and the constant sort keys of the
    sequence are among its keys. -/
theorem exists_literal_of_sortKeys (h : Drafts caps q n d m) (hprojections : q.projections = []) :
    d.select.columns = [] ∧
      (.constant v ∈ q.sortKeys → ∃ k ∈ d.select.ordering, k.expr = .literal v) := by
  induction h with
  | source => exact ⟨rfl, fun hv => absurd hv List.not_mem_nil⟩
  | @pushed q n m k d d' _ hpush ih =>
    obtain ⟨inner, ordering, hfinish, hcarry, -, rfl⟩ := gives_pushDown.mp hpush
    obtain ⟨columns, _, _, hshown, rfl⟩ := Draft.finish_inv hfinish
    obtain ⟨hcolumns, hkeys⟩ := ih hprojections
    refine ⟨rfl, fun hv => ?_⟩
    obtain ⟨key, hkey, hliteral⟩ := hkeys hv
    obtain ⟨key', hkey', hcarried⟩ := exists_carried_of_carryOrdering hcarry hkey
    refine ⟨key', hkey', ?_⟩
    rcases carry_eq_some hcarried with ⟨c, hc, name, _, hname, _⟩ | ⟨from', _, _, _, hrename⟩
    · rw [hcolumns] at hshown
      rcases hshown with rfl | ⟨source, rfl⟩
      · cases hc
      · rw [List.mem_singleton.mp hc] at hname
        cases hname
    · rw [hrename, hliteral]
      rfl
  | filter _ _ _ _ ih | skip _ _ _ ih | take _ _ _ ih => exact ih hprojections
  | @project rows columns n m k d cs _ _ hcs ih =>
    obtain ⟨hrows, rfl⟩ := List.append_eq_nil_iff.mp hprojections
    obtain ⟨k', hk', -⟩ := gives_inRow.mp hcs
    exact ⟨(gives_projection_nil.mp hk').1, (ih hrows).2⟩
  | @orderBy rows key direction n m k d e _ _ _ he ih =>
    obtain ⟨hcolumns, hkeys⟩ := ih hprojections
    obtain ⟨k', hk', -⟩ := gives_inRow.mp he
    refine ⟨hcolumns, fun hv => ?_⟩
    rcases List.mem_append.mp hv with hv | hv
    · obtain ⟨key', hkey', hliteral⟩ := hkeys hv
      exact ⟨key', List.mem_append_left _ hkey', hliteral⟩
    · obtain rfl := List.mem_singleton.mp hv
      refine ⟨_, List.mem_append_right _ List.mem_cons_self, ?_⟩
      rw [← literal?_eq_some, literal?_asValue, literal?_of_gives hk']
      rfl

/-! ### Whole queries -/

/-- A constant key of a SELECT is a constant that the query is sorted by. -/
theorem sortsBy_of_block (h : Select.ofQuery caps q = .ok s) {t : Select} {around : List Item}
    (hblock : s.Block [] t around) {k : OrderKey} (hk : k ∈ t.ordering)
    (hv : k.expr = .literal v) : SortsBy q v := by
  rcases drafted_of_ofQuery h hblock with ⟨test, rfl⟩ | ⟨m, meant, n, d, n', hm, hd, ht⟩
  · cases hk
  · obtain ⟨-, -, hordering, -⟩ := ht.clauses
    exact ⟨m, meant, hm, constant_of_literal hd k (hordering k hk) (literal?_eq_some.mpr hv)⟩

/-- A sequence without projections is ordered by all constants that it is sorted by. -/
theorem exists_literal_of_ofQuery (h : Select.ofQuery caps q = .ok s)
    (hprojections : q.projections = []) (hv : .constant v ∈ q.sortKeys) :
    ∃ k ∈ s.ordering, k.expr = .literal v := by
  cases hq : q.isSequence with
  | true =>
    obtain ⟨d, k, hd, hfinish⟩ := sequence_of_ofQuery hq h
    obtain ⟨_, _, _, _, rfl⟩ := Draft.finish_inv hfinish
    exact (exists_literal_of_sortKeys (drafts_of_gives hd) hprojections).2 hv
  | false =>
    obtain ⟨rows, predicate?, _, _, rfl, -⟩ := any_of_ofQuery hq h
    cases hv

end

/-- An item of an ORDER BY list, at any depth of a statement, is a column number just when its key
    is a constant that is written as a whole number without a sign, and then the query is
    sorted by that constant.  Without projections the sequence is ordered by every such
    constant. -/
theorem columnNumbers_of_compile {caps : Capabilities} {placeholders : Placeholders} {q : Query}
    {st : Statement} (h : compile caps placeholders q = .ok st) :
    ∃ s, Select.ofQuery caps q = .ok s ∧ render caps placeholders s = .ok st ∧
      (∀ t around, s.Block [] t around → t.ordering ≠ [] → ∃ items,
        Style.ListsKeys ⟨caps, placeholders, s.parameterNames⟩ st.text t.ordering items ∧
        List.Forall₂ (fun k item => IsColumnNumber item ↔
          ∃ v, k.expr = .literal v ∧ isUnsigned caps v = true ∧ SortsBy q v) t.ordering items) ∧
      (q.projections = [] → ∀ v, .constant v ∈ q.sortKeys →
        ∃ k ∈ s.ordering, k.expr = .literal v) := by
  obtain ⟨s, hs, hrender⟩ := compile_eq_ok.mp h
  refine ⟨s, hs, hrender, fun t around hblock hne => ?_, fun hprojections v hv =>
    exists_literal_of_ofQuery hs hprojections hv⟩
  obtain ⟨items, hitems⟩ := hblock.listsKeys hrender hne
  refine ⟨items, hitems, ?_⟩
  have hkeys : ∀ k ∈ t.ordering, ∀ item,
      Style.Writes ⟨caps, placeholders, s.parameterNames⟩ k.expr item →
      (IsColumnNumber item ↔
        ∃ v, k.expr = .literal v ∧ isUnsigned caps v = true ∧ SortsBy q v) := by
    intro k hk item hitem
    have hclause : k.expr ∈ t.clauses :=
      List.mem_append_left _ (List.mem_append_right _ (List.mem_map_of_mem hk))
    have hwalk : k.expr ∈ s.walk := hblock.walk_subset
      (walk_subset_of_mem_clauses hclause ((parts_sublist_walk _).subset (Expr.self_mem_parts _)))
    have hvocabulary := Expr.inVocabulary_of_isAvailable (available_of_ofQuery hs _ hwalk)
    rw [isColumnNumber_of_writes hvocabulary hitem]
    exact exists_congr fun v => and_congr_right fun hv =>
      (and_iff_left (sortsBy_of_block hs hblock hk hv)).symm
  exact ((List.forall₂_and_left _ _).mpr ⟨hkeys, hitems.1⟩).imp fun k item h => h.1 item h.2

/-- The items that have parts, sorted by a constant and by name, the first part by its price. -/
def sortedByConstant : Query :=
  .filter
    (.orderBy (.orderBy (.source "ITEM" none) (.constant (.int32 2)) .ascending)
      (.column "NAME") .descending)
    (.any (.take (.orderBy (.source "PART" none) (.column "PRICE") .ascending)
      (.constant (.int32 1))) none)

theorem columnNumbers_of_sortedByConstant :
    ∃ s st, compile (.ofVersion ⟨3, 0, 0, 0⟩) .positional sortedByConstant = .ok st ∧
      Select.ofQuery (.ofVersion ⟨3, 0, 0, 0⟩) sortedByConstant = .ok s ∧
      (∀ t around, s.Block [] t around → t.ordering ≠ [] → ∃ items,
        Style.ListsKeys ⟨.ofVersion ⟨3, 0, 0, 0⟩, .positional, s.parameterNames⟩ st.text
          t.ordering items ∧
        List.Forall₂ (fun k item => IsColumnNumber item ↔ ∃ v, k.expr = .literal v ∧
          isUnsigned (.ofVersion ⟨3, 0, 0, 0⟩) v = true ∧ SortsBy sortedByConstant v)
          t.ordering items) ∧
      ∃ k ∈ s.ordering, k.expr = .literal (.int32 2) := by
  have h : compile (.ofVersion ⟨3, 0, 0, 0⟩) .positional sortedByConstant =
      .ok ⟨"SELECT \"i\".* FROM \"ITEM\" \"i\" WHERE EXISTS (SELECT 1 FROM \"PART\" \"p\" " ++
        "ORDER BY \"p\".\"PRICE\" ASC ROWS (1)) " ++
        "ORDER BY 2 ASC, \"i\".\"NAME\" DESC", []⟩ := by decide +kernel
  obtain ⟨s, hs, -, hitems, hkeys⟩ := columnNumbers_of_compile h
  exact ⟨s, _, h, hs, hitems, hkeys rfl _ (by simp [sortedByConstant, Query.sortKeys])⟩

/-- The items, sorted by the number one. -/
def sortedByOne : Query := .orderBy (.source "ITEM" none) (.constant (.int32 1)) .ascending

/-- Sorted by the number one, the statement is ordered by its first column. -/
theorem exists_columnNumber_of_sortedByOne :
    ∃ s st items, Select.ofQuery (.ofVersion ⟨3, 0, 0, 0⟩) sortedByOne = .ok s ∧
      compile (.ofVersion ⟨3, 0, 0, 0⟩) .positional sortedByOne = .ok st ∧
      Style.ListsKeys ⟨.ofVersion ⟨3, 0, 0, 0⟩, .positional, s.parameterNames⟩ st.text
        s.ordering items ∧ ∃ item ∈ items, IsColumnNumber item := by
  have h : compile (.ofVersion ⟨3, 0, 0, 0⟩) .positional sortedByOne =
      .ok ⟨"SELECT \"i\".* FROM \"ITEM\" \"i\" ORDER BY 1 ASC", []⟩ := by decide +kernel
  obtain ⟨s, hs, hrender⟩ := compile_eq_ok.mp h
  have hordering : s.ordering = [⟨.literal (.int32 1), .ascending⟩] := by
    cases hs
    rfl
  have hne : s.ordering ≠ [] := by
    rw [hordering]
    exact List.cons_ne_nil _ _
  have hself : s.Block [] s [] := .self
  obtain ⟨items, hitems⟩ := hself.listsKeys hrender hne
  refine ⟨s, _, items, hs, h, hitems, ?_⟩
  have hwritten := hitems.1
  rw [hordering] at hwritten
  cases hwritten with
  | @cons _ item _ _ hitem _ =>
    exact ⟨item, List.mem_cons_self, (isColumnNumber_of_writes rfl hitem).mpr ⟨_, rfl, rfl⟩⟩

end QueryLoom.Sql

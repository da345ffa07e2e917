/-
  QueryLoom/Proofs/Paging/Statement.lean
  ======================================
  **Every window in a statement is that of a page of the query.**  `Draft.Spans` is the invariant of
  a draft: its counts are those of the page of the sequence, and every window in its origin and in
  its tests is that of some sequence of the query.  An operator either keeps the page or has the
  draft pushed down, which leaves the old page behind in a derived table.

    * `spans_of_gives` — every operator keeps the invariant;
    * `bounds_of_ofQuery` — the bounds of every ROWS clause amount to the first and the last row of
      a page, and are numbers of 64 bits just when that page fits.
-/
import QueryLoom.Proofs.Paging.Window
import QueryLoom.Proofs.Scoping.Statement

namespace QueryLoom.Sql

/-! ### The invariant -/

/-- `m` is the sequence, one that it is built on or one that is tested in it. -/
def Includes (q m : Query) : Prop := ∀ items, ∃ around, Meant q items m around

/-- Every window in the statement is that of a page of the sequence. -/
def AllPaged (q : Query) (s : Select) : Prop :=
  ∀ items t around, s.Block items t around → ∀ w, t.window? = some w →
    ∃ m, Includes q m ∧ m.page.paging.window? = .ok (some w)

/-- The expressions in the clauses of a draft. -/
def Draft.clauses (d : Draft) : List Expr :=
  d.select.columns.map Column.expr ++ d.select.conditions ++ d.select.ordering.map OrderKey.expr

/-- Every window in the statements of a draft is that of a page of the sequence. -/
structure Draft.Within (d : Draft) (q : Query) : Prop where
  tested : ∀ e ∈ d.clauses, ∀ rows, .existsRow rows ∈ e.parts → AllPaged q rows
  inner : ∀ rows source, d.select.origin = .derived rows source → AllPaged q rows

/-- The draft has the page of the sequence, and its statements have windows of such pages. -/
structure Draft.Spans (d : Draft) (q : Query) : Prop where
  sequence : q.isSequence = true
  paging : d.paging = q.page.paging
  projected : d.projected = q.page.isProjected
  within : d.Within q

/-! ### One sequence in another -/

variable {caps : Capabilities} {q q' rows t m : Query} {d d' : Draft} {s : Select} {n k : Naming}

theorem Includes.refl (hq : q.isSequence = true) : Includes q q := fun items => ⟨items, .self hq⟩

theorem Includes.ofRows (hq : q.rows? = some rows) (h : Includes rows m) : Includes q m := by
  intro items
  obtain ⟨around, hm⟩ := h items
  exact ⟨around, .rows hq hm⟩

theorem Includes.ofTest {p : Query} (hp : p ∈ q.scalars) (ht : t ∈ p.tests) (h : Includes t m) :
    Includes q m := by
  intro items
  obtain ⟨around, hm⟩ := h (itemOf q :: items)
  exact ⟨around, .test hp ht hm⟩

theorem AllPaged.mono (h : AllPaged q s) (hincludes : ∀ m, Includes q m → Includes q' m) :
    AllPaged q' s := by
  intro items t around hblock w hw
  obtain ⟨m, hm, hpage⟩ := h items t around hblock w hw
  exact ⟨m, hincludes m hm, hpage⟩

theorem Draft.Within.ofRows (h : d.Within rows) (hq : q.rows? = some rows) : d.Within q where
  tested e he rows' hrows := (h.tested e he rows' hrows).mono fun _ => .ofRows hq
  inner rows' source hrows := (h.inner rows' source hrows).mono fun _ => .ofRows hq

/-! ### From drafts to statements -/

theorem readsNothing_asCount (c : Query) : (Query.asCount c).ReadsNothing := by
  cases c with
  | parameter p =>
    intro x hx
    rw [Query.asCount, Expr.parts, List.mem_singleton] at hx
    rw [hx]
    rfl
  | _ => exact readsNothing_literal _

theorem not_exists_allColumns (source : String) (rows : Select) :
    .existsRow rows ∉ (Expr.allColumns source).parts := by
  rw [Expr.parts, List.mem_singleton]
  exact nofun

/-- A test in a statement that is made of the clauses of a draft stands in one of them. -/
theorem Draft.mem_clauses_of_test {d : Draft} {s : Select}
    (hcolumns : ∀ c ∈ s.columns, c ∈ d.select.columns ∨ ∀ rows, .existsRow rows ∉ c.expr.parts)
    (hconditions : s.conditions = d.select.conditions)
    (hordering : ∀ k ∈ s.ordering, k ∈ d.select.ordering)
    (hwindow : ∀ w, s.window? = some w → ∀ e ∈ w.lower :: w.upper?.toList, e.ReadsNothing)
    {e : Expr} (he : e ∈ s.clauses) {rows : Select} (hrows : .existsRow rows ∈ e.parts) :
    e ∈ d.clauses := by
  simp only [Draft.clauses, List.mem_append, List.mem_map]
  simp only [Select.clauses, List.mem_append, List.mem_map] at he
  rcases he with ((⟨c, hc, rfl⟩ | he) | ⟨k, hk, rfl⟩) | he
  · rcases hcolumns c hc with hc | hnone
    · exact .inl (.inl ⟨c, hc, rfl⟩)
    · exact absurd hrows (hnone rows)
  · rw [hconditions] at he
    exact .inl (.inr he)
  · exact .inr ⟨k, hordering k hk, rfl⟩
  · obtain ⟨w, hw, he⟩ := List.mem_flatMap.mp he
    exact absurd hrows ((hwindow w (Option.mem_toList.mp hw) e he).not_exists rows)

/-- A statement made of the clauses of a draft has its window, and no tests but the draft's. -/
theorem Draft.Spans.allPaged (hd : d.Spans q)
    (horigin : s.origin = d.select.origin) (hwindow : d.paging.window? = .ok s.window?)
    (hcolumns : ∀ c ∈ s.columns, c ∈ d.select.columns ∨ ∀ rows, .existsRow rows ∉ c.expr.parts)
    (hconditions : s.conditions = d.select.conditions)
    (hordering : ∀ k ∈ s.ordering, k ∈ d.select.ordering) : AllPaged q s := by
  rw [hd.paging] at hwindow
  have hcounts : ∀ e, q.page.paging.skip? = some e ∨ q.page.paging.take? = some e →
      e.ReadsNothing := by
    rintro e (he | he) <;> obtain ⟨c, -, rfl⟩ := Option.map_eq_some_iff.mp he <;>
      exact readsNothing_asCount c
  intro items t around hblock w hw
  cases hblock with
  | self =>
    rw [hw] at hwindow
    exact ⟨q, .refl hd.sequence, hwindow⟩
  | derived hinner hblock =>
    exact hd.within.inner _ _ (horigin.symm.trans hinner) _ t around hblock w hw
  | test he hrows hblock =>
    have hclause := Draft.mem_clauses_of_test hcolumns hconditions hordering
      (readsNothing_of_window? hwindow hcounts) he hrows
    exact hd.within.tested _ hclause _ hrows _ t around hblock w hw

/-- The statement of a draft, with or without its ordering. -/
theorem Draft.Spans.finish (hd : d.Spans q) {s' : Select}
    (hfinish : d.finish = .ok s) (hs' : s' = s ∨ s' = { s with ordering := [] }) :
    AllPaged q s' := by
  obtain ⟨columns, w, hw, hshown, rfl⟩ := Draft.finish_inv hfinish
  have hcolumns : ∀ c ∈ columns, c ∈ d.select.columns ∨ ∀ rows, .existsRow rows ∉ c.expr.parts := by
    rcases hshown with rfl | ⟨source, rfl⟩
    · exact fun c hc => .inl hc
    · exact List.forall_mem_singleton.mpr (.inr (not_exists_allColumns source))
  rcases hs' with rfl | rfl
  · exact hd.allPaged rfl hw hcolumns rfl fun _ hk => hk
  · exact hd.allPaged rfl hw hcolumns rfl fun _ hk => absurd hk List.not_mem_nil

theorem Draft.Spans.existence (hd : d.Spans q) (hexistence : d.existence = .ok s) :
    AllPaged q s := by
  obtain ⟨columns, w, hw, hshown, rfl⟩ := Draft.finish_inv (d := { d with select := { d.select with
    ordering := if d.isPaged then d.select.ordering else []
    columns := [⟨.int 1, none⟩] } }) hexistence
  refine hd.allPaged rfl hw ?_ rfl ?_
  · intro c hc
    right
    rcases hshown with rfl | ⟨source, rfl⟩
    · rw [List.mem_singleton.mp hc]
      exact (readsNothing_literal _).not_exists
    · rw [List.mem_singleton.mp hc]
      exact not_exists_allColumns source
  · intro k hk
    dsimp only at hk
    split at hk
    · exact hk
    · cases hk

/-! ### The operators -/

/-- A draft that was pushed down keeps its statement in its origin, and tests no rows itself. -/
theorem Draft.Spans.pushed (hd : d.Spans q) (hpush : Gives (pushDown d) n d' k) :
    d'.Within q ∧ d'.paging = {} ∧ d'.projected = false := by
  obtain ⟨inner, ordering, hfinish, hcarry, -, rfl⟩ := gives_pushDown.mp hpush
  refine ⟨⟨?_, ?_⟩, rfl, rfl⟩
  · intro e he rows hrows
    obtain ⟨k', hk', rfl⟩ := List.mem_map.mp he
    obtain ⟨k, -, hkey⟩ := exists_carry_of_carryOrdering hcarry hk'
    rcases carry_eq_some hkey with ⟨_, _, name, _, _, hcolumn⟩ | ⟨old, _, _, hsubquery, hrename⟩
    · rw [hcolumn, Expr.parts, List.mem_singleton] at hrows
      cases hrows
    · rw [hrename, parts_rename] at hrows
      obtain ⟨x, hx, heq⟩ := List.mem_map.mp hrows
      cases x <;> cases heq
      exact absurd hx (not_exists_of_hasSubquery hsubquery _)
  · rintro rows source ⟨⟩
    refine hd.finish hfinish ?_
    split
    · exact .inl rfl
    · exact .inr rfl

/-- What is left of the counts and the columns of a draft where it is pushed down if need be. -/
theorem Draft.Spans.pushedIf (hd : d.Spans q) {needed : Bool}
    (hpush : Gives (pushDownIf needed d) n d' k) : d'.Within q ∧
      d'.paging = (if needed then {} else q.page.paging) ∧
      d'.projected = (if needed then false else q.page.isProjected) := by
  rw [gives_pushDownIf] at hpush
  cases needed with
  | true => exact hd.pushed hpush
  | false =>
    obtain ⟨rfl, rfl⟩ := hpush
    exact ⟨hd.within, hd.paging, hd.projected⟩

theorem Draft.Spans.isPaged_eq (hd : d.Spans q) : d.isPaged = q.page.isCounted := by
  rw [Draft.isPaged, hd.paging, Page.isCounted_eq]

/-- A filter and an ordering are applied to a draft without a page. -/
theorem Draft.Spans.flat (hd : d.Spans q)
    (hpush : Gives (pushDownIf (d.isPaged || d.projected) d) n d' k) :
    d'.Within q ∧ d'.paging = {} ∧ d'.projected = false := by
  obtain ⟨hwithin, hpaging, hprojected⟩ := hd.pushedIf hpush
  rw [hd.isPaged_eq, hd.projected] at hpaging hprojected
  rcases hpage : q.page with ⟨_ | _, _ | _, _ | _⟩ <;> rw [hpage] at hpaging hprojected <;>
    exact ⟨hwithin, hpaging, hprojected⟩

/-- One operator more keeps the origin and the clauses of the draft, or adds clauses whose tests
    have windows of such pages. -/
theorem Draft.Within.step (h : d.Within rows) (hq : q.rows? = some rows)
    (horigin : d'.select.origin = d.select.origin)
    (hclauses : ∀ e ∈ d'.clauses, e ∈ d.clauses ∨
      ∀ rows, .existsRow rows ∈ e.parts → AllPaged q rows) : d'.Within q where
  tested e he := (hclauses e he).elim ((h.ofRows hq).tested e) id
  inner rows' source hrows := (h.ofRows hq).inner rows' source (horigin.symm.trans hrows)

theorem Draft.clauses_filtered (d : Draft) (condition : Expr) :
    ∀ e ∈ (d.filtered condition).clauses, e ∈ d.clauses ∨ e = condition := by
  intro e he
  simp only [Draft.clauses, Draft.filtered, List.mem_append, List.mem_singleton] at he ⊢
  tauto

theorem Draft.clauses_ordered (d : Draft) (key : OrderKey) :
    ∀ e ∈ (d.ordered key).clauses, e ∈ d.clauses ∨ e = key.expr := by
  intro e he
  simp only [Draft.clauses, Draft.ordered, List.map_append, List.mem_append, List.map_cons,
    List.map_nil, List.mem_singleton] at he ⊢
  tauto

theorem Draft.clauses_projecting (d : Draft) (columns : List Column) :
    ∀ e ∈ (d.projecting columns).clauses, e ∈ d.clauses ∨ ∃ c ∈ columns, e = c.expr := by
  intro e he
  simp only [Draft.clauses, Draft.projecting, List.mem_append, List.mem_map] at he ⊢
  rcases he with (⟨c, hc, rfl⟩ | he) | he
  · exact .inr ⟨c, hc, rfl⟩
  · exact .inl (.inl (.inr he))
  · exact .inl (.inr he)

/-- The tests in the columns of a projection are tests in its scalars. -/
theorem tested_of_gives_projection {columns : List (String × Query)} {cs : List Column}
    (h : Gives (projection caps columns) n cs k) {c : Column} (hc : c ∈ cs) {rows : Select}
    (hrows : .existsRow rows ∈ c.expr.parts) :
    ∃ p ∈ columns, ∃ n', Tested caps n' p.2.tests rows := by
  obtain ⟨p, hp, -, htraces⟩ := exists_of_forall₂_left (columns_trace_of_gives h) hc
  exact ⟨p, hp, n, tested_of_traces htraces hrows⟩

/-- The drafts of sequences below a size have the pages of the sequences. -/
def SpansBelow (caps : Capabilities) (size : Nat) : Prop :=
  ∀ (t : Query) (n m : Naming) (d : Draft), sizeOf t < size → Gives (sequence caps t) n d m →
    d.Spans t

/-- A test in a scalar of a sequence has the windows of pages that the sequence includes. -/
theorem allPaged_of_tested {size : Nat} (ih : SpansBelow caps size) (hsize : sizeOf q ≤ size)
    {p : Query} (hp : p ∈ q.scalars) (h : Tested caps n p.tests s) : AllPaged q s := by
  obtain ⟨t, ht, n', d, m', -, hd, hs⟩ := h
  have hless : sizeOf t < size :=
    calc sizeOf t ≤ sizeOf p := Query.sizeOf_le_of_mem_tests ht
      _ < sizeOf q := Query.sizeOf_lt_of_mem_scalars hp
      _ ≤ size := hsize
  exact ((ih t n' m' d hless hd).existence hs).mono fun _ => .ofTest hp ht

/-- Every operator keeps the invariant, if it holds of the smaller sequences. -/
theorem spans_of_below {size : Nat} (ih : SpansBelow caps size) :
    {q : Query} → {n m : Naming} → {d : Draft} → sizeOf q ≤ size →
      Gives (sequence caps q) n d m → d.Spans q
  | .source table alias?, n, m, d, _, h => by
    obtain ⟨rfl, rfl⟩ := gives_source.mp h
    refine ⟨rfl, rfl, rfl, fun e he => absurd he List.not_mem_nil, ?_⟩
    rintro rows source ⟨⟩
  | .filter rows predicate, n, m, d, hsize, h => by
    have hq : (Query.filter rows predicate).rows? = some rows := rfl
    obtain ⟨d₀, n₀, hrows, hmeeting⟩ := gives_filter.mp h
    obtain ⟨d₁, n₁, e, hpush, he, rfl⟩ := gives_meeting_some.mp hmeeting
    obtain ⟨k', hk', -⟩ := gives_inRow.mp he
    have hd := spans_of_below ih (Query.sizeOf_le_of_rows? hq hsize) hrows
    obtain ⟨hwithin, hpaging, hprojected⟩ := hd.flat hpush
    refine ⟨rfl, hpaging, hprojected, hwithin.step hq rfl fun e' he' => ?_⟩
    refine (d₁.clauses_filtered _ e' he').imp_right ?_
    rintro rfl rows' hrows'
    exact allPaged_of_tested ih hsize (Query.predicate_mem_scalars rows predicate)
      (tested_of_gives hk' (mem_parts_of_asPredicate hrows' rfl))
  | .project rows columns, n, m, d, hsize, h => by
    have hq : (Query.project rows columns).rows? = some rows := rfl
    obtain ⟨d₀, n₀, d₁, n₁, cs, hrows, hpush, hcs, rfl⟩ := gives_project.mp h
    obtain ⟨k', hk', -⟩ := gives_inRow.mp hcs
    have hd := spans_of_below ih (Query.sizeOf_le_of_rows? hq hsize) hrows
    obtain ⟨hwithin, hpaging, -⟩ := hd.pushedIf hpush
    rw [hd.projected, ← Query.paging_project rows columns] at hpaging
    have hprojected := Query.isProjected_project rows columns
    refine ⟨rfl, hpaging, hprojected.symm, hwithin.step hq rfl fun e' he' => ?_⟩
    refine (d₁.clauses_projecting _ e' he').imp_right ?_
    rintro ⟨c, hc, rfl⟩ rows' hrows'
    obtain ⟨p, hpc, n', htested⟩ := tested_of_gives_projection hk' hc hrows'
    exact allPaged_of_tested ih hsize (Query.column_mem_scalars rows hpc) htested
  | .skip rows count, n, m, d, hsize, h => by
    have hq : (Query.skip rows count).rows? = some rows := rfl
    obtain ⟨d₀, n₀, d₁, e, hrows, hpush, he, rfl⟩ := gives_skip.mp h
    have hd := spans_of_below ih (Query.sizeOf_le_of_rows? hq hsize) hrows
    obtain ⟨hwithin, hpaging, hprojected⟩ := hd.pushedIf hpush
    rw [hd.isPaged_eq] at hpaging hprojected
    refine ⟨rfl, ?_, ?_, hwithin.step hq rfl fun e' he' => .inl he'⟩
    · rw [Query.paging_skip, ← hpaging, eq_asCount_of_rowCount he]
    · rw [Query.isProjected_skip, ← hprojected]
  | .take rows count, n, m, d, hsize, h => by
    have hq : (Query.take rows count).rows? = some rows := rfl
    obtain ⟨d₀, n₀, d₁, e, hrows, hpush, he, rfl⟩ := gives_take.mp h
    have hd := spans_of_below ih (Query.sizeOf_le_of_rows? hq hsize) hrows
    obtain ⟨hwithin, hpaging, hprojected⟩ := hd.pushedIf hpush
    have htake : d₀.paging.take?.isSome = rows.page.take?.isSome := by
      rw [hd.paging]
      exact Option.isSome_map
    rw [htake] at hpaging hprojected
    refine ⟨rfl, ?_, ?_, hwithin.step hq rfl fun e' he' => .inl he'⟩
    · rw [Query.paging_take, ← hpaging, eq_asCount_of_rowCount he]
    · rw [Query.isProjected_take, ← hprojected]
  | .orderBy rows key direction, n, m, d, hsize, h => by
    have hq : (Query.orderBy rows key direction).rows? = some rows := rfl
    obtain ⟨d₀, n₀, d₁, n₁, e, hrows, hpush, he, rfl⟩ := gives_orderBy.mp h
    obtain ⟨k', hk', -⟩ := gives_inRow.mp he
    have hd := spans_of_below ih (Query.sizeOf_le_of_rows? hq hsize) hrows
    obtain ⟨hwithin, hpaging, hprojected⟩ := hd.flat hpush
    refine ⟨rfl, hpaging, hprojected, hwithin.step hq rfl fun e' he' => ?_⟩
    refine (d₁.clauses_ordered _ e' he').imp_right ?_
    rintro rfl rows' hrows'
    exact allPaged_of_tested ih hsize (Query.key_mem_scalars rows key direction)
      (tested_of_gives hk' (mem_parts_of_asValue hrows' rfl))
  | .any .., _, _, _, _, h | .member .., _, _, _, _, h | .call .., _, _, _, _, h
  | .constant _, _, _, _, _, h | .parameter _, _, _, _, _, h | .binary .., _, _, _, _, h
  | .unary .., _, _, _, _, h => absurd h (not_gives_sequence rfl)

theorem spansBelow (caps : Capabilities) (size : Nat) : SpansBelow caps size := by
  induction size with
  | zero => exact fun _ _ _ _ hless => absurd hless (Nat.not_lt_zero _)
  | succ size ih => exact fun _ _ _ _ hless => spans_of_below ih (Nat.le_of_lt_succ hless)

/-- The draft of a sequence has its page. -/
theorem spans_of_gives (h : Gives (sequence caps q) n d k) : d.Spans q :=
  spansBelow caps (sizeOf q + 1) q n k d (Nat.lt_succ_self _) h

/-! ### Whole queries -/

/-- Every window in the statement of a query is that of a page of one of its sequences. -/
theorem page_of_ofQuery (h : Select.ofQuery caps q = .ok s) {t : Select} {around : List Item}
    (hblock : s.Block [] t around) {w : Window} (hw : t.window? = some w) :
    ∃ m meant, Meant q [] m meant ∧ m.page.paging.window? = .ok (some w) := by
  cases hq : q.isSequence with
  | true =>
    obtain ⟨d, k, hd, hfinish⟩ := sequence_of_ofQuery hq h
    obtain ⟨m, hm, hpage⟩ := (spans_of_gives hd).finish hfinish (.inl rfl) _ t around hblock w hw
    obtain ⟨meant, hm⟩ := hm []
    exact ⟨m, meant, hm, hpage⟩
  | false =>
    obtain ⟨rows, predicate?, e, _, rfl, he, rfl⟩ := any_of_ofQuery hq h
    obtain ⟨tested, rfl⟩ := existsRow_of_gives_any he
    rcases block_answering hblock with rfl | hblock
    · cases hw
    · obtain ⟨t', ht', _, d, _, -, hd, hexistence⟩ := tested_of_gives he (Expr.self_mem_parts _)
      obtain ⟨m, hm, hpage⟩ := (spans_of_gives hd).existence hexistence _ t around hblock w hw
      obtain ⟨meant, hm⟩ := hm []
      exact ⟨m, meant, .answered ht' hm, hpage⟩

/-- The bounds of every window in the statement of a query amount to the first and the last row of
    a page of one of its sequences.  They are numbers of 64 bits just when the page fits. -/
theorem bounds_of_ofQuery (h : Select.ofQuery caps q = .ok s) {ρ : Parameter → Int}
    (hρ : ∀ p, 0 ≤ ρ p ∧ ρ p ≤ lastRow) {t : Select} {around : List Item}
    (hblock : s.Block [] t around) {w : Window} (hw : t.window? = some w) :
    ∃ m meant, Meant q [] m meant ∧
      (w.lower :: w.upper?.toList).map (Expr.amount? ρ) = (m.page.bounds ρ).map some ∧
      ((∀ e ∈ w.lower :: w.upper?.toList, ∃ n, e.amount? ρ = some n ∧ IsInt64 n) ↔
        m.page.Fits ρ) := by
  obtain ⟨m, meant, hm, hpage⟩ := page_of_ofQuery h hblock hw
  have hbounds := amount?_of_window? hρ hpage
  refine ⟨m, meant, hm, hbounds, ?_⟩
  rw [forall_amount?_iff hbounds, isInt64_bounds_iff hρ hpage]

/-- The third page of the items that have parts. -/
def thirdPage : Query :=
  .take (.skip
    (.filter (.source "ITEM" none) (.any (.take (.source "PART" none) (.constant (.int16 1))) none))
    (.constant (.int32 20))) (.constant (.int64 10))

theorem bounds_of_ofQuery_thirdPage :
    ∃ s w, Select.ofQuery (.ofVersion ⟨3, 0, 0, 0⟩) thirdPage = .ok s ∧ s.window? = some w ∧
      ∃ m meant, Meant thirdPage [] m meant ∧
        (w.lower :: w.upper?.toList).map (Expr.amount? fun _ => 0) =
          (m.page.bounds fun _ => 0).map some ∧
        ((∀ e ∈ w.lower :: w.upper?.toList, ∃ n, e.amount? (fun _ => 0) = some n ∧ IsInt64 n) ↔
          m.page.Fits fun _ => 0) := by
  have h : Select.ofQuery (.ofVersion ⟨3, 0, 0, 0⟩) thirdPage = .ok _ := rfl
  exact ⟨_, _, h, rfl, bounds_of_ofQuery h (fun _ => ⟨by decide, by decide⟩) .self rfl⟩

/-- What is left of the items after the greatest number of them. -/
def afterLast : Query := .skip (.source "ITEM" none) (.constant (.int64 9223372036854775807))

/-- There is no row after the last one, but a window that starts there. -/
theorem not_isInt64_of_afterLast :
    ∃ s w n, Select.ofQuery (.ofVersion ⟨3, 0, 0, 0⟩) afterLast = .ok s ∧ s.window? = some w ∧
      w.lower.amount? (fun _ => 0) = some n ∧ ¬ IsInt64 n :=
  ⟨_, _, 9223372036854775808, rfl, rfl, rfl, by rw [IsInt64, lastRow]; decide⟩

end QueryLoom.Sql

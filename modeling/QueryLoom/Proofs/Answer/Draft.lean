/-
  QueryLoom/Proofs/Answer/Draft.lean
  ==================================
  **Drafts that answer a sequence.**  As in `Draft.Means`, every sorted arrangement of the rows
  that meet the conditions is, after the window, a list that the sequence may give.  But now
  there may be tests in the clauses.

  A test for rows drops columns and keys from its draft, and with them tests that no server
  ever looks at and that it need not accept.  So the keys and the rows that the sequence
  gives are no more than some that it may give; they are those of the statement only where the
  server accepts the clause that they come from.

    * `Draft.Admits` — what is chosen for the rows of the origin;
    * `Draft.Answers` — something can be chosen wherever the server accepts the draft;
    * `Draft.Answers.filtered` and its like — each operator keeps this;
    * `Draft.Answers.pushed` — so does pushing down;
    * `Draft.Answers.existence` — the statement of a test has rows if the sequence may give some.
-/
import QueryLoom.Proofs.Meaning.Accepted
import QueryLoom.Proofs.Answer.Possible
import QueryLoom.Proofs.Meaning.Sequence

namespace QueryLoom.Sql

variable {V : Type}

/-! ### Carried keys -/

/-- To rename a source is to read its columns under the new name. -/
theorem eval_rename (S : Server V) {old new : String} {ρ ρ' : Columns V} {e : Expr}
    (htests : ∀ rows, .existsRow rows ∉ e.parts)
    (hcolumns : ∀ source name, .column source name ∈ e.parts →
      ρ (renamed old new source) name = ρ' source name) :
    (e.rename old new).eval S ρ = e.eval S ρ' := by
  induction e using Expr.induction_on_operands with
  | column source name => exact hcolumns source name (Expr.self_mem_parts _)
  | existsRow rows => exact absurd (Expr.self_mem_parts _) (htests rows)
  | operator e op hop ih =>
    rw [eval_of_operator S ρ ((operator?_rename old new e).trans hop),
      eval_of_operator S ρ' hop, operands_rename, List.map_map]
    refine congrArg _ (List.map_congr_left fun o ho => ?_)
    exact ih o ho (fun rows hrows => htests rows (mem_parts_of_mem_operands ho hrows))
      fun source name hx => hcolumns source name (mem_parts_of_mem_operands ho hx)
  | _ => rfl

/-- A named column of the rows that come out has the value of its expression, if no other
    column has its name. -/
theorem output_value (S : Server V) (ρ : Columns V) (source? : Option String)
    {columns : List Column} (hnamed : AllNamed columns)
    (hdistinct : (columns.filterMap Column.alias?).Nodup) {c : Column} (hc : c ∈ columns)
    {name : String} (hname : c.alias? = some name) (r : Row V) :
    (S.output ρ source? columns r).value S.toInterpretation name
      = c.expr.eval S (S.inside ρ source? r) := by
  rw [output_eq_map S ρ source? (fun source hc => by cases hnamed _ hc), Row.value,
    lookup_of_named hnamed hdistinct hc hname fun c => c.expr.eval S (S.inside ρ source? r)]
  rfl

section Carried

variable {S : Server V} {ρ : Columns V} {s : Select} {old source : String}
  (hshows : s.ShowsNamed old) (halias : s.origin.alias? = some old)
  (hdistinct : (s.columns.filterMap Column.alias?).Nodup)

include hshows halias hdistinct

/-- A key has the same value before and after the row went through the derived table. -/
theorem carry_eval {key key' : Expr} (hcarry : s.carry source key = some key')
    (hfresh : ∀ other name, .column other name ∈ key.parts → other ≠ source) (r : Row V) :
    key'.eval S (S.inside ρ (some source) (S.output ρ (some old) s.columns r))
      = key.eval S (S.inside ρ (some old) r) := by
  rcases carry_eq_some hcarry with
    ⟨c, hc, name, hagrees, hname, rfl⟩ | ⟨shown, hcolumns, hshown, hsubquery, rfl⟩
  · rcases hshows with hnamed | hall
    · rw [← eval_eq_of_agrees S _ hagrees, ← output_value S ρ _ hnamed hdistinct hc hname]
      exact ρ.within_self source _ name
    · rw [hall, List.mem_singleton] at hc
      rw [hc] at hname
      cases hname
  · obtain rfl : old = shown := Option.some.inj (halias.symm.trans hshown)
    rw [hcolumns, output_allColumns]
    refine eval_rename S (not_exists_of_hasSubquery hsubquery) fun other name hx => ?_
    rw [Server.inside, Server.inside, renamed]
    split
    · rename_i hold
      rw [hold, Columns.within_self, Columns.within_self]
    · rename_i hold
      rw [Columns.within_ne (hfresh other name hx), Columns.within_ne hold]

/-- A row has the same keys before and after it went through the derived table. -/
theorem carryOrdering_eval {ordering : List OrderKey}
    (hcarry : s.carryOrdering source = .ok ordering)
    (hfresh : ∀ k ∈ s.ordering, ∀ other name, .column other name ∈ k.expr.parts → other ≠ source)
    (r : Row V) : S.keys ρ (some source) ordering (S.output ρ (some old) s.columns r)
      = S.keys ρ (some old) s.ordering r := by
  have hkeys := carryOrdering_eq_ok hcarry
  refine (map_eq_of_forall₂ hkeys fun k hk k' h => ?_).symm
  exact (carry_eval hshows halias hdistinct h.1 (hfresh k hk) r).symm

omit hshows halias hdistinct in
/-- A key that is carried is accepted if the columns are. -/
theorem accepted_of_carry {key key' : Expr} (hcarry : s.carry source key = some key')
    (hcolumns : ∀ c ∈ s.columns, c.expr.Accepted) : key.Accepted := by
  rcases carry_eq_some hcarry with ⟨c, hc, _, hagrees, _, _⟩ | ⟨_, _, _, hsubquery, _⟩
  · exact (hcolumns c hc).of_agrees hagrees
  · exact Expr.accepted_of_hasSubquery hsubquery

end Carried

/-! ### Invariants -/

/-- The rows of the origin that meet the conditions of a draft. -/
def Draft.kept (d : Draft) (S : Server V) (ρ : Columns V) : List (Row V) :=
  (d.select.origin.rows S ρ).filter (S.meets ρ (some d.row.actual) d.select.conditions)

/-- A server accepts the origin and the conditions of the draft, which no later step drops. -/
structure Draft.Accepted (d : Draft) : Prop where
  origin : d.select.origin.Accepted
  conditions : ∀ e ∈ d.select.conditions, e.Accepted

/-- With these keys and rows for the rows of the origin, every sorted arrangement of those that
    meet the conditions is a list that the sequence may give. -/
structure Draft.Admits (d : Draft) (S : Server V) (caps : Capabilities) (ρ : Columns V)
    (χ : Fields V) (q : Query) (keys : Row V → List V) (shown : Row V → Row V) : Prop where
  length (r : Row V) : (keys r).length = q.directions.length
  ordering : (∀ k ∈ d.select.ordering, k.expr.Accepted) →
    ∀ r, keys r = S.keys ρ (some d.row.actual) d.select.ordering r
  columns : (∀ c ∈ d.select.columns, c.expr.Accepted) →
    ∀ r, shown r = S.output ρ (some d.row.actual) (d.finalColumns d.row.actual) r
  bare : d.projected = false → ∀ r, shown r = r
  gives (arranged : List (Row V)) : arranged.Perm (d.kept S ρ) →
    (arranged.Pairwise fun r r' => S.inOrder q.directions (keys r) (keys r') = true) →
    q.mayGive S.toStore caps χ (d.paging.keep S.toEngine (arranged.map fun r => ⟨keys r, shown r⟩))

/-- The draft is one of the sequence. -/
structure Draft.Answers (d : Draft) (S : Server V) (caps : Capabilities) (ρ : Columns V)
    (χ : Fields V) (q : Query) : Prop where
  source : d.select.origin.alias? = some d.row.actual
  bare : d.projected = false → d.select.columns = []
  named : AllNamed d.select.columns
  directions : d.select.ordering.map OrderKey.direction = q.directions
  bounded : (d.select.origin.rows S ρ).length < 2 ^ 63
  admits : d.Accepted → ∃ keys shown, d.Admits S caps ρ χ q keys shown

/-! ### Scalars -/

/-- The value that the server computes for a scalar is one that the scalar may have, if the
    server accepts it. -/
def Expr.Answers (e : Expr) (S : Server V) (caps : Capabilities) (ρ : Columns V) (χ : Fields V)
    (p : Query) : Prop :=
  e.Accepted → p.mayBe S.toStore caps χ (e.eval S ρ)

/-- How many rows a window keeps depends on their number only. -/
theorem keep_length_congr (E : Engine V) {α β : Type} (p : Paging) {as : List α} {bs : List β}
    (h : as.length = bs.length) : (p.keep E as).length = (p.keep E bs).length := by
  cases htake : p.take? <;>
    simp only [Paging.keep, htake, Option.elim, List.length_take, List.length_drop, h]

section Steps

variable {S : Server V} {caps : Capabilities} {ρ : Columns V} {χ : Fields V} {q : Query}
  {d : Draft}

theorem answers_source (hdb : ∀ table, (S.tables table).length < 2 ^ 63) {table : String}
    {alias? : Option String} :
    Draft.Answers
      { select := .reading (.table table (Query.sourceAlias table alias?))
        row := ⟨Query.sourceAlias table alias?, Query.sourceAlias table alias?⟩ }
      S caps ρ χ (.source table alias?) where
  source := rfl
  bare _ := rfl
  named := fun c hc => absurd hc List.not_mem_nil
  directions := rfl
  bounded := by
    rw [Select.reading, Origin.rows, (S.arrive_perm _ _ _).length_eq]
    exact hdb table
  admits := by
    intro _
    refine ⟨fun _ => [], id, ?_⟩
    refine
      { length := fun _ => rfl
        ordering := fun _ _ => rfl
        columns := fun _ r => (output_allColumns S ρ _ r).symm
        bare := fun _ _ => rfl
        gives := ?_ }
    intro arranged harranged _
    refine ⟨arranged, harranged.trans ?_, rfl⟩
    rw [Draft.kept, Select.reading, Origin.rows]
    refine (List.Perm.of_eq (List.filter_eq_self.mpr fun _ _ => rfl)).trans (S.arrive_perm _ _ _)

theorem Draft.Accepted.of_filtered {c : Expr} (h : (d.filtered c).Accepted) : d.Accepted :=
  ⟨h.origin, fun e he => h.conditions e (List.mem_append_left _ he)⟩

theorem kept_filtered (c : Expr) : (d.filtered c).kept S ρ
    = (d.kept S ρ).filter fun r => S.holds (c.eval S (S.inside ρ (some d.row.actual) r)) := by
  rw [Draft.kept, Draft.kept, List.filter_filter]
  refine List.filter_congr fun r _ => ?_
  rw [Bool.and_comm]
  simp [Draft.filtered, Server.meets]

theorem Draft.Answers.filtered (hd : d.Answers S caps ρ χ q) (hpaged : d.isPaged = false)
    (hproj : d.projected = false) {predicate : Query} {e : Expr}
    (he : ∀ r : Row V, e.Answers S caps (S.inside ρ (some d.row.actual) r)
      (χ.within q.rowAlias (r.value S.toInterpretation)) predicate) :
    (d.filtered e).Answers S caps ρ χ (.filter q predicate) where
  source := hd.source
  bare := hd.bare
  named := hd.named
  directions := hd.directions
  bounded := hd.bounded
  admits := by
    intro haccepted
    obtain ⟨keys, shown, hadmits⟩ := hd.admits haccepted.of_filtered
    have hpredicate : e.Accepted := haccepted.conditions e (by simp [Draft.filtered])
    refine ⟨keys, shown, ?_⟩
    refine
      { length := hadmits.length
        ordering := hadmits.ordering
        columns := hadmits.columns
        bare := hadmits.bare
        gives := ?_ }
    intro arranged harranged hsorted
    let keeps : Row V → Bool := fun r =>
      S.holds (e.eval S (S.inside ρ (some d.row.actual) r))
    rw [kept_filtered] at harranged
    -- the rows that the condition drops are put back in among those that it keeps
    obtain ⟨all, hall, hallsorted, hfilter⟩ := exists_sorted_filter (p := keeps)
      (fun a b c => S.inOrder_trans q.directions (keys a) (keys b) (keys c))
      (fun a b => S.inOrder_total q.directions (keys a) (keys b)) harranged hsorted
    refine ⟨_, hadmits.gives all hall hallsorted, ?_⟩
    have hpaging := paging_eq_of_not_paged hpaged
    have hrows : (all.map fun r => (⟨keys r, shown r⟩ : Ranked V)).filter (fun x => keeps x.row)
        = arranged.map fun r => ⟨keys r, shown r⟩ := by
      rw [List.filter_map, ← hfilter]
      refine congrArg _ (List.filter_congr fun r _ => ?_)
      rw [Function.comp, hadmits.bare hproj]
    simp only [Draft.filtered, hpaging, keep_empty]
    rw [← hrows]
    exact Kept.filter fun x _ => ⟨_, he x.row hpredicate, rfl⟩

/-- There is a row that a projection may show for each row of the origin: the one that the columns
    give, if the server takes them. -/
theorem exists_shown (d : Draft) {columns : List (String × Query)} {cs : List Column}
    (hnamed : AllNamed cs) (hnames : cs.map Column.alias? = columns.map fun c => some c.1)
    (hcs : (∀ c ∈ cs, c.expr.Accepted) → ∀ r : Row V,
      Query.mayShow S.toStore caps (χ.within q.rowAlias (r.value S.toInterpretation)) columns
        (cs.map fun c =>
          (c.alias?.getD "", c.expr.eval S (S.inside ρ (some d.row.actual) r)))) :
    ∃ shown : Row V → Row V,
      ((∀ c ∈ cs, c.expr.Accepted) → ∀ r, shown r = S.output ρ (some d.row.actual)
        ((d.projecting cs).finalColumns d.row.actual) r) ∧
      ∀ r, if columns.isEmpty then shown r = r
        else Query.mayShow S.toStore caps (χ.within q.rowAlias (r.value S.toInterpretation)) columns
          (shown r) := by
  cases columns with
  | nil =>
    obtain rfl : cs = [] := List.map_eq_nil_iff.mp hnames
    exact ⟨id, fun _ r => (output_allColumns S ρ _ r).symm, fun _ => rfl⟩
  | cons column rest =>
    have hfinal : (d.projecting cs).finalColumns d.row.actual = cs := by
      cases cs with
      | nil => cases hnames
      | cons c cs => rfl
    rw [hfinal]
    by_cases haccepted : ∀ c ∈ cs, c.expr.Accepted
    · refine ⟨S.output ρ (some d.row.actual) cs, fun _ _ => rfl, fun r => ?_⟩
      rw [output_eq_map S ρ _ (fun source hc => by cases hnamed _ hc) r]
      exact hcs haccepted r
    · -- nobody looks at the columns, so any row will do
      choose shown hshown using fun r : Row V => Query.exists_mayShow S.toStore caps
        (χ.within q.rowAlias (r.value S.toInterpretation)) (column :: rest)
      exact ⟨shown, fun h => absurd h haccepted, hshown⟩

theorem Draft.Answers.projecting (hd : d.Answers S caps ρ χ q) (hproj : d.projected = false)
    {columns : List (String × Query)} {cs : List Column}
    (hnames : cs.map Column.alias? = columns.map fun c => some c.1)
    (hcs : (∀ c ∈ cs, c.expr.Accepted) → ∀ r : Row V,
      Query.mayShow S.toStore caps (χ.within q.rowAlias (r.value S.toInterpretation)) columns
        (cs.map fun c =>
          (c.alias?.getD "", c.expr.eval S (S.inside ρ (some d.row.actual) r)))) :
    (d.projecting cs).Answers S caps ρ χ (.project q columns) := by
  have hnamed : AllNamed cs := by
    intro c hc
    have hmem := List.mem_map_of_mem (f := Column.alias?) hc
    rw [hnames] at hmem
    obtain ⟨column, _, hcolumn⟩ := List.mem_map.mp hmem
    rw [← hcolumn]
    rfl
  obtain ⟨shown, hcolumns, hshown⟩ := exists_shown d hnamed hnames hcs
  refine
    { source := hd.source
      bare := fun h => absurd h (by simp [Draft.projecting])
      named := hnamed
      directions := hd.directions
      bounded := hd.bounded
      admits := ?_ }
  intro haccepted
  obtain ⟨keys, before, hadmits⟩ := hd.admits ⟨haccepted.origin, haccepted.conditions⟩
  refine ⟨keys, shown, ?_⟩
  refine
    { length := hadmits.length
      ordering := hadmits.ordering
      columns := hcolumns
      bare := fun h => absurd h (by simp [Draft.projecting])
      gives := ?_ }
  intro arranged harranged hsorted
  refine ⟨_, hadmits.gives arranged harranged hsorted, ?_⟩
  rw [Paging.keep_map, Paging.keep_map, List.forall₂_map_left_iff, List.forall₂_map_right_iff]
  refine List.forall₂_same.mpr fun r _ => ?_
  simp only [hadmits.bare hproj, true_and]
  exact hshown r

theorem Draft.Answers.skip (hd : d.Answers S caps ρ χ q) (hpaged : d.isPaged = false)
    {count : Query} {e : Expr} (he : Paging.rowCount PagingOperator.skip.name count = .ok e) :
    Draft.Answers { d with paging := { d.paging with skip? := some e } } S caps ρ χ
      (.skip q count) :=
  { hd with
    admits := by
      intro haccepted
      obtain ⟨keys, shown, hadmits⟩ := hd.admits ⟨haccepted.origin, haccepted.conditions⟩
      refine ⟨keys, shown, { hadmits with gives := ?_ }⟩
      intro arranged harranged hsorted
      refine ⟨_, hadmits.gives arranged harranged hsorted, ?_⟩
      rw [paging_eq_of_not_paged hpaged, keep_empty, ← rowNumber_eq_rowCount S.toEngine he]
      rfl }

theorem Draft.Answers.take (hd : d.Answers S caps ρ χ q) (htake : d.paging.take? = none)
    {count : Query} {e : Expr} (he : Paging.rowCount PagingOperator.take.name count = .ok e) :
    Draft.Answers { d with paging := { d.paging with take? := some e } } S caps ρ χ
      (.take q count) :=
  { hd with
    admits := by
      intro haccepted
      obtain ⟨keys, shown, hadmits⟩ := hd.admits ⟨haccepted.origin, haccepted.conditions⟩
      refine ⟨keys, shown, { hadmits with gives := ?_ }⟩
      intro arranged harranged hsorted
      refine ⟨_, hadmits.gives arranged harranged hsorted, ?_⟩
      rw [← rowNumber_eq_rowCount S.toEngine he]
      simp only [Paging.keep, htake, Option.elim] }

theorem Draft.Answers.ordered (hd : d.Answers S caps ρ χ q) (hpaged : d.isPaged = false)
    (hproj : d.projected = false) {key : Query} {direction : Direction} {e : Expr}
    (he : ∀ r : Row V, e.Answers S caps (S.inside ρ (some d.row.actual) r)
      (χ.within q.rowAlias (r.value S.toInterpretation)) key) :
    (d.ordered ⟨e, direction⟩).Answers S caps ρ χ (.orderBy q key direction) := by
  have hdirections : (d.ordered ⟨e, direction⟩).select.ordering.map
      OrderKey.direction = q.directions ++ [direction] := by
    simp only [Draft.ordered, List.map_append, List.map_cons, List.map_nil, hd.directions]
  have hlast : ∃ last : Row V → V,
      (e.Accepted → ∀ r, last r = e.eval S (S.inside ρ (some d.row.actual) r)) ∧
      ∀ r, key.mayBe S.toStore caps (χ.within q.rowAlias (r.value S.toInterpretation)) (last r) := by
    by_cases haccepted : e.Accepted
    · exact ⟨_, fun _ _ => rfl, fun r => he r haccepted⟩
    · -- nobody looks at the key, so any value will do
      choose v hv using fun r : Row V => Query.exists_mayBe S.toStore caps
        (χ.within q.rowAlias (r.value S.toInterpretation)) key
      exact ⟨v, fun h => absurd h haccepted, hv⟩
  obtain ⟨last, hlastkey, hlast⟩ := hlast
  refine
    { source := hd.source
      bare := hd.bare
      named := hd.named
      directions := hdirections
      bounded := hd.bounded
      admits := ?_ }
  intro haccepted
  obtain ⟨keys, shown, hadmits⟩ := hd.admits ⟨haccepted.origin, haccepted.conditions⟩
  refine ⟨fun r => keys r ++ [last r], shown, ?_⟩
  refine
    { length := fun r => by simp [Query.directions, hadmits.length]
      ordering := ?_
      columns := hadmits.columns
      bare := hadmits.bare
      gives := ?_ }
  · intro hkeys r
    rw [hadmits.ordering (fun k hk => hkeys k (List.mem_append_left _ hk)),
      hlastkey (hkeys ⟨e, direction⟩ (by simp [Draft.ordered]))]
    simp [Draft.ordered, Server.keys]
  · intro arranged harranged hsorted
    have hless : arranged.Pairwise fun r r' => S.inOrder q.directions (keys r) (keys r') = true :=
      hsorted.imp fun h => S.inOrder_of_append (hadmits.length _) (hadmits.length _) h
    have hpaging := paging_eq_of_not_paged hpaged
    have hbefore := hadmits.gives arranged harranged hless
    rw [hpaging, keep_empty] at hbefore
    refine ⟨_, arranged.map fun r => ⟨keys r ++ [last r], shown r⟩, hbefore, ?_, ?_⟩
    · rw [List.forall₂_map_left_iff, List.forall₂_map_right_iff, List.forall₂_same]
      exact fun r _ => ⟨last r, (hadmits.bare hproj r).symm ▸ hlast r, rfl⟩
    · -- the arrangement is sorted already, so sorting it again changes nothing
      rw [List.mergeSort_of_pairwise]
      · exact congrArg (Paging.keep S.toEngine · _) hpaging
      · rw [List.pairwise_map]
        exact hsorted

/-! ### Derived tables -/

/-- The statement of a draft with other columns.  It has the ordering of the draft if its window
    depends on it. -/
def Draft.selecting (d : Draft) (columns : List Column) (w? : Option Window) : Select :=
  { d.select with
    columns
    ordering := if d.isPaged then d.select.ordering else []
    window? := w? }

/-- The columns of a draft are accepted if those are that its statement has. -/
theorem Draft.accepted_columns {source : String}
    (h : ∀ c ∈ d.finalColumns source, c.expr.Accepted) :
    ∀ c ∈ d.select.columns, c.expr.Accepted := by
  intro c hc
  refine h c ?_
  rw [Draft.finalColumns, List.isEmpty_eq_false_iff_exists_mem.mpr ⟨c, hc⟩]
  exact hc

/-- The rows of a finished draft are what its window keeps of some sorted arrangement. -/
theorem Draft.Answers.exists_arranged (hd : d.Answers S caps ρ χ q) {w? : Option Window}
    (hw : d.paging.window? = .ok w?) (columns : List Column) (ordering : List OrderKey) :
    ∃ arranged : List (Row V), arranged.Perm (d.kept S ρ) ∧
      (arranged.Pairwise fun r r' => S.ordered ρ (some d.row.actual) ordering r r' = true) ∧
      Select.run S ρ { d.select with columns, ordering, window? := w? }
        = (d.paging.keep S.toEngine arranged).map (S.output ρ (some d.row.actual) columns) := by
  refine ⟨(d.kept S ρ).mergeSort (S.ordered ρ (some d.row.actual) ordering),
    List.mergeSort_perm _ _, ?_, ?_⟩
  · refine List.pairwise_mergeSort (fun a b c hab hbc => ?_) (fun a b => ?_) _
    · exact S.inOrder_trans _ _ _ _ hab hbc
    · exact S.inOrder_total _ _ _
  · have hlength : ((d.kept S ρ).mergeSort (S.ordered ρ (some d.row.actual) ordering)).length
        < 2 ^ 63 := by
      refine Nat.lt_of_le_of_lt ?_ hd.bounded
      rw [List.length_mergeSort]
      exact List.length_filter_le _ _
    rw [run_eq, ← keepOption_eq_keep S.toEngine hw hlength]
    simp only [hd.source]
    rfl

/-- The arrangement is that of the ordering of the draft if there is a window. -/
theorem Draft.Answers.exists_run (hd : d.Answers S caps ρ χ q) {w? : Option Window}
    (hw : d.paging.window? = .ok w?) (columns : List Column) :
    ∃ arranged : List (Row V), arranged.Perm (d.kept S ρ) ∧
      (d.paging.isEmpty = true ∨ arranged.Pairwise fun r r' =>
        S.ordered ρ (some d.row.actual) d.select.ordering r r' = true) ∧
      (d.selecting columns w?).run S ρ
        = (d.paging.keep S.toEngine arranged).map (S.output ρ (some d.row.actual) columns) := by
  obtain ⟨arranged, harranged, hsorted, hrun⟩ := hd.exists_arranged hw columns
    (if d.isPaged then d.select.ordering else [])
  refine ⟨arranged, harranged, ?_, hrun⟩
  cases hpaged : d.isPaged with
  | false => exact .inl (by simpa [Draft.isPaged] using hpaged)
  | true =>
    rw [hpaged] at hsorted
    exact .inr hsorted

/-- Where a draft is pushed down to. -/
theorem exists_selecting {n m : Naming} {d' : Draft}
    (hsource : d.select.origin.alias? = some d.row.actual) (hpush : Gives (pushDown d) n d' m) :
    ∃ w? ordering, d.paging.window? = .ok w? ∧
      Select.carryOrdering { d.select with columns := d.finalColumns d.row.actual, window? := w? }
        (Text.numbered "t" n.next) = .ok ordering ∧
      d' = {
        select := { Select.reading (.derived (d.selecting (d.finalColumns d.row.actual) w?)
          (Text.numbered "t" n.next)) with ordering }
        row := ⟨d.row.logical, Text.numbered "t" n.next⟩ } := by
  obtain ⟨inner, ordering, hfinish, hcarry, _, rfl⟩ := gives_pushDown.mp hpush
  obtain ⟨w, hw, rfl⟩ := (Draft.finish_eq_ok hsource).mp hfinish
  refine ⟨w, ordering, hw, hcarry, ?_⟩
  rw [Select.isPaged, isPaged_eq_isEmpty hw, Draft.selecting, Draft.isPaged]
  cases d.paging.isEmpty <;> rfl

theorem Draft.Answers.pushed (hd : d.Answers S caps ρ χ q) {frames : List Frame} {n m : Naming}
    (htracks : d.Tracks caps frames n q) {d' : Draft} (hpush : Gives (pushDown d) n d' m) :
    d'.Answers S caps ρ χ q := by
  obtain ⟨w, ordering, hw, hcarry, rfl⟩ := exists_selecting hd.source hpush
  have hshows : Select.ShowsNamed
      { d.select with columns := d.finalColumns d.row.actual, window? := w } d.row.actual :=
    finalColumns_shown d d.row.actual hd.named
  have hdirections := (carryOrdering_directions hcarry).trans hd.directions
  obtain ⟨inside, hinside, hinsidesorted, hrun⟩ := hd.exists_run hw (d.finalColumns d.row.actual)
  have harrived := S.arrive_perm (.derived (d.selecting (d.finalColumns d.row.actual) w)
    (Text.numbered "t" n.next)) ρ ((d.selecting (d.finalColumns d.row.actual) w).run S ρ)
  rw [hrun] at harrived
  refine
    { source := rfl
      bare := fun _ => rfl
      named := fun c hc => absurd hc List.not_mem_nil
      directions := hdirections
      bounded := ?_
      admits := ?_ }
  · rw [Select.reading, Origin.rows, hrun, harrived.length_eq, List.length_map]
    refine Nat.lt_of_le_of_lt (keep_length_le S.toEngine d.paging inside) ?_
    rw [hinside.length_eq]
    exact Nat.lt_of_le_of_lt (List.length_filter_le _ _) hd.bounded
  · intro haccepted
    obtain ⟨hinner, hdistinct⟩ := haccepted.origin _ _ rfl
    obtain ⟨keys, shown, hadmits⟩ := hd.admits ⟨hinner.origin_accepted, hinner.conditions⟩
    have hkeys := hadmits.ordering fun k hk => by
      obtain ⟨k', _, hk'⟩ := exists_of_forall₂_left (carryOrdering_eq_ok hcarry) hk
      exact accepted_of_carry hk'.1 hinner.columns
    have hshown := hadmits.columns (Draft.accepted_columns hinner.columns)
    have hcarried := carryOrdering_eval (S := S) (ρ := ρ) hshows hd.source hdistinct hcarry
      fun k hk other name hx => htracks.ne_next_of_key hk hx
    refine ⟨S.keys ρ (some (Text.numbered "t" n.next)) ordering, id, ?_⟩
    refine
      { length := ?_
        ordering := fun _ _ => rfl
        columns := fun _ r => (output_allColumns S ρ _ r).symm
        bare := fun _ _ => rfl
        gives := ?_ }
    · intro r
      rw [Server.keys, List.length_map, ← hdirections, List.length_map]
    · intro arranged harranged hsorted
      have hall : arranged.Perm ((d.paging.keep S.toEngine inside).map
          (S.output ρ (some d.row.actual) (d.finalColumns d.row.actual))) := by
        refine (harranged.trans (.of_eq ?_)).trans harrived
        rw [Draft.kept, Select.reading, Origin.rows, hrun]
        exact List.filter_eq_self.mpr fun _ _ => rfl
      have hordered : ∀ r r', S.inOrder q.directions (keys r) (keys r')
          = S.ordered ρ (some d.row.actual) d.select.ordering r r' := by
        intro r r'
        rw [hkeys, hkeys, ← hd.directions]
        rfl
      obtain ⟨others, hothers, hotherssorted, hkept⟩ :=
        exists_inner_arrangement hall hinsidesorted (by
          rintro others rfl
          rw [List.pairwise_map] at hsorted
          refine hsorted.imp fun h => ?_
          rw [← hordered, hkeys, hkeys, ← hcarried, ← hcarried]
          exact h)
      have hgives := hadmits.gives others (hothers.trans hinside)
        (hotherssorted.imp fun h => (hordered _ _).trans h)
      rw [keep_empty, ← hkept, List.map_map]
      rw [Paging.keep_map] at hgives
      refine cast (congrArg (q.mayGive S.toStore caps χ) ?_) hgives
      refine List.map_congr_left fun r _ => ?_
      rw [hshown, hkeys, ← hcarried]
      rfl

/-! ### Tests -/

/-- The statement of a test has rows exactly if the sequence gives some, for some rows that it may
    give. -/
theorem Draft.Answers.existence (hd : d.Answers S caps ρ χ q) {s : Select}
    (hexistence : d.existence = .ok s) (haccepted : s.Accepted) :
    ∃ out, q.mayGive S.toStore caps χ out ∧ (s.run S ρ).isEmpty = out.isEmpty := by
  obtain ⟨w, hw, rfl⟩ := (Draft.existence_eq_ok hd.source).mp hexistence
  obtain ⟨keys, shown, hadmits⟩ := hd.admits ⟨haccepted.origin_accepted, haccepted.conditions⟩
  obtain ⟨arranged, harranged, _, hrun⟩ := hd.exists_run hw [⟨.int 1, none⟩]
  let le : Row V → Row V → Bool := fun r r' => S.inOrder q.directions (keys r) (keys r')
  have hperm : ((d.kept S ρ).mergeSort le).Perm (d.kept S ρ) := List.mergeSort_perm _ _
  refine ⟨_, hadmits.gives ((d.kept S ρ).mergeSort le) hperm ?_, ?_⟩
  · refine List.pairwise_mergeSort (fun a b c hab hbc => ?_) (fun a b => ?_) _
    · exact S.inOrder_trans _ _ _ _ hab hbc
    · exact S.inOrder_total _ _ _
  · -- how many rows there are does not depend on how they are arranged
    have hlength := keep_length_congr S.toEngine d.paging (hperm.trans harranged.symm).length_eq
    refine (congrArg List.isEmpty hrun).trans ?_
    rw [Paging.keep_map, List.isEmpty_map, List.isEmpty_map, Bool.eq_iff_iff,
      List.isEmpty_iff_length_eq_zero, List.isEmpty_iff_length_eq_zero, hlength]

end Steps

end QueryLoom.Sql

/-
  QueryLoom/Proofs/Meaning/Sequence.lean
  ======================================
  **Compiling a sequence keeps its meaning.**  `Draft.Means` ties the draft of a sequence to
  the sequence: every sorted arrangement of the rows that meet the conditions is, after the
  window and the columns, a list that the sequence may give, and the keys of the ordering
  are the keys that its rows carry.  Each operator of a sequence keeps this, and so does
  pushing down:

    * a condition is undone by merging the rows it drops back into the arrangement;
    * an ordering is one more key of the same arrangement;
    * a derived table delivers its rows in another order, and the arrangement inside can be
      chosen anew, so that its window comes out in that order.

  A key that became a column of a derived table is read by the name of that column.  So all of
  this is about statements that a server accepts, where no derived table has two columns of one
  name; without that it fails, as `not_yields_rankTwice` shows.

  `yields_of_ofQuery` is the result for whole statements.
-/
import Mathlib.Data.List.Permutation
import QueryLoom.Proofs.Meaning.Accepted
import QueryLoom.Proofs.Meaning.Carried

namespace QueryLoom.Sql

variable {V : Type}

/-! ### Drafts and sequences -/

/-- The row that a row of the origin becomes, with its keys. -/
def Draft.ranked (I : Interpretation V) (d : Draft) (r : Row V) : Ranked V :=
  ⟨orderingKeys I (some d.row.actual) d.select.ordering r,
    outputRow I (some d.row.actual) (d.finalColumns d.row.actual) r⟩

/-- The draft is one of the sequence. -/
structure Draft.Means (d : Draft) (E : Engine V) (caps : Capabilities) (db : Database V)
    (q : Query) : Prop where
  source : d.select.origin.alias? = some d.row.actual
  logical : d.row.logical = q.rowAlias
  bare : d.projected = false → d.select.columns = []
  named : AllNamed d.select.columns
  keys : ∀ k ∈ d.select.ordering, k.expr.ReadsOnly E.toInterpretation d.row.actual
  directions : d.select.ordering.map OrderKey.direction = q.directions
  bounded : ∀ arrived : List (Row V), d.select.origin.delivers E db arrived →
    arrived.length < 2 ^ 63
  yields : d.select.origin.Accepted → ∀ arrived arranged : List (Row V),
    d.select.origin.delivers E db arrived →
    arranged.Perm (arrived.filter (E.meets (some d.row.actual) d.select.conditions)) →
    (arranged.Pairwise fun r r' =>
      E.ordered (some d.row.actual) d.select.ordering r r' = true) →
    q.yields E caps db (d.paging.keep E (arranged.map (d.ranked E.toInterpretation)))

/-! ### Scalars of a single row -/

/-- The only row in scope is read as the query reads it. -/
theorem reads_single {n : Naming} {row : Scope} (hn : n.scopes = [row]) {ρ : Columns V}
    {χ : Fields V} (hnone : ∀ name, ρ row.actual name = χ none name)
    (hsome : ∀ name, ρ row.actual name = χ (some row.logical) name) : n.Reads ρ χ := by
  intro alias? row' hrow' name
  cases alias? with
  | none =>
    simp only [Naming.row?, hn, List.head?_cons, Option.some.injEq] at hrow'
    rw [← hrow']
    exact hnone name
  | some source =>
    simp only [Naming.row?, hn, List.find?_cons, List.find?_nil] at hrow'
    split at hrow'
    · rename_i heq
      rw [← Option.some.inj hrow', ← eq_of_beq heq]
      exact hsome name
    · cases hrow'

theorem reads_ofRow (I : Interpretation V) {n : Naming} {row : Scope} (hn : n.scopes = [row])
    (r : Row V) : n.Reads (Columns.ofRow I (some row.actual) r) (.ofRow I row.logical r) := by
  refine reads_single hn ?_ ?_ <;> simp [Columns.ofRow, Fields.ofRow]

/-- A scalar drafted with one row in scope reads the columns of that row only. -/
theorem readsOnly_of_gives {I : Interpretation V} {caps : Capabilities}
    (hI : I.Transparent caps) {n m : Naming} {row : Scope} (hn : n.scopes = [row]) {q : Query}
    {e : Expr} (h : Gives (expression caps q) n e m) : e.ReadsOnly I row.actual := by
  intro ρ ρ' hρ
  let χ : Fields V := fun _ name => ρ row.actual name
  rw [value_of_gives hI (reads_single (χ := χ) hn (fun _ => rfl) fun _ => rfl) h,
    value_of_gives hI (reads_single (χ := χ) hn (fun name => (hρ name).symm)
      fun name => (hρ name).symm) h]

theorem readsOnly_asValue {I : Interpretation V} {caps : Capabilities}
    (hI : I.Transparent caps) {source : String} {e : Expr} (he : e.ReadsOnly I source) :
    (asValue caps e).ReadsOnly I source := by
  intro ρ ρ' hρ
  rw [(hI ρ e).1, (hI ρ' e).1]
  exact he ρ ρ' hρ

/-! ### Facts about drafts -/

theorem finalColumns_shown (d : Draft) (source : String) (hnamed : AllNamed d.select.columns) :
    AllNamed (d.finalColumns source) ∨ d.finalColumns source = [⟨.allColumns source, none⟩] := by
  unfold Draft.finalColumns
  split
  · exact .inr rfl
  · exact .inl hnamed

theorem outputRow_bare (I : Interpretation V) {d : Draft} {source : String}
    (h : d.select.columns = []) (r : Row V) :
    outputRow I (some source) (d.finalColumns source) r = r := by
  simp only [Draft.finalColumns, h, List.isEmpty_nil, if_true]
  exact outputRow_allColumns I source r

theorem paging_eq_of_not_paged {d : Draft} (h : d.isPaged = false) : d.paging = {} := by
  rcases d with ⟨select, row, ⟨skip?, take?⟩, projected⟩
  cases skip? <;> cases take? <;> first | rfl | simp [Draft.isPaged, Paging.isEmpty] at h

theorem keep_empty (E : Engine V) {α : Type} (rows : List α) : ({} : Paging).keep E rows = rows := by
  rfl

theorem ordered_trans (E : Engine V) (source? : Option String) (ordering : List OrderKey)
    (a b c : Row V) (hab : E.ordered source? ordering a b = true)
    (hbc : E.ordered source? ordering b c = true) : E.ordered source? ordering a c = true :=
  E.inOrder_trans _ _ _ _ hab hbc

theorem ordered_total (E : Engine V) (source? : Option String) (ordering : List OrderKey)
    (a b : Row V) : (E.ordered source? ordering a b || E.ordered source? ordering b a) = true :=
  E.inOrder_total _ _ _

theorem ordered_of_append (E : Engine V) (source? : Option String)
    {ordering more : List OrderKey} {r r' : Row V}
    (h : E.ordered source? (ordering ++ more) r r' = true) :
    E.ordered source? ordering r r' = true := by
  simp only [Engine.ordered, orderingKeys, List.map_append] at h ⊢
  exact E.inOrder_of_append (by simp) (by simp) h

theorem filter_meets_nil (E : Engine V) (source? : Option String) (rows : List (Row V)) :
    rows.filter (E.meets source? []) = rows :=
  List.filter_eq_self.mpr fun _ _ => rfl

theorem meets_append (E : Engine V) (source? : Option String) (conditions : List Expr)
    (c : Expr) (r : Row V) :
    E.meets source? (conditions ++ [c]) r = (E.meets source? conditions r
      && E.holds (c.value E.toInterpretation (.ofRow E.toInterpretation source? r))) := by
  simp [Engine.meets]

/-! ### The operators -/

section Steps

variable {E : Engine V} {caps : Capabilities} {db : Database V} {q : Query} {d : Draft}
  {n m : Naming}

theorem means_source (hdb : ∀ table, (db table).length < 2 ^ 63) {table : String}
    {alias? : Option String} :
    Draft.Means
      { select := .reading (.table table (Query.sourceAlias table alias?))
        row := ⟨Query.sourceAlias table alias?, Query.sourceAlias table alias?⟩ }
      E caps db (.source table alias?) where
  source := rfl
  logical := rfl
  bare _ := rfl
  named := fun c hc => absurd hc List.not_mem_nil
  keys := fun k hk => absurd hk List.not_mem_nil
  directions := rfl
  bounded := by
    intro arrived harrived
    rw [Select.reading, Origin.delivers] at harrived
    rw [harrived.length_eq]
    exact hdb table
  yields := by
    intro _ arrived arranged harrived harranged _
    rw [Select.reading, Origin.delivers] at harrived
    have hall : arranged.Perm arrived := harranged.trans (.of_eq (filter_meets_nil E _ arrived))
    refine ⟨arranged, hall.trans harrived, ?_⟩
    rw [keep_empty]
    refine List.map_congr_left fun r _ => ?_
    simp only [Draft.ranked, Select.reading, orderingKeys, List.map_nil]
    rw [outputRow_bare]
    rfl

theorem Draft.Means.filter (hd : d.Means E caps db q) (hI : E.Transparent caps)
    (hn : n.scopes = []) (hpaged : d.isPaged = false) (hproj : d.projected = false)
    {predicate : Query} {e : Expr} (he : Gives (inRow d.row (expression caps predicate)) n e m) :
    (d.filtered (asPredicate caps e)).Means E caps db (.filter q predicate) where
  source := hd.source
  logical := hd.logical
  bare := hd.bare
  named := hd.named
  keys := hd.keys
  directions := hd.directions
  bounded := hd.bounded
  yields := by
    intro haccepted arrived arranged harrived harranged hsorted
    obtain ⟨k, hk, _⟩ := gives_inRow.mp he
    let keeps : Row V → Bool := fun r =>
      E.holds ((asPredicate caps e).value E.toInterpretation
        (.ofRow E.toInterpretation (some d.row.actual) r))
    have hkept : arranged.Perm
        ((arrived.filter (E.meets (some d.row.actual) d.select.conditions)).filter keeps) := by
      rw [List.filter_filter]
      refine harranged.trans (List.Perm.of_eq (List.filter_congr fun r _ => ?_))
      rw [Bool.and_comm]
      exact meets_append E _ _ _ r
    obtain ⟨all, hall, hallsorted, hfilter⟩ := exists_sorted_filter
      (ordered_trans E _ _) (ordered_total E _ _) hkept hsorted
    refine ⟨_, hd.yields haccepted arrived all harrived hall hallsorted, ?_⟩
    have hpaging := paging_eq_of_not_paged hpaged
    simp only [Draft.filtered, hpaging, keep_empty, List.filter_map, ← hfilter]
    refine congrArg _ (List.filter_congr fun r _ => ?_)
    have hscopes : ({ n with scopes := d.row :: n.scopes } : Naming).scopes = [d.row] := by
      simp only [hn]
    simp only [keeps, Function.comp, Draft.ranked, outputRow_bare _ (hd.bare hproj),
      (hI _ e).2, ← hd.logical, value_of_gives hI (reads_ofRow E.toInterpretation hscopes r) hk]

theorem Draft.Means.project (hd : d.Means E caps db q) (hI : E.Transparent caps)
    (hn : n.scopes = []) (hproj : d.projected = false) {columns : List (String × Query)}
    {cs : List Column} (hcs : Gives (inRow d.row (projection caps columns)) n cs m) :
    (d.projecting cs).Means E caps db (.project q columns) := by
  obtain ⟨k, hk, _⟩ := gives_inRow.mp hcs
  have hscopes : ({ n with scopes := d.row :: n.scopes } : Naming).scopes = [d.row] := by
    simp only [hn]
  have hcells := fun r : Row V =>
    columns_of_gives hI (reads_ofRow E.toInterpretation hscopes r) hk
  have hnamed : AllNamed cs := by
    intro c hc
    have hmem := List.mem_map_of_mem
      (f := fun c : Column => (c.alias?, c.expr.value E.toInterpretation
        (.ofRow E.toInterpretation (some d.row.actual) []))) hc
    rw [hcells []] at hmem
    obtain ⟨column, _, hcolumn⟩ := List.mem_map.mp hmem
    rw [← (Prod.mk.inj hcolumn).1]
    rfl
  have hrow : ∀ r : Row V,
      outputRow E.toInterpretation (some d.row.actual)
          ((d.projecting cs).finalColumns d.row.actual) r
        = Query.projected E.toInterpretation caps q.rowAlias columns r := by
    intro r
    have hr := hcells r
    simp only [Draft.finalColumns, Draft.projecting, Query.projected, ← hd.logical]
    cases columns with
    | nil =>
      obtain rfl : cs = [] := List.map_eq_nil_iff.mp hr
      exact outputRow_allColumns _ _ r
    | cons column rest =>
      have hne : cs.isEmpty = false := by
        cases cs with
        | nil => cases hr
        | cons c cs => rfl
      simp only [hne, Bool.false_eq_true, if_false, List.isEmpty_cons]
      rw [outputRow_eq_map _ _ hnamed]
      have hcell := congrArg (List.map fun cell : Option String × V => (cell.1.getD "", cell.2)) hr
      simpa only [List.map_map, Function.comp_def, Option.getD_some] using hcell
  exact
    { source := hd.source
      logical := hd.logical
      bare := fun h => absurd h (by simp [Draft.projecting])
      named := hnamed
      keys := hd.keys
      directions := hd.directions
      bounded := hd.bounded
      yields := by
        intro haccepted arrived arranged harrived harranged hsorted
        refine ⟨_, hd.yields haccepted arrived arranged harrived harranged hsorted, ?_⟩
        rw [← Paging.keep_map, List.map_map]
        refine congrArg (d.paging.keep E) (List.map_congr_left fun r _ => ?_)
        simp only [Function.comp, Draft.ranked, outputRow_bare _ (hd.bare hproj)]
        exact congrArg _ (hrow r) }

theorem Draft.Means.skip (hd : d.Means E caps db q) (hpaged : d.isPaged = false)
    {count : Query} {e : Expr} (he : Paging.rowCount PagingOperator.skip.name count = .ok e) :
    Draft.Means { d with paging := { d.paging with skip? := some e } } E caps db
      (.skip q count) :=
  { hd with
    yields := by
      intro haccepted arrived arranged harrived harranged hsorted
      refine ⟨_, hd.yields haccepted arrived arranged harrived harranged hsorted, ?_⟩
      rw [paging_eq_of_not_paged hpaged, keep_empty, ← rowNumber_eq_rowCount E he]
      rfl }

theorem Draft.Means.take (hd : d.Means E caps db q) (htake : d.paging.take? = none)
    {count : Query} {e : Expr} (he : Paging.rowCount PagingOperator.take.name count = .ok e) :
    Draft.Means { d with paging := { d.paging with take? := some e } } E caps db
      (.take q count) :=
  { hd with
    yields := by
      intro haccepted arrived arranged harrived harranged hsorted
      refine ⟨_, hd.yields haccepted arrived arranged harrived harranged hsorted, ?_⟩
      rw [← rowNumber_eq_rowCount E he]
      simp only [Paging.keep, htake, Option.elim]
      rfl }

theorem Draft.Means.orderBy (hd : d.Means E caps db q) (hI : E.Transparent caps)
    (hn : n.scopes = []) (hpaged : d.isPaged = false) (hproj : d.projected = false)
    {key : Query} {direction : Direction} {e : Expr}
    (he : Gives (inRow d.row (expression caps key)) n e m) :
    (d.ordered ⟨asValue caps e, direction⟩).Means E caps db (.orderBy q key direction) := by
  obtain ⟨k, hk, _⟩ := gives_inRow.mp he
  have hscopes : ({ n with scopes := d.row :: n.scopes } : Naming).scopes = [d.row] := by
    simp only [hn]
  have hdirections : (d.ordered ⟨asValue caps e, direction⟩).select.ordering.map
      OrderKey.direction = q.directions ++ [direction] := by
    simp only [Draft.ordered, List.map_append, List.map_cons, List.map_nil, hd.directions]
  have hkey : ∀ r : Row V, (asValue caps e).value E.toInterpretation
      (.ofRow E.toInterpretation (some d.row.actual) r)
        = key.value E.toInterpretation caps (.ofRow E.toInterpretation q.rowAlias r) := by
    intro r
    rw [(hI _ e).1, ← hd.logical]
    exact value_of_gives hI (reads_ofRow E.toInterpretation hscopes r) hk
  exact
    { source := hd.source
      logical := hd.logical
      bare := hd.bare
      named := hd.named
      keys := by
        intro k' hk'
        rcases List.mem_append.mp hk' with hk' | hk'
        · exact hd.keys k' hk'
        · rw [List.mem_singleton] at hk'
          rw [hk']
          exact readsOnly_asValue hI (readsOnly_of_gives hI hscopes hk)
      directions := hdirections
      bounded := hd.bounded
      yields := by
        intro haccepted arrived arranged harrived harranged hsorted
        have hless := hsorted.imp fun h => ordered_of_append E _ h
        refine ⟨_, hd.yields haccepted arrived arranged harrived harranged hless, ?_⟩
        have hranked : (arranged.map (d.ranked E.toInterpretation)).map (fun r =>
            (⟨r.keys ++ [key.value E.toInterpretation caps
              (.ofRow E.toInterpretation q.rowAlias r.row)], r.row⟩ : Ranked V))
            = arranged.map
              ((d.ordered ⟨asValue caps e, direction⟩).ranked E.toInterpretation) := by
          rw [List.map_map]
          refine List.map_congr_left fun r _ => ?_
          simp only [Function.comp, Draft.ranked, outputRow_bare _ (hd.bare hproj), ← hkey r,
            Draft.ordered, orderingKeys, List.map_append, List.map_cons, List.map_nil]
          exact congrArg _ (outputRow_bare _ (hd.bare hproj) r).symm
        -- the arrangement is sorted already, so sorting it again changes nothing
        rw [paging_eq_of_not_paged hpaged, keep_empty, hranked, List.mergeSort_of_pairwise]
        · exact congrArg (Paging.keep E · _) (paging_eq_of_not_paged hpaged)
        · rw [List.pairwise_map]
          refine hsorted.imp fun h => ?_
          rw [← hdirections]
          exact h }

/-- The arrangement inside a derived table can be chosen so that the rows come out in the order
    in which they arrive outside. -/
theorem exists_inner_arrangement {le : Row V → Row V → Prop}
    {inside outside : List (Row V)} {out : Row V → Row V} {p : Paging}
    (hperm : outside.Perm ((p.keep E inside).map out))
    (hinside : p.isEmpty = true ∨ inside.Pairwise le)
    (hsorted : ∀ others : List (Row V), others.map out = outside → others.Pairwise le) :
    ∃ others : List (Row V), others.Perm inside ∧ others.Pairwise le ∧
      (p.keep E others).map out = outside := by
  obtain ⟨window, hwindow, hout⟩ := exists_perm_map hperm
  have hwindowsorted := hsorted window hout
  rcases p with ⟨skip?, take?⟩
  rcases hinside with hempty | hinside
  · cases skip? <;> cases take? <;> simp [Paging.isEmpty] at hempty
    exact ⟨window, hwindow, hwindowsorted, hout⟩
  · cases take? with
    | none =>
      -- without an upper end the window takes as many rows as there are
      have hall : window.Perm ((inside.drop (skip?.elim 0 fun e => (E.rowNumber e).toNat)).take
          inside.length) := by
        rw [List.take_of_length_le (by simp only [List.length_drop]; omega)]
        exact hwindow
      obtain ⟨others, hothers, hotherssorted, hkept⟩ :=
        exists_arrangement hinside hall hwindowsorted
      refine ⟨others, hothers, hotherssorted, ?_⟩
      rw [List.take_of_length_le
        (by simp only [List.length_drop, hothers.length_eq]; omega)] at hkept
      rw [← hout, ← hkept]
      rfl
    | some take =>
      obtain ⟨others, hothers, hotherssorted, hkept⟩ :=
        exists_arrangement hinside hwindow hwindowsorted
      refine ⟨others, hothers, hotherssorted, ?_⟩
      rw [← hout, ← hkept]
      rfl

theorem isPaged_eq_isEmpty {p : Paging} {w? : Option Window} (h : p.window? = .ok w?) :
    w?.isSome = !p.isEmpty := by
  obtain ⟨_, _, rfl⟩ := window?_eq_ok h
  rcases p with ⟨_ | skip, _ | take⟩ <;> rfl

/-- What a derived table delivers is what its window keeps of some arrangement inside, which is
    sorted if there is a window. -/
theorem Draft.Means.delivered (hd : d.Means E caps db q) {inner : Select}
    (hfinish : d.finish = .ok inner) {source : String} {arrived : List (Row V)}
    (harrived : (Origin.derived (if inner.isPaged then inner else { inner with ordering := [] })
      source).delivers E db arrived) :
    ∃ before inside : List (Row V),
      d.select.origin.delivers E db before ∧
      inside.Perm (before.filter (E.meets (some d.row.actual) d.select.conditions)) ∧
      (d.paging.isEmpty = true ∨ inside.Pairwise fun r r' =>
        E.ordered (some d.row.actual) d.select.ordering r r' = true) ∧
      arrived.Perm ((d.paging.keep E inside).map
        (outputRow E.toInterpretation (some d.row.actual) inner.columns)) := by
  obtain ⟨w, hw, rfl⟩ := (Draft.finish_eq_ok hd.source).mp hfinish
  rw [Select.isPaged, isPaged_eq_isEmpty hw] at harrived
  cases hempty : d.paging.isEmpty <;>
    simp only [hempty, Bool.not_false, Bool.not_true, if_true, Bool.false_eq_true, if_false,
      Origin.delivers, Select.yields, hd.source] at harrived <;>
    obtain ⟨rows, ⟨before, inside, hbefore, hinside, hsorted, rfl⟩, hperm⟩ := harrived
  all_goals
    have hlength : inside.length < 2 ^ 63 := by
      refine Nat.lt_of_le_of_lt ?_ (hd.bounded before hbefore)
      rw [hinside.length_eq]
      exact List.length_filter_le _ _
    rw [keepOption_eq_keep E hw hlength] at hperm
  · exact ⟨before, inside, hbefore, hinside, .inr hsorted, hperm⟩
  · exact ⟨before, inside, hbefore, hinside, .inl rfl, hperm⟩

/-- If a derived table is accepted, its columns have different names, and so is what it reads. -/
theorem accepted_inner {inner : Select} {source : String}
    (h : (Origin.derived (if inner.isPaged then inner else { inner with ordering := [] })
      source).Accepted) :
    inner.origin.Accepted ∧ (inner.columns.filterMap Column.alias?).Nodup := by
  obtain ⟨hinner, hdistinct⟩ := h _ _ rfl
  have horigin := hinner.origin_accepted
  split at hdistinct <;> split at horigin <;> exact ⟨horigin, hdistinct⟩

theorem Draft.Means.pushed (hd : d.Means E caps db q) {d' : Draft}
    (hpush : Gives (pushDown d) n d' m) : d'.Means E caps db q := by
  obtain ⟨inner, ordering, hfinish, hcarry, _, rfl⟩ := gives_pushDown.mp hpush
  obtain ⟨w, hw, hinner⟩ := (Draft.finish_eq_ok hd.source).mp hfinish
  have hcolumns : inner.columns = d.finalColumns d.row.actual := by rw [hinner]
  have hordering : inner.ordering = d.select.ordering := by rw [hinner]
  have halias : inner.origin.alias? = some d.row.actual := by
    rw [hinner]
    exact hd.source
  have hshows : inner.ShowsNamed d.row.actual := by
    rw [Select.ShowsNamed, hcolumns]
    exact finalColumns_shown d d.row.actual hd.named
  have hreads : ∀ k ∈ inner.ordering, k.expr.ReadsOnly E.toInterpretation d.row.actual := by
    rw [hordering]
    exact hd.keys
  have hdirections := carryOrdering_directions hcarry
  rw [hordering] at hdirections
  exact
    { source := rfl
      logical := hd.logical
      bare := fun _ => rfl
      named := fun c hc => absurd hc List.not_mem_nil
      keys := carryOrdering_readsOnly halias hcarry hreads
      directions := hdirections.trans hd.directions
      bounded := by
        intro arrived harrived
        obtain ⟨before, inside, hbefore, hinside, _, hperm⟩ := hd.delivered hfinish harrived
        refine Nat.lt_of_le_of_lt ?_ (hd.bounded before hbefore)
        rw [hperm.length_eq, List.length_map]
        refine Nat.le_trans (keep_length_le E d.paging inside) ?_
        rw [hinside.length_eq]
        exact List.length_filter_le _ _
      yields := by
        intro haccepted arrived arranged harrived harranged hsorted
        obtain ⟨hbelow, hdistinct⟩ := accepted_inner haccepted
        rw [hinner] at hbelow
        obtain ⟨before, inside, hbefore, hinside, hinsidesorted, hperm⟩ :=
          hd.delivered hfinish harrived
        have hkeys := carryOrdering_keys (I := E.toInterpretation) halias hshows hdistinct hcarry
          hreads
        rw [hordering] at hkeys
        have hall : arranged.Perm arrived :=
          harranged.trans (.of_eq (filter_meets_nil E _ arrived))
        obtain ⟨others, hothers, hotherssorted, hkept⟩ :=
          exists_inner_arrangement (hall.trans hperm) hinsidesorted (by
            rintro others rfl
            rw [List.pairwise_map] at hsorted
            refine hsorted.imp fun h => ?_
            simp only [Engine.ordered, hdirections] at h ⊢
            rwa [hkeys, hkeys] at h)
        have hyields := hd.yields hbelow before others hbefore (hothers.trans hinside)
          hotherssorted
        rw [keep_empty, ← hkept, List.map_map]
        rw [Paging.keep_map] at hyields
        refine cast (congrArg (q.yields E caps db) ?_) hyields
        refine List.map_congr_left fun r _ => ?_
        rw [Draft.ranked, ← hcolumns, ← hkeys r]
        exact congrArg (Ranked.mk _) (outputRow_allColumns _ _ _).symm }

end Steps

/-! ### Whole sequences -/

/-- Every draft of a sequence means the sequence. -/
theorem means_of_drafts {E : Engine V} {caps : Capabilities} {db : Database V}
    (hI : E.Transparent caps) (hdb : ∀ table, (db table).length < 2 ^ 63) {q : Query}
    {n m : Naming} {d : Draft} (h : Drafts caps q n d m) (hn : n.scopes = []) :
    d.Means E caps db q := by
  induction h with
  | source => exact means_source hdb
  | pushed _ hpush ih => exact (ih hn).pushed hpush
  | filter hd hpaged hproj he ih =>
    exact (ih hn).filter hI (hd.follows.scopes.trans hn) hpaged hproj he
  | project hd hproj hcs ih => exact (ih hn).project hI (hd.follows.scopes.trans hn) hproj hcs
  | skip hd hpaged he ih => exact (ih hn).skip hpaged he
  | take hd htake he ih => exact (ih hn).take htake he
  | orderBy hd hpaged hproj he ih =>
    exact (ih hn).orderBy hI (hd.follows.scopes.trans hn) hpaged hproj he

/-- Every list of rows that the statement of a sequence may give is one that the sequence may
    give, if a server accepts the statement. -/
theorem yields_of_ofQuery {E : Engine V} {caps : Capabilities} {db : Database V} {q : Query}
    {s : Select} {rows : List (Row V)} (hcaps : caps.booleanType = true)
    (hq : q.isSequence = true) (hs : Select.ofQuery caps q = .ok s)
    (haccepted : s.Accepted) (hdb : ∀ table, (db table).length < 2 ^ 63)
    (hrows : s.yields E db rows) :
    ∃ ranked : List (Ranked V), q.yields E caps db ranked ∧ rows = ranked.map Ranked.row := by
  obtain ⟨d, m, hd, hfinish⟩ := sequence_of_ofQuery hq hs
  have hmeans : d.Means E caps db q :=
    means_of_drafts (transparent_of_booleanType E.toInterpretation hcaps) hdb
      (drafts_of_gives hd) rfl
  obtain ⟨w, hw, rfl⟩ := (Draft.finish_eq_ok hmeans.source).mp hfinish
  have horigin : d.select.origin.Accepted := haccepted.origin_accepted
  simp only [Select.yields, hmeans.source] at hrows
  obtain ⟨arrived, arranged, harrived, harranged, hsorted, rfl⟩ := hrows
  have hlength : arranged.length < 2 ^ 63 := by
    refine Nat.lt_of_le_of_lt ?_ (hmeans.bounded arrived harrived)
    rw [harranged.length_eq]
    exact List.length_filter_le _ _
  refine ⟨_, hmeans.yields horigin arrived arranged harrived harranged hsorted, ?_⟩
  rw [keepOption_eq_keep E hw hlength, Paging.keep_map, List.map_map]
  rfl

/-- Integers in their usual order. -/
def Engine.integers : Engine Int where
  literal v := v.integer?.getD 0
  parameter _ := 0
  operator _ _ := 0
  undefined := 0
  literal_eq_of_agrees := by
    intro v w h
    cases v <;> cases w <;> simp_all [Value.agrees, Value.integer?]
  holds v := v != 0
  count _ := 0
  precedes
    | .ascending, v, w => v ≤ w
    | .descending, v, w => w ≤ v
  precedes_total d v w := by
    cases d <;> simp only [decide_eq_true_eq] <;> omega
  precedes_trans {d} u v w := by
    cases d <;> simp only [decide_eq_true_eq] <;> omega

/-- Two rows of a table, then those two by their price. -/
def twoByPrice : Query :=
  .orderBy (.take (.source "ITEM" none) (.constant (.int32 2))) (.column "PRICE") .ascending

/-- The statement of `twoByPrice`. -/
def Select.twoByPrice : Select where
  columns := [⟨.allColumns "t0", none⟩]
  origin := .derived
    ⟨[⟨.allColumns "i", none⟩], .table "ITEM" "i", [], [], some ⟨.int 2, none⟩⟩ "t0"
  conditions := []
  ordering := [⟨.column "t0" "PRICE", .ascending⟩]
  window? := none

/-- A table with three rows. -/
def threeItems : Database Int := fun _ => [[("PRICE", 5)], [("PRICE", 3)], [("PRICE", 4)]]

theorem accepted_twoByPrice : Select.twoByPrice.Accepted := by
  have hinner : Select.Accepted
      ⟨[⟨.allColumns "i", none⟩], .table "ITEM" "i", [], [], some ⟨.int 2, none⟩⟩ :=
    .intro (List.forall_mem_singleton.mpr (Expr.accepted_of_hasSubquery rfl))
      (List.forall_mem_nil _) (List.forall_mem_nil _) nofun nofun
  refine .intro (List.forall_mem_singleton.mpr ?_) (List.forall_mem_nil _)
    (List.forall_mem_singleton.mpr ?_) ?_ ?_
  · exact Expr.accepted_of_hasSubquery rfl
  · exact Expr.accepted_of_hasSubquery rfl
  · rintro rows source ⟨⟩
    exact hinner
  · rintro rows source ⟨⟩
    exact List.nodup_nil

theorem yields_of_ofQuery_twoByPrice :
    Select.ofQuery (.ofVersion ⟨3, 0, 0, 0⟩) twoByPrice = .ok .twoByPrice ∧
      Select.twoByPrice.Accepted ∧
      Select.twoByPrice.yields .integers threeItems [[("PRICE", 3)], [("PRICE", 5)]] ∧
      ∃ ranked : List (Ranked Int),
        twoByPrice.yields .integers (.ofVersion ⟨3, 0, 0, 0⟩) threeItems ranked ∧
        [[("PRICE", 3)], [("PRICE", 5)]] = ranked.map Ranked.row := by
  have hs : Select.ofQuery (.ofVersion ⟨3, 0, 0, 0⟩) twoByPrice = .ok .twoByPrice := rfl
  have hrows : Select.twoByPrice.yields .integers threeItems
      [[("PRICE", 3)], [("PRICE", 5)]] := by
    have hinner : Select.yields .integers threeItems
        ⟨[⟨.allColumns "i", none⟩], .table "ITEM" "i", [], [], some ⟨.int 2, none⟩⟩
        [[("PRICE", 5)], [("PRICE", 3)]] := by
      refine ⟨threeItems "ITEM", threeItems "ITEM", .refl _, .refl _, ?_, rfl⟩
      exact List.pairwise_of_forall fun _ _ => rfl
    refine ⟨[[("PRICE", 5)], [("PRICE", 3)]], [[("PRICE", 3)], [("PRICE", 5)]],
      ⟨_, hinner, .refl _⟩, .swap _ _ _, ?_, rfl⟩
    simp only [List.pairwise_cons, List.mem_singleton, forall_eq, List.not_mem_nil,
      false_implies, implies_true, List.Pairwise.nil, and_true]
    rfl
  refine ⟨hs, accepted_twoByPrice, hrows, ?_⟩
  exact yields_of_ofQuery rfl rfl hs accepted_twoByPrice (by simp [threeItems]) hrows

/-! ### Two columns of one name -/

/-- Items by price with their rank and their price under one name, then what has that name. -/
def rankTwice : Query :=
  .project (.project (.orderBy (.source "ITEM" none) (.column "PRICE") .ascending)
    [("A", .column "RANK"), ("A", .column "PRICE")]) [("RANK", .column "A")]

/-- The statement of `rankTwice`.  The price is found as the column `A`, and the first column of that
    name is the rank. -/
def Select.rankTwice : Select where
  columns := [⟨.column "t0" "A", some "RANK"⟩]
  origin := .derived
    ⟨[⟨.column "i" "RANK", some "A"⟩, ⟨.column "i" "PRICE", some "A"⟩], .table "ITEM" "i", [], [],
      none⟩ "t0"
  conditions := []
  ordering := [⟨.column "t0" "A", .ascending⟩]
  window? := none

/-- Two items, of which the cheaper one has the higher rank. -/
def crossedRanks : Database Int := fun _ =>
  [[("RANK", 1), ("PRICE", 2)], [("RANK", 2), ("PRICE", 1)]]

/-- The sequence has the cheaper item first. -/
theorem row_of_yields_rankTwice {caps : Capabilities} {ranked : List (Ranked Int)}
    (h : rankTwice.yields .integers caps crossedRanks ranked) :
    ranked.map Ranked.row = [[("RANK", 2)], [("RANK", 1)]] := by
  obtain ⟨_, ⟨_, ⟨_, ⟨rows, hrows, rfl⟩, rfl⟩, rfl⟩, rfl⟩ := h
  rcases List.perm_pair.mp (show rows.Perm (crossedRanks "ITEM") from hrows) with rfl | rfl <;>
  · simp only [List.map_cons, List.map_nil, mergeSort_pair]
    rfl

/-- The statement has the item with the lower rank first, so it gives rows that the sequence does
    not give. -/
theorem not_yields_rankTwice :
    Select.ofQuery (.ofVersion ⟨3, 0, 0, 0⟩) rankTwice = .ok .rankTwice ∧
      rankTwice.isSequence = true ∧ (∀ table, (crossedRanks table).length < 2 ^ 63) ∧
      Select.rankTwice.yields .integers crossedRanks [[("RANK", 1)], [("RANK", 2)]] ∧
      ¬ ∃ ranked : List (Ranked Int),
        rankTwice.yields .integers (.ofVersion ⟨3, 0, 0, 0⟩) crossedRanks ranked ∧
        [[("RANK", 1)], [("RANK", 2)]] = ranked.map Ranked.row := by
  refine ⟨by with_unfolding_all rfl, rfl, by simp [crossedRanks], ?_, ?_⟩
  · have hinner : Select.yields .integers crossedRanks
        ⟨[⟨.column "i" "RANK", some "A"⟩, ⟨.column "i" "PRICE", some "A"⟩], .table "ITEM" "i",
          [], [], none⟩ [[("A", 1), ("A", 2)], [("A", 2), ("A", 1)]] := by
      refine ⟨crossedRanks "ITEM", crossedRanks "ITEM", .refl _, .refl _, ?_, rfl⟩
      exact List.pairwise_of_forall fun _ _ => rfl
    refine ⟨_, _, ⟨_, hinner, .refl _⟩, .refl _, ?_, rfl⟩
    exact List.pairwise_pair.mpr rfl
  · rintro ⟨ranked, hranked, hrows⟩
    rw [row_of_yields_rankTwice hranked] at hrows
    cases hrows

end QueryLoom.Sql

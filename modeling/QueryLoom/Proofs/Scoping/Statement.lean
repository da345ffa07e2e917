/-
  QueryLoom/Proofs/Scoping/Statement.lean
  =======================================
  **Every column of a statement means what it meant in the query.**  `Draft.Tracks` is the
  invariant of a draft: its row is placed among the rows around it, each of its clauses reads
  as the scalar in its place, each test in a clause as the sequence that is tested there, and
  the statement that it reads from as the sequence that was pushed down.  Every operator adds
  its scalars at the end of a clause and keeps the rest.  Pushing down gives the row a new
  alias and renames the keys of the ordering; the conditions and the columns stay behind, in
  a SELECT that still has the old alias.

  The tests in a predicate, a column or a key are sequences of their own, smaller than the one
  that they stand in, so the invariant is proved by induction on the size of the
  sequence and, for one sequence, along its draft.

    * `Select.ReadsAs.of_block` — in a statement that reads as a sequence every SELECT does;
    * `tracks_of_drafts` — the invariant holds of every draft;
    * `resolves_of_ofQuery` — whole queries.
-/
import QueryLoom.Proofs.Scoping.Capture

namespace QueryLoom.Sql

/-! ### Windows -/

theorem readsNothing_of_rowCount {operator : String} {count : Query} {e : Expr}
    (h : Paging.rowCount operator count = .ok e) : e.ReadsNothing := by
  unfold Paging.rowCount at h
  cases count <;> simp only [bind, Except.bind, pure, Except.pure, reduceCtorEq] at h
  all_goals
    split at h
    · cases h
    · cases h
      intro x hx
      rw [Expr.parts, List.mem_singleton] at hx
      rw [hx]
      rfl

section Counts

variable {p : Paging} (hp : ∀ e, p.skip? = some e ∨ p.take? = some e → e.ReadsNothing)
  {operator : String} {count : Query} {e : Expr} (h : Paging.rowCount operator count = .ok e)

include hp h

theorem readsNothing_skip : ∀ e', some e = some e' ∨ p.take? = some e' → e'.ReadsNothing := by
  rintro e' (he' | he')
  · cases he'
    exact readsNothing_of_rowCount h
  · exact hp e' (.inr he')

theorem readsNothing_take : ∀ e', p.skip? = some e' ∨ some e = some e' → e'.ReadsNothing := by
  rintro e' (he' | he')
  · exact hp e' (.inl he')
  · cases he'
    exact readsNothing_of_rowCount h

end Counts

theorem readsNothing_literal (v : Value) : (Expr.literal v).ReadsNothing := by
  intro x hx
  rw [Expr.parts, List.mem_singleton] at hx
  rw [hx]
  rfl

theorem Expr.ReadsNothing.add {left right : Expr} (hleft : left.ReadsNothing)
    (hright : right.ReadsNothing) : (Expr.binary left .add right).ReadsNothing := by
  intro x hx
  rw [Expr.parts, List.mem_cons, List.mem_append] at hx
  rcases hx with rfl | hx | hx
  · rfl
  · exact hleft x hx
  · exact hright x hx

/-- The bounds of a window refer to nothing if the counts do not. -/
theorem readsNothing_of_window? {p : Paging} {w? : Option Window} (h : p.window? = .ok w?)
    (hcounts : ∀ e, p.skip? = some e ∨ p.take? = some e → e.ReadsNothing) :
    ∀ w, w? = some w → ∀ e ∈ w.lower :: w.upper?.toList, e.ReadsNothing := by
  obtain ⟨_, _, rfl⟩ := window?_eq_ok h
  rintro w hw e he
  rcases p with ⟨_ | skip, _ | take⟩ <;> cases hw
  · rcases List.mem_cons.mp he with rfl | he
    · exact hcounts _ (.inr rfl)
    · cases he
  · have hlower := (hcounts skip (.inl rfl)).add (readsNothing_literal (.int32 1))
    rcases List.mem_cons.mp he with rfl | he
    · exact hlower
    · obtain rfl := List.mem_singleton.mp he
      exact readsNothing_literal _
  · have hlower := (hcounts skip (.inl rfl)).add (readsNothing_literal (.int32 1))
    rcases List.mem_cons.mp he with rfl | he
    · exact hlower
    · obtain rfl := List.mem_singleton.mp he
      exact (hcounts skip (.inl rfl)).add (hcounts take (.inr rfl))

theorem Expr.ReadsNothing.not_exists {e : Expr} (h : e.ReadsNothing) (rows : Select) :
    .existsRow rows ∉ e.parts := by
  intro hrows
  cases h _ hrows

theorem Expr.ReadsNothing.not_mem_references {e : Expr} (h : e.ReadsNothing) (x : Expr) :
    x ∉ e.references := by
  intro hx
  obtain ⟨hpart, href⟩ := mem_references.mp hx
  rw [h x hpart] at href
  cases href

/-! ### Statements that read as a sequence -/

/-- A column, if it has a level, or a test: a reference that names rows in scope. -/
def Expr.Named (items : List Item) (x : Expr) : Prop :=
  (∃ source name, x = .column source name ∧ (level? items source).isSome = true) ∨
    ∃ rows, x = .existsRow rows

theorem Expr.named_column (i : Item) (items : List Item) (name : String) :
    (Expr.column i.source name).Named (i :: items) :=
  .inl ⟨i.source, name, rfl, by rw [level?_cons_self]; rfl⟩

theorem Expr.ReadsAs.named {caps : Capabilities} {items meant : List Item} {e : Expr} {p : Query}
    (h : e.ReadsAs caps items meant p) {x : Expr} (hx : x ∈ e.references) : x.Named items := by
  obtain ⟨y, _, hrefers⟩ := exists_of_forall₂_left h hx
  cases hrefers with
  | column hlevel => exact .inl ⟨_, _, rfl, by rw [hlevel]; rfl⟩
  | test rows => exact .inr ⟨rows, rfl⟩

section

variable {caps : Capabilities} {around meant : List Item}

/-- A key is a column of the item that it stands in, or it reads as the scalar by itself. -/
theorem Origin.KeyReadsAs.column_or_reads {own : Item} {o : Origin} {source : String} {e : Expr}
    {p : Query} (h : o.KeyReadsAs caps around meant own e p) (halias : o.alias? = some source) :
    (∃ name, e = .column source name) ∨
      e.ReadsAs caps (⟨source, own.table⟩ :: around) (own :: meant) p := by
  cases h with
  | reads halias' hreads =>
    cases halias'.symm.trans halias
    exact .inr hreads
  | column | all =>
    cases halias
    exact .inl ⟨_, rfl⟩

theorem Origin.KeyReadsAs.named {own : Item} {o : Origin} {source : String} {e : Expr} {p : Query}
    (h : o.KeyReadsAs caps around meant own e p) (halias : o.alias? = some source) {x : Expr}
    (hx : x ∈ e.references) : x.Named (⟨source, own.table⟩ :: around) := by
  rcases h.column_or_reads halias with ⟨name, rfl⟩ | hreads
  · obtain rfl := List.mem_singleton.mp hx
    exact Expr.named_column ⟨source, own.table⟩ around name
  · exact hreads.named hx

/-- An agreeing key reads alike. -/
theorem Origin.KeyReadsAs.of_agrees {own : Item} {o : Origin} {e e' : Expr} {p : Query}
    (h : o.KeyReadsAs caps around meant own e p) (hagrees : e'.agrees e = true) :
    o.KeyReadsAs caps around meant own e' p := by
  have hcolumn : ∀ {source name}, e'.agrees (.column source name) = true →
      e' = .column source name := by
    intro source name hagrees
    cases Expr.agrees_iff.mp hagrees with
    | column => rfl
    | operator _ hop => cases hop
  cases h with
  | reads halias hreads => exact .reads halias (hreads.of_agrees hagrees)
  | column hc hname hkey =>
    rw [hcolumn hagrees]
    exact .column hc hname hkey
  | all hall hold hkey =>
    rw [hcolumn hagrees]
    exact .all hall hold hkey

/-- A key that a derived table carries reads as the key of the statement in it. -/
theorem Origin.KeyReadsAs.carry {own : Item} {inner rows : Select} {new : String} {e e' : Expr}
    {p : Query} (h : inner.origin.KeyReadsAs caps around meant own e p)
    (hcarry : inner.carry new e = some e') (hnew : ∀ i ∈ around, i.source ≠ new)
    (hcolumns : rows.columns = inner.columns) (horigin : rows.origin = inner.origin) :
    (Origin.derived rows new).KeyReadsAs caps around meant own e' p := by
  rcases carry_eq_some hcarry with ⟨c, hc, name, hagrees, hname, rfl⟩ | ⟨old, hall, hold, -, rfl⟩
  · rw [← hcolumns] at hc
    rw [← horigin] at h
    exact .column hc hname (h.of_agrees hagrees)
  · rw [← hcolumns] at hall
    rw [← horigin] at h hold
    rcases h.column_or_reads hold with ⟨name, rfl⟩ | hreads
    · rw [Expr.rename, renamed, if_pos rfl]
      exact .all hall hold h
    · exact .reads rfl (hreads.rename hnew)

variable {q : Query} {shown : Bool} {s : Select} {source : String} {ps : List Query}
  {cs : List (String × Query)}

theorem Select.alias?_eq_of_item? {i : Item} (h : s.item? = some i) :
    s.origin.alias? = some i.source := by
  unfold Select.item? at h
  split at h
  · rename_i halias _
    cases h
    exact halias
  · cases h

/-- A clause refers to no rows, it shows all columns, it is the column of a carried key, or it reads
    as the scalar in its place. -/
theorem Select.ClausesReadAs.of_mem_clauses
    (h : s.ClausesReadAs caps around meant q shown source ps cs) {e : Expr} (he : e ∈ s.clauses) :
    e.ReadsNothing ∨ e = .allColumns source ∨ (∃ name, e = .column source name) ∨
      ∃ p, (e, p) ∈ s.pairs q ps cs ∧
        e.ReadsAs caps (⟨source, q.table⟩ :: around) (itemOf q :: meant) p := by
  simp only [Select.clauses, List.mem_append, List.mem_map] at he
  simp only [Select.pairs, List.mem_append, or_assoc]
  rcases he with ((⟨c, hc, rfl⟩ | he) | ⟨k, hk, rfl⟩) | he
  · have hcolumns := h.columns
    split at hcolumns
    · rw [hcolumns, List.mem_singleton] at hc
      rw [hc]
      exact .inl (readsNothing_literal _)
    · split at hcolumns
      · rw [hcolumns, List.mem_singleton] at hc
        rw [hc]
        exact .inr (.inl rfl)
      · obtain ⟨p, hmem, -, hreads⟩ := exists_mem_zip_of_forall₂ hcolumns hc
        refine .inr (.inr (.inr ⟨p.2, .inr (.inl ?_), hreads⟩))
        rw [List.zip_map]
        exact List.mem_map_of_mem hmem
  · obtain ⟨p, hmem, hreads⟩ := exists_mem_zip_of_forall₂ h.conditions he
    exact .inr (.inr (.inr ⟨p, .inl hmem, hreads⟩))
  · rcases h.ordering with hnone | hordering
    · rw [hnone] at hk
      cases hk
    · obtain ⟨p, hmem, hkey⟩ := exists_mem_zip_of_forall₂ hordering hk
      rcases hkey.column_or_reads (Select.alias?_eq_of_item? h.item) with hcolumn | hreads
      · exact .inr (.inr (.inl hcolumn))
      · refine .inr (.inr (.inr ⟨p, .inr (.inr ?_), hreads⟩))
        rw [List.zip_map_left]
        exact List.mem_map_of_mem hmem
  · obtain ⟨w, hw, he⟩ := List.mem_flatMap.mp he
    exact .inl (h.window w (Option.mem_toList.mp hw) e he)

/-- In a statement that reads as a sequence every SELECT does. -/
theorem Select.ReadsAs.of_block {items : List Item} {t : Select}
    (h : s.ReadsAs caps shown items q meant) (hblock : s.Block items t around) :
    ∃ shown' q' meant', t.ReadsAs caps shown' around q' meant' := by
  induction hblock generalizing shown q meant with
  | self => exact ⟨_, _, _, h⟩
  | derived horigin _ ih =>
    cases h with
    | intro _ _ _ hderived _ => exact ih (hderived _ _ horigin)
  | @test s rows t e items around he hrows _ ih =>
    have hmem : .existsRow rows ∈ e.references := mem_references.mpr ⟨hrows, rfl⟩
    cases h with
    | @intro _ _ _ _ _ _ source _ _ _ hclauses _ _ htests =>
      rw [hclauses.item] at ih
      rcases hclauses.of_mem_clauses he with hnothing | rfl | ⟨name, rfl⟩ | ⟨p, hpair, hreads⟩
      · exact absurd hmem (hnothing.not_mem_references _)
      · exact absurd (List.mem_singleton.mp hmem) nofun
      · exact absurd (List.mem_singleton.mp hmem) nofun
      · obtain ⟨y, hy, hrefers⟩ := exists_mem_zip_of_forall₂ hreads hmem
        cases hrefers
        exact ih (htests e p hpair rows _ hy)

end

/-! ### The invariant -/

/-- The frame of the draft's own row. -/
def Draft.frame (d : Draft) (q : Query) : Frame := ⟨q.rowAlias, d.row.actual, q.table⟩

section

variable (caps : Capabilities) (frames : List Frame)

/-- Each test in the expression reads as the sequence that is tested in its place. -/
def Expr.TestsReadAs (e : Expr) (p : Query) : Prop :=
  ∀ rows t, (.existsRow rows, .test t) ∈ e.references.zip (mentions caps p) →
    rows.ReadsAs caps false (frames.map Frame.item) t (frames.map Frame.source)

/-- The expression reads as the scalar, and so does what stands in its tests. -/
def Expr.Tracks (e : Expr) (p : Query) : Prop :=
  e.ReadsAs caps (frames.map Frame.item) (frames.map Frame.source) p ∧ e.TestsReadAs caps frames p

/-- The clauses of the draft are those of the sequence, since `base` was pushed down. -/
structure Draft.ClausesTrack (d : Draft) (q base : Query) (ps : List Query)
    (cs : List (String × Query)) : Prop where
  under : base.Under q ps cs
  columns : List.Forall₂ (fun c p => c.alias? = some p.1 ∧
    c.expr.Tracks caps (d.frame q :: frames) p.2) d.select.columns cs
  conditions : List.Forall₂ (Expr.Tracks caps (d.frame q :: frames)) d.select.conditions ps
  ordering : List.Forall₂ (fun k p => d.select.origin.KeyReadsAs caps (frames.map Frame.item)
    (frames.map Frame.source) (itemOf q) k.expr p ∧ k.expr.TestsReadAs caps (d.frame q :: frames) p)
    d.select.ordering q.sortKeys
  table : ∀ name source, d.select.origin = .table name source →
    ∃ alias?, base = .source name alias?
  inner : ∀ rows source, d.select.origin = .derived rows source →
    rows.ReadsAs caps true (frames.map Frame.item) base (frames.map Frame.source)

end

/-- The draft refers, below the frames around it, as the sequence does. -/
structure Draft.Tracks (d : Draft) (caps : Capabilities) (frames : List Frame) (m : Naming)
    (q : Query) : Prop where
  logical : d.row.logical = q.rowAlias
  source : d.select.origin.alias? = some d.row.actual
  table : d.select.origin.table? = some q.table
  placed : Placed m (d.frame q :: frames)
  clauses : ∃ base ps cs, d.ClausesTrack caps frames q base ps cs
  counts : ∀ e, d.paging.skip? = some e ∨ d.paging.take? = some e → e.ReadsNothing

/-! ### From drafts to statements -/

section Statements

variable {caps : Capabilities} {frames : List Frame} {n m : Naming} {d : Draft} {q : Query}

theorem Draft.Tracks.item (hd : d.Tracks caps frames m q) {s : Select}
    (horigin : s.origin = d.select.origin) : s.item? = some ⟨d.row.actual, q.table⟩ := by
  rw [Select.item?, horigin, hd.source, hd.table]

section Clauses

variable {shown : Bool} {s : Select} {base : Query} {ps : List Query} {cs : List (String × Query)}
  (hclauses : d.ClausesTrack caps frames q base ps cs)
  (hcolumns : s.columns = if shown then d.finalColumns d.row.actual else [⟨.int 1, none⟩])

include hclauses hcolumns

/-- The columns of the statement are those of the sequence, if they are shown. -/
theorem Draft.ClausesTrack.columnsReadAs :
    if shown = false then s.columns = [⟨.int 1, none⟩]
    else if cs = [] then s.columns = [⟨.allColumns d.row.actual, none⟩]
    else List.Forall₂ (fun c p => c.alias? = some p.1 ∧ c.expr.ReadsAs caps
      (⟨d.row.actual, q.table⟩ :: frames.map Frame.item) (itemOf q :: frames.map Frame.source) p.2)
      s.columns cs := by
  rw [hcolumns]
  cases shown with
  | false => rfl
  | true =>
    rw [if_neg nofun, if_pos rfl, Draft.finalColumns]
    have hlength := hclauses.columns.length_eq
    split
    · rename_i hnone
      rw [hnone, List.length_nil, List.length_eq_zero_iff] at hlength
      rw [hlength]
      rfl
    · rename_i hsome
      have hsome : d.select.columns.isEmpty = false := by
        rw [List.isEmpty_eq_false_iff, ← List.length_pos_iff, hlength, List.length_pos_iff]
        exact hsome
      rw [hsome]
      exact hclauses.columns.imp fun c p h => ⟨h.1, h.2.1⟩

/-- The tests in the clauses of the statement read as those in the scalars in their places. -/
theorem Draft.ClausesTrack.testsReadAs (hconditions : s.conditions = d.select.conditions)
    (hordering : s.ordering = d.select.ordering ∨ s.ordering = []) {e : Expr} {p : Query}
    (hmem : (e, p) ∈ s.pairs q ps cs) : e.TestsReadAs caps (d.frame q :: frames) p := by
  simp only [Select.pairs, List.mem_append, or_assoc] at hmem
  rcases hmem with hmem | hmem | hmem
  · rw [hconditions] at hmem
    exact (List.forall₂_zip hclauses.conditions hmem).2
  · rw [hcolumns, List.zip_map] at hmem
    obtain ⟨⟨c, p⟩, hpair, heq⟩ := List.mem_map.mp hmem
    cases heq
    cases shown with
    | false =>
      rw [if_neg Bool.false_ne_true] at hpair
      obtain rfl := List.mem_singleton.mp (List.of_mem_zip hpair).1
      rintro rows t ⟨⟩
    | true =>
      rw [if_pos rfl, Draft.finalColumns] at hpair
      split at hpair
      · obtain rfl := List.mem_singleton.mp (List.of_mem_zip hpair).1
        intro rows t hall
        cases List.mem_singleton.mp (List.of_mem_zip hall).1
      · exact (List.forall₂_zip hclauses.columns hpair).2.2
  · rw [List.zip_map_left] at hmem
    obtain ⟨⟨k, p⟩, hpair, heq⟩ := List.mem_map.mp hmem
    cases heq
    rcases hordering with hsame | hnone
    · rw [hsame] at hpair
      exact (List.forall₂_zip hclauses.ordering hpair).2
    · rw [hnone] at hpair
      cases hpair

end Clauses

/-- A statement made of the clauses of a draft reads as the sequence. -/
theorem Draft.Tracks.readsAs (hd : d.Tracks caps frames m q) {shown : Bool} {s : Select}
    (horigin : s.origin = d.select.origin) (hconditions : s.conditions = d.select.conditions)
    (hcolumns : s.columns = if shown then d.finalColumns d.row.actual else [⟨.int 1, none⟩])
    (hordering : s.ordering = d.select.ordering ∨ s.ordering = [])
    (hwindow : ∀ w, s.window? = some w → ∀ e ∈ w.lower :: w.upper?.toList, e.ReadsNothing) :
    s.ReadsAs caps shown (frames.map Frame.item) q (frames.map Frame.source) := by
  obtain ⟨base, ps, cs, hclauses⟩ := hd.clauses
  have htables : (frames.map Frame.item).map Item.table
      = (frames.map Frame.source).map Item.table := by
    rw [List.map_map, List.map_map]
    rfl
  refine .intro hclauses.under ⟨hd.item horigin, htables,
    hclauses.columnsReadAs hcolumns, ?_, ?_, hwindow⟩ ?_ ?_ ?_
  · rw [hconditions]
    exact hclauses.conditions.imp fun e p h => h.1
  · rw [horigin]
    refine hordering.symm.imp_right fun hsame => ?_
    rw [hsame]
    exact hclauses.ordering.imp fun k p h => h.1
  · rw [horigin]
    exact hclauses.table
  · rw [horigin]
    exact hclauses.inner
  · exact fun e p hmem => hclauses.testsReadAs hcolumns hconditions hordering hmem

/-- The statement of a draft reads as the sequence, with or without its ordering. -/
theorem Draft.Tracks.finish (hd : d.Tracks caps frames m q) {s s' : Select}
    (hfinish : d.finish = .ok s) (hs' : s' = s ∨ s' = { s with ordering := [] }) :
    s'.ReadsAs caps true (frames.map Frame.item) q (frames.map Frame.source) := by
  obtain ⟨w, hw, rfl⟩ := (Draft.finish_eq_ok hd.source).mp hfinish
  have hwindow := readsNothing_of_window? hw hd.counts
  rcases hs' with rfl | rfl
  · exact hd.readsAs rfl rfl rfl (.inl rfl) hwindow
  · exact hd.readsAs rfl rfl rfl (.inr rfl) hwindow

/-- So does the statement that only says whether there are rows. -/
theorem Draft.Tracks.existence (hd : d.Tracks caps frames m q) {s : Select}
    (hexistence : d.existence = .ok s) :
    s.ReadsAs caps false (frames.map Frame.item) q (frames.map Frame.source) := by
  obtain ⟨w, hw, rfl⟩ := (Draft.existence_eq_ok hd.source).mp hexistence
  refine hd.readsAs rfl rfl rfl ?_ (readsNothing_of_window? hw hd.counts)
  dsimp only
  split
  · exact .inl rfl
  · exact .inr rfl

end Statements

/-! ### The operators -/

/-- The invariant of drafts of sequences below a size. -/
def TracksBelow (caps : Capabilities) (size : Nat) : Prop :=
  ∀ (t : Query) (n m : Naming) (d : Draft) (frames : List Frame), sizeOf t < size →
    Placed n frames → n.scopes = frames.map Frame.scope → t.sourceAliases ⊆ n.sourceAliases →
    Drafts caps t n d m → d.Tracks caps frames m t

/-- What was drafted for a scalar with the given rows in scope reads as the scalar, and its tests as
    the sequences tested, if the invariant holds of these. -/
theorem tracks_of_traces {caps : Capabilities} {size : Nat} (ih : TracksBelow caps size)
    {n : Naming} {frames : List Frame} (hplaced : Placed n frames)
    (hscopes : n.scopes = frames.map Frame.scope) {p : Query} (hsize : sizeOf p < size)
    (haliases : p.sourceAliases ⊆ n.sourceAliases) {e : Expr}
    (h : List.Forall₂ (Traces caps n p.tests) e.references (mentions caps p)) :
    e.Tracks caps frames p := by
  refine ⟨readsAs_of_traces hplaced hscopes h, fun rows t hmem => ?_⟩
  cases List.forall₂_zip h hmem with
  | @test _ n' m' d _ ht hn' hd hrows =>
    have hless := Nat.lt_of_le_of_lt (Query.sizeOf_le_of_mem_tests ht) hsize
    have hsub : t.sourceAliases ⊆ n'.sourceAliases := by
      rw [hn'.sourceAliases]
      exact List.Subset.trans (Query.sourceAliases_subset_of_mem_tests p ht) haliases
    exact (ih t n' m' d frames hless (hplaced.follows hn') (hn'.scopes.trans hscopes) hsub
      (drafts_of_gives hd)).existence hrows

theorem Expr.Tracks.asValue {caps : Capabilities} {frames : List Frame} {e : Expr} {p : Query}
    (h : e.Tracks caps frames p) : (asValue caps e).Tracks caps frames p := by
  rw [Expr.Tracks, Expr.TestsReadAs, references_asValue]
  exact ⟨h.1.asValue, h.2⟩

theorem Expr.Tracks.asPredicate {caps : Capabilities} {frames : List Frame} {e : Expr} {p : Query}
    (h : e.Tracks caps frames p) : (asPredicate caps e).Tracks caps frames p := by
  rw [Expr.Tracks, Expr.TestsReadAs, references_asPredicate]
  exact ⟨h.1.asPredicate, h.2⟩

section Steps

variable {caps : Capabilities} {frames : List Frame} {m k : Naming} {d d' : Draft} {q q' : Query}

/-- One operator more keeps the row of a draft and what it comes from, and has its own clauses. -/
theorem Draft.Tracks.step (hd : d.Tracks caps frames m q) (hq : q'.rows? = some q)
    (hkm : k.Follows m) (hrow : d'.row = d.row) (horigin : d'.select.origin = d.select.origin)
    (hclauses : ∃ base ps cs, d'.ClausesTrack caps frames q' base ps cs)
    (hcounts : ∀ e, d'.paging.skip? = some e ∨ d'.paging.take? = some e → e.ReadsNothing) :
    d'.Tracks caps frames k q' where
  logical := by rw [hrow, hd.logical, Query.rowAlias_of_rows? hq]
  source := by rw [horigin, hrow, hd.source]
  table := by rw [horigin, hd.table, Query.table_of_rows? hq]
  placed := by
    have hframe : d'.frame q' = d.frame q := by
      simp only [Draft.frame, hrow, Query.rowAlias_of_rows? hq, Query.table_of_rows? hq]
    rw [hframe]
    exact hd.placed.follows hkm
  clauses := hclauses
  counts := hcounts

/-- With the row of a draft in scope the frames are those of the draft. -/
theorem Draft.Tracks.inRow (hd : d.Tracks caps frames m q)
    (hscopes : m.scopes = frames.map Frame.scope) :
    Placed { m with scopes := d.row :: m.scopes } (d.frame q :: frames) ∧
      ({ m with scopes := d.row :: m.scopes } : Naming).scopes
        = (d.frame q :: frames).map Frame.scope := by
  refine ⟨hd.placed.mono rfl (Nat.le_refl _), ?_⟩
  simp only [List.map_cons, hscopes, Draft.frame, Frame.scope, ← hd.logical]

/-- A scalar of the next operator, drafted with the row of the draft in scope. -/
theorem Draft.Tracks.scalar (hd : d.Tracks caps frames m q) {size : Nat}
    (ih : TracksBelow caps size) (hscopes : m.scopes = frames.map Frame.scope) {p : Query}
    (hsize : sizeOf p < size) (haliases : p.sourceAliases ⊆ m.sourceAliases) {e : Expr}
    (he : Gives (Sql.inRow d.row (expression caps p)) m e k) :
    e.Tracks caps (d.frame q :: frames) p ∧ k.Follows m := by
  obtain ⟨k', hk', _⟩ := gives_inRow.mp he
  obtain ⟨hplaced, hin⟩ := hd.inRow hscopes
  exact ⟨tracks_of_traces ih hplaced hin hsize haliases (traces_of_gives hk'),
    ((keepsNames_expression caps p).inRow d.row).of_gives he⟩

theorem Draft.Tracks.filtered {rows predicate : Query} {e : Expr}
    (hd : d.Tracks caps frames m rows) {size : Nat} (ih : TracksBelow caps size)
    (hscopes : m.scopes = frames.map Frame.scope) (hsize : sizeOf predicate < size)
    (haliases : predicate.sourceAliases ⊆ m.sourceAliases)
    (he : Gives (Sql.inRow d.row (expression caps predicate)) m e k) :
    (d.filtered (asPredicate caps e)).Tracks caps frames k (.filter rows predicate) := by
  obtain ⟨hscalar, hk⟩ := hd.scalar ih hscopes hsize haliases he
  obtain ⟨base, ps, cs, hclauses⟩ := hd.clauses
  refine hd.step rfl hk rfl rfl ⟨base, ps ++ [predicate], cs, ?_⟩ hd.counts
  have hconditions := List.rel_append hclauses.conditions (.cons hscalar.asPredicate .nil)
  exact { hclauses with under := hclauses.under.filter, conditions := hconditions }

theorem Draft.Tracks.projecting {rows : Query} {columns : List (String × Query)} {cs : List Column}
    (hd : d.Tracks caps frames m rows) {size : Nat} (ih : TracksBelow caps size)
    (hscopes : m.scopes = frames.map Frame.scope) (hsize : sizeOf columns < size)
    (haliases : Query.columnAliases columns ⊆ m.sourceAliases) (hbare : d.select.columns = [])
    (hcs : Gives (Sql.inRow d.row (projection caps columns)) m cs k) :
    (d.projecting cs).Tracks caps frames k (.project rows columns) := by
  obtain ⟨k', hk', _⟩ := gives_inRow.mp hcs
  obtain ⟨hplaced, hin⟩ := hd.inRow hscopes
  obtain ⟨base, ps, _, hclauses⟩ := hd.clauses
  have hk := ((keepsNames_projection caps columns).inRow d.row).of_gives hcs
  refine hd.step rfl hk rfl rfl ⟨base, ps, columns, ?_⟩ hd.counts
  have hnone := hclauses.columns
  rw [hbare, List.forall₂_nil_left_iff] at hnone
  have hunder := hclauses.under
  rw [hnone] at hunder
  have hscalars : List.Forall₂ (fun c p => c.alias? = some p.1 ∧
      c.expr.Tracks caps (d.frame rows :: frames) p.2) cs columns := by
    refine forall₂_imp_mem_right (columns_trace_of_gives hk') fun c p hp h => ⟨h.1, ?_⟩
    have hp := List.mem_map_of_mem (f := Prod.snd) hp
    exact tracks_of_traces ih hplaced hin (Nat.lt_trans (Query.sizeOf_lt_of_mem_columns hp) hsize)
      (List.Subset.trans (Query.sourceAliases_subset_of_mem_columns hp) haliases) h.2
  exact { hclauses with under := hunder.project, columns := hscalars }

theorem Draft.Tracks.ordered {rows key : Query} {direction : Direction} {e : Expr}
    (hd : d.Tracks caps frames m rows) {size : Nat} (ih : TracksBelow caps size)
    (hscopes : m.scopes = frames.map Frame.scope) (hsize : sizeOf key < size)
    (haliases : key.sourceAliases ⊆ m.sourceAliases)
    (he : Gives (Sql.inRow d.row (expression caps key)) m e k) :
    (d.ordered ⟨asValue caps e, direction⟩).Tracks caps frames k (.orderBy rows key direction) := by
  obtain ⟨hscalar, hk⟩ := hd.scalar ih hscopes hsize haliases he
  obtain ⟨base, ps, cs, hclauses⟩ := hd.clauses
  refine hd.step rfl hk rfl rfl ⟨base, ps, cs, ?_⟩ hd.counts
  have hkey : d.select.origin.KeyReadsAs caps (frames.map Frame.item) (frames.map Frame.source)
      (itemOf rows) (asValue caps e) key := .reads hd.source hscalar.asValue.1
  have hordering := List.rel_append hclauses.ordering
    (.cons (a := ⟨asValue caps e, direction⟩) ⟨hkey, hscalar.asValue.2⟩ .nil)
  exact { hclauses with under := hclauses.under.orderBy, ordering := hordering }

end Steps

/-! ### Pushing down -/

/-- No test is carried. -/
theorem not_exists_of_carry {inner rows : Select} {new : String} {e e' : Expr}
    (h : inner.carry new e = some e') : .existsRow rows ∉ e'.references := by
  intro hrows
  rcases carry_eq_some h with ⟨_, _, name, _, _, rfl⟩ | ⟨old, _, _, hsubquery, rfl⟩
  · exact absurd (List.mem_singleton.mp hrows) nofun
  · rw [references_rename, List.mem_map] at hrows
    obtain ⟨x, hx, heq⟩ := hrows
    cases x <;> cases heq
    exact not_exists_of_hasSubquery hsubquery _ (mem_references.mp hx).1

section Pushed

variable {caps : Capabilities} {frames : List Frame} {m : Naming} {d : Draft} {q : Query}

/-- The keys that a derived table carries still read as those of the sequence. -/
theorem Draft.Tracks.carried (hd : d.Tracks caps frames m q) {inner rows : Select}
    {ordering : List OrderKey} (hfinish : d.finish = .ok inner)
    (hcarry : inner.carryOrdering (Text.numbered "t" m.next) = .ok ordering)
    (hrows : rows = inner ∨ rows = { inner with ordering := [] }) :
    List.Forall₂ (fun k p => (Origin.derived rows (Text.numbered "t" m.next)).KeyReadsAs caps
      (frames.map Frame.item) (frames.map Frame.source) (itemOf q) k.expr p ∧
      k.expr.TestsReadAs caps (⟨q.rowAlias, Text.numbered "t" m.next, q.table⟩ :: frames) p)
      ordering q.sortKeys := by
  obtain ⟨base, ps, cs, hclauses⟩ := hd.clauses
  have hnew : ∀ i ∈ frames.map Frame.item, i.source ≠ Text.numbered "t" m.next := by
    intro i hi
    obtain ⟨f, hf, rfl⟩ := List.mem_map.mp hi
    exact hd.placed.tail.ne_next hf
  have hrows : rows.columns = inner.columns ∧ rows.origin = inner.origin := by
    rcases hrows with rfl | rfl <;> exact ⟨rfl, rfl⟩
  have hordering := hclauses.ordering
  have hinner : inner.origin = d.select.origin ∧ inner.ordering = d.select.ordering := by
    obtain ⟨w, _, rfl⟩ := (Draft.finish_eq_ok hd.source).mp hfinish
    exact ⟨rfl, rfl⟩
  rw [← hinner.1, ← hinner.2] at hordering
  refine forall₂_trans (carryOrdering_eq_ok hcarry).flip hordering ?_
  rintro k' k p ⟨hcarried, -⟩ ⟨hkey, -⟩
  refine ⟨hkey.carry hcarried hnew hrows.1 hrows.2, fun tested t hmem => ?_⟩
  exact absurd (List.of_mem_zip hmem).1 (not_exists_of_carry hcarried)

theorem Draft.Tracks.pushed {k : Naming} {d' : Draft} (hd : d.Tracks caps frames m q)
    (hpush : Gives (pushDown d) m d' k) : d'.Tracks caps frames k q := by
  obtain ⟨inner, ordering, hfinish, hcarry, rfl, rfl⟩ := gives_pushDown.mp hpush
  have hrows : (if inner.isPaged then inner else { inner with ordering := [] }) = inner ∨
      (if inner.isPaged then inner else { inner with ordering := [] }) =
        { inner with ordering := [] } := by
    split
    · exact .inl rfl
    · exact .inr rfl
  have hkeys := hd.carried hfinish hcarry hrows
  have hinner := hd.finish hfinish hrows
  generalize (if inner.isPaged then inner else { inner with ordering := [] }) = rows at *
  have htable : rows.table? = some q.table := by
    obtain ⟨w, _, rfl⟩ := (Draft.finish_eq_ok hd.source).mp hfinish
    rcases hrows with rfl | rfl <;> exact hd.table
  exact
    { logical := hd.logical
      source := rfl
      table := htable
      placed := hd.placed.tail.cons_next q.rowAlias q.table
      clauses := by
        refine ⟨q, [], [], .refl, .nil, .nil, hkeys, ?_, ?_⟩
        · rintro name source ⟨⟩
        · rintro rows source ⟨⟩
          exact hinner
      counts := by
        rintro e (he | he) <;> cases he }

end Pushed

/-! ### Whole queries -/

/-- What is known of names where an operator is taken over: the rows in scope and the aliases of
    tables are those of before, those of its own scalars among them. -/
theorem Drafts.around {caps : Capabilities} {rows : Query} {n m : Naming} {d : Draft}
    (hd : Drafts caps rows n d m) {frames : List Frame} (hscopes : n.scopes = frames.map Frame.scope)
    {aliases : List String} (haliases : rows.sourceAliases ++ aliases ⊆ n.sourceAliases) :
    rows.sourceAliases ⊆ n.sourceAliases ∧ m.scopes = frames.map Frame.scope ∧
      aliases ⊆ m.sourceAliases := by
  obtain ⟨hrows, hscalars⟩ := List.append_subset.mp haliases
  rw [hd.follows.scopes, hd.follows.sourceAliases]
  exact ⟨hrows, hscopes, hscalars⟩

/-- The invariant holds of every draft of a sequence, if it holds of the smaller ones. -/
theorem tracks_of_drafts {caps : Capabilities} {size : Nat} (ih : TracksBelow caps size)
    {q : Query} {n m : Naming} {d : Draft} {frames : List Frame} (hsize : sizeOf q ≤ size)
    (hplaced : Placed n frames) (hscopes : n.scopes = frames.map Frame.scope)
    (haliases : q.sourceAliases ⊆ n.sourceAliases) (h : Drafts caps q n d m) :
    d.Tracks caps frames m q := by
  induction h with
  | @source table alias? n =>
    exact
      { logical := rfl
        source := rfl
        table := rfl
        placed := hplaced.cons_table (haliases List.mem_cons_self)
        clauses := by
          refine ⟨_, [], [], .refl, .nil, .nil, .nil, ?_, ?_⟩
          · rintro name source ⟨⟩
            exact ⟨alias?, rfl⟩
          · rintro rows source ⟨⟩
        counts := by
          rintro e (he | he) <;> cases he }
  | pushed _ hpush ihd => exact (ihd hsize hplaced hscopes haliases).pushed hpush
  | filter hd _ _ he ihd =>
    rw [Query.filter.sizeOf_spec] at hsize
    obtain ⟨hrows, hin, hscalar⟩ := hd.around hscopes haliases
    exact (ihd (by omega) hplaced hscopes hrows).filtered ih hin (by omega) hscalar he
  | project hd hproj hcs ihd =>
    rw [Query.project.sizeOf_spec] at hsize
    obtain ⟨hrows, hin, hscalars⟩ := hd.around hscopes haliases
    exact (ihd (by omega) hplaced hscopes hrows).projecting ih hin (by omega) hscalars
      (hd.bare hproj) hcs
  | skip hd _ he ihd =>
    rw [Query.skip.sizeOf_spec] at hsize
    obtain ⟨hrows, -, -⟩ := hd.around hscopes haliases
    have htracks := ihd (by omega) hplaced hscopes hrows
    obtain ⟨base, ps, cs, hclauses⟩ := htracks.clauses
    exact htracks.step rfl (.refl _) rfl rfl
      ⟨base, ps, cs, { hclauses with under := hclauses.under.skip }⟩
      (readsNothing_skip htracks.counts he)
  | take hd _ he ihd =>
    rw [Query.take.sizeOf_spec] at hsize
    obtain ⟨hrows, -, -⟩ := hd.around hscopes haliases
    have htracks := ihd (by omega) hplaced hscopes hrows
    obtain ⟨base, ps, cs, hclauses⟩ := htracks.clauses
    exact htracks.step rfl (.refl _) rfl rfl
      ⟨base, ps, cs, { hclauses with under := hclauses.under.take }⟩
      (readsNothing_take htracks.counts he)
  | orderBy hd _ _ he ihd =>
    rw [Query.orderBy.sizeOf_spec] at hsize
    obtain ⟨hrows, hin, hscalar⟩ := hd.around hscopes haliases
    exact (ihd (by omega) hplaced hscopes hrows).ordered ih hin (by omega) hscalar he

theorem tracksBelow (caps : Capabilities) (size : Nat) : TracksBelow caps size := by
  induction size with
  | zero => exact fun _ _ _ _ _ ht => absurd ht (Nat.not_lt_zero _)
  | succ size ih =>
    intro t n m d frames ht hplaced hscopes haliases hd
    exact tracks_of_drafts ih (Nat.le_of_lt_succ ht) hplaced hscopes haliases hd

/-- The draft of a sequence on its own. -/
theorem tracks_of_sequence {caps : Capabilities} {q : Query} {n m : Naming} {d : Draft}
    (hscopes : n.scopes = []) (haliases : q.sourceAliases ⊆ n.sourceAliases)
    (h : Gives (sequence caps q) n d m) : d.Tracks caps [] m q :=
  tracksBelow caps (sizeOf q + 1) q n m d [] (Nat.lt_succ_self _) (placed_nil n) hscopes haliases
    (drafts_of_gives h)

/-- The only part of the answer to a test that refers to rows is the test. -/
theorem references_answering {rows : Select} {e x : Expr}
    (he : e ∈ (answering (.existsRow rows)).clauses) (hx : x ∈ e.references) :
    x = .existsRow rows := by
  obtain rfl := List.mem_singleton.mp he
  obtain ⟨hpart, href⟩ := mem_references.mp hx
  simp only [Expr.parts, partsWhens, partsOption, List.mem_cons, List.mem_append,
    List.not_mem_nil, or_false] at hpart
  rcases hpart with rfl | (rfl | rfl) | rfl <;> first
    | rfl
    | cases href

/-- The SELECTs in the answer to a test are those of the statement that is tested. -/
theorem block_answering {rows t : Select} {around : List Item}
    (h : (answering (.existsRow rows)).Block [] t around) :
    t = answering (.existsRow rows) ∨ rows.Block [] t around := by
  cases h with
  | self => exact .inl rfl
  | derived horigin _ => cases horigin
  | test hclause hrows hblock =>
    cases references_answering hclause (mem_references.mpr ⟨hrows, rfl⟩)
    exact .inr hblock

/-- A column of a SELECT names an item that it can see, and all columns are those of its own. -/
def Select.Finds (t : Select) (around : List Item) : Prop :=
  ∀ e ∈ t.clauses, ∀ x ∈ e.parts,
    (∀ source name, x = .column source name →
      (level? (t.item?.toList ++ around) source).isSome = true) ∧
    ∀ source, x = .allColumns source → t.item?.map Item.source = some source

theorem Select.finds_of_references {t : Select} {around : List Item}
    (h : ∀ e ∈ t.clauses, ∀ x ∈ e.references, x.Named (t.item?.toList ++ around) ∨
      ∃ source, x = .allColumns source ∧ t.item?.map Item.source = some source) :
    t.Finds around := by
  intro e he x hx
  constructor
  · rintro source name rfl
    rcases h e he _ (mem_references.mpr ⟨hx, rfl⟩) with
      (⟨_, _, heq, hlevel⟩ | ⟨_, heq⟩) | ⟨_, heq, _⟩ <;> cases heq
    exact hlevel
  · rintro source rfl
    rcases h e he _ (mem_references.mpr ⟨hx, rfl⟩) with
      (⟨_, _, heq, _⟩ | ⟨_, heq⟩) | ⟨_, heq, hown⟩ <;> cases heq
    exact hown

theorem Select.ReadsAs.finds {caps : Capabilities} {shown : Bool} {t : Select}
    {around meant : List Item} {q : Query} (h : t.ReadsAs caps shown around q meant) :
    t.Finds around := by
  refine Select.finds_of_references fun e he x hx => ?_
  cases h with
  | @intro _ _ _ _ _ _ source ps cs _ hclauses =>
    rw [hclauses.item]
    rcases hclauses.of_mem_clauses he with hnothing | rfl | ⟨name, rfl⟩ | ⟨p, _, hreads⟩
    · exact absurd hx (hnothing.not_mem_references x)
    · exact .inr ⟨source, List.mem_singleton.mp hx, rfl⟩
    · obtain rfl := List.mem_singleton.mp hx
      exact .inl (Expr.named_column ⟨source, q.table⟩ around name)
    · exact .inl (hreads.named hx)

/-- Columns of the statement mean what those of the query mean.  Every expression stands in a clause
    of a SELECT; every column in a clause names an item that the SELECT can see, and all
    columns are those of its own item; and the statement refers as the query does, clause by
    clause and test by test, except that it may only answer a test. -/
structure Select.Resolves (caps : Capabilities) (s : Select) (q : Query) : Prop where
  held : ∀ x ∈ s.walk, ∃ t around, s.Block [] t around ∧ ∃ e ∈ t.clauses, x ∈ e.parts
  finds : ∀ t around, s.Block [] t around → t.Finds around
  reads :
    if q.isSequence then s.ReadsAs caps true [] q []
    else ∃ rows t, s = answering (.existsRow rows) ∧ q.tests = [t] ∧ rows.ReadsAs caps false [] t []

/-- Every column of the statement of a query refers to the source that the query means. -/
theorem resolves_of_ofQuery {caps : Capabilities} {q : Query} {s : Select}
    (h : Select.ofQuery caps q = .ok s) : s.Resolves caps q := by
  cases hq : q.isSequence with
  | true =>
    obtain ⟨d, m, hd, hfinish⟩ := sequence_of_ofQuery hq h
    have hreads := (tracks_of_sequence rfl (List.Subset.refl _) hd).finish hfinish (.inl rfl)
    refine ⟨fun x hx => holds_of_mem_walk s hx [], fun t around hblock => ?_, ?_⟩
    · obtain ⟨_, _, _, hreads⟩ := hreads.of_block hblock
      exact hreads.finds
    · rw [if_pos hq]
      exact hreads
  | false =>
    obtain ⟨rows, predicate?, e, m, rfl, he, rfl⟩ := any_of_ofQuery hq h
    obtain ⟨s, rfl⟩ := existsRow_of_gives_any he
    obtain ⟨t, ht, n', d, m', hn', hd, hexistence⟩ := tested_of_gives he (Expr.self_mem_parts _)
    have haliases : t.sourceAliases ⊆ n'.sourceAliases := by
      rw [hn'.sourceAliases]
      exact Query.sourceAliases_subset_of_mem_tests _ ht
    have hreads := (tracks_of_sequence hn'.scopes haliases hd).existence hexistence
    refine ⟨fun x hx => holds_of_mem_walk _ hx [], fun u around hblock => ?_, ?_⟩
    · rcases block_answering hblock with rfl | hblock
      · exact Select.finds_of_references fun e he x hx =>
          .inl (.inr ⟨s, references_answering he hx⟩)
      · obtain ⟨_, _, _, hreads⟩ := hreads.of_block hblock
        exact hreads.finds
    · rw [if_neg (by rw [hq]; exact nofun)]
      refine ⟨s, t, rfl, ?_, hreads⟩
      cases predicate? with
      | none => rw [List.mem_singleton.mp ht]; rfl
      | some predicate => rw [List.mem_singleton.mp ht]; rfl

/-- A table that is called as a derived table would be, with a test that refers to it. -/
def correlated : Query :=
  .filter (.take (.source "ITEM" (some "t0")) (.constant (.int32 5)))
    (.any (.take (.source "PART" (some "t0")) (.constant (.int32 1)))
      (some (.equal (.columnOf "t0" "OWNER") (.column "ID"))))

theorem resolves_of_ofQuery_correlated :
    ∃ s, Select.ofQuery (.ofVersion ⟨2, 5, 0, 0⟩) correlated = .ok s ∧
      s.Resolves (.ofVersion ⟨2, 5, 0, 0⟩) correlated :=
  ⟨_, rfl, resolves_of_ofQuery rfl⟩

end QueryLoom.Sql

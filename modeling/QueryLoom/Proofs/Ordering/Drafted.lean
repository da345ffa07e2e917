/-
  QueryLoom/Proofs/Ordering/Drafted.lean
  ======================================
  **Every SELECT is the statement of a draft.**  A statement is finished from the draft of the
  query, a derived table from the draft that was pushed down, and a tested statement from the draft
  of the sequence that is tested.  So what holds of every draft of a sequence holds of every SELECT,
  at any depth.

    * `Draft.Derives`, the invariant, about the origin of a draft and the tests in its clauses;
    * `drafted_of_ofQuery`, every SELECT in the statement of a query.
-/
import QueryLoom.Proofs.Paging.Statement

namespace QueryLoom.Sql

/-- The SELECT is the statement of the draft, maybe without its ordering. -/
def Draft.Becomes (d : Draft) (s : Select) : Prop :=
  d.existence = .ok s ∨ ∃ s', d.finish = .ok s' ∧ (s = s' ∨ s = { s' with ordering := [] })

/-- The SELECT is the statement of a draft of a sequence that the query includes. -/
def Drafted (caps : Capabilities) (q : Query) (t : Select) : Prop :=
  ∃ m n d k, Includes q m ∧ Drafts caps m n d k ∧ d.Becomes t

/-- Every SELECT in the statement is the statement of such a draft. -/
def AllDrafted (caps : Capabilities) (q : Query) (s : Select) : Prop :=
  ∀ items t around, s.Block items t around → Drafted caps q t

/-- The SELECTs in the origin and in the tests of a draft are statements of drafts. -/
structure Draft.Derives (d : Draft) (caps : Capabilities) (q : Query) : Prop where
  counts : ∀ e, d.paging.skip? = some e ∨ d.paging.take? = some e → e.ReadsNothing
  tested : ∀ e ∈ d.clauses, ∀ rows, .existsRow rows ∈ e.parts → AllDrafted caps q rows
  inner : ∀ rows source, d.select.origin = .derived rows source → AllDrafted caps q rows

section

variable {caps : Capabilities} {q q' rows : Query} {d d' : Draft} {s : Select} {n m k : Naming}

/-! ### The statement of a draft -/

/-- A finished draft has its clauses, unless columns or keys are left out or tests are asked of. -/
theorem Draft.Becomes.clauses (h : d.Becomes s) :
    s.origin = d.select.origin ∧ s.conditions = d.select.conditions ∧
      (∀ k ∈ s.ordering, k ∈ d.select.ordering) ∧
      (∀ c ∈ s.columns, c ∈ d.select.columns ∨ ∀ rows, .existsRow rows ∉ c.expr.parts) ∧
      d.paging.window? = .ok s.window? := by
  have hshown : ∀ {own columns : List Column},
      (columns = own ∨ ∃ source, columns = [⟨.allColumns source, none⟩]) →
      ∀ c ∈ columns, c ∈ own ∨ ∀ rows, .existsRow rows ∉ c.expr.parts := by
    rintro own columns (rfl | ⟨source, rfl⟩)
    · exact fun c hc => .inl hc
    · exact List.forall_mem_singleton.mpr (.inr (not_exists_allColumns source))
  rcases h with hexistence | ⟨s', hfinish, hs⟩
  · obtain ⟨columns, w, hw, hcolumns, rfl⟩ := Draft.finish_inv (d := { d with select := { d.select
      with ordering := if d.isPaged then d.select.ordering else []
           columns := [⟨.int 1, none⟩] } }) hexistence
    refine ⟨rfl, rfl, fun k hk => ?_, fun c hc => .inr ?_, hw⟩
    · dsimp only at hk
      split at hk
      · exact hk
      · cases hk
    · rcases hshown hcolumns c hc with hone | hnone
      · rw [List.mem_singleton.mp hone]
        exact (readsNothing_literal _).not_exists
      · exact hnone
  · obtain ⟨columns, w, hw, hcolumns, rfl⟩ := Draft.finish_inv hfinish
    rcases hs with rfl | rfl
    · exact ⟨rfl, rfl, fun k hk => hk, hshown hcolumns, hw⟩
    · exact ⟨rfl, rfl, List.forall_mem_nil _, hshown hcolumns, hw⟩

theorem AllDrafted.mono (h : AllDrafted caps q s)
    (hincludes : ∀ m, Includes q m → Includes q' m) : AllDrafted caps q' s := by
  intro items t around hblock
  obtain ⟨m, n, d, k, hm, hd, ht⟩ := h items t around hblock
  exact ⟨m, n, d, k, hincludes m hm, hd, ht⟩

theorem Drafts.isSequence (h : Drafts caps q n d m) : q.isSequence = true := by
  induction h with
  | pushed _ _ ih => exact ih
  | _ => rfl

/-- The statement of a draft is drafted from the sequence, and so is what stands in it. -/
theorem Draft.Derives.allDrafted (hd : d.Derives caps q) (h : Drafts caps q n d m)
    (hs : d.Becomes s) : AllDrafted caps q s := by
  obtain ⟨horigin, hconditions, hordering, hcolumns, hwindow⟩ := hs.clauses
  intro items t around hblock
  cases hblock with
  | self => exact ⟨q, n, d, m, .refl h.isSequence, h, hs⟩
  | derived hinner hblock => exact hd.inner _ _ (horigin.symm.trans hinner) _ t around hblock
  | test he hrows hblock =>
    have hclause := Draft.mem_clauses_of_test hcolumns hconditions hordering
      (readsNothing_of_window? hwindow hd.counts) he hrows
    exact hd.tested _ hclause _ hrows _ t around hblock

/-! ### The operators -/

/-- A draft that was pushed down keeps its statement in its origin, and tests no rows itself. -/
theorem Draft.Derives.pushed (hd : d.Derives caps q) (h : Drafts caps q n d m)
    (hpush : Gives (pushDown d) m d' k) : d'.Derives caps q := by
  obtain ⟨inner, ordering, hfinish, hcarry, -, rfl⟩ := gives_pushDown.mp hpush
  refine ⟨?_, ?_, ?_⟩
  · rintro e (he | he) <;> cases he
  · intro e he rows hrows
    obtain ⟨k', hk', rfl⟩ := List.mem_map.mp he
    obtain ⟨k, -, hkey⟩ := exists_carry_of_carryOrdering hcarry hk'
    rcases carry_eq_some hkey with ⟨_, _, name, _, _, hcolumn⟩ | ⟨old, _, _, hsubquery, hrename⟩
    · rw [hcolumn, Expr.parts, List.mem_singleton] at hrows
      cases hrows
    · rw [hrename, parts_rename] at hrows
      obtain ⟨x, hx, heq⟩ := List.mem_map.mp hrows
      cases x <;> cases heq
      exact absurd hx (not_exists_of_hasSubquery hsubquery _)
  · rintro rows source ⟨⟩
    refine hd.allDrafted h (.inr ⟨inner, hfinish, ?_⟩)
    split
    · exact .inl rfl
    · exact .inr rfl

/-- One operator more keeps the origin and the clauses of the draft, or adds clauses whose tests
    are statements of drafts. -/
theorem Draft.Derives.step (hd : d.Derives caps rows) (hq : q.rows? = some rows)
    (horigin : d'.select.origin = d.select.origin)
    (hclauses : ∀ e ∈ d'.clauses, e ∈ d.clauses ∨
      ∀ rows, .existsRow rows ∈ e.parts → AllDrafted caps q rows)
    (hcounts : ∀ e, d'.paging.skip? = some e ∨ d'.paging.take? = some e → e.ReadsNothing) :
    d'.Derives caps q where
  counts := hcounts
  tested e he rows' hrows := by
    rcases hclauses e he with he | hnew
    · exact (hd.tested e he rows' hrows).mono fun _ => .ofRows hq
    · exact hnew rows' hrows
  inner rows' source hrows :=
    (hd.inner rows' source (horigin.symm.trans hrows)).mono fun _ => .ofRows hq

/-- The invariant of drafts of sequences below a size. -/
def DerivesBelow (caps : Capabilities) (size : Nat) : Prop :=
  ∀ (t : Query) (n m : Naming) (d : Draft), sizeOf t < size → Drafts caps t n d m →
    d.Derives caps t

/-- A test in a scalar of a sequence is the statement of a draft, and so is what stands in it. -/
theorem allDrafted_of_tested (ih : DerivesBelow caps (sizeOf q)) {p : Query} (hp : p ∈ q.scalars)
    (h : Tested caps n p.tests s) : AllDrafted caps q s := by
  obtain ⟨t, ht, n', d, m', -, hd, hs⟩ := h
  have hsize : sizeOf t < sizeOf q :=
    Nat.lt_of_le_of_lt (Query.sizeOf_le_of_mem_tests ht) (Query.sizeOf_lt_of_mem_scalars hp)
  have hdrafts := drafts_of_gives hd
  exact ((ih t n' m' d hsize hdrafts).allDrafted hdrafts (.inl hs)).mono fun _ => .ofTest hp ht

/-- Every operator keeps the invariant, if it holds of the smaller sequences. -/
theorem derives_of_drafts {size : Nat} (ih : DerivesBelow caps size) (hsize : sizeOf q ≤ size)
    (h : Drafts caps q n d m) : d.Derives caps q := by
  have hbelow : ∀ {q' : Query}, sizeOf q' ≤ size → DerivesBelow caps (sizeOf q') :=
    fun hle t n m d ht => ih t n m d (Nat.lt_of_lt_of_le ht hle)
  induction h with
  | source =>
    refine ⟨?_, fun e he => absurd he List.not_mem_nil, ?_⟩
    · rintro e (he | he) <;> cases he
    · rintro rows source ⟨⟩
  | pushed hd hpush ihd => exact (ihd hsize).pushed hd hpush
  | @filter rows predicate n m k d e _ _ _ he ihd =>
    have hq : (Query.filter rows predicate).rows? = some rows := rfl
    obtain ⟨k', hk', -⟩ := gives_inRow.mp he
    have hd := ihd (Query.sizeOf_le_of_rows? hq hsize)
    refine hd.step hq rfl (fun e' he' => ?_) hd.counts
    refine (d.clauses_filtered _ e' he').imp_right ?_
    rintro rfl rows' hrows'
    exact allDrafted_of_tested (hbelow hsize) (Query.predicate_mem_scalars rows predicate)
      (tested_of_gives hk' (mem_parts_of_asPredicate hrows' rfl))
  | @project rows columns n m k d cs _ _ hcs ihd =>
    have hq : (Query.project rows columns).rows? = some rows := rfl
    obtain ⟨k', hk', -⟩ := gives_inRow.mp hcs
    have hd := ihd (Query.sizeOf_le_of_rows? hq hsize)
    refine hd.step hq rfl (fun e' he' => ?_) hd.counts
    refine (d.clauses_projecting _ e' he').imp_right ?_
    rintro ⟨c, hc, rfl⟩ rows' hrows'
    obtain ⟨p, hpc, n', htested⟩ := tested_of_gives_projection hk' hc hrows'
    exact allDrafted_of_tested (hbelow hsize) (Query.column_mem_scalars rows hpc) htested
  | @skip rows count n m d e _ _ he ihd =>
    have hq : (Query.skip rows count).rows? = some rows := rfl
    have hd := ihd (Query.sizeOf_le_of_rows? hq hsize)
    exact hd.step hq rfl (fun e' he' => .inl he') (readsNothing_skip hd.counts he)
  | @take rows count n m d e _ _ he ihd =>
    have hq : (Query.take rows count).rows? = some rows := rfl
    have hd := ihd (Query.sizeOf_le_of_rows? hq hsize)
    exact hd.step hq rfl (fun e' he' => .inl he') (readsNothing_take hd.counts he)
  | @orderBy rows key direction n m k d e _ _ _ he ihd =>
    have hq : (Query.orderBy rows key direction).rows? = some rows := rfl
    obtain ⟨k', hk', -⟩ := gives_inRow.mp he
    have hd := ihd (Query.sizeOf_le_of_rows? hq hsize)
    refine hd.step hq rfl (fun e' he' => ?_) hd.counts
    refine (d.clauses_ordered _ e' he').imp_right ?_
    rintro rfl rows' hrows'
    exact allDrafted_of_tested (hbelow hsize) (Query.key_mem_scalars rows key direction)
      (tested_of_gives hk' (mem_parts_of_asValue hrows' rfl))

theorem derivesBelow (caps : Capabilities) (size : Nat) : DerivesBelow caps size := by
  induction size with
  | zero => exact fun _ _ _ _ hless => absurd hless (Nat.not_lt_zero _)
  | succ size ih => exact fun _ _ _ _ hless => derives_of_drafts ih (Nat.le_of_lt_succ hless)

/-- Every SELECT in the statement of a draft is the statement of a draft. -/
theorem allDrafted_of_drafts (h : Drafts caps q n d m) (hs : d.Becomes s) : AllDrafted caps q s :=
  (derivesBelow caps (sizeOf q + 1) q n m d (Nat.lt_succ_self _) h).allDrafted h hs

/-- Every SELECT in the statement of a query answers a test or is the statement of a draft of a
    sequence in the query. -/
theorem drafted_of_ofQuery (h : Select.ofQuery caps q = .ok s) {t : Select} {around : List Item}
    (hblock : s.Block [] t around) : (∃ test, t = answering test) ∨
      ∃ m meant n d k, Meant q [] m meant ∧ Drafts caps m n d k ∧ d.Becomes t := by
  cases hq : q.isSequence with
  | true =>
    obtain ⟨d, k, hd, hfinish⟩ := sequence_of_ofQuery hq h
    obtain ⟨m, n, d, k, hm, hd, ht⟩ :=
      allDrafted_of_drafts (drafts_of_gives hd) (.inr ⟨s, hfinish, .inl rfl⟩) _ t around hblock
    obtain ⟨meant, hm⟩ := hm []
    exact .inr ⟨m, meant, n, d, k, hm, hd, ht⟩
  | false =>
    obtain ⟨rows, predicate?, e, _, rfl, he, rfl⟩ := any_of_ofQuery hq h
    obtain ⟨tested, rfl⟩ := existsRow_of_gives_any he
    rcases block_answering hblock with rfl | hblock
    · exact .inl ⟨_, rfl⟩
    · obtain ⟨t', ht', _, d, _, -, hd, hexistence⟩ := tested_of_gives he (Expr.self_mem_parts _)
      obtain ⟨m, n, d, k, hm, hd, ht⟩ :=
        allDrafted_of_drafts (drafts_of_gives hd) (.inl hexistence) _ t around hblock
      obtain ⟨meant, hm⟩ := hm []
      exact .inr ⟨m, meant, n, d, k, .answered ht' hm, hd, ht⟩

end

end QueryLoom.Sql

/-
  QueryLoom/Proofs/Answer/Statement.lean
  ======================================
  **A server computes what the query may answer.**  A server computes one value for each scalar, and
  delivers rows in some order that nothing is known of.  What it computes is one of the answers
  that the query may have: for the scalars by recursion, and for the tests in them because the
  draft of the sequence that is tested answers it.

  This is so below any rows that are around, as long as the columns are read as the query reads
  them, and for whole statements, which nothing is around.  The server has Booleans, so conditions
  and values stand for each other without coercions.

    * `answers_of_gives` — a scalar may have the value that the server computes for it;
    * `answers_of_sequence` — the draft of a sequence answers it;
    * `mayGive_of_ofQuery` — the rows of a whole statement are rows that its sequence may give.
-/
import QueryLoom.Proofs.Answer.Draft

namespace QueryLoom.Sql

variable {V : Type}

/-! ### Facts about drafting -/

theorem names_of_gives {caps : Capabilities} {n m : Naming} {columns : List (String × Query)}
    {cs : List Column} (h : Gives (projection caps columns) n cs m) :
    cs.map Column.alias? = columns.map fun c => some c.1 := by
  induction columns generalizing n cs with
  | nil =>
    rw [(gives_projection_nil.mp h).1]
    rfl
  | cons c rest ih =>
    obtain ⟨e, _, cs', _, hcs, rfl⟩ := gives_projection_cons.mp h
    rw [List.map_cons, List.map_cons, ih hcs]

theorem Draft.Answers.pushedIf {S : Server V} {caps : Capabilities} {ρ : Columns V} {χ : Fields V}
    {q : Query} {d d' : Draft} (hd : d.Answers S caps ρ χ q) {frames : List Frame} {n m : Naming}
    (htracks : d.Tracks caps frames n q) {needed : Bool}
    (hpush : Gives (pushDownIf needed d) n d' m) : d'.Answers S caps ρ χ q := by
  rw [gives_pushDownIf] at hpush
  split at hpush
  · exact hd.pushed htracks hpush
  · obtain ⟨rfl, _⟩ := hpush
    exact hd

section

variable {S : Server V} {caps : Capabilities} (hcaps : caps.booleanType = true)

/-- What is around the scalars of the next operator, for a row of the origin. -/
theorem Naming.Sees.inside {n : Naming} {frames : List Frame} {ρ : Columns V} {χ : Fields V}
    {q : Query} {d : Draft} (hn : n.Sees frames ρ χ) (htracks : d.Tracks caps frames n q)
    (r : Row V) : ({ n with scopes := d.row :: n.scopes } : Naming).Sees (d.frame q :: frames)
      (S.inside ρ (some d.row.actual) r) (χ.within q.rowAlias (r.value S.toInterpretation)) :=
  hn.enter htracks _

include hcaps

/-- Rows that have to meet a predicate answer the filtered sequence. -/
theorem Draft.Answers.meeting {n k m : Naming} {frames : List Frame} {ρ : Columns V}
    {χ : Fields V} {rows predicate : Query} {d d' : Draft} (hd : d.Answers S caps ρ χ rows)
    (hn : n.Sees frames ρ χ) (haliases : rows.sourceAliases ⊆ n.sourceAliases)
    (hrows : Gives (sequence caps rows) n d k)
    (hpredicate : ∀ {n' m' : Naming} {frames' : List Frame} {ρ' : Columns V} {χ' : Fields V}
      {e : Expr}, n'.Sees frames' ρ' χ' → n'.sourceAliases = n.sourceAliases →
      Gives (expression caps predicate) n' e m' → e.Answers S caps ρ' χ' predicate)
    (h : Gives (Sql.meeting caps d (some predicate)) k d' m) :
    d'.Answers S caps ρ χ (.filter rows predicate) := by
  simp only [gives_meeting_some, asPredicate_of_booleanType hcaps] at h
  obtain ⟨d₁, k₁, e, hpush, he, rfl⟩ := h
  obtain ⟨htracks₀, htracks, hk, hpaged, hproj⟩ := hn.nextFlat haliases hrows hpush
  obtain ⟨k₂, hin, rfl⟩ := gives_inRow.mp he
  exact (hd.pushedIf htracks₀ hpush).filtered hpaged hproj fun r =>
    hpredicate ((hn.follows hk).inside htracks r) hk.sourceAliases hin

variable (hdb : ∀ table, (S.tables table).length < 2 ^ 63)

include hdb

-- some of the theorems use what is assumed here only in the calls to the others
set_option linter.unusedSectionVars false in
mutual

/-- A scalar may have the value that the server computes for it. -/
theorem answers_of_gives {n m : Naming} {frames : List Frame} {ρ : Columns V} {χ : Fields V}
    (hn : n.Sees frames ρ χ) {e : Expr} : {q : Query} → q.sourceAliases ⊆ n.sourceAliases →
      Gives (expression caps q) n e m → e.Answers S caps ρ χ q
  | .constant _, _, h => by
    intro _
    rw [(gives_constant.mp h).1]
    rfl
  | .parameter _, _, h => by
    intro _
    rw [(gives_parameter.mp h).1]
    rfl
  | .member receiver? (.column alias? name), _, h => by
    obtain ⟨_, row, hrow, rfl, _⟩ := gives_column.mp h
    intro _
    exact hn.reads alias? row hrow name
  | .member receiver? (.property p), haliases, h => by
    obtain ⟨receiver, x, hreceiver, hx, happly⟩ := gives_property.mp h
    intro haccepted
    have hoperands := Mapping.accepted_of_apply happly haccepted
    rw [List.append_nil] at hoperands
    rw [Query.sourceAliases] at haliases
    refine ⟨_, answers_of_gives_optionValue hn haliases hreceiver
      (fun e he => hoperands e (Option.mem_toList.mpr he)), ?_⟩
    rw [Mapping.value_of_apply (evaluates_eval S ρ) happly, operationValue_eq _ caps hx,
      List.append_nil]
    cases receiver <;> rfl
  | .call receiver? method args, haliases, h => by
    obtain ⟨x, receiver, _, es, hx, hreceiver, hes, happly⟩ := gives_call.mp h
    intro haccepted
    have hoperands := Mapping.accepted_of_apply happly haccepted
    rw [List.forall_mem_append] at hoperands
    rw [Query.sourceAliases, List.append_subset] at haliases
    have hm := (keepsNames_optionValue caps receiver?).of_gives hreceiver
    have hliterals : (receiver.toList ++ es).map Expr.literal?
        = (receiver?.toList ++ args).map Query.constant? := by
      rw [List.map_append, List.map_append, literals_of_gives_optionValue hreceiver,
        literals_of_gives_values hes]
    refine ⟨_, _, answers_of_gives_optionValue hn haliases.1 hreceiver
      (fun e he => hoperands.1 e (Option.mem_toList.mpr he)),
      answers_of_gives_values (hn.follows hm) (hm.sourceAliases ▸ haliases.2) hes hoperands.2, ?_⟩
    rw [Mapping.value_of_apply (evaluates_eval S ρ) happly, operationValue_eq _ caps hx,
      List.map_append, secondLiteral?_eq hliterals]
  | .binary left op right, haliases, h => by
    rw [Query.sourceAliases, List.append_subset] at haliases
    simp only [gives_binary, asValue_of_booleanType hcaps, operand_of_booleanType hcaps] at h
    intro haccepted
    split at h
    · rename_i hnull
      obtain ⟨e', he, rfl⟩ := h
      have hright := haccepted.operands _ List.mem_cons_self
      obtain ⟨v, hv⟩ := Query.exists_mayBe S.toStore caps χ left
      refine ⟨v, _, hv, answers_of_gives hn haliases.2 he hright, ?_⟩
      rw [Store.joined, if_pos hnull]
      rfl
    · rename_i hleft
      split at h
      · rename_i hnull
        obtain ⟨e', he, rfl⟩ := h
        have hoperand := haccepted.operands _ List.mem_cons_self
        obtain ⟨w, hw⟩ := Query.exists_mayBe S.toStore caps χ right
        refine ⟨_, w, answers_of_gives hn haliases.1 he hoperand, hw, ?_⟩
        rw [Store.joined, if_neg hleft, if_pos hnull]
        rfl
      · rename_i hright
        obtain ⟨l, k, r, hl, hr, rfl⟩ := h
        have hk := (keepsNames_expression caps left).of_gives hl
        have hoperands := haccepted.operands
        simp only [Expr.operands, List.forall_mem_cons] at hoperands
        refine ⟨_, _, answers_of_gives hn haliases.1 hl hoperands.1,
          answers_of_gives (hn.follows hk) (hk.sourceAliases ▸ haliases.2) hr hoperands.2.1, ?_⟩
        rw [Store.joined, if_neg hleft, if_neg hright]
        rfl
  | .unary .not operand, haliases, h => by
    simp only [gives_not, asPredicate_of_booleanType hcaps] at h
    obtain ⟨e', he, rfl⟩ := h
    intro haccepted
    rw [Query.sourceAliases] at haliases
    have hoperand := haccepted.operands _ List.mem_cons_self
    exact ⟨_, answers_of_gives hn haliases he hoperand, rfl⟩
  | .unary .negate operand, haliases, h => by
    simp only [gives_negate, asValue_of_booleanType hcaps] at h
    obtain ⟨e', he, rfl⟩ := h
    intro haccepted
    rw [Query.sourceAliases] at haliases
    have hoperand := haccepted.operands _ List.mem_cons_self
    exact ⟨_, answers_of_gives hn haliases he hoperand, rfl⟩
  | .any rows none, haliases, h => by
    rw [Query.sourceAliases, List.append_subset] at haliases
    obtain ⟨d, k, _, s, hrows, hnone, hs, rfl⟩ := gives_any.mp h
    obtain ⟨rfl, rfl⟩ := gives_meeting_none.mp hnone
    intro haccepted
    obtain ⟨found, hfound, hempty⟩ := (answers_of_sequence hn haliases.1 hrows).existence hs
      (haccepted s (Expr.self_mem_parts _))
    exact Query.mayBe_any.mpr ⟨found, Query.mayFind_none.mpr hfound, by rw [Expr.eval, hempty]⟩
  | .any rows (some predicate), haliases, h => by
    rw [Query.sourceAliases, List.append_subset] at haliases
    obtain ⟨d, k, d', s, hrows, hmeeting, hs, rfl⟩ := gives_any.mp h
    have hd := (answers_of_sequence hn haliases.1 hrows).meeting hcaps hn haliases.1 hrows
      (fun hsees hk hin => answers_of_gives hsees (hk ▸ haliases.2) hin) hmeeting
    intro haccepted
    obtain ⟨found, hfound, hempty⟩ := hd.existence hs (haccepted s (Expr.self_mem_parts _))
    exact Query.mayBe_any.mpr ⟨found, Query.mayFind_some.mpr hfound, by rw [Expr.eval, hempty]⟩
  | .source .., _, h | .filter .., _, h | .project .., _, h | .skip .., _, h | .take .., _, h
  | .orderBy .., _, h => absurd h (not_gives_expression rfl)

theorem answers_of_gives_optionValue {n m : Naming} {frames : List Frame} {ρ : Columns V}
    {χ : Fields V} (hn : n.Sees frames ρ χ) {e? : Option Expr} : {q? : Option Query} →
      Query.optionAliases q? ⊆ n.sourceAliases → Gives (optionValue caps q?) n e? m →
      (∀ e ∈ e?, e.Accepted) →
      Query.mayBeOption S.toStore caps χ q? (e?.toList.map (Expr.eval S ρ))
  | none, _, h, _ => by
    rw [(gives_optionValue_none.mp h).1]
    rfl
  | some q, haliases, h, haccepted => by
    simp only [gives_optionValue_some, asValue_of_booleanType hcaps] at h
    obtain ⟨e, he, rfl⟩ := h
    exact ⟨_, answers_of_gives hn haliases he (haccepted _ rfl), rfl⟩

theorem answers_of_gives_values {n m : Naming} {frames : List Frame} {ρ : Columns V}
    {χ : Fields V} (hn : n.Sees frames ρ χ) {es : List Expr} : {qs : List Query} →
      Query.listAliases qs ⊆ n.sourceAliases → Gives (values caps qs) n es m →
      (∀ e ∈ es, e.Accepted) → Query.mayBeList S.toStore caps χ qs (es.map (Expr.eval S ρ))
  | [], _, h, _ => by
    rw [(gives_values_nil.mp h).1]
    rfl
  | q :: rest, haliases, h, haccepted => by
    rw [Query.listAliases, List.append_subset] at haliases
    simp only [gives_values_cons, asValue_of_booleanType hcaps] at h
    obtain ⟨e, k, es, he, hes, rfl⟩ := h
    have hk := (keepsNames_expression caps q).of_gives he
    rw [List.forall_mem_cons] at haccepted
    exact ⟨_, _, answers_of_gives hn haliases.1 he haccepted.1,
      answers_of_gives_values (hn.follows hk) (hk.sourceAliases ▸ haliases.2) hes haccepted.2, rfl⟩

theorem answers_of_gives_projection {n m : Naming} {frames : List Frame} {ρ : Columns V}
    {χ : Fields V} (hn : n.Sees frames ρ χ) {cs : List Column} :
    {columns : List (String × Query)} → Query.columnAliases columns ⊆ n.sourceAliases →
      Gives (projection caps columns) n cs m → (∀ c ∈ cs, c.expr.Accepted) →
      Query.mayShow S.toStore caps χ columns
        (cs.map fun c => (c.alias?.getD "", c.expr.eval S ρ))
  | [], _, h, _ => by
    rw [(gives_projection_nil.mp h).1]
    rfl
  | (name, q) :: rest, haliases, h, haccepted => by
    rw [Query.columnAliases, List.append_subset] at haliases
    simp only [gives_projection_cons, asValue_of_booleanType hcaps] at h
    obtain ⟨e, k, cs, he, hcs, rfl⟩ := h
    have hk := (keepsNames_expression caps q).of_gives he
    rw [List.forall_mem_cons] at haccepted
    exact ⟨_, _, answers_of_gives hn haliases.1 he haccepted.1,
      answers_of_gives_projection (hn.follows hk) (hk.sourceAliases ▸ haliases.2) hcs haccepted.2,
      rfl⟩

/-- The draft of a sequence answers it. -/
theorem answers_of_sequence {n m : Naming} {frames : List Frame} {ρ : Columns V} {χ : Fields V}
    (hn : n.Sees frames ρ χ) {d : Draft} : {q : Query} → q.sourceAliases ⊆ n.sourceAliases →
      Gives (sequence caps q) n d m → d.Answers S caps ρ χ q
  | .source table alias?, _, h => by
    rw [(gives_source.mp h).1]
    exact answers_source hdb
  | .filter rows predicate, haliases, h => by
    rw [Query.sourceAliases, List.append_subset] at haliases
    obtain ⟨d₀, k, hrows, hmeeting⟩ := gives_filter.mp h
    exact (answers_of_sequence hn haliases.1 hrows).meeting hcaps hn haliases.1 hrows
      (fun hsees hk hin => answers_of_gives hsees (hk ▸ haliases.2) hin) hmeeting
  | .project rows columns, haliases, h => by
    rw [Query.sourceAliases, List.append_subset] at haliases
    obtain ⟨d, k, d₁, k₁, cs, hrows, hpush, hcs, rfl⟩ := gives_project.mp h
    obtain ⟨htracks₀, htracks, hk, hproj⟩ := hn.next haliases.1 hrows Draft.projected
      (by rintro ⟨⟩ rfl rfl; rfl) hpush
    have hd := (answers_of_sequence hn haliases.1 hrows).pushedIf htracks₀ hpush
    obtain ⟨k₃, hin, rfl⟩ := gives_inRow.mp hcs
    exact hd.projecting hproj (names_of_gives hin) fun haccepted r =>
      answers_of_gives_projection ((hn.follows hk).inside htracks r)
        (hk.sourceAliases ▸ haliases.2) hin haccepted
  | .skip rows count, haliases, h => by
    rw [Query.sourceAliases, List.append_subset] at haliases
    obtain ⟨d, k, d₁, e, hrows, hpush, he, rfl⟩ := gives_skip.mp h
    obtain ⟨htracks, _, _, hpaged⟩ := hn.next haliases.1 hrows Draft.isPaged
      (by rintro ⟨⟩ rfl rfl; rfl) hpush
    exact ((answers_of_sequence hn haliases.1 hrows).pushedIf htracks hpush).skip hpaged he
  | .take rows count, haliases, h => by
    rw [Query.sourceAliases, List.append_subset] at haliases
    obtain ⟨d, k, d₁, e, hrows, hpush, he, rfl⟩ := gives_take.mp h
    obtain ⟨htracks, _, _, htake⟩ := hn.next haliases.1 hrows (fun d => d.paging.take?.isSome)
      (by rintro ⟨⟩ rfl rfl; rfl) hpush
    exact ((answers_of_sequence hn haliases.1 hrows).pushedIf htracks hpush).take
      (by simpa using htake) he
  | .orderBy rows key direction, haliases, h => by
    rw [Query.sourceAliases, List.append_subset] at haliases
    simp only [gives_orderBy, asValue_of_booleanType hcaps] at h
    obtain ⟨d, k, d₁, k₁, e, hrows, hpush, he, rfl⟩ := h
    obtain ⟨htracks₀, htracks, hk, hpaged, hproj⟩ := hn.nextFlat haliases.1 hrows hpush
    have hd := (answers_of_sequence hn haliases.1 hrows).pushedIf htracks₀ hpush
    obtain ⟨k₃, hin, rfl⟩ := gives_inRow.mp he
    exact hd.ordered hpaged hproj fun r =>
      answers_of_gives ((hn.follows hk).inside htracks r) (hk.sourceAliases ▸ haliases.2) hin
  | .any .., _, h | .member .., _, h | .call .., _, h | .constant _, _, h | .parameter _, _, h
  | .binary .., _, h | .unary .., _, h => absurd h (not_gives_sequence rfl)

end

/-! ### Whole statements -/

/-- The rows that the statement of a sequence gives are rows that the sequence may give. -/
theorem mayGive_of_ofQuery {ρ : Columns V} {χ : Fields V} {q : Query} {s : Select}
    (hq : q.isSequence = true) (hs : Select.ofQuery caps q = .ok s) (haccepted : s.Accepted) :
    ∃ ranked, q.mayGive S.toStore caps χ ranked ∧ s.run S ρ = ranked.map Ranked.row := by
  obtain ⟨d, m, hd, hfinish⟩ := sequence_of_ofQuery hq hs
  have hanswers : d.Answers S caps ρ χ q :=
    answers_of_sequence hcaps hdb (.nil rfl) (List.Subset.refl _) hd
  obtain ⟨w, hw, rfl⟩ := (Draft.finish_eq_ok hanswers.source).mp hfinish
  obtain ⟨keys, shown, hadmits⟩ :=
    hanswers.admits ⟨haccepted.origin_accepted, haccepted.conditions⟩
  have hkeys := hadmits.ordering haccepted.ordering
  have hshown := hadmits.columns (Draft.accepted_columns haccepted.columns)
  obtain ⟨arranged, harranged, hsorted, hrun⟩ :=
    hanswers.exists_arranged hw (d.finalColumns d.row.actual) d.select.ordering
  refine ⟨_, hadmits.gives arranged harranged (hsorted.imp fun h => ?_), hrun.trans ?_⟩
  · rw [hkeys, hkeys, ← hanswers.directions]
    exact h
  · rw [Paging.keep_map, List.map_map]
    exact List.map_congr_left fun r _ => (hshown r).symm

end

end QueryLoom.Sql

/-
  QueryLoom/Proofs/Truth/Lowering.lean
  ====================================
  **The older statement is the newer one with coercions.**  A query that is typed and compiles
  for a server with Booleans and for one without becomes the same statement for both, but for
  the coercions that the older server needs (`Select.coerced`).

  Each step of drafting puts coercions where the newer one puts nothing.  A key that a derived
  table carries is found among the coerced columns because typed expressions agree with
  coercions just when they agree without.

    * `Select.Typed.keepsKeys` — coercions do not confuse the keys of a typed statement;
    * `coerced_of_ofQuery` — the statements for both servers.
-/
import QueryLoom.Proofs.Truth.Carrying
import QueryLoom.Proofs.Truth.Tree

namespace QueryLoom.Sql

/-! ### Typed drafts -/

section

variable {schema : Schema} {τ : Columns Kind} {Γ : Fields Kind} {caps : Capabilities} {d : Draft}
  {q : Query}

/-- Coercions do not confuse the keys of a typed statement with its columns. -/
theorem Select.Typed.keepsKeys (hcaps : caps.booleanType = false) {s : Select}
    (hs : s.Typed schema τ) : s.KeepsKeys caps := by
  intro k hk c hc
  rw [Bool.eq_iff_iff]
  exact agrees_standing_value hcaps (hs.columns c hc) (hs.ordering k hk) (agreeAlike hcaps _ _)

theorem existence_eq_coerced {source : String} (h : d.select.origin.alias? = some source)
    {s s' : Select} (hs : d.existence = .ok s) (hs' : (d.coerced caps).existence = .ok s') :
    s' = s.coerced caps := by
  obtain ⟨s₁, hs₁, rfl⟩ := (existence_coerced h).mp hs'
  cases hs.symm.trans hs₁
  rfl

/-- To push a coerced draft down is to push the typed draft down and to put in coercions. -/
theorem pushDownIf_coerced (hcaps : caps.booleanType = false) (hd : d.Typed schema τ Γ q)
    {needed : Bool} {d₁ d₁' : Draft} {n m m' : Naming} (h : Gives (pushDownIf needed d) n d₁ m)
    (h' : Gives (pushDownIf needed (d.coerced caps)) n d₁' m') :
    d₁' = d₁.coerced caps ∧ m' = m := by
  have hkeys : ∀ s, d.finish = .ok s → s.KeepsKeys caps :=
    fun s hs => (hd.finish hs (.inl rfl)).1.keepsKeys hcaps
  obtain ⟨d₂, h₂, rfl⟩ := (gives_pushDownIf_coerced hd.source hkeys).mp h'
  obtain ⟨rfl, rfl⟩ := h.unique h₂
  exact ⟨rfl, rfl⟩

end

/-! ### Scalars and sequences -/

/-- The first server has Booleans and the second has none, and both count places in a text alike. -/
structure DropsBooleans (caps old : Capabilities) : Prop where
  newer : caps.booleanType = true
  older : old.booleanType = false
  start : caps.oneBasedSubstring = old.oneBasedSubstring

section

variable {schema : Schema} {caps old : Capabilities} (h₀ : DropsBooleans caps old)

include h₀

/-- Rows that have to meet a predicate are, for the older server, the coerced ones. -/
theorem coerced_of_meeting {n k m m' : Naming} {frames : List Frame} {τ : Columns Kind}
    {Γ : Fields Kind} {rows predicate : Query} {d d₁ d₁' : Draft} (hn : n.Sees frames τ Γ)
    (haliases : rows.sourceAliases ⊆ n.sourceAliases) (hrows : Gives (sequence caps rows) n d k)
    (hd : d.Typed schema τ Γ rows)
    (hpredicate : ∀ {n' m₁ m₁' : Naming} {frames' : List Frame} {τ' : Columns Kind} {e e' : Expr},
      n'.Sees frames' τ' (rows.around schema Γ) → n'.sourceAliases = n.sourceAliases →
      Gives (expression caps predicate) n' e m₁ → Gives (expression old predicate) n' e' m₁' →
      e' = e.coerced old ∧ m₁' = m₁)
    (h : Gives (meeting caps d (some predicate)) k d₁ m)
    (h' : Gives (meeting old (d.coerced old) (some predicate)) k d₁' m') :
    d₁' = d₁.coerced old ∧ m' = m := by
  simp only [gives_meeting_some, asPredicate_of_booleanType h₀.newer] at h h'
  obtain ⟨d₂, k₂, e, hpush, he, rfl⟩ := h
  obtain ⟨d₂', k₂', e', hpush', he', rfl⟩ := h'
  obtain ⟨htracks₀, htracks, hk, -, hproj⟩ := hn.nextFlat haliases hrows hpush
  obtain ⟨rfl, rfl⟩ := pushDownIf_coerced h₀.older hd hpush hpush'
  have hsees := (hd.pushedIf htracks₀ hpush).sees htracks hproj (hn.follows hk)
  obtain ⟨k₃, hin, rfl⟩ := gives_inRow.mp he
  obtain ⟨k₃', hin', rfl⟩ := gives_inRow.mp he'
  obtain ⟨rfl, rfl⟩ := hpredicate hsees hk.sourceAliases hin hin'
  exact ⟨filtered_coerced d₂ e, rfl⟩

mutual

/-- The expression of a typed scalar for the older server is the coerced one. -/
theorem coerced_of_gives {n m m' : Naming} {frames : List Frame} {τ : Columns Kind}
    {Γ : Fields Kind} (hn : n.Sees frames τ Γ) {e e' : Expr} : {q : Query} →
      q.sourceAliases ⊆ n.sourceAliases → q.isTyped schema Γ = true →
      Gives (expression caps q) n e m → Gives (expression old q) n e' m' →
      e' = e.coerced old ∧ m' = m
  | .constant _, _, _, h, h' => by
    obtain ⟨rfl, rfl⟩ := gives_constant.mp h
    obtain ⟨rfl, rfl⟩ := gives_constant.mp h'
    exact ⟨rfl, rfl⟩
  | .parameter _, _, _, h, h' => by
    obtain ⟨rfl, rfl⟩ := gives_parameter.mp h
    obtain ⟨rfl, rfl⟩ := gives_parameter.mp h'
    exact ⟨rfl, rfl⟩
  | .member receiver? (.column alias? name), _, _, h, h' => by
    obtain ⟨_, row, hrow, rfl, rfl⟩ := gives_column.mp h
    obtain ⟨_, row', hrow', rfl, rfl⟩ := gives_column.mp h'
    rw [hrow] at hrow'
    cases hrow'
    exact ⟨rfl, rfl⟩
  | .member receiver? (.property p), haliases, htyped, h, h' => by
    rw [Query.isTyped] at htyped
    rw [Query.sourceAliases] at haliases
    obtain ⟨r, x, hr, hx, happly⟩ := gives_property.mp h
    obtain ⟨r', x', hr', hx', happly'⟩ := gives_property.mp h'
    obtain ⟨rfl, rfl⟩ := coerced_of_gives_optionValue hn haliases htyped hr hr'
    obtain rfl : x = x' := Except.ok.inj (hx.symm.trans hx')
    exact ⟨Mapping.coerced_of_apply h₀.start hx happly happly', rfl⟩
  | .call receiver? method args, haliases, htyped, h, h' => by
    rw [Query.isTyped, Bool.and_eq_true] at htyped
    rw [Query.sourceAliases, List.append_subset] at haliases
    obtain ⟨x, r, k, es, hx, hr, hes, happly⟩ := gives_call.mp h
    obtain ⟨x', r', k', es', hx', hr', hes', happly'⟩ := gives_call.mp h'
    have hm := (keepsNames_optionValue caps receiver?).of_gives hr
    obtain ⟨rfl, rfl⟩ := coerced_of_gives_optionValue hn haliases.1 htyped.1 hr hr'
    obtain ⟨rfl, rfl⟩ := coerced_of_gives_values (hn.follows hm)
      (hm.sourceAliases ▸ haliases.2) htyped.2 hes hes'
    obtain rfl : x = x' := Except.ok.inj (hx.symm.trans hx')
    exact ⟨Mapping.coerced_of_apply h₀.start hx happly happly', rfl⟩
  | .binary left op right, haliases, htyped, h, h' => by
    rw [Query.isTyped, Bool.and_eq_true, Bool.and_eq_true] at htyped
    rw [Query.sourceAliases, List.append_subset] at haliases
    simp only [gives_binary, asValue_of_booleanType h₀.newer, operand_of_booleanType h₀.newer] at h
    rw [gives_binary] at h'
    split at h
    · rename_i hnull
      rw [if_pos hnull] at h'
      obtain ⟨e, he, rfl⟩ := h
      obtain ⟨e', he', rfl⟩ := h'
      obtain ⟨rfl, rfl⟩ := coerced_of_gives hn haliases.2 htyped.1.2 he he'
      exact ⟨rfl, rfl⟩
    · rename_i hleft
      rw [if_neg hleft] at h'
      split at h
      · rename_i hnull
        rw [if_pos hnull] at h'
        obtain ⟨e, he, rfl⟩ := h
        obtain ⟨e', he', rfl⟩ := h'
        obtain ⟨rfl, rfl⟩ := coerced_of_gives hn haliases.1 htyped.1.1 he he'
        exact ⟨rfl, rfl⟩
      · rename_i hright
        rw [if_neg hright] at h'
        obtain ⟨l, k, r, hl, hr, rfl⟩ := h
        obtain ⟨l', k', r', hl', hr', rfl⟩ := h'
        have hk := (keepsNames_expression caps left).of_gives hl
        obtain ⟨rfl, rfl⟩ := coerced_of_gives hn haliases.1 htyped.1.1 hl hl'
        obtain ⟨rfl, rfl⟩ := coerced_of_gives (hn.follows hk) (hk.sourceAliases ▸ haliases.2)
          htyped.1.2 hr hr'
        refine ⟨?_, rfl⟩
        rw [Expr.coerced, isLogical_ofQuery]
        cases op.isLogical <;> rfl
  | .unary .not operand, haliases, htyped, h, h' => by
    rw [Query.isTyped, Bool.and_eq_true] at htyped
    rw [Query.sourceAliases] at haliases
    simp only [gives_not, asPredicate_of_booleanType h₀.newer] at h h'
    obtain ⟨e, he, rfl⟩ := h
    obtain ⟨e', he', rfl⟩ := h'
    obtain ⟨rfl, rfl⟩ := coerced_of_gives hn haliases htyped.1 he he'
    exact ⟨rfl, rfl⟩
  | .unary .negate operand, haliases, htyped, h, h' => by
    rw [Query.isTyped, Bool.and_eq_true] at htyped
    rw [Query.sourceAliases] at haliases
    simp only [gives_negate, asValue_of_booleanType h₀.newer] at h h'
    obtain ⟨e, he, rfl⟩ := h
    obtain ⟨e', he', rfl⟩ := h'
    obtain ⟨rfl, rfl⟩ := coerced_of_gives hn haliases htyped.1 he he'
    exact ⟨rfl, rfl⟩
  | .any rows none, haliases, htyped, h, h' => by
    rw [Query.isTyped, Bool.and_eq_true] at htyped
    rw [Query.sourceAliases, List.append_subset] at haliases
    obtain ⟨d, k, _, s, hd, hnone, hs, rfl⟩ := gives_any.mp h
    obtain ⟨rfl, rfl⟩ := gives_meeting_none.mp hnone
    obtain ⟨d', k', _, s', hd', hnone', hs', rfl⟩ := gives_any.mp h'
    obtain ⟨rfl, rfl⟩ := gives_meeting_none.mp hnone'
    have htypes := typed_of_sequence h₀.newer hn haliases.1 htyped.1 hd
    obtain ⟨rfl, rfl⟩ := coerced_of_sequence hn haliases.1 htyped.1 hd hd'
    rw [existence_eq_coerced htypes.source hs hs']
    exact ⟨rfl, rfl⟩
  | .any rows (some predicate), haliases, htyped, h, h' => by
    rw [Query.isTyped, Bool.and_eq_true, Query.predicateTyped, Bool.and_eq_true] at htyped
    rw [Query.sourceAliases, List.append_subset] at haliases
    obtain ⟨d, k, d₁, s, hrows, hmeeting, hs, rfl⟩ := gives_any.mp h
    obtain ⟨d', k', d₁', s', hrows', hmeeting', hs', rfl⟩ := gives_any.mp h'
    have hd := typed_of_sequence h₀.newer hn haliases.1 htyped.1 hrows
    have hmet := hd.meeting h₀.newer hn haliases.1 hrows (fun hsees hk hin =>
      typed_of_gives h₀.newer hsees (hk ▸ haliases.2) htyped.2.1 hin) htyped.2.2 hmeeting
    obtain ⟨rfl, rfl⟩ := coerced_of_sequence hn haliases.1 htyped.1 hrows hrows'
    obtain ⟨rfl, rfl⟩ := coerced_of_meeting h₀ hn haliases.1 hrows hd (fun hsees hk hin hin' =>
      coerced_of_gives hsees (hk ▸ haliases.2) htyped.2.1 hin hin') hmeeting hmeeting'
    rw [existence_eq_coerced hmet.source hs hs']
    exact ⟨rfl, rfl⟩
  | .source .., _, _, h, _ | .filter .., _, _, h, _ | .project .., _, _, h, _
  | .skip .., _, _, h, _ | .take .., _, _, h, _ | .orderBy .., _, _, h, _ =>
    absurd h (not_gives_expression rfl)

theorem coerced_of_gives_optionValue {n m m' : Naming} {frames : List Frame} {τ : Columns Kind}
    {Γ : Fields Kind} (hn : n.Sees frames τ Γ) {e? e'? : Option Expr} : {q? : Option Query} →
      Query.optionAliases q? ⊆ n.sourceAliases → Query.optionTyped schema Γ q? = true →
      Gives (optionValue caps q?) n e? m → Gives (optionValue old q?) n e'? m' →
      e'? = e?.map (Expr.standing old false) ∧ m' = m
  | none, _, _, h, h' => by
    obtain ⟨rfl, rfl⟩ := gives_optionValue_none.mp h
    obtain ⟨rfl, rfl⟩ := gives_optionValue_none.mp h'
    exact ⟨rfl, rfl⟩
  | some q, haliases, htyped, h, h' => by
    rw [Query.optionTyped, Bool.and_eq_true] at htyped
    simp only [gives_optionValue_some, asValue_of_booleanType h₀.newer] at h h'
    obtain ⟨e, he, rfl⟩ := h
    obtain ⟨e', he', rfl⟩ := h'
    obtain ⟨rfl, rfl⟩ := coerced_of_gives hn haliases htyped.1 he he'
    exact ⟨rfl, rfl⟩

theorem coerced_of_gives_values {n m m' : Naming} {frames : List Frame} {τ : Columns Kind}
    {Γ : Fields Kind} (hn : n.Sees frames τ Γ) {es es' : List Expr} : {qs : List Query} →
      Query.listAliases qs ⊆ n.sourceAliases → Query.listTyped schema Γ qs = true →
      Gives (values caps qs) n es m → Gives (values old qs) n es' m' →
      es' = es.map (Expr.standing old false) ∧ m' = m
  | [], _, _, h, h' => by
    obtain ⟨rfl, rfl⟩ := gives_values_nil.mp h
    obtain ⟨rfl, rfl⟩ := gives_values_nil.mp h'
    exact ⟨rfl, rfl⟩
  | q :: rest, haliases, htyped, h, h' => by
    rw [Query.listTyped, Bool.and_eq_true, Bool.and_eq_true] at htyped
    rw [Query.listAliases, List.append_subset] at haliases
    simp only [gives_values_cons, asValue_of_booleanType h₀.newer] at h h'
    obtain ⟨e, k, es, he, hes, rfl⟩ := h
    obtain ⟨e', k', es', he', hes', rfl⟩ := h'
    have hk := (keepsNames_expression caps q).of_gives he
    obtain ⟨rfl, rfl⟩ := coerced_of_gives hn haliases.1 htyped.1.1 he he'
    obtain ⟨rfl, rfl⟩ := coerced_of_gives_values (hn.follows hk) (hk.sourceAliases ▸ haliases.2)
      htyped.2 hes hes'
    exact ⟨rfl, rfl⟩

theorem coerced_of_gives_projection {n m m' : Naming} {frames : List Frame} {τ : Columns Kind}
    {Γ : Fields Kind} (hn : n.Sees frames τ Γ) {cs cs' : List Column} :
    {columns : List (String × Query)} → Query.columnAliases columns ⊆ n.sourceAliases →
      Query.columnsTyped schema Γ columns = true → Gives (projection caps columns) n cs m →
      Gives (projection old columns) n cs' m' →
      cs' = cs.map (fun c => ⟨c.expr.standing old false, c.alias?⟩) ∧ m' = m
  | [], _, _, h, h' => by
    obtain ⟨rfl, rfl⟩ := gives_projection_nil.mp h
    obtain ⟨rfl, rfl⟩ := gives_projection_nil.mp h'
    exact ⟨rfl, rfl⟩
  | (name, q) :: rest, haliases, htyped, h, h' => by
    rw [Query.columnsTyped, Bool.and_eq_true] at htyped
    rw [Query.columnAliases, List.append_subset] at haliases
    simp only [gives_projection_cons, asValue_of_booleanType h₀.newer] at h h'
    obtain ⟨e, k, cs, he, hcs, rfl⟩ := h
    obtain ⟨e', k', cs', he', hcs', rfl⟩ := h'
    have hk := (keepsNames_expression caps q).of_gives he
    obtain ⟨rfl, rfl⟩ := coerced_of_gives hn haliases.1 htyped.1 he he'
    obtain ⟨rfl, rfl⟩ := coerced_of_gives_projection (hn.follows hk)
      (hk.sourceAliases ▸ haliases.2) htyped.2 hcs hcs'
    exact ⟨rfl, rfl⟩

/-- The draft of a typed sequence for the older server is the coerced one. -/
theorem coerced_of_sequence {n m m' : Naming} {frames : List Frame} {τ : Columns Kind}
    {Γ : Fields Kind} (hn : n.Sees frames τ Γ) {d d' : Draft} : {q : Query} →
      q.sourceAliases ⊆ n.sourceAliases → q.isTyped schema Γ = true →
      Gives (sequence caps q) n d m → Gives (sequence old q) n d' m' →
      d' = d.coerced old ∧ m' = m
  | .source table alias?, _, _, h, h' => by
    obtain ⟨rfl, rfl⟩ := gives_source.mp h
    obtain ⟨rfl, rfl⟩ := gives_source.mp h'
    exact ⟨rfl, rfl⟩
  | .filter rows predicate, haliases, htyped, h, h' => by
    rw [Query.isTyped, Bool.and_eq_true, Bool.and_eq_true] at htyped
    rw [Query.sourceAliases, List.append_subset] at haliases
    obtain ⟨d, k, hrows, hmeeting⟩ := gives_filter.mp h
    obtain ⟨d', k', hrows', hmeeting'⟩ := gives_filter.mp h'
    have hd := typed_of_sequence h₀.newer hn haliases.1 htyped.1.1 hrows
    obtain ⟨rfl, rfl⟩ := coerced_of_sequence hn haliases.1 htyped.1.1 hrows hrows'
    exact coerced_of_meeting h₀ hn haliases.1 hrows hd (fun hsees hk hin hin' =>
      coerced_of_gives hsees (hk ▸ haliases.2) htyped.1.2 hin hin') hmeeting hmeeting'
  | .project rows columns, haliases, htyped, h, h' => by
    rw [Query.isTyped, Bool.and_eq_true] at htyped
    rw [Query.sourceAliases, List.append_subset] at haliases
    obtain ⟨d, k, d₁, k₁, cs, hrows, hpush, hcs, rfl⟩ := gives_project.mp h
    obtain ⟨d', k', d₁', k₁', cs', hrows', hpush', hcs', rfl⟩ := gives_project.mp h'
    obtain ⟨htracks₀, htracks, hk, hproj⟩ := hn.next haliases.1 hrows Draft.projected
      (by rintro ⟨⟩ rfl rfl; rfl) hpush
    have htypes₀ := typed_of_sequence h₀.newer hn haliases.1 htyped.1 hrows
    have htypes := htypes₀.pushedIf htracks₀ hpush
    obtain ⟨rfl, rfl⟩ := coerced_of_sequence hn haliases.1 htyped.1 hrows hrows'
    obtain ⟨rfl, rfl⟩ := pushDownIf_coerced h₀.older htypes₀ hpush hpush'
    have hsees := htypes.sees htracks hproj (hn.follows hk)
    obtain ⟨k₃, hin, rfl⟩ := gives_inRow.mp hcs
    obtain ⟨k₃', hin', rfl⟩ := gives_inRow.mp hcs'
    obtain ⟨rfl, rfl⟩ := coerced_of_gives_projection hsees (hk.sourceAliases ▸ haliases.2)
      htyped.2 hin hin'
    exact ⟨projecting_coerced d₁ cs, rfl⟩
  | .skip rows count, haliases, htyped, h, h' => by
    rw [Query.sourceAliases, List.append_subset] at haliases
    obtain ⟨d, k, d₁, e, hrows, hpush, he, rfl⟩ := gives_skip.mp h
    obtain ⟨d', k', d₁', e', hrows', hpush', he', rfl⟩ := gives_skip.mp h'
    have htypes₀ := typed_of_sequence h₀.newer hn haliases.1 htyped hrows
    obtain ⟨rfl, rfl⟩ := coerced_of_sequence hn haliases.1 htyped hrows hrows'
    obtain ⟨rfl, rfl⟩ := pushDownIf_coerced h₀.older htypes₀ hpush hpush'
    obtain rfl : e = e' := Except.ok.inj (he.symm.trans he')
    exact ⟨rfl, rfl⟩
  | .take rows count, haliases, htyped, h, h' => by
    rw [Query.sourceAliases, List.append_subset] at haliases
    obtain ⟨d, k, d₁, e, hrows, hpush, he, rfl⟩ := gives_take.mp h
    obtain ⟨d', k', d₁', e', hrows', hpush', he', rfl⟩ := gives_take.mp h'
    have htypes₀ := typed_of_sequence h₀.newer hn haliases.1 htyped hrows
    obtain ⟨rfl, rfl⟩ := coerced_of_sequence hn haliases.1 htyped hrows hrows'
    obtain ⟨rfl, rfl⟩ := pushDownIf_coerced h₀.older htypes₀ hpush hpush'
    obtain rfl : e = e' := Except.ok.inj (he.symm.trans he')
    exact ⟨rfl, rfl⟩
  | .orderBy rows key direction, haliases, htyped, h, h' => by
    rw [Query.isTyped, Bool.and_eq_true] at htyped
    rw [Query.sourceAliases, List.append_subset] at haliases
    simp only [gives_orderBy, asValue_of_booleanType h₀.newer] at h h'
    obtain ⟨d, k, d₁, k₁, e, hrows, hpush, he, rfl⟩ := h
    obtain ⟨d', k', d₁', k₁', e', hrows', hpush', he', rfl⟩ := h'
    obtain ⟨htracks₀, htracks, hk, -, hproj⟩ := hn.nextFlat haliases.1 hrows hpush
    have htypes₀ := typed_of_sequence h₀.newer hn haliases.1 htyped.1 hrows
    have htypes := htypes₀.pushedIf htracks₀ hpush
    obtain ⟨rfl, rfl⟩ := coerced_of_sequence hn haliases.1 htyped.1 hrows hrows'
    obtain ⟨rfl, rfl⟩ := pushDownIf_coerced h₀.older htypes₀ hpush hpush'
    have hsees := htypes.sees htracks hproj (hn.follows hk)
    obtain ⟨k₃, hin, rfl⟩ := gives_inRow.mp he
    obtain ⟨k₃', hin', rfl⟩ := gives_inRow.mp he'
    obtain ⟨rfl, rfl⟩ := coerced_of_gives hsees (hk.sourceAliases ▸ haliases.2) htyped.2 hin hin'
    exact ⟨ordered_coerced d₁ e direction, rfl⟩
  | .any .., _, _, h, _ | .member .., _, _, h, _ | .call .., _, _, h, _ | .constant _, _, _, h, _
  | .parameter _, _, _, h, _ | .binary .., _, _, h, _ | .unary .., _, _, h, _ =>
    absurd h (not_gives_sequence rfl)

end

end

/-- The statement of a typed sequence for a server without Booleans is the one for a server with
    them and with coercions put in, and the latter is typed. -/
theorem coerced_of_ofQuery {schema : Schema} {caps old : Capabilities}
    (h₀ : DropsBooleans caps old) {q : Query} {s s' : Select}
    {τ : Columns Kind} {Γ : Fields Kind} (hq : q.isSequence = true)
    (htyped : q.isTyped schema Γ = true) (hs : Select.ofQuery caps q = .ok s)
    (hs' : Select.ofQuery old q = .ok s') : s.Typed schema τ ∧ s' = s.coerced old := by
  obtain ⟨d, m, hd, hfinish⟩ := sequence_of_ofQuery hq hs
  obtain ⟨d', m', hd', hfinish'⟩ := sequence_of_ofQuery hq hs'
  have hn : (Naming.ofQuery q).Sees [] τ Γ := .nil rfl
  have htypes := typed_of_sequence h₀.newer hn (List.Subset.refl _) htyped hd
  obtain ⟨rfl, _⟩ := coerced_of_sequence h₀ hn (List.Subset.refl _) htyped hd hd'
  obtain ⟨s₁, hs₁, rfl⟩ := (finish_coerced htypes.source).mp hfinish'
  cases hfinish.symm.trans hs₁
  exact ⟨(htypes.finish hfinish (.inl rfl)).1, rfl⟩

end QueryLoom.Sql

/-
  QueryLoom/Proofs/Upgrade/Truth.lean
  ===================================
  **From a server without Booleans to one with them.**  What is taken over for the older server
  is what is taken over for the newer one with coercions (`Select.coerced`), and the newer one
  takes it over as long as it finds the keys that the older one finds.  A key under a projection
  has to be one of its columns.  Coercions make more expressions agree, because a value that
  stands as a condition becomes its comparison with one, so the older server may find a key
  that the newer one does not.

    * `agrees_standing` — expressions that agree do so with coercions;
    * `LosesKey` — a projection loses a key where the run visits it;
    * `gains_expression`, `gains_sequence` — where none does, the newer server follows the older.
-/
import QueryLoom.Proofs.Drafting.Visit
import QueryLoom.Proofs.Truth.Carrying
import QueryLoom.Proofs.Truth.Typing
import QueryLoom.Proofs.Upgrade.Features

namespace QueryLoom.Sql

variable {old new : Capabilities}

/-! ### Agreement -/

theorem agrees_placed {e e' : Expr} (condition : Bool) (h : e.agrees e' = true) :
    (placed old condition e).agrees (placed old condition e') = true := by
  have hpredicate : e.isPredicate = e'.isPredicate := isPredicate_eq_of_agrees h
  have hint : ∀ n, (Expr.int n).agrees (.int n) = true := int_agrees_self
  cases condition <;> simp only [placed, asPredicate, asValue, hpredicate, Bool.false_eq_true,
    if_true, if_false] <;> split
  · exact h
  · simp [Expr.agrees, agreeWhens, agreeOption, h, hint]
  · exact h
  · simp [Expr.agrees, h, hint]

/-- A choice between branches has its coercions already. -/
theorem coerced_case {e : Expr} {b : Bool} (h : e.operator? = some (.case b)) :
    e.coerced old = e := by
  cases e <;> first
    | rfl
    | cases h

theorem inherited_agrees_coerced : Inherited
    (fun e => ∀ e', e.agrees e' = true → (e.coerced old).agrees (e'.coerced old) = true)
    (fun s => ∀ s', s.agrees s' = true → (s.coerced old).agrees (s'.coerced old) = true) where
  expression e operands test e' h := by
    cases Expr.agrees_iff.mp h with
    | column | allColumns | literal | parameter => exact h
    | existsRow hrows => exact Expr.agrees_iff.mpr (.existsRow (test _ rfl _ hrows))
    | @operator _ _ op hop hop' hoperands =>
      by_cases hcase : ∃ b, op = .case b
      · obtain ⟨b, rfl⟩ := hcase
        rwa [coerced_case hop, coerced_case hop']
      · have hnot : ∀ b, op ≠ .case b := fun b hb => hcase ⟨b, hb⟩
        rw [agrees_of_operator ((operator?_coerced old e).trans hop), operator?_coerced,
          operands_coerced old hop hnot, operands_coerced old hop' hnot]
        refine ⟨hop', ?_⟩
        rw [Agree, List.forall₂_map_left_iff, List.forall₂_map_right_iff]
        exact forall₂_imp_mem hoperands fun o ho o' hagrees =>
          agrees_placed _ (operands o ho o' hagrees)
  statement s columns conditions ordering origin s' h := by
    rw [Select.agrees_iff] at h
    obtain ⟨horigin, hcolumns, hconditions, hordering, hwindow⟩ := h
    rw [coerced_mk, coerced_mk]
    simp only [Select.agrees_iff, Agree, List.forall₂_map_left_iff, List.forall₂_map_right_iff]
    refine ⟨?_, ?_, ?_, ?_, hwindow⟩
    · generalize ho : s.origin = o at horigin
      generalize s'.origin = o' at horigin
      cases Origin.agrees_iff.mp horigin with
      | table | singleRow => exact horigin
      | derived hrows source =>
        exact Origin.agrees_iff.mpr (.derived (origin _ source ho _ hrows) source)
    · exact forall₂_imp_mem hcolumns fun c hc c' hagrees =>
        hagrees.imp_left fun h => agrees_placed _ (columns c hc c'.expr h)
    · exact forall₂_imp_mem hconditions fun e he e' hagrees =>
        agrees_placed _ (conditions e he e' hagrees)
    · exact forall₂_imp_mem hordering fun k hk k' hagrees =>
        hagrees.imp_left fun h => agrees_placed _ (ordering k hk k'.expr h)

/-- Expressions that agree do so with coercions. -/
theorem agrees_standing {e e' : Expr} (condition : Bool) (h : e.agrees e' = true) :
    (e.standing old condition).agrees (e'.standing old condition) = true :=
  agrees_placed condition (inherited_agrees_coerced.of_expr e e' h)

/-! ### Operations -/

/-- The first server has no Booleans, the second one has them, and otherwise it is an upgrade. -/
structure GainsBooleans (old new : Capabilities) : Prop extends Upgrade old new where
  older : old.booleanType = false
  newer : new.booleanType = true
  oneBased : old.oneBasedSubstring = true

theorem literal?_standing (e : Expr) : (e.standing old false).literal? = e.literal? := by
  refine (literal?_asValue old (e.coerced old)).trans ?_
  cases e <;> rfl

/-- The newer server can write an operation on as many operands if it starts a text nowhere else. -/
theorem Mapping.exists_apply_of_gain (h₀ : GainsBooleans old new) {op : Operation} {x : Mapping}
    {receiver? receiver'? : Option Expr} {args args' : List Expr} {e' : Expr}
    (hx : Mapping.find op args.length = .ok x) (hlength : args'.length = args.length)
    (hreceiver : receiver'?.isSome = receiver?.isSome)
    (hstart : ∀ start ∈ args.head?, ∃ start' ∈ args'.head?, start'.literal? = start.literal?)
    (h' : x.apply old receiver'? args' = .ok e') : ∃ e, x.apply new receiver? args = .ok e := by
  obtain ⟨⟨hsupports, hgiven⟩, hnatural⟩ :=
    (exists_apply_iff h₀.oneBased (hlength ▸ hx)).mp ⟨e', h'⟩
  refine (exists_apply_iff (h₀.start ▸ h₀.oneBased) hx).mpr
    ⟨⟨?_, hreceiver ▸ hgiven⟩, fun hop start hhead v hv => ?_⟩
  · cases hfeature : x.requires? with
    | none => rfl
    | some f =>
      rw [hfeature] at hsupports
      exact h₀.supports f hsupports
  · obtain ⟨start', hhead', hsame⟩ := hstart start hhead
    exact hnatural hop start' hhead' v (hsame.trans hv)

/-- An operation that can be written with coercions can be written without them. -/
theorem Mapping.exists_apply_of_coerced (h₀ : GainsBooleans old new) {op : Operation}
    {x : Mapping} {receiver? : Option Expr} {args : List Expr} {e' : Expr}
    (hx : Mapping.find op args.length = .ok x)
    (h' : x.apply old (receiver?.map (Expr.standing old false))
      (args.map (Expr.standing old false)) = .ok e') :
    ∃ e, x.apply new receiver? args = .ok e ∧ e' = e.coerced old := by
  have hstart : ∀ start ∈ args.head?,
      ∃ start' ∈ (args.map (Expr.standing old false)).head?, start'.literal? = start.literal? := by
    intro start hhead
    rw [List.head?_map]
    exact ⟨_, Option.mem_map_of_mem _ hhead, literal?_standing start⟩
  obtain ⟨e, he⟩ := Mapping.exists_apply_of_gain h₀ hx (List.length_map _) Option.isSome_map
    hstart h'
  exact ⟨e, he, Mapping.coerced_of_apply h₀.start.symm hx he h'⟩

/-! ### Drafts -/

/-- The draft is as it has to be for its keys to be found with and without coercions. -/
structure Draft.Kept (d : Draft) (old : Capabilities) : Prop where
  source : ∃ source, d.select.origin.alias? = some source
  bare : d.projected = false → d.select.columns = []
  keys : d.select.KeepsKeys old

theorem allColumns_agrees {source : String} {e : Expr} :
    (Expr.allColumns source).agrees e = true ↔ e = .allColumns source := by
  cases e with
  | allColumns source' =>
    rw [Expr.agrees, beq_iff_eq, Expr.allColumns.injEq]
    exact eq_comm
  | _ => simp [Expr.agrees]

/-- A statement without columns of its own cannot confuse them with keys. -/
theorem keepsKeys_all {s : Select} {source : String}
    (hs : s.columns = [⟨.allColumns source, none⟩]) : s.KeepsKeys old := by
  intro k _ c hc
  rw [hs, List.mem_singleton] at hc
  rw [hc, Bool.eq_iff_iff]
  exact allColumns_agrees.trans (standing_eq_allColumns.trans allColumns_agrees.symm)

namespace Draft.Kept

variable {d : Draft} (h : d.Kept old)

include h

theorem finish {s : Select} (hs : d.finish = .ok s) : s.KeepsKeys old := by
  obtain ⟨source, hsource⟩ := h.source
  obtain ⟨w, _, rfl⟩ := (Draft.finish_eq_ok hsource).mp hs
  cases hcolumns : d.select.columns with
  | nil =>
    have hall : d.finalColumns source = [⟨.allColumns source, none⟩] := by
      rw [Draft.finalColumns, hcolumns]
      rfl
    exact keepsKeys_all hall
  | cons c rest =>
    have hfinal : d.finalColumns source = d.select.columns := by
      rw [Draft.finalColumns, hcolumns]
      rfl
    intro k hk c' hc'
    exact h.keys k hk c' (hfinal ▸ hc')

/-- A draft without columns of its own has none that an operator could confuse with a key. -/
theorem of_bare {d' : Draft} (hproj : d.projected = false)
    (hcolumns : d'.select.columns = d.select.columns)
    (horigin : d'.select.origin = d.select.origin) : d'.Kept old := by
  have hnone : d'.select.columns = [] := hcolumns.trans (h.bare hproj)
  refine ⟨horigin ▸ h.source, fun _ => hnone, fun k _ c hc => ?_⟩
  rw [hnone] at hc
  cases hc

/-- Pushing a draft down for the older server is pushing it down for the newer one. -/
theorem pushDownIf (needed : Draft → Bool)
    (hneeded : ∀ d : Draft, needed (d.coerced old) = needed d)
    (hfresh : ∀ d : Draft, d.paging = {} → d.projected = false → needed d = false)
    {d' : Draft} {n m : Naming}
    (hpush : Gives (Sql.pushDownIf (needed (d.coerced old)) (d.coerced old)) n d' m) :
    ∃ d₁, Gives (Sql.pushDownIf (needed d) d) n d₁ m ∧ d' = d₁.coerced old ∧ d₁.Kept old ∧
      needed d₁ = false := by
  obtain ⟨source, hsource⟩ := h.source
  rw [hneeded] at hpush
  obtain ⟨d₁, hd₁, rfl⟩ := (gives_pushDownIf_coerced hsource fun s hs => h.finish hs).mp hpush
  refine ⟨d₁, hd₁, rfl, ?_⟩
  rw [gives_pushDownIf] at hd₁
  split at hd₁
  · obtain ⟨hpaging, hprojected⟩ := flat_of_gives_pushDown hd₁
    obtain ⟨_, _, _, _, _, rfl⟩ := gives_pushDown.mp hd₁
    exact ⟨⟨⟨_, rfl⟩, fun _ => rfl, fun k _ c hc => absurd hc List.not_mem_nil⟩,
      hfresh _ hpaging hprojected⟩
  · next hnot =>
    obtain ⟨rfl, -⟩ := hd₁
    exact ⟨h, by simpa using hnot⟩

/-- Pushed down for a condition or a key, it has no columns of its own. -/
theorem pushDownBare {d' : Draft} {n m : Naming}
    (hpush : Gives (Sql.pushDownIf ((d.coerced old).isPaged || (d.coerced old).projected)
      (d.coerced old)) n d' m) :
    ∃ d₁, Gives (Sql.pushDownIf (d.isPaged || d.projected) d) n d₁ m ∧ d' = d₁.coerced old ∧
      d₁.Kept old ∧ d₁.projected = false := by
  obtain ⟨d₁, hd₁, rfl, hkept, hneeded⟩ := h.pushDownIf (fun d => d.isPaged || d.projected)
    (fun _ => rfl) (by rintro ⟨⟩ rfl rfl; rfl) hpush
  exact ⟨d₁, hd₁, rfl, hkept, (Bool.or_eq_false_iff.mp hneeded).2⟩

end Draft.Kept

/-! ### Projections -/

/-- The older server takes over a projection as the newer one does with coercions, and with
    coercions a key of its ordering is one of its columns, but without them it is not.  Both start
    with the names `n`. -/
def LosesKey (old new : Capabilities) (n : Naming) (projection : Query) : Prop :=
  ∃ d m, Gives (sequence new projection) n d m ∧
    Gives (sequence old projection) n (d.coerced old) m ∧
    ∃ k ∈ d.select.ordering, ∃ c ∈ d.select.columns,
      (c.expr.standing old false).agrees (k.expr.standing old false) = true ∧
        c.expr.agrees k.expr = false

/-- No projection that the newer server's run visits loses a key. -/
def Keeping (old new : Capabilities) (q : Query) (n : Naming) : Prop :=
  ∀ rows columns k, Visits new q n (.project rows columns) k →
    ¬ LosesKey old new k (.project rows columns)

/-- No projection that is visited from one of several scalars loses a key. -/
def KeepingEach (old new : Capabilities) (qs : List Query) (n : Naming) : Prop :=
  ∀ x k, EntersOne new qs n x k → Keeping old new x k

section Keeping

variable {q x : Query} {qs : List Query} {n m k : Naming}

theorem Keeping.below (h : Keeping old new q n) (hx : Enters new q n x k) : Keeping old new x k :=
  fun rows columns m hy => h rows columns m (.step hx hy)

theorem KeepingEach.head (h : KeepingEach old new (q :: qs) n) : Keeping old new q n :=
  h q n .head

theorem KeepingEach.tail {e : Expr} (h : KeepingEach old new (q :: qs) n)
    (he : Gives (expression new q) n e m) : KeepingEach old new qs m :=
  fun x k hx => h x k (.tail he hx)

/-- A projection that loses no key has the same keys among its columns without coercions. -/
theorem keepsKeys_of_project (hq : ¬ LosesKey old new n q) {d : Draft}
    (h : Gives (sequence new q) n d m) (h' : Gives (sequence old q) n (d.coerced old) m) :
    d.select.KeepsKeys old := by
  intro k hk c hc
  rw [Bool.eq_iff_iff]
  refine ⟨fun hagrees => ?_, agrees_standing false⟩
  by_contra hnot
  exact hq ⟨d, m, h, h', k, hk, c, hc, hagrees, Bool.eq_false_iff.mpr hnot⟩

end Keeping

/-! ### The recursion -/

/-- Rows that have to meet a predicate are, for the older server, those for the newer one with
    coercions. -/
theorem Draft.Kept.meeting (h₀ : GainsBooleans old new) {n m : Naming} {d d' : Draft}
    {predicate : Query} (hkept₀ : d.Kept old)
    (hpredicate : ∀ {d₁ : Draft} {k k' : Naming} {e' : Expr},
      Gives (Sql.pushDownIf (d.isPaged || d.projected) d) n d₁ k →
      Gives (expression old predicate) { k with scopes := d₁.row :: k.scopes } e' k' →
      ∃ e, Gives (expression new predicate) { k with scopes := d₁.row :: k.scopes } e k' ∧
        e' = e.coerced old)
    (h : Gives (Sql.meeting old (d.coerced old) (some predicate)) n d' m) :
    ∃ d₁, Gives (Sql.meeting new d (some predicate)) n d₁ m ∧ d' = d₁.coerced old ∧
      d₁.Kept old := by
  simp only [gives_meeting_some, asPredicate_of_booleanType h₀.newer] at h ⊢
  obtain ⟨d₁', k₁, e', hpush', he', rfl⟩ := h
  obtain ⟨d₁, hpush, rfl, hkept, hbare⟩ := hkept₀.pushDownBare hpush'
  obtain ⟨k₃, hin', rfl⟩ := gives_inRow.mp he'
  obtain ⟨e, hin, rfl⟩ := hpredicate hpush hin'
  exact ⟨d₁.filtered e, ⟨d₁, k₁, e, hpush, gives_inRow.mpr ⟨k₃, hin, rfl⟩, rfl⟩,
    filtered_coerced d₁ e, hkept.of_bare hbare rfl rfl⟩

mutual

/-- A scalar for the older server is that for the newer one with coercions. -/
theorem gains_expression (h₀ : GainsBooleans old new) {n m : Naming} {e' : Expr} : {q : Query} →
    Keeping old new q n → Gives (expression old q) n e' m →
    ∃ e, Gives (expression new q) n e m ∧ e' = e.coerced old
  | .constant v, _, h => by
    obtain ⟨rfl, rfl⟩ := gives_constant.mp h
    exact ⟨.literal v, gives_constant.mpr ⟨rfl, rfl⟩, rfl⟩
  | .parameter p, _, h => by
    obtain ⟨rfl, rfl⟩ := gives_parameter.mp h
    exact ⟨.parameter p, gives_parameter.mpr ⟨rfl, rfl⟩, rfl⟩
  | .member receiver? (.column alias? name), _, h => by
    obtain ⟨hreceiver, row, hrow, rfl, rfl⟩ := gives_column.mp h
    exact ⟨_, gives_column.mpr ⟨hreceiver, row, hrow, rfl, rfl⟩, rfl⟩
  | .member receiver? (.property p), hq, h => by
    obtain ⟨r', x, hr', hx, happly'⟩ := gives_property.mp h
    obtain ⟨r, hr, rfl⟩ := gains_optionValue h₀
      (by rintro q rfl; exact hq.below .memberReceiver) hr'
    have hnone : Mapping.find (.property p) ([] : List Expr).length = .ok x := hx
    obtain ⟨e, happly, rfl⟩ := Mapping.exists_apply_of_coerced h₀ hnone happly'
    exact ⟨e, gives_property.mpr ⟨r, x, hr, hx, happly⟩, rfl⟩
  | .call receiver? method args, hq, h => by
    obtain ⟨x, r', k, es', hx, hr', hes', happly'⟩ := gives_call.mp h
    obtain ⟨r, hr, rfl⟩ := gains_optionValue h₀
      (by rintro q rfl; exact hq.below .callReceiver) hr'
    obtain ⟨es, hes, rfl⟩ := gains_values h₀ (fun x k hx => hq.below (.argument hr hx)) hes'
    have hlength := length_of_gives_values hes
    obtain ⟨e, happly, rfl⟩ := Mapping.exists_apply_of_coerced h₀ (hlength ▸ hx) happly'
    exact ⟨e, gives_call.mpr ⟨x, r, k, es, hx, hr, hes, happly⟩, rfl⟩
  | .binary left op right, hq, h => by
    rw [gives_binary] at h
    simp only [gives_binary, asValue_of_booleanType h₀.newer, operand_of_booleanType h₀.newer]
    split at h
    · next hnull =>
      simp only [if_pos hnull]
      obtain ⟨e', he', rfl⟩ := h
      obtain ⟨e, he, rfl⟩ := gains_expression h₀ (hq.below (.besideNull hnull)) he'
      exact ⟨_, ⟨e, he, rfl⟩, rfl⟩
    · next hleft =>
      simp only [if_neg hleft]
      split at h
      · next hnull =>
        simp only [if_pos hnull]
        obtain ⟨e', he', rfl⟩ := h
        obtain ⟨e, he, rfl⟩ := gains_expression h₀ (hq.below (.left hleft)) he'
        exact ⟨_, ⟨e, he, rfl⟩, rfl⟩
      · next hright =>
        simp only [if_neg hright]
        obtain ⟨l', k, r', hl', hr', rfl⟩ := h
        obtain ⟨l, hl, rfl⟩ := gains_expression h₀ (hq.below (.left hleft)) hl'
        obtain ⟨r, hr, rfl⟩ := gains_expression h₀ (hq.below (.right hleft hright hl)) hr'
        refine ⟨.binary l (.ofQuery op) r, ⟨l, k, r, hl, hr, rfl⟩, ?_⟩
        rw [Expr.coerced, isLogical_ofQuery]
        cases op.isLogical <;> rfl
  | .unary .not operand, hq, h => by
    simp only [gives_not, asPredicate_of_booleanType h₀.newer] at h ⊢
    obtain ⟨e', he', rfl⟩ := h
    obtain ⟨e, he, rfl⟩ := gains_expression h₀ (hq.below .operand) he'
    exact ⟨_, ⟨e, he, rfl⟩, rfl⟩
  | .unary .negate operand, hq, h => by
    simp only [gives_negate, asValue_of_booleanType h₀.newer] at h ⊢
    obtain ⟨e', he', rfl⟩ := h
    obtain ⟨e, he, rfl⟩ := gains_expression h₀ (hq.below .operand) he'
    exact ⟨_, ⟨e, he, rfl⟩, rfl⟩
  | .any rows predicate?, hq, h => by
    obtain ⟨d₀', k, d', s', hrows', hmeeting', hs', rfl⟩ := gives_any.mp h
    obtain ⟨d₀, hrows, rfl, hkept⟩ := gains_sequence h₀ (hq.below .testRows) hrows'
    obtain ⟨d, hmeeting, rfl, hmet⟩ := gains_meeting h₀
      (by rintro predicate rfl d₁ k hpush; exact hq.below (.testPredicate hrows hpush))
      hkept hmeeting'
    obtain ⟨source, hsource⟩ := hmet.source
    obtain ⟨s, hs, rfl⟩ := (existence_coerced hsource).mp hs'
    exact ⟨.existsRow s, gives_any.mpr ⟨d₀, k, d, s, hrows, hmeeting, hs, rfl⟩, rfl⟩
  | .source .., _, h | .filter .., _, h | .project .., _, h | .skip .., _, h | .take .., _, h
  | .orderBy .., _, h => absurd h (not_gives_expression rfl)

theorem gains_optionValue (h₀ : GainsBooleans old new) {n m : Naming} {e'? : Option Expr} :
    {q? : Option Query} → (∀ q, q? = some q → Keeping old new q n) →
    Gives (optionValue old q?) n e'? m →
    ∃ e?, Gives (optionValue new q?) n e? m ∧ e'? = e?.map (Expr.standing old false)
  | none, _, h => by
    obtain ⟨rfl, rfl⟩ := gives_optionValue_none.mp h
    exact ⟨none, gives_optionValue_none.mpr ⟨rfl, rfl⟩, rfl⟩
  | some q, hq, h => by
    simp only [gives_optionValue_some, asValue_of_booleanType h₀.newer] at h ⊢
    obtain ⟨e', he', rfl⟩ := h
    obtain ⟨e, he, rfl⟩ := gains_expression h₀ (hq q rfl) he'
    exact ⟨_, ⟨e, he, rfl⟩, rfl⟩

theorem gains_values (h₀ : GainsBooleans old new) {n m : Naming} {es' : List Expr} :
    {qs : List Query} → KeepingEach old new qs n → Gives (values old qs) n es' m →
    ∃ es, Gives (values new qs) n es m ∧ es' = es.map (Expr.standing old false)
  | [], _, h => by
    obtain ⟨rfl, rfl⟩ := gives_values_nil.mp h
    exact ⟨[], gives_values_nil.mpr ⟨rfl, rfl⟩, rfl⟩
  | q :: rest, hqs, h => by
    simp only [gives_values_cons, asValue_of_booleanType h₀.newer] at h ⊢
    obtain ⟨e', k, es', he', hes', rfl⟩ := h
    obtain ⟨e, he, rfl⟩ := gains_expression h₀ hqs.head he'
    obtain ⟨es, hes, rfl⟩ := gains_values h₀ (hqs.tail he) hes'
    exact ⟨_, ⟨e, k, es, he, hes, rfl⟩, rfl⟩

theorem gains_projection (h₀ : GainsBooleans old new) {n m : Naming} {cs' : List Column} :
    {columns : List (String × Query)} → KeepingEach old new (columns.map Prod.snd) n →
    Gives (projection old columns) n cs' m →
    ∃ cs, Gives (projection new columns) n cs m ∧
      cs' = cs.map fun c => ⟨c.expr.standing old false, c.alias?⟩
  | [], _, h => by
    obtain ⟨rfl, rfl⟩ := gives_projection_nil.mp h
    exact ⟨[], gives_projection_nil.mpr ⟨rfl, rfl⟩, rfl⟩
  | (name, q) :: rest, hqs, h => by
    simp only [gives_projection_cons, asValue_of_booleanType h₀.newer] at h ⊢
    obtain ⟨e', k, cs', he', hcs', rfl⟩ := h
    obtain ⟨e, he, rfl⟩ := gains_expression h₀ hqs.head he'
    obtain ⟨cs, hcs, rfl⟩ := gains_projection h₀ (hqs.tail he) hcs'
    exact ⟨_, ⟨e, k, cs, he, hcs, rfl⟩, rfl⟩

/-- The draft of a sequence for the older server is that for the newer one with coercions. -/
theorem gains_sequence (h₀ : GainsBooleans old new) {n m : Naming} {d' : Draft} : {q : Query} →
    Keeping old new q n → Gives (sequence old q) n d' m →
    ∃ d, Gives (sequence new q) n d m ∧ d' = d.coerced old ∧ d.Kept old
  | .source table alias?, _, h => by
    obtain ⟨rfl, rfl⟩ := gives_source.mp h
    exact ⟨_, gives_source.mpr ⟨rfl, rfl⟩, rfl, ⟨_, rfl⟩, fun _ => rfl, nofun⟩
  | .filter rows predicate, hq, h => by
    obtain ⟨d₀', k, hrows', hmeeting'⟩ := gives_filter.mp h
    obtain ⟨d₀, hrows, rfl, hkept₀⟩ := gains_sequence h₀ (hq.below .filterRows) hrows'
    obtain ⟨d, hmeeting, rfl, hkept⟩ := hkept₀.meeting h₀
      (fun hpush hin' => gains_expression h₀ (hq.below (.filterPredicate hrows hpush)) hin')
      hmeeting'
    exact ⟨d, gives_filter.mpr ⟨d₀, k, hrows, hmeeting⟩, rfl, hkept⟩
  | .project rows columns, hq, h' => by
    obtain ⟨d₀', k, d₁', k₁, cs', hrows', hpush', hcs', rfl⟩ := gives_project.mp h'
    obtain ⟨d₀, hrows, rfl, hkept₀⟩ := gains_sequence h₀ (hq.below .projectRows) hrows'
    obtain ⟨d, hpush, rfl, hkept, -⟩ := hkept₀.pushDownIf Draft.projected (fun _ => rfl)
      (by rintro ⟨⟩ rfl rfl; rfl) hpush'
    obtain ⟨k₃, hin', rfl⟩ := gives_inRow.mp hcs'
    obtain ⟨cs, hin, rfl⟩ := gains_projection h₀
      (fun x k hx => hq.below (.column hrows hpush hx)) hin'
    have hnew : Gives (sequence new (.project rows columns)) n (d.projecting cs)
        { k₃ with scopes := k₁.scopes } :=
      gives_project.mpr ⟨d₀, k, d, k₁, cs, hrows, hpush, gives_inRow.mpr ⟨k₃, hin, rfl⟩, rfl⟩
    have hcoerced : (d.coerced old).projecting
        (cs.map fun c => ⟨c.expr.standing old false, c.alias?⟩) = (d.projecting cs).coerced old :=
      projecting_coerced d cs
    refine ⟨d.projecting cs, hnew, hcoerced, hkept.source, nofun, ?_⟩
    rw [hcoerced] at h'
    exact keepsKeys_of_project (hq rows columns n .start) hnew h'
  | .skip rows count, hq, h => by
    obtain ⟨d₀', k, d₁', e, hrows', hpush', he, rfl⟩ := gives_skip.mp h
    obtain ⟨d₀, hrows, rfl, hkept₀⟩ := gains_sequence h₀ (hq.below .skipRows) hrows'
    obtain ⟨d, hpush, rfl, hkept, -⟩ := hkept₀.pushDownIf Draft.isPaged (fun _ => rfl)
      (by rintro ⟨⟩ rfl rfl; rfl) hpush'
    exact ⟨_, gives_skip.mpr ⟨d₀, k, d, e, hrows, hpush, he, rfl⟩, rfl, hkept.source, hkept.bare,
      hkept.keys⟩
  | .take rows count, hq, h => by
    obtain ⟨d₀', k, d₁', e, hrows', hpush', he, rfl⟩ := gives_take.mp h
    obtain ⟨d₀, hrows, rfl, hkept₀⟩ := gains_sequence h₀ (hq.below .takeRows) hrows'
    obtain ⟨d, hpush, rfl, hkept, -⟩ := hkept₀.pushDownIf (fun d => d.paging.take?.isSome)
      (fun _ => rfl) (by rintro ⟨⟩ rfl rfl; rfl) hpush'
    exact ⟨_, gives_take.mpr ⟨d₀, k, d, e, hrows, hpush, he, rfl⟩, rfl, hkept.source, hkept.bare,
      hkept.keys⟩
  | .orderBy rows key direction, hq, h => by
    simp only [gives_orderBy, asValue_of_booleanType h₀.newer] at h ⊢
    obtain ⟨d₀', k, d₁', k₁, e', hrows', hpush', he', rfl⟩ := h
    obtain ⟨d₀, hrows, rfl, hkept₀⟩ := gains_sequence h₀ (hq.below .orderedRows) hrows'
    obtain ⟨d, hpush, rfl, hkept, hbare⟩ := hkept₀.pushDownBare hpush'
    obtain ⟨k₃, hin', rfl⟩ := gives_inRow.mp he'
    obtain ⟨e, hin, rfl⟩ := gains_expression h₀ (hq.below (.sortKey hrows hpush)) hin'
    exact ⟨d.ordered ⟨e, direction⟩,
      ⟨d₀, k, d, k₁, e, hrows, hpush, gives_inRow.mpr ⟨k₃, hin, rfl⟩, rfl⟩,
      ordered_coerced d e direction, hkept.of_bare hbare rfl rfl⟩
  | .any .., _, h | .member .., _, h | .call .., _, h | .constant _, _, h | .parameter _, _, h
  | .binary .., _, h | .unary .., _, h => absurd h (not_gives_sequence rfl)

theorem gains_meeting (h₀ : GainsBooleans old new) {n m : Naming} {d d' : Draft} :
    {predicate? : Option Query} →
    (∀ predicate, predicate? = some predicate → ∀ d₁ k,
      Gives (pushDownIf (d.isPaged || d.projected) d) n d₁ k →
      Keeping old new predicate { k with scopes := d₁.row :: k.scopes }) → d.Kept old →
    Gives (meeting old (d.coerced old) predicate?) n d' m →
    ∃ d₁, Gives (meeting new d predicate?) n d₁ m ∧ d' = d₁.coerced old ∧ d₁.Kept old
  | none, _, hkept, h => by
    obtain ⟨rfl, rfl⟩ := gives_meeting_none.mp h
    exact ⟨d, gives_meeting_none.mpr ⟨rfl, rfl⟩, rfl, hkept⟩
  | some predicate, hq, hkept, h =>
    hkept.meeting h₀
      (fun hpush hin' => gains_expression h₀ (hq predicate rfl _ _ hpush) hin') h

end

end QueryLoom.Sql

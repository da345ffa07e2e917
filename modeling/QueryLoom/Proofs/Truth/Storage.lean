/-
  QueryLoom/Proofs/Truth/Storage.lean
  ===================================
  **A server without Booleans selects the stored rows.**  Two servers hold the same tables, one
  of them with truth values stored as one and zero.  On every row the coerced conditions have
  the truth values of the others, and the coerced values are the stored ones.

  There is one thing that a coercion cannot keep: `CASE WHEN c THEN 1 ELSE 0 END` is zero where
  the condition is unknown, and the stored value would be NULL.  So the conditions that stand as
  values have to be known, which is what `Expr.Decided` and `Select.Decided` say.

    * `Dialect.Twins` — the two servers;
    * `Select.Typed.rows_fit` — what a typed statement selects is of the kinds of its columns;
    * `inherited_stored` — coerced expressions have the stored values, and coerced statements the
      stored rows;
    * `mirrors_of_ofQuery` — so do the statements that a query becomes, clause by clause.
-/
import QueryLoom.Proofs.Truth.Datum
import QueryLoom.Proofs.Truth.Lowering

namespace QueryLoom.Sql

variable {U : Type}

/-! ### Two servers -/

/-- A row as a server without Booleans stores it. -/
def Row.stored (D : Dialect U) (r : Row (Datum U)) : Row (Datum U) :=
  r.map fun cell => (cell.1, D.stored cell.2)

/-- Columns as a server without Booleans stores them. -/
def Columns.stored (D : Dialect U) (ρ : Columns (Datum U)) : Columns (Datum U) :=
  fun source name => D.stored (ρ source name)

/-- A server with Booleans and one without that hold the same tables and deliver their rows in
    the same order. -/
structure Dialect.Twins (D : Dialect U) (old : Capabilities) (S S' : Server (Datum U)) : Prop where
  newer : S.toEngine = D.newer
  older : S'.toEngine = D.older
  truth (b : Bool) : S.truth b = .truth b
  truth' (b : Bool) : S'.truth b = .truth b
  tables (name : String) : S'.tables name = (S.tables name).map (Row.stored D)
  arrive (o : Origin) (ρ : Columns (Datum U)) (rows : List (Row (Datum U))) :
    S'.arrive (o.coerced old) (ρ.stored D) (rows.map (Row.stored D))
      = (S.arrive o ρ rows).map (Row.stored D)

/-- The values of the columns are of their kinds. -/
def Columns.Fits (ρ : Columns (Datum U)) (τ : Columns Kind) : Prop :=
  ∀ source name, (ρ source name).Fits (τ source name)

/-- The values of a row are of the kinds of its columns. -/
def Row.Fits (r : Row (Datum U)) (I : Interpretation (Datum U)) (kinds : String → Kind) : Prop :=
  ∀ name, (r.value I name).Fits (kinds name)

/-! ### Decided conditions -/

/-- The truth value of a condition that stands as a value is known. -/
def Expr.Known (S : Server (Datum U)) (ρ : Columns (Datum U)) (e : Expr) : Prop :=
  e.isPredicate = true → e.eval S ρ ≠ .null

theorem Expr.known_of_value {S : Server (Datum U)} {ρ : Columns (Datum U)} {e : Expr}
    (h : e.isPredicate = false) : e.Known S ρ := by
  rw [Known, h]
  rintro ⟨⟩

mutual

/-- Wherever a condition stands as a value in the expression, its truth value is known. -/
inductive Expr.Decided (S : Server (Datum U)) : Columns (Datum U) → Expr → Prop
  | intro {ρ : Columns (Datum U)} {e : Expr} (operands : ∀ o ∈ e.operands, Expr.Decided S ρ o)
      (known : ∀ op, e.operator? = some op → op.joinsConditions = false →
        ∀ o ∈ e.operands, o.Known S ρ)
      (test : ∀ rows, e = .existsRow rows → Select.Decided S ρ rows) :
    Expr.Decided S ρ e

/-- Wherever a condition stands as a value in the statement, its truth value is known: in the
    conditions for every row that arrives, and in the columns and keys for every row that is
    kept. -/
inductive Select.Decided (S : Server (Datum U)) : Columns (Datum U) → Select → Prop
  | intro {ρ : Columns (Datum U)} {s : Select}
      (origin : ∀ rows source, s.origin = .derived rows source → Select.Decided S ρ rows)
      (conditions : ∀ r ∈ s.origin.rows S ρ, ∀ e ∈ s.conditions,
        Expr.Decided S (S.inside ρ s.origin.alias? r) e)
      (columns : ∀ r ∈ s.origin.rows S ρ, S.meets ρ s.origin.alias? s.conditions r = true →
        ∀ c ∈ s.columns, Expr.Decided S (S.inside ρ s.origin.alias? r) c.expr)
      (columns_known : ∀ r ∈ s.origin.rows S ρ,
        S.meets ρ s.origin.alias? s.conditions r = true →
        ∀ c ∈ s.columns, c.expr.Known S (S.inside ρ s.origin.alias? r))
      (ordering : ∀ r ∈ s.origin.rows S ρ, S.meets ρ s.origin.alias? s.conditions r = true →
        ∀ k ∈ s.ordering, Expr.Decided S (S.inside ρ s.origin.alias? r) k.expr)
      (ordering_known : ∀ r ∈ s.origin.rows S ρ,
        S.meets ρ s.origin.alias? s.conditions r = true →
        ∀ k ∈ s.ordering, k.expr.Known S (S.inside ρ s.origin.alias? r)) :
    Select.Decided S ρ s

end

theorem Expr.decided_leaf {S : Server (Datum U)} {ρ : Columns (Datum U)} {e : Expr}
    (hop : e.operator? = none) (hvalue : e.isPredicate = false) : e.Decided S ρ := by
  refine .intro (operands_of_operator?_eq_none hop ▸ List.forall_mem_nil _) (by simp [hop]) ?_
  rintro rows rfl
  cases hvalue

/-- A comparison of values is decided if they are. -/
theorem Expr.decided_comparison {S : Server (Datum U)} {ρ : Columns (Datum U)} {l r : Expr}
    {op : BinaryOperator} (hl : l.Decided S ρ) (hr : r.Decided S ρ)
    (hlvalue : l.isPredicate = false) (hrvalue : r.isPredicate = false) :
    (Expr.binary l op r).Decided S ρ := by
  refine .intro (List.forall_mem_cons.mpr ⟨hl, List.forall_mem_singleton.mpr hr⟩) ?_ nofun
  rintro _ ⟨⟩ -
  exact List.forall_mem_cons.mpr
    ⟨known_of_value hlvalue, List.forall_mem_singleton.mpr (known_of_value hrvalue)⟩

namespace Select.Decided

variable {S : Server (Datum U)} {ρ : Columns (Datum U)} {s : Select} (h : s.Decided S ρ)

include h

theorem origin : ∀ rows source, s.origin = .derived rows source → rows.Decided S ρ := by
  cases h with
  | intro origin => exact origin

theorem conditions : ∀ r ∈ s.origin.rows S ρ, ∀ e ∈ s.conditions,
    e.Decided S (S.inside ρ s.origin.alias? r) := by
  cases h with
  | intro _ conditions => exact conditions

theorem columns : ∀ r ∈ s.origin.rows S ρ, S.meets ρ s.origin.alias? s.conditions r = true →
    ∀ c ∈ s.columns, c.expr.Decided S (S.inside ρ s.origin.alias? r) ∧
      c.expr.Known S (S.inside ρ s.origin.alias? r) := by
  cases h with
  | intro _ _ columns known =>
    exact fun r hr hmeets c hc => ⟨columns r hr hmeets c hc, known r hr hmeets c hc⟩

theorem ordering : ∀ r ∈ s.origin.rows S ρ, S.meets ρ s.origin.alias? s.conditions r = true →
    ∀ k ∈ s.ordering, k.expr.Decided S (S.inside ρ s.origin.alias? r) ∧
      k.expr.Known S (S.inside ρ s.origin.alias? r) := by
  cases h with
  | intro _ _ _ _ ordering known =>
    exact fun r hr hmeets k hk => ⟨ordering r hr hmeets k hk, known r hr hmeets k hk⟩

end Select.Decided

/-! ### Stored statements -/

/-- Clause by clause, for corresponding rows, the conditions of the coerced statement have the
    same truth values and its columns and keys the stored values. -/
structure Select.ClausesStored (D : Dialect U) (old : Capabilities) (S S' : Server (Datum U))
    (ρ : Columns (Datum U)) (s : Select) : Prop where
  rows : (s.origin.coerced old).rows S' (ρ.stored D) = (s.origin.rows S ρ).map (Row.stored D)
  conditions : ∀ r ∈ s.origin.rows S ρ, ∀ e ∈ s.conditions,
    (e.standing old true).eval S' (S'.inside (ρ.stored D) s.origin.alias? (r.stored D))
      = e.eval S (S.inside ρ s.origin.alias? r)
  columns : ∀ r ∈ s.origin.rows S ρ, S.meets ρ s.origin.alias? s.conditions r = true →
    ∀ c ∈ s.columns,
      (c.expr.standing old false).eval S' (S'.inside (ρ.stored D) s.origin.alias? (r.stored D))
        = D.stored (c.expr.eval S (S.inside ρ s.origin.alias? r))
  ordering : ∀ r ∈ s.origin.rows S ρ, S.meets ρ s.origin.alias? s.conditions r = true →
    ∀ k ∈ s.ordering,
      (k.expr.standing old false).eval S' (S'.inside (ρ.stored D) s.origin.alias? (r.stored D))
        = D.stored (k.expr.eval S (S.inside ρ s.origin.alias? r))

/-- The second statement selects the stored rows for the same reasons: on corresponding rows its
    conditions have the same truth values, and its columns and keys the stored values, in the
    statement itself as in those that it derives from. -/
inductive Select.Mirrors (D : Dialect U) (S S' : Server (Datum U)) :
    Columns (Datum U) → Select → Select → Prop
  | intro {ρ : Columns (Datum U)} {s s' : Select}
      (rows : s'.origin.rows S' (ρ.stored D) = (s.origin.rows S ρ).map (Row.stored D))
      (conditions : ∀ r ∈ s.origin.rows S ρ,
        List.Forall₂ (fun e e' => e'.eval S' (S'.inside (ρ.stored D) s'.origin.alias? (r.stored D))
          = e.eval S (S.inside ρ s.origin.alias? r)) s.conditions s'.conditions)
      (columns : ∀ r ∈ s.origin.rows S ρ, S.meets ρ s.origin.alias? s.conditions r = true →
        List.Forall₂ (fun c c' => c'.alias? = c.alias? ∧
          c'.expr.eval S' (S'.inside (ρ.stored D) s'.origin.alias? (r.stored D))
            = D.stored (c.expr.eval S (S.inside ρ s.origin.alias? r))) s.columns s'.columns)
      (ordering : ∀ r ∈ s.origin.rows S ρ, S.meets ρ s.origin.alias? s.conditions r = true →
        List.Forall₂ (fun k k' => k'.direction = k.direction ∧
          k'.expr.eval S' (S'.inside (ρ.stored D) s'.origin.alias? (r.stored D))
            = D.stored (k.expr.eval S (S.inside ρ s.origin.alias? r))) s.ordering s'.ordering)
      (window : s'.window? = s.window?)
      (derived : ∀ inner source, s.origin = .derived inner source →
        ∃ inner', s'.origin = .derived inner' source)
      (origin : ∀ inner inner' source, s.origin = .derived inner source →
        s'.origin = .derived inner' source → Select.Mirrors D S S' ρ inner inner') :
    Select.Mirrors D S S' ρ s s'

/-! ### Kinds of rows -/

theorem Columns.Fits.within {ρ : Columns (Datum U)} {τ : Columns Kind} (hρ : ρ.Fits τ)
    {row : String → Datum U} {kinds : String → Kind} (hrow : ∀ name, (row name).Fits (kinds name))
    (source? : Option String) : (ρ.within source? row).Fits (τ.within source? kinds) := by
  intro source name
  unfold Columns.within
  split
  · exact hrow name
  · exact hρ source name

/-- The columns in scope of a typed statement are of their kinds. -/
theorem Columns.Fits.inside {S : Server (Datum U)} {schema : Schema} {τ : Columns Kind} {ρ : Columns (Datum U)}
    (hρ : ρ.Fits τ) {s : Select} {r : Row (Datum U)} (hr : r.Fits S.toInterpretation (s.origin.kinds schema τ)) :
    (S.inside ρ s.origin.alias? r).Fits (s.scope schema τ) :=
  hρ.within hr _

theorem fits_lookup {α : Type} {as : List α} {key : α → String} {f : α → Datum U} {g : α → Kind}
    (h : ∀ a ∈ as, (f a).Fits (g a)) (name : String) :
    (((as.map fun a => (key a, f a)).lookup name).getD .null).Fits
      (((as.map fun a => (key a, g a)).lookup name).getD .other) := by
  induction as with
  | nil => trivial
  | cons a as ih =>
    rw [List.forall_mem_cons] at h
    rw [List.map_cons, List.map_cons, List.lookup_cons, List.lookup_cons]
    cases name == key a with
    | true => exact h.1
    | false => exact ih h.2

/-- The cells of a row are its values. -/
theorem Row.fits_of_cells {I : Interpretation (Datum U)} (hnull : I.undefined = .null)
    {kinds : String → Kind} {r : Row (Datum U)} (hr : ∀ cell ∈ r, cell.2.Fits (kinds cell.1)) :
    r.Fits I kinds := by
  intro name
  rw [Row.value, hnull]
  induction r with
  | nil => exact Datum.fits_null _
  | cons cell rest ih =>
    rw [List.forall_mem_cons] at hr
    rcases cell with ⟨other, v⟩
    rw [List.lookup_cons]
    cases hname : name == other with
    | true => exact eq_of_beq hname ▸ hr.1
    | false => exact ih hr.2

section Twins

variable {D : Dialect U} {old : Capabilities} {S S' : Server (Datum U)} (h : D.Twins old S S')
  {schema : Schema}

include h

theorem Dialect.Twins.undefined : S.undefined = .null := by
  rw [h.newer]
  rfl

/-- The value of a typed expression is of its kind. -/
theorem Expr.Typed.eval_fits {τ : Columns Kind} {ρ : Columns (Datum U)} {e : Expr}
    (he : e.Typed schema τ) (hρ : ρ.Fits τ) : (e.eval S ρ).Fits (e.kind τ) := by
  cases hop : e.operator? with
  | some op =>
    rw [eval_of_operator S ρ hop, kind_of_operator hop, ← Dialect.isCondition_eq hop, h.newer]
    exact D.fits_operator (he.ne_case hop) _
  | none =>
    cases e <;> cases hop
    case column.refl source name => exact hρ source name
    case allColumns.refl =>
      rw [Expr.eval, h.undefined]
      exact Datum.fits_null _
    case literal.refl v =>
      rw [Expr.eval, h.newer]
      exact D.fits_literal v
    case parameter.refl p =>
      rw [Expr.eval, h.newer]
      exact D.parameter_fits p
    case existsRow.refl rows =>
      rw [Expr.eval, h.truth]
      trivial

variable (htables : ∀ name, ∀ r ∈ S.tables name, r.Fits S.toInterpretation (schema name))

include htables

/-- The rows of an origin are of the kinds of its columns, if those of a derived table are. -/
theorem Origin.rows_fit {τ : Columns Kind} {ρ : Columns (Datum U)} {o : Origin}
    (hderived : ∀ rows source, o = .derived rows source → ∀ r ∈ rows.run S ρ,
      r.Fits S.toInterpretation (rows.kinds schema τ)) :
    ∀ r ∈ o.rows S ρ, r.Fits S.toInterpretation (o.kinds schema τ) := by
  intro r hr
  cases o with
  | table name source =>
    rw [Origin.rows] at hr
    exact htables name r ((S.arrive_perm _ _ _).subset hr)
  | derived rows source =>
    rw [Origin.rows] at hr
    exact hderived rows source rfl r ((S.arrive_perm _ _ _).subset hr)
  | singleRow =>
    rw [Origin.rows, List.mem_singleton] at hr
    rw [hr]
    exact Row.fits_of_cells h.undefined (List.forall_mem_nil _)

/-- What a typed statement selects is of the kinds of its columns. -/
theorem Select.Typed.rows_fit {τ : Columns Kind} {ρ : Columns (Datum U)} {s : Select}
    (hs : s.Typed schema τ) (hρ : ρ.Fits τ) :
    ∀ r ∈ s.run S ρ, r.Fits S.toInterpretation (s.kinds schema τ) := by
  have hall : Inherited (fun _ => True) (fun s => s.Typed schema τ → ∀ r ∈ s.run S ρ,
      r.Fits S.toInterpretation (s.kinds schema τ)) := by
    refine ⟨fun _ _ _ => trivial, ?_⟩
    intro s _ _ _ origin hs r hr
    have horigin := Origin.rows_fit h htables (o := s.origin) (τ := τ) (ρ := ρ)
      fun rows source ho => origin rows source ho (hs.origin rows source ho)
    obtain ⟨x, hx, _, rfl⟩ := exists_of_mem_run hr
    have hinside := hρ.inside (horigin x hx)
    rw [Select.kinds_eq]
    rcases hs.shown with hall | hnone
    · obtain ⟨source, hcolumns, halias⟩ := selectsAllColumns_eq_true hall
      rw [hcolumns, halias, output_allColumns]
      exact horigin x hx
    · have hareAll : areAll s.columns = false := by
        cases hcolumns : areAll s.columns with
        | false => rfl
        | true =>
          unfold areAll at hcolumns
          split at hcolumns
          · rename_i source heq
            exact absurd (heq ▸ List.mem_cons_self) (hnone source)
          · cases hcolumns
      intro name
      rw [output_eq_map S ρ _ hnone, columnKinds, hareAll, Row.value, h.undefined]
      exact fits_lookup (fun c hc => (hs.columns c hc).eval_fits h hinside) name
  exact hall.of_select s hs

omit htables

/-! ### Stored values -/

theorem Expr.eval_of_isNullLiteral {ρ : Columns (Datum U)} {e : Expr}
    (he : e.isNullLiteral = true) : e.eval S ρ = .null := by
  cases e with
  | literal v =>
    cases v <;> first
      | cases he; done
      | (rw [Expr.eval, h.newer]; rfl)
  | _ => cases he

theorem Dialect.Twins.older_undefined : S'.undefined = .null := by
  rw [h.older]
  rfl

theorem Row.value_stored (r : Row (Datum U)) (name : String) :
    (r.stored D).value S'.toInterpretation name = D.stored (r.value S.toInterpretation name) := by
  rw [Row.value, Row.value, h.undefined, h.older_undefined]
  induction r with
  | nil => rfl
  | cons cell rest ih =>
    rcases cell with ⟨other, v⟩
    rw [Row.stored, List.map_cons, List.lookup_cons, List.lookup_cons]
    cases name == other with
    | true => rfl
    | false => exact ih

/-- For a stored row the columns in scope are the stored ones. -/
theorem Server.inside_stored (ρ : Columns (Datum U)) (source? : Option String)
    (r : Row (Datum U)) :
    S'.inside (ρ.stored D) source? (r.stored D) = (S.inside ρ source? r).stored D := by
  funext source name
  simp only [Server.inside, Columns.within, Columns.stored]
  split
  · exact Row.value_stored h r name
  · rfl

/-- The coerced expression has the same truth value, or the stored one of any other value. -/
def Expr.StoredAlike (D : Dialect U) (old : Capabilities) (S S' : Server (Datum U))
    (ρ : Columns (Datum U)) (e : Expr) : Prop :=
  (e.coerced old).eval S' (ρ.stored D)
    = if e.isPredicate then e.eval S ρ else D.stored (e.eval S ρ)

variable (hold : old.booleanType = false) {τ : Columns Kind} {ρ : Columns (Datum U)}

include hold

/-- As a value an expression has the stored value, unless it is a condition that is unknown. -/
theorem Expr.StoredAlike.value_iff {e : Expr} (halike : e.StoredAlike D old S S' ρ)
    (he : e.Typed schema τ) (hρ : ρ.Fits τ) :
    (e.standing old false).eval S' (ρ.stored D) = D.stored (e.eval S ρ) ↔ e.Known S ρ := by
  rw [StoredAlike] at halike
  rw [Known]
  cases hp : e.isPredicate with
  | false =>
    rw [standing_value hp, halike, hp]
    simp
  | true =>
    rw [hp, if_pos rfl] at halike
    have hfits := Expr.kind_of_isPredicate (τ := τ) hp ▸ he.eval_fits h hρ
    rw [standing_value_of_predicate hold hp]
    simp only [Expr.eval, evalWhens, evalOption, Expr.int, halike, h.older]
    cases hv : e.eval S ρ with
    | null =>
      -- The condition does not hold, so the value is that of ELSE.
      refine iff_of_false ?_ (by simp)
      rintro ⟨⟩
    | truth b =>
      refine iff_of_true ?_ (by simp)
      cases b <;> rfl
    | other u =>
      rw [hv] at hfits
      exact False.elim hfits

/-- As a condition an expression has the same truth value. -/
theorem Expr.StoredAlike.condition {e : Expr} (halike : e.StoredAlike D old S S' ρ)
    (he : e.Typed schema τ) (hρ : ρ.Fits τ) (hpass : e.passes τ .truth = true) :
    (e.standing old true).eval S' (ρ.stored D) = e.eval S ρ := by
  rw [StoredAlike] at halike
  cases hp : e.isPredicate with
  | true =>
    rw [standing_condition hp, halike, hp]
    rfl
  | false =>
    rw [hp, if_neg Bool.false_ne_true] at halike
    have hfits : (e.eval S ρ).Fits .truth := by
      have hkind := he.eval_fits h hρ
      rw [Expr.passes, Bool.or_eq_true, beq_iff_eq] at hpass
      rcases hpass with hnull | htruth
      · rw [Expr.eval_of_isNullLiteral h hnull]
        trivial
      · rw [← htruth]
        exact hkind
    rw [standing_condition_of_value hold hp]
    simp only [Expr.eval, Expr.int, halike, h.older]
    cases hv : e.eval S ρ with
    | null => rfl
    | truth b =>
      have hone : D.compares .equal (D.stored (.truth b)) (D.stored (.truth true))
          = D.compares .equal (.truth b) (.truth true) :=
        D.compares_stored rfl (k := .truth) trivial trivial
      refine (congrArg Datum.ofTruth? hone).trans ?_
      cases b <;> rfl
    | other u =>
      rw [hv] at hfits
      exact False.elim hfits

/-! ### Statements -/

omit hold

theorem origin_stored {o : Origin} (hderived : ∀ rows source, o = .derived rows source →
      (rows.coerced old).run S' (ρ.stored D) = (rows.run S ρ).map (Row.stored D)) :
    (o.coerced old).rows S' (ρ.stored D) = (o.rows S ρ).map (Row.stored D) := by
  cases o with
  | table name source =>
    rw [Origin.coerced, Origin.rows, Origin.rows, ← h.arrive, h.tables]
    rfl
  | derived rows source =>
    rw [Origin.coerced, Origin.rows, Origin.rows, ← h.arrive, hderived rows source rfl]
    rfl
  | singleRow => rfl

theorem rowNumber_stored (e : Expr) : S'.toEngine.rowNumber e = S.toEngine.rowNumber e := by
  rw [h.newer, h.older]
  have hall : Inherited (fun e => D.older.rowNumber e = D.newer.rowNumber e) (fun _ => True) := by
    refine ⟨?_, fun _ _ _ _ _ => trivial⟩
    intro e operands _
    cases e with
    | binary l op r =>
      cases op <;> first
        | rfl
        | rw [Engine.rowNumber, Engine.rowNumber, operands l (by simp [Expr.operands]),
            operands r (by simp [Expr.operands])]
    | _ => rfl
  exact hall.of_expr e

theorem keepOption_stored (w? : Option Window) (rows : List (Row (Datum U))) :
    keepOption S'.toEngine w? (rows.map (Row.stored D))
      = (keepOption S.toEngine w? rows).map (Row.stored D) := by
  rcases w? with _ | ⟨lower, _ | upper⟩
  · rfl
  · simp only [keepOption, Option.elim, Window.keep, rowNumber_stored h, List.map_take]
  · simp only [keepOption, Option.elim, Window.keep, rowNumber_stored h, List.map_take,
      List.map_drop]

omit h in
theorem shows_stored (source? : Option String) (r : Row (Datum U)) (v : Datum U) (e : Expr)
    (alias? : Option String) :
    Column.shows source? (r.stored D) (D.stored v) ⟨e.standing old false, alias?⟩
      = Row.stored D (Column.shows source? r v ⟨e, alias?⟩) := by
  have hcell : ∀ {e : Expr}, (∀ source, e ≠ .allColumns source) → ∀ (r : Row (Datum U)) (v : Datum U),
      Column.shows source? r v ⟨e, alias?⟩ = [(alias?.getD "", v)] := by
    intro e he r v
    cases e <;> first
      | (cases alias? <;> rfl)
      | exact absurd rfl (he _)
  by_cases hall : ∃ source, e = .allColumns source
  · obtain ⟨source, rfl⟩ := hall
    rw [standing_eq_allColumns.mpr rfl]
    cases alias? with
    | none =>
      simp only [Column.shows]
      split <;> rfl
    | some name => rfl
  · rw [hcell fun source he => hall ⟨source, standing_eq_allColumns.mp he⟩,
      hcell fun source he => hall ⟨source, he⟩]
    rfl

omit h in
theorem Select.ClausesStored.mirrors {s : Select} (hs : s.ClausesStored D old S S' ρ)
    (hderived : ∀ rows source, s.origin = .derived rows source →
      Select.Mirrors D S S' ρ rows (rows.coerced old)) :
    Select.Mirrors D S S' ρ s (s.coerced old) := by
  rw [coerced_mk]
  refine .intro hs.rows ?_ ?_ ?_ rfl ?_ ?_
  · intro r hr
    rw [List.forall₂_map_right_iff, List.forall₂_same, alias?_coerced]
    exact hs.conditions r hr
  · intro r hr hmeets
    rw [List.forall₂_map_right_iff, List.forall₂_same, alias?_coerced]
    exact fun c hc => ⟨rfl, hs.columns r hr hmeets c hc⟩
  · intro r hr hmeets
    rw [List.forall₂_map_right_iff, List.forall₂_same, alias?_coerced]
    exact fun k hk => ⟨rfl, hs.ordering r hr hmeets k hk⟩
  · intro inner source ho
    exact ⟨inner.coerced old, by rw [ho]; rfl⟩
  · intro inner inner' source ho ho'
    rw [ho, Origin.coerced, Origin.derived.injEq] at ho'
    rw [← ho'.1]
    exact hderived inner source ho

namespace Select.ClausesStored

variable {s : Select} (hs : s.ClausesStored D old S S' ρ)

include hs

/-- The same rows meet the conditions. -/
theorem meets_eq {r : Row (Datum U)} (hr : r ∈ s.origin.rows S ρ) :
    S'.meets (ρ.stored D) s.origin.alias? (s.conditions.map (Expr.standing old true)) (r.stored D)
      = S.meets ρ s.origin.alias? s.conditions r := by
  have hholds : S'.holds = S.holds := by
    rw [h.newer, h.older]
    rfl
  rw [Server.meets, Server.meets, List.all_map, hholds, Bool.eq_iff_iff, List.all_eq_true,
    List.all_eq_true]
  refine forall₂_congr fun e he => ?_
  rw [Function.comp, hs.conditions r hr e he]

/-- The rows that are kept have the stored keys, which order them in the same way. -/
theorem ordered_eq {kind : OrderKey → Kind} (hkeys : ∀ r ∈ s.origin.rows S ρ, ∀ k ∈ s.ordering,
      (k.expr.eval S (S.inside ρ s.origin.alias? r)).Fits (kind k)) {r r' : Row (Datum U)}
    (hr : r ∈ (s.origin.rows S ρ).filter (S.meets ρ s.origin.alias? s.conditions))
    (hr' : r' ∈ (s.origin.rows S ρ).filter (S.meets ρ s.origin.alias? s.conditions)) :
    S'.ordered (ρ.stored D) s.origin.alias?
        (s.ordering.map fun k => ⟨k.expr.standing old false, k.direction⟩) (r.stored D)
        (r'.stored D)
      = S.ordered ρ s.origin.alias? s.ordering r r' := by
  have hstored : ∀ x ∈ (s.origin.rows S ρ).filter (S.meets ρ s.origin.alias? s.conditions),
      S'.keys (ρ.stored D) s.origin.alias?
        (s.ordering.map fun k => ⟨k.expr.standing old false, k.direction⟩) (x.stored D)
        = s.ordering.map fun k => D.stored (k.expr.eval S (S.inside ρ s.origin.alias? x)) := by
    intro x hx
    rw [List.mem_filter] at hx
    rw [Server.keys, List.map_map]
    exact List.map_congr_left (hs.ordering x hx.1 hx.2)
  rw [Server.ordered, Server.ordered, hstored r hr, hstored r' hr', List.map_map, h.newer,
    h.older, Server.keys, Server.keys]
  exact D.inOrder_stored kind _ (hkeys r (List.mem_of_mem_filter hr))
    (hkeys r' (List.mem_of_mem_filter hr'))

omit h in
/-- A row that is kept becomes the stored row. -/
theorem output_stored {r : Row (Datum U)} (hr : r ∈ s.origin.rows S ρ)
    (hmeets : S.meets ρ s.origin.alias? s.conditions r = true) :
    S'.output (ρ.stored D) s.origin.alias?
        (s.columns.map fun c => ⟨c.expr.standing old false, c.alias?⟩) (r.stored D)
      = (S.output ρ s.origin.alias? s.columns r).stored D := by
  rw [Server.output, Server.output, List.flatMap_map]
  refine .trans (List.flatMap_congr fun c hc => ?_) List.map_flatMap.symm
  rw [hs.columns r hr hmeets c hc]
  rcases c with ⟨e, alias?⟩
  exact shows_stored _ _ _ _ _

/-- A statement whose clauses are stored selects the stored rows. -/
theorem run_stored {kind : OrderKey → Kind} (hkeys : ∀ r ∈ s.origin.rows S ρ, ∀ k ∈ s.ordering,
      (k.expr.eval S (S.inside ρ s.origin.alias? r)).Fits (kind k)) :
    (s.coerced old).run S' (ρ.stored D) = (s.run S ρ).map (Row.stored D) := by
  have hfilter : ((s.origin.rows S ρ).map (Row.stored D)).filter
      (S'.meets (ρ.stored D) s.origin.alias? (s.conditions.map (Expr.standing old true)))
      = ((s.origin.rows S ρ).filter (S.meets ρ s.origin.alias? s.conditions)).map
        (Row.stored D) := by
    rw [List.filter_map]
    exact congrArg _ (List.filter_congr fun r hr => hs.meets_eq h hr)
  rw [coerced_mk, run_eq, run_eq]
  simp only [alias?_coerced, hs.rows, hfilter]
  rw [← List.map_mergeSort fun r hr r' hr' => (hs.ordered_eq h hkeys hr hr').symm,
    keepOption_stored h, List.map_map, List.map_map]
  refine List.map_congr_left fun r hr => ?_
  have hkept := (List.mergeSort_perm _ _).subset (keepOption_subset _ _ _ hr)
  rw [List.mem_filter] at hkept
  exact hs.output_stored hkept.1 hkept.2

end Select.ClausesStored

variable (htables : ∀ name, ∀ r ∈ S.tables name, r.Fits S.toInterpretation (schema name))

include hold htables

/-- Coerced expressions have the stored values, and coerced statements the stored rows. -/
theorem inherited_stored : Inherited
    (fun e => ∀ τ ρ, e.Typed schema τ → ρ.Fits τ → e.Decided S ρ → e.StoredAlike D old S S' ρ)
    (fun s => ∀ τ ρ, s.Typed schema τ → ρ.Fits τ → s.Decided S ρ → Select.Mirrors D S S' ρ s (s.coerced old) ∧
      (s.coerced old).run S' (ρ.stored D) = (s.run S ρ).map (Row.stored D)) where
  expression e operands test τ ρ he hρ hdecided := by
    obtain ⟨hoperands, hknown, htest⟩ := hdecided
    rw [Expr.StoredAlike]
    cases hop : e.operator? with
    | none =>
      cases e <;> cases hop
      case column.refl source name => rfl
      case allColumns.refl source =>
        rw [Expr.coerced, Expr.eval, Expr.eval, h.undefined, h.older_undefined]
        rfl
      case literal.refl v =>
        rw [Expr.coerced, Expr.eval, Expr.eval, h.newer, h.older]
        rfl
      case parameter.refl p =>
        rw [Expr.coerced, Expr.eval, Expr.eval, h.newer, h.older]
        rfl
      case existsRow.refl rows =>
        rw [Expr.coerced, Expr.eval, Expr.eval, h.truth, h.truth',
          (test rows rfl τ ρ he.ofTest hρ (htest rows rfl)).2, List.isEmpty_map]
        rfl
    | some op =>
      have hcase := he.ne_case hop
      have htakes := he.takes hop
      have hsame : (e.coerced old).eval S' (ρ.stored D) = e.eval S ρ := by
        rw [eval_of_operator S' _ ((operator?_coerced old e).trans hop), eval_of_operator S ρ hop,
          operands_coerced old hop hcase, List.map_map, h.newer, h.older]
        cases hjoins : op.joinsConditions with
        | true =>
          refine congrArg (D.operator op) (List.map_congr_left fun o ho => ?_)
          exact (operands o ho τ ρ (he.operands o ho) hρ (hoperands o ho)).condition h hold
            (he.operands o ho) hρ (takes_passes htakes hjoins o ho)
        | false =>
          have hvalues : e.operands.map (Expr.eval S' (ρ.stored D) ∘ Expr.standing old false)
              = e.operands.map fun o => D.stored (o.eval S ρ) :=
            List.map_congr_left fun o ho =>
              ((operands o ho τ ρ (he.operands o ho) hρ (hoperands o ho)).value_iff h hold
                (he.operands o ho) hρ).mpr (hknown op hop hjoins o ho)
          refine (congrArg (D.operator op) hvalues).trans ?_
          exact D.operator_stored htakes hjoins
            (fun o ho => (he.operands o ho).eval_fits h hρ)
            fun o _ hnull => Expr.eval_of_isNullLiteral h hnull
      rw [hsame]
      cases hp : e.isPredicate with
      | true => rfl
      | false =>
        have hfits := he.eval_fits h hρ
        rw [Expr.kind_of_operator hop, hp] at hfits
        exact (D.stored_of_fits_other hfits).symm
  statement s columns conditions ordering origin τ ρ hs hρ hdecided := by
    have hrows := origin_stored h (o := s.origin) (ρ := ρ) fun rows source ho =>
      (origin rows source ho τ ρ (hs.origin rows source ho) hρ (hdecided.origin rows source ho)).2
    have hfit := Origin.rows_fit h htables (o := s.origin) (τ := τ) (ρ := ρ)
      fun rows source ho => (hs.origin rows source ho).rows_fit h htables hρ
    have hclauses : s.ClausesStored D old S S' ρ := by
      refine ⟨hrows, fun r hr e he => ?_, fun r hr hmeets c hc => ?_, fun r hr hmeets k hk => ?_⟩
      · have hinside := hρ.inside (hfit r hr)
        rw [Server.inside_stored h]
        exact (conditions e he _ _ (hs.conditions e he) hinside
          (hdecided.conditions r hr e he)).condition h hold (hs.conditions e he) hinside
          (hs.conditions_pass e he)
      · have hinside := hρ.inside (hfit r hr)
        obtain ⟨hcolumn, hknown⟩ := hdecided.columns r hr hmeets c hc
        rw [Server.inside_stored h]
        exact ((columns c hc _ _ (hs.columns c hc) hinside hcolumn).value_iff h hold
          (hs.columns c hc) hinside).mpr hknown
      · have hinside := hρ.inside (hfit r hr)
        obtain ⟨hkey, hknown⟩ := hdecided.ordering r hr hmeets k hk
        rw [Server.inside_stored h]
        exact ((ordering k hk _ _ (hs.ordering k hk) hinside hkey).value_iff h hold
          (hs.ordering k hk) hinside).mpr hknown
    refine ⟨hclauses.mirrors fun rows source ho => ?_, ?_⟩
    · exact (origin rows source ho τ ρ (hs.origin rows source ho) hρ
        (hdecided.origin rows source ho)).1
    · exact hclauses.run_stored h fun r hr k hk => (hs.ordering k hk).eval_fits h (hρ.inside (hfit r hr))

end Twins

/-! ### Both statements of a query -/

/-- No columns are around a statement. -/
def Columns.none : Columns (Datum U) := fun _ _ => .null

/-- A server without Booleans selects the stored rows, clause by clause: its conditions hold for
    the stored rows of those for which the conditions of the other server hold, and its columns
    and keys have the stored values, if every condition that stands as a value is known. -/
theorem mirrors_of_ofQuery {D : Dialect U} {v w : Version} {S S' : Server (Datum U)}
    {schema : Schema} {Γ : Fields Kind} {q : Query} {s s' : Select}
    (hv : ¬ Feature.booleanType.since ≤ v) (hw : Feature.booleanType.since ≤ w)
    (htwins : D.Twins (.ofVersion v) S S')
    (htables : ∀ name, ∀ r ∈ S.tables name, r.Fits S.toInterpretation (schema name))
    (hq : q.isSequence = true) (htyped : q.isTyped schema Γ = true)
    (hs : Select.ofQuery (.ofVersion w) q = .ok s)
    (hs' : Select.ofQuery (.ofVersion v) q = .ok s') (hdecided : s.Decided S .none) :
    Select.Mirrors D S S' .none s s' ∧ s'.run S' .none = (s.run S .none).map (Row.stored D) := by
  have hdrops : DropsBooleans (.ofVersion w) (.ofVersion v) :=
    ⟨decide_eq_true hw, decide_eq_false hv, rfl⟩
  obtain ⟨hstyped, rfl⟩ := coerced_of_ofQuery (τ := fun _ _ => .other) hdrops hq htyped hs hs'
  exact (inherited_stored htwins htables hdrops.older).of_select s _ _ hstyped
    (fun _ _ => trivial) hdecided

/-- A server without Booleans that delivers the stored rows in the order of the table. -/
def Dialect.oldServer (D : Dialect U) (tables : Database (Datum U)) : Server (Datum U) where
  toEngine := D.older
  truth := .truth
  holds_truth b := by cases b <;> rfl
  tables name := (tables name).map (Row.stored D)
  arrive _ _ rows := rows
  arrive_perm := (D.newServer tables).arrive_perm
  arrive_eq_of_agrees := (D.newServer tables).arrive_eq_of_agrees

theorem Dialect.twins (D : Dialect U) (tables : Database (Datum U)) (old : Capabilities) :
    D.Twins old (D.newServer tables) (D.oldServer tables) :=
  ⟨rfl, rfl, fun _ => rfl, fun _ => rfl, fun _ => rfl, fun _ _ _ => rfl⟩

/-- Whether the price is one, in the rows with the flag. -/
def flaggedPrices : Query :=
  .project (.filter (.source "ITEM" none) (.column "FLAG"))
    [("CHEAP", .binary (.column "PRICE") .equal (.constant (.int32 1)))]

/-- Two rows of which the second has neither a flag nor a price. -/
def someFlagged : Database (Datum Int) := fun _ =>
  [[("FLAG", .truth true), ("PRICE", .other 1)], [("FLAG", .null), ("PRICE", .null)]]

/-- Flags are truth values. -/
def flagSchema : Schema := fun _ name => .ofCondition (name == "FLAG")

/-- The statement of `flaggedPrices` for a server with Booleans. -/
def Select.flaggedPrices : Select where
  columns := [⟨.binary (.column "i" "PRICE") .equal (.int 1), some "CHEAP"⟩]
  origin := .table "ITEM" "i"
  conditions := [.column "i" "FLAG"]
  ordering := []
  window? := none

theorem decided_flaggedPrices (ρ : Columns (Datum Int)) :
    Select.flaggedPrices.Decided (Dialect.integers.newServer someFlagged) ρ := by
  refine .intro nofun ?_ ?_ ?_ (fun _ _ _ => List.forall_mem_nil _) fun _ _ _ => List.forall_mem_nil _
  · exact fun r hr => List.forall_mem_singleton.mpr (Expr.decided_leaf rfl rfl)
  · refine fun r hr hmeets => List.forall_mem_singleton.mpr (Expr.decided_comparison ?_ ?_ rfl rfl)
    · exact Expr.decided_leaf rfl rfl
    · exact Expr.decided_leaf rfl rfl
  · -- the row without a price is not kept
    rintro r (_ | ⟨_, _ | ⟨_, ⟨⟩⟩⟩) hmeets c (_ | ⟨_, ⟨⟩⟩) - hnull
    · cases hnull
    · cases hmeets

theorem mirrors_of_ofQuery_flaggedPrices :
    ∃ s', Select.ofQuery (.ofVersion ⟨3, 0, 0, 0⟩) flaggedPrices = .ok .flaggedPrices ∧
      Select.ofQuery (.ofVersion ⟨2, 5, 0, 0⟩) flaggedPrices = .ok s' ∧
      Select.Mirrors .integers (Dialect.integers.newServer someFlagged)
        (Dialect.integers.oldServer someFlagged) .none .flaggedPrices s' ∧
      s'.run (Dialect.integers.oldServer someFlagged) .none = [[("CHEAP", .other 1)]] := by
  have hs : Select.ofQuery (.ofVersion ⟨3, 0, 0, 0⟩) flaggedPrices = .ok .flaggedPrices := rfl
  have htyped : flaggedPrices.isTyped flagSchema (fun _ _ => .other) = true := rfl
  have htables : ∀ name, ∀ r ∈ someFlagged name,
      r.Fits Dialect.integers.newer.toInterpretation (flagSchema name) := by
    rintro name r (_ | ⟨_, _ | ⟨_, ⟨⟩⟩⟩) <;> refine Row.fits_of_cells rfl ?_ <;>
      rintro cell (_ | ⟨_, _ | ⟨_, ⟨⟩⟩⟩) <;> trivial
  have hmirrors := mirrors_of_ofQuery (by decide) (by decide)
    (Dialect.integers.twins someFlagged (.ofVersion ⟨2, 5, 0, 0⟩)) htables rfl htyped hs rfl
    (decided_flaggedPrices .none)
  refine ⟨_, hs, rfl, hmirrors.1, hmirrors.2.trans ?_⟩
  rw [run_of_single (r := [("FLAG", .truth true), ("PRICE", .other 1)]) rfl rfl]
  rfl

/-! ### Unknown conditions -/

/-- Whether the price is one. -/
def cheapPrices : Query :=
  .project (.source "ITEM" none)
    [("CHEAP", .binary (.column "PRICE") .equal (.constant (.int32 1)))]

/-- A row without a price. -/
def unpriced : Database (Datum Int) := fun _ => [[("PRICE", .null)]]

/-- Where the price is unknown, `CHEAP` is NULL on the one server and zero on the other. -/
theorem run_ne_stored_cheapPrices : ∃ s s',
    cheapPrices.isTyped flagSchema (fun _ _ => .other) = true ∧
      Select.ofQuery (.ofVersion ⟨3, 0, 0, 0⟩) cheapPrices = .ok s ∧
      Select.ofQuery (.ofVersion ⟨2, 5, 0, 0⟩) cheapPrices = .ok s' ∧
      s.run (Dialect.integers.newServer unpriced) .none = [[("CHEAP", .null)]] ∧
      s'.run (Dialect.integers.oldServer unpriced) .none = [[("CHEAP", .other 0)]] ∧
      s'.run (Dialect.integers.oldServer unpriced) .none
        ≠ (s.run (Dialect.integers.newServer unpriced) .none).map (Row.stored .integers) := by
  refine ⟨_, _, rfl, rfl, rfl, ?_⟩
  rw [run_of_single (r := [("PRICE", .null)]) rfl rfl,
    run_of_single (r := [("PRICE", .null)]) rfl rfl]
  exact ⟨rfl, rfl, by decide⟩

end QueryLoom.Sql

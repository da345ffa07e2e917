/-
  QueryLoom/Proofs/Meaning/Carried.lean
  =====================================
  **What a derived table keeps of the statement in it.**  Pushing down moves three things
  across a derived table: the window stays inside, the columns become those of the derived
  table, and the keys of the ordering are written in terms of them.

    * `keepOption_eq_keep` — the window of a draft keeps the rows that its counts say;
    * `outputRow_value` — a named column of the rows that come out has the value of its
      expression;
    * `carryOrdering_keys` — a row has the same keys before and after it went through the derived
      table.
-/
import Mathlib.Algebra.Group.Int.Defs
import Mathlib.Algebra.Group.Nat.Defs
import QueryLoom.Proofs.Meaning.Rows

namespace QueryLoom.Sql

variable {V : Type}

/-! ### Windows -/

/-- The rows that the counts leave. -/
def Paging.keep (E : Engine V) {α : Type} (p : Paging) (rows : List α) : List α :=
  let rest := rows.drop (p.skip?.elim 0 fun e => (E.rowNumber e).toNat)
  p.take?.elim rest fun e => rest.take (E.rowNumber e).toNat

theorem Paging.keep_map (E : Engine V) {α β : Type} (p : Paging) (f : α → β) (rows : List α) :
    p.keep E (rows.map f) = (p.keep E rows).map f := by
  cases htake : p.take? with
  | none => simp only [keep, htake, Option.elim, List.map_drop]
  | some e => simp only [keep, htake, Option.elim, List.map_drop, List.map_take]

theorem keep_length_le (E : Engine V) {α : Type} (p : Paging) (rows : List α) :
    (p.keep E rows).length ≤ rows.length := by
  cases htake : p.take? with
  | none =>
    simp only [Paging.keep, htake, Option.elim, List.length_drop]
    omega
  | some e =>
    simp only [Paging.keep, htake, Option.elim, List.length_take, List.length_drop]
    omega

theorem rowNumber_nonneg (E : Engine V) {operator : String} {e : Expr}
    (h : Paging.checkCount operator e = .ok ()) : 0 ≤ E.rowNumber e := by
  unfold Paging.checkCount at h
  split at h
  · rename_i v
    split at h
    · rename_i n hn
      split at h
      · cases h
      · rename_i hneg
        simp only [Engine.rowNumber, hn, Option.getD_some]
        omega
    · cases h
  · simp only [Engine.rowNumber]
    exact Int.natCast_nonneg _
  · cases h

/-- A count is the number of rows that the query says. -/
theorem rowNumber_eq_rowCount (E : Engine V) {operator : String} {count : Query} {e : Expr}
    (h : Paging.rowCount operator count = .ok e) :
    (E.rowNumber e).toNat = count.rowCount E := by
  unfold Paging.rowCount at h
  cases count <;> simp only [bind, Except.bind, pure, Except.pure, reduceCtorEq] at h
  all_goals
    split at h
    · cases h
    · cases h
      rfl

theorem rowNumber_lastRow (E : Engine V) : E.rowNumber Paging.lastRow = 2 ^ 63 - 1 := by
  rfl

theorem rowNumber_int_one (E : Engine V) : E.rowNumber (.int 1) = 1 := by
  rfl

/-- The window of a draft keeps the rows that its counts say. -/
theorem keepOption_eq_keep (E : Engine V) {α : Type} {p : Paging} {w? : Option Window}
    (h : p.window? = .ok w?) {rows : List α} (hrows : rows.length < 2 ^ 63) :
    keepOption E w? rows = p.keep E rows := by
  obtain ⟨hskips, htakes, rfl⟩ := window?_eq_ok h
  rcases p with ⟨_ | skip, _ | take⟩
  · rfl
  · rfl
  · have hskip := rowNumber_nonneg E (hskips skip rfl)
    have hupper : (rows.take (E.rowNumber Paging.lastRow).toNat) = rows := by
      refine List.take_of_length_le ?_
      rw [rowNumber_lastRow]
      omega
    simp only [keepOption, Option.elim, Window.keep, Paging.keep, hupper, Engine.rowNumber,
      rowNumber_int_one]
    congr 1
    omega
  · have hskip := rowNumber_nonneg E (hskips skip rfl)
    have htake := rowNumber_nonneg E (htakes take rfl)
    simp only [keepOption, Option.elim, Window.keep, Paging.keep, Engine.rowNumber,
      rowNumber_int_one, Int.toNat_add hskip htake, List.drop_take]
    congr 1
    · omega
    · congr 1
      omega

/-! ### Columns -/

/-- Every column has a name. -/
def AllNamed (columns : List Column) : Prop := ∀ c ∈ columns, c.alias?.isSome = true

/-- A row of named columns has one cell for each of them. -/
theorem outputRow_eq_map (I : Interpretation V) (source? : Option String) {columns : List Column}
    (hnamed : AllNamed columns) (r : Row V) :
    outputRow I source? columns r
      = columns.map fun c => (c.alias?.getD "", c.expr.value I (.ofRow I source? r)) := by
  induction columns with
  | nil => rfl
  | cons c rest ih =>
    have hrest := ih fun c' hc' => hnamed c' (List.mem_cons_of_mem c hc')
    have hc := hnamed c List.mem_cons_self
    rcases c with ⟨e, _ | name⟩
    · cases hc
    · rw [List.map_cons, ← hrest]
      cases e <;> rfl

theorem outputRow_allColumns (I : Interpretation V) (source : String) (r : Row V) :
    outputRow I (some source) [⟨.allColumns source, none⟩] r = r := by
  simp [outputRow, Column.cells]

/-- What is looked up under the name of a column is what stands there for it, if no other column
    has its name. -/
theorem lookup_of_named {columns : List Column} (hnamed : AllNamed columns)
    (hdistinct : (columns.filterMap Column.alias?).Nodup) {c : Column} (hc : c ∈ columns)
    {name : String} (hname : c.alias? = some name) (f : Column → V) :
    (columns.map fun c => (c.alias?.getD "", f c)).lookup name = some (f c) := by
  induction columns with
  | nil => cases hc
  | cons c' rest ih =>
    obtain ⟨name', hname'⟩ := Option.isSome_iff_exists.mp (hnamed c' List.mem_cons_self)
    rw [List.filterMap_cons_some hname', List.nodup_cons] at hdistinct
    simp only [List.map_cons, List.lookup_cons, hname', Option.getD_some]
    rcases List.mem_cons.mp hc with rfl | hrest
    · obtain rfl : name' = name := Option.some.inj (hname'.symm.trans hname)
      simp
    · have hne : name ≠ name' := by
        rintro rfl
        exact hdistinct.1 (List.mem_filterMap.mpr ⟨c, hrest, hname⟩)
      rw [beq_eq_false_iff_ne.mpr hne]
      exact ih (fun c'' hc'' => hnamed c'' (List.mem_cons_of_mem c' hc'')) hdistinct.2 hrest

/-- A named column of the rows that come out has the value of its expression, if no other
    column has its name. -/
theorem outputRow_value (I : Interpretation V) (source? : Option String) {columns : List Column}
    (hnamed : AllNamed columns) (hdistinct : (columns.filterMap Column.alias?).Nodup)
    {c : Column} (hc : c ∈ columns) {name : String} (hname : c.alias? = some name) (r : Row V) :
    (outputRow I source? columns r).value I name = c.expr.value I (.ofRow I source? r) := by
  rw [outputRow_eq_map I source? hnamed, Row.value,
    lookup_of_named hnamed hdistinct hc hname fun c => c.expr.value I (.ofRow I source? r)]
  rfl

/-! ### Keys -/

/-- The value of the expression depends on no columns but those of one source. -/
def Expr.ReadsOnly (I : Interpretation V) (source : String) (e : Expr) : Prop :=
  ∀ ρ ρ' : Columns V, (∀ name, ρ source name = ρ' source name) → e.value I ρ = e.value I ρ'

theorem readsOnly_column (I : Interpretation V) (source name : String) :
    (Expr.column source name).ReadsOnly I source := by
  intro ρ ρ' h
  exact h name

theorem readsOnly_rename {I : Interpretation V} {old new : String} {e : Expr}
    (he : e.ReadsOnly I old) : (e.rename old new).ReadsOnly I new := by
  intro ρ ρ' h
  rw [Expr.value_rename, Expr.value_rename]
  refine he _ _ fun name => ?_
  simpa [Columns.renamed, renamed] using h name

/-- The columns of a finished statement are named, or they are all columns of its origin. -/
def Select.ShowsNamed (s : Select) (source : String) : Prop :=
  AllNamed s.columns ∨ s.columns = [⟨.allColumns source, none⟩]

variable {I : Interpretation V} {s : Select} {old source : String}

/-- A carried key reads the derived table only. -/
theorem carry_readsOnly (halias : s.origin.alias? = some old) {key key' : Expr}
    (hcarry : s.carry source key = some key') (hkey : key.ReadsOnly I old) :
    key'.ReadsOnly I source := by
  rcases carry_eq_some hcarry with ⟨c, hc, name, hagrees, hname, rfl⟩ | ⟨shown, _, hshown, _, rfl⟩
  · exact readsOnly_column I source name
  · obtain rfl : old = shown := Option.some.inj (halias.symm.trans hshown)
    exact readsOnly_rename hkey

/-- A key has the same value before and after the row went through the derived table. -/
theorem carry_value (halias : s.origin.alias? = some old) (hshows : s.ShowsNamed old)
    (hdistinct : (s.columns.filterMap Column.alias?).Nodup) {key key' : Expr}
    (hcarry : s.carry source key = some key') (hkey : key.ReadsOnly I old) (r : Row V) :
    key'.value I (.ofRow I (some source) (outputRow I (some old) s.columns r))
      = key.value I (.ofRow I (some old) r) := by
  rcases carry_eq_some hcarry with
    ⟨c, hc, name, hagrees, hname, rfl⟩ | ⟨shown, hcolumns, hshown, _, rfl⟩
  · rcases hshows with hnamed | hall
    · simp only [Expr.value, Columns.ofRow, if_true]
      rw [outputRow_value I (some old) hnamed hdistinct hc hname,
        Expr.value_eq_of_agrees I _ hagrees]
    · rw [hall, List.mem_singleton] at hc
      rw [hc] at hname
      cases hname
  · obtain rfl : old = shown := Option.some.inj (halias.symm.trans hshown)
    rw [hcolumns, outputRow_allColumns, Expr.value_rename]
    refine hkey _ _ fun name => ?_
    simp [Columns.renamed, renamed, Columns.ofRow]

/-- The carried ordering has the directions of the one inside. -/
theorem carryOrdering_directions {ordering : List OrderKey}
    (hcarry : s.carryOrdering source = .ok ordering) :
    ordering.map OrderKey.direction = s.ordering.map OrderKey.direction := by
  replace hcarry := carryOrdering_eq_ok hcarry
  generalize s.ordering = keys at hcarry
  induction hcarry with
  | nil => rfl
  | cons hk _ ih => rw [List.map_cons, List.map_cons, hk.2, ih]

theorem carryOrdering_readsOnly (halias : s.origin.alias? = some old)
    {ordering : List OrderKey} (hcarry : s.carryOrdering source = .ok ordering)
    (hkeys : ∀ k ∈ s.ordering, k.expr.ReadsOnly I old) :
    ∀ k ∈ ordering, k.expr.ReadsOnly I source := by
  replace hcarry := carryOrdering_eq_ok hcarry
  generalize s.ordering = keys at hcarry hkeys
  induction hcarry with
  | nil => exact fun k' hk' => absurd hk' List.not_mem_nil
  | cons hk _ ih =>
    intro k' hk'
    rcases List.mem_cons.mp hk' with rfl | hk'
    · exact carry_readsOnly halias hk.1 (hkeys _ List.mem_cons_self)
    · exact ih (fun k hk => hkeys k (List.mem_cons_of_mem _ hk)) k' hk'

/-- A row has the same keys before and after it went through the derived table. -/
theorem carryOrdering_keys (halias : s.origin.alias? = some old) (hshows : s.ShowsNamed old)
    (hdistinct : (s.columns.filterMap Column.alias?).Nodup) {ordering : List OrderKey}
    (hcarry : s.carryOrdering source = .ok ordering)
    (hkeys : ∀ k ∈ s.ordering, k.expr.ReadsOnly I old) (r : Row V) :
    orderingKeys I (some source) ordering (outputRow I (some old) s.columns r)
      = orderingKeys I (some old) s.ordering r := by
  replace hcarry := carryOrdering_eq_ok hcarry
  unfold orderingKeys
  generalize s.ordering = keys at hcarry hkeys
  induction hcarry with
  | nil => rfl
  | cons hk _ ih =>
    rw [List.map_cons, List.map_cons, ih fun k' hk' => hkeys k' (List.mem_cons_of_mem _ hk'),
      carry_value halias hshows hdistinct hk.1 (hkeys _ List.mem_cons_self) r]

end QueryLoom.Sql

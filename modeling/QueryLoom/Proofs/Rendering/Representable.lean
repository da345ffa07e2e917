/-
  QueryLoom/Proofs/Rendering/Representable.lean
  =============================================
  **A statement can be rendered when all of its names and constants can be represented.**  Names
  stand in the FROM item and before the columns of each SELECT, and in columns and all columns;
  numbers that are not finite and years that the server does not know stand in constants.
  Neither capabilities other than the length of identifiers nor the style of placeholders, nor the
  place where a name or a constant stands, makes a difference, and nothing else is refused.

    * `writable_literal_iff`, `writable_expr_iff`, `writable_select_iff_clauses` — what the parts
      of an expression and the clauses of a SELECT have to do with it;
    * `Select.Block.writable`, `writable_of_block` — from a statement to the SELECTs in it and back;
    * `category_of_refusal?` — a refusal is about an argument.
-/
import QueryLoom.Proofs.Rendering.Refusal
import QueryLoom.Proofs.Rendering.Walk
import QueryLoom.Proofs.Scoping.Walked

namespace QueryLoom.Sql

/-! ### Names and constants -/

/-- The names in an origin. -/
def Origin.ownNames : Origin → List String
  | .table name source => [name, source]
  | .derived _ source => [source]
  | .singleRow => []

/-- The names that a SELECT has beside its expressions. -/
def Select.ownNames (s : Select) : List String :=
  s.columns.filterMap Column.alias? ++ s.origin.ownNames

/-- The names that an expression has by itself. -/
def Expr.ownNames : Expr → List String
  | .column source name => [source, name]
  | .allColumns source => [source]
  | _ => []

/-- Whether a server knows the year of a date. -/
def isYearKnown (d : Calendar.Date) : Bool := 1 ≤ d.year && d.year ≤ 9999

/-- Whether there is a literal or a placeholder for a value. -/
def isRepresentable : Value → Bool
  | .single x => x.isFinite
  | .double x => x.isFinite
  | .date d => isYearKnown d
  | .dateTime dt => isYearKnown dt.date
  | _ => true

/-- Everything that a statement has in it, at any depth, can be represented. -/
structure Select.Representable (caps : Capabilities) (s : Select) : Prop where
  clauses : ∀ t around, s.Block [] t around → ∀ id ∈ t.ownNames, isIdentifier caps id = true
  expressions : ∀ x ∈ s.walk, ∀ id ∈ x.ownNames, isIdentifier caps id = true
  constants : ∀ v, .literal v ∈ s.walk → isRepresentable v = true

variable {caps : Capabilities} {placeholders : Placeholders}

/-! ### Constants -/

theorem writable_signed (negative : Bool) (magnitude : String) :
    Writable caps (signed negative magnitude) := by
  cases negative <;> simp [signed, Piece.refusal?]

theorem writable_binaryNumber {f : Number.BinaryFormat} (v : Value) (x : Number.Binary f) :
    Writable caps (binaryNumber v x) ↔ x.isFinite = true := by
  rw [binaryNumber]
  split
  case isTrue hfinite => simp [hfinite, writable_signed]
  case isFalse hfinite => simp [hfinite, Piece.refusal?]

theorem writable_dated (w : String) (d : Calendar.Date) (f : String → String) :
    Writable caps (dated w ((dateText? d).map f)) ↔ isYearKnown d = true := by
  rw [dateText?, isYearKnown]
  split
  case isTrue hknown => simp [hknown, Except.map, dated, labelled]
  case isFalse hknown => simp [hknown, Except.map, dated, Piece.refusal?]

theorem writable_literal_iff (v : Value) :
    Writable caps (literal caps v) ↔ isRepresentable v = true := by
  cases v with
  | int16 n | int32 n | int64 n | decimal d =>
    simp [literal, integer, writable_signed, isRepresentable]
  | single x | double x => exact writable_binaryNumber _ x
  | date d =>
    have hdate : Writable caps (dated "DATE" ((dateText? d).map id)) ↔ isYearKnown d = true :=
      writable_dated "DATE" d id
    rw [Except.map_id] at hdate
    exact hdate
  | dateTime dt => exact writable_dated "TIMESTAMP" dt.date _
  | boolean b =>
    rw [literal]
    split <;> simp [isRepresentable, Piece.refusal?]
  | uuid u =>
    rw [literal]
    split <;> simp [isRepresentable, Piece.refusal?]
  | null | string _ | binary _ | time _ => simp [literal, labelled, isRepresentable, Piece.refusal?]

/-! ### Expressions -/

/-- What can be represented of an expression by itself. -/
def Expr.Representable (caps : Capabilities) (x : Expr) : Prop :=
  (∀ id ∈ x.ownNames, isIdentifier caps id = true) ∧ ∀ v, x = .literal v → isRepresentable v = true

/-- An expression can be written when its parts can be represented and the statements tested in
    it can be written. -/
theorem writable_expr_iff (e : Expr) : Writable caps (e.pieces caps) ↔ ∀ x ∈ e.parts,
    x.Representable caps ∧ ∀ rows, x = .existsRow rows → Writable caps (rows.pieces caps) := by
  rw [parts_eq, List.forall_mem_cons]
  cases hop : e.operator? with
  | some op =>
    have hself : e.Representable caps ∧
        ∀ rows, e = .existsRow rows → Writable caps (rows.pieces caps) := by
      cases e with
      | column | allColumns | literal | parameter | existsRow => cases hop
      | _ => simp [Expr.Representable, Expr.ownNames]
    rw [writable_of_operator hop, and_iff_right hself]
    simp only [List.forall_mem_flatMap]
    refine forall₂_congr fun o ho => ?_
    have := sizeOf_lt_of_mem_operands ho
    exact writable_expr_iff o
  | none =>
    cases e with
    | column source name | allColumns source =>
      simp [Expr.pieces, Expr.operands, Expr.Representable, Expr.ownNames, refusal?_name]
    | literal v =>
      simp [Expr.pieces, Expr.operands, Expr.Representable, Expr.ownNames, writable_literal_iff]
    | parameter p =>
      simp [Expr.pieces, Expr.operands, Expr.Representable, Expr.ownNames, Piece.refusal?]
    | existsRow rows =>
      simp [Expr.pieces, Expr.operands, Expr.Representable, Expr.ownNames]
    | _ => cases hop
termination_by sizeOf e

theorem sizeOf_le_of_mem_parts {e x : Expr} (h : x ∈ e.parts) : sizeOf x ≤ sizeOf e := by
  rw [parts_eq, List.mem_cons] at h
  rcases h with rfl | h
  · exact Nat.le_refl _
  · obtain ⟨o, ho, hx⟩ := List.mem_flatMap.mp h
    have hsize := sizeOf_lt_of_mem_operands ho
    exact Nat.le_trans (sizeOf_le_of_mem_parts hx) (Nat.le_of_lt hsize)
termination_by sizeOf e

/-! ### Statements -/

theorem writable_origin_iff_names {o : Origin} : Writable caps (o.pieces caps) ↔
    (∀ id ∈ o.ownNames, isIdentifier caps id = true) ∧
      ∀ rows source, o = .derived rows source → Writable caps (rows.pieces caps) := by
  rw [writable_origin_iff]
  cases o <;> simp [Origin.Writable, Origin.ownNames, and_comm]

/-- A SELECT can be written when its names can be represented and the statement that it reads
    from and the expressions of its clauses can be written. -/
theorem writable_select_iff_clauses {s : Select} : Writable caps (s.pieces caps) ↔
    (∀ id ∈ s.ownNames, isIdentifier caps id = true) ∧
    (∀ rows source, s.origin = .derived rows source → Writable caps (rows.pieces caps)) ∧
    ∀ e ∈ s.clauses, Writable caps (e.pieces caps) := by
  have hlabels : (∀ id ∈ s.columns.filterMap Column.alias?, isIdentifier caps id = true) ↔
      ∀ c ∈ s.columns, ∀ label ∈ c.alias?, isIdentifier caps label = true := by
    simp only [List.mem_filterMap, Option.mem_def]
    exact ⟨fun h c hc label hlabel => h label ⟨c, hc, hlabel⟩,
      fun h label ⟨c, hc, hlabel⟩ => h c hc label hlabel⟩
  have hwindow : (∀ e ∈ s.window?.toList.flatMap fun w => w.lower :: w.upper?.toList,
      Writable caps (e.pieces caps)) ↔ ∀ w ∈ s.window?, Writable caps (w.lower.pieces caps) ∧
        ∀ upper ∈ w.upper?, Writable caps (upper.pieces caps) := by
    simp only [List.forall_mem_flatMap, List.forall_mem_cons, Option.mem_toList, Option.mem_def]
  rw [writable_select_iff, ← writable_origin_iff, writable_origin_iff_names, ← hwindow]
  simp only [Select.ownNames, Select.clauses, List.forall_mem_append, List.forall_mem_map, hlabels,
    forall_and]
  tauto

/-- Every SELECT in a statement that can be written can be written. -/
theorem Select.Block.writable {s t : Select} {items around : List Item}
    (hblock : s.Block items t around) (h : Writable caps (s.pieces caps)) :
    Writable caps (t.pieces caps) := by
  induction hblock with
  | self => exact h
  | derived horigin _ ih =>
    obtain ⟨-, hrows, -⟩ := writable_select_iff_clauses.mp h
    exact ih (hrows _ _ horigin)
  | test he hrows _ ih =>
    obtain ⟨-, -, hclauses⟩ := writable_select_iff_clauses.mp h
    exact ih (((writable_expr_iff _).mp (hclauses _ he) _ hrows).2 _ rfl)

/-- A statement can be written if every SELECT in it has names and parts of clauses that can be
    represented. -/
theorem writable_of_block (s : Select) (items : List Item)
    (h : ∀ t around, s.Block items t around → (∀ id ∈ t.ownNames, isIdentifier caps id = true) ∧
      ∀ e ∈ t.clauses, ∀ x ∈ e.parts, x.Representable caps) : Writable caps (s.pieces caps) := by
  obtain ⟨hnames, hclauses⟩ := h s items .self
  refine writable_select_iff_clauses.mpr ⟨hnames, fun rows source horigin => ?_, fun e he => ?_⟩
  · have := sizeOf_lt_of_origin horigin
    exact writable_of_block rows items fun t around hblock => h t around (.derived horigin hblock)
  · refine (writable_expr_iff e).mpr fun x hx => ⟨hclauses e he x hx, ?_⟩
    rintro rows rfl
    have : sizeOf rows < sizeOf s := by
      have hpart := sizeOf_le_of_mem_parts hx
      have hclause := sizeOf_lt_of_mem_clauses he
      rw [Expr.existsRow.sizeOf_spec] at hpart
      omega
    exact writable_of_block rows (s.item?.toList ++ items) fun t around hblock =>
      h t around (.test he hx hblock)
termination_by sizeOf s

/-- A statement can be written exactly when everything in it can be represented. -/
theorem writable_iff_representable (s : Select) :
    Writable caps (s.pieces caps) ↔ s.Representable caps := by
  constructor
  · intro h
    have hwalk : ∀ x ∈ s.walk, x.Representable caps := by
      intro x hx
      obtain ⟨t, around, hblock, e, he, hpart⟩ := mem_walk_iff_holds.mp hx []
      obtain ⟨-, -, hclauses⟩ := writable_select_iff_clauses.mp (hblock.writable h)
      exact ((writable_expr_iff e).mp (hclauses e he) x hpart).1
    exact ⟨fun t around hblock => (writable_select_iff_clauses.mp (hblock.writable h)).1,
      fun x hx => (hwalk x hx).1, fun v hv => (hwalk _ hv).2 v rfl⟩
  · intro h
    refine writable_of_block s [] fun t around hblock =>
      ⟨h.clauses t around hblock, fun e he x hx => ?_⟩
    have hwalk : x ∈ s.walk := hblock.walk_subset
      (walk_subset_of_mem_clauses he ((parts_sublist_walk e).subset hx))
    refine ⟨h.expressions x hwalk, ?_⟩
    rintro v rfl
    exact h.constants v hwalk

/-! ### Errors -/

theorem category_of_identifier {id : String} {e : CompileError}
    (h : identifier caps id = .error e) : e.category = .invalidArgument := by
  unfold identifier at h
  repeat' split at h
  all_goals cases h <;> rfl

theorem category_of_dated {w : String} {d : Calendar.Date} {f : String → String}
    {e : CompileError} (h : .refused e ∈ dated w ((dateText? d).map f)) :
    e.category = .invalidArgument := by
  unfold dateText? at h
  split at h
  · simp [Except.map, dated, labelled] at h
  · obtain rfl : e = .yearOutOfRange d := by simpa [Except.map, dated] using h
    rfl

theorem not_refused_mem_signed {negative : Bool} {magnitude : String} {e : CompileError} :
    .refused e ∉ signed negative magnitude := by
  cases negative <;> simp [signed]

theorem category_of_binaryNumber {f : Number.BinaryFormat} {v : Value} {x : Number.Binary f}
    {e : CompileError} (h : .refused e ∈ binaryNumber v x) : e.category = .invalidArgument := by
  unfold binaryNumber at h
  split at h
  · exact absurd h not_refused_mem_signed
  · obtain rfl : e = .notFinite v := by simpa using h
    rfl

/-- A constant that is refused is not one that the server can represent. -/
theorem category_of_literal {v : Value} {e : CompileError} (h : .refused e ∈ literal caps v) :
    e.category = .invalidArgument := by
  cases v with
  | int16 n | int32 n | int64 n | decimal d => exact absurd h not_refused_mem_signed
  | single x | double x => exact category_of_binaryNumber h
  | date d =>
    refine category_of_dated (f := id) (w := "DATE") (d := d) ?_
    rw [Except.map_id]
    exact h
  | dateTime dt => exact category_of_dated h
  | boolean b | uuid u =>
    rw [literal] at h
    split at h <;> simp [Piece.call, Piece.parenthesized] at h
  | null | string _ | binary _ | time _ => simp [literal, labelled] at h

theorem refused_or_category {p : Piece} {e : CompileError} (h : p.refusal? caps = some e) :
    p = .refused e ∨ e.category = .invalidArgument := by
  cases p with
  | name id =>
    rw [Piece.refusal?] at h
    split at h
    case h_1 e' hid =>
      cases h
      exact .inr (category_of_identifier hid)
    case h_2 => cases h
  | refused e' =>
    cases h
    exact .inl rfl
  | _ => cases h

/-- Whatever a server refuses in a statement is an argument that is not valid. -/
theorem category_of_refusal? {s : Select} {e : CompileError} :
    ∀ p ∈ s.pieces caps, p.refusal? caps = some e → e.category = .invalidArgument := by
  refine forall_mem_pieces (fun p hp h => ?_) fun x hx p hp h => ?_
  · rcases refused_or_category h with rfl | hcategory
    · cases hp
    · exact hcategory
  · rcases refused_or_category h with rfl | hcategory
    · cases x with
      | literal v => exact category_of_literal hp
      | parameter p | keyword w | function f args => simp [Expr.own] at hp
      | _ => cases hp
    · exact hcategory

/-- A statement can be rendered exactly when all names in it can be identifiers of the server, all
    floating-point constants are finite and all dates have years that the server knows.  If not, an
    argument is not valid. -/
theorem render_iff_representable (caps : Capabilities) (placeholders : Placeholders) (s : Select) :
    ((∃ st, render caps placeholders s = .ok st) ↔ s.Representable caps) ∧
    ((∃ st, render caps placeholders s = .ok st) ∨
      ∃ e, render caps placeholders s = .error e ∧ e.category = .invalidArgument) := by
  refine ⟨exists_render_iff.trans (writable_iff_representable s), ?_⟩
  cases h : render caps placeholders s with
  | ok st => exact .inl ⟨st, rfl⟩
  | error e =>
    obtain ⟨p, hp, hrefusal⟩ := List.exists_of_findSome?_eq_some (render_eq_error_iff.mp h)
    exact .inr ⟨e, rfl, category_of_refusal? p hp hrefusal⟩

end QueryLoom.Sql

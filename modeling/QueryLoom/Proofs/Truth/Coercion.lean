/-
  QueryLoom/Proofs/Truth/Coercion.lean
  ====================================
  **The statement for a server without Booleans, from the one for a server with them.**
  Where there are Booleans a condition may stand for a value and a value for a condition, so
  nothing is put between an operator and its operands.  `Expr.coerced` puts in what a server
  needs, in each place the coercion that its operator, or its clause, demands.

    * `operands_coerced` — the operands of a coerced operator;
    * `rename_coerced`, `agrees_of_agrees` — coercions do not get in the way of renaming and of
      agreement.
-/
import QueryLoom.Proofs.Drafting.Sorts
import QueryLoom.Proofs.Meaning.Operands

namespace QueryLoom.Sql

/-- Whether the operands of an operator stand as conditions. -/
def Operator.joinsConditions : Operator → Bool
  | .binary op => op.isLogical
  | .unary op => op == .not
  | _ => false

/-- An expression as it stands in a place for conditions or for values. -/
def placed (caps : Capabilities) (condition : Bool) (e : Expr) : Expr :=
  if condition then asPredicate caps e else asValue caps e

mutual

/-- The expression with coercions wherever a place demands one.  A choice between branches has
    them already. -/
def Expr.coerced (caps : Capabilities) : Expr → Expr
  | .function name args => .function name (coercedList caps false args)
  | .trim side? chars? text =>
    .trim side? (coercedOption caps chars?) (placed caps false (text.coerced caps))
  | .substring text start length? =>
    .substring (placed caps false (text.coerced caps)) (placed caps false (start.coerced caps))
      (coercedOption caps length?)
  | .extract part operand => .extract part (placed caps false (operand.coerced caps))
  | .cast operand type => .cast (placed caps false (operand.coerced caps)) type
  | .position needle haystack =>
    .position (placed caps false (needle.coerced caps)) (placed caps false (haystack.coerced caps))
  | .dateAdd amount part operand =>
    .dateAdd (placed caps false (amount.coerced caps)) part (placed caps false (operand.coerced caps))
  | .atTimeZone operand zone => .atTimeZone (placed caps false (operand.coerced caps)) zone
  | .binary left op right =>
    .binary (placed caps op.isLogical (left.coerced caps)) op
      (placed caps op.isLogical (right.coerced caps))
  | .unary op operand => .unary op (placed caps (op == .not) (operand.coerced caps))
  | .isNull operand negated => .isNull (placed caps false (operand.coerced caps)) negated
  | .existsRow rows => .existsRow (rows.coerced caps)
  | .case whens otherwise? => .case whens otherwise?
  | .column source name => .column source name
  | .allColumns source => .allColumns source
  | .literal v => .literal v
  | .parameter p => .parameter p
  | .keyword w => .keyword w

/-- An operand that may be missing, coerced to a value. -/
def coercedOption (caps : Capabilities) : Option Expr → Option Expr
  | none => none
  | some e => some (placed caps false (e.coerced caps))

/-- Expressions in a list of conditions or of values, coerced. -/
def coercedList (caps : Capabilities) (condition : Bool) : List Expr → List Expr
  | [] => []
  | e :: rest => placed caps condition (e.coerced caps) :: coercedList caps condition rest

/-- The statement with coercions wherever a place demands one. -/
def Select.coerced (caps : Capabilities) : Select → Select
  | ⟨columns, origin, conditions, ordering, window?⟩ =>
    ⟨coercedColumns caps columns, origin.coerced caps, coercedList caps true conditions,
      coercedKeys caps ordering, window?⟩

/-- Selected columns, coerced to values. -/
def coercedColumns (caps : Capabilities) : List Column → List Column
  | [] => []
  | ⟨e, alias?⟩ :: rest => ⟨placed caps false (e.coerced caps), alias?⟩ :: coercedColumns caps rest

/-- The keys of an ordering, coerced to values. -/
def coercedKeys (caps : Capabilities) : List OrderKey → List OrderKey
  | [] => []
  | ⟨e, direction⟩ :: rest => ⟨placed caps false (e.coerced caps), direction⟩ :: coercedKeys caps rest

/-- The origin with coercions in the statement that it derives from. -/
def Origin.coerced (caps : Capabilities) : Origin → Origin
  | .table name source => .table name source
  | .derived rows source => .derived (rows.coerced caps) source
  | .singleRow => .singleRow

end

variable (caps : Capabilities)

/-- An expression as it stands in a place of a statement that has coercions. -/
def Expr.standing (condition : Bool) (e : Expr) : Expr := placed caps condition (e.coerced caps)

theorem coercedList_eq_map (condition : Bool) (es : List Expr) :
    coercedList caps condition es = es.map (Expr.standing caps condition) := by
  induction es with
  | nil => rfl
  | cons e rest ih => rw [coercedList, ih, List.map_cons, Expr.standing]

theorem coercedColumns_eq_map (cs : List Column) : coercedColumns caps cs
    = cs.map fun c => ⟨c.expr.standing caps false, c.alias?⟩ := by
  induction cs with
  | nil => rfl
  | cons c rest ih =>
    rcases c with ⟨e, alias?⟩
    rw [coercedColumns, ih, List.map_cons, Expr.standing]

theorem coercedKeys_eq_map (ks : List OrderKey) : coercedKeys caps ks
    = ks.map fun k => ⟨k.expr.standing caps false, k.direction⟩ := by
  induction ks with
  | nil => rfl
  | cons k rest ih =>
    rcases k with ⟨e, direction⟩
    rw [coercedKeys, ih, List.map_cons, Expr.standing]

theorem coerced_mk (s : Select) : s.coerced caps =
    { s with
      columns := s.columns.map fun c => ⟨c.expr.standing caps false, c.alias?⟩
      origin := s.origin.coerced caps
      conditions := s.conditions.map (Expr.standing caps true)
      ordering := s.ordering.map fun k => ⟨k.expr.standing caps false, k.direction⟩ } := by
  rcases s with ⟨columns, origin, conditions, ordering, window?⟩
  rw [Select.coerced, coercedColumns_eq_map, coercedList_eq_map, coercedKeys_eq_map]

@[simp] theorem alias?_coerced (o : Origin) : (o.coerced caps).alias? = o.alias? := by
  cases o <;> rfl

@[simp] theorem isPredicate_coerced (e : Expr) : (e.coerced caps).isPredicate = e.isPredicate := by
  cases e <;> rfl

theorem operator?_coerced (e : Expr) : (e.coerced caps).operator? = e.operator? := by
  have hoption : ∀ e? : Option Expr, (coercedOption caps e?).isSome = e?.isSome := by
    rintro (_ | e) <;> rfl
  cases e <;> simp [Expr.coerced, Expr.operator?, hoption]

/-- The operands of a coerced operator are its operands, each as it stands there. -/
theorem operands_coerced {e : Expr} {op : Operator} (h : e.operator? = some op)
    (hcase : ∀ b, op ≠ .case b) :
    (e.coerced caps).operands = e.operands.map (Expr.standing caps op.joinsConditions) := by
  have hoption : ∀ e? : Option Expr,
      (coercedOption caps e?).toList = e?.toList.map (Expr.standing caps false) := by
    rintro (_ | e) <;> rfl
  cases e <;> cases h <;>
    simp [Expr.coerced, Expr.operands, Operator.joinsConditions, coercedList_eq_map, hoption,
      Expr.standing]
  case case whens otherwise? => exact absurd rfl (hcase otherwise?.isSome)

/-! ### Standing in a place -/

section

variable {caps : Capabilities} {e : Expr}

theorem standing_value (h : e.isPredicate = false) : e.standing caps false = e.coerced caps := by
  simp [Expr.standing, placed, asValue, h]

theorem standing_condition (h : e.isPredicate = true) : e.standing caps true = e.coerced caps := by
  simp [Expr.standing, placed, asPredicate, h]

theorem standing_value_of_predicate (hcaps : caps.booleanType = false)
    (h : e.isPredicate = true) :
    e.standing caps false = .case [⟨e.coerced caps, .int 1⟩] (some (.int 0)) := by
  simp [Expr.standing, placed, asValue, h, hcaps]

theorem standing_condition_of_value (hcaps : caps.booleanType = false)
    (h : e.isPredicate = false) :
    e.standing caps true = .binary (e.coerced caps) .equal (.int 1) := by
  simp [Expr.standing, placed, asPredicate, h, hcaps]

end

/-! ### Renaming -/

theorem rename_placed (old new : String) (condition : Bool) (e : Expr) :
    (placed caps condition e).rename old new = placed caps condition (e.rename old new) := by
  cases condition <;> simp only [placed, asPredicate, asValue, isPredicate_rename,
    Bool.false_eq_true, if_true, if_false] <;> split <;> rfl

mutual

/-- It makes no difference whether a source is renamed before or after coercions are put in. -/
theorem rename_coerced (old new : String) :
    (e : Expr) → (e.coerced caps).rename old new = (e.rename old new).coerced caps
  | .column .. | .allColumns _ | .literal _ | .parameter _ | .keyword _ | .existsRow _
  | .case .. => rfl
  | .function _ args => by
    simp only [Expr.coerced, Expr.rename, rename_coercedList old new args]
  | .trim _ chars? text => by
    simp only [Expr.coerced, Expr.rename, rename_coercedOption old new chars?, rename_placed,
      rename_coerced old new text]
  | .substring text start length? => by
    simp only [Expr.coerced, Expr.rename, rename_coercedOption old new length?, rename_placed,
      rename_coerced old new text, rename_coerced old new start]
  | .extract _ operand | .cast operand _ | .atTimeZone operand _ | .unary _ operand
  | .isNull operand _ => by
    simp only [Expr.coerced, Expr.rename, rename_placed, rename_coerced old new operand]
  | .position left right | .dateAdd left _ right | .binary left _ right => by
    simp only [Expr.coerced, Expr.rename, rename_placed, rename_coerced old new left,
      rename_coerced old new right]

theorem rename_coercedOption (old new : String) : (e? : Option Expr) →
    renameOption old new (coercedOption caps e?) = coercedOption caps (renameOption old new e?)
  | none => rfl
  | some e => by
    rw [coercedOption, renameOption, rename_placed, rename_coerced old new e, renameOption,
      coercedOption]

theorem rename_coercedList (old new : String) : (es : List Expr) →
    renameList old new (coercedList caps false es) = coercedList caps false (renameList old new es)
  | [] => rfl
  | e :: rest => by
    rw [coercedList, renameList, rename_placed, rename_coerced old new e,
      rename_coercedList old new rest, renameList, coercedList]

end

theorem rename_standing (old new : String) (condition : Bool) (e : Expr) :
    (e.standing caps condition).rename old new = (e.rename old new).standing caps condition := by
  rw [Expr.standing, rename_placed, rename_coerced, Expr.standing]

/-! ### Statements inside -/

theorem hasSubquery_placed (condition : Bool) (e : Expr) :
    (placed caps condition e).hasSubquery = e.hasSubquery := by
  cases condition <;> simp only [placed, asPredicate, asValue, Bool.false_eq_true, if_true,
    if_false] <;> split
  · rfl
  · rw [hasSubquery_eq]
    simp [Expr.operands, Expr.isExists, Expr.hasSubquery, Expr.int, Expr.walk]
  · rfl
  · rw [hasSubquery_eq]
    simp [Expr.operands, Expr.isExists, Expr.hasSubquery, Expr.int, Expr.walk]

theorem isExists_coerced (e : Expr) : (e.coerced caps).isExists = e.isExists := by
  cases e <;> rfl

theorem hasSubquery_coerced (e : Expr) : (e.coerced caps).hasSubquery = e.hasSubquery := by
  have hall : Inherited (fun e => (e.coerced caps).hasSubquery = e.hasSubquery)
      (fun _ => True) := by
    refine ⟨?_, fun _ _ _ _ _ => trivial⟩
    intro e operands _
    rw [hasSubquery_eq (e.coerced caps), isExists_coerced, hasSubquery_eq e]
    cases hop : e.operator? with
    | none =>
      have hop' := (operator?_coerced caps e).trans hop
      rw [operands_of_operator?_eq_none hop, operands_of_operator?_eq_none hop']
    | some op =>
      by_cases hcase : ∃ b, op = .case b
      · obtain ⟨b, rfl⟩ := hcase
        cases e <;> cases hop
        rfl
      · rw [operands_coerced caps hop fun b hb => hcase ⟨b, hb⟩, List.any_map]
        congr 1
        rw [Bool.eq_iff_iff, List.any_eq_true, List.any_eq_true]
        refine exists_congr fun o => and_congr_right fun ho => ?_
        rw [Function.comp, Expr.standing, hasSubquery_placed, operands o ho]
  exact hall.of_expr e

end QueryLoom.Sql

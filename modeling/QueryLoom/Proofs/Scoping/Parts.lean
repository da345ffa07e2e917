/-
  QueryLoom/Proofs/Scoping/Parts.lean
  ===================================
  **The parts of an expression in the statement that it stands in.**  `Expr.parts` lists an
  expression and all expressions in it from left to right, like `walk`, but does not enter the
  statements of tests, because other rows are in scope there.

  A part refers to rows if it is a column, all columns or a test.  Renaming a source renames it in
  every part (`parts_rename`), and no coercion brings in parts that refer to rows.
-/
import QueryLoom.Proofs.Meaning.Scalar

namespace QueryLoom.Sql

mutual

/-- The expression and all expressions in it from left to right, statements left alone. -/
def Expr.parts (e : Expr) : List Expr :=
  e :: match e with
    | .column .. | .allColumns _ | .literal _ | .parameter _ | .keyword _ | .existsRow _ => []
    | .function _ args => partsList args
    | .trim _ chars? text => partsOption chars? ++ text.parts
    | .substring text start length? => text.parts ++ start.parts ++ partsOption length?
    | .extract _ operand => operand.parts
    | .cast operand _ => operand.parts
    | .position needle haystack => needle.parts ++ haystack.parts
    | .dateAdd amount _ operand => amount.parts ++ operand.parts
    | .atTimeZone operand _ => operand.parts
    | .binary left _ right => left.parts ++ right.parts
    | .unary _ operand => operand.parts
    | .isNull operand _ => operand.parts
    | .case whens otherwise? => partsWhens whens ++ partsOption otherwise?

/-- The parts of an expression that may be missing. -/
def partsOption : Option Expr → List Expr
  | none => []
  | some e => e.parts

/-- The parts of the expressions in a list. -/
def partsList : List Expr → List Expr
  | [] => []
  | e :: rest => e.parts ++ partsList rest

/-- The parts of the branches of a CASE. -/
def partsWhens : List When → List Expr
  | [] => []
  | ⟨condition, result⟩ :: rest => condition.parts ++ result.parts ++ partsWhens rest

end

/-- Whether the expression refers to rows by itself. -/
def Expr.isReference : Expr → Bool
  | .column .. | .allColumns _ | .existsRow _ => true
  | _ => false

theorem Expr.self_mem_parts (e : Expr) : e ∈ e.parts := by
  unfold Expr.parts
  exact List.mem_cons_self

theorem partsList_eq_flatMap (es : List Expr) : partsList es = es.flatMap Expr.parts := by
  induction es with
  | nil => rfl
  | cons e rest ih => rw [partsList, ih, List.flatMap_cons]

/-! ### Renaming -/

mutual

/-- Renaming a source renames it in every part. -/
theorem parts_rename (old new : String) :
    (e : Expr) → (e.rename old new).parts = e.parts.map (Expr.rename old new)
  | .column .. | .allColumns _ | .literal _ | .parameter _ | .keyword _ | .existsRow _ => rfl
  | .function _ args => by
    rw [Expr.rename, Expr.parts, Expr.parts, List.map_cons]
    simp only [partsList_rename old new args]
    rfl
  | .trim _ chars? text => by
    rw [Expr.rename, Expr.parts, Expr.parts, List.map_cons]
    simp only [partsOption_rename old new chars?, parts_rename old new text, List.map_append]
    rfl
  | .substring text start length? => by
    rw [Expr.rename, Expr.parts, Expr.parts, List.map_cons]
    simp only [partsOption_rename old new length?, parts_rename old new text,
      parts_rename old new start, List.map_append]
    rfl
  | .extract _ operand | .cast operand _ | .atTimeZone operand _ | .unary _ operand
  | .isNull operand _ => by
    rw [Expr.rename, Expr.parts, Expr.parts, List.map_cons]
    simp only [parts_rename old new operand]
    rfl
  | .position left right | .dateAdd left _ right | .binary left _ right => by
    rw [Expr.rename, Expr.parts, Expr.parts, List.map_cons]
    simp only [parts_rename old new left, parts_rename old new right, List.map_append]
    rfl
  | .case whens otherwise? => by
    rw [Expr.rename, Expr.parts, Expr.parts, List.map_cons]
    simp only [partsWhens_rename old new whens, partsOption_rename old new otherwise?,
      List.map_append]
    rfl

theorem partsOption_rename (old new : String) : (e? : Option Expr) →
    partsOption (renameOption old new e?) = (partsOption e?).map (Expr.rename old new)
  | none => rfl
  | some e => by rw [renameOption, partsOption, partsOption, parts_rename old new e]

theorem partsList_rename (old new : String) : (es : List Expr) →
    partsList (renameList old new es) = (partsList es).map (Expr.rename old new)
  | [] => rfl
  | e :: rest => by
    rw [renameList, partsList, partsList, parts_rename old new e, partsList_rename old new rest,
      List.map_append]

theorem partsWhens_rename (old new : String) : (ws : List When) →
    partsWhens (renameWhens old new ws) = (partsWhens ws).map (Expr.rename old new)
  | [] => rfl
  | ⟨condition, result⟩ :: rest => by
    rw [renameWhens, partsWhens, partsWhens, parts_rename old new condition,
      parts_rename old new result, partsWhens_rename old new rest, List.map_append,
      List.map_append]

end

/-! ### Walking -/

mutual

/-- The parts are walked in their order. -/
theorem parts_sublist_walk : (e : Expr) → e.parts.Sublist e.walk
  | .column .. | .allColumns _ | .literal _ | .parameter _ | .keyword _ => .refl _
  | .existsRow _ => by
    rw [Expr.parts, Expr.walk]
    exact (List.nil_sublist _).cons_cons _
  | .function _ args => by
    rw [Expr.parts, Expr.walk]
    exact (partsList_sublist_walk args).cons_cons _
  | .trim _ chars? text => by
    rw [Expr.parts, Expr.walk]
    exact ((partsOption_sublist_walk chars?).append (parts_sublist_walk text)).cons_cons _
  | .substring text start length? => by
    rw [Expr.parts, Expr.walk]
    exact (((parts_sublist_walk text).append (parts_sublist_walk start)).append
      (partsOption_sublist_walk length?)).cons_cons _
  | .extract _ operand | .cast operand _ | .atTimeZone operand _ | .unary _ operand
  | .isNull operand _ => by
    rw [Expr.parts, Expr.walk]
    exact (parts_sublist_walk operand).cons_cons _
  | .position left right | .dateAdd left _ right | .binary left _ right => by
    rw [Expr.parts, Expr.walk]
    exact ((parts_sublist_walk left).append (parts_sublist_walk right)).cons_cons _
  | .case whens otherwise? => by
    rw [Expr.parts, Expr.walk]
    exact ((partsWhens_sublist_walk whens).append
      (partsOption_sublist_walk otherwise?)).cons_cons _

theorem partsOption_sublist_walk : (e? : Option Expr) → (partsOption e?).Sublist (walkOption e?)
  | none => .refl _
  | some e => parts_sublist_walk e

theorem partsList_sublist_walk : (es : List Expr) → (partsList es).Sublist (walkList es)
  | [] => .refl _
  | e :: rest => (parts_sublist_walk e).append (partsList_sublist_walk rest)

theorem partsWhens_sublist_walk : (ws : List When) → (partsWhens ws).Sublist (walkWhens ws)
  | [] => .refl _
  | ⟨condition, result⟩ :: rest =>
    ((parts_sublist_walk condition).append (parts_sublist_walk result)).append
      (partsWhens_sublist_walk rest)

end

/-- An expression that holds no statement has no test among its parts. -/
theorem not_exists_of_hasSubquery {e : Expr} (h : e.hasSubquery = false) (rows : Select) :
    .existsRow rows ∉ e.parts := by
  intro hrows
  have hall := List.any_eq_false.mp h _ ((parts_sublist_walk e).subset hrows)
  exact hall rfl

/-! ### Operations -/

theorem mem_partsList {x : Expr} {es : List Expr} :
    x ∈ partsList es ↔ ∃ e ∈ es, x ∈ e.parts := by
  rw [partsList_eq_flatMap, List.mem_flatMap]

theorem mem_parts_of_asValue {caps : Capabilities} {e x : Expr} (hx : x ∈ (asValue caps e).parts)
    (href : x.isReference = true) : x ∈ e.parts := by
  unfold asValue at hx
  split at hx
  · exact hx
  · simp only [Expr.parts, Expr.int, partsWhens, partsOption, List.mem_cons, List.mem_append,
      List.not_mem_nil, or_false] at hx
    grind [Expr.isReference]

theorem mem_parts_of_asPredicate {caps : Capabilities} {e x : Expr}
    (hx : x ∈ (asPredicate caps e).parts) (href : x.isReference = true) : x ∈ e.parts := by
  unfold asPredicate at hx
  split at hx
  · exact hx
  · simp only [Expr.parts, Expr.int, List.mem_cons, List.mem_append, List.not_mem_nil,
      or_false] at hx
    grind [Expr.isReference]

end QueryLoom.Sql

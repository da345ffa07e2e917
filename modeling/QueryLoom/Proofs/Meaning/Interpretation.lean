/-
  QueryLoom/Proofs/Meaning/Interpretation.lean
  ============================================
  **What expressions mean.**  An `Interpretation` says what constants, parameters and operators
  stand for in some type of values; nothing is assumed of it but that equal constants have
  equal values.  With values for the columns in scope every SQL expression then has a value.

  A test for rows is no operator on values and has no value here.

    * `value_of_operator` — the value of an operator comes from the values of its operands;
    * `Expr.value_eq_of_agrees` — expressions that agree have the same value;
    * `Expr.value_rename` — renaming a source is reading the columns under the new name.
-/
import QueryLoom.Sql.Agreement
import QueryLoom.Proofs.Drafting.Outcome

namespace QueryLoom.Sql

/-! ### Interpretations -/

/-- What is left of an expression without its operands. -/
inductive Operator where
  | keyword (word : String)
  | function (name : String)
  | trim (side? : Option TrimSide) (hasChars : Bool)
  | substring (hasLength : Bool)
  | extract (part : DatePart)
  | cast (type : CastType)
  | position
  | dateAdd (part : DatePart)
  | atTimeZone (zone : String)
  | binary (op : BinaryOperator)
  | unary (op : UnaryOperator)
  | isNull (negated : Bool)
  | case (hasOtherwise : Bool)
deriving DecidableEq, Repr

/-- The meaning of constants, parameters and operators as values in `V`. -/
structure Interpretation (V : Type) where
  literal : Value → V
  parameter : Parameter → V
  operator : Operator → List V → V
  /-- The value of what has none. -/
  undefined : V
  literal_eq_of_agrees {v w : Value} (h : v.agrees w = true) : literal v = literal w

/-- The values of the columns in scope, by source and name. -/
abbrev Columns (V : Type) := String → String → V

variable {V : Type}

mutual

/-- The value of an expression. -/
def Expr.value (I : Interpretation V) (ρ : Columns V) : Expr → V
  | .column source name => ρ source name
  | .allColumns _ => I.undefined
  | .literal v => I.literal v
  | .parameter p => I.parameter p
  | .keyword w => I.operator (.keyword w) []
  | .function name args => I.operator (.function name) (listValues I ρ args)
  | .trim side? chars? text =>
    I.operator (.trim side? chars?.isSome) (optionValues I ρ chars? ++ [text.value I ρ])
  | .substring text start length? =>
    I.operator (.substring length?.isSome)
      (text.value I ρ :: start.value I ρ :: optionValues I ρ length?)
  | .extract part operand => I.operator (.extract part) [operand.value I ρ]
  | .cast operand type => I.operator (.cast type) [operand.value I ρ]
  | .position needle haystack => I.operator .position [needle.value I ρ, haystack.value I ρ]
  | .dateAdd amount part operand =>
    I.operator (.dateAdd part) [amount.value I ρ, operand.value I ρ]
  | .atTimeZone operand zone => I.operator (.atTimeZone zone) [operand.value I ρ]
  | .binary left op right => I.operator (.binary op) [left.value I ρ, right.value I ρ]
  | .unary op operand => I.operator (.unary op) [operand.value I ρ]
  | .isNull operand negated => I.operator (.isNull negated) [operand.value I ρ]
  | .case whens otherwise? =>
    I.operator (.case otherwise?.isSome) (whenValues I ρ whens ++ optionValues I ρ otherwise?)
  | .existsRow _ => I.undefined

/-- The value of an expression that may be missing, as a list of at most one. -/
def optionValues (I : Interpretation V) (ρ : Columns V) : Option Expr → List V
  | none => []
  | some e => [e.value I ρ]

/-- The values of expressions. -/
def listValues (I : Interpretation V) (ρ : Columns V) : List Expr → List V
  | [] => []
  | e :: rest => e.value I ρ :: listValues I ρ rest

/-- The values of conditions and results, in turn. -/
def whenValues (I : Interpretation V) (ρ : Columns V) : List When → List V
  | [] => []
  | ⟨condition, result⟩ :: rest => condition.value I ρ :: result.value I ρ :: whenValues I ρ rest

end

theorem listValues_eq_map (I : Interpretation V) (ρ : Columns V) (es : List Expr) :
    listValues I ρ es = es.map (Expr.value I ρ) := by
  induction es with
  | nil => rfl
  | cons e rest ih => rw [listValues, ih, List.map_cons]

theorem optionValues_eq_map (I : Interpretation V) (ρ : Columns V) (e? : Option Expr) :
    optionValues I ρ e? = e?.toList.map (Expr.value I ρ) := by
  cases e? <;> rfl

/-! ### Operators and operands -/

/-- The operator of an expression that has one. -/
def Expr.operator? : Expr → Option Operator
  | column .. | allColumns _ | literal _ | parameter _ | existsRow _ => none
  | keyword word => some (.keyword word)
  | function name _ => some (.function name)
  | trim side? chars? _ => some (.trim side? chars?.isSome)
  | substring _ _ length? => some (.substring length?.isSome)
  | extract part _ => some (.extract part)
  | cast _ type => some (.cast type)
  | position .. => some .position
  | dateAdd _ part _ => some (.dateAdd part)
  | atTimeZone _ zone => some (.atTimeZone zone)
  | binary _ op _ => some (.binary op)
  | unary op _ => some (.unary op)
  | isNull _ negated => some (.isNull negated)
  | case _ otherwise? => some (.case otherwise?.isSome)

/-- The operands of an expression, in the order in which the operator takes them. -/
def Expr.operands : Expr → List Expr
  | column .. | allColumns _ | literal _ | parameter _ | existsRow _ | keyword _ => []
  | function _ args => args
  | trim _ chars? text => chars?.toList ++ [text]
  | substring text start length? => text :: start :: length?.toList
  | extract _ operand | cast operand _ | atTimeZone operand _ | unary _ operand
  | isNull operand _ => [operand]
  | position left right | dateAdd left _ right | binary left _ right => [left, right]
  | case whens otherwise? =>
    whens.flatMap (fun w => [w.condition, w.result]) ++ otherwise?.toList

theorem operands_of_operator?_eq_none {e : Expr} (h : e.operator? = none) : e.operands = [] := by
  cases e <;> first | rfl | cases h

/-- The value of an operator comes from the values of its operands. -/
theorem value_of_operator (I : Interpretation V) (ρ : Columns V) {e : Expr}
    {op : Operator} (h : e.operator? = some op) :
    e.value I ρ = I.operator op (e.operands.map (Expr.value I ρ)) := by
  have hwhens : ∀ ws : List When, whenValues I ρ ws
      = (ws.flatMap fun w => [w.condition, w.result]).map (Expr.value I ρ) := by
    intro ws
    induction ws with
    | nil => rfl
    | cons w rest ih =>
      rcases w with ⟨condition, result⟩
      simp [whenValues, ih]
  cases e <;> cases h <;>
    simp [Expr.value, Expr.operands, listValues_eq_map, optionValues_eq_map, hwhens]

/-! ### Agreement and renaming -/

mutual

/-- Expressions that agree have the same value. -/
theorem Expr.value_eq_of_agrees (I : Interpretation V) (ρ : Columns V) {e e' : Expr}
    (h : e.agrees e' = true) : e.value I ρ = e'.value I ρ := by
  cases e <;> cases e' <;>
    simp only [Expr.agrees, Bool.and_eq_true, beq_iff_eq, Bool.false_eq_true] at h
  case column.column => rw [Expr.value, Expr.value, h.1, h.2]
  case allColumns.allColumns => rfl
  case literal.literal => exact I.literal_eq_of_agrees h
  case parameter.parameter => rw [h]
  case keyword.keyword => rw [h]
  case function.function =>
    rw [Expr.value, Expr.value, h.1, listValues_eq_of_agree I ρ h.2]
  case trim.trim =>
    have hchars := optionValues_eq_of_agree I ρ h.1.2
    rw [Expr.value, Expr.value, h.1.1, hchars.1, hchars.2, Expr.value_eq_of_agrees I ρ h.2]
  case substring.substring =>
    have hlength := optionValues_eq_of_agree I ρ h.2
    rw [Expr.value, Expr.value, hlength.1, hlength.2, Expr.value_eq_of_agrees I ρ h.1.1,
      Expr.value_eq_of_agrees I ρ h.1.2]
  case extract.extract => rw [Expr.value, Expr.value, h.1, Expr.value_eq_of_agrees I ρ h.2]
  case cast.cast => rw [Expr.value, Expr.value, h.2, Expr.value_eq_of_agrees I ρ h.1]
  case position.position =>
    rw [Expr.value, Expr.value, Expr.value_eq_of_agrees I ρ h.1, Expr.value_eq_of_agrees I ρ h.2]
  case dateAdd.dateAdd =>
    rw [Expr.value, Expr.value, h.1.2, Expr.value_eq_of_agrees I ρ h.1.1,
      Expr.value_eq_of_agrees I ρ h.2]
  case atTimeZone.atTimeZone =>
    rw [Expr.value, Expr.value, h.2, Expr.value_eq_of_agrees I ρ h.1]
  case binary.binary =>
    rw [Expr.value, Expr.value, h.1.2, Expr.value_eq_of_agrees I ρ h.1.1,
      Expr.value_eq_of_agrees I ρ h.2]
  case unary.unary => rw [Expr.value, Expr.value, h.1, Expr.value_eq_of_agrees I ρ h.2]
  case isNull.isNull => rw [Expr.value, Expr.value, h.2, Expr.value_eq_of_agrees I ρ h.1]
  case case.case =>
    have hotherwise := optionValues_eq_of_agree I ρ h.2
    rw [Expr.value, Expr.value, whenValues_eq_of_agree I ρ h.1, hotherwise.1, hotherwise.2]
  case existsRow.existsRow => rfl
termination_by structural e

theorem optionValues_eq_of_agree (I : Interpretation V) (ρ : Columns V) {e? e'? : Option Expr}
    (h : agreeOption e? e'? = true) :
    e?.isSome = e'?.isSome ∧ optionValues I ρ e? = optionValues I ρ e'? := by
  cases e? <;> cases e'? <;> simp only [agreeOption, Bool.false_eq_true] at h
  case none.none => exact ⟨rfl, rfl⟩
  case some.some => exact ⟨rfl, by rw [optionValues, optionValues, Expr.value_eq_of_agrees I ρ h]⟩
termination_by structural e?

theorem listValues_eq_of_agree (I : Interpretation V) (ρ : Columns V) {es es' : List Expr}
    (h : agreeList es es' = true) : listValues I ρ es = listValues I ρ es' := by
  cases es <;> cases es' <;>
    simp only [agreeList, Bool.and_eq_true, Bool.false_eq_true] at h
  case nil.nil => rfl
  case cons.cons =>
    rw [listValues, listValues, Expr.value_eq_of_agrees I ρ h.1, listValues_eq_of_agree I ρ h.2]
termination_by structural es

theorem whenValues_eq_of_agree (I : Interpretation V) (ρ : Columns V) {ws ws' : List When}
    (h : agreeWhens ws ws' = true) : whenValues I ρ ws = whenValues I ρ ws' := by
  rcases ws with _ | ⟨⟨c, r⟩, ws⟩ <;> rcases ws' with _ | ⟨⟨c', r'⟩, ws'⟩ <;>
    simp only [agreeWhens, Bool.and_eq_true, Bool.false_eq_true] at h
  · rfl
  · rw [whenValues, whenValues, Expr.value_eq_of_agrees I ρ h.1.1,
      Expr.value_eq_of_agrees I ρ h.1.2, whenValues_eq_of_agree I ρ h.2]
termination_by structural ws

end

/-- The columns as they are read where the source `old` is called `new`. -/
def Columns.renamed (ρ : Columns V) (old new : String) : Columns V :=
  fun source name => ρ (Sql.renamed old new source) name

theorem isSome_rename (old new : String) (e? : Option Expr) :
    (renameOption old new e?).isSome = e?.isSome := by
  cases e? <;> rfl

mutual

/-- To rename a source is to read its columns under the new name. -/
theorem Expr.value_rename (I : Interpretation V) (ρ : Columns V) (old new : String) :
    (e : Expr) → (e.rename old new).value I ρ = e.value I (ρ.renamed old new)
  | .column .. | .allColumns _ | .literal _ | .parameter _ | .keyword _ | .existsRow _ => rfl
  | .function _ args => by
    rw [Expr.rename, Expr.value, Expr.value, listValues_rename I ρ old new args]
  | .trim _ chars? text => by
    rw [Expr.rename, Expr.value, Expr.value, isSome_rename, optionValues_rename I ρ old new chars?,
      Expr.value_rename I ρ old new text]
  | .substring text start length? => by
    rw [Expr.rename, Expr.value, Expr.value, isSome_rename, optionValues_rename I ρ old new length?,
      Expr.value_rename I ρ old new text, Expr.value_rename I ρ old new start]
  | .extract _ operand | .cast operand _ | .atTimeZone operand _ | .unary _ operand
  | .isNull operand _ => by
    rw [Expr.rename, Expr.value, Expr.value, Expr.value_rename I ρ old new operand]
  | .position left right | .dateAdd left _ right | .binary left _ right => by
    rw [Expr.rename, Expr.value, Expr.value, Expr.value_rename I ρ old new left,
      Expr.value_rename I ρ old new right]
  | .case whens otherwise? => by
    rw [Expr.rename, Expr.value, Expr.value, isSome_rename, whenValues_rename I ρ old new whens,
      optionValues_rename I ρ old new otherwise?]

theorem optionValues_rename (I : Interpretation V) (ρ : Columns V) (old new : String) :
    (e? : Option Expr) →
      optionValues I ρ (renameOption old new e?) = optionValues I (ρ.renamed old new) e?
  | none => rfl
  | some e => by rw [renameOption, optionValues, optionValues, Expr.value_rename I ρ old new e]

theorem listValues_rename (I : Interpretation V) (ρ : Columns V) (old new : String) :
    (es : List Expr) →
      listValues I ρ (renameList old new es) = listValues I (ρ.renamed old new) es
  | [] => rfl
  | e :: rest => by
    rw [renameList, listValues, listValues, Expr.value_rename I ρ old new e,
      listValues_rename I ρ old new rest]

theorem whenValues_rename (I : Interpretation V) (ρ : Columns V) (old new : String) :
    (ws : List When) →
      whenValues I ρ (renameWhens old new ws) = whenValues I (ρ.renamed old new) ws
  | [] => rfl
  | ⟨condition, result⟩ :: rest => by
    rw [renameWhens, whenValues, whenValues, Expr.value_rename I ρ old new condition,
      Expr.value_rename I ρ old new result, whenValues_rename I ρ old new rest]

end

end QueryLoom.Sql

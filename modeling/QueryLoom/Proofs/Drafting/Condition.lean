/-
  QueryLoom/Proofs/Drafting/Condition.lean
  ========================================
  **Which operations become conditions.**  The methods that ask a question about a text give a truth
  value, and their templates make conditions.  No other method and no property does.

    * `Mapping.isPredicate_of_apply` — an operation is a condition if its method is a test.
-/
import QueryLoom.Proofs.Drafting.Sorts
import QueryLoom.Proofs.Meaning.Operands

namespace QueryLoom

/-- Whether the method gives a truth value. -/
def Method.isTest : Method → Bool
  | .contains | .startsWith | .endsWith | .isNullOrEmpty | .isNullOrWhiteSpace => true
  | _ => false

/-- Whether the operation gives a truth value. -/
def Operation.isTest : Operation → Bool
  | .method m => m.isTest
  | .property _ => false

end QueryLoom

namespace QueryLoom.Sql

/-- What a template makes has an operator, and is a condition if the template says so. -/
theorem Template.isPredicate_of_build? {t : Template} {es : List Expr} {e : Expr}
    (h : t.build? es = some e) :
    (∃ op, e.operator? = some op) ∧ e.isPredicate = t.isCondition := by
  cases Template.build?_eq_some_iff.mp h <;> exact ⟨⟨_, rfl⟩, rfl⟩

/-- The mapping that is found has the operation that was looked for. -/
theorem Mapping.operation_of_find {op : Operation} {arity : Nat} {x : Mapping}
    (h : Mapping.find op arity = .ok x) : x.operation = op := by
  unfold Mapping.find at h
  cases hx : Mapping.find? op arity with
  | none => rw [hx] at h; cases h
  | some y =>
    rw [hx] at h
    cases h
    have := List.find?_some hx
    simp only [Bool.and_eq_true, beq_iff_eq] at this
    exact this.1

/-- The templates that give conditions are those of the methods that do. -/
theorem Mapping.isTest_operation :
    ∀ x ∈ Mapping.all, x.operation.isTest = x.template.isCondition := by
  decide

/-- An operation is a condition if it is a test. -/
theorem Mapping.isPredicate_of_apply {op : Operation} {arity : Nat} {x : Mapping}
    {caps : Capabilities} {receiver? : Option Expr} {args : List Expr} {e : Expr}
    (hx : Mapping.find op arity = .ok x) (h : x.apply caps receiver? args = .ok e) :
    (∃ op', e.operator? = some op') ∧ e.isPredicate = op.isTest := by
  obtain ⟨_, built, _, hbuilt, rfl⟩ := Mapping.apply_eq_ok h
  obtain ⟨hoperator, hpredicate⟩ := Template.isPredicate_of_build? hbuilt
  have hmem := Mapping.mem_of_find hx
  have hcomputes := Mapping.isCondition_template x hmem
  rw [← Mapping.operation_of_find hx, Mapping.isTest_operation x hmem]
  cases ha : x.adjustment <;> rw [ha] at hcomputes
  case none | oneBasedStart => exact ⟨hoperator, hpredicate⟩
  all_goals exact ⟨⟨_, rfl⟩, (hcomputes rfl).symm⟩

end QueryLoom.Sql

/-
  QueryLoom/Proofs/Truth/Datum.lean
  =================================
  **Truth values on servers with and without a type for them.**  A `Datum` is NULL, a truth value
  or another value.  A `Dialect` says what a server computes with other values; the logic is that
  of SQL, with three truth values, where NULL is the unknown one.

  `Dialect.newer` is the meaning of expressions on a server with Booleans.  On a server without,
  `Dialect.older`, conditions have truth values too, but nothing else has: TRUE is stored as one
  and FALSE as zero, in tables, constants and parameters.  The operators are the same.

    * `Datum.fits_operator` — a condition has a truth value and other operators have other values;
    * `compares_stored`, `inOrder_stored` — stored truth values compare as truth values do.
-/
import QueryLoom.Proofs.Meaning.Server
import QueryLoom.Proofs.Truth.Typing

namespace QueryLoom.Sql

/-! ### Values -/

/-- NULL, a truth value or another value. -/
inductive Datum (U : Type) where
  | null
  | truth (b : Bool)
  | other (u : U)
deriving DecidableEq, Repr

namespace Datum

variable {U : Type}

/-- The truth value, if there is one. -/
def truth? : Datum U → Option Bool
  | truth b => some b
  | _ => none

/-- Whether there is no value. -/
def isNull : Datum U → Bool
  | null => true
  | _ => false

/-- The datum of a truth value that may be unknown. -/
def ofTruth? : Option Bool → Datum U
  | some b => truth b
  | none => null

/-- The datum of another value that may be missing. -/
def ofOther? : Option U → Datum U
  | some u => other u
  | none => null

/-- The datum is NULL or a value of the kind. -/
def Fits : Kind → Datum U → Prop
  | _, null => True
  | .truth, truth _ => True
  | .other, other _ => True
  | _, _ => False

theorem fits_null (k : Kind) : (null : Datum U).Fits k := by
  cases k <;> trivial

end Datum

/-! ### Logic -/

/-- Neither is known to be false, and both are known to be true. -/
def conjunction : Option Bool → Option Bool → Option Bool
  | some false, _ => some false
  | _, some false => some false
  | some true, some true => some true
  | _, _ => none

/-- One is known to be true, or both are known to be false. -/
def disjunction : Option Bool → Option Bool → Option Bool
  | some true, _ => some true
  | _, some true => some true
  | some false, some false => some false
  | _, _ => none

/-- How truth values compare, FALSE being less than TRUE. -/
def BinaryOperator.relatesTruths : BinaryOperator → Bool → Bool → Bool
  | .equal, a, b => a == b
  | .notEqual, a, b => a != b
  | .less, a, b => !a && b
  | .lessOrEqual, a, b => !a || b
  | .greater, a, b => a && !b
  | .greaterOrEqual, a, b => a || !b
  | _, _, _ => false

/-- Whether the operator gives a condition. -/
def Operator.isCondition : Operator → Bool
  | .binary op => op.isPredicate
  | .unary op => op == .not
  | .isNull _ => true
  | _ => false

/-! ### Dialects -/

/-- What servers compute with values that are neither NULL nor truth values. -/
structure Dialect (U : Type) where
  /-- The value of a constant that is neither NULL nor a truth value. -/
  constant : Value → U
  constant_eq_of_agrees {v w : Value} (h : v.agrees w = true) : constant v = constant w
  /-- The value that is bound to a parameter. -/
  parameter : Parameter → Datum U
  parameter_fits (p : Parameter) : (parameter p).Fits (.ofCondition (p.type == .boolean))
  /-- The result of an operator that gives no condition, if it is not NULL. -/
  operation : Operator → List (Datum U) → Option U
  /-- How two values compare. -/
  relates : BinaryOperator → U → U → Bool
  /-- The number of rows that a parameter stands for. -/
  count : Parameter → Nat
  /-- Whether the first value comes no later than the second. -/
  atMost : U → U → Bool
  atMost_total (u v : U) : atMost u v = true ∨ atMost v u = true
  atMost_trans {u v w : U} (huv : atMost u v = true) (hvw : atMost v w = true) : atMost u w = true
  /-- One and zero compare as TRUE and FALSE do. -/
  relates_bits {op : BinaryOperator} (hop : op.isComparison = true) (a b : Bool) :
    relates op (constant (.int32 a.toInt32)) (constant (.int32 b.toInt32)) = op.relatesTruths a b
  atMost_bits (a b : Bool) :
    atMost (constant (.int32 a.toInt32)) (constant (.int32 b.toInt32)) = (!a || b)

namespace Dialect

variable {U : Type} (D : Dialect U)

/-- The number that stands for a truth value. -/
def bit (b : Bool) : U := D.constant (.int32 b.toInt32)

/-- A datum as a server without Booleans stores it. -/
def stored : Datum U → Datum U
  | .truth b => .other (D.bit b)
  | .null => .null
  | .other u => .other u

/-- How two data compare.  A comparison with NULL is unknown. -/
def compares (op : BinaryOperator) : Datum U → Datum U → Option Bool
  | .truth a, .truth b => some (op.relatesTruths a b)
  | .other u, .other v => some (D.relates op u v)
  | _, _ => none

/-- The truth value of a condition. -/
def truthOf : Operator → List (Datum U) → Option Bool
  | .binary .and, [v, w] => conjunction v.truth? w.truth?
  | .binary .or, [v, w] => disjunction v.truth? w.truth?
  | .binary op, [v, w] => D.compares op v w
  | .unary .not, [v] => v.truth?.map not
  | .isNull negated, [v] => some (v.isNull != negated)
  | _, _ => none

/-- The result of the first branch whose condition is true. -/
def choice : Bool → List (Datum U) → Datum U
  | hasOtherwise, condition :: result :: rest =>
    if condition.truth? = some true then result else choice hasOtherwise rest
  | true, [otherwise] => otherwise
  | _, _ => .null

/-- What an operator gives. -/
def operator (op : Operator) (vs : List (Datum U)) : Datum U :=
  match op with
  | .case hasOtherwise => choice hasOtherwise vs
  | op => if op.isCondition then .ofTruth? (D.truthOf op vs) else .ofOther? (D.operation op vs)

/-- Whether the first datum comes no later than the second, NULL being the first of all. -/
def leads : Datum U → Datum U → Bool
  | .null, _ => true
  | .truth a, .truth b => !a || b
  | .truth _, .other _ => true
  | .other u, .other v => D.atMost u v
  | _, _ => false

/-- Whether a row with the first datum as a key may stand before one with the second. -/
def precedes : Direction → Datum U → Datum U → Bool
  | .ascending, v, w => D.leads v w
  | .descending, v, w => D.leads w v

theorem leads_total (v w : Datum U) : D.leads v w = true ∨ D.leads w v = true := by
  cases v <;> cases w <;> simp only [leads, or_true, true_or]
  case truth.truth a b => cases a <;> cases b <;> decide
  case other.other u v => exact D.atMost_total u v

theorem leads_trans {u v w : Datum U} (huv : D.leads u v = true) (hvw : D.leads v w = true) :
    D.leads u w = true := by
  cases u <;> cases v <;> cases w <;> first
    | rfl
    | exact absurd huv Bool.false_ne_true
    | exact absurd hvw Bool.false_ne_true
    | skip
  case truth.truth.truth a b c => cases a <;> cases b <;> cases c <;> simp_all [leads]
  case other.other.other => exact D.atMost_trans huv hvw

/-- The meaning of a constant on a server with Booleans. -/
def literal : Value → Datum U
  | .null => .null
  | .boolean b => .truth b
  | v => .other (D.constant v)

theorem literal_eq_of_agrees {v w : Value} (h : v.agrees w = true) : D.literal v = D.literal w := by
  cases v <;> cases w <;> first
    | exact congrArg Datum.other (D.constant_eq_of_agrees h)
    | simp_all [Value.agrees]

/-- What expressions mean on a server with Booleans. -/
def newer : Engine (Datum U) where
  literal := D.literal
  parameter := D.parameter
  operator := D.operator
  undefined := .null
  literal_eq_of_agrees := D.literal_eq_of_agrees
  holds v := v.truth? == some true
  count := D.count
  precedes := D.precedes
  precedes_total d v w := by
    cases d
    · exact D.leads_total v w
    · exact (D.leads_total v w).symm
  precedes_trans {d} u v w := by
    cases d
    · exact D.leads_trans
    · exact fun huv hvw => D.leads_trans hvw huv

/-- What expressions mean on a server without Booleans. -/
def older : Engine (Datum U) :=
  { D.newer with
    literal := fun v => D.stored (D.literal v)
    parameter := fun p => D.stored (D.parameter p)
    literal_eq_of_agrees := fun h => congrArg D.stored (D.literal_eq_of_agrees h) }

/-! ### Kinds -/

theorem isCondition_eq {e : Expr} {op : Operator} (hop : e.operator? = some op) :
    op.isCondition = e.isPredicate := by
  cases e <;> cases hop <;> rfl

theorem fits_operator {op : Operator} (hcase : ∀ b, op ≠ .case b) (vs : List (Datum U)) :
    (D.operator op vs).Fits (.ofCondition op.isCondition) := by
  have hop : D.operator op vs = if op.isCondition then .ofTruth? (D.truthOf op vs)
      else .ofOther? (D.operation op vs) := by
    cases op <;> first
      | rfl
      | exact absurd rfl (hcase _)
  rw [hop]
  cases op.isCondition with
  | true => cases D.truthOf op vs <;> trivial
  | false => cases hresult : D.operation op vs <;> simp [Datum.ofOther?, Datum.Fits, Kind.ofCondition]

theorem fits_literal (v : Value) : (D.literal v).Fits (.ofCondition (v.type == .boolean)) := by
  cases v <;> trivial

/-! ### Storing -/

@[simp] theorem stored_null : D.stored .null = .null := rfl

theorem stored_of_fits_other {v : Datum U} (h : v.Fits .other) : D.stored v = v := by
  cases v <;> first
    | rfl
    | cases h

@[simp] theorem isNull_stored (v : Datum U) : (D.stored v).isNull = v.isNull := by
  cases v <;> rfl

/-- Stored truth values compare as truth values do. -/
theorem compares_stored {op : BinaryOperator} (hop : op.isComparison = true) {v w : Datum U}
    {k : Kind} (hv : v.Fits k) (hw : w.Fits k) :
    D.compares op (D.stored v) (D.stored w) = D.compares op v w := by
  cases v <;> cases w <;> cases k <;> first
    | rfl
    | exact False.elim hv
    | exact False.elim hw
    | exact congrArg some (D.relates_bits hop _ _)

theorem leads_stored {v w : Datum U} {k : Kind} (hv : v.Fits k) (hw : w.Fits k) :
    D.leads (D.stored v) (D.stored w) = D.leads v w := by
  cases v <;> cases w <;> cases k <;> first
    | rfl
    | exact False.elim hv
    | exact False.elim hw
    | exact D.atMost_bits _ _

theorem precedes_stored (d : Direction) {v w : Datum U} {k : Kind} (hv : v.Fits k)
    (hw : w.Fits k) : D.precedes d (D.stored v) (D.stored w) = D.precedes d v w := by
  cases d
  · exact D.leads_stored hv hw
  · exact D.leads_stored hw hv

/-- Rows with stored keys are ordered as rows with the keys are. -/
theorem inOrder_stored {α : Type} (kind : α → Kind) (ds : List Direction) {as : List α}
    {f g : α → Datum U} (hf : ∀ a ∈ as, (f a).Fits (kind a)) (hg : ∀ a ∈ as, (g a).Fits (kind a)) :
    D.older.inOrder ds (as.map fun a => D.stored (f a)) (as.map fun a => D.stored (g a))
      = D.newer.inOrder ds (as.map f) (as.map g) := by
  induction as generalizing ds with
  | nil => cases ds <;> rfl
  | cons a as ih =>
    cases ds with
    | nil => rfl
    | cons d ds =>
      rw [List.forall_mem_cons] at hf hg
      simp only [List.map_cons, Engine.inOrder, ih ds hf.2 hg.2]
      have hfg : D.older.precedes d (D.stored (f a)) (D.stored (g a))
          = D.newer.precedes d (f a) (g a) := D.precedes_stored d hf.1 hg.1
      have hgf : D.older.precedes d (D.stored (g a)) (D.stored (f a))
          = D.newer.precedes d (g a) (f a) := D.precedes_stored d hg.1 hf.1
      rw [hfg, hgf]

/-- An operator that joins no conditions gives the same on stored operands. -/
theorem operator_stored {τ : Columns Kind} {op : Operator} {os : List Expr}
    (htakes : op.takes τ os = true) (hjoins : op.joinsConditions = false) {f : Expr → Datum U}
    (hfits : ∀ o ∈ os, (f o).Fits (o.kind τ))
    (hnull : ∀ o ∈ os, o.isNullLiteral = true → f o = .null) :
    D.operator op (os.map fun o => D.stored (f o)) = D.operator op (os.map f) := by
  have hother : ∀ o ∈ os, o.passes τ .other = true → D.stored (f o) = f o := by
    intro o ho hpass
    rw [Expr.passes, Bool.or_eq_true, beq_iff_eq] at hpass
    rcases hpass with hpass | hpass
    · rw [hnull o ho hpass]
      rfl
    · exact D.stored_of_fits_other (hpass ▸ hfits o ho)
  have hall : os.all (Expr.passes τ .other) = true →
      (os.map fun o => D.stored (f o)) = os.map f := by
    intro h
    exact List.map_congr_left fun o ho => hother o ho (List.all_eq_true.mp h o ho)
  cases op with
  | binary op =>
    by_cases hop : op.isComparison = true
    · rw [Operator.takes, if_pos hop] at htakes
      obtain ⟨l, r, rfl⟩ : ∃ l r, os = [l, r] := by
        rcases os with _ | ⟨l, _ | ⟨r, _ | _⟩⟩ <;> first
          | exact ⟨_, _, rfl⟩
          | cases htakes
      have hpredicate : op.isPredicate = true := by
        cases op <;> first
          | rfl
          | cases hop
      have hcompares : D.compares op (D.stored (f l)) (D.stored (f r))
          = D.compares op (f l) (f r) := by
        simp only [comparable, Bool.and_eq_true, Bool.or_eq_true, beq_iff_eq] at htakes
        rcases htakes.1 with (hl | hr) | hkind
        · rw [hnull l (by simp) hl]
          cases f r <;> rfl
        · rw [hnull r (by simp) hr]
          cases f l <;> rfl
        · exact D.compares_stored hop (hfits l (by simp)) (hkind ▸ hfits r (by simp))
      have htruth : D.truthOf (.binary op) [D.stored (f l), D.stored (f r)]
          = D.truthOf (.binary op) [f l, f r] := by
        cases op <;> first
          | exact hcompares
          | cases hop
      simp only [List.map_cons, List.map_nil, operator, htruth, Operator.isCondition, hpredicate,
        if_true]
    · have hkind : os.all (Expr.passes τ .other) = true := by
        rw [Operator.takes, if_neg hop, show op.isLogical = false from hjoins] at htakes
        exact htakes
      rw [hall hkind]
  | unary op =>
    have hkind : os.all (Expr.passes τ .other) = true := by
      rw [Operator.takes, show (op == .not) = false from hjoins] at htakes
      exact htakes
    rw [hall hkind]
  | isNull negated =>
    rcases os with _ | ⟨o, _ | _⟩
    · rfl
    · simp only [List.map_cons, List.map_nil, operator, truthOf, isNull_stored,
        Operator.isCondition, if_true]
    · rfl
  | case => cases htakes
  | _ => rw [hall htakes]

/-! ### A server -/

/-- A server with Booleans that delivers rows in the order of the table. -/
def newServer (tables : Database (Datum U)) : Server (Datum U) where
  toEngine := D.newer
  truth := .truth
  holds_truth b := by cases b <;> rfl
  tables := tables
  arrive _ _ rows := rows
  arrive_perm _ _ _ := .refl _
  arrive_eq_of_agrees _ := rfl

theorem getD_integer?_of_agrees {v w : Value} (h : v.agrees w = true) :
    v.integer?.getD 0 = w.integer?.getD 0 := by
  rw [integer?_eq_of_agrees h]

/-- Integers, with nothing computed but their comparisons. -/
def integers : Dialect Int where
  constant v := v.integer?.getD 0
  constant_eq_of_agrees := @getD_integer?_of_agrees
  parameter _ := .null
  parameter_fits _ := Datum.fits_null _
  operation _ _ := none
  relates
    | .equal, a, b => a == b
    | .notEqual, a, b => a != b
    | .less, a, b => a < b
    | .lessOrEqual, a, b => a ≤ b
    | .greater, a, b => b < a
    | .greaterOrEqual, a, b => b ≤ a
    | _, _, _ => false
  count _ := 0
  atMost a b := a ≤ b
  atMost_total a b := by
    simp only [decide_eq_true_eq]
    exact Int.le_total a b
  atMost_trans huv hvw := by
    simp only [decide_eq_true_eq] at *
    exact Int.le_trans huv hvw
  relates_bits {op} hop a b := by
    cases op <;> first
      | cases hop; done
      | (cases a <;> cases b <;> rfl)
  atMost_bits a b := by cases a <;> cases b <;> rfl

end Dialect

end QueryLoom.Sql

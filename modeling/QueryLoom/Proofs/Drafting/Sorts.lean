/-
  QueryLoom/Proofs/Drafting/Sorts.lean
  ====================================
  **Conditions and values where there are no Booleans.**  A server without the type takes a
  condition only where rows or branches are chosen and between AND, OR and NOT, and a value
  everywhere else.  `Expr.fits` says that an expression is of the sort that its place demands,
  and so is everything in it, down through derived tables and tests.

  Drafting turns one sort into the other wherever an expression is put into a place.  Operations
  take values; some of them give conditions, but none that is adjusted afterwards, so an adjusted
  result is computed from a value.

    * `fits_of_ofQuery` — in the statement for a server without Booleans everything is of the
      sort that its place demands.
-/
import QueryLoom.Proofs.Drafting.Invariant

namespace QueryLoom.Sql

/-- The operators between two conditions. -/
def BinaryOperator.isLogical : BinaryOperator → Bool
  | and | or => true
  | _ => false

mutual

/-- Whether the expression is a condition, or is none, as its place demands, and everything in
    it is of the sort that its place demands. -/
def Expr.fits (e : Expr) (condition : Bool) : Bool :=
  e.isPredicate == condition && match e with
    | .column .. | .allColumns _ | .literal _ | .parameter _ | .keyword _ => true
    | .function _ args => listFits args
    | .trim _ chars? text => optionFits chars? && text.fits false
    | .substring text start length? => text.fits false && start.fits false && optionFits length?
    | .extract _ operand => operand.fits false
    | .cast operand _ => operand.fits false
    | .position needle haystack => needle.fits false && haystack.fits false
    | .dateAdd amount _ operand => amount.fits false && operand.fits false
    | .atTimeZone operand _ => operand.fits false
    | .binary left op right => left.fits op.isLogical && right.fits op.isLogical
    | .unary op operand => operand.fits (op == .not)
    | .isNull operand _ => operand.fits false
    | .case whens otherwise? => whensFit whens && optionFits otherwise?
    | .existsRow rows => rows.fits

/-- Whether an expression that may be missing fits as a value. -/
def optionFits : Option Expr → Bool
  | none => true
  | some e => e.fits false

/-- Whether the expressions in a list fit as values. -/
def listFits : List Expr → Bool
  | [] => true
  | e :: rest => e.fits false && listFits rest

/-- Whether the branches of a CASE choose values by conditions. -/
def whensFit : List When → Bool
  | [] => true
  | ⟨condition, result⟩ :: rest => condition.fits true && result.fits false && whensFit rest

/-- Whether the statement keeps rows by conditions and has values in its other clauses. -/
def Select.fits : Select → Bool
  | ⟨columns, origin, conditions, ordering, window?⟩ =>
    columnsFit columns && origin.fits && conditionsFit conditions && keysFit ordering
      && windowFits window?

/-- Whether the selected columns fit as values. -/
def columnsFit : List Column → Bool
  | [] => true
  | ⟨e, _⟩ :: rest => e.fits false && columnsFit rest

/-- Whether the statement that rows come from fits. -/
def Origin.fits : Origin → Bool
  | .table .. | .singleRow => true
  | .derived rows _ => rows.fits

/-- Whether the expressions in a list fit as conditions. -/
def conditionsFit : List Expr → Bool
  | [] => true
  | e :: rest => e.fits true && conditionsFit rest

/-- Whether the keys of an ordering fit as values. -/
def keysFit : List OrderKey → Bool
  | [] => true
  | ⟨e, _⟩ :: rest => e.fits false && keysFit rest

/-- Whether the bounds of a window fit as values. -/
def windowFits : Option Window → Bool
  | none => true
  | some ⟨lower, upper?⟩ => lower.fits false && optionFits upper?

end

/-- Whether everything in the expression is of the sort that its place demands. -/
def Expr.isSorted (e : Expr) : Bool := e.fits e.isPredicate

/-! ### Lists -/

theorem isPredicate_of_fits {e : Expr} {condition : Bool} (h : e.fits condition = true) :
    e.isPredicate = condition := by
  unfold Expr.fits at h
  exact beq_iff_eq.mp (Bool.and_eq_true_iff.mp h).1

theorem Expr.isSorted_of_fits {e : Expr} {condition : Bool} (h : e.fits condition = true) :
    e.isSorted = true := by
  rw [Expr.isSorted, isPredicate_of_fits h]
  exact h

theorem listFits_iff {es : List Expr} :
    listFits es = true ↔ ∀ e ∈ es, e.fits false = true := by
  induction es with
  | nil => simp [listFits]
  | cons e rest ih => simp [listFits, ih]

theorem optionFits_iff {e? : Option Expr} :
    optionFits e? = true ↔ ∀ e ∈ e?, e.fits false = true := by
  cases e? <;> simp [optionFits]

theorem columnsFit_iff {cs : List Column} :
    columnsFit cs = true ↔ ∀ c ∈ cs, c.expr.fits false = true := by
  induction cs with
  | nil => simp [columnsFit]
  | cons c rest ih =>
    rcases c with ⟨e, alias?⟩
    simp [columnsFit, ih]

theorem conditionsFit_iff {es : List Expr} :
    conditionsFit es = true ↔ ∀ e ∈ es, e.fits true = true := by
  induction es with
  | nil => simp [conditionsFit]
  | cons e rest ih => simp [conditionsFit, ih]

theorem keysFit_iff {keys : List OrderKey} :
    keysFit keys = true ↔ ∀ k ∈ keys, k.expr.fits false = true := by
  induction keys with
  | nil => simp [keysFit]
  | cons k rest ih =>
    rcases k with ⟨e, direction⟩
    simp [keysFit, ih]

theorem originFits_iff {o : Origin} :
    o.fits = true ↔ ∀ rows source, o = .derived rows source → rows.fits = true := by
  cases o <;> simp [Origin.fits]

theorem windowFits_iff {w? : Option Window} :
    windowFits w? = true ↔
      ∀ w ∈ w?, w.lower.fits false = true ∧ ∀ e ∈ w.upper?, e.fits false = true := by
  rcases w? with _ | ⟨lower, upper?⟩
  · simp [windowFits]
  · simp [windowFits, optionFits_iff]

/-- A statement fits when its conditions fit as such and its other expressions as values. -/
theorem Select.fits_of_consists {s : Select}
    (h : s.Consists (fun e => e.fits false = true) (fun e => e.fits true = true)
      (fun rows => rows.fits = true)) : s.fits = true := by
  rcases s with ⟨columns, origin, conditions, ordering, window?⟩
  simp only [Select.fits, Bool.and_eq_true]
  exact ⟨⟨⟨⟨columnsFit_iff.mpr h.columns, originFits_iff.mpr h.origin⟩,
    conditionsFit_iff.mpr h.conditions⟩, keysFit_iff.mpr h.ordering⟩,
    windowFits_iff.mpr h.window⟩

/-! ### Renaming -/

theorem isPredicate_rename (old new : String) (e : Expr) :
    (e.rename old new).isPredicate = e.isPredicate := by
  cases e <;> rfl

mutual

/-- An expression with a source renamed is of the same sort, and so is everything in it. -/
theorem fits_rename (old new : String) :
    (e : Expr) → (condition : Bool) → (e.rename old new).fits condition = e.fits condition
  | .column .., _ | .allColumns _, _ | .literal _, _ | .parameter _, _ | .keyword _, _
  | .existsRow _, _ => rfl
  | .function _ args, _ => by
    simp only [Expr.rename, Expr.fits, Expr.isPredicate, listFits_rename old new args]
  | .trim _ chars? text, _ => by
    simp only [Expr.rename, Expr.fits, Expr.isPredicate, optionFits_rename old new chars?,
      fits_rename old new text]
  | .substring text start length?, _ => by
    simp only [Expr.rename, Expr.fits, Expr.isPredicate, optionFits_rename old new length?,
      fits_rename old new text, fits_rename old new start]
  | .extract _ operand, _ | .cast operand _, _ | .atTimeZone operand _, _ | .unary _ operand, _
  | .isNull operand _, _ => by
    simp only [Expr.rename, Expr.fits, Expr.isPredicate, fits_rename old new operand]
  | .position left right, _ | .dateAdd left _ right, _ | .binary left _ right, _ => by
    simp only [Expr.rename, Expr.fits, Expr.isPredicate, fits_rename old new left,
      fits_rename old new right]
  | .case whens otherwise?, _ => by
    simp only [Expr.rename, Expr.fits, Expr.isPredicate, whensFit_rename old new whens,
      optionFits_rename old new otherwise?]

theorem optionFits_rename (old new : String) : (e? : Option Expr) →
    optionFits (renameOption old new e?) = optionFits e?
  | none => rfl
  | some e => fits_rename old new e false

theorem listFits_rename (old new : String) : (es : List Expr) →
    listFits (renameList old new es) = listFits es
  | [] => rfl
  | e :: rest => by
    rw [renameList, listFits, listFits, fits_rename old new e, listFits_rename old new rest]

theorem whensFit_rename (old new : String) : (ws : List When) →
    whensFit (renameWhens old new ws) = whensFit ws
  | [] => rfl
  | ⟨condition, result⟩ :: rest => by
    rw [renameWhens, whensFit, whensFit, fits_rename old new condition,
      fits_rename old new result, whensFit_rename old new rest]

end

/-! ### Coercions -/

theorem Expr.fits_literal (v : Value) : (Expr.literal v).fits false = true := rfl

@[simp] theorem Expr.fits_int (n : Int32) : (Expr.int n).fits false = true := rfl

@[simp] theorem Expr.fits_binary (left right : Expr) (op : BinaryOperator) (condition : Bool) :
    (Expr.binary left op right).fits condition = (op.isPredicate == condition &&
      (left.fits op.isLogical && right.fits op.isLogical)) := by
  rw [Expr.fits, Expr.isPredicate]

theorem Expr.fits_choosing {test : Expr} (yes no : Value) (htest : test.fits true = true) :
    (Expr.case [⟨test, .literal yes⟩] (some (.literal no))).fits false = true := by
  simp [Expr.fits, whensFit, optionFits, Expr.isPredicate, htest]

section

variable {caps : Capabilities}

/-- Without Booleans everything can stand as a value. -/
theorem fits_asValue (hcaps : caps.booleanType = false) {e : Expr} (he : e.isSorted = true) :
    (asValue caps e).fits false = true := by
  rw [Expr.isSorted] at he
  cases hpredicate : e.isPredicate with
  | false =>
    rw [hpredicate] at he
    simpa [asValue, hpredicate] using he
  | true =>
    rw [hpredicate] at he
    have hchoice : asValue caps e = .case [⟨e, .int 1⟩] (some (.int 0)) := by
      simp [asValue, hpredicate, hcaps]
    rw [hchoice]
    exact Expr.fits_choosing _ _ he

/-- Without Booleans everything can stand as a condition. -/
theorem fits_asPredicate (hcaps : caps.booleanType = false) {e : Expr} (he : e.isSorted = true) :
    (asPredicate caps e).fits true = true := by
  rw [Expr.isSorted] at he
  cases hpredicate : e.isPredicate with
  | true =>
    rw [hpredicate] at he
    simpa [asPredicate, hpredicate] using he
  | false =>
    rw [hpredicate] at he
    simp [asPredicate, hpredicate, hcaps, BinaryOperator.isPredicate, BinaryOperator.isLogical,
      he]

/-! ### Operations -/

/-- The adjustments that compute with the result. -/
def Adjustment.computes : Adjustment → Bool
  | incrementResult | decrementResult | truncateResult => true
  | none | oneBasedStart => false

/-- The templates that give conditions. -/
def Template.isCondition : Template → Bool
  | positionFound | startingWith | endsWith | isNullOrEmpty _ => true
  | _ => false

/-- No mapping computes with a condition. -/
theorem Mapping.isCondition_template :
    ∀ x ∈ Mapping.all, x.adjustment.computes = true → x.template.isCondition = false := by
  decide

theorem Template.fits_of_build? {t : Template} {es : List Expr} {e : Expr}
    (hes : ∀ o ∈ es, o.fits false = true) (h : t.build? es = some e) :
    e.fits t.isCondition = true := by
  cases Template.build?_eq_some_iff.mp h with
  | function =>
    simpa [Expr.fits, Expr.isPredicate, Template.isCondition] using listFits_iff.mpr hes
  | isNullOrEmpty trimmed text =>
    rw [List.forall_mem_singleton] at hes
    have hcompared : (if trimmed then Expr.trim none none text else text).fits false = true := by
      cases trimmed with
      | true => simpa [Expr.fits, optionFits, Expr.isPredicate] using hes
      | false => exact hes
    simp [Expr.fits, Expr.isPredicate, BinaryOperator.isPredicate, BinaryOperator.isLogical,
      Template.isCondition, hes, hcompared]
  | _ =>
    simp_all [Expr.fits, Expr.isPredicate, BinaryOperator.isPredicate, BinaryOperator.isLogical,
      Template.isCondition, optionFits, listFits]

theorem Adjustment.isSorted_result {a : Adjustment} {e : Expr} {condition : Bool}
    (he : e.fits condition = true) (ha : a.computes = true → condition = false) :
    (a.result e).isSorted = true := by
  cases a with
  | none | oneBasedStart => exact Expr.isSorted_of_fits he
  | incrementResult | decrementResult | truncateResult =>
    obtain rfl := ha rfl
    simp [Adjustment.result, Expr.isSorted, Expr.fits, Expr.isPredicate,
      BinaryOperator.isPredicate, BinaryOperator.isLogical, listFits, he]

/-- An operation on values has everything where it belongs. -/
theorem Mapping.isSorted_of_apply {op : Operation} {arity : Nat} {x : Mapping}
    {receiver? : Option Expr} {args : List Expr} {e : Expr}
    (hx : Mapping.find op arity = .ok x) (h : x.apply caps receiver? args = .ok e)
    (hreceiver : ∀ o ∈ receiver?, o.fits false = true)
    (hargs : ∀ o ∈ args, o.fits false = true) : e.isSorted = true := by
  have hgiven : ∀ o ∈ receiver?.toList ++ args, o.fits false = true := by
    simpa [or_imp, forall_and] using And.intro hreceiver hargs
  obtain ⟨operands, built, hoperands, hbuilt, rfl⟩ := Mapping.apply_eq_ok h
  have hes := Adjustment.forall_of_operands Expr.fits_literal
    (fun o ho => by simp [BinaryOperator.isPredicate, BinaryOperator.isLogical, ho]) hgiven
    hoperands
  exact Adjustment.isSorted_result (Template.fits_of_build? hes hbuilt)
    (Mapping.isCondition_template x (Mapping.mem_of_find hx))

/-! ### Statements -/

theorem isLogical_ofQuery (op : QueryLoom.BinaryOperator) :
    (BinaryOperator.ofQuery op).isLogical = op.isLogical := by
  cases op <;> rfl

theorem Expr.isSorted_binary {left right : Expr} {op : QueryLoom.BinaryOperator}
    (hleft : left.fits op.isLogical = true) (hright : right.fits op.isLogical = true) :
    (Expr.binary left (.ofQuery op) right).isSorted = true := by
  simp [Expr.isSorted, Expr.fits, isLogical_ofQuery, hleft, hright]

/-- Drafting keeps conditions and values apart where there are no Booleans. -/
def sorts (hcaps : caps.booleanType = false) : Invariant caps where
  expr e := e.isSorted = true
  value e := e.fits false = true
  condition e := e.fits true = true
  select s := s.fits = true
  literal _ := rfl
  parameter _ := rfl
  column _ _ := rfl
  allColumns _ := rfl
  asValue := fits_asValue hcaps
  asPredicate := fits_asPredicate hcaps
  apply := Mapping.isSorted_of_apply
  isNull _ h := h
  logical hop hl hr := Expr.isSorted_binary (hop ▸ hl) (hop ▸ hr)
  operation hop hl hr := Expr.isSorted_binary (hop ▸ hl) (hop ▸ hr)
  not h := h
  negate h := h
  existsRow h := h
  rename old new _ he := (fits_rename old new _ _).trans he
  outcome yes no h := Expr.fits_choosing yes no h
  consists := Select.fits_of_consists

end

theorem booleanType_of_not_le {v : Version} (hv : ¬ (⟨3, 0, 0, 0⟩ : Version) ≤ v) :
    (Capabilities.ofVersion v).booleanType = false :=
  decide_eq_false hv

/-- For a server before version 3 every condition of the statement, every operand of AND, OR and
    NOT and every condition of a CASE is a condition, and everything else is a value, in the
    statement itself as in the derived tables and tests in it. -/
theorem fits_of_ofQuery {v : Version} (hv : ¬ (⟨3, 0, 0, 0⟩ : Version) ≤ v) {q : Query}
    {s : Select} (h : Select.ofQuery (.ofVersion v) q = .ok s) : s.fits = true :=
  (sorts (booleanType_of_not_le hv)).of_ofQuery h

/-- The parts in use that are asked for, with a comparison as a column and one as an operand. -/
def usedParts : Query :=
  .project
    (.filter (.take (.source "PART" none) (.constant (.int32 9)))
      (.and (.column "USED") (.any (.source "ORDER" none) (some (.column "OPEN")))))
    [("ASKED", .equal (.column "USED") (.equal (.column "LEFT") (.constant (.int32 0)))),
      ("NAMED", .not (.equal (.column "NAME") .null))]

theorem fits_of_ofQuery_usedParts :
    ¬ (⟨3, 0, 0, 0⟩ : Version) ≤ ⟨2, 5, 0, 0⟩ ∧
      ∃ s, Select.ofQuery (.ofVersion ⟨2, 5, 0, 0⟩) usedParts = .ok s ∧ s.fits = true := by
  have hv : ¬ (⟨3, 0, 0, 0⟩ : Version) ≤ ⟨2, 5, 0, 0⟩ := by decide
  have hs : ∃ s, Select.ofQuery (.ofVersion ⟨2, 5, 0, 0⟩) usedParts = .ok s := ⟨_, rfl⟩
  obtain ⟨s, hs⟩ := hs
  exact ⟨hv, s, hs, fits_of_ofQuery hv hs⟩

end QueryLoom.Sql

/-
  QueryLoom/Proofs/Truth/Typing.lean
  ==================================
  **Truth values and other values.**  The columns of a table hold truth values or other values,
  and so does what is computed from them: a condition is a truth value, and the operators say
  which of their operands have to be.  NULL passes for either.

  Typing is what keeps the statements with and without Booleans in step where keys are carried
  out of a derived table.  A key is found among the columns by agreement, and without
  typing the coerced texts may agree where the others do not: `x` as a condition becomes `x = 1`.

    * `Expr.Typed.rename` — a renamed expression is typed where the renamed source has the columns;
    * `agrees_standing` — typed expressions agree with coercions just when they agree without.
-/
import QueryLoom.Proofs.Scoping.Around
import QueryLoom.Proofs.Truth.Coercion

namespace QueryLoom.Sql

/-- What the values of a column are. -/
inductive Kind where
  | truth
  | other
deriving DecidableEq, Repr

/-- The kinds of the columns of each table. -/
abbrev Schema := String → String → Kind

/-! ### Expressions -/

/-- The operators that compare two values. -/
def BinaryOperator.isComparison : BinaryOperator → Bool
  | equal | notEqual | greater | greaterOrEqual | less | lessOrEqual => true
  | _ => false

/-- The kind of a condition or of any other expression that is no column or constant. -/
def Kind.ofCondition (condition : Bool) : Kind := if condition then .truth else .other

/-- Whether the expression is the constant NULL. -/
def Expr.isNullLiteral : Expr → Bool
  | .literal .null => true
  | _ => false

/-- The kind of the values of an expression. -/
def Expr.kind (τ : Columns Kind) : Expr → Kind
  | .column source name => τ source name
  | .literal v => .ofCondition (v.type == .boolean)
  | .parameter p => .ofCondition (p.type == .boolean)
  | e => .ofCondition e.isPredicate

/-- Whether the expression can stand for values of a kind. -/
def Expr.passes (τ : Columns Kind) (k : Kind) (e : Expr) : Bool :=
  e.isNullLiteral || e.kind τ == k

/-- Whether the operands can be compared.  NULL is not tested for equality with one, which is how
    it stands as a condition where there are no Booleans. -/
def comparable (τ : Columns Kind) (op : BinaryOperator) : List Expr → Bool
  | [l, r] =>
    (l.isNullLiteral || r.isNullLiteral || l.kind τ == r.kind τ) &&
      !(op == .equal && l.isNullLiteral && r.agrees (.int 1))
  | _ => false

/-- Whether an operator takes the operands. -/
def Operator.takes (τ : Columns Kind) (op : Operator) (os : List Expr) : Bool :=
  match op with
  | .case _ => false
  | .isNull _ => true
  | .binary op =>
    if op.isComparison then comparable τ op os
    else os.all (Expr.passes τ (.ofCondition op.isLogical))
  | .unary op => os.all (Expr.passes τ (.ofCondition (op == .not)))
  | _ => os.all (Expr.passes τ .other)

/-- Whether the columns are all columns of the origin. -/
def areAll : List Column → Bool
  | [⟨.allColumns _, none⟩] => true
  | _ => false

/-- The kinds of the columns that a statement selects, where the origin has the given ones. -/
def columnKinds (τ : Columns Kind) (origin : String → Kind) (columns : List Column)
    (name : String) : Kind :=
  if areAll columns then origin name
  else ((columns.map fun c => (c.alias?.getD "", c.expr.kind τ)).lookup name).getD .other

mutual

/-- The kinds of the columns of a statement. -/
def Select.kinds (schema : Schema) (τ : Columns Kind) : Select → String → Kind
  | ⟨columns, origin, _, _, _⟩ =>
    columnKinds (τ.within origin.alias? (origin.kinds schema τ)) (origin.kinds schema τ) columns

/-- The kinds of the columns of an origin. -/
def Origin.kinds (schema : Schema) (τ : Columns Kind) : Origin → String → Kind
  | .table name _ => schema name
  | .derived rows _ => rows.kinds schema τ
  | .singleRow => fun _ => .other

end

/-- The kinds of the columns in scope of a SELECT. -/
def Select.scope (schema : Schema) (τ : Columns Kind) (s : Select) : Columns Kind :=
  τ.within s.origin.alias? (s.origin.kinds schema τ)

mutual

/-- Every operator in the expression takes its operands, where the columns have the kinds. -/
inductive Expr.Typed (schema : Schema) : Columns Kind → Expr → Prop
  | leaf {τ : Columns Kind} {e : Expr} (hop : e.operator? = none)
      (htest : ∀ rows, e ≠ .existsRow rows) :
    Expr.Typed schema τ e
  | operator {τ : Columns Kind} {e : Expr} {op : Operator} (hop : e.operator? = some op)
      (operands : ∀ o ∈ e.operands, Expr.Typed schema τ o)
      (htakes : op.takes τ e.operands = true) :
    Expr.Typed schema τ e
  | test {τ : Columns Kind} {rows : Select} (hrows : Select.Typed schema τ rows) :
    Expr.Typed schema τ (.existsRow rows)

/-- Every operator in the statement takes its operands. -/
inductive Select.Typed (schema : Schema) : Columns Kind → Select → Prop
  | intro {τ : Columns Kind} {s : Select}
      (shown : s.selectsAllColumns = true ∨ ∀ source, ⟨.allColumns source, none⟩ ∉ s.columns)
      (columns : ∀ c ∈ s.columns, Expr.Typed schema (s.scope schema τ) c.expr)
      (conditions : ∀ e ∈ s.conditions, Expr.Typed schema (s.scope schema τ) e)
      (conditions_pass : ∀ e ∈ s.conditions, e.passes (s.scope schema τ) .truth = true)
      (ordering : ∀ k ∈ s.ordering, Expr.Typed schema (s.scope schema τ) k.expr)
      (origin : ∀ rows source, s.origin = .derived rows source → Select.Typed schema τ rows) :
    Select.Typed schema τ s

end

variable {schema : Schema} {τ : Columns Kind}

namespace Select.Typed

variable {s : Select} (h : s.Typed schema τ)

include h

theorem shown : s.selectsAllColumns = true ∨
    ∀ source, ⟨.allColumns source, none⟩ ∉ s.columns := by
  cases h with
  | intro shown => exact shown

theorem columns : ∀ c ∈ s.columns, c.expr.Typed schema (s.scope schema τ) := by
  cases h with
  | intro _ columns => exact columns

theorem conditions : ∀ e ∈ s.conditions, e.Typed schema (s.scope schema τ) := by
  cases h with
  | intro _ _ conditions => exact conditions

theorem conditions_pass : ∀ e ∈ s.conditions, e.passes (s.scope schema τ) .truth = true := by
  cases h with
  | intro _ _ _ conditions_pass => exact conditions_pass

theorem ordering : ∀ k ∈ s.ordering, k.expr.Typed schema (s.scope schema τ) := by
  cases h with
  | intro _ _ _ _ ordering => exact ordering

theorem origin : ∀ rows source, s.origin = .derived rows source → rows.Typed schema τ := by
  cases h with
  | intro _ _ _ _ _ origin => exact origin

end Select.Typed

theorem Expr.Typed.operands {e : Expr} (h : e.Typed schema τ) :
    ∀ o ∈ e.operands, o.Typed schema τ := by
  cases h with
  | leaf hop => exact fun o ho => absurd (operands_of_operator?_eq_none hop ▸ ho) List.not_mem_nil
  | operator _ operands => exact operands
  | test => exact fun o ho => absurd ho List.not_mem_nil

theorem Expr.Typed.takes {e : Expr} (h : e.Typed schema τ) {op : Operator}
    (hop : e.operator? = some op) : op.takes τ e.operands = true := by
  cases h with
  | leaf hnone => rw [hnone] at hop; cases hop
  | operator hop' _ htakes =>
    rw [hop'] at hop
    cases hop
    exact htakes
  | test => cases hop

theorem Expr.Typed.ofTest {rows : Select} (h : (Expr.existsRow rows).Typed schema τ) :
    rows.Typed schema τ := by
  cases h with
  | leaf _ htest => exact absurd rfl (htest rows)
  | operator hop => cases hop
  | test hrows => exact hrows

theorem Expr.Typed.ne_case {e : Expr} (h : e.Typed schema τ) {op : Operator}
    (hop : e.operator? = some op) : ∀ b, op ≠ .case b := by
  rintro b rfl
  have htakes := h.takes hop
  simp [Operator.takes] at htakes

/-! ### Agreement -/

theorem isPredicate_eq_of_agrees {e e' : Expr} (h : e.agrees e' = true) :
    e.isPredicate = e'.isPredicate := by
  unfold Expr.agrees at h
  split at h <;> simp_all [Expr.isPredicate]

theorem Expr.kind_of_operator {e : Expr} {op : Operator} (hop : e.operator? = some op)
    (τ : Columns Kind) : e.kind τ = .ofCondition e.isPredicate := by
  cases e <;> first
    | rfl
    | cases hop

theorem type_eq_of_agrees {v w : Value} (h : v.agrees w = true) : v.type = w.type := by
  cases v <;> cases w <;> simp_all [Value.agrees, Value.type]

theorem kind_eq_of_agrees (τ : Columns Kind) {e e' : Expr} (h : e.agrees e' = true) :
    e.kind τ = e'.kind τ := by
  cases Expr.agrees_iff.mp h with
  | column | allColumns | parameter | existsRow => rfl
  | literal hv => rw [Expr.kind, Expr.kind, type_eq_of_agrees hv]
  | operator hop hop' =>
    rw [Expr.kind_of_operator hop, Expr.kind_of_operator hop', isPredicate_eq_of_agrees h]

theorem Expr.kind_of_isPredicate {e : Expr} (hp : e.isPredicate = true) : e.kind τ = .truth := by
  cases e <;> first
    | exact congrArg Kind.ofCondition hp
    | cases hp

theorem isNullLiteral_eq_of_agrees {e e' : Expr} (h : e.agrees e' = true) :
    e.isNullLiteral = e'.isNullLiteral := by
  unfold Expr.agrees at h
  split at h
  case h_3 v w =>
    cases v <;> cases w <;> simp_all [Value.agrees, Expr.isNullLiteral]
  all_goals first
    | rfl
    | cases h

theorem areAll_cons_cons (c c' : Column) (cs : List Column) : areAll (c :: c' :: cs) = false := by
  rcases c with ⟨e, alias?⟩
  cases e <;> cases alias? <;> rfl

theorem areAll_eq_of_agree {cs cs' : List Column}
    (h : List.Forall₂ (fun c c' => c.expr.agrees c'.expr = true ∧ c.alias? = c'.alias?) cs cs') :
    areAll cs = areAll cs' := by
  rcases h with _ | ⟨⟨hagrees, halias⟩, _ | _⟩
  · rfl
  · rename_i c c'
    rcases c with ⟨e, alias?⟩
    rcases c' with ⟨e', alias'?⟩
    obtain rfl : alias? = alias'? := halias
    replace hagrees : e.agrees e' = true := hagrees
    unfold Expr.agrees at hagrees
    split at hagrees <;> first
      | cases alias? <;> rfl
      | cases hagrees
  · rw [areAll_cons_cons, areAll_cons_cons]

/-- Statements that agree have columns of the same kinds. -/
theorem kinds_eq_of_agrees (schema : Schema) {s s' : Select} (h : s.agrees s' = true)
    (τ : Columns Kind) : s.kinds schema τ = s'.kinds schema τ := by
  have hall : Inherited (fun _ => True)
      (fun s => ∀ s', s.agrees s' = true → s.kinds schema τ = s'.kinds schema τ) := by
    refine ⟨fun _ _ _ => trivial, ?_⟩
    intro s _ _ _ origin s' h
    rcases s with ⟨cs, o, ps, ks, w⟩
    rcases s' with ⟨cs', o', ps', ks', w'⟩
    simp only [Select.agrees, Bool.and_eq_true, agreeColumns_iff] at h
    obtain ⟨⟨⟨⟨hcs, ho⟩, _⟩, _⟩, _⟩ := h
    have halias : o.alias? = o'.alias? := alias?_eq_of_agrees ho
    have hkinds : o.kinds schema τ = o'.kinds schema τ := by
      cases Origin.agrees_iff.mp ho with
      | derived hrows => rw [Origin.kinds, Origin.kinds, origin _ _ rfl _ hrows]
      | table | singleRow => rfl
    have hcolumns : (cs.map fun c => (c.alias?.getD "", c.expr.kind (τ.within o.alias?
        (o.kinds schema τ)))) = cs'.map fun c => (c.alias?.getD "", c.expr.kind (τ.within o.alias?
        (o.kinds schema τ))) :=
      map_eq_of_forall₂ hcs fun c _ c' h => by rw [kind_eq_of_agrees _ h.1, h.2]
    funext name
    rw [Select.kinds, Select.kinds, columnKinds, columnKinds, areAll_eq_of_agree hcs, ← halias,
      ← hkinds, hcolumns]
  exact hall.of_select s s' h

/-! ### Renaming -/

section Renaming

variable {τ' : Columns Kind} {old new : String}

theorem kind_rename {e : Expr} (h : ∀ source name, .column source name ∈ e.parts →
    τ' (renamed old new source) name = τ source name) :
    (e.rename old new).kind τ' = e.kind τ := by
  cases e
  case column source name => exact h source name (Expr.self_mem_parts _)
  all_goals rfl

theorem isNullLiteral_rename (e : Expr) :
    (e.rename old new).isNullLiteral = e.isNullLiteral := by
  cases e <;> rfl

theorem agrees_int_rename (e : Expr) (n : Int32) :
    (e.rename old new).agrees (.int n) = e.agrees (.int n) := by
  cases e <;> simp [Expr.rename, Expr.agrees, Expr.int]

theorem takes_rename (op : Operator) {os : List Expr}
    (h : ∀ o ∈ os, (o.rename old new).kind τ' = o.kind τ) :
    op.takes τ' (os.map (Expr.rename old new)) = op.takes τ os := by
  have hpasses : ∀ k, (os.map (Expr.rename old new)).all (Expr.passes τ' k)
      = os.all (Expr.passes τ k) := by
    intro k
    rw [List.all_map, Bool.eq_iff_iff, List.all_eq_true, List.all_eq_true]
    refine forall₂_congr fun o ho => ?_
    rw [Function.comp, Expr.passes, Expr.passes, isNullLiteral_rename, h o ho]
  have hcomparable : ∀ op, comparable τ' op (os.map (Expr.rename old new))
      = comparable τ op os := by
    intro op
    rcases os with _ | ⟨l, _ | ⟨r, _ | _⟩⟩ <;> try rfl
    simp only [List.map_cons, List.map_nil, comparable, isNullLiteral_rename, agrees_int_rename,
      h l (by simp), h r (by simp)]
  unfold Operator.takes
  split <;> first
    | rfl
    | exact hpasses _
    | rw [hcomparable, hpasses]

/-- An expression without statements is typed after a source is renamed, where its columns have
    the kinds that they had. -/
theorem Expr.Typed.rename {e : Expr} (he : e.Typed schema τ) (hsubquery : e.hasSubquery = false)
    (h : ∀ source name, .column source name ∈ e.parts →
      τ' (renamed old new source) name = τ source name) :
    (e.rename old new).Typed schema τ' := by
  induction e using Expr.induction_on_operands with
  | existsRow rows => cases hsubquery
  | operator e op hop ih =>
    refine .operator ((operator?_rename old new e).trans hop) ?_ ?_
    · rw [operands_rename]
      intro o' ho'
      obtain ⟨o, ho, rfl⟩ := List.mem_map.mp ho'
      exact ih o ho (he.operands o ho) (Expr.hasSubquery_of_mem_operands hsubquery ho)
        fun source name hx => h source name (mem_parts_of_mem_operands ho hx)
    · rw [operands_rename, takes_rename op fun o ho => kind_rename fun source name hx =>
        h source name (mem_parts_of_mem_operands ho hx)]
      exact he.takes hop
  | _ => exact .leaf rfl fun rows hrows => by cases hrows

end Renaming

/-! ### Agreement of coerced expressions -/

theorem takes_passes {op : Operator} {os : List Expr} (h : op.takes τ os = true)
    (hjoins : op.joinsConditions = true) : ∀ o ∈ os, o.passes τ .truth = true := by
  cases op <;> try cases hjoins
  case binary op =>
    have hcomparison : op.isComparison = false := by
      cases op <;> first
        | rfl
        | cases hjoins
    rw [Operator.takes, if_neg (by simp [hcomparison]), show op.isLogical = true from hjoins] at h
    exact List.all_eq_true.mp h
  case unary op =>
    rw [Operator.takes, show (op == .not) = true from hjoins] at h
    exact List.all_eq_true.mp h

/-- Coercions do not change whether the expressions agree, if both are typed. -/
def AgreeAlike (caps : Capabilities) (schema : Schema) (e e' : Expr) : Prop :=
  ∀ τ, e.Typed schema τ → e'.Typed schema τ →
    ((e.coerced caps).agrees (e'.coerced caps) = true ↔ e.agrees e' = true)

section Agreement

variable {caps : Capabilities} (hcaps : caps.booleanType = false)

include hcaps

omit hcaps in
/-- No typed expression becomes a choice between branches by its own coercions. -/
theorem operator?_ne_case {e : Expr} (he : e.Typed schema τ) (b : Bool) :
    (e.coerced caps).operator? ≠ some (.case b) := by
  rw [operator?_coerced]
  intro hop
  exact he.ne_case hop b rfl

omit hcaps in
theorem coerced_eq_literal {e : Expr} {v : Value} (h : e.coerced caps = .literal v) :
    e = .literal v := by
  cases e <;> cases h
  rfl

omit hcaps in
theorem eq_literal_of_agrees {e : Expr} {w : Value} (h : e.agrees (.literal w) = true) :
    ∃ v, e = .literal v := by
  cases e <;> first
    | exact ⟨_, rfl⟩
    | simp [Expr.agrees] at h

omit hcaps in
theorem eq_int_of_agrees {e : Expr} {n : Int32} (h : (Expr.int n).agrees e = true) :
    e = .int n := by
  cases e with
  | literal v => cases v <;> simp_all [Expr.int, Expr.agrees, Value.agrees]
  | _ => simp [Expr.int, Expr.agrees] at h

omit hcaps in
theorem int_agrees_self (n : Int32) : (Expr.int n).agrees (.int n) = true := by
  simp [Expr.int, Expr.agrees, Value.agrees]

/-- As values expressions agree with coercions just when they agree without. -/
theorem agrees_standing_value {e e' : Expr} (he : e.Typed schema τ) (he' : e'.Typed schema τ)
    (halike : AgreeAlike caps schema e e') :
    (e.standing caps false).agrees (e'.standing caps false) = true ↔ e.agrees e' = true := by
  rw [← halike τ he he']
  cases hp : e.isPredicate <;> cases hp' : e'.isPredicate
  · rw [standing_value hp, standing_value hp']
  · rw [standing_value hp, standing_value_of_predicate hcaps hp']
    refine iff_of_false (fun h => ?_) fun h => ?_
    · exact operator?_ne_case he _ (operator?_eq_of_agrees h).symm
    · have := isPredicate_eq_of_agrees h
      simp [hp, hp'] at this
  · rw [standing_value_of_predicate hcaps hp, standing_value hp']
    refine iff_of_false (fun h => ?_) fun h => ?_
    · exact operator?_ne_case he' _ (operator?_eq_of_agrees h)
    · have := isPredicate_eq_of_agrees h
      simp [hp, hp'] at this
  · rw [standing_value_of_predicate hcaps hp, standing_value_of_predicate hcaps hp']
    simp [Expr.agrees, agreeWhens, agreeOption, Expr.int, Value.agrees]

omit hcaps in
/-- What is tested for equality with one does not pass for a truth value. -/
theorem not_passes_truth {l r : Expr} (h : comparable τ .equal [l, r] = true)
    (hr : r.agrees (.int 1) = true) : l.passes τ .truth = false := by
  have hnull := isNullLiteral_eq_of_agrees hr
  have hkind := kind_eq_of_agrees τ hr
  simp only [comparable, hr, hkind, show r.isNullLiteral = false from hnull, Bool.or_false,
    beq_self_eq_true, Bool.true_and, Bool.and_true, Bool.and_eq_true, Bool.or_eq_true,
    Bool.not_eq_true', beq_iff_eq] at h
  obtain ⟨hl, hnonnull⟩ := h
  have hother : l.kind τ = .other := hl.resolve_left (by simp [hnonnull])
  simp [Expr.passes, hnonnull, hother]

omit hcaps in
theorem passes_eq_of_agrees {e e' : Expr} (h : e.agrees e' = true) (k : Kind) :
    e.passes τ k = e'.passes τ k := by
  rw [Expr.passes, Expr.passes, isNullLiteral_eq_of_agrees h, kind_eq_of_agrees τ h]

omit hcaps in
theorem Expr.Typed.equal {e : Expr} (he : e.Typed schema τ)
    (hop : e.operator? = some (.binary .equal)) : ∃ l r, e.operands = [l, r] ∧
      l.Typed schema τ ∧ r.Typed schema τ ∧ comparable τ .equal [l, r] = true := by
  have htakes : comparable τ .equal e.operands = true := he.takes hop
  have htyped := he.operands
  generalize e.operands = os at htakes htyped
  rcases os with _ | ⟨l, _ | ⟨r, _ | _⟩⟩ <;> try cases htakes
  exact ⟨l, r, rfl, htyped l (by simp), htyped r (by simp), htakes⟩

/-- A condition does not agree with a value made a condition. -/
theorem not_agrees_condition {e e' : Expr} (he : e.Typed schema τ) (he' : e'.Typed schema τ)
    (hpass : e'.passes τ .truth = true) (halike : ∀ o ∈ e.operands, AgreeAlike caps schema o e') :
    (e.coerced caps).agrees (.binary (e'.coerced caps) .equal (.int 1)) = false := by
  rw [Bool.eq_false_iff]
  intro hagrees
  have hop : e.operator? = some (.binary .equal) := by
    rw [← operator?_coerced caps]
    exact (operator?_eq_of_agrees hagrees).symm
  obtain ⟨_, hoperands⟩ := (agrees_of_operator ((operator?_coerced caps e).trans hop)).mp hagrees
  rw [operands_coerced caps hop (he.ne_case hop)] at hoperands
  obtain ⟨l, r, hlr, hl, hr, hcomparable⟩ := he.equal hop
  rw [hlr] at hoperands
  have hleft := (List.forall₂_cons.mp hoperands).1
  have hright := (List.forall₂_cons.mp (List.forall₂_cons.mp hoperands).2).1
  change (l.standing caps false).agrees (e'.coerced caps) = true at hleft
  change (r.standing caps false).agrees (.int 1) = true at hright
  have hone : r.agrees (.int 1) = true := by
    cases hp : r.isPredicate with
    | true =>
      rw [standing_value_of_predicate hcaps hp] at hright
      simp [Expr.agrees, Expr.int] at hright
    | false =>
      rw [standing_value hp] at hright
      obtain ⟨v, hv⟩ := eq_literal_of_agrees hright
      rw [hv] at hright
      rw [coerced_eq_literal hv]
      exact hright
  have hsame : l.agrees e' = true := by
    cases hp : l.isPredicate with
    | true =>
      rw [standing_value_of_predicate hcaps hp] at hleft
      exact absurd (operator?_eq_of_agrees hleft) (operator?_ne_case he' _)
    | false =>
      rw [standing_value hp] at hleft
      exact (halike l (by simp [hlr]) τ hl he').mp hleft
  rw [← passes_eq_of_agrees hsame, not_passes_truth hcomparable hone] at hpass
  cases hpass

/-- A value made a condition does not agree with a condition. -/
theorem condition_not_agrees {e e' : Expr} (he : e.Typed schema τ) (he' : e'.Typed schema τ)
    (hpass : e.passes τ .truth = true) (halike : ∀ o, AgreeAlike caps schema e o) :
    (Expr.binary (e.coerced caps) .equal (.int 1)).agrees (e'.coerced caps) = false := by
  rw [Bool.eq_false_iff]
  intro hagrees
  have hop : e'.operator? = some (.binary .equal) := by
    rw [← operator?_coerced caps]
    exact operator?_eq_of_agrees hagrees
  obtain ⟨_, hoperands⟩ := (agrees_of_operator rfl).mp hagrees
  rw [operands_coerced caps hop (he'.ne_case hop)] at hoperands
  obtain ⟨l, r, hlr, hl, hr, hcomparable⟩ := he'.equal hop
  rw [hlr] at hoperands
  have hleft := (List.forall₂_cons.mp hoperands).1
  have hright := (List.forall₂_cons.mp (List.forall₂_cons.mp hoperands).2).1
  change (e.coerced caps).agrees (l.standing caps false) = true at hleft
  change (Expr.int 1).agrees (r.standing caps false) = true at hright
  have hone : r.agrees (.int 1) = true := by
    cases hp : r.isPredicate with
    | true =>
      rw [standing_value_of_predicate hcaps hp] at hright
      simp [Expr.agrees, Expr.int] at hright
    | false =>
      rw [standing_value hp] at hright
      have hr : r = .int 1 := coerced_eq_literal (eq_int_of_agrees hright)
      rw [hr]
      exact int_agrees_self 1
  have hsame : e.agrees l = true := by
    cases hp : l.isPredicate with
    | true =>
      rw [standing_value_of_predicate hcaps hp] at hleft
      exact absurd (operator?_eq_of_agrees hleft).symm (operator?_ne_case he _)
    | false =>
      rw [standing_value hp] at hleft
      exact (halike l τ he hl).mp hleft
  rw [passes_eq_of_agrees hsame, not_passes_truth hcomparable hone] at hpass
  cases hpass

/-- As conditions expressions agree with coercions just when they agree without. -/
theorem agrees_standing_condition {e e' : Expr} (he : e.Typed schema τ) (he' : e'.Typed schema τ)
    (hpass : e.passes τ .truth = true) (hpass' : e'.passes τ .truth = true)
    (halike : ∀ o, AgreeAlike caps schema e o)
    (hoperands : ∀ o ∈ e.operands, AgreeAlike caps schema o e') :
    (e.standing caps true).agrees (e'.standing caps true) = true ↔ e.agrees e' = true := by
  cases hp : e.isPredicate <;> cases hp' : e'.isPredicate
  · rw [standing_condition_of_value hcaps hp, standing_condition_of_value hcaps hp',
      ← halike e' τ he he']
    simp [Expr.agrees, int_agrees_self]
  · rw [standing_condition_of_value hcaps hp, standing_condition hp',
      condition_not_agrees hcaps he he' hpass halike]
    refine iff_of_false Bool.false_ne_true fun h => ?_
    have := isPredicate_eq_of_agrees h
    simp [hp, hp'] at this
  · rw [standing_condition hp, standing_condition_of_value hcaps hp',
      not_agrees_condition hcaps he he' hpass' hoperands]
    refine iff_of_false Bool.false_ne_true fun h => ?_
    have := isPredicate_eq_of_agrees h
    simp [hp, hp'] at this
  · rw [standing_condition hp, standing_condition hp', ← halike e' τ he he']

omit hcaps in
theorem scope_eq_of_agrees {s s' : Select} (h : s.origin.agrees s'.origin = true) :
    s.scope schema τ = s'.scope schema τ := by
  rcases s with ⟨cs, o, ps, ks, w⟩
  rcases s' with ⟨cs', o', ps', ks', w'⟩
  replace h : o.agrees o' = true := h
  have hkinds : o.kinds schema τ = o'.kinds schema τ := by
    cases Origin.agrees_iff.mp h with
    | derived hrows => rw [Origin.kinds, Origin.kinds, kinds_eq_of_agrees schema hrows]
    | table | singleRow => rfl
  rw [Select.scope, Select.scope, alias?_eq_of_agrees h, hkinds]

theorem inherited_agreeAlike : Inherited
    (fun e => (∀ e', AgreeAlike caps schema e e') ∧
      ∀ o ∈ e.operands, ∀ e', AgreeAlike caps schema o e')
    (fun s => ∀ τ s', s.Typed schema τ → s'.Typed schema τ →
      ((s.coerced caps).agrees (s'.coerced caps) = true ↔ s.agrees s' = true)) where
  expression e operands test := by
    refine ⟨?_, fun o ho => (operands o ho).1⟩
    intro e' τ he he'
    cases hop : e.operator? with
    | none =>
      cases hop' : e'.operator? with
      | none =>
        cases e <;> cases hop <;> cases e' <;> cases hop' <;>
          simp only [Expr.coerced, Expr.agrees]
        case existsRow.refl.existsRow.refl rows rows' =>
          exact test rows rfl τ rows' he.ofTest he'.ofTest
      | some op' =>
        refine iff_of_false (fun h => ?_) fun h => ?_
        · have := operator?_eq_of_agrees h
          rw [operator?_coerced, operator?_coerced, hop, hop'] at this
          cases this
        · have := operator?_eq_of_agrees h
          rw [hop, hop'] at this
          cases this
    | some op =>
      rw [agrees_of_operator hop, agrees_of_operator ((operator?_coerced caps e).trans hop),
        operator?_coerced]
      refine and_congr_right fun hop' => ?_
      rw [operands_coerced caps hop (he.ne_case hop), operands_coerced caps hop' (he'.ne_case hop'),
        Agree, List.forall₂_map_left_iff, List.forall₂_map_right_iff]
      refine forall₂_congr_mem fun o ho o' ho' => ?_
      cases hjoins : op.joinsConditions with
      | false =>
        exact agrees_standing_value hcaps (he.operands o ho) (he'.operands o' ho')
          ((operands o ho).1 o')
      | true =>
        exact agrees_standing_condition hcaps (he.operands o ho) (he'.operands o' ho')
          (takes_passes (he.takes hop) hjoins o ho) (takes_passes (he'.takes hop') hjoins o' ho')
          (operands o ho).1 fun x hx => (operands o ho).2 x hx o'
  statement s columns conditions ordering origin τ s' hs hs' := by
    have horigin : (s.origin.coerced caps).agrees (s'.origin.coerced caps) = true
        ↔ s.origin.agrees s'.origin = true := by
      cases ho : s.origin <;> cases ho' : s'.origin <;>
        simp only [Origin.coerced, Origin.agrees, Bool.and_eq_true]
      exact and_congr_left fun _ => origin _ _ ho τ _ (hs.origin _ _ ho) (hs'.origin _ _ ho')
    rw [coerced_mk, coerced_mk]
    simp only [Select.agrees_iff, List.forall₂_map_left_iff, List.forall₂_map_right_iff, horigin]
    refine and_congr_right fun ho => ?_
    have hscope : s.scope schema τ = s'.scope schema τ := scope_eq_of_agrees ho
    refine and_congr ?_ (and_congr ?_ (and_congr_left fun _ => ?_))
    · refine forall₂_congr_mem fun c hc c' hc' => and_congr_left fun _ => ?_
      exact agrees_standing_value hcaps (hs.columns c hc) (hscope ▸ hs'.columns c' hc')
        ((columns c hc).1 _)
    · refine forall₂_congr_mem fun e he e' he' => ?_
      exact agrees_standing_condition hcaps (hs.conditions e he) (hscope ▸ hs'.conditions e' he')
        (hs.conditions_pass e he) (hscope ▸ hs'.conditions_pass e' he') (conditions e he).1
        fun o ho => (conditions e he).2 o ho e'
    · refine forall₂_congr_mem fun k hk k' hk' => and_congr_left fun _ => ?_
      exact agrees_standing_value hcaps (hs.ordering k hk) (hscope ▸ hs'.ordering k' hk')
        ((ordering k hk).1 _)

/-- Typed expressions agree with coercions just when they agree without. -/
theorem agreeAlike (e e' : Expr) : AgreeAlike caps schema e e' :=
  ((inherited_agreeAlike hcaps).of_expr e).1 e'

end Agreement

end QueryLoom.Sql

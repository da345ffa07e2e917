/-
  QueryLoom/Proofs/Truth/Tree.lean
  ================================
  **Typed queries.**  What the columns of a sequence hold follows from the tables, and what an
  operator takes is the same in a query as in a statement: AND, OR and NOT take truth values,
  both sides of a comparison are of one kind, and all other operations take other values.

  Where there are Booleans, a typed query becomes a typed statement.  The draft of a sequence
  is typed at every step, and its columns have the kinds that the columns of the sequence have.

    * `Mapping.typed_of_apply` — operations on typed values are typed;
    * `typed_of_gives` — so is the expression of a typed scalar;
    * `Draft.Typed.pushed` — a draft that is pushed down stays typed;
    * `typed_of_sequence` — the draft of a typed sequence is typed.
-/
import QueryLoom.Proofs.Drafting.Condition
import QueryLoom.Proofs.Meaning.Carried
import QueryLoom.Proofs.Truth.Typing

namespace QueryLoom

open Sql

namespace Query

/-! ### Kinds -/

/-- The kind of the values of a scalar. -/
def valueKind (Γ : Fields Kind) : Query → Kind
  | member _ (.column alias? name) => Γ alias? name
  | constant v => .ofCondition (v.type == .boolean)
  | parameter p => .ofCondition (p.type == .boolean)
  | call _ m _ => .ofCondition m.isTest
  | binary _ op _ => .ofCondition (BinaryOperator.ofQuery op).isPredicate
  | unary op _ => .ofCondition (op == .not)
  | any .. => .truth
  | _ => .other

/-- Whether the scalar can stand for values of a kind. -/
def passes (Γ : Fields Kind) (k : Kind) (q : Query) : Bool :=
  isNullConstant q || q.valueKind Γ == k

/-- The kinds of the columns of a sequence. -/
def kinds (schema : Schema) (Γ : Fields Kind) : Query → String → Kind
  | source table _ => schema table
  | filter rows _ => rows.kinds schema Γ
  | project rows columns =>
    if columns.isEmpty then rows.kinds schema Γ
    else fun name =>
      let around := Γ.within rows.rowAlias (rows.kinds schema Γ)
      ((columns.map fun c => (c.1, c.2.valueKind around)).lookup name).getD .other
  | skip rows _ => rows.kinds schema Γ
  | take rows _ => rows.kinds schema Γ
  | orderBy rows _ _ => rows.kinds schema Γ
  | _ => fun _ => .other

/-- The kinds of the columns that the scalars of an operator on a sequence can name. -/
def around (schema : Schema) (Γ : Fields Kind) (rows : Query) : Fields Kind :=
  Γ.within rows.rowAlias (rows.kinds schema Γ)

/-- Whether an operator takes the two scalars.  A test for null takes any. -/
def joins (Γ : Fields Kind) (left : Query) (op : QueryLoom.BinaryOperator) (right : Query) : Bool :=
  testsEquality op && (isNullConstant left || isNullConstant right) ||
    if (BinaryOperator.ofQuery op).isComparison then
      isNullConstant left || isNullConstant right || left.valueKind Γ == right.valueKind Γ
    else left.passes Γ (.ofCondition op.isLogical) && right.passes Γ (.ofCondition op.isLogical)

mutual

/-- Whether every operator in the query takes what it is applied to. -/
def isTyped (schema : Schema) (Γ : Fields Kind) : Query → Bool
  | source .. | constant _ | parameter _ => true
  | member _ (.column ..) => true
  | member receiver? (.property _) => optionTyped schema Γ receiver?
  | call receiver? _ args => optionTyped schema Γ receiver? && listTyped schema Γ args
  | binary left op right =>
    left.isTyped schema Γ && right.isTyped schema Γ && joins Γ left op right
  | unary op operand => operand.isTyped schema Γ && operand.passes Γ (.ofCondition (op == .not))
  | any rows predicate? =>
    rows.isTyped schema Γ && predicateTyped schema (rows.around schema Γ) predicate?
  | filter rows predicate =>
    rows.isTyped schema Γ && predicate.isTyped schema (rows.around schema Γ)
      && predicate.passes (rows.around schema Γ) .truth
  | project rows columns =>
    rows.isTyped schema Γ && columnsTyped schema (rows.around schema Γ) columns
  | skip rows _ => rows.isTyped schema Γ
  | take rows _ => rows.isTyped schema Γ
  | orderBy rows key _ => rows.isTyped schema Γ && key.isTyped schema (rows.around schema Γ)

/-- Whether a value that may be missing is typed and no truth value. -/
def optionTyped (schema : Schema) (Γ : Fields Kind) : Option Query → Bool
  | none => true
  | some q => q.isTyped schema Γ && q.passes Γ .other

/-- Whether all values are typed and no truth values. -/
def listTyped (schema : Schema) (Γ : Fields Kind) : List Query → Bool
  | [] => true
  | q :: rest => q.isTyped schema Γ && q.passes Γ .other && listTyped schema Γ rest

/-- Whether a predicate that may be missing is a typed truth value. -/
def predicateTyped (schema : Schema) (Γ : Fields Kind) : Option Query → Bool
  | none => true
  | some q => q.isTyped schema Γ && q.passes Γ .truth

/-- Whether all columns of a projection are typed. -/
def columnsTyped (schema : Schema) (Γ : Fields Kind) : List (String × Query) → Bool
  | [] => true
  | (_, q) :: rest => q.isTyped schema Γ && columnsTyped schema Γ rest

end

end Query

end QueryLoom

namespace QueryLoom.Sql

variable {schema : Schema} {τ : Columns Kind} {Γ : Fields Kind}

/-! ### Operations -/

/-- An operand of an operation that takes no truth values. -/
def Expr.TypedOther (schema : Schema) (τ : Columns Kind) (e : Expr) : Prop :=
  e.Typed schema τ ∧ e.passes τ .other = true

theorem Expr.TypedOther.literal {v : Value} (h : v.type ≠ .boolean) :
    (Expr.literal v).TypedOther schema τ := by
  refine ⟨.leaf rfl (by simp), ?_⟩
  have hkind : (Expr.literal v).kind τ = .other := by
    rw [Expr.kind, beq_eq_false_iff_ne.mpr h]
    rfl
  rw [Expr.passes, hkind]
  simp

/-- An operator that takes other values only. -/
theorem Expr.typed_of_others {e : Expr} {op : Operator} (hop : e.operator? = some op)
    (htakes : ∀ os, op.takes τ os = os.all (Expr.passes τ .other))
    (hos : ∀ o ∈ e.operands, o.TypedOther schema τ) : e.Typed schema τ := by
  refine .operator hop (fun o ho => (hos o ho).1) ?_
  rw [htakes]
  exact List.all_eq_true.mpr fun o ho => (hos o ho).2

/-- An expression with an operator that gives no condition is no truth value. -/
theorem Expr.TypedOther.of_operator {e : Expr} {op : Operator} (hop : e.operator? = some op)
    (hpredicate : e.isPredicate = false) (he : e.Typed schema τ) : e.TypedOther schema τ := by
  refine ⟨he, ?_⟩
  rw [Expr.passes, Expr.kind_of_operator hop, hpredicate]
  simp [Kind.ofCondition]

/-- A comparison of values that are no truth values, none of them the constant one. -/
theorem Expr.typed_comparison {l r : Expr} {op : BinaryOperator} (hop : op.isComparison = true)
    (hl : l.TypedOther schema τ) (hr : r.TypedOther schema τ)
    (hone : l.isNullLiteral = false ∨ r.agrees (.int 1) = false) :
    (Expr.binary l op r).Typed schema τ := by
  refine .operator rfl ?_ ?_
  · rintro o (_ | ⟨_, _ | ⟨_, ⟨⟩⟩⟩)
    · exact hl.1
    · exact hr.1
  · have hl := hl.2
    have hr := hr.2
    simp only [Expr.passes, Bool.or_eq_true, beq_iff_eq] at hl hr
    simp only [Operator.takes, hop, if_true, Expr.operands, comparable]
    rcases hone with hone | hone
    · simp only [hone, Bool.and_false, Bool.false_and, Bool.not_false, Bool.and_true,
        Bool.false_or, Bool.or_eq_true, beq_iff_eq]
      rcases hl with hl | hl
      · rw [hone] at hl
        cases hl
      · exact hr.imp_right fun hr => hl.trans hr.symm
    · simp only [hone, Bool.and_false, Bool.not_false, Bool.and_true, Bool.or_eq_true, beq_iff_eq]
      rcases hl with hl | hl
      · exact .inl (.inl hl)
      · rcases hr with hr | hr
        · exact .inl (.inr hr)
        · exact .inr (hl.trans hr.symm)

/-- What a template makes of operands that are no truth values is typed. -/
theorem Template.typed_of_build? {t : Template} {es : List Expr} {e : Expr}
    (hes : ∀ o ∈ es, o.TypedOther schema τ) (h : t.build? es = some e) : e.Typed schema τ := by
  have hothers : ∀ {e : Expr} {op : Operator}, e.operator? = some op →
      (∀ os, op.takes τ os = os.all (Expr.passes τ .other)) →
      (∀ o ∈ e.operands, o.TypedOther schema τ) → e.Typed schema τ :=
    fun hop htakes hos => Expr.typed_of_others hop htakes hos
  cases Template.build?_eq_some_iff.mp h with
  | positionFound =>
    simp only [List.forall_mem_cons] at hes
    refine Expr.typed_comparison rfl (.of_operator rfl rfl (hothers rfl (fun _ => rfl) ?_))
      (.literal (by simp [Value.type])) (.inl rfl)
    simpa [Expr.operands] using And.intro hes.2.1 hes.1
  | endsWith text suffix =>
    simp only [List.forall_mem_cons] at hes
    have hlength : (Expr.function "CHAR_LENGTH" [suffix]).TypedOther schema τ :=
      .of_operator rfl rfl (hothers rfl (fun _ => rfl) (by simpa [Expr.operands] using hes.2.1))
    refine Expr.typed_comparison rfl (.of_operator rfl rfl (hothers rfl (fun _ => rfl) ?_))
      hes.2.1 (.inl rfl)
    simpa [Expr.operands] using And.intro hes.1 hlength
  | isNullOrEmpty trimmed text =>
    rw [List.forall_mem_singleton] at hes
    have hcompared : (if trimmed then Expr.trim none none text else text).TypedOther schema τ := by
      cases trimmed with
      | true =>
        exact .of_operator rfl rfl (hothers rfl (fun _ => rfl) (by simpa [Expr.operands] using hes))
      | false => exact hes
    have hempty : (Expr.binary (if trimmed then Expr.trim none none text else text) .equal
        (.literal (.string ""))).Typed schema τ :=
      Expr.typed_comparison rfl hcompared (.literal (by simp [Value.type]))
        (.inr (by simp [Expr.agrees, Expr.int, Value.agrees]))
    have hnull : (Expr.isNull text false).Typed schema τ :=
      .operator rfl (List.forall_mem_singleton.mpr hes.1) rfl
    refine .operator rfl ?_ rfl
    simpa [Expr.operands] using And.intro hnull hempty
  | utcTimestamp =>
    have hnow : (Expr.keyword "CURRENT_TIMESTAMP").TypedOther schema τ :=
      .of_operator rfl rfl (hothers rfl (fun _ => rfl) (List.forall_mem_nil _))
    have hzoned : (Expr.atTimeZone (.keyword "CURRENT_TIMESTAMP") "UTC").TypedOther schema τ :=
      .of_operator rfl rfl (hothers rfl (fun _ => rfl) (List.forall_mem_singleton.mpr hnow))
    exact hothers rfl (fun _ => rfl) (List.forall_mem_singleton.mpr hzoned)
  | _ =>
    refine hothers rfl (fun _ => rfl) ?_
    simp_all [Expr.operands]

theorem Expr.TypedOther.add_one {e : Expr} (he : e.TypedOther schema τ) (op : BinaryOperator)
    (hop : op = .add ∨ op = .subtract) : (Expr.binary e op (.int 1)).TypedOther schema τ := by
  have hone : (Expr.int 1).TypedOther schema τ := .literal (by simp [Value.type])
  rcases hop with rfl | rfl <;>
    exact .of_operator rfl rfl (Expr.typed_of_others rfl (fun _ => rfl)
      (by simpa [Expr.operands] using And.intro he hone))

/-- Adjusted operands are no truth values if the given ones are not. -/
theorem Adjustment.typedOther_operands {a : Adjustment} {caps : Capabilities} {es es' : List Expr}
    (hes : ∀ o ∈ es, o.TypedOther schema τ) (h : a.operands caps es = .ok es') :
    ∀ o ∈ es', o.TypedOther schema τ := by
  rcases operands_eq_ok h with rfl | ⟨text, start, start', rest, rfl, rfl, hstart⟩
  · exact hes
  · simp only [List.forall_mem_cons] at hes ⊢
    refine ⟨hes.1, ?_, hes.2.2⟩
    unfold oneBased at hstart
    split at hstart
    · split at hstart
      · cases hstart
      split at hstart <;> cases hstart
      refine .literal ?_
      unfold successor
      split <;> (try split) <;> simp [Value.type]
    · cases hstart
      exact hes.2.1.add_one .add (.inl rfl)

section

variable {op : Operation} {arity : Nat} {x : Mapping} {caps : Capabilities}
  {receiver? : Option Expr} {args : List Expr} {e : Expr}

/-- An operation has truth values if it is a test. -/
theorem Mapping.kind_of_apply (hx : Mapping.find op arity = .ok x)
    (h : x.apply caps receiver? args = .ok e) : e.kind τ = .ofCondition op.isTest := by
  obtain ⟨⟨op', hop'⟩, hpredicate⟩ := Mapping.isPredicate_of_apply hx h
  rw [Expr.kind_of_operator hop', hpredicate]

/-- An operation on values that are no truth values is typed. -/
theorem Mapping.typed_of_apply (hx : Mapping.find op arity = .ok x)
    (h : x.apply caps receiver? args = .ok e) (hreceiver : ∀ o ∈ receiver?, o.TypedOther schema τ)
    (hargs : ∀ o ∈ args, o.TypedOther schema τ) : e.Typed schema τ := by
  have hgiven : ∀ o ∈ receiver?.toList ++ args, o.TypedOther schema τ := by
    simpa [or_imp, forall_and] using And.intro hreceiver hargs
  obtain ⟨operands, built, hoperands, hbuilt, rfl⟩ := Mapping.apply_eq_ok h
  have htyped := Template.typed_of_build? (Adjustment.typedOther_operands hgiven hoperands) hbuilt
  obtain ⟨⟨op', hop'⟩, hpredicate⟩ := Template.isPredicate_of_build? hbuilt
  have hother : x.adjustment.computes = true → built.TypedOther schema τ := by
    intro hcomputes
    rw [Mapping.isCondition_template x (Mapping.mem_of_find hx) hcomputes] at hpredicate
    exact .of_operator hop' hpredicate htyped
  cases ha : x.adjustment <;> rw [ha] at hother
  case none | oneBasedStart => exact htyped
  case incrementResult => exact ((hother rfl).add_one .add (.inl rfl)).1
  case decrementResult => exact ((hother rfl).add_one .subtract (.inr rfl)).1
  case truncateResult =>
    exact Expr.typed_of_others rfl (fun _ => rfl) (List.forall_mem_singleton.mpr (hother rfl))

end

/-! ### Drafts -/

theorem Select.kinds_eq (s : Select) : s.kinds schema τ
    = columnKinds (s.scope schema τ) (s.origin.kinds schema τ) s.columns := by
  cases s
  rfl

/-- The draft is typed, and its columns have the kinds of those of the sequence. -/
structure Draft.Typed (d : Draft) (schema : Schema) (τ : Columns Kind) (Γ : Fields Kind)
    (q : Query) : Prop where
  select : d.select.Typed schema τ
  source : d.select.origin.alias? = some d.row.actual
  bare : d.projected = false → d.select.columns = []
  named : AllNamed d.select.columns
  kinds : columnKinds (d.select.scope schema τ) (d.select.origin.kinds schema τ)
    (d.finalColumns d.row.actual) = q.kinds schema Γ

namespace Draft.Typed

variable {d : Draft} {q : Query} (hd : d.Typed schema τ Γ q)

include hd

theorem origin_kinds (hproj : d.projected = false) :
    d.select.origin.kinds schema τ = q.kinds schema Γ := by
  rw [← hd.kinds, finalColumns, hd.bare hproj]
  rfl

/-- The statement of a typed draft is typed, with or without its ordering. -/
theorem finish {s s' : Select} (h : d.finish = .ok s)
    (hs' : s' = s ∨ s' = { s with ordering := [] }) :
    s'.Typed schema τ ∧ s'.kinds schema τ = q.kinds schema Γ := by
  obtain ⟨w, _, rfl⟩ := (Draft.finish_eq_ok hd.source).mp h
  have hcolumns : ∀ c ∈ d.finalColumns d.row.actual,
      c.expr.Typed schema (d.select.scope schema τ) := by
    intro c hc
    unfold finalColumns at hc
    split at hc
    · rw [List.mem_singleton.mp hc]
      exact .leaf rfl (by simp)
    · exact hd.select.columns c hc
  have hshown : d.finalColumns d.row.actual = [⟨.allColumns d.row.actual, none⟩] ∨
      ∀ source, ⟨.allColumns source, none⟩ ∉ d.finalColumns d.row.actual := by
    unfold finalColumns
    split
    · exact .inl rfl
    · exact .inr fun source hc => by cases hd.named _ hc
  rcases hs' with rfl | rfl
  all_goals
    refine ⟨.intro ?_ hcolumns hd.select.conditions hd.select.conditions_pass ?_ hd.select.origin,
      (Select.kinds_eq _).trans hd.kinds⟩
    · refine hshown.imp_left fun hall => ?_
      simp only [Select.selectsAllColumns, hall, hd.source, beq_self_eq_true]
    · first
        | exact hd.select.ordering
        | exact fun k hk => absurd hk List.not_mem_nil

theorem existence {s : Select} (h : d.existence = .ok s) : s.Typed schema τ := by
  obtain ⟨w, _, rfl⟩ := (Draft.existence_eq_ok hd.source).mp h
  refine .intro (.inr ?_) ?_ hd.select.conditions hd.select.conditions_pass ?_ hd.select.origin
  · intro source hc
    cases List.mem_singleton.mp hc
  · intro c hc
    rw [List.mem_singleton.mp hc]
    exact .leaf rfl (by simp [Expr.int])
  · intro k hk
    dsimp only at hk
    split at hk
    · exact hd.select.ordering k hk
    · cases hk

/-- A draft that is pushed down stays typed. -/
theorem pushed {caps : Capabilities} {frames : List Frame} {n m : Naming} {d' : Draft}
    (htracks : d.Tracks caps frames n q) (h : Gives (pushDown d) n d' m) :
    d'.Typed schema τ Γ q := by
  obtain ⟨inner, ordering, hfinish, hcarry, _, rfl⟩ := gives_pushDown.mp h
  have hinner : (if inner.isPaged then inner else { inner with ordering := [] }).Typed schema τ ∧
      (if inner.isPaged then inner else { inner with ordering := [] }).kinds schema τ
        = q.kinds schema Γ := by
    split
    · exact hd.finish hfinish (.inl rfl)
    · exact hd.finish hfinish (.inr rfl)
  have hkeys : ∀ k' ∈ ordering, k'.expr.Typed schema
      (τ.within (some (Text.numbered "t" n.next)) (q.kinds schema Γ)) := by
    intro k' hk'
    obtain ⟨k, hk, hcarried⟩ := exists_carry_of_carryOrdering hcarry hk'
    obtain ⟨w, _, rfl⟩ := (Draft.finish_eq_ok hd.source).mp hfinish
    rcases carry_eq_some hcarried with
      ⟨c, _, name, _, _, hcolumn⟩ | ⟨old, hall, hold, hsubquery, hrename⟩
    · rw [hcolumn]
      exact .leaf rfl (by simp)
    · rw [hrename]
      refine (hd.select.ordering k hk).rename hsubquery fun source name hx => ?_
      have hold' : d.select.origin.alias? = some old := hold
      have horigin : d.select.origin.kinds schema τ = q.kinds schema Γ := by
        rw [← hd.kinds, show d.finalColumns d.row.actual = [⟨.allColumns old, none⟩] from hall]
        rfl
      rw [Select.scope, hold', horigin, renamed]
      split
      · rename_i heq
        rw [heq, Columns.within_self, Columns.within_self]
      · rename_i hne
        rw [Columns.within_ne (htracks.ne_next_of_key hk hx), Columns.within_ne hne]
  refine
    { select := .intro (.inr ?_) ?_ ?_ ?_ ?_ ?_
      source := rfl
      bare := fun _ => rfl
      named := fun c hc => absurd hc List.not_mem_nil
      kinds := ?_ }
  · exact fun source hc => absurd hc List.not_mem_nil
  · exact fun c hc => absurd hc List.not_mem_nil
  · exact fun e he => absurd he List.not_mem_nil
  · exact fun e he => absurd he List.not_mem_nil
  · intro k' hk'
    rw [← hinner.2] at hkeys
    exact hkeys k' hk'
  · rintro rows source ⟨⟩
    exact hinner.1
  · exact hinner.2

theorem filtered {e : Expr} (he : e.Typed schema (d.select.scope schema τ))
    (hpass : e.passes (d.select.scope schema τ) .truth = true) (predicate : Query) :
    (d.filtered e).Typed schema τ Γ (.filter q predicate) where
  select := by
    refine .intro hd.select.shown hd.select.columns ?_ ?_ hd.select.ordering hd.select.origin
    · exact List.forall_mem_append.mpr ⟨hd.select.conditions, List.forall_mem_singleton.mpr he⟩
    · exact List.forall_mem_append.mpr
        ⟨hd.select.conditions_pass, List.forall_mem_singleton.mpr hpass⟩
  source := hd.source
  bare := hd.bare
  named := hd.named
  kinds := hd.kinds

theorem ordered {k : OrderKey} (hk : k.expr.Typed schema (d.select.scope schema τ))
    (key : Query) (direction : Direction) :
    (d.ordered k).Typed schema τ Γ (.orderBy q key direction) where
  select := by
    refine .intro hd.select.shown hd.select.columns hd.select.conditions
      hd.select.conditions_pass ?_ hd.select.origin
    exact List.forall_mem_append.mpr ⟨hd.select.ordering, List.forall_mem_singleton.mpr hk⟩
  source := hd.source
  bare := hd.bare
  named := hd.named
  kinds := hd.kinds

theorem projecting {cs : List Column} {columns : List (String × Query)}
    (hproj : d.projected = false)
    (hcs : ∀ c ∈ cs, c.expr.Typed schema (d.select.scope schema τ))
    (hkinds : cs.map (fun c => (c.alias?, c.expr.kind (d.select.scope schema τ)))
      = columns.map fun c => (some c.1, c.2.valueKind (q.around schema Γ))) :
    (d.projecting cs).Typed schema τ Γ (.project q columns) := by
  have hnamed : AllNamed cs := by
    intro c hc
    have hmem := List.mem_map_of_mem
      (f := fun c : Column => (c.alias?, c.expr.kind (d.select.scope schema τ))) hc
    rw [hkinds] at hmem
    obtain ⟨column, _, hcolumn⟩ := List.mem_map.mp hmem
    rw [← (Prod.mk.inj hcolumn).1]
    rfl
  refine
    { select := .intro (.inr fun source hc => by cases hnamed _ hc) hcs hd.select.conditions
        hd.select.conditions_pass hd.select.ordering hd.select.origin
      source := hd.source
      bare := fun h => absurd h (by simp [Draft.projecting])
      named := hnamed
      kinds := ?_ }
  rw [Query.kinds]
  cases columns with
  | nil =>
    obtain rfl : cs = [] := List.map_eq_nil_iff.mp hkinds
    exact hd.origin_kinds hproj
  | cons column rest =>
    have hlookup := congrArg (List.map fun cell : Option String × Kind =>
      (cell.1.getD "", cell.2)) hkinds
    simp only [List.map_map, Function.comp_def, Option.getD_some] at hlookup
    have hall : areAll cs = false := by
      rcases cs with _ | ⟨⟨e, _ | name⟩, cs⟩
      · cases hkinds
      · cases hnamed _ List.mem_cons_self
      · cases e <;> rfl
    have hne : cs.isEmpty = false := by
      cases cs with
      | nil => cases hkinds
      | cons => rfl
    funext name
    simp only [Draft.finalColumns, Draft.projecting, hne, Bool.false_eq_true, if_false,
      columnKinds, hall, List.isEmpty_cons]
    exact congrArg (fun cells : List (String × Kind) => (cells.lookup name).getD .other) hlookup

theorem paging (p : Paging) {q' : Query} (hq : q'.kinds schema Γ = q.kinds schema Γ) :
    Draft.Typed { d with paging := p } schema τ Γ q' where
  select := hd.select
  source := hd.source
  bare := hd.bare
  named := hd.named
  kinds := hd.kinds.trans hq.symm

end Draft.Typed

/-! ### Scalars and sequences -/

theorem isNullLiteral_of_gives {caps : Capabilities} {n m : Naming} {q : Query} {e : Expr}
    (h : Gives (expression caps q) n e m) : e.isNullLiteral = isNullConstant q := by
  have hliteral := literal?_of_gives h
  have he : e.isNullLiteral = e.literal?.any (fun v => v.type == .null) := by
    cases e with
    | literal v => cases v <;> rfl
    | _ => rfl
  have hq : isNullConstant q = q.constant?.any (fun v => v.type == .null) := by
    cases q with
    | constant v => cases v <;> rfl
    | _ => rfl
  rw [he, hliteral, hq]

/-- The expression of a scalar has values of the kind of those of the scalar. -/
theorem kind_of_gives {caps : Capabilities} {n m : Naming} (hr : n.Reads τ Γ) {q : Query}
    {e : Expr} (h : Gives (expression caps q) n e m) : e.kind τ = q.valueKind Γ := by
  cases q with
  | constant v =>
    rw [(gives_constant.mp h).1]
    rfl
  | parameter p =>
    rw [(gives_parameter.mp h).1]
    rfl
  | member receiver? member =>
    cases member with
    | column alias? name =>
      obtain ⟨_, row, hrow, rfl, _⟩ := gives_column.mp h
      exact hr alias? row hrow name
    | property p =>
      obtain ⟨_, _, _, hx, happly⟩ := gives_property.mp h
      exact Mapping.kind_of_apply hx happly
  | call receiver? method args =>
    obtain ⟨_, _, _, _, hx, _, _, happly⟩ := gives_call.mp h
    exact Mapping.kind_of_apply hx happly
  | binary left op right =>
    rw [gives_binary] at h
    split at h
    · rename_i hnull
      obtain ⟨_, _, rfl⟩ := h
      cases op <;> first
        | rfl
        | cases hnull
    · split at h
      · rename_i hnull
        obtain ⟨_, _, rfl⟩ := h
        cases op <;> first
          | rfl
          | cases hnull
      · obtain ⟨_, _, _, _, _, rfl⟩ := h
        rfl
  | unary op operand =>
    cases op with
    | not =>
      obtain ⟨_, _, rfl⟩ := gives_not.mp h
      rfl
    | negate =>
      obtain ⟨_, _, rfl⟩ := gives_negate.mp h
      rfl
  | any rows predicate? =>
    obtain ⟨_, rfl⟩ := existsRow_of_gives_any h
    rfl
  | source | filter | project | skip | take | orderBy =>
    exact absurd h (not_gives_expression rfl)

theorem passes_of_gives {caps : Capabilities} {n m : Naming} (hr : n.Reads τ Γ) {q : Query}
    {e : Expr} (h : Gives (expression caps q) n e m) (k : Kind) :
    e.passes τ k = q.passes Γ k := by
  rw [Expr.passes, Query.passes, isNullLiteral_of_gives h, kind_of_gives hr h]

namespace Draft.Typed

variable {d : Draft} {q : Query} {caps : Capabilities} {frames : List Frame} {n m : Naming}

/-- The scalars of the next operator are typed in the scope of the draft. -/
theorem sees (hd : d.Typed schema τ Γ q) (htracks : d.Tracks caps frames n q)
    (hproj : d.projected = false) (h : n.Sees frames τ Γ) :
    ({ n with scopes := d.row :: n.scopes } : Naming).Sees (d.frame q :: frames)
      (d.select.scope schema τ) (q.around schema Γ) := by
  rw [Select.scope, hd.source, hd.origin_kinds hproj]
  exact h.enter htracks _

theorem pushedIf (hd : d.Typed schema τ Γ q) (htracks : d.Tracks caps frames n q) {needed : Bool}
    {d' : Draft} (h : Gives (pushDownIf needed d) n d' m) : d'.Typed schema τ Γ q := by
  rw [gives_pushDownIf] at h
  split at h
  · exact hd.pushed htracks h
  · obtain ⟨rfl, _⟩ := h
    exact hd

/-- Rows that have to meet a typed predicate are the typed filtered sequence. -/
theorem meeting {k k' : Naming} {rows predicate : Query} {d' : Draft}
    (hd : d.Typed schema τ Γ rows) (hcaps : caps.booleanType = true) (hn : n.Sees frames τ Γ)
    (haliases : rows.sourceAliases ⊆ n.sourceAliases) (hrows : Gives (sequence caps rows) n d k)
    (hpredicate : ∀ {n' m' : Naming} {frames' : List Frame} {τ' : Columns Kind} {e : Expr},
      n'.Sees frames' τ' (rows.around schema Γ) → n'.sourceAliases = n.sourceAliases →
      Gives (expression caps predicate) n' e m' → e.Typed schema τ')
    (hpass : predicate.passes (rows.around schema Γ) .truth = true)
    (h : Gives (Sql.meeting caps d (some predicate)) k d' k') :
    d'.Typed schema τ Γ (.filter rows predicate) := by
  simp only [gives_meeting_some, asPredicate_of_booleanType hcaps] at h
  obtain ⟨d₁, k₁, e, hpush, he, rfl⟩ := h
  obtain ⟨htracks₀, htracks, hk, -, hproj⟩ := hn.nextFlat haliases hrows hpush
  have hd₁ := hd.pushedIf htracks₀ hpush
  have hsees := hd₁.sees htracks hproj (hn.follows hk)
  obtain ⟨k₂, hin, -⟩ := gives_inRow.mp he
  exact hd₁.filtered (hpredicate hsees hk.sourceAliases hin)
    ((passes_of_gives hsees.reads hin .truth).trans hpass) predicate

end Draft.Typed

/-- An operator takes the expressions of scalars that it joins. -/
theorem takes_of_joins {caps : Capabilities} {n m k k' : Naming} (hn : n.Reads τ Γ)
    (hm : m.Reads τ Γ) {left right : Query} {op : QueryLoom.BinaryOperator} {l r : Expr}
    (hl : Gives (expression caps left) n l k) (hr : Gives (expression caps right) m r k')
    (hleft : ¬ (testsEquality op && isNullConstant left) = true)
    (hright : ¬ (testsEquality op && isNullConstant right) = true)
    (h : Query.joins Γ left op right = true) :
    Operator.takes τ (.binary (.ofQuery op)) [l, r] = true := by
  rw [Bool.not_eq_true] at hleft hright
  rw [Query.joins, Bool.and_or_distrib_left, hleft, hright] at h
  simp only [Bool.or_self, Bool.false_or] at h
  rw [Operator.takes]
  split at h <;> rename_i hop
  · have hone : ((BinaryOperator.ofQuery op == .equal) && isNullConstant left) = false := by
      cases op <;> first
        | rfl
        | exact hleft
    rw [if_pos hop, comparable, isNullLiteral_of_gives hl, isNullLiteral_of_gives hr,
      kind_of_gives hn hl, kind_of_gives hm hr, h, hone]
    rfl
  · rw [if_neg hop, List.all_cons, List.all_cons, List.all_nil, passes_of_gives hn hl,
      passes_of_gives hm hr, isLogical_ofQuery, Bool.and_true]
    exact h

section

variable {caps : Capabilities} (hcaps : caps.booleanType = true)

include hcaps

mutual

/-- Where there are Booleans, the expression of a typed scalar is typed. -/
theorem typed_of_gives {n m : Naming} {frames : List Frame} {τ : Columns Kind} {Γ : Fields Kind}
    (hn : n.Sees frames τ Γ) {e : Expr} : {q : Query} → q.sourceAliases ⊆ n.sourceAliases →
      q.isTyped schema Γ = true → Gives (expression caps q) n e m → e.Typed schema τ
  | .constant _, _, _, h => by
    rw [(gives_constant.mp h).1]
    exact .leaf rfl (by simp)
  | .parameter _, _, _, h => by
    rw [(gives_parameter.mp h).1]
    exact .leaf rfl (by simp)
  | .member receiver? (.column alias? name), _, _, h => by
    obtain ⟨_, row, _, rfl, _⟩ := gives_column.mp h
    exact .leaf rfl (by simp)
  | .member receiver? (.property p), haliases, htyped, h => by
    obtain ⟨_, _, hreceiver, hx, happly⟩ := gives_property.mp h
    rw [Query.isTyped] at htyped
    exact Mapping.typed_of_apply hx happly (typed_of_gives_optionValue hn haliases htyped hreceiver)
      (List.forall_mem_nil _)
  | .call receiver? method args, haliases, htyped, h => by
    obtain ⟨_, _, _, _, hx, hreceiver, hargs, happly⟩ := gives_call.mp h
    rw [Query.isTyped, Bool.and_eq_true] at htyped
    rw [Query.sourceAliases, List.append_subset] at haliases
    have hm := (keepsNames_optionValue caps receiver?).of_gives hreceiver
    exact Mapping.typed_of_apply hx happly
      (typed_of_gives_optionValue hn haliases.1 htyped.1 hreceiver)
      (typed_of_gives_values (hn.follows hm) (hm.sourceAliases ▸ haliases.2) htyped.2 hargs)
  | .binary left op right, haliases, htyped, h => by
    rw [Query.isTyped, Bool.and_eq_true, Bool.and_eq_true] at htyped
    rw [Query.sourceAliases, List.append_subset] at haliases
    simp only [gives_binary, asValue_of_booleanType hcaps, operand_of_booleanType hcaps] at h
    split at h
    · obtain ⟨e', he, rfl⟩ := h
      have hright := typed_of_gives hn haliases.2 htyped.1.2 he
      exact .operator rfl (List.forall_mem_singleton.mpr hright) rfl
    · rename_i hleft
      split at h
      · obtain ⟨e', he, rfl⟩ := h
        have hleft := typed_of_gives hn haliases.1 htyped.1.1 he
        exact .operator rfl (List.forall_mem_singleton.mpr hleft) rfl
      · rename_i hright
        obtain ⟨l, k, r, hl, hr, rfl⟩ := h
        have hk := (keepsNames_expression caps left).of_gives hl
        have hsees := hn.follows hk
        refine .operator rfl ?_ (takes_of_joins hn.reads hsees.reads hl hr hleft hright htyped.2)
        rintro o (_ | ⟨_, _ | ⟨_, ⟨⟩⟩⟩)
        · exact typed_of_gives hn haliases.1 htyped.1.1 hl
        · exact typed_of_gives hsees (hk.sourceAliases ▸ haliases.2) htyped.1.2 hr
  | .unary .not operand, haliases, htyped, h => by
    rw [Query.isTyped, Bool.and_eq_true] at htyped
    rw [Query.sourceAliases] at haliases
    simp only [gives_not, asPredicate_of_booleanType hcaps] at h
    obtain ⟨e', he, rfl⟩ := h
    have htakes : Operator.takes τ (.unary .not) [e'] = true := by
      rw [Operator.takes, List.all_cons, List.all_nil, passes_of_gives hn.reads he, Bool.and_true]
      exact htyped.2
    exact .operator rfl (List.forall_mem_singleton.mpr
      (typed_of_gives hn haliases htyped.1 he)) htakes
  | .unary .negate operand, haliases, htyped, h => by
    rw [Query.isTyped, Bool.and_eq_true] at htyped
    rw [Query.sourceAliases] at haliases
    simp only [gives_negate, asValue_of_booleanType hcaps] at h
    obtain ⟨e', he, rfl⟩ := h
    have htakes : Operator.takes τ (.unary .negate) [e'] = true := by
      rw [Operator.takes, List.all_cons, List.all_nil, passes_of_gives hn.reads he, Bool.and_true]
      exact htyped.2
    exact .operator rfl (List.forall_mem_singleton.mpr
      (typed_of_gives hn haliases htyped.1 he)) htakes
  | .any rows none, haliases, htyped, h => by
    rw [Query.isTyped, Bool.and_eq_true] at htyped
    rw [Query.sourceAliases, List.append_subset] at haliases
    obtain ⟨d, _, _, s, hd, hnone, hs, rfl⟩ := gives_any.mp h
    obtain ⟨rfl, -⟩ := gives_meeting_none.mp hnone
    exact .test ((typed_of_sequence hn haliases.1 htyped.1 hd).existence hs)
  | .any rows (some predicate), haliases, htyped, h => by
    rw [Query.isTyped, Bool.and_eq_true, Query.predicateTyped, Bool.and_eq_true] at htyped
    rw [Query.sourceAliases, List.append_subset] at haliases
    obtain ⟨d, k, d', s, hrows, hmeeting, hs, rfl⟩ := gives_any.mp h
    have hd := (typed_of_sequence hn haliases.1 htyped.1 hrows).meeting hcaps hn haliases.1 hrows
      (fun hsees hk hin => typed_of_gives hsees (hk ▸ haliases.2) htyped.2.1 hin) htyped.2.2
      hmeeting
    exact .test (hd.existence hs)
  | .source .., _, _, h | .filter .., _, _, h | .project .., _, _, h | .skip .., _, _, h
  | .take .., _, _, h | .orderBy .., _, _, h => absurd h (not_gives_expression rfl)

theorem typed_of_gives_optionValue {n m : Naming} {frames : List Frame} {τ : Columns Kind}
    {Γ : Fields Kind} (hn : n.Sees frames τ Γ) {e? : Option Expr} : {q? : Option Query} →
      Query.optionAliases q? ⊆ n.sourceAliases → Query.optionTyped schema Γ q? = true →
      Gives (optionValue caps q?) n e? m → ∀ e ∈ e?, e.TypedOther schema τ
  | none, _, _, h => by
    rw [(gives_optionValue_none.mp h).1]
    simp
  | some q, haliases, htyped, h => by
    simp only [gives_optionValue_some, asValue_of_booleanType hcaps] at h
    obtain ⟨e, he, rfl⟩ := h
    rw [Query.optionTyped, Bool.and_eq_true] at htyped
    rintro _ ⟨⟩
    exact ⟨typed_of_gives hn haliases htyped.1 he, (passes_of_gives hn.reads he _).trans htyped.2⟩

theorem typed_of_gives_values {n m : Naming} {frames : List Frame} {τ : Columns Kind}
    {Γ : Fields Kind} (hn : n.Sees frames τ Γ) {es : List Expr} : {qs : List Query} →
      Query.listAliases qs ⊆ n.sourceAliases → Query.listTyped schema Γ qs = true →
      Gives (values caps qs) n es m → ∀ e ∈ es, e.TypedOther schema τ
  | [], _, _, h => by
    rw [(gives_values_nil.mp h).1]
    exact List.forall_mem_nil _
  | q :: rest, haliases, htyped, h => by
    simp only [gives_values_cons, asValue_of_booleanType hcaps] at h
    obtain ⟨e, k, es', he, hes, rfl⟩ := h
    rw [Query.listTyped, Bool.and_eq_true, Bool.and_eq_true] at htyped
    rw [Query.listAliases, List.append_subset] at haliases
    have hk := (keepsNames_expression caps q).of_gives he
    exact List.forall_mem_cons.mpr
      ⟨⟨typed_of_gives hn haliases.1 htyped.1.1 he,
        (passes_of_gives hn.reads he _).trans htyped.1.2⟩,
      typed_of_gives_values (hn.follows hk) (hk.sourceAliases ▸ haliases.2) htyped.2 hes⟩

theorem typed_of_gives_projection {n m : Naming} {frames : List Frame} {τ : Columns Kind}
    {Γ : Fields Kind} (hn : n.Sees frames τ Γ) {cs : List Column} :
    {columns : List (String × Query)} → Query.columnAliases columns ⊆ n.sourceAliases →
      Query.columnsTyped schema Γ columns = true → Gives (projection caps columns) n cs m →
      (∀ c ∈ cs, c.expr.Typed schema τ) ∧ cs.map (fun c => (c.alias?, c.expr.kind τ))
        = columns.map fun c => (some c.1, c.2.valueKind Γ)
  | [], _, _, h => by
    rw [(gives_projection_nil.mp h).1]
    exact ⟨List.forall_mem_nil _, rfl⟩
  | (name, q) :: rest, haliases, htyped, h => by
    simp only [gives_projection_cons, asValue_of_booleanType hcaps] at h
    obtain ⟨e, k, cs', he, hcs, rfl⟩ := h
    rw [Query.columnsTyped, Bool.and_eq_true] at htyped
    rw [Query.columnAliases, List.append_subset] at haliases
    have hk := (keepsNames_expression caps q).of_gives he
    obtain ⟨htypes, hkinds⟩ := typed_of_gives_projection (hn.follows hk)
      (hk.sourceAliases ▸ haliases.2) htyped.2 hcs
    refine ⟨List.forall_mem_cons.mpr ⟨typed_of_gives hn haliases.1 htyped.1 he, htypes⟩, ?_⟩
    rw [List.map_cons, List.map_cons, hkinds, kind_of_gives hn.reads he]

/-- The draft of a typed sequence is typed. -/
theorem typed_of_sequence {n m : Naming} {frames : List Frame} {τ : Columns Kind} {Γ : Fields Kind}
    (hn : n.Sees frames τ Γ) {d : Draft} : {q : Query} → q.sourceAliases ⊆ n.sourceAliases →
      q.isTyped schema Γ = true → Gives (sequence caps q) n d m → d.Typed schema τ Γ q
  | .source table alias?, _, _, h => by
    obtain ⟨rfl, _⟩ := gives_source.mp h
    refine
      { select := .intro (.inr ?_) ?_ ?_ ?_ ?_ ?_
        source := rfl
        bare := fun _ => rfl
        named := fun c hc => absurd hc List.not_mem_nil
        kinds := rfl }
    · exact fun source hc => absurd hc List.not_mem_nil
    · exact fun c hc => absurd hc List.not_mem_nil
    · exact fun e he => absurd he List.not_mem_nil
    · exact fun e he => absurd he List.not_mem_nil
    · exact fun k hk => absurd hk List.not_mem_nil
    · rintro rows source ⟨⟩
  | .filter rows predicate, haliases, htyped, h => by
    rw [Query.isTyped, Bool.and_eq_true, Bool.and_eq_true] at htyped
    rw [Query.sourceAliases, List.append_subset] at haliases
    obtain ⟨d₀, k, hrows, hmeeting⟩ := gives_filter.mp h
    exact (typed_of_sequence hn haliases.1 htyped.1.1 hrows).meeting hcaps hn haliases.1 hrows
      (fun hsees hk hin => typed_of_gives hsees (hk ▸ haliases.2) htyped.1.2 hin) htyped.2 hmeeting
  | .project rows columns, haliases, htyped, h => by
    rw [Query.isTyped, Bool.and_eq_true] at htyped
    rw [Query.sourceAliases, List.append_subset] at haliases
    obtain ⟨d₀, k₀, d₁, k₁, cs, hrows, hpush, hcs, rfl⟩ := gives_project.mp h
    obtain ⟨htracks₀, htracks, hk, hproj⟩ := hn.next haliases.1 hrows Draft.projected
      (by rintro ⟨⟩ rfl rfl; rfl) hpush
    have hd := (typed_of_sequence hn haliases.1 htyped.1 hrows).pushedIf htracks₀ hpush
    have hsees := hd.sees htracks hproj (hn.follows hk)
    obtain ⟨k', hcs', _⟩ := gives_inRow.mp hcs
    obtain ⟨htypes, hkinds⟩ := typed_of_gives_projection hsees (hk.sourceAliases ▸ haliases.2)
      htyped.2 hcs'
    exact hd.projecting hproj htypes hkinds
  | .skip rows count, haliases, htyped, h => by
    rw [Query.sourceAliases, List.append_subset] at haliases
    obtain ⟨d₀, k₀, d₁, e, hrows, hpush, he, rfl⟩ := gives_skip.mp h
    obtain ⟨htracks₀, _⟩ := hn.next haliases.1 hrows Draft.isPaged
      (by rintro ⟨⟩ rfl rfl; rfl) hpush
    exact ((typed_of_sequence hn haliases.1 htyped hrows).pushedIf htracks₀ hpush).paging _ rfl
  | .take rows count, haliases, htyped, h => by
    rw [Query.sourceAliases, List.append_subset] at haliases
    obtain ⟨d₀, k₀, d₁, e, hrows, hpush, he, rfl⟩ := gives_take.mp h
    obtain ⟨htracks₀, _⟩ := hn.next haliases.1 hrows (fun d => d.paging.take?.isSome)
      (by rintro ⟨⟩ rfl rfl; rfl) hpush
    exact ((typed_of_sequence hn haliases.1 htyped hrows).pushedIf htracks₀ hpush).paging _ rfl
  | .orderBy rows key direction, haliases, htyped, h => by
    rw [Query.isTyped, Bool.and_eq_true] at htyped
    rw [Query.sourceAliases, List.append_subset] at haliases
    simp only [gives_orderBy, asValue_of_booleanType hcaps] at h
    obtain ⟨d₀, k₀, d₁, k₁, e, hrows, hpush, he, rfl⟩ := h
    obtain ⟨htracks₀, htracks, hk, -, hproj⟩ := hn.nextFlat haliases.1 hrows hpush
    have hd := (typed_of_sequence hn haliases.1 htyped.1 hrows).pushedIf htracks₀ hpush
    have hsees := hd.sees htracks hproj (hn.follows hk)
    obtain ⟨k', he', _⟩ := gives_inRow.mp he
    exact hd.ordered (typed_of_gives hsees (hk.sourceAliases ▸ haliases.2) htyped.2 he') key
      direction
  | .any .., _, _, h | .member .., _, _, h | .call .., _, _, h | .constant _, _, _, h
  | .parameter _, _, _, h | .binary .., _, _, h | .unary .., _, _, h =>
    absurd h (not_gives_sequence rfl)

end

end

end QueryLoom.Sql

/-
  QueryLoom/Proofs/Meaning/Operands.lean
  ======================================
  **An expression as an operator and its operands.**  Every expression is a column, all columns,
  a constant, a parameter, a test for rows, or an operator with operands.  What is true of
  operators in general is said once, in terms of `Expr.operator?` and `Expr.operands`, and not
  for each form of expression again.

    * `Inherited.of_expr`, `Inherited.of_select` — a property holds of all expressions and
      statements if it is passed on from operands to expressions and from the clauses of a
      statement to the statement;
    * `Expr.eq_of_operands` — an expression is determined by its operator and its operands;
    * `agrees_of_operator` — an expression agrees with those that have the same operator and
      operands that agree.
-/
import QueryLoom.Proofs.Scoping.Parts

namespace QueryLoom.Sql

/-! ### Induction -/

theorem sizeOf_lt_of_mem_operands {e o : Expr} (h : o ∈ e.operands) : sizeOf o < sizeOf e := by
  have hoption : ∀ {e? : Option Expr}, o ∈ e?.toList → sizeOf o < sizeOf e? := by
    rintro (_ | e) h
    · cases h
    · rw [List.mem_singleton.mp h, Option.some.sizeOf_spec]
      omega
  cases e with
  | column | allColumns | literal | parameter | keyword | existsRow => cases h
  | function name args =>
    have : sizeOf o < sizeOf args := List.sizeOf_lt_of_mem h
    rw [Expr.function.sizeOf_spec]
    omega
  | trim side? chars? text =>
    rw [Expr.trim.sizeOf_spec]
    rcases List.mem_append.mp h with h | h
    · have := hoption h
      omega
    · rw [List.mem_singleton.mp h]
      omega
  | substring text start length? =>
    rw [Expr.substring.sizeOf_spec]
    rcases List.mem_cons.mp h with rfl | h
    · omega
    · rcases List.mem_cons.mp h with rfl | h
      · omega
      · have := hoption h
        omega
  | extract | cast | atTimeZone | unary | isNull =>
    rw [List.mem_singleton.mp h]
    simp +arith
  | position left right | dateAdd left part right | binary left op right =>
    rcases List.mem_cons.mp h with rfl | h
    · simp +arith
    · rw [List.mem_singleton.mp h]
      simp +arith
  | case whens otherwise? =>
    rw [Expr.case.sizeOf_spec]
    rcases List.mem_append.mp h with h | h
    · obtain ⟨⟨condition, result⟩, hw, h⟩ := List.mem_flatMap.mp h
      have := List.sizeOf_lt_of_mem hw
      rw [When.mk.sizeOf_spec] at this
      simp only [List.mem_cons, List.not_mem_nil, or_false] at h
      rcases h with rfl | rfl <;> omega
    · have := hoption h
      omega

theorem sizeOf_lt_of_mem_columns {s : Select} {c : Column} (h : c ∈ s.columns) :
    sizeOf c.expr < sizeOf s := by
  rcases s with ⟨columns, origin, conditions, ordering, window?⟩
  rcases c with ⟨e, alias?⟩
  have : sizeOf (⟨e, alias?⟩ : Column) < sizeOf columns := List.sizeOf_lt_of_mem h
  rw [Column.mk.sizeOf_spec] at this
  rw [Select.mk.sizeOf_spec]
  dsimp only
  omega

theorem sizeOf_lt_of_mem_conditions {s : Select} {e : Expr} (h : e ∈ s.conditions) :
    sizeOf e < sizeOf s := by
  rcases s with ⟨columns, origin, conditions, ordering, window?⟩
  have : sizeOf e < sizeOf conditions := List.sizeOf_lt_of_mem h
  rw [Select.mk.sizeOf_spec]
  omega

theorem sizeOf_lt_of_mem_ordering {s : Select} {k : OrderKey} (h : k ∈ s.ordering) :
    sizeOf k.expr < sizeOf s := by
  rcases s with ⟨columns, origin, conditions, ordering, window?⟩
  rcases k with ⟨e, direction⟩
  have : sizeOf (⟨e, direction⟩ : OrderKey) < sizeOf ordering := List.sizeOf_lt_of_mem h
  rw [OrderKey.mk.sizeOf_spec] at this
  rw [Select.mk.sizeOf_spec]
  dsimp only
  omega

theorem sizeOf_lt_of_origin {s rows : Select} {source : String}
    (h : s.origin = .derived rows source) : sizeOf rows < sizeOf s := by
  rcases s with ⟨columns, origin, conditions, ordering, window?⟩
  obtain rfl : origin = .derived rows source := h
  rw [Select.mk.sizeOf_spec, Origin.derived.sizeOf_spec]
  omega

theorem sizeOf_lt_of_mem_window {s : Select} {w : Window} (h : w ∈ s.window?) :
    sizeOf w.lower < sizeOf s ∧ ∀ upper ∈ w.upper?, sizeOf upper < sizeOf s := by
  rcases s with ⟨columns, origin, conditions, ordering, window?⟩
  rcases w with ⟨lower, upper?⟩
  obtain rfl : window? = some ⟨lower, upper?⟩ := h
  rw [Select.mk.sizeOf_spec, Option.some.sizeOf_spec, Window.mk.sizeOf_spec]
  refine ⟨by dsimp only; omega, ?_⟩
  rintro upper ⟨⟩
  rw [Option.some.sizeOf_spec]
  omega

/-- Two properties that pass from the parts to the whole: to an expression from its operands and
    the statement that it tests, and to a statement from its clauses and the statement that it
    reads from. -/
structure Inherited (P : Expr → Prop) (Q : Select → Prop) : Prop where
  expression (e : Expr) (operands : ∀ o ∈ e.operands, P o)
    (test : ∀ rows, e = .existsRow rows → Q rows) : P e
  statement (s : Select) (columns : ∀ c ∈ s.columns, P c.expr)
    (conditions : ∀ e ∈ s.conditions, P e) (ordering : ∀ k ∈ s.ordering, P k.expr)
    (origin : ∀ rows source, s.origin = .derived rows source → Q rows) : Q s

namespace Inherited

variable {P : Expr → Prop} {Q : Select → Prop} (h : Inherited P Q)

include h

mutual

/-- An inherited property holds of every expression. -/
theorem of_expr (e : Expr) : P e := by
  refine h.expression e (fun o ho => ?_) (fun rows hrows => ?_)
  · have := sizeOf_lt_of_mem_operands ho
    exact of_expr o
  · have : sizeOf rows < sizeOf e := by
      rw [hrows, Expr.existsRow.sizeOf_spec]
      omega
    exact of_select rows
termination_by sizeOf e

/-- An inherited property holds of every statement. -/
theorem of_select (s : Select) : Q s := by
  refine h.statement s (fun c hc => ?_) (fun e he => ?_) (fun k hk => ?_)
    fun rows source horigin => ?_
  · have := sizeOf_lt_of_mem_columns hc
    exact of_expr c.expr
  · have := sizeOf_lt_of_mem_conditions he
    exact of_expr e
  · have := sizeOf_lt_of_mem_ordering hk
    exact of_expr k.expr
  · have := sizeOf_lt_of_origin horigin
    exact of_select rows
termination_by sizeOf s

end

end Inherited

/-- Induction on the operands of an expression, with one case for all operators. -/
@[elab_as_elim]
theorem Expr.induction_on_operands {P : Expr → Prop} (e : Expr)
    (column : ∀ source name, P (.column source name))
    (allColumns : ∀ source, P (.allColumns source)) (literal : ∀ v, P (.literal v))
    (parameter : ∀ p, P (.parameter p)) (existsRow : ∀ rows, P (.existsRow rows))
    (operator : ∀ e op, e.operator? = some op → (∀ o ∈ e.operands, P o) → P e) : P e := by
  have hall : Inherited P (fun _ => True) := by
    refine ⟨?_, fun _ _ _ _ _ => trivial⟩
    intro e ih _
    cases hop : e.operator? with
    | some op => exact operator e op hop ih
    | none =>
      cases e with
      | column source name => exact column source name
      | allColumns source => exact allColumns source
      | literal v => exact literal v
      | parameter p => exact parameter p
      | existsRow rows => exact existsRow rows
      | _ => cases hop
  exact hall.of_expr e

/-! ### What operators pass on -/

theorem operator?_rename (old new : String) (e : Expr) :
    (e.rename old new).operator? = e.operator? := by
  cases e <;> simp [Expr.rename, Expr.operator?, isSome_rename]

theorem operands_rename (old new : String) (e : Expr) :
    (e.rename old new).operands = e.operands.map (Expr.rename old new) := by
  have hlist : ∀ es : List Expr, renameList old new es = es.map (Expr.rename old new) := by
    intro es
    induction es with
    | nil => rfl
    | cons e rest ih => rw [renameList, ih, List.map_cons]
  have hoption : ∀ e? : Option Expr,
      (renameOption old new e?).toList = e?.toList.map (Expr.rename old new) := by
    rintro (_ | e) <;> rfl
  have hwhens : ∀ ws : List When,
      (renameWhens old new ws).flatMap (fun w => [w.condition, w.result])
        = (ws.flatMap fun w => [w.condition, w.result]).map (Expr.rename old new) := by
    intro ws
    induction ws with
    | nil => rfl
    | cons w rest ih =>
      rcases w with ⟨condition, result⟩
      simp [renameWhens, ih]
  cases e <;> simp [Expr.rename, Expr.operands, hlist, hoption, hwhens]

/-- The parts of an expression are the expression and the parts of its operands. -/
theorem parts_eq (e : Expr) : e.parts = e :: e.operands.flatMap Expr.parts := by
  have hoption : ∀ e? : Option Expr, partsOption e? = e?.toList.flatMap Expr.parts := by
    rintro (_ | e) <;> simp [partsOption]
  have hwhens : ∀ ws : List When, partsWhens ws
      = (ws.flatMap fun w => [w.condition, w.result]).flatMap Expr.parts := by
    intro ws
    induction ws with
    | nil => rfl
    | cons w rest ih =>
      rcases w with ⟨condition, result⟩
      simp [partsWhens, ih]
  cases e <;> simp [Expr.parts, Expr.operands, partsList_eq_flatMap, hoption, hwhens]

theorem mem_parts_of_mem_operands {e o x : Expr} (ho : o ∈ e.operands) (hx : x ∈ o.parts) :
    x ∈ e.parts := by
  rw [parts_eq]
  exact List.mem_cons_of_mem _ (List.mem_flatMap.mpr ⟨o, ho, hx⟩)

/-- An expression holds a statement if it is a test or one of its operands holds one. -/
theorem hasSubquery_eq (e : Expr) :
    e.hasSubquery = (e.isExists || e.operands.any Expr.hasSubquery) := by
  have hlist : ∀ es : List Expr, (walkList es).any Expr.isExists = es.any Expr.hasSubquery := by
    intro es
    induction es with
    | nil => rfl
    | cons e rest ih => rw [walkList, List.any_append, ih, List.any_cons, Expr.hasSubquery]
  have hoption : ∀ e? : Option Expr,
      (walkOption e?).any Expr.isExists = e?.toList.any Expr.hasSubquery := by
    rintro (_ | e) <;> simp [walkOption, Expr.hasSubquery]
  have hwhens : ∀ ws : List When, (walkWhens ws).any Expr.isExists
      = (ws.flatMap fun w => [w.condition, w.result]).any Expr.hasSubquery := by
    intro ws
    induction ws with
    | nil => rfl
    | cons w rest ih =>
      rcases w with ⟨condition, result⟩
      rw [walkWhens, List.any_append, List.any_append, ih, List.flatMap_cons, List.any_append,
        ← Expr.hasSubquery, ← Expr.hasSubquery]
      simp
  conv_lhs => rw [Expr.hasSubquery]
  cases e <;> simp [Expr.walk, Expr.isExists, Expr.operands, hlist, hoption, hwhens,
    Expr.hasSubquery]

theorem Expr.hasSubquery_of_mem_operands {e o : Expr} (h : e.hasSubquery = false)
    (ho : o ∈ e.operands) : o.hasSubquery = false := by
  rw [hasSubquery_eq, Bool.or_eq_false_iff, List.any_eq_false] at h
  simpa using h.2 o ho

/-- A function that maps the operands and keeps tests adds no statement and takes none away. -/
theorem hasSubquery_of_map {g : Expr → Expr} (hexists : ∀ e, (g e).isExists = e.isExists)
    (hoperands : ∀ e, (g e).operands = e.operands.map g) (e : Expr) :
    (g e).hasSubquery = e.hasSubquery := by
  have hall : Inherited (fun e => (g e).hasSubquery = e.hasSubquery) (fun _ => True) := by
    refine ⟨?_, fun _ _ _ _ _ => trivial⟩
    intro e ih _
    rw [hasSubquery_eq (g e), hexists, hoperands, hasSubquery_eq e, List.any_map]
    congr 1
    rw [Bool.eq_iff_iff, List.any_eq_true, List.any_eq_true]
    exact exists_congr fun o => and_congr_right fun ho => by rw [Function.comp, ih o ho]
  exact hall.of_expr e

/-! ### What operators determine -/

theorem length_toList {α : Type} (a? : Option α) : a?.toList.length = a?.isSome.toNat := by
  cases a? <;> rfl

theorem toList_injective {α : Type} {a? b? : Option α} (h : a?.toList = b?.toList) : a? = b? := by
  simpa only [Option.head?_toList] using congrArg List.head? h

theorem flatMap_whens_injective {ws ws' : List When}
    (h : (ws.flatMap fun w => [w.condition, w.result])
      = ws'.flatMap fun w => [w.condition, w.result]) : ws = ws' := by
  induction ws generalizing ws' with
  | nil =>
    cases ws' with
    | nil => rfl
    | cons w' ws' => simp at h
  | cons w ws ih =>
    cases ws' with
    | nil => simp at h
    | cons w' ws' =>
      rcases w with ⟨condition, result⟩
      rcases w' with ⟨condition', result'⟩
      simp only [List.flatMap_cons, List.cons_append, List.nil_append, List.cons.injEq] at h
      obtain ⟨rfl, rfl, hrest⟩ := h
      rw [ih hrest]

/-- An expression with an operator is determined by it and by its operands. -/
theorem Expr.eq_of_operands {e e' : Expr} {op : Operator} (h : e.operator? = some op)
    (h' : e'.operator? = some op) (hoperands : e.operands = e'.operands) : e = e' := by
  cases e <;> cases h <;> cases e' <;> try cases h'
  case trim.refl.trim side? chars? text side'? chars'? text' =>
    simp only [Expr.operator?, Option.some.injEq, Operator.trim.injEq] at h'
    obtain ⟨hchars, htext⟩ := List.append_inj' hoperands rfl
    rw [h'.1, toList_injective hchars, List.singleton_inj.mp htext]
  case substring.refl.substring =>
    simp only [Expr.operands, List.cons.injEq] at hoperands
    rw [hoperands.1, hoperands.2.1, toList_injective hoperands.2.2]
  case case.refl.case whens otherwise? whens' otherwise'? =>
    simp only [Expr.operator?, Option.some.injEq, Operator.case.injEq] at h'
    -- both have an ELSE or neither has one, so the operands split in one way
    obtain ⟨hwhens, hotherwise⟩ :=
      List.append_inj' hoperands (by rw [length_toList, length_toList, h'])
    rw [flatMap_whens_injective hwhens, toList_injective hotherwise]
  all_goals simp_all [Expr.operands]

/-! ### Agreement -/

/-- Two lists agree place by place. -/
abbrev Agree (es es' : List Expr) : Prop := List.Forall₂ (fun e e' => e.agrees e' = true) es es'

theorem agreeList_iff {es es' : List Expr} : agreeList es es' = true ↔ Agree es es' := by
  induction es generalizing es' with
  | nil => cases es' <;> simp [agreeList]
  | cons e es ih => cases es' <;> simp [agreeList, ih]

theorem agreeOption_iff {e? e'? : Option Expr} :
    agreeOption e? e'? = true ↔ Agree e?.toList e'?.toList := by
  cases e? <;> cases e'? <;> simp [agreeOption]

theorem agreeWhens_iff {ws ws' : List When} :
    agreeWhens ws ws' = true ↔ Agree (ws.flatMap fun w => [w.condition, w.result])
      (ws'.flatMap fun w => [w.condition, w.result]) := by
  induction ws generalizing ws' with
  | nil => rcases ws' with _ | ⟨⟨c', r'⟩, ws'⟩ <;> simp [agreeWhens]
  | cons w ws ih =>
    rcases w with ⟨c, r⟩
    rcases ws' with _ | ⟨⟨c', r'⟩, ws'⟩ <;> simp [agreeWhens, ih, and_assoc]

theorem Agree.append {es es' fs fs' : List Expr} (h : fs.length = fs'.length) :
    Agree (es ++ fs) (es' ++ fs') ↔ Agree es es' ∧ Agree fs fs' := by
  constructor
  · intro hall
    have hlength : es.length = es'.length := by
      have := hall.length_eq
      simp only [List.length_append] at this
      omega
    have htake := List.forall₂_take es.length hall
    have hdrop := List.forall₂_drop es.length hall
    rw [List.take_left, hlength, List.take_left] at htake
    rw [List.drop_left, hlength, List.drop_left] at hdrop
    exact ⟨htake, hdrop⟩
  · rintro ⟨hes, hfs⟩
    exact List.rel_append hes hfs

theorem isSome_eq_of_agree {e? e'? : Option Expr} (h : Agree e?.toList e'?.toList) :
    e'?.isSome = e?.isSome := by
  have := h.length_eq
  rw [length_toList, length_toList] at this
  cases he : e?.isSome <;> cases he' : e'?.isSome <;> rw [he, he'] at this <;> first
    | rfl
    | cases this

/-- An expression with an operator agrees with those that have the same operator and operands
    that agree. -/
theorem agrees_of_operator {e e' : Expr} {op : Operator} (h : e.operator? = some op) :
    e.agrees e' = true ↔ e'.operator? = some op ∧ Agree e.operands e'.operands := by
  rw [← h]
  constructor
  · intro hagrees
    unfold Expr.agrees at hagrees
    split at hagrees
    all_goals try cases h
    all_goals try cases hagrees
    all_goals
      simp only [Bool.and_eq_true, beq_iff_eq, agreeList_iff, agreeOption_iff,
        agreeWhens_iff] at hagrees
      simp only [Expr.operator?, Expr.operands]
    case h_7 =>
      obtain ⟨⟨rfl, hchars⟩, htext⟩ := hagrees
      exact ⟨by rw [isSome_eq_of_agree hchars],
        (Agree.append (by simp)).mpr ⟨hchars, .cons htext .nil⟩⟩
    case h_8 =>
      obtain ⟨⟨htext, hstart⟩, hlength⟩ := hagrees
      exact ⟨by rw [isSome_eq_of_agree hlength], .cons htext (.cons hstart hlength)⟩
    case h_17 =>
      obtain ⟨hwhens, hotherwise⟩ := hagrees
      exact ⟨by rw [isSome_eq_of_agree hotherwise],
        (Agree.append hotherwise.length_eq).mpr ⟨hwhens, hotherwise⟩⟩
    all_goals simp_all
  · rintro ⟨hop, hoperands⟩
    cases e <;> cases h <;> cases e' <;> try cases hop
    all_goals
      simp only [Expr.operands] at hoperands
      simp only [Expr.agrees, Bool.and_eq_true, beq_iff_eq, agreeList_iff, agreeOption_iff,
        agreeWhens_iff]
    case trim.refl.trim =>
      simp only [Expr.operator?, Option.some.injEq, Operator.trim.injEq] at hop
      obtain ⟨hchars, htext⟩ := (Agree.append (by simp)).mp hoperands
      exact ⟨⟨hop.1.symm, hchars⟩, (List.forall₂_cons.mp htext).1⟩
    case case.refl.case =>
      simp only [Expr.operator?, Option.some.injEq, Operator.case.injEq] at hop
      exact (Agree.append (by rw [length_toList, length_toList, hop])).mp hoperands
    all_goals simp_all

/-- Two expressions agree: one rule for each leaf, and one for all operators. -/
inductive Expr.Agrees : Expr → Expr → Prop
  | column (source name : String) : Agrees (.column source name) (.column source name)
  | allColumns (source : String) : Agrees (.allColumns source) (.allColumns source)
  | literal {v v' : Value} (h : v.agrees v' = true) : Agrees (.literal v) (.literal v')
  | parameter (p : Parameter) : Agrees (.parameter p) (.parameter p)
  | existsRow {s s' : Select} (h : s.agrees s' = true) : Agrees (.existsRow s) (.existsRow s')
  | operator {e e' : Expr} {op : Operator} (h : e.operator? = some op)
      (h' : e'.operator? = some op) (hoperands : Agree e.operands e'.operands) : Agrees e e'

theorem Expr.agrees_iff {e e' : Expr} : e.agrees e' = true ↔ e.Agrees e' := by
  constructor
  · intro h
    cases hop : e.operator? with
    | some op =>
      obtain ⟨hop', hoperands⟩ := (agrees_of_operator hop).mp h
      exact .operator hop hop' hoperands
    | none =>
      cases e <;> cases hop <;> cases e' <;>
        simp only [Expr.agrees, Bool.and_eq_true, beq_iff_eq, Bool.false_eq_true] at h
      case column.refl.column =>
        obtain ⟨rfl, rfl⟩ := h
        exact .column _ _
      case allColumns.refl.allColumns => exact h ▸ .allColumns _
      case literal.refl.literal => exact .literal h
      case parameter.refl.parameter => exact h ▸ .parameter _
      case existsRow.refl.existsRow => exact .existsRow h
  · intro h
    cases h with
    | column | allColumns | parameter => simp [Expr.agrees]
    | literal h => simpa [Expr.agrees] using h
    | existsRow h => simpa [Expr.agrees] using h
    | operator h h' hoperands => exact (agrees_of_operator h).mpr ⟨h', hoperands⟩

theorem operator?_eq_of_agrees {e e' : Expr} (h : e.agrees e' = true) :
    e'.operator? = e.operator? := by
  cases Expr.agrees_iff.mp h with
  | operator h h' => rw [h, h']
  | _ => rfl

/-- Two origins agree. -/
inductive Origin.Agrees : Origin → Origin → Prop
  | table (name source : String) : Agrees (.table name source) (.table name source)
  | derived {s s' : Select} (h : s.agrees s' = true) (source : String) :
      Agrees (.derived s source) (.derived s' source)
  | singleRow : Agrees .singleRow .singleRow

theorem Origin.agrees_iff {o o' : Origin} : o.agrees o' = true ↔ o.Agrees o' := by
  constructor
  · intro h
    cases o <;> cases o' <;>
      simp only [Origin.agrees, Bool.and_eq_true, beq_iff_eq, Bool.false_eq_true] at h
    case table.table =>
      obtain ⟨rfl, rfl⟩ := h
      exact .table _ _
    case derived.derived =>
      obtain ⟨h, rfl⟩ := h
      exact .derived h _
    case singleRow.singleRow => exact .singleRow
  · intro h
    cases h with
    | table | singleRow => simp [Origin.agrees]
    | derived h => simpa [Origin.agrees] using h

theorem alias?_eq_of_agrees {o o' : Origin} (h : o.agrees o' = true) : o.alias? = o'.alias? := by
  cases Origin.agrees_iff.mp h <;> rfl

theorem agreeColumns_iff {cs cs' : List Column} : agreeColumns cs cs' = true ↔
    List.Forall₂ (fun c c' => c.expr.agrees c'.expr = true ∧ c.alias? = c'.alias?) cs cs' := by
  induction cs generalizing cs' with
  | nil => cases cs' <;> simp [agreeColumns]
  | cons c cs ih =>
    rcases c with ⟨e, alias?⟩
    rcases cs' with _ | ⟨⟨e', alias'?⟩, cs'⟩ <;> simp [agreeColumns, ih]

theorem agreeKeys_iff {ks ks' : List OrderKey} : agreeKeys ks ks' = true ↔
    List.Forall₂ (fun k k' => k.expr.agrees k'.expr = true ∧ k.direction = k'.direction) ks ks' := by
  induction ks generalizing ks' with
  | nil => cases ks' <;> simp [agreeKeys]
  | cons k ks ih =>
    rcases k with ⟨e, direction⟩
    rcases ks' with _ | ⟨⟨e', direction'⟩, ks'⟩ <;> simp [agreeKeys, ih]

/-- Statements agree clause by clause. -/
theorem Select.agrees_iff {s s' : Select} : s.agrees s' = true ↔ s.origin.agrees s'.origin = true ∧
    List.Forall₂ (fun c c' => c.expr.agrees c'.expr = true ∧ c.alias? = c'.alias?)
      s.columns s'.columns ∧ Agree s.conditions s'.conditions ∧
    List.Forall₂ (fun k k' => k.expr.agrees k'.expr = true ∧ k.direction = k'.direction)
      s.ordering s'.ordering ∧ agreeWindow s.window? s'.window? = true := by
  rcases s with ⟨cs, o, ps, ks, w⟩
  rcases s' with ⟨cs', o', ps', ks', w'⟩
  simp only [Select.agrees, Bool.and_eq_true, agreeColumns_iff, agreeList_iff, agreeKeys_iff]
  constructor
  · rintro ⟨⟨⟨⟨hcs, ho⟩, hps⟩, hks⟩, hw⟩
    exact ⟨ho, hcs, hps, hks, hw⟩
  · rintro ⟨ho, hcs, hps, hks, hw⟩
    exact ⟨⟨⟨⟨hcs, ho⟩, hps⟩, hks⟩, hw⟩

end QueryLoom.Sql

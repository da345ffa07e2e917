/-
  QueryLoom/Proofs/Meaning/Server.lean
  ====================================
  **What a server does with a statement.**  A `Store` is an engine with its tables and the truth
  values that it gives for tests, and a `Server` is a store with an order in which it delivers the
  rows of each origin; nothing is known of that order but that it is one.  `Expr.eval` and
  `Select.run` give the value of an expression and the rows of a statement with tests for rows
  inside, for the rows that are around the statement: a column is one of the innermost SELECT
  with its source.

    * `run_eq` — what a statement does, clause by clause;
    * `eval_eq_value` — without a test the value is the one that the columns determine;
    * `eval_eq_of_agrees` — expressions that agree have the same value.
-/
import QueryLoom.Proofs.Meaning.Carried
import QueryLoom.Proofs.Meaning.Operands
import QueryLoom.Proofs.Scoping.Around

namespace QueryLoom.Sql

variable {V : Type}

/-- What there is to ask: what expressions mean, the values of tests, and the tables. -/
structure Store (V : Type) extends Engine V where
  /-- The value of a test. -/
  truth : Bool → V
  holds_truth (b : Bool) : holds (truth b) = b
  tables : Database V

/-- A server: a store, and how rows arrive.  Their order may depend on the origin and on the rows
    around it, but not on how its numbers are written. -/
structure Server (V : Type) extends Store V where
  /-- The rows of an origin in the order in which they arrive. -/
  arrive : Origin → Columns V → List (Row V) → List (Row V)
  arrive_perm (o : Origin) (ρ : Columns V) (rows : List (Row V)) : (arrive o ρ rows).Perm rows
  arrive_eq_of_agrees {o o' : Origin} (h : o.agrees o' = true) : arrive o = arrive o'

/-- The cells that a column with a value adds to a row. -/
def Column.shows (source? : Option String) (r : Row V) (v : V) : Column → Row V
  | ⟨.allColumns source, none⟩ => if some source = source? then r else []
  | ⟨_, alias?⟩ => [(alias?.getD "", v)]

mutual

/-- The value of an expression, with the given rows around it. -/
def Expr.eval (S : Server V) (ρ : Columns V) : Expr → V
  | .column source name => ρ source name
  | .allColumns _ => S.undefined
  | .literal v => S.literal v
  | .parameter p => S.parameter p
  | .keyword w => S.operator (.keyword w) []
  | .function name args => S.operator (.function name) (evalList S ρ args)
  | .trim side? chars? text =>
    S.operator (.trim side? chars?.isSome) (evalOption S ρ chars? ++ [text.eval S ρ])
  | .substring text start length? =>
    S.operator (.substring length?.isSome)
      (text.eval S ρ :: start.eval S ρ :: evalOption S ρ length?)
  | .extract part operand => S.operator (.extract part) [operand.eval S ρ]
  | .cast operand type => S.operator (.cast type) [operand.eval S ρ]
  | .position needle haystack => S.operator .position [needle.eval S ρ, haystack.eval S ρ]
  | .dateAdd amount part operand =>
    S.operator (.dateAdd part) [amount.eval S ρ, operand.eval S ρ]
  | .atTimeZone operand zone => S.operator (.atTimeZone zone) [operand.eval S ρ]
  | .binary left op right => S.operator (.binary op) [left.eval S ρ, right.eval S ρ]
  | .unary op operand => S.operator (.unary op) [operand.eval S ρ]
  | .isNull operand negated => S.operator (.isNull negated) [operand.eval S ρ]
  | .case whens otherwise? =>
    S.operator (.case otherwise?.isSome) (evalWhens S ρ whens ++ evalOption S ρ otherwise?)
  | .existsRow rows => S.truth !(rows.run S ρ).isEmpty

/-- The value of an expression that may be missing, as a list of at most one. -/
def evalOption (S : Server V) (ρ : Columns V) : Option Expr → List V
  | none => []
  | some e => [e.eval S ρ]

/-- The values of expressions. -/
def evalList (S : Server V) (ρ : Columns V) : List Expr → List V
  | [] => []
  | e :: rest => e.eval S ρ :: evalList S ρ rest

/-- The values of conditions and results, in turn. -/
def evalWhens (S : Server V) (ρ : Columns V) : List When → List V
  | [] => []
  | ⟨condition, result⟩ :: rest => condition.eval S ρ :: result.eval S ρ :: evalWhens S ρ rest

/-- The rows of a statement, with the given rows around it. -/
def Select.run (S : Server V) (ρ : Columns V) : Select → List (Row V)
  | ⟨columns, origin, conditions, ordering, window?⟩ =>
    let inside (r : Row V) : Columns V := ρ.within origin.alias? (r.value S.toInterpretation)
    let kept := (origin.rows S ρ).filter fun r => (evalList S (inside r) conditions).all S.holds
    let arranged := kept.mergeSort fun r r' =>
      S.inOrder (ordering.map OrderKey.direction) (evalKeys S (inside r) ordering)
        (evalKeys S (inside r') ordering)
    (keepOption S.toEngine window? arranged).map fun r =>
      evalColumns S (inside r) origin.alias? r columns

/-- The cells of a row of the origin in the columns of a statement. -/
def evalColumns (S : Server V) (ρ : Columns V) (source? : Option String) (r : Row V) :
    List Column → Row V
  | [] => []
  | ⟨e, alias?⟩ :: rest =>
    Column.shows source? r (e.eval S ρ) ⟨e, alias?⟩ ++ evalColumns S ρ source? r rest

/-- The values of the keys of an ordering. -/
def evalKeys (S : Server V) (ρ : Columns V) : List OrderKey → List V
  | [] => []
  | ⟨e, _⟩ :: rest => e.eval S ρ :: evalKeys S ρ rest

/-- The rows of an origin in the order in which they arrive. -/
def Origin.rows (S : Server V) (ρ : Columns V) : Origin → List (Row V)
  | .table name source => S.arrive (.table name source) ρ (S.tables name)
  | .derived s source => S.arrive (.derived s source) ρ (s.run S ρ)
  | .singleRow => [[]]

end

/-! ### Clauses -/

namespace Server

variable (S : Server V) (ρ : Columns V)

/-- The columns in scope of a SELECT for a row of its origin. -/
def inside (source? : Option String) (r : Row V) : Columns V :=
  ρ.within source? (r.value S.toInterpretation)

/-- Whether a row of the origin meets the conditions. -/
def meets (source? : Option String) (conditions : List Expr) (r : Row V) : Bool :=
  conditions.all fun c => S.holds (c.eval S (S.inside ρ source? r))

/-- The keys of a row of the origin. -/
def keys (source? : Option String) (ordering : List OrderKey) (r : Row V) : List V :=
  ordering.map fun k => k.expr.eval S (S.inside ρ source? r)

/-- The row that a row of the origin becomes. -/
def output (source? : Option String) (columns : List Column) (r : Row V) : Row V :=
  columns.flatMap fun c => c.shows source? r (c.expr.eval S (S.inside ρ source? r))

/-- Whether a row of the origin may stand before another one. -/
def ordered (source? : Option String) (ordering : List OrderKey) (r r' : Row V) : Bool :=
  S.inOrder (ordering.map OrderKey.direction) (S.keys ρ source? ordering r)
    (S.keys ρ source? ordering r')

end Server

theorem evalList_eq_map (S : Server V) (ρ : Columns V) (es : List Expr) :
    evalList S ρ es = es.map (Expr.eval S ρ) := by
  induction es with
  | nil => rfl
  | cons e rest ih => rw [evalList, ih, List.map_cons]

theorem evalKeys_eq_map (S : Server V) (ρ : Columns V) (ks : List OrderKey) :
    evalKeys S ρ ks = ks.map fun k => k.expr.eval S ρ := by
  induction ks with
  | nil => rfl
  | cons k rest ih =>
    rcases k with ⟨e, direction⟩
    rw [evalKeys, ih, List.map_cons]

theorem evalColumns_eq_flatMap (S : Server V) (ρ : Columns V) (source? : Option String)
    (r : Row V) (cs : List Column) :
    evalColumns S ρ source? r cs = cs.flatMap fun c => c.shows source? r (c.expr.eval S ρ) := by
  induction cs with
  | nil => rfl
  | cons c rest ih =>
    rcases c with ⟨e, alias?⟩
    rw [evalColumns, ih, List.flatMap_cons]

/-- What a statement does, clause by clause. -/
theorem run_eq (S : Server V) (ρ : Columns V) (s : Select) :
    s.run S ρ = (keepOption S.toEngine s.window?
      (((s.origin.rows S ρ).filter (S.meets ρ s.origin.alias? s.conditions)).mergeSort
        (S.ordered ρ s.origin.alias? s.ordering))).map
          (S.output ρ s.origin.alias? s.columns) := by
  rcases s with ⟨columns, origin, conditions, ordering, window?⟩
  simp only [Select.run, evalList_eq_map, evalKeys_eq_map, evalColumns_eq_flatMap, List.all_map]
  rfl

/-- A statement without pages of which one row is kept. -/
theorem run_of_single {S : Server V} {ρ : Columns V} {s : Select} {r : Row V}
    (hkept : (s.origin.rows S ρ).filter (S.meets ρ s.origin.alias? s.conditions) = [r])
    (hwindow : s.window? = none) : s.run S ρ = [S.output ρ s.origin.alias? s.columns r] := by
  rw [run_eq, hkept, hwindow, List.mergeSort_singleton]
  rfl

theorem keepOption_subset (E : Engine V) {α : Type} (w? : Option Window) (rows : List α) :
    keepOption E w? rows ⊆ rows := by
  rcases w? with _ | ⟨lower, _ | upper⟩
  · exact List.Subset.refl _
  · exact List.take_subset _ _
  · exact List.Subset.trans (List.drop_subset _ _) (List.take_subset _ _)

/-- Every row of a statement comes from a row of its origin that meets the conditions. -/
theorem exists_of_mem_run {S : Server V} {ρ : Columns V} {s : Select} {r : Row V}
    (h : r ∈ s.run S ρ) : ∃ x ∈ s.origin.rows S ρ,
      S.meets ρ s.origin.alias? s.conditions x = true ∧
        r = S.output ρ s.origin.alias? s.columns x := by
  rw [run_eq, List.mem_map] at h
  obtain ⟨x, hx, rfl⟩ := h
  have hkept := (List.mergeSort_perm _ _).subset (keepOption_subset _ _ _ hx)
  rw [List.mem_filter] at hkept
  exact ⟨x, hkept.1, hkept.2, rfl⟩

/-- The cells of a row where no column stands for all columns. -/
theorem output_eq_map (S : Server V) (ρ : Columns V) (source? : Option String)
    {columns : List Column} (h : ∀ source, ⟨.allColumns source, none⟩ ∉ columns) (r : Row V) :
    S.output ρ source? columns r
      = columns.map fun c => (c.alias?.getD "", c.expr.eval S (S.inside ρ source? r)) := by
  induction columns with
  | nil => rfl
  | cons c rest ih =>
    have hrest := ih fun source hc => h source (List.mem_cons_of_mem c hc)
    have hc : c.shows source? r (c.expr.eval S (S.inside ρ source? r))
        = [(c.alias?.getD "", c.expr.eval S (S.inside ρ source? r))] := by
      rcases c with ⟨e, _ | name⟩
      · cases e <;> first
          | rfl
          | exact absurd List.mem_cons_self (h _)
      · cases e <;> rfl
    rw [List.map_cons, ← hrest, Server.output, List.flatMap_cons, hc]
    rfl

theorem output_allColumns (S : Server V) (ρ : Columns V) (source : String) (r : Row V) :
    S.output ρ (some source) [⟨.allColumns source, none⟩] r = r := by
  simp [Server.output, Column.shows]

/-- The value of an operator comes from the values of its operands. -/
theorem eval_of_operator (S : Server V) (ρ : Columns V) {e : Expr} {op : Operator}
    (h : e.operator? = some op) :
    e.eval S ρ = S.operator op (e.operands.map (Expr.eval S ρ)) := by
  have hoption : ∀ e? : Option Expr, evalOption S ρ e? = e?.toList.map (Expr.eval S ρ) := by
    rintro (_ | e) <;> rfl
  have hwhens : ∀ ws : List When, evalWhens S ρ ws
      = (ws.flatMap fun w => [w.condition, w.result]).map (Expr.eval S ρ) := by
    intro ws
    induction ws with
    | nil => rfl
    | cons w rest ih =>
      rcases w with ⟨condition, result⟩
      simp [evalWhens, ih]
  cases e <;> cases h <;> simp [Expr.eval, Expr.operands, evalList_eq_map, hoption, hwhens]

theorem evaluates_eval (S : Server V) (ρ : Columns V) : S.toInterpretation.Evaluates (Expr.eval S ρ) :=
  ⟨fun _ => rfl, eval_of_operator S ρ⟩

/-! ### Values without tests -/

/-- Without a test the value is the one that the columns determine. -/
theorem eval_eq_value (S : Server V) (ρ : Columns V) {e : Expr}
    (h : ∀ rows, .existsRow rows ∉ e.parts) : e.eval S ρ = e.value S.toInterpretation ρ := by
  induction e using Expr.induction_on_operands with
  | existsRow rows => exact absurd (Expr.self_mem_parts _) (h rows)
  | operator e op hop ih =>
    rw [eval_of_operator S ρ hop, value_of_operator S.toInterpretation ρ hop]
    congr 1
    refine List.map_congr_left fun o ho => ih o ho fun rows hrows => ?_
    exact h rows (mem_parts_of_mem_operands ho hrows)
  | _ => rfl

/-! ### Agreement -/

theorem integer?_eq_of_agrees {v w : Value} (h : v.agrees w = true) : v.integer? = w.integer? := by
  cases v <;> cases w <;> simp_all [Value.agrees, Value.integer?]

theorem rowNumber_eq_of_agrees (E : Engine V) {e e' : Expr} (h : e.agrees e' = true) :
    E.rowNumber e = E.rowNumber e' := by
  have hall : Inherited (fun e => ∀ e', e.agrees e' = true → E.rowNumber e = E.rowNumber e')
      (fun _ => True) := by
    refine ⟨?_, fun _ _ _ _ _ => trivial⟩
    intro e operands _ e' h
    unfold Expr.agrees at h
    split at h
    case h_3 => rw [Engine.rowNumber, Engine.rowNumber, integer?_eq_of_agrees h]
    case h_4 => rw [eq_of_beq h]
    case h_14 =>
      rename_i l op r l' op' r' _
      simp only [Bool.and_eq_true, beq_iff_eq] at h
      obtain ⟨⟨hl, rfl⟩, hr⟩ := h
      have hleft := operands l (by simp [Expr.operands]) l' hl
      have hright := operands r (by simp [Expr.operands]) r' hr
      cases op <;> simp [Engine.rowNumber, hleft, hright]
    all_goals first
      | rfl
      | cases h
  exact hall.of_expr e e' h

/-- Columns that agree show the same cells. -/
theorem shows_eq_of_agrees {e e' : Expr} (h : e.agrees e' = true) (source? : Option String)
    (r : Row V) (v : V) (alias? : Option String) :
    Column.shows source? r v ⟨e, alias?⟩ = Column.shows source? r v ⟨e', alias?⟩ := by
  unfold Expr.agrees at h
  split at h
  case h_2 => rw [eq_of_beq h]
  all_goals first
    | cases alias? <;> rfl
    | cases h

theorem keepOption_eq_of_agree (E : Engine V) {α : Type} {w? w'? : Option Window}
    (h : agreeWindow w? w'? = true) (rows : List α) :
    keepOption E w? rows = keepOption E w'? rows := by
  rcases w? with _ | ⟨lower, upper?⟩ <;> rcases w'? with _ | ⟨lower', upper'?⟩ <;>
    simp only [agreeWindow, Bool.false_eq_true, Bool.and_eq_true] at h
  · rfl
  · cases upper? <;> cases upper'? <;> simp only [agreeOption, Bool.false_eq_true, and_false] at h
    · simp only [keepOption, Option.elim, Window.keep, rowNumber_eq_of_agrees E h.1]
    · simp only [keepOption, Option.elim, Window.keep, rowNumber_eq_of_agrees E h.1,
        rowNumber_eq_of_agrees E h.2]

/-- Expressions that agree have the same value, and statements that agree the same rows. -/
theorem inherited_of_agrees (S : Server V) :
    Inherited (fun e => ∀ e', e.agrees e' = true → ∀ ρ, e.eval S ρ = e'.eval S ρ)
      (fun s => ∀ s', s.agrees s' = true → ∀ ρ, s.run S ρ = s'.run S ρ) where
  expression e operands test e' h ρ := by
    cases Expr.agrees_iff.mp h with
    | column | allColumns | parameter => rfl
    | literal hv => exact S.literal_eq_of_agrees hv
    | existsRow hrows => rw [Expr.eval, Expr.eval, test _ rfl _ hrows ρ]
    | operator hop hop' hagree =>
      rw [eval_of_operator S ρ hop, eval_of_operator S ρ hop']
      congr 1
      exact map_eq_of_forall₂ hagree fun o ho o' h => operands o ho o' h ρ
  statement s columns conditions ordering origin s' h ρ := by
    rcases s with ⟨cs, o, ps, ks, w⟩
    rcases s' with ⟨cs', o', ps', ks', w'⟩
    simp only [Select.agrees, Bool.and_eq_true, agreeColumns_iff, agreeList_iff,
      agreeKeys_iff] at h
    obtain ⟨⟨⟨⟨hcs, ho⟩, hps⟩, hks⟩, hw⟩ := h
    have halias : o.alias? = o'.alias? := alias?_eq_of_agrees ho
    have hrows : o.rows S ρ = o'.rows S ρ := by
      have harrive := S.arrive_eq_of_agrees ho
      cases Origin.agrees_iff.mp ho with
      | derived hrows source =>
        rw [Origin.rows, Origin.rows, harrive, origin _ source rfl _ hrows ρ]
      | table | singleRow => rfl
    have hmeets : S.meets ρ o.alias? ps = S.meets ρ o'.alias? ps' := by
      funext r
      have hvalues : (ps.map fun c => S.holds (c.eval S (S.inside ρ o.alias? r)))
          = ps'.map fun c => S.holds (c.eval S (S.inside ρ o'.alias? r)) :=
        map_eq_of_forall₂ hps fun c hc c' h => by rw [conditions c hc c' h, halias]
      have hall := congrArg (fun l => l.all id) hvalues
      simpa [Server.meets, List.all_map] using hall
    have hordered : S.ordered ρ o.alias? ks = S.ordered ρ o'.alias? ks' := by
      have hdirections : ks.map OrderKey.direction = ks'.map OrderKey.direction :=
        map_eq_of_forall₂ hks fun k _ k' h => h.2
      have hkeys : S.keys ρ o.alias? ks = S.keys ρ o'.alias? ks' := by
        funext r
        exact map_eq_of_forall₂ hks fun k hk k' h => by rw [ordering k hk k'.expr h.1, halias]
      funext r r'
      rw [Server.ordered, Server.ordered, hdirections, hkeys]
    have houtput : S.output ρ o.alias? cs = S.output ρ o'.alias? cs' := by
      funext r
      rw [Server.output, Server.output, List.flatMap_def, List.flatMap_def]
      congr 1
      refine map_eq_of_forall₂ hcs fun c hc c' h => ?_
      rw [columns c hc c'.expr h.1, halias]
      rcases c with ⟨e, alias?⟩
      rcases c' with ⟨e', alias'?⟩
      obtain rfl : alias? = alias'? := h.2
      exact shows_eq_of_agrees h.1 _ _ _ _
    simp only [run_eq, hrows, hmeets, hordered, houtput, keepOption_eq_of_agree S.toEngine hw]

/-- Expressions that agree have the same value. -/
theorem eval_eq_of_agrees (S : Server V) (ρ : Columns V) {e e' : Expr}
    (h : e.agrees e' = true) : e.eval S ρ = e'.eval S ρ :=
  (inherited_of_agrees S).of_expr e e' h ρ

end QueryLoom.Sql

/-
  QueryLoom/Proofs/Meaning/Scalar.lean
  ====================================
  **What the scalars of a query mean, and that drafting keeps it.**  `Query.value` gives a
  scalar its value from the values of the columns it refers to: constants, parameters and
  operators mean what the interpretation says, and an operation on values means what the
  table of mappings says.

  Drafting replaces the alias of a row by the alias of the statement that the row comes from
  now.  `Naming.Reads` says that the columns of the statements in scope hold the values of
  the rows that they stand for.

    * `Mapping.value_of_apply` — the SQL for an operation means what its mapping says;
    * `value_of_gives` — the expression drafted for a scalar has the value of the scalar.
-/
import QueryLoom.Proofs.Drafting.Naming
import QueryLoom.Proofs.Meaning.Interpretation

namespace QueryLoom.Sql

variable {V : Type}

/-- The values of the columns that a query can name, by alias and name.  Without an alias the
    column is one of the innermost row. -/
abbrev Fields (V : Type) := Option String → String → V

/-! ### Operations -/

/-- The value of an integer constant of 32 bits. -/
def Interpretation.int (I : Interpretation V) (n : Int32) : V := I.literal (.int32 n)

/-- The meaning of a template on the values of its operands. -/
def Template.value (I : Interpretation V) : Template → List V → V
  | function name, vs => I.operator (.function name) vs
  | trim side?, [text] => I.operator (.trim side? false) [text]
  | trim side?, [text, chars] => I.operator (.trim side? true) [chars, text]
  | substring, [text, start] => I.operator (.substring false) [text, start]
  | substring, [text, start, length] => I.operator (.substring true) [text, start, length]
  | extract part, [operand] => I.operator (.extract part) [operand]
  | cast type, [operand] => I.operator (.cast type) [operand]
  | keyword word, [] => I.operator (.keyword word) []
  | position, [haystack, needle] => I.operator .position [needle, haystack]
  | positionFound, [haystack, needle] =>
    I.operator (.binary .greater) [I.operator .position [needle, haystack], I.int 0]
  | startingWith, [text, start] => I.operator (.binary .startingWith) [text, start]
  | endsWith, [text, suffix] =>
    let length := I.operator (.function "CHAR_LENGTH") [suffix]
    I.operator (.binary .equal) [I.operator (.function "RIGHT") [text, length], suffix]
  | isNullOrEmpty trimmed, [text] =>
    let compared := if trimmed then I.operator (.trim none false) [text] else text
    I.operator (.binary .or)
      [I.operator (.isNull false) [text],
        I.operator (.binary .equal) [compared, I.literal (.string "")]]
  | dateAdd part, [operand, amount] => I.operator (.dateAdd part) [amount, operand]
  | utcTimestamp, [] =>
    I.operator (.cast .timestamp)
      [I.operator (.atTimeZone "UTC") [I.operator (.keyword "CURRENT_TIMESTAMP") []]]
  | _, _ => I.undefined

/-- The start of a text counted from one, from one that counts from zero and is the given
    constant or any other value. -/
def Interpretation.oneBased (I : Interpretation V) (start? : Option Value) (start : V) : V :=
  match start? with
  | some v => match v.integer? with
    | some n => I.literal (successor v n)
    | none => I.undefined
  | none => I.operator (.binary .add) [start, I.int 1]

/-- The values of the operands after an adjustment.  The second operand may be a constant. -/
def Adjustment.operandValues (I : Interpretation V) (caps : Capabilities) (a : Adjustment)
    (second? : Option Value) (vs : List V) : List V :=
  match a, vs with
  | oneBasedStart, text :: start :: rest =>
    if caps.oneBasedSubstring then text :: I.oneBased second? start :: rest else vs
  | _, _ => vs

/-- The value of the result after an adjustment. -/
def Adjustment.resultValue (I : Interpretation V) (a : Adjustment) (v : V) : V :=
  match a with
  | incrementResult => I.operator (.binary .add) [v, I.int 1]
  | decrementResult => I.operator (.binary .subtract) [v, I.int 1]
  | truncateResult => I.operator (.function "TRUNC") [v]
  | none | oneBasedStart => v

/-- The meaning of an operation on the values of its operands. -/
def Mapping.value (I : Interpretation V) (caps : Capabilities) (x : Mapping)
    (second? : Option Value) (vs : List V) : V :=
  x.adjustment.resultValue I (x.template.value I (x.adjustment.operandValues I caps second? vs))

/-- The constant that an expression is. -/
def Expr.literal? : Expr → Option Value
  | .literal v => some v
  | _ => none

/-- The second of the operands as a constant. -/
def secondLiteral? (es : List Expr) : Option Value := es[1]?.bind Expr.literal?

/-- Constants and operators have the values that the interpretation gives them. -/
structure Interpretation.Evaluates (I : Interpretation V) (f : Expr → V) : Prop where
  literal (v : Value) : f (.literal v) = I.literal v
  operator {e : Expr} {op : Operator} (h : e.operator? = some op) :
    f e = I.operator op (e.operands.map f)

theorem evaluates_value (I : Interpretation V) (ρ : Columns V) : I.Evaluates (Expr.value I ρ) :=
  ⟨fun _ => rfl, value_of_operator I ρ⟩

section Evaluation

variable {I : Interpretation V} {f : Expr → V} (hf : I.Evaluates f)

include hf

theorem Interpretation.Evaluates.int (n : Int32) : f (.int n) = I.int n := hf.literal _

theorem Interpretation.Evaluates.binary_one (e : Expr) (op : BinaryOperator) :
    f (.binary e op (.int 1)) = I.operator (.binary op) [f e, I.int 1] := by
  refine (hf.operator rfl).trans ?_
  rw [Expr.operands, List.map_cons, List.map_cons, List.map_nil, hf.int]

theorem Template.value_of_build? {t : Template} {es : List Expr} {e : Expr}
    (h : t.build? es = some e) : f e = t.value I (es.map f) := by
  have hbinary : ∀ l op r, f (.binary l op r) = I.operator (.binary op) [f l, f r] :=
    fun _ _ _ => hf.operator rfl
  have hposition : ∀ needle haystack,
      f (.position needle haystack) = I.operator .position [f needle, f haystack] :=
    fun _ _ => hf.operator rfl
  have hfunction : ∀ name args, f (.function name args) = I.operator (.function name) (args.map f) :=
    fun _ _ => hf.operator rfl
  have htrim : ∀ text, f (.trim none none text) = I.operator (.trim none false) [f text] :=
    fun _ => hf.operator rfl
  have hisNull : ∀ text, f (.isNull text false) = I.operator (.isNull false) [f text] :=
    fun _ => hf.operator rfl
  have hcast : ∀ e type, f (.cast e type) = I.operator (.cast type) [f e] :=
    fun _ _ => hf.operator rfl
  have hzone : ∀ e zone, f (.atTimeZone e zone) = I.operator (.atTimeZone zone) [f e] :=
    fun _ _ => hf.operator rfl
  have hkeyword : ∀ word, f (.keyword word) = I.operator (.keyword word) [] :=
    fun _ => hf.operator rfl
  cases Template.build?_eq_some_iff.mp h with
  | positionFound => simp [Template.value, hbinary, hposition, hf.int]
  | endsWith => simp [Template.value, hbinary, hfunction]
  | isNullOrEmpty trimmed =>
    cases trimmed <;> simp [Template.value, hbinary, htrim, hisNull, hf.literal]
  | utcTimestamp => simp [Template.value, hcast, hzone, hkeyword]
  | _ => exact hf.operator rfl

theorem Interpretation.oneBased_eq {e e' : Expr} (h : Sql.oneBased e = .ok e') :
    f e' = I.oneBased e.literal? (f e) := by
  unfold Sql.oneBased at h
  split at h
  · rename_i v
    simp only [Expr.literal?, Interpretation.oneBased]
    split at h
    · cases h
    · rename_i n hn
      split at h
      · cases h
      · cases h
        rw [hn]
        exact hf.literal _
  · rename_i hliteral
    cases h
    rw [hf.binary_one e .add]
    cases e
    case literal v => exact absurd rfl (hliteral v)
    all_goals rfl

theorem Adjustment.operandValues_eq {caps : Capabilities} {a : Adjustment} {es es' : List Expr}
    (h : a.operands caps es = .ok es') :
    es'.map f = a.operandValues I caps (secondLiteral? es) (es.map f) := by
  unfold Adjustment.operands at h
  split at h
  · rename_i text start rest
    simp only [List.map_cons, operandValues]
    split at h
    · rename_i hone
      rw [if_pos hone]
      cases hstart : Sql.oneBased start with
      | error e => rw [hstart] at h; cases h
      | ok start' =>
        rw [hstart] at h
        cases h
        rw [List.map_cons, List.map_cons, Interpretation.oneBased_eq hf hstart]
        rfl
    · rename_i hone
      cases h
      rw [if_neg hone]
      rfl
  · rename_i hshape
    cases h
    unfold operandValues
    split
    · rename_i hvalues
      rcases es with _ | ⟨text, _ | ⟨start, rest⟩⟩
      · cases hvalues
      · cases hvalues
      · exact absurd rfl (hshape text start rest rfl)
    · rfl

theorem Adjustment.value_result (a : Adjustment) (e : Expr) :
    f (a.result e) = a.resultValue I (f e) := by
  cases a with
  | none | oneBasedStart => rfl
  | incrementResult => exact hf.binary_one e .add
  | decrementResult => exact hf.binary_one e .subtract
  | truncateResult => exact hf.operator rfl

/-- The SQL for an operation means what its mapping says. -/
theorem Mapping.value_of_apply {x : Mapping} {caps : Capabilities} {receiver? : Option Expr}
    {args : List Expr} {e : Expr} (h : x.apply caps receiver? args = .ok e) :
    f e = x.value I caps (secondLiteral? (receiver?.toList ++ args))
      ((receiver?.toList ++ args).map f) := by
  obtain ⟨operands, built, hoperands, hbuilt, rfl⟩ := Mapping.apply_eq_ok h
  rw [Adjustment.value_result hf, Template.value_of_build? hf hbuilt,
    Adjustment.operandValues_eq hf hoperands]
  rfl

end Evaluation

/-- The meaning of an operation on the values of its operands, if it has one. -/
def operationValue (I : Interpretation V) (caps : Capabilities) (op : Operation) (arity : Nat)
    (second? : Option Value) (vs : List V) : V :=
  match Mapping.find? op arity with
  | some x => x.value I caps second? vs
  | none => I.undefined

theorem operationValue_eq (I : Interpretation V) (caps : Capabilities) {op : Operation}
    {arity : Nat} {x : Mapping} (h : Mapping.find op arity = .ok x) (second? : Option Value)
    (vs : List V) : operationValue I caps op arity second? vs = x.value I caps second? vs := by
  unfold Mapping.find at h
  unfold operationValue
  cases hx : Mapping.find? op arity with
  | none => rw [hx] at h; cases h
  | some y => rw [hx] at h; cases h; rfl

/-! ### Related operations -/

/-- Constants and operators of the two interpretations are related if their operands are. -/
structure Interpretation.Related {W : Type} (I : Interpretation V) (J : Interpretation W)
    (R : V → W → Prop) : Prop where
  literal (v : Value) : R (I.literal v) (J.literal v)
  operator (op : Operator) {vs : List V} {ws : List W} (h : List.Forall₂ R vs ws) :
    R (I.operator op vs) (J.operator op ws)
  undefined : R I.undefined J.undefined

section Relation

variable {W : Type} {I : Interpretation V} {J : Interpretation W} {R : V → W → Prop}
  (hR : I.Related J R)

include hR

theorem Template.value_related (t : Template) {vs : List V} {ws : List W}
    (h : List.Forall₂ R vs ws) : R (t.value I vs) (t.value J ws) := by
  have hone : ∀ op {v w}, R v w → R (I.operator op [v]) (J.operator op [w]) :=
    fun op _ _ h => hR.operator op (.cons h .nil)
  have htwo : ∀ op {v w v' w'}, R v w → R v' w' →
      R (I.operator op [v, v']) (J.operator op [w, w']) :=
    fun op _ _ _ _ h h' => hR.operator op (.cons h (.cons h' .nil))
  have hkeyword : ∀ word, R (I.operator (.keyword word) []) (J.operator (.keyword word) []) :=
    fun word => hR.operator _ .nil
  have htrimmed : ∀ (trimmed : Bool) {v w}, R v w →
      R (if trimmed then I.operator (.trim none false) [v] else v)
        (if trimmed then J.operator (.trim none false) [w] else w) := by
    intro trimmed v w h
    cases trimmed
    · exact h
    · exact hone _ h
  cases t
  case function name => exact hR.operator _ h
  all_goals
    rcases h with _ | ⟨h₁, _ | ⟨h₂, _ | ⟨h₃, _ | ⟨_, _⟩⟩⟩⟩
  all_goals first
    | exact hR.undefined
    | exact hkeyword _
    | exact hone _ h₁
    | exact htwo _ h₁ h₂
    | exact htwo _ h₂ h₁
    | exact hR.operator _ (.cons h₁ (.cons h₂ (.cons h₃ .nil)))
    | skip
  case positionFound => exact htwo _ (htwo _ h₂ h₁) (hR.literal _)
  case endsWith => exact htwo _ (htwo _ h₁ (hone _ h₂)) h₂
  case isNullOrEmpty => exact htwo _ (hone _ h₁) (htwo _ (htrimmed _ h₁) (hR.literal _))
  case utcTimestamp => exact hone _ (hone _ (hkeyword _))

theorem Adjustment.operandValues_related (a : Adjustment) (caps : Capabilities)
    (second? : Option Value) {vs : List V} {ws : List W} (h : List.Forall₂ R vs ws) :
    List.Forall₂ R (a.operandValues I caps second? vs) (a.operandValues J caps second? ws) := by
  have hone : ∀ {v w}, R v w → R (I.oneBased second? v) (J.oneBased second? w) := by
    intro v w hvw
    unfold Interpretation.oneBased
    split
    · split
      · exact hR.literal _
      · exact hR.undefined
    · exact hR.operator _ (.cons hvw (.cons (hR.literal _) .nil))
  cases a <;> try exact h
  rcases h with _ | ⟨htext, _ | ⟨hstart, hrest⟩⟩
  · exact .nil
  · exact .cons htext .nil
  · simp only [operandValues]
    split
    · exact .cons htext (.cons (hone hstart) hrest)
    · exact .cons htext (.cons hstart hrest)

theorem Adjustment.resultValue_related (a : Adjustment) {v : V} {w : W} (h : R v w) :
    R (a.resultValue I v) (a.resultValue J w) := by
  cases a with
  | none | oneBasedStart => exact h
  | incrementResult | decrementResult => exact hR.operator _ (.cons h (.cons (hR.literal _) .nil))
  | truncateResult => exact hR.operator _ (.cons h .nil)

/-- An operation takes related values to related values. -/
theorem operationValue_related (caps : Capabilities) (op : Operation) (arity : Nat)
    (second? : Option Value) {vs : List V} {ws : List W} (h : List.Forall₂ R vs ws) :
    R (operationValue I caps op arity second? vs) (operationValue J caps op arity second? ws) := by
  unfold operationValue
  split
  · rename_i x _
    exact x.adjustment.resultValue_related hR
      (x.template.value_related hR (x.adjustment.operandValues_related hR caps second? h))
  · exact hR.undefined

end Relation

end QueryLoom.Sql

/-! ### Scalars of queries -/

namespace QueryLoom

open Sql

variable {V : Type}

namespace Query

/-- The constant that a node is. -/
def constant? : Query → Option Value
  | constant v => some v
  | _ => none

/-- The second of the operands as a constant. -/
def secondConstant? (qs : List Query) : Option Value := qs[1]?.bind constant?

mutual

/-- The value of a scalar. -/
def value (I : Interpretation V) (caps : Capabilities) (χ : Fields V) : Query → V
  | .constant v => I.literal v
  | .parameter p => I.parameter p
  | .member _ (.column alias? name) => χ alias? name
  | .member receiver? (.property p) =>
    operationValue I caps (.property p) 0 none (optionValues I caps χ receiver?)
  | .call receiver? m args =>
    operationValue I caps (.method m) args.length (secondConstant? (receiver?.toList ++ args))
      (optionValues I caps χ receiver? ++ listValues I caps χ args)
  | .binary left op right =>
    if testsEquality op && isNullConstant left then
      I.operator (.isNull (op == .notEqual)) [right.value I caps χ]
    else if testsEquality op && isNullConstant right then
      I.operator (.isNull (op == .notEqual)) [left.value I caps χ]
    else I.operator (.binary (.ofQuery op)) [left.value I caps χ, right.value I caps χ]
  | .unary .not operand => I.operator (.unary .not) [operand.value I caps χ]
  | .unary .negate operand => I.operator (.unary .negate) [operand.value I caps χ]
  | _ => I.undefined

/-- The value of a scalar that may be missing, as a list of at most one. -/
def optionValues (I : Interpretation V) (caps : Capabilities) (χ : Fields V) :
    Option Query → List V
  | none => []
  | some q => [q.value I caps χ]

/-- The values of scalars. -/
def listValues (I : Interpretation V) (caps : Capabilities) (χ : Fields V) :
    List Query → List V
  | [] => []
  | q :: rest => q.value I caps χ :: listValues I caps χ rest

end

end Query

end QueryLoom

/-! ### Drafted scalars -/

namespace QueryLoom.Sql

variable {V : Type}

/-- The columns of every row in scope have the values that the query gives them. -/
def Naming.Reads (n : Naming) (ρ : Columns V) (χ : Fields V) : Prop :=
  ∀ alias? row, n.row? alias? = some row → ∀ name, ρ row.actual name = χ alias? name

theorem Naming.row?_congr {n m : Naming} (h : m.scopes = n.scopes) : m.row? = n.row? := by
  funext alias?
  cases alias? <;> simp only [Naming.row?, h]

theorem Naming.Reads.congr {n m : Naming} {ρ : Columns V} {χ : Fields V} (hr : n.Reads ρ χ)
    (h : m.scopes = n.scopes) : m.Reads ρ χ := by
  intro alias? row hrow
  rw [Naming.row?_congr h] at hrow
  exact hr alias? row hrow

/-- To stand as a value or as a condition does not change what an expression means. -/
def Interpretation.Transparent (I : Interpretation V) (caps : Capabilities) : Prop :=
  ∀ (ρ : Columns V) (e : Expr),
    (asValue caps e).value I ρ = e.value I ρ ∧ (asPredicate caps e).value I ρ = e.value I ρ

theorem asValue_of_booleanType {caps : Capabilities} (h : caps.booleanType = true) (e : Expr) :
    asValue caps e = e := by
  simp [asValue, h]

theorem asPredicate_of_booleanType {caps : Capabilities} (h : caps.booleanType = true)
    (e : Expr) : asPredicate caps e = e := by
  simp [asPredicate, h]

/-- Where there are Booleans, operands are taken as they are. -/
theorem operand_of_booleanType {caps : Capabilities} (h : caps.booleanType = true)
    (logical : Bool) (e : Expr) : (if logical then asPredicate caps else asValue caps) e = e := by
  cases logical with
  | true => exact asPredicate_of_booleanType h e
  | false => exact asValue_of_booleanType h e

theorem transparent_of_booleanType (I : Interpretation V) {caps : Capabilities}
    (h : caps.booleanType = true) : I.Transparent caps := by
  intro ρ e
  rw [asValue_of_booleanType h, asPredicate_of_booleanType h]
  exact ⟨rfl, rfl⟩

theorem Template.literal?_of_build? {t : Template} {es : List Expr} {e : Expr}
    (h : t.build? es = some e) : e.literal? = none := by
  cases Template.build?_eq_some_iff.mp h <;> rfl

/-- No operation is written as a literal. -/
theorem Mapping.literal?_of_apply {x : Mapping} {caps : Capabilities}
    {receiver? : Option Expr} {args : List Expr} {e : Expr}
    (h : x.apply caps receiver? args = .ok e) : e.literal? = none := by
  obtain ⟨operands, built, _, hbuilt, rfl⟩ := Mapping.apply_eq_ok h
  cases x.adjustment with
  | none | oneBasedStart => exact Template.literal?_of_build? hbuilt
  | incrementResult | decrementResult | truncateResult => rfl

theorem literal?_asValue (caps : Capabilities) (e : Expr) :
    (asValue caps e).literal? = e.literal? := by
  unfold asValue
  split
  · rfl
  · rename_i hpredicate
    cases e <;> first | rfl | simp [Expr.isPredicate] at hpredicate

/-- The expression of a scalar is a literal where the scalar is a constant. -/
theorem literal?_of_gives {caps : Capabilities} {n m : Naming} {q : Query} {e : Expr}
    (h : Gives (expression caps q) n e m) : e.literal? = q.constant? := by
  cases q with
  | constant v =>
    rw [(gives_constant.mp h).1]
    rfl
  | parameter p =>
    rw [(gives_parameter.mp h).1]
    rfl
  | member receiver? member =>
    cases member with
    | column alias? name =>
      obtain ⟨_, row, _, rfl, _⟩ := gives_column.mp h
      rfl
    | property p =>
      obtain ⟨_, _, _, _, happly⟩ := gives_property.mp h
      exact Mapping.literal?_of_apply happly
  | call receiver? method args =>
    obtain ⟨_, _, _, _, _, _, _, happly⟩ := gives_call.mp h
    exact Mapping.literal?_of_apply happly
  | binary left op right =>
    rw [gives_binary] at h
    split at h
    · obtain ⟨_, _, rfl⟩ := h
      rfl
    · split at h
      · obtain ⟨_, _, rfl⟩ := h
        rfl
      · obtain ⟨_, _, _, _, _, rfl⟩ := h
        rfl
  | unary op operand =>
    cases op with
    | not =>
      obtain ⟨_, _, rfl⟩ := gives_not.mp h
      rfl
    | negate =>
      obtain ⟨_, _, rfl⟩ := gives_negate.mp h
      rfl
  | any rows predicate? =>
    obtain ⟨_, rfl⟩ := existsRow_of_gives_any h
    rfl
  | source | filter | project | skip | take | orderBy =>
    exact absurd h (not_gives_expression rfl)

theorem secondLiteral?_eq {es : List Expr} {qs : List Query}
    (h : es.map Expr.literal? = qs.map Query.constant?) :
    secondLiteral? es = Query.secondConstant? qs := by
  have hsecond := congrArg (fun l => l[1]?) h
  simp only [List.getElem?_map] at hsecond
  unfold secondLiteral? Query.secondConstant?
  cases hes : es[1]? <;> cases hqs : qs[1]? <;> simp_all

/-- The drafted receiver or arguments are literals where the scalars are constants. -/
theorem literals_of_gives_optionValue {caps : Capabilities} {n m : Naming} {q? : Option Query}
    {e? : Option Expr} (h : Gives (optionValue caps q?) n e? m) :
    e?.toList.map Expr.literal? = q?.toList.map Query.constant? := by
  cases q? with
  | none =>
    rw [(gives_optionValue_none.mp h).1]
    rfl
  | some q =>
    obtain ⟨e, he, rfl⟩ := gives_optionValue_some.mp h
    simp only [Option.toList, List.map_cons, List.map_nil, literal?_asValue, literal?_of_gives he]

theorem literals_of_gives_values {caps : Capabilities} {n m : Naming} {qs : List Query}
    {es : List Expr} (h : Gives (values caps qs) n es m) :
    es.map Expr.literal? = qs.map Query.constant? := by
  induction qs generalizing n es with
  | nil =>
    rw [(gives_values_nil.mp h).1]
    rfl
  | cons q rest ih =>
    obtain ⟨e, _, es', he, hes, rfl⟩ := gives_values_cons.mp h
    rw [List.map_cons, List.map_cons, literal?_asValue, literal?_of_gives he, ih hes]

section

variable {I : Interpretation V} {caps : Capabilities} {ρ : Columns V} {χ : Fields V}

mutual

/-- The expression drafted for a scalar has the value of the scalar. -/
theorem value_of_gives (hI : I.Transparent caps) {n m : Naming} (hr : n.Reads ρ χ) {e : Expr} :
    {q : Query} → Gives (expression caps q) n e m → e.value I ρ = q.value I caps χ
  | .constant _, h => by
    rw [(gives_constant.mp h).1]
    rfl
  | .parameter _, h => by
    rw [(gives_parameter.mp h).1]
    rfl
  | .member receiver? (.column alias? name), h => by
    obtain ⟨_, row, hrow, rfl, _⟩ := gives_column.mp h
    exact hr alias? row hrow name
  | .member receiver? (.property p), h => by
    obtain ⟨receiver, x, hreceiver, hx, happly⟩ := gives_property.mp h
    rw [Mapping.value_of_apply (evaluates_value I ρ) happly, Query.value, operationValue_eq I caps hx,
      List.append_nil, optionValues_of_gives hI hr hreceiver]
    cases receiver <;> rfl
  | .call receiver? method args, h => by
    obtain ⟨x, receiver, _, es, hx, hreceiver, hes, happly⟩ := gives_call.mp h
    have hargs := hr.congr ((keepsNames_optionValue caps receiver?).of_gives hreceiver).scopes
    have hliterals : (receiver.toList ++ es).map Expr.literal?
        = (receiver?.toList ++ args).map Query.constant? := by
      rw [List.map_append, List.map_append, literals_of_gives_optionValue hreceiver,
        literals_of_gives_values hes]
    rw [Mapping.value_of_apply (evaluates_value I ρ) happly, Query.value, operationValue_eq I caps hx,
      List.map_append, optionValues_of_gives hI hr hreceiver, listValues_of_gives hI hargs hes,
      secondLiteral?_eq hliterals]
  | .binary left op right, h => by
    rw [gives_binary] at h
    rw [Query.value]
    split at h
    · rename_i hnull
      obtain ⟨e', he, rfl⟩ := h
      rw [if_pos hnull, Expr.value, (hI ρ e').1, value_of_gives hI hr he]
    · rename_i hleft
      rw [if_neg hleft]
      split at h
      · rename_i hnull
        obtain ⟨e', he, rfl⟩ := h
        rw [if_pos hnull, Expr.value, (hI ρ e').1, value_of_gives hI hr he]
      · rename_i hright
        obtain ⟨l, _, r, hl, hrt, rfl⟩ := h
        have hscopes := hr.congr ((keepsNames_expression caps left).of_gives hl).scopes
        have hoperand : ∀ e' : Expr,
            ((if op.isLogical then asPredicate caps else asValue caps) e').value I ρ
              = e'.value I ρ := by
          intro e'
          split
          · exact (hI ρ e').2
          · exact (hI ρ e').1
        rw [if_neg hright, Expr.value, hoperand, hoperand, value_of_gives hI hr hl,
          value_of_gives hI hscopes hrt]
  | .unary .not operand, h => by
    obtain ⟨e', he, rfl⟩ := gives_not.mp h
    rw [Expr.value, (hI ρ e').2, value_of_gives hI hr he, Query.value]
  | .unary .negate operand, h => by
    obtain ⟨e', he, rfl⟩ := gives_negate.mp h
    rw [Expr.value, (hI ρ e').1, value_of_gives hI hr he, Query.value]
  | .any rows predicate?, h => by
    obtain ⟨_, rfl⟩ := existsRow_of_gives_any h
    rfl
  | .source .., h | .filter .., h | .project .., h | .skip .., h | .take .., h
  | .orderBy .., h => absurd h (not_gives_expression rfl)

theorem optionValues_of_gives (hI : I.Transparent caps) {n m : Naming} (hr : n.Reads ρ χ)
    {e? : Option Expr} : {q? : Option Query} → Gives (optionValue caps q?) n e? m →
      e?.toList.map (Expr.value I ρ) = Query.optionValues I caps χ q?
  | none, h => by
    rw [(gives_optionValue_none.mp h).1]
    rfl
  | some q, h => by
    obtain ⟨e, he, rfl⟩ := gives_optionValue_some.mp h
    rw [Query.optionValues, ← value_of_gives hI hr he, ← (hI ρ e).1]
    rfl

theorem listValues_of_gives (hI : I.Transparent caps) {n m : Naming} (hr : n.Reads ρ χ)
    {es : List Expr} : {qs : List Query} → Gives (values caps qs) n es m →
      es.map (Expr.value I ρ) = Query.listValues I caps χ qs
  | [], h => by
    rw [(gives_values_nil.mp h).1]
    rfl
  | q :: rest, h => by
    obtain ⟨e, _, es', he, hes, rfl⟩ := gives_values_cons.mp h
    have hscopes := hr.congr ((keepsNames_expression caps q).of_gives he).scopes
    rw [List.map_cons, Query.listValues, (hI ρ e).1, value_of_gives hI hr he,
      listValues_of_gives hI hscopes hes]

end

/-- The columns drafted for a projection have its names and values, in order. -/
theorem columns_of_gives (hI : I.Transparent caps) {n m : Naming} (hr : n.Reads ρ χ)
    {columns : List (String × Query)} {cs : List Column}
    (h : Gives (projection caps columns) n cs m) :
    cs.map (fun c => (c.alias?, c.expr.value I ρ))
      = columns.map fun c => (some c.1, c.2.value I caps χ) := by
  induction columns generalizing n cs with
  | nil =>
    rw [(gives_projection_nil.mp h).1]
    rfl
  | cons c rest ih =>
    obtain ⟨e, _, cs', he, hcs, rfl⟩ := gives_projection_cons.mp h
    have hscopes := hr.congr ((keepsNames_expression caps c.2).of_gives he).scopes
    rw [List.map_cons, List.map_cons, ih hscopes hcs, (hI ρ e).1, value_of_gives hI hr he]

end

end QueryLoom.Sql

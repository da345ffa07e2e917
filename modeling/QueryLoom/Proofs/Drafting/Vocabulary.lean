/-
  QueryLoom/Proofs/Drafting/Vocabulary.lean
  =========================================
  **What statements are made of.**  The functions and keywords in the statement of a query come
  from a short list, whatever the query says, and an operation that not every server has is
  only there when the server was asked for it and has it.

  `Expr.isAvailable` says so for one expression by itself, and `Expr.Available` for it and all
  expressions in it.  Operations make available expressions of available operands, because
  every mapping asks for the feature that its template needs; the other steps build nothing
  that could be missing, and a renamed source does not change what a key is made of.

    * `available_of_ofQuery` — every expression in the statement of a query is available.
-/
import QueryLoom.Proofs.Drafting.Invariant
import QueryLoom.Proofs.Scoping.Levels

namespace QueryLoom.Sql

/-- The functions that statements call. -/
def functionNames : List String :=
  ["CHAR_LENGTH", "UPPER", "LOWER", "REPLACE", "RIGHT", "TRUNC"]

/-- The keywords that statements have as expressions. -/
def keywords : List String := ["CURRENT_TIMESTAMP", "CURRENT_DATE"]

/-- Whether the expression is made of what statements of queries are made of, operands aside. -/
def Expr.inVocabulary : Expr → Bool
  | function name _ => functionNames.contains name
  | keyword w => keywords.contains w
  | atTimeZone _ zone => zone == "UTC"
  | _ => true

/-- Whether the server has what the expression is made of, operands aside. -/
def Expr.isAvailable (caps : Capabilities) : Expr → Bool
  | function name _ => functionNames.contains name
  | keyword w => keywords.contains w
  | extract part _ => part != .millisecond || caps.millisecondExtract
  | atTimeZone _ zone => caps.timeZones && zone == "UTC"
  | _ => true

theorem Expr.inVocabulary_of_isAvailable {caps : Capabilities} {e : Expr}
    (h : e.isAvailable caps = true) : e.inVocabulary = true := by
  cases e with
  | function _ _ | keyword _ => exact h
  | atTimeZone _ _ => exact (Bool.and_eq_true_iff.mp h).2
  | _ => rfl

/-- The server has what the expression and all expressions in it are made of. -/
def Expr.Available (caps : Capabilities) (e : Expr) : Prop :=
  ∀ x ∈ e.walk, x.isAvailable caps = true

/-- The server has what the expressions in the statement are made of. -/
def Select.Available (caps : Capabilities) (s : Select) : Prop :=
  ∀ x ∈ s.walk, x.isAvailable caps = true

section

variable {caps : Capabilities}

/-! ### Operations -/

/-- Whether the server has what the template adds to its operands. -/
def Template.isAvailable (caps : Capabilities) : Template → Bool
  | function name => functionNames.contains name
  | keyword w => keywords.contains w
  | extract part => part != .millisecond || caps.millisecondExtract
  | utcTimestamp => caps.timeZones
  | _ => true

/-- Every mapping asks for the feature that its template needs. -/
theorem Mapping.isAvailable_template :
    ∀ x ∈ Mapping.all, x.requires?.all caps.supports = true →
      x.template.isAvailable caps = true := by
  simp [Mapping.all, Mapping.ofProperty, Mapping.ofMethod, Mapping.ofFunction, Mapping.ofGlobal,
    Mapping.adjusted, Mapping.requiring, Template.isAvailable, functionNames, keywords,
    Capabilities.supports]

theorem Mapping.supports_of_apply {x : Mapping} {receiver? : Option Expr} {args : List Expr}
    {e : Expr} (h : x.apply caps receiver? args = .ok e) :
    x.requires?.all caps.supports = true := by
  cases hfeature : x.requires? with
  | none => rfl
  | some feature =>
    by_cases hsupports : caps.supports feature = true
    · exact hsupports
    · simp [Mapping.apply, hfeature, Capabilities.require, hsupports, bind, Except.bind] at h

theorem mem_walkList {x : Expr} {es : List Expr} : x ∈ walkList es ↔ ∃ e ∈ es, x ∈ e.walk := by
  induction es with
  | nil => simp [walkList]
  | cons e rest ih => simp [walkList, ih]

/-- An expression is available when it is by itself and everything in it is. -/
theorem Expr.available_of_walk {e : Expr} {inner : List Expr} (hwalk : e.walk = e :: inner)
    (he : e.isAvailable caps = true) (hinner : ∀ x ∈ inner, x.isAvailable caps = true) :
    e.Available caps := by
  rw [Expr.Available, hwalk]
  exact List.forall_mem_cons.mpr ⟨he, hinner⟩

theorem Expr.available_of_leaf {e : Expr} (hwalk : e.walk = [e])
    (he : e.isAvailable caps = true) : e.Available caps :=
  Expr.available_of_walk hwalk he (List.forall_mem_nil _)

theorem Expr.available_literal (v : Value) : (Expr.literal v).Available caps :=
  Expr.available_of_leaf rfl rfl

theorem Expr.available_binary {left right : Expr} {op : BinaryOperator} :
    (Expr.binary left op right).Available caps ↔ left.Available caps ∧ right.Available caps := by
  simp only [Expr.Available, Expr.walk, List.forall_mem_cons, List.forall_mem_append]
  constructor
  · rintro ⟨_, hleft, hright⟩
    exact ⟨hleft, hright⟩
  · rintro ⟨hleft, hright⟩
    exact ⟨rfl, hleft, hright⟩

theorem Template.available_of_build? {t : Template} {es : List Expr} {e : Expr}
    (ht : t.isAvailable caps = true) (hes : ∀ o ∈ es, o.Available caps)
    (h : t.build? es = some e) : e.Available caps := by
  cases Template.build?_eq_some_iff.mp h with
  | function =>
    intro x hx
    rw [Expr.walk, List.mem_cons] at hx
    rcases hx with rfl | hx
    · exact ht
    · obtain ⟨o, ho, hxo⟩ := mem_walkList.mp hx
      exact hes o ho x hxo
  | isNullOrEmpty trimmed text =>
    rw [List.forall_mem_singleton] at hes
    have hcompared : (if trimmed then Expr.trim none none text else text).Available caps := by
      cases trimmed with
      | true => exact Expr.available_of_walk rfl rfl hes
      | false => exact hes
    have hisNull : (Expr.isNull text false).Available caps :=
      Expr.available_of_walk rfl rfl hes
    exact Expr.available_binary.mpr
      ⟨hisNull, Expr.available_binary.mpr ⟨hcompared, Expr.available_literal _⟩⟩
  | _ =>
    simp only [Expr.Available, Expr.walk, walkOption, walkList, Expr.int, List.forall_mem_cons,
      List.forall_mem_append, List.nil_append, List.append_nil] at hes ⊢
    simp_all [Expr.isAvailable, Template.isAvailable, functionNames, keywords]

theorem Adjustment.available_result {a : Adjustment} {e : Expr} (he : e.Available caps) :
    (a.result e).Available caps := by
  cases a with
  | none | oneBasedStart => exact he
  | incrementResult | decrementResult =>
    exact Expr.available_binary.mpr ⟨he, Expr.available_literal _⟩
  | truncateResult =>
    rw [Adjustment.result, Expr.Available, Expr.walk, walkList, walkList, List.append_nil]
    exact List.forall_mem_cons.mpr ⟨rfl, he⟩

/-- An operation on available operands is available. -/
theorem Mapping.available_of_apply {op : Operation} {arity : Nat} {x : Mapping}
    {receiver? : Option Expr} {args : List Expr} {e : Expr}
    (hx : Mapping.find op arity = .ok x) (h : x.apply caps receiver? args = .ok e)
    (hreceiver : ∀ o ∈ receiver?, o.Available caps) (hargs : ∀ o ∈ args, o.Available caps) :
    e.Available caps := by
  have htemplate := Mapping.isAvailable_template x (Mapping.mem_of_find hx)
    (Mapping.supports_of_apply h)
  have hgiven : ∀ o ∈ receiver?.toList ++ args, o.Available caps := by
    simpa [or_imp, forall_and] using And.intro hreceiver hargs
  obtain ⟨operands, built, hoperands, hbuilt, rfl⟩ := Mapping.apply_eq_ok h
  have hes := Adjustment.forall_of_operands Expr.available_literal
    (fun o ho => Expr.available_binary.mpr ⟨ho, Expr.available_literal _⟩) hgiven hoperands
  exact Adjustment.available_result (Template.available_of_build? htemplate hes hbuilt)

theorem Expr.available_choosing {test : Expr} {yes no : Value} (htest : test.Available caps) :
    (Expr.case [⟨test, .literal yes⟩] (some (.literal no))).Available caps := by
  refine Expr.available_of_walk rfl rfl ?_
  rw [walkWhens, walkWhens, walkOption, List.append_nil]
  simp only [List.forall_mem_append]
  exact ⟨⟨htest, Expr.available_literal yes⟩, Expr.available_literal no⟩

theorem available_asValue {e : Expr} (he : e.Available caps) : (asValue caps e).Available caps := by
  unfold asValue
  split
  · exact he
  · exact Expr.available_choosing he

theorem available_asPredicate {e : Expr} (he : e.Available caps) :
    (asPredicate caps e).Available caps := by
  unfold asPredicate
  split
  · exact he
  · exact Expr.available_binary.mpr ⟨he, Expr.available_literal _⟩

theorem Expr.isAvailable_rename (old new : String) (e : Expr) :
    (e.rename old new).isAvailable caps = e.isAvailable caps := by
  cases e <;> rfl

/-- A key that holds no statement is made of the same with its source renamed. -/
theorem available_rename {old new : String} {e : Expr} (hsubquery : e.hasSubquery = false)
    (he : e.Available caps) : (e.rename old new).Available caps := by
  intro x hx
  rcases reached_of_mem_walk _ hx with hpart | ⟨rows, hrows, _⟩
  · rw [parts_rename, List.mem_map] at hpart
    obtain ⟨y, hy, rfl⟩ := hpart
    rw [Expr.isAvailable_rename]
    exact he y ((parts_sublist_walk e).subset hy)
  · rw [parts_rename, List.mem_map] at hrows
    obtain ⟨y, hy, hyrows⟩ := hrows
    cases y with
    | existsRow inner => exact absurd hy (not_exists_of_hasSubquery hsubquery inner)
    | _ => cases hyrows

/-! ### Statements -/

theorem mem_walkColumns {x : Expr} {cs : List Column} :
    x ∈ walkColumns cs ↔ ∃ c ∈ cs, x ∈ c.expr.walk := by
  induction cs with
  | nil => simp [walkColumns]
  | cons c rest ih =>
    rcases c with ⟨e, alias?⟩
    rw [walkColumns, List.mem_append, ih]
    simp

theorem mem_walkKeys {x : Expr} {keys : List OrderKey} :
    x ∈ walkKeys keys ↔ ∃ k ∈ keys, x ∈ k.expr.walk := by
  induction keys with
  | nil => simp [walkKeys]
  | cons k rest ih =>
    rcases k with ⟨e, direction⟩
    rw [walkKeys, List.mem_append, ih]
    simp

/-- What has to be available for a statement to be. -/
theorem Select.available_iff {s : Select} :
    s.Available caps ↔ (∀ c ∈ s.columns, c.expr.Available caps) ∧
      (∀ x ∈ s.origin.walk, x.isAvailable caps = true) ∧
      (∀ e ∈ s.conditions, e.Available caps) ∧ (∀ k ∈ s.ordering, k.expr.Available caps) ∧
      ∀ x ∈ walkWindow s.window?, x.isAvailable caps = true := by
  rcases s with ⟨columns, origin, conditions, ordering, window?⟩
  simp only [Select.Available, Select.walk, List.forall_mem_append, Expr.Available,
    mem_walkColumns, mem_walkList, mem_walkKeys]
  grind

theorem Select.available_of_consists {s : Select}
    (h : s.Consists (Expr.Available caps) (Expr.Available caps) (Select.Available caps)) :
    s.Available caps := by
  refine Select.available_iff.mpr ⟨h.columns, ?_, h.conditions, h.ordering, ?_⟩
  · cases horigin : s.origin with
    | table _ _ | singleRow => exact List.forall_mem_nil _
    | derived rows source => exact h.origin rows source horigin
  · cases hwindow : s.window? with
    | none => exact List.forall_mem_nil _
    | some w =>
      obtain ⟨hlower, hupper⟩ := h.window w hwindow
      rcases w with ⟨lower, _ | upper⟩
      · exact List.forall_mem_append.mpr ⟨hlower, List.forall_mem_nil _⟩
      · exact List.forall_mem_append.mpr ⟨hlower, hupper upper rfl⟩

variable (caps) in
/-- Drafting keeps to what the server has. -/
def availability : Invariant caps where
  expr := Expr.Available caps
  value := Expr.Available caps
  condition := Expr.Available caps
  select := Select.Available caps
  literal := Expr.available_literal
  parameter _ := Expr.available_of_leaf rfl rfl
  column _ _ := Expr.available_of_leaf rfl rfl
  allColumns _ := Expr.available_of_leaf rfl rfl
  asValue := available_asValue
  asPredicate := available_asPredicate
  apply := Mapping.available_of_apply
  isNull _ := Expr.available_of_walk rfl rfl
  logical _ hl hr := Expr.available_binary.mpr ⟨hl, hr⟩
  operation _ hl hr := Expr.available_binary.mpr ⟨hl, hr⟩
  not := Expr.available_of_walk rfl rfl
  negate := Expr.available_of_walk rfl rfl
  existsRow := Expr.available_of_walk rfl rfl
  rename _ _ := available_rename
  outcome _ _ := Expr.available_choosing
  consists := Select.available_of_consists

/-- Every expression in the statement of a query is available. -/
theorem available_of_ofQuery {q : Query} {s : Select} (h : Select.ofQuery caps q = .ok s) :
    s.Available caps :=
  (availability caps).of_ofQuery h

end

end QueryLoom.Sql

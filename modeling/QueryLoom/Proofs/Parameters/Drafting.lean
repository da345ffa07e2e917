/-
  QueryLoom/Proofs/Parameters/Drafting.lean
  =========================================
  **A query with other parameters has the statement with other parameters.**  No step of drafting
  looks at the name of a parameter.  One that counts rows is asked for its type, and the key of an
  ordering is compared with the columns of a projection, so types have to stay what they are
  and different parameters different.  `Relabelling` says so of what is put in their place.

  * `Carries`: whatever the first step gives, the second gives with other parameters;
  * `carries_expression`, `carries_sequence`: the recursion;
  * `ofQuery_mapParameters`: the statement of a query.
-/
import Mathlib.Data.List.Find
import QueryLoom.Proofs.Drafting.Acceptance
import QueryLoom.Proofs.Parameters.Tree

namespace QueryLoom.Sql

/-! ### Steps -/

/-- Whatever the first step gives, the second gives after the given change. -/
def Carries {α β : Type} (j : α → β) (x : Drafting α) (y : Drafting β) : Prop :=
  ∀ (n m : Naming) (a : α), Gives x n a m → Gives y n (j a) m

section Combinators

variable {α β γ δ : Type} {j : α → β} {k : γ → δ}

theorem carries_same (x : Drafting α) : Carries id x x := fun _ _ _ h => h

theorem carries_pure {a : α} {b : β} (h : j a = b) : Carries j (pure a) (pure b) := by
  intro n m a' ha
  obtain ⟨rfl, rfl⟩ := gives_pure.mp ha
  exact gives_pure.mpr ⟨h, rfl⟩

theorem carries_throw (e : CompileError) (y : Drafting β) : Carries j (throw e) y :=
  fun _ _ _ h => absurd h not_gives_throw

theorem carries_lift {x : Except CompileError α} {y : Except CompileError β}
    (h : ∀ a, x = .ok a → y = .ok (j a)) : Carries j (liftM x) (liftM y) :=
  fun _ _ a ha => gives_lift.mpr ((gives_lift.mp ha).imp_left (h a))

theorem Carries.bind {x : Drafting α} {y : Drafting β} {f : α → Drafting γ} {g : β → Drafting δ}
    (hx : Carries j x y) (hf : ∀ a, Carries k (f a) (g (j a))) :
    Carries k (x >>= f) (y >>= g) := by
  intro n m c h
  obtain ⟨a, l, ha, hc⟩ := gives_bind.mp h
  exact gives_bind.mpr ⟨j a, l, hx n l a ha, hf a l m c hc⟩

theorem Carries.inRow {x : Drafting α} {y : Drafting β} (h : Carries j x y) (row : Scope) :
    Carries j (inRow row x) (inRow row y) := by
  intro n m a ha
  obtain ⟨l, hl, hm⟩ := gives_inRow.mp ha
  exact gives_inRow.mpr ⟨l, h _ l a hl, hm⟩

end Combinators

/-! ### Values, conditions and operations -/

/-- What is put in the place of parameters: others of the same types, different ones for different
    ones. -/
structure Relabelling (f : Parameter → Parameter) : Prop where
  injective : Function.Injective f
  type (p : Parameter) : (f p).type = p.type

section

variable {f : Parameter → Parameter} {caps : Capabilities}

theorem asPredicate_mapParameters (e : Expr) :
    asPredicate caps (e.mapParameters f) = (asPredicate caps e).mapParameters f := by
  unfold asPredicate
  rw [isPredicate_mapParameters]
  split <;> rfl

theorem asValue_mapParameters (e : Expr) :
    asValue caps (e.mapParameters f) = (asValue caps e).mapParameters f := by
  unfold asValue
  rw [isPredicate_mapParameters]
  split <;> rfl

theorem oneBased_mapParameters {start start' : Expr} (h : oneBased start = .ok start') :
    oneBased (start.mapParameters f) = .ok (start'.mapParameters f) := by
  cases start with
  | literal v =>
    obtain ⟨w, rfl⟩ : ∃ w, start' = .literal w := by
      rcases oneBased_eq_ok h with hw | rfl
      · exact hw
      · unfold oneBased at h
        repeat' split at h
        all_goals cases h
    exact h
  | _ =>
    cases h
    rfl

theorem Adjustment.operands_mapParameters {a : Adjustment} {es es' : List Expr}
    (h : a.operands caps es = .ok es') :
    a.operands caps (es.map (Expr.mapParameters f)) = .ok (es'.map (Expr.mapParameters f)) := by
  unfold Adjustment.operands at h
  split at h
  · simp only [List.map_cons, Adjustment.operands]
    split at h
    · rename_i start rest hcaps
      rw [if_pos hcaps]
      cases hstart : oneBased start with
      | error e => rw [hstart] at h; cases h
      | ok start' =>
        rw [hstart] at h
        cases h
        rw [oneBased_mapParameters hstart]
        rfl
    · rename_i hcaps
      rw [if_neg hcaps]
      cases h
      rfl
  · rename_i hshape
    cases h
    unfold Adjustment.operands
    split
    · rename_i hes
      rcases es with _ | ⟨text, _ | ⟨start, rest⟩⟩
      · cases hes
      · cases hes
      · exact absurd rfl (hshape text start rest rfl)
    · rfl

theorem Template.build?_mapParameters {t : Template} {es : List Expr} {e : Expr}
    (h : t.build? es = some e) :
    t.build? (es.map (Expr.mapParameters f)) = some (e.mapParameters f) := by
  cases Template.build?_eq_some_iff.mp h with
  | function => simp only [Template.build?, Expr.mapParameters, mapListParameters_eq_map]
  | isNullOrEmpty trimmed => cases trimmed <;> rfl
  | _ => rfl

/-- An operation on operands with other parameters. -/
theorem Mapping.apply_mapParameters {x : Mapping} {receiver? : Option Expr} {args : List Expr}
    {e : Expr} (h : x.apply caps receiver? args = .ok e) :
    x.apply caps (mapOptionParameters f receiver?) (mapListParameters f args) =
      .ok (e.mapParameters f) := by
  obtain ⟨hsupports, hreceiver, hlength, operands, built, hoperands, hbuilt, rfl⟩ :=
    apply_eq_ok_iff.mp h
  have hgiven : (mapOptionParameters f receiver?).toList ++ mapListParameters f args
      = (receiver?.toList ++ args).map (Expr.mapParameters f) := by
    rw [mapListParameters_eq_map]
    cases receiver? <;> simp [mapOptionParameters]
  refine apply_eq_ok_iff.mpr ⟨hsupports, ?_, ?_, operands.map (Expr.mapParameters f),
    built.mapParameters f, ?_, Template.build?_mapParameters hbuilt, ?_⟩
  · rw [← hreceiver]
    cases receiver? <;> rfl
  · rw [mapListParameters_eq_map, List.length_map, hlength]
  · rw [hgiven]
    exact Adjustment.operands_mapParameters hoperands
  · cases x.adjustment <;> rfl

end

/-! ### Windows -/

/-- The counts with other parameters. -/
def Paging.mapParameters (f : Parameter → Parameter) (p : Paging) : Paging :=
  ⟨mapOptionParameters f p.skip?, mapOptionParameters f p.take?⟩

section

variable {f : Parameter → Parameter} (hf : Relabelling f)

include hf

theorem checkCount_mapParameters {operator : String} {e : Expr}
    (h : Paging.checkCount operator e = .ok ()) :
    Paging.checkCount operator (e.mapParameters f) = .ok () := by
  cases e with
  | parameter p =>
    rw [Paging.checkCount] at h
    rw [Expr.mapParameters, Paging.checkCount, hf.type]
    split at h
    · rename_i hinteger
      rw [if_pos hinteger]
    · cases h
  | literal v => exact h
  | _ => cases h

/-- A count with another parameter. -/
theorem rowCount_mapParameters {operator : String} {count : Query} {e : Expr}
    (h : Paging.rowCount operator count = .ok e) :
    Paging.rowCount operator (count.mapParameters f) = .ok (e.mapParameters f) := by
  obtain ⟨hcheck, ⟨v, rfl, rfl⟩ | ⟨p, rfl, rfl⟩⟩ := rowCount_eq_ok.mp h
  · exact rowCount_eq_ok.mpr ⟨checkCount_mapParameters hf hcheck, .inl ⟨v, rfl, rfl⟩⟩
  · exact rowCount_eq_ok.mpr ⟨checkCount_mapParameters hf hcheck, .inr ⟨f p, rfl, rfl⟩⟩

/-- The window of counts with other parameters. -/
theorem window?_mapParameters {p : Paging} {w? : Option Window} (h : p.window? = .ok w?) :
    (p.mapParameters f).window? = .ok (mapWindowParameters f w?) := by
  obtain ⟨hskip, htake, rfl⟩ := window?_eq_ok h
  rcases p with ⟨_ | skip, _ | take⟩
  · rfl
  · have hcheck := checkCount_mapParameters hf (htake take rfl)
    simp only [Paging.mapParameters, mapOptionParameters, Paging.window?, hcheck, bind, Except.bind]
    rfl
  · have hcheck := checkCount_mapParameters hf (hskip skip rfl)
    simp only [Paging.mapParameters, mapOptionParameters, Paging.window?, hcheck, bind, Except.bind]
    rfl
  · have hcheck := checkCount_mapParameters hf (hskip skip rfl)
    have hcheck' := checkCount_mapParameters hf (htake take rfl)
    simp only [Paging.mapParameters, mapOptionParameters, Paging.window?, hcheck, hcheck', bind,
      Except.bind]
    rfl

end

/-! ### Keys -/

section

variable {f : Parameter → Parameter} (hf : Relabelling f)

theorem selectsAllColumns_mapParameters (s : Select) :
    (s.mapParameters f).selectsAllColumns = s.selectsAllColumns := by
  rw [Bool.eq_iff_iff, selectsAllColumns_iff, selectsAllColumns_iff, Select.mapParameters_mk]
  refine exists_congr fun source => and_congr ?_ (by rw [alias?_mapParameters])
  dsimp only
  rw [List.map_eq_singleton_iff]
  constructor
  · rintro ⟨⟨e, alias?⟩, hcolumns, hc⟩
    cases e <;> simp only [Expr.mapParameters, Column.mk.injEq, reduceCtorEq, false_and] at hc
    rw [hcolumns, hc.2]
    rw [Expr.allColumns.inj hc.1]
  · intro hcolumns
    exact ⟨_, hcolumns, rfl⟩

include hf

theorem columnOf?_mapParameters (s : Select) (key : Expr) :
    (s.mapParameters f).columnOf? (key.mapParameters f) = s.columnOf? key := by
  rw [Select.mapParameters_mk, Select.columnOf?, Select.columnOf?, List.find?_map, Option.bind_map]
  refine congrArg (fun c? => Option.bind c? Column.alias?) (List.find?_congr fun c _ => ?_)
  rw [Function.comp, Bool.eq_iff_iff]
  exact agrees_mapParameters hf.injective c.expr key

/-- A key with other parameters is carried as the key is. -/
theorem carry_mapParameters (s : Select) (source : String) (key : Expr) :
    (s.mapParameters f).carry source (key.mapParameters f) =
      (s.carry source key).map (Expr.mapParameters f) := by
  unfold Select.carry
  rw [columnOf?_mapParameters hf, selectsAllColumns_mapParameters]
  cases s.columnOf? key with
  | some name => rfl
  | none =>
    dsimp only
    split
    · rw [Select.mapParameters_mk]
      dsimp only
      rw [alias?_mapParameters]
      cases s.origin.alias? with
      | none => rfl
      | some old =>
        rw [Option.bind_some, Option.bind_some, Expr.rebase, Expr.rebase,
          hasSubquery_mapParameters]
        cases key.hasSubquery with
        | true => rfl
        | false =>
          rw [rename_mapParameters]
          rfl
    · rfl

/-- The keys that a derived table carries, with other parameters. -/
theorem carryOrdering_mapParameters {s : Select} {source : String} {ordering : List OrderKey}
    (h : s.carryOrdering source = .ok ordering) :
    (s.mapParameters f).carryOrdering source = .ok (mapKeyParameters f ordering) := by
  have hordering : (s.mapParameters f).ordering =
      s.ordering.map fun k => ⟨k.expr.mapParameters f, k.direction⟩ := by
    rw [Select.mapParameters_mk]
  have hall : (s.mapParameters f).carryOrdering source =
      (s.carryOrdering source).map
        (List.map fun k => ⟨k.expr.mapParameters f, k.direction⟩) := by
    rw [Select.carryOrdering, Select.carryOrdering, hordering]
    refine mapM_map_of_forall fun k _ => ?_
    rw [carry_mapParameters hf]
    cases s.carry source k.expr <;> rfl
  rw [hall, h, mapKeyParameters_eq_map]
  rfl

end

/-! ### Drafts -/

/-- The draft with other parameters. -/
def Draft.mapParameters (f : Parameter → Parameter) (d : Draft) : Draft :=
  { d with select := d.select.mapParameters f, paging := d.paging.mapParameters f }

section

variable {f : Parameter → Parameter}

theorem isPaged_mapParameters (d : Draft) : (d.mapParameters f).isPaged = d.isPaged := by
  rcases d with ⟨select, row, ⟨_ | skip, _ | take⟩, projected⟩ <;> rfl

theorem filtered_mapParameters (d : Draft) (e : Expr) :
    (d.mapParameters f).filtered (e.mapParameters f) = (d.filtered e).mapParameters f := by
  simp only [Draft.mapParameters, Draft.filtered, Select.mapParameters_mk, List.map_append,
    List.map_cons, List.map_nil]

theorem ordered_mapParameters (d : Draft) (e : Expr) (direction : Direction) :
    (d.mapParameters f).ordered ⟨e.mapParameters f, direction⟩ =
      (d.ordered ⟨e, direction⟩).mapParameters f := by
  simp only [Draft.mapParameters, Draft.ordered, Select.mapParameters_mk, List.map_append,
    List.map_cons, List.map_nil]

theorem projecting_mapParameters (d : Draft) (cs : List Column) :
    (d.mapParameters f).projecting (mapColumnParameters f cs) =
      (d.projecting cs).mapParameters f := by
  simp only [Draft.mapParameters, Draft.projecting, Select.mapParameters_mk,
    mapColumnParameters_eq_map]

theorem inner_mapParameters (s : Select) :
    (if (s.mapParameters f).isPaged then s.mapParameters f
        else { s.mapParameters f with ordering := [] }) =
      (if s.isPaged then s else { s with ordering := [] }).mapParameters f := by
  rcases s with ⟨columns, origin, conditions, ordering, _ | ⟨lower, upper?⟩⟩ <;> rfl

variable (hf : Relabelling f)

include hf

/-- The statement of a draft with other parameters. -/
theorem finish_mapParameters {d : Draft} {s : Select} (h : d.finish = .ok s) :
    (d.mapParameters f).finish = .ok (s.mapParameters f) := by
  rcases d with ⟨⟨columns, origin, conditions, ordering, window?⟩, row, paging, projected⟩
  have hwindow : ∀ w?, paging.window? = .ok w? →
      (paging.mapParameters f).window? = .ok (mapWindowParameters f w?) :=
    fun w? => window?_mapParameters hf
  simp only [Draft.finish, bind, Except.bind] at h
  simp only [Draft.finish, Draft.mapParameters, Select.mapParameters, alias?_mapParameters, bind,
    Except.bind]
  cases columns with
  | cons c rest =>
    simp only [mapColumnParameters_eq_map, List.map_cons] at h ⊢
    cases hpaging : paging.window? with
    | error e => rw [hpaging] at h; cases h
    | ok w? =>
      rw [hpaging] at h
      cases h
      rw [hwindow w? hpaging]
      simp [Select.mapParameters, mapColumnParameters_eq_map, pure, Except.pure]
  | nil =>
    cases halias : origin.alias? with
    | none => simp only [halias] at h; cases h
    | some source =>
      simp only [halias, mapColumnParameters] at h ⊢
      cases hpaging : paging.window? with
      | error e => rw [hpaging] at h; cases h
      | ok w? =>
        rw [hpaging] at h
        cases h
        rw [hwindow w? hpaging]
        rfl

theorem existence_mapParameters {d : Draft} {s : Select} (h : d.existence = .ok s) :
    (d.mapParameters f).existence = .ok (s.mapParameters f) := by
  have hdraft : ({ d.mapParameters f with select := { (d.mapParameters f).select with
        ordering := if (d.mapParameters f).isPaged then (d.mapParameters f).select.ordering else []
        columns := [⟨.int 1, none⟩] } } : Draft) =
      Draft.mapParameters f { d with select := { d.select with
        ordering := if d.isPaged then d.select.ordering else []
        columns := [⟨.int 1, none⟩] } } := by
    rw [isPaged_mapParameters]
    simp only [Draft.mapParameters, Select.mapParameters_mk]
    cases d.isPaged <;> rfl
  rw [Draft.existence] at h ⊢
  dsimp only at h ⊢
  rw [hdraft]
  exact finish_mapParameters hf h

theorem carries_pushDown (d : Draft) :
    Carries (Draft.mapParameters f) (pushDown d) (pushDown (d.mapParameters f)) := by
  intro n m d' h
  obtain ⟨inner, ordering, hfinish, hcarry, hm, rfl⟩ := gives_pushDown.mp h
  refine gives_pushDown.mpr ⟨_, _, finish_mapParameters hf hfinish,
    carryOrdering_mapParameters hf hcarry, hm, ?_⟩
  rw [inner_mapParameters]
  rfl

theorem carries_pushDownIf {needed needed' : Bool} (h : needed' = needed) (d : Draft) :
    Carries (Draft.mapParameters f) (pushDownIf needed d)
      (pushDownIf needed' (d.mapParameters f)) := by
  subst h
  cases needed' with
  | true => exact carries_pushDown hf d
  | false => exact carries_pure rfl

end

/-! ### The recursion -/

section

variable {f : Parameter → Parameter}

theorem carries_resolve (alias? : Option String) (name : String) :
    Carries (Expr.mapParameters f) (resolve alias? name) (resolve alias? name) := by
  intro n m e h
  obtain ⟨row, -, rfl, -⟩ := gives_resolve.mp h
  exact h

theorem isNullConstant_mapParameters (q : Query) :
    isNullConstant (q.mapParameters f) = isNullConstant q := by
  cases q <;> rfl

variable (caps : Capabilities)

mutual

/-- A scalar with other parameters. -/
theorem carries_expression (hf : Relabelling f) : (q : Query) →
    Carries (Expr.mapParameters f) (expression caps q) (expression caps (q.mapParameters f))
  | .constant _ => by
    rw [Query.mapParameters, expression]
    exact carries_pure rfl
  | .parameter _ => by
    rw [Query.mapParameters, expression, expression]
    exact carries_pure rfl
  | .member receiver? (.column alias? name) => by
    rw [Query.mapParameters, expression, expression]
    cases receiver? with
    | none => exact carries_resolve alias? name
    | some receiver => exact carries_throw _ _
  | .member receiver? (.property p) => by
    rw [Query.mapParameters, expression, expression]
    refine (carries_optionValue hf receiver?).bind fun receiver? => ?_
    exact (carries_same _).bind fun x => carries_lift fun _ => Mapping.apply_mapParameters
  | .call receiver? m args => by
    have hlength : (Query.mapListParameters f args).length = args.length := by
      induction args with
      | nil => rfl
      | cons q rest ih => rw [Query.mapListParameters, List.length_cons, List.length_cons, ih]
    rw [Query.mapParameters, expression, expression, hlength]
    refine (carries_same _).bind fun x => ?_
    refine (carries_optionValue hf receiver?).bind fun receiver? => ?_
    refine (carries_values hf args).bind fun args => ?_
    exact carries_lift fun _ => Mapping.apply_mapParameters
  | .binary left op right => by
    rw [Query.mapParameters, expression, expression, isNullConstant_mapParameters,
      isNullConstant_mapParameters]
    split
    · refine (carries_expression hf right).bind fun e => carries_pure ?_
      rw [asValue_mapParameters]
      rfl
    · split
      · refine (carries_expression hf left).bind fun e => carries_pure ?_
        rw [asValue_mapParameters]
        rfl
      · refine (carries_expression hf left).bind fun l => ?_
        refine (carries_expression hf right).bind fun r => carries_pure ?_
        split
        · rw [asPredicate_mapParameters, asPredicate_mapParameters]
          rfl
        · rw [asValue_mapParameters, asValue_mapParameters]
          rfl
  | .unary .not operand => by
    rw [Query.mapParameters, expression, expression]
    refine (carries_expression hf operand).bind fun e => carries_pure ?_
    rw [asPredicate_mapParameters]
    rfl
  | .unary .negate operand => by
    rw [Query.mapParameters, expression, expression]
    refine (carries_expression hf operand).bind fun e => carries_pure ?_
    rw [asValue_mapParameters]
    rfl
  | .any rows predicate? => by
    rw [Query.mapParameters, expression, expression]
    refine (carries_sequence hf rows).bind fun d => ?_
    refine (carries_meeting hf d predicate?).bind fun d => ?_
    exact (carries_lift fun _ => existence_mapParameters hf).bind fun s => carries_pure rfl
  | .source .. | .filter .. | .project .. | .skip .. | .take .. | .orderBy .. => by
    rw [expression]
    exact carries_throw _ _

theorem carries_optionValue (hf : Relabelling f) : (q? : Option Query) →
    Carries (mapOptionParameters f) (optionValue caps q?)
      (optionValue caps (Query.mapOptionParameters f q?))
  | none => by
    rw [Query.mapOptionParameters, optionValue]
    exact carries_pure rfl
  | some q => by
    rw [Query.mapOptionParameters, optionValue, optionValue]
    refine (carries_expression hf q).bind fun e => carries_pure ?_
    rw [asValue_mapParameters]
    rfl

theorem carries_values (hf : Relabelling f) : (qs : List Query) →
    Carries (mapListParameters f) (values caps qs) (values caps (Query.mapListParameters f qs))
  | [] => by
    rw [Query.mapListParameters, values]
    exact carries_pure rfl
  | q :: rest => by
    rw [Query.mapListParameters, values, values]
    refine (carries_expression hf q).bind fun e => (carries_values hf rest).bind fun es =>
      carries_pure ?_
    rw [asValue_mapParameters]
    rfl

theorem carries_projection (hf : Relabelling f) : (columns : List (String × Query)) →
    Carries (mapColumnParameters f) (projection caps columns)
      (projection caps (Query.mapColumnParameters f columns))
  | [] => by
    rw [Query.mapColumnParameters, projection]
    exact carries_pure rfl
  | (name, q) :: rest => by
    rw [Query.mapColumnParameters, projection, projection]
    refine (carries_expression hf q).bind fun e => (carries_projection hf rest).bind fun cs =>
      carries_pure ?_
    rw [asValue_mapParameters]
    rfl

/-- The draft of a sequence with other parameters. -/
theorem carries_sequence (hf : Relabelling f) : (q : Query) →
    Carries (Draft.mapParameters f) (sequence caps q) (sequence caps (q.mapParameters f))
  | .source .. => by
    rw [Query.mapParameters, sequence]
    exact carries_pure rfl
  | .filter rows predicate => by
    rw [Query.mapParameters, sequence, sequence]
    refine (carries_sequence hf rows).bind fun d => ?_
    refine (carries_pushDownIf hf (by rw [isPaged_mapParameters]; rfl) d).bind fun d => ?_
    refine ((carries_expression hf predicate).inRow d.row).bind fun e => carries_pure ?_
    rw [asPredicate_mapParameters, filtered_mapParameters]
  | .orderBy rows key direction => by
    rw [Query.mapParameters, sequence, sequence]
    refine (carries_sequence hf rows).bind fun d => ?_
    refine (carries_pushDownIf hf (by rw [isPaged_mapParameters]; rfl) d).bind fun d => ?_
    refine ((carries_expression hf key).inRow d.row).bind fun e => carries_pure ?_
    rw [asValue_mapParameters, ordered_mapParameters]
  | .project rows columns => by
    rw [Query.mapParameters, sequence, sequence]
    refine (carries_sequence hf rows).bind fun d => (carries_pushDownIf hf rfl d).bind fun d => ?_
    refine ((carries_projection hf columns).inRow d.row).bind fun cs => carries_pure ?_
    rw [projecting_mapParameters]
  | .skip rows count => by
    rw [Query.mapParameters, sequence, sequence]
    refine (carries_sequence hf rows).bind fun d => ?_
    refine (carries_pushDownIf hf (isPaged_mapParameters d) d).bind fun d => ?_
    exact (carries_lift fun _ => rowCount_mapParameters hf).bind fun e => carries_pure rfl
  | .take rows count => by
    rw [Query.mapParameters, sequence, sequence]
    refine (carries_sequence hf rows).bind fun d => ?_
    have htaken : (d.mapParameters f).paging.take?.isSome = d.paging.take?.isSome := by
      rcases d with ⟨select, row, ⟨skip?, _ | take⟩, projected⟩ <;> rfl
    refine (carries_pushDownIf hf htaken d).bind fun d => ?_
    exact (carries_lift fun _ => rowCount_mapParameters hf).bind fun e => carries_pure rfl
  | .any .. | .member .. | .call .. | .constant _ | .parameter _ | .binary .. | .unary .. => by
    rw [sequence]
    exact carries_throw _ _

theorem carries_meeting (hf : Relabelling f) (d : Draft) : (predicate? : Option Query) →
    Carries (Draft.mapParameters f) (meeting caps d predicate?)
      (meeting caps (d.mapParameters f) (Query.mapOptionParameters f predicate?))
  | none => by
    rw [Query.mapOptionParameters, meeting, meeting]
    exact carries_pure rfl
  | some predicate => by
    rw [Query.mapOptionParameters, meeting, meeting]
    refine (carries_pushDownIf hf (by rw [isPaged_mapParameters]; rfl) d).bind fun d => ?_
    refine ((carries_expression hf predicate).inRow d.row).bind fun e => carries_pure ?_
    rw [asPredicate_mapParameters, filtered_mapParameters]

end

/-- The statement of a query with other parameters. -/
theorem ofQuery_mapParameters (hf : Relabelling f) {q : Query} {s : Select}
    (h : Select.ofQuery caps q = .ok s) :
    Select.ofQuery caps (q.mapParameters f) = .ok (s.mapParameters f) := by
  have hcarries : Carries (Select.mapParameters f) (statement caps q)
      (statement caps (q.mapParameters f)) := by
    unfold statement
    rw [Query.sourceAliases_mapParameters]
    refine (carries_same _).bind fun _ => ?_
    cases q with
    | any rows predicate? =>
      refine (carries_same _).bind fun _ => ?_
      exact (carries_expression caps hf (.any rows predicate?)).bind fun e => carries_pure rfl
    | _ => first
      | exact carries_throw _ _
      | exact (carries_sequence caps hf _).bind fun d =>
          carries_lift fun _ => finish_mapParameters hf
  obtain ⟨m, hm⟩ := gives_of_ofQuery h
  rw [Select.ofQuery, hcarries _ _ _ hm]

end

end QueryLoom.Sql

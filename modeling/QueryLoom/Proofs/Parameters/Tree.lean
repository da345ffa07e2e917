/-
  QueryLoom/Proofs/Parameters/Tree.lean
  =====================================
  **Other parameters in the place of those in a tree.**  `mapParameters` puts a parameter in the
  place of each parameter of a query, of an expression or of a statement, at any depth, and leaves
  everything else as it is.  What is asked of a tree besides its parameters is asked of the
  new tree with the same answer, and two trees agree after different parameters have
  been replaced by different ones just when they agree before.

  * `rename_mapParameters`, `hasSubquery_mapParameters`: parameters do not get in the way of
    renaming sources and of looking for statements;
  * `agrees_mapParameters`: agreement;
  * `Query.mapParameters_congr`: only the parameters of the query matter.
-/
import QueryLoom.Proofs.Meaning.Operands
import QueryLoom.Proofs.Query.Site

namespace QueryLoom

/-! ### Queries -/

namespace Query

mutual

/-- The query with other parameters. -/
def mapParameters (f : Parameter → Parameter) : Query → Query
  | source table alias? => source table alias?
  | filter rows predicate => filter (rows.mapParameters f) (predicate.mapParameters f)
  | project rows columns => project (rows.mapParameters f) (mapColumnParameters f columns)
  | skip rows count => skip (rows.mapParameters f) (count.mapParameters f)
  | take rows count => take (rows.mapParameters f) (count.mapParameters f)
  | orderBy rows key direction => orderBy (rows.mapParameters f) (key.mapParameters f) direction
  | any rows predicate? => any (rows.mapParameters f) (mapOptionParameters f predicate?)
  | member receiver? member' => member (mapOptionParameters f receiver?) member'
  | call receiver? method args =>
    call (mapOptionParameters f receiver?) method (mapListParameters f args)
  | constant v => constant v
  | parameter p => parameter (f p)
  | binary left op right => binary (left.mapParameters f) op (right.mapParameters f)
  | unary op operand => unary op (operand.mapParameters f)

/-- Other parameters in a query that may be missing. -/
def mapOptionParameters (f : Parameter → Parameter) : Option Query → Option Query
  | none => none
  | some q => some (q.mapParameters f)

/-- Other parameters in a list. -/
def mapListParameters (f : Parameter → Parameter) : List Query → List Query
  | [] => []
  | q :: rest => q.mapParameters f :: mapListParameters f rest

/-- Other parameters in the columns of a projection. -/
def mapColumnParameters (f : Parameter → Parameter) : List (String × Query) → List (String × Query)
  | [] => []
  | (name, q) :: rest => (name, q.mapParameters f) :: mapColumnParameters f rest

end

section

variable {f g : Parameter → Parameter}

mutual

/-- Only the parameters of the query matter. -/
theorem mapParameters_congr : (q : Query) → (∀ p, parameter p ∈ q.nodes → f p = g p) →
    q.mapParameters f = q.mapParameters g
  | source .., _ | constant _, _ => rfl
  | parameter p, h => by
    rw [mapParameters, mapParameters, h p (self_mem_nodes _)]
  | filter rows other, h | skip rows other, h | take rows other, h | orderBy rows other _, h
  | binary rows _ other, h => by
    simp only [nodes, List.mem_cons, List.mem_append] at h
    rw [mapParameters, mapParameters, mapParameters_congr rows fun p hp => h p (.inr (.inl hp)),
      mapParameters_congr other fun p hp => h p (.inr (.inr hp))]
  | unary _ operand, h => by
    simp only [nodes, List.mem_cons] at h
    rw [mapParameters, mapParameters, mapParameters_congr operand fun p hp => h p (.inr hp)]
  | project rows columns, h => by
    simp only [nodes, List.mem_cons, List.mem_append] at h
    rw [mapParameters, mapParameters, mapParameters_congr rows fun p hp => h p (.inr (.inl hp)),
      mapColumnParameters_congr columns fun p hp => h p (.inr (.inr hp))]
  | any rows predicate?, h => by
    simp only [nodes, List.mem_cons, List.mem_append] at h
    rw [mapParameters, mapParameters, mapParameters_congr rows fun p hp => h p (.inr (.inl hp)),
      mapOptionParameters_congr predicate? fun p hp => h p (.inr (.inr hp))]
  | member receiver? _, h => by
    simp only [nodes, List.mem_cons] at h
    rw [mapParameters, mapParameters,
      mapOptionParameters_congr receiver? fun p hp => h p (.inr hp)]
  | call receiver? _ args, h => by
    simp only [nodes, List.mem_cons, List.mem_append] at h
    rw [mapParameters, mapParameters,
      mapOptionParameters_congr receiver? fun p hp => h p (.inr (.inl hp)),
      mapListParameters_congr args fun p hp => h p (.inr (.inr hp))]

theorem mapOptionParameters_congr : (q? : Option Query) →
    (∀ p, parameter p ∈ optionNodes q? → f p = g p) →
    mapOptionParameters f q? = mapOptionParameters g q?
  | none, _ => rfl
  | some q, h => by
    rw [mapOptionParameters, mapOptionParameters, mapParameters_congr q h]

theorem mapListParameters_congr : (qs : List Query) →
    (∀ p, parameter p ∈ listNodes qs → f p = g p) →
    mapListParameters f qs = mapListParameters g qs
  | [], _ => rfl
  | q :: rest, h => by
    simp only [listNodes, List.mem_append] at h
    rw [mapListParameters, mapListParameters, mapParameters_congr q fun p hp => h p (.inl hp),
      mapListParameters_congr rest fun p hp => h p (.inr hp)]

theorem mapColumnParameters_congr : (columns : List (String × Query)) →
    (∀ p, parameter p ∈ columnNodes columns → f p = g p) →
    mapColumnParameters f columns = mapColumnParameters g columns
  | [], _ => rfl
  | (_, q) :: rest, h => by
    simp only [columnNodes, List.mem_append] at h
    rw [mapColumnParameters, mapColumnParameters, mapParameters_congr q fun p hp => h p (.inl hp),
      mapColumnParameters_congr rest fun p hp => h p (.inr hp)]

end

variable (f)

mutual

/-- The tables of a query have no parameters. -/
theorem sourceAliases_mapParameters :
    (q : Query) → (q.mapParameters f).sourceAliases = q.sourceAliases
  | source .. | constant _ | parameter _ => rfl
  | filter rows other | skip rows other | take rows other | orderBy rows other _
  | binary rows _ other => by
    rw [mapParameters, sourceAliases, sourceAliases, sourceAliases_mapParameters rows,
      sourceAliases_mapParameters other]
  | unary _ operand => by
    rw [mapParameters, sourceAliases, sourceAliases, sourceAliases_mapParameters operand]
  | project rows columns => by
    rw [mapParameters, sourceAliases, sourceAliases, sourceAliases_mapParameters rows,
      columnAliases_mapParameters columns]
  | any rows predicate? => by
    rw [mapParameters, sourceAliases, sourceAliases, sourceAliases_mapParameters rows,
      optionAliases_mapParameters predicate?]
  | member receiver? _ => by
    rw [mapParameters, sourceAliases, sourceAliases, optionAliases_mapParameters receiver?]
  | call receiver? _ args => by
    rw [mapParameters, sourceAliases, sourceAliases, optionAliases_mapParameters receiver?,
      listAliases_mapParameters args]

theorem optionAliases_mapParameters : (q? : Option Query) →
    optionAliases (mapOptionParameters f q?) = optionAliases q?
  | none => rfl
  | some q => sourceAliases_mapParameters q

theorem listAliases_mapParameters : (qs : List Query) →
    listAliases (mapListParameters f qs) = listAliases qs
  | [] => rfl
  | q :: rest => by
    rw [mapListParameters, listAliases, listAliases, sourceAliases_mapParameters q,
      listAliases_mapParameters rest]

theorem columnAliases_mapParameters : (columns : List (String × Query)) →
    columnAliases (mapColumnParameters f columns) = columnAliases columns
  | [] => rfl
  | (_, q) :: rest => by
    rw [mapColumnParameters, columnAliases, columnAliases, sourceAliases_mapParameters q,
      columnAliases_mapParameters rest]

end

end

end Query

namespace Sql

/-! ### Expressions and statements -/

mutual

/-- The expression with other parameters. -/
def Expr.mapParameters (f : Parameter → Parameter) : Expr → Expr
  | .parameter p => .parameter (f p)
  | .column source name => .column source name
  | .allColumns source => .allColumns source
  | .literal v => .literal v
  | .keyword w => .keyword w
  | .function name args => .function name (mapListParameters f args)
  | .trim side? chars? text => .trim side? (mapOptionParameters f chars?) (text.mapParameters f)
  | .substring text start length? =>
    .substring (text.mapParameters f) (start.mapParameters f) (mapOptionParameters f length?)
  | .extract part operand => .extract part (operand.mapParameters f)
  | .cast operand type => .cast (operand.mapParameters f) type
  | .position needle haystack => .position (needle.mapParameters f) (haystack.mapParameters f)
  | .dateAdd amount part operand =>
    .dateAdd (amount.mapParameters f) part (operand.mapParameters f)
  | .atTimeZone operand zone => .atTimeZone (operand.mapParameters f) zone
  | .binary left op right => .binary (left.mapParameters f) op (right.mapParameters f)
  | .unary op operand => .unary op (operand.mapParameters f)
  | .isNull operand negated => .isNull (operand.mapParameters f) negated
  | .case whens otherwise? =>
    .case (mapWhenParameters f whens) (mapOptionParameters f otherwise?)
  | .existsRow rows => .existsRow (rows.mapParameters f)

/-- Other parameters in an expression that may be missing. -/
def mapOptionParameters (f : Parameter → Parameter) : Option Expr → Option Expr
  | none => none
  | some e => some (e.mapParameters f)

/-- Other parameters in a list. -/
def mapListParameters (f : Parameter → Parameter) : List Expr → List Expr
  | [] => []
  | e :: rest => e.mapParameters f :: mapListParameters f rest

/-- Other parameters in the branches of a CASE. -/
def mapWhenParameters (f : Parameter → Parameter) : List When → List When
  | [] => []
  | ⟨condition, result⟩ :: rest =>
    ⟨condition.mapParameters f, result.mapParameters f⟩ :: mapWhenParameters f rest

/-- The statement with other parameters. -/
def Select.mapParameters (f : Parameter → Parameter) : Select → Select
  | ⟨columns, origin, conditions, ordering, window?⟩ =>
    ⟨mapColumnParameters f columns, origin.mapParameters f, mapListParameters f conditions,
      mapKeyParameters f ordering, mapWindowParameters f window?⟩

/-- Other parameters in selected columns. -/
def mapColumnParameters (f : Parameter → Parameter) : List Column → List Column
  | [] => []
  | ⟨e, alias?⟩ :: rest => ⟨e.mapParameters f, alias?⟩ :: mapColumnParameters f rest

/-- Other parameters in the origin of rows. -/
def Origin.mapParameters (f : Parameter → Parameter) : Origin → Origin
  | .table name source => .table name source
  | .derived rows source => .derived (rows.mapParameters f) source
  | .singleRow => .singleRow

/-- Other parameters in the keys of an ordering. -/
def mapKeyParameters (f : Parameter → Parameter) : List OrderKey → List OrderKey
  | [] => []
  | ⟨e, direction⟩ :: rest => ⟨e.mapParameters f, direction⟩ :: mapKeyParameters f rest

/-- Other parameters in a window. -/
def mapWindowParameters (f : Parameter → Parameter) : Option Window → Option Window
  | none => none
  | some ⟨lower, upper?⟩ => some ⟨lower.mapParameters f, mapOptionParameters f upper?⟩

end

section

variable (f : Parameter → Parameter)

theorem mapListParameters_eq_map (es : List Expr) :
    mapListParameters f es = es.map (Expr.mapParameters f) := by
  induction es with
  | nil => rfl
  | cons e rest ih => rw [mapListParameters, ih, List.map_cons]

theorem mapColumnParameters_eq_map (cs : List Column) : mapColumnParameters f cs
    = cs.map fun c => ⟨c.expr.mapParameters f, c.alias?⟩ := by
  induction cs with
  | nil => rfl
  | cons c rest ih =>
    rcases c with ⟨e, alias?⟩
    rw [mapColumnParameters, ih, List.map_cons]

theorem mapKeyParameters_eq_map (ks : List OrderKey) : mapKeyParameters f ks
    = ks.map fun k => ⟨k.expr.mapParameters f, k.direction⟩ := by
  induction ks with
  | nil => rfl
  | cons k rest ih =>
    rcases k with ⟨e, direction⟩
    rw [mapKeyParameters, ih, List.map_cons]

theorem Select.mapParameters_mk (s : Select) : s.mapParameters f =
    { columns := s.columns.map fun c => ⟨c.expr.mapParameters f, c.alias?⟩
      origin := s.origin.mapParameters f
      conditions := s.conditions.map (Expr.mapParameters f)
      ordering := s.ordering.map fun k => ⟨k.expr.mapParameters f, k.direction⟩
      window? := mapWindowParameters f s.window? } := by
  rcases s with ⟨columns, origin, conditions, ordering, window?⟩
  rw [Select.mapParameters, mapColumnParameters_eq_map, mapListParameters_eq_map,
    mapKeyParameters_eq_map]

@[simp] theorem alias?_mapParameters (o : Origin) : (o.mapParameters f).alias? = o.alias? := by
  cases o <;> rfl

@[simp] theorem isPredicate_mapParameters (e : Expr) :
    (e.mapParameters f).isPredicate = e.isPredicate := by
  cases e <;> rfl

/-! ### Renaming sources -/

mutual

/-- Sources are renamed whatever the parameters are. -/
theorem rename_mapParameters (old new : String) : (e : Expr) →
    (e.mapParameters f).rename old new = (e.rename old new).mapParameters f
  | .column .. | .allColumns _ | .literal _ | .parameter _ | .keyword _ | .existsRow _ => rfl
  | .function _ args => by
    simp only [Expr.mapParameters, Expr.rename, renameList_mapParameters old new args]
  | .trim _ chars? text => by
    simp only [Expr.mapParameters, Expr.rename, renameOption_mapParameters old new chars?,
      rename_mapParameters old new text]
  | .substring text start length? => by
    simp only [Expr.mapParameters, Expr.rename, renameOption_mapParameters old new length?,
      rename_mapParameters old new text, rename_mapParameters old new start]
  | .extract _ operand | .cast operand _ | .atTimeZone operand _ | .unary _ operand
  | .isNull operand _ => by
    simp only [Expr.mapParameters, Expr.rename, rename_mapParameters old new operand]
  | .position left right | .dateAdd left _ right | .binary left _ right => by
    simp only [Expr.mapParameters, Expr.rename, rename_mapParameters old new left,
      rename_mapParameters old new right]
  | .case whens otherwise? => by
    simp only [Expr.mapParameters, Expr.rename, renameWhens_mapParameters old new whens,
      renameOption_mapParameters old new otherwise?]

theorem renameOption_mapParameters (old new : String) : (e? : Option Expr) →
    renameOption old new (mapOptionParameters f e?)
      = mapOptionParameters f (renameOption old new e?)
  | none => rfl
  | some e => by
    simp only [mapOptionParameters, renameOption, rename_mapParameters old new e]

theorem renameList_mapParameters (old new : String) : (es : List Expr) →
    renameList old new (mapListParameters f es) = mapListParameters f (renameList old new es)
  | [] => rfl
  | e :: rest => by
    simp only [mapListParameters, renameList, rename_mapParameters old new e,
      renameList_mapParameters old new rest]

theorem renameWhens_mapParameters (old new : String) : (ws : List When) →
    renameWhens old new (mapWhenParameters f ws) = mapWhenParameters f (renameWhens old new ws)
  | [] => rfl
  | ⟨condition, result⟩ :: rest => by
    simp only [mapWhenParameters, renameWhens, rename_mapParameters old new condition,
      rename_mapParameters old new result, renameWhens_mapParameters old new rest]

end

theorem operands_mapParameters (e : Expr) :
    (e.mapParameters f).operands = e.operands.map (Expr.mapParameters f) := by
  have hwhens : ∀ ws : List When,
      (mapWhenParameters f ws).flatMap (fun w => [w.condition, w.result])
        = (ws.flatMap fun w => [w.condition, w.result]).map (Expr.mapParameters f) := by
    intro ws
    induction ws with
    | nil => rfl
    | cons w rest ih =>
      rcases w with ⟨condition, result⟩
      simp [mapWhenParameters, ih]
  have hoption : ∀ e? : Option Expr,
      (mapOptionParameters f e?).toList = e?.toList.map (Expr.mapParameters f) := by
    rintro (_ | e) <;> rfl
  cases e <;> simp [Expr.mapParameters, Expr.operands, mapListParameters_eq_map, hoption, hwhens]

theorem operator?_mapParameters (e : Expr) : (e.mapParameters f).operator? = e.operator? := by
  have hoption : ∀ e? : Option Expr, (mapOptionParameters f e?).isSome = e?.isSome := by
    rintro (_ | e) <;> rfl
  cases e <;> simp [Expr.mapParameters, Expr.operator?, hoption]

/-- An expression holds a statement whatever its parameters are. -/
theorem hasSubquery_mapParameters (e : Expr) :
    (e.mapParameters f).hasSubquery = e.hasSubquery := by
  have hexists : ∀ e : Expr, (e.mapParameters f).isExists = e.isExists := by
    intro e
    cases e <;> rfl
  exact hasSubquery_of_map hexists (operands_mapParameters f) e

end

/-! ### Agreement -/

section

variable {f : Parameter → Parameter}

mutual

/-- Where different parameters stay different, expressions agree as they do without. -/
theorem agrees_mapParameters (hf : Function.Injective f) (e e' : Expr) :
    (e.mapParameters f).agrees (e'.mapParameters f) = true ↔ e.agrees e' = true := by
  cases hop : e.operator? with
  | some op =>
    rw [agrees_of_operator ((operator?_mapParameters f e).trans hop), agrees_of_operator hop,
      operator?_mapParameters, operands_mapParameters, operands_mapParameters]
    refine and_congr_right fun _ => forall₂_map_congr fun o ho o' _ => ?_
    have := sizeOf_lt_of_mem_operands ho
    exact agrees_mapParameters hf o o'
  | none =>
    cases e with
    | parameter p =>
      cases e' with
      | parameter p' => simp only [Expr.mapParameters, Expr.agrees, beq_iff_eq, hf.eq_iff]
      | _ => simp only [Expr.mapParameters, Expr.agrees]
    | existsRow rows =>
      cases e' with
      | existsRow rows' =>
        simp only [Expr.mapParameters, Expr.agrees]
        exact agrees_mapParameters_select hf rows rows'
      | _ => simp only [Expr.mapParameters, Expr.agrees]
    | column | allColumns | literal =>
      cases e' <;> simp only [Expr.mapParameters, Expr.agrees]
    | _ => cases hop
termination_by sizeOf e

/-- Where different parameters stay different, statements agree as they do without. -/
theorem agrees_mapParameters_select (hf : Function.Injective f) (s s' : Select) :
    (s.mapParameters f).agrees (s'.mapParameters f) = true ↔ s.agrees s' = true := by
  rw [Select.mapParameters_mk, Select.mapParameters_mk, Select.agrees_iff, Select.agrees_iff]
  dsimp only
  refine and_congr ?_ (and_congr (forall₂_map_congr fun c hc c' _ => and_congr_left' ?_)
    (and_congr (forall₂_map_congr fun e he e' _ => ?_)
      (and_congr (forall₂_map_congr fun k hk k' _ => and_congr_left' ?_) ?_)))
  · cases ho : s.origin with
    | derived rows source =>
      have := sizeOf_lt_of_origin ho
      cases s'.origin with
      | derived rows' source' =>
        simp only [Origin.mapParameters, Origin.agrees, Bool.and_eq_true]
        exact and_congr_left' (agrees_mapParameters_select hf rows rows')
      | _ => simp only [Origin.mapParameters, Origin.agrees]
    | _ => cases s'.origin <;> simp only [Origin.mapParameters, Origin.agrees]
  · have := sizeOf_lt_of_mem_columns hc
    exact agrees_mapParameters hf c.expr c'.expr
  · have := sizeOf_lt_of_mem_conditions he
    exact agrees_mapParameters hf e e'
  · have := sizeOf_lt_of_mem_ordering hk
    exact agrees_mapParameters hf k.expr k'.expr
  · cases hw : s.window? with
    | none =>
      rcases s'.window? with _ | ⟨lower', upper'?⟩ <;>
        simp only [mapWindowParameters, agreeWindow]
    | some w =>
      obtain ⟨hlower, hupper⟩ := sizeOf_lt_of_mem_window hw
      rcases w with ⟨lower, upper?⟩
      cases s'.window? with
      | none => simp only [mapWindowParameters, agreeWindow]
      | some w' =>
        rcases w' with ⟨lower', upper'?⟩
        simp only [mapWindowParameters, agreeWindow, Bool.and_eq_true]
        refine and_congr (agrees_mapParameters hf lower lower') ?_
        cases upper? with
        | none => cases upper'? <;> simp only [mapOptionParameters, agreeOption]
        | some upper =>
          cases upper'? with
          | none => simp only [mapOptionParameters, agreeOption]
          | some upper' =>
            have := hupper upper rfl
            simp only [mapOptionParameters, agreeOption]
            exact agrees_mapParameters hf upper upper'
termination_by sizeOf s

end

end

end Sql

end QueryLoom

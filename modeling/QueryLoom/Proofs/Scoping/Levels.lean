/-
  QueryLoom/Proofs/Scoping/Levels.lean
  ====================================
  **What columns refer to, in a statement and in a query.**  In a statement a column names the
  FROM item of the innermost enclosing SELECT whose alias it has; the SELECT inside a derived
  table does not see the item that it defines.  In a query a column without an alias is one
  of the innermost source in scope, and one with an alias is one of the innermost source
  with that alias.  Either way it has a level: the number of items, or of sources, that are
  further in.

  `Select.Block` relates a statement to each SELECT in it, with the items around that SELECT, and
  `Meant` a query to each sequence in it, with the sources around that sequence.
  `Select.ReadsAs` says that a statement refers as a sequence does.  The two are gone through
  together: each condition, column and key is compared with the scalar in its place, each of its
  columns and tests with what the scalar mentions in that place, a test with the sequence
  that is tested there, and the statement of a derived table with the sequence that was
  pushed down into it.

    * `references_of_operator` — the references of an operation are those of its operands;
    * `references_of_agrees` — expressions that agree refer alike;
    * `holds_of_mem_walk` — every expression of a statement is a part of a clause of one of
      its SELECTs.
-/
import QueryLoom.Proofs.Meaning.Operands
import QueryLoom.Proofs.Query.Spine

namespace QueryLoom.Sql

/-! ### Items -/

/-- What columns can be qualified with: the alias of rows and the table that they come from. -/
structure Item where
  source : String
  table : String

/-- The level of the innermost item with an alias. -/
def level? (items : List Item) (source : String) : Option Nat :=
  items.findIdx? fun i => i.source == source

/-- The level that a column of a query means. -/
def meant? (items : List Item) : Option String → Option Nat
  | none => if items.isEmpty then none else some 0
  | some source => level? items source

mutual

/-- The table at the bottom of a statement. -/
def Select.table? : Select → Option String
  | ⟨_, origin, _, _, _⟩ => origin.table?

/-- The table at the bottom of an origin. -/
def Origin.table? : Origin → Option String
  | .table name _ => some name
  | .derived rows _ => rows.table?
  | .singleRow => none

end

/-- The item that a statement reads from. -/
def Select.item? (s : Select) : Option Item :=
  match s.origin.alias?, s.origin.table? with
  | some source, some table => some ⟨source, table⟩
  | _, _ => none

/-- The expressions in the clauses of a statement. -/
def Select.clauses (s : Select) : List Expr :=
  s.columns.map Column.expr ++ s.conditions ++ s.ordering.map OrderKey.expr
    ++ s.window?.toList.flatMap fun w => w.lower :: w.upper?.toList

/-! ### Blocks -/

/-- `s.Block items t around`: with the given items around `s`, the SELECT `t` is `s` or in it,
    and `around` are the items around `t`. -/
inductive Select.Block : Select → List Item → Select → List Item → Prop
  | self {s : Select} {items : List Item} : Block s items s items
  | derived {s inner t : Select} {source : String} {items around : List Item}
      (horigin : s.origin = .derived inner source) (hblock : Block inner items t around) :
    Block s items t around
  | test {s rows t : Select} {e : Expr} {items around : List Item} (he : e ∈ s.clauses)
      (hrows : .existsRow rows ∈ e.parts) (hblock : Block rows (s.item?.toList ++ items) t around) :
    Block s items t around

/-- The source of a sequence. -/
def itemOf (q : Query) : Item := ⟨q.rowAlias, q.table⟩

/-- `Meant q items m around`: with the given sources around `q`, the sequence `m` is `q`, one that
    `q` is built on or one that is tested in it, and `around` are the sources around `m`. -/
inductive Meant : Query → List Item → Query → List Item → Prop
  | self {q : Query} {items : List Item} (hq : q.isSequence = true) : Meant q items q items
  | rows {q rows m : Query} {items around : List Item} (hrows : q.rows? = some rows)
      (hmeant : Meant rows items m around) : Meant q items m around
  | test {q p t m : Query} {items around : List Item} (hp : p ∈ q.scalars) (ht : t ∈ p.tests)
      (hmeant : Meant t (itemOf q :: items) m around) : Meant q items m around
  | answered {q t m : Query} {items around : List Item} (ht : t ∈ q.tests)
      (hmeant : Meant t items m around) : Meant q items m around

/-! ### References and mentions -/

/-- The columns, all columns and tests in an expression, from left to right. -/
def Expr.references (e : Expr) : List Expr := e.parts.filter Expr.isReference

/-- What a scalar says of rows: the name of a column, or a test of a sequence for rows. -/
inductive Mention where
  | column (alias? : Option String) (name : String)
  | test (rows : Query)

/-- The interpretation that lists what the operands are listed with, from left to right. -/
def collecting (α : Type) : Interpretation (List α) where
  literal _ := []
  parameter _ := []
  operator _ vs := vs.flatten
  undefined := []
  literal_eq_of_agrees _ := rfl

mutual

/-- What a scalar mentions, in the order in which its operations write it.  A test with a
    predicate is one of the filtered sequence. -/
def mentions (caps : Capabilities) : Query → List Mention
  | .member _ (.column alias? name) => [.column alias? name]
  | .member receiver? (.property p) =>
    operationValue (collecting Mention) caps (.property p) 0 none (optionMentions caps receiver?)
  | .call receiver? m args =>
    operationValue (collecting Mention) caps (.method m) args.length
      (Query.secondConstant? (receiver?.toList ++ args))
      (optionMentions caps receiver? ++ listMentions caps args)
  | .binary left _ right => mentions caps left ++ mentions caps right
  | .unary _ operand => mentions caps operand
  | .any rows none => [.test rows]
  | .any rows (some predicate) => [.test (.filter rows predicate)]
  | _ => []

/-- What a scalar that may be missing mentions, as a list of at most one. -/
def optionMentions (caps : Capabilities) : Option Query → List (List Mention)
  | none => []
  | some q => [mentions caps q]

/-- What each of the scalars mentions. -/
def listMentions (caps : Capabilities) : List Query → List (List Mention)
  | [] => []
  | q :: rest => mentions caps q :: listMentions caps rest

end

/-! ### Reading alike -/

/-- An expression refers to what is mentioned: a column to the same column of the row that is
    meant, a test to a test. -/
inductive Expr.RefersTo (items meant : List Item) : Expr → Mention → Prop
  | column {source name : String} {alias? : Option String} {level : Nat}
      (hlevel : level? items source = some level) (hmeant : meant? meant alias? = some level) :
    RefersTo items meant (.column source name) (.column alias? name)
  | test (rows : Select) (t : Query) : RefersTo items meant (.existsRow rows) (.test t)

/-- The references of the expression are what the scalar mentions, place by place. -/
def Expr.ReadsAs (caps : Capabilities) (items meant : List Item) (e : Expr) (p : Query) : Prop :=
  List.Forall₂ (Expr.RefersTo items meant) e.references (mentions caps p)

/-- The expression refers to no rows at all. -/
def Expr.ReadsNothing (e : Expr) : Prop := ∀ x ∈ e.parts, x.isReference = false

section

variable (caps : Capabilities) (around meant : List Item)

/-- A key reads as a scalar of the sequence whose source is `own` if it does so among the item that
    it stands in and those around it, or if it is the column of a derived table that holds such
    a key there. -/
inductive Origin.KeyReadsAs (own : Item) : Origin → Expr → Query → Prop
  | reads {o : Origin} {source : String} {e : Expr} {p : Query} (halias : o.alias? = some source)
      (hreads : e.ReadsAs caps (⟨source, own.table⟩ :: around) (own :: meant) p) :
    KeyReadsAs own o e p
  | column {inner : Select} {source name : String} {c : Column} {p : Query}
      (hc : c ∈ inner.columns) (hname : c.alias? = some name)
      (hkey : KeyReadsAs own inner.origin c.expr p) :
    KeyReadsAs own (.derived inner source) (.column source name) p
  | all {inner : Select} {old source name : String} {p : Query}
      (hall : inner.columns = [⟨.allColumns old, none⟩]) (hold : inner.origin.alias? = some old)
      (hkey : KeyReadsAs own inner.origin (.column old name) p) :
    KeyReadsAs own (.derived inner source) (.column source name) p

/-- The clauses of a SELECT refer as the sequence `q` does, whose predicates and columns since the
    last derived table are `ps` and `cs`.  Where the columns are not shown, a constant stands
    for them; where there are none, all columns do. -/
structure Select.ClausesReadAs (q : Query) (shown : Bool) (s : Select) (source : String)
    (ps : List Query) (cs : List (String × Query)) : Prop where
  item : s.item? = some ⟨source, q.table⟩
  tables : around.map Item.table = meant.map Item.table
  columns :
    if shown = false then s.columns = [⟨.int 1, none⟩]
    else if cs = [] then s.columns = [⟨.allColumns source, none⟩]
    else List.Forall₂ (fun c p => c.alias? = some p.1 ∧
      c.expr.ReadsAs caps (⟨source, q.table⟩ :: around) (itemOf q :: meant) p.2) s.columns cs
  conditions : List.Forall₂ (Expr.ReadsAs caps (⟨source, q.table⟩ :: around) (itemOf q :: meant))
    s.conditions ps
  ordering : s.ordering = [] ∨
    List.Forall₂ (fun k p => s.origin.KeyReadsAs caps around meant (itemOf q) k.expr p)
      s.ordering q.sortKeys
  window : ∀ w, s.window? = some w → ∀ e ∈ w.lower :: w.upper?.toList, e.ReadsNothing

end

/-- The clauses of a SELECT with the scalars in their places. -/
def Select.pairs (s : Select) (q : Query) (ps : List Query) (cs : List (String × Query)) :
    List (Expr × Query) :=
  s.conditions.zip ps ++ (s.columns.map Column.expr).zip (cs.map Prod.snd)
    ++ (s.ordering.map OrderKey.expr).zip q.sortKeys

/-- The statement refers, below the items around it, as the sequence does below its sources: its
    own clauses do, those of the statement it reads from refer as the sequence that was pushed
    down, and each test in a clause as the sequence that is tested in that place. -/
inductive Select.ReadsAs (caps : Capabilities) :
    Bool → Select → List Item → Query → List Item → Prop
  | intro {shown : Bool} {s : Select} {around meant : List Item} {q base : Query} {source : String}
      {ps : List Query} {cs : List (String × Query)} (hunder : base.Under q ps cs)
      (hclauses : s.ClausesReadAs caps around meant q shown source ps cs)
      (htable : ∀ name source, s.origin = .table name source → ∃ alias?, base = .source name alias?)
      (hderived : ∀ inner source, s.origin = .derived inner source →
        ReadsAs caps true inner around base meant)
      (htests : ∀ e p, (e, p) ∈ s.pairs q ps cs →
        ∀ rows t, (.existsRow rows, .test t) ∈ e.references.zip (mentions caps p) →
          ReadsAs caps false rows (⟨source, q.table⟩ :: around) t (itemOf q :: meant)) :
    ReadsAs caps shown s around q meant

/-! ### References -/

theorem mem_references {e x : Expr} : x ∈ e.references ↔ x ∈ e.parts ∧ x.isReference = true :=
  List.mem_filter

/-- The references of an operation are those of its operands. -/
theorem references_of_operator {e : Expr} {op : Operator} (h : e.operator? = some op) :
    e.references = (e.operands.map Expr.references).flatten := by
  have hself : e.isReference = false := by
    cases e <;> first
      | rfl
      | cases h
  rw [Expr.references, parts_eq, List.filter_cons_of_neg (by simp [hself]), List.filter_flatMap,
    List.flatMap_def]
  rfl

theorem evaluates_references : (collecting Expr).Evaluates Expr.references :=
  ⟨fun _ => rfl, references_of_operator⟩

theorem references_rename (old new : String) (e : Expr) :
    (e.rename old new).references = e.references.map (Expr.rename old new) := by
  rw [Expr.references, parts_rename, List.filter_map]
  refine congrArg (List.map _) (List.filter_congr fun x _ => ?_)
  cases x <;> rfl

theorem references_asValue (caps : Capabilities) (e : Expr) :
    (asValue caps e).references = e.references := by
  unfold asValue
  split
  · rfl
  · simp [Expr.references, Expr.parts, Expr.int, partsWhens, partsOption, Expr.isReference]

theorem references_asPredicate (caps : Capabilities) (e : Expr) :
    (asPredicate caps e).references = e.references := by
  unfold asPredicate
  split
  · rfl
  · simp [Expr.references, Expr.parts, Expr.int, Expr.isReference]

theorem references_operand (caps : Capabilities) (logical : Bool) (e : Expr) :
    ((if logical then asPredicate caps else asValue caps) e).references = e.references := by
  cases logical
  · exact references_asValue caps e
  · exact references_asPredicate caps e

theorem references_isNull (e : Expr) (negated : Bool) :
    (Expr.isNull e negated).references = e.references := by
  rw [references_of_operator rfl]
  exact List.flatten_singleton

theorem references_unary (op : UnaryOperator) (e : Expr) :
    (Expr.unary op e).references = e.references := by
  rw [references_of_operator rfl]
  exact List.flatten_singleton

theorem references_binary (l : Expr) (op : BinaryOperator) (r : Expr) :
    (Expr.binary l op r).references = l.references ++ r.references := by
  rw [references_of_operator rfl]
  simp [Expr.operands]

/-- Expressions that agree refer alike. -/
theorem references_of_agrees (e : Expr) :
    ∀ e', e.agrees e' = true → Agree e.references e'.references := by
  induction e using Expr.induction_on_operands with
  | literal | parameter =>
    intro e' h
    cases Expr.agrees_iff.mp h with
    | operator hop => cases hop
    | _ => exact .nil
  | column | allColumns | existsRow =>
    intro e' h
    cases Expr.agrees_iff.mp h with
    | operator hop => cases hop
    | _ => exact .cons h .nil
  | operator e op hop ih =>
    intro e' h
    obtain ⟨hop', hoperands⟩ := (agrees_of_operator hop).mp h
    rw [references_of_operator hop, references_of_operator hop']
    refine List.rel_flatten ?_
    rw [List.forall₂_map_left_iff, List.forall₂_map_right_iff]
    exact forall₂_imp_mem hoperands fun o ho o' hagrees => ih o ho o' hagrees

/-! ### Nothing is left out -/

/-- The expression is a part of a clause of a SELECT of the statement. -/
def Select.Holds (s : Select) (x : Expr) : Prop :=
  ∀ items : List Item, ∃ t around, s.Block items t around ∧ ∃ e ∈ t.clauses, x ∈ e.parts

/-- The expression is one of the parts, or a part of a statement tested in one of them. -/
def Reached (parts : List Expr) (x : Expr) : Prop :=
  x ∈ parts ∨ ∃ rows, .existsRow rows ∈ parts ∧ rows.Holds x

theorem Reached.mono {parts more : List Expr} {x : Expr} (h : Reached parts x)
    (hsub : parts ⊆ more) : Reached more x := by
  rcases h with h | ⟨rows, hrows, hx⟩
  · exact .inl (hsub h)
  · exact .inr ⟨rows, hsub hrows, hx⟩

theorem Reached.holds {s : Select} {e x : Expr} (he : e ∈ s.clauses) (h : Reached e.parts x) :
    s.Holds x := by
  intro items
  rcases h with h | ⟨rows, hrows, hx⟩
  · exact ⟨s, items, .self, e, he, h⟩
  · obtain ⟨t, around, hblock, hpart⟩ := hx (s.item?.toList ++ items)
    exact ⟨t, around, .test he hrows hblock, hpart⟩

/-- A part of an operand is a part of the operation. -/
theorem Reached.operand {e x : Expr} {parts : List Expr} (h : Reached parts x)
    (before after : List Expr) (he : e.parts = e :: (before ++ parts ++ after)) : Reached e.parts x := by
  refine h.mono ?_
  rw [he]
  intro y hy
  simp [hy]

mutual

/-- What is walked in an expression is reached from its parts. -/
theorem reached_of_mem_walk {x : Expr} : (e : Expr) → x ∈ e.walk → Reached e.parts x
  | .column .., h | .allColumns _, h | .literal _, h | .parameter _, h | .keyword _, h => .inl h
  | .existsRow rows, h => by
    rw [Expr.walk, List.mem_cons] at h
    rcases h with rfl | h
    · exact .inl (Expr.self_mem_parts _)
    · exact .inr ⟨rows, Expr.self_mem_parts _, holds_of_mem_walk rows h⟩
  | .function _ args, h => by
    rw [Expr.walk, List.mem_cons] at h
    rcases h with rfl | h
    · exact .inl (Expr.self_mem_parts _)
    · obtain ⟨arg, harg, hx⟩ := reached_of_mem_walkList args h
      refine hx.mono fun y hy => ?_
      rw [Expr.parts]
      exact List.mem_cons_of_mem _ (mem_partsList.mpr ⟨arg, harg, hy⟩)
  | .trim _ chars? text, h => by
    rw [Expr.walk, List.mem_cons, List.mem_append] at h
    rcases h with rfl | h | h
    · exact .inl (Expr.self_mem_parts _)
    · exact (reached_of_mem_walkOption chars? h).operand [] text.parts (by simp [Expr.parts])
    · exact (reached_of_mem_walk text h).operand (partsOption chars?) [] (by simp [Expr.parts])
  | .substring text start length?, h => by
    rw [Expr.walk, List.mem_cons, List.mem_append, List.mem_append] at h
    rcases h with rfl | (h | h) | h
    · exact .inl (Expr.self_mem_parts _)
    · exact (reached_of_mem_walk text h).operand []
        (start.parts ++ partsOption length?) (by simp [Expr.parts])
    · exact (reached_of_mem_walk start h).operand text.parts
        (partsOption length?) (by simp [Expr.parts])
    · exact (reached_of_mem_walkOption length? h).operand (text.parts ++ start.parts)
        [] (by simp [Expr.parts])
  | .extract _ operand, h | .cast operand _, h | .atTimeZone operand _, h | .unary _ operand, h
  | .isNull operand _, h => by
    rw [Expr.walk, List.mem_cons] at h
    rcases h with rfl | h
    · exact .inl (Expr.self_mem_parts _)
    · exact (reached_of_mem_walk operand h).operand [] [] (by simp [Expr.parts])
  | .position left right, h | .dateAdd left _ right, h | .binary left _ right, h => by
    rw [Expr.walk, List.mem_cons, List.mem_append] at h
    rcases h with rfl | h | h
    · exact .inl (Expr.self_mem_parts _)
    · exact (reached_of_mem_walk left h).operand [] right.parts (by simp [Expr.parts])
    · exact (reached_of_mem_walk right h).operand left.parts [] (by simp [Expr.parts])
  | .case whens otherwise?, h => by
    rw [Expr.walk, List.mem_cons, List.mem_append] at h
    rcases h with rfl | h | h
    · exact .inl (Expr.self_mem_parts _)
    · exact (reached_of_mem_walkWhens whens h).operand []
        (partsOption otherwise?) (by simp [Expr.parts])
    · exact (reached_of_mem_walkOption otherwise? h).operand (partsWhens whens)
        [] (by simp [Expr.parts])

theorem reached_of_mem_walkOption {x : Expr} :
    (e? : Option Expr) → x ∈ walkOption e? → Reached (partsOption e?) x
  | none, h => .inl h
  | some e, h => reached_of_mem_walk e h

theorem reached_of_mem_walkList {x : Expr} :
    (es : List Expr) → x ∈ walkList es → ∃ e ∈ es, Reached e.parts x
  | [], h => absurd h List.not_mem_nil
  | e :: rest, h => by
    rw [walkList, List.mem_append] at h
    rcases h with h | h
    · exact ⟨e, List.mem_cons_self, reached_of_mem_walk e h⟩
    · obtain ⟨e', he', hx⟩ := reached_of_mem_walkList rest h
      exact ⟨e', List.mem_cons_of_mem e he', hx⟩

theorem reached_of_mem_walkWhens {x : Expr} :
    (ws : List When) → x ∈ walkWhens ws → Reached (partsWhens ws) x
  | [], h => .inl h
  | ⟨condition, result⟩ :: rest, h => by
    rw [walkWhens, List.mem_append, List.mem_append] at h
    rw [partsWhens]
    rcases h with (h | h) | h
    · refine (reached_of_mem_walk condition h).mono fun y hy => ?_
      simp [hy]
    · refine (reached_of_mem_walk result h).mono fun y hy => ?_
      simp [hy]
    · refine (reached_of_mem_walkWhens rest h).mono fun y hy => ?_
      simp [hy]

/-- What is walked in a statement is a part of a clause of one of its SELECTs. -/
theorem holds_of_mem_walk {x : Expr} : (s : Select) → x ∈ s.walk → s.Holds x
  | ⟨columns, origin, conditions, ordering, window?⟩, h => by
    simp only [Select.walk, List.mem_append] at h
    rcases h with (((h | h) | h) | h) | h
    · obtain ⟨c, hc, hx⟩ := reached_of_mem_walkColumns columns h
      refine hx.holds ?_
      simp only [Select.clauses, List.mem_append]
      exact .inl (.inl (.inl (List.mem_map_of_mem hc)))
    · obtain ⟨rows, source, horigin, hx⟩ := holds_of_mem_walkOrigin origin h
      intro items
      obtain ⟨t, around, hblock, hpart⟩ := hx items
      exact ⟨t, around, .derived horigin hblock, hpart⟩
    · obtain ⟨e, he, hx⟩ := reached_of_mem_walkList conditions h
      refine hx.holds ?_
      simp only [Select.clauses, List.mem_append]
      exact .inl (.inl (.inr he))
    · obtain ⟨k, hk, hx⟩ := reached_of_mem_walkKeys ordering h
      refine hx.holds ?_
      simp only [Select.clauses, List.mem_append]
      exact .inl (.inr (List.mem_map_of_mem hk))
    · obtain ⟨e, he, hx⟩ := reached_of_mem_walkWindow window? h
      refine hx.holds ?_
      simp only [Select.clauses, List.mem_append]
      exact .inr he

theorem reached_of_mem_walkColumns {x : Expr} :
    (cs : List Column) → x ∈ walkColumns cs → ∃ c ∈ cs, Reached c.expr.parts x
  | [], h => absurd h List.not_mem_nil
  | ⟨e, alias?⟩ :: rest, h => by
    rw [walkColumns, List.mem_append] at h
    rcases h with h | h
    · exact ⟨⟨e, alias?⟩, List.mem_cons_self, reached_of_mem_walk e h⟩
    · obtain ⟨c, hc, hx⟩ := reached_of_mem_walkColumns rest h
      exact ⟨c, List.mem_cons_of_mem _ hc, hx⟩

theorem holds_of_mem_walkOrigin {x : Expr} : (o : Origin) → x ∈ o.walk →
    ∃ rows source, o = .derived rows source ∧ rows.Holds x
  | .table .., h | .singleRow, h => absurd h List.not_mem_nil
  | .derived rows source, h => ⟨rows, source, rfl, holds_of_mem_walk rows h⟩

theorem reached_of_mem_walkKeys {x : Expr} :
    (ks : List OrderKey) → x ∈ walkKeys ks → ∃ k ∈ ks, Reached k.expr.parts x
  | [], h => absurd h List.not_mem_nil
  | ⟨e, direction⟩ :: rest, h => by
    rw [walkKeys, List.mem_append] at h
    rcases h with h | h
    · exact ⟨⟨e, direction⟩, List.mem_cons_self, reached_of_mem_walk e h⟩
    · obtain ⟨k, hk, hx⟩ := reached_of_mem_walkKeys rest h
      exact ⟨k, List.mem_cons_of_mem _ hk, hx⟩

theorem reached_of_mem_walkWindow {x : Expr} :
    (w? : Option Window) → x ∈ walkWindow w? →
      ∃ e ∈ w?.toList.flatMap fun w => w.lower :: w.upper?.toList, Reached e.parts x
  | none, h => absurd h List.not_mem_nil
  | some ⟨lower, upper?⟩, h => by
    rw [walkWindow, List.mem_append] at h
    rcases h with h | h
    · exact ⟨lower, by simp, reached_of_mem_walk lower h⟩
    · cases upper? with
      | none => exact absurd h List.not_mem_nil
      | some upper => exact ⟨upper, by simp, reached_of_mem_walk upper h⟩

end

end QueryLoom.Sql

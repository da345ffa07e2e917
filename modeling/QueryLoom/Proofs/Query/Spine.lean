/-
  QueryLoom/Proofs/Query/Spine.lean
  =================================
  **The parts of a sequence.**  A sequence is a source with operators applied to its rows, and
  every operator passes the alias of the source on.  The scalars of a sequence are those of
  its operators; they are collected from the source outwards.  A scalar in turn can test
  sequences for rows, and a test with a predicate tests the filtered sequence.
-/
import QueryLoom.Query.Basic

namespace QueryLoom.Query

/-- The sequence that the outermost operator of a sequence is applied to. -/
def rows? : Query → Option Query
  | filter rows _ => some rows
  | project rows _ => some rows
  | skip rows _ => some rows
  | take rows _ => some rows
  | orderBy rows _ _ => some rows
  | _ => none

/-- The alias of the rows of a sequence. -/
def rowAlias : Query → String
  | source table alias? => sourceAlias table alias?
  | filter rows _ => rows.rowAlias
  | project rows _ => rows.rowAlias
  | skip rows _ => rows.rowAlias
  | take rows _ => rows.rowAlias
  | orderBy rows _ _ => rows.rowAlias
  | _ => ""

/-- The table that the rows of a sequence come from. -/
def table : Query → String
  | source table _ => table
  | filter rows _ => rows.table
  | project rows _ => rows.table
  | skip rows _ => rows.table
  | take rows _ => rows.table
  | orderBy rows _ _ => rows.table
  | _ => ""

/-- The predicates of a sequence. -/
def predicates : Query → List Query
  | filter rows predicate => rows.predicates ++ [predicate]
  | project rows _ => rows.predicates
  | skip rows _ => rows.predicates
  | take rows _ => rows.predicates
  | orderBy rows _ _ => rows.predicates
  | _ => []

/-- The columns of the projections of a sequence, with their names. -/
def projections : Query → List (String × Query)
  | filter rows _ => rows.projections
  | project rows columns => rows.projections ++ columns
  | skip rows _ => rows.projections
  | take rows _ => rows.projections
  | orderBy rows _ _ => rows.projections
  | _ => []

/-- The keys of the orderings of a sequence. -/
def sortKeys : Query → List Query
  | filter rows _ => rows.sortKeys
  | project rows _ => rows.sortKeys
  | skip rows _ => rows.sortKeys
  | take rows _ => rows.sortKeys
  | orderBy rows key _ => rows.sortKeys ++ [key]
  | _ => []

/-- The scalars of a sequence that can refer to its rows. -/
def scalars (q : Query) : List Query :=
  q.predicates ++ q.projections.map Prod.snd ++ q.sortKeys

mutual

/-- The sequences that a scalar tests for rows, those tested inside them left out. -/
def tests : Query → List Query
  | any rows none => [rows]
  | any rows (some predicate) => [filter rows predicate]
  | member receiver? _ => optionTests receiver?
  | call receiver? _ args => optionTests receiver? ++ listTests args
  | binary left _ right => left.tests ++ right.tests
  | unary _ operand => operand.tests
  | _ => []

/-- The sequences tested in a scalar that may be missing. -/
def optionTests : Option Query → List Query
  | none => []
  | some q => q.tests

/-- The sequences tested in scalars. -/
def listTests : List Query → List Query
  | [] => []
  | q :: rest => q.tests ++ listTests rest

end

/-- `base.Under q ps cs`: the sequence `q` is `base` with operators applied to its rows, and
    these operators have the predicates `ps` and the columns `cs`. -/
inductive Under (base : Query) : Query → List Query → List (String × Query) → Prop
  | refl : Under base base [] []
  | filter {rows predicate : Query} {ps : List Query} {cs : List (String × Query)}
      (h : Under base rows ps cs) : Under base (.filter rows predicate) (ps ++ [predicate]) cs
  | project {rows : Query} {columns : List (String × Query)} {ps : List Query}
      {cs : List (String × Query)} (h : Under base rows ps cs) :
    Under base (.project rows columns) ps (cs ++ columns)
  | skip {rows count : Query} {ps : List Query} {cs : List (String × Query)}
      (h : Under base rows ps cs) : Under base (.skip rows count) ps cs
  | take {rows count : Query} {ps : List Query} {cs : List (String × Query)}
      (h : Under base rows ps cs) : Under base (.take rows count) ps cs
  | orderBy {rows key : Query} {direction : Direction} {ps : List Query}
      {cs : List (String × Query)} (h : Under base rows ps cs) :
    Under base (.orderBy rows key direction) ps cs

/-! ### One operator more -/

theorem predicate_mem_scalars (rows predicate : Query) :
    predicate ∈ (filter rows predicate).scalars :=
  List.mem_append_left _ (List.mem_append_left _ (List.mem_append_right _ List.mem_cons_self))

theorem column_mem_scalars (rows : Query) {columns : List (String × Query)} {p : String × Query}
    (hp : p ∈ columns) : p.2 ∈ (project rows columns).scalars :=
  List.mem_append_left _ (List.mem_append_right _ (List.mem_map_of_mem
    (List.mem_append_right _ hp)))

theorem key_mem_scalars (rows key : Query) (direction : Direction) :
    key ∈ (orderBy rows key direction).scalars :=
  List.mem_append_right _ (List.mem_append_right _ List.mem_cons_self)

section Operators

variable {q rows : Query} (h : q.rows? = some rows)

include h

theorem rowAlias_of_rows? : q.rowAlias = rows.rowAlias := by
  cases q <;> cases h <;> rfl

theorem table_of_rows? : q.table = rows.table := by
  cases q <;> cases h <;> rfl

end Operators

/-! ### Sizes -/

mutual

theorem sizeOf_le_of_mem_tests {t : Query} : {q : Query} → t ∈ q.tests → sizeOf t ≤ sizeOf q
  | any rows none, h => by
    rw [tests, List.mem_singleton] at h
    simp only [h, any.sizeOf_spec]
    omega
  | any rows (some predicate), h => by
    rw [tests, List.mem_singleton] at h
    simp only [h, any.sizeOf_spec, filter.sizeOf_spec, Option.some.sizeOf_spec]
    omega
  | member receiver? m, h => by
    rw [tests] at h
    have := sizeOf_le_of_mem_optionTests h
    simp only [member.sizeOf_spec]
    omega
  | call receiver? m args, h => by
    rw [tests, List.mem_append] at h
    rcases h with h | h
    · have := sizeOf_le_of_mem_optionTests h
      simp only [call.sizeOf_spec]
      omega
    · have := sizeOf_le_of_mem_listTests h
      simp only [call.sizeOf_spec]
      omega
  | binary left op right, h => by
    rw [tests, List.mem_append] at h
    rcases h with h | h
    · have := sizeOf_le_of_mem_tests h
      simp only [binary.sizeOf_spec]
      omega
    · have := sizeOf_le_of_mem_tests h
      simp only [binary.sizeOf_spec]
      omega
  | unary op operand, h => by
    rw [tests] at h
    have := sizeOf_le_of_mem_tests h
    simp only [unary.sizeOf_spec]
    omega
  | source .., h | filter .., h | project .., h | skip .., h | take .., h | orderBy .., h
  | constant _, h | parameter _, h => absurd h List.not_mem_nil

theorem sizeOf_le_of_mem_optionTests {t : Query} :
    {q? : Option Query} → t ∈ optionTests q? → sizeOf t ≤ sizeOf q?
  | none, h => by
    rw [optionTests] at h
    cases h
  | some q, h => by
    rw [optionTests] at h
    have := sizeOf_le_of_mem_tests h
    simp only [Option.some.sizeOf_spec]
    omega

theorem sizeOf_le_of_mem_listTests {t : Query} :
    {qs : List Query} → t ∈ listTests qs → sizeOf t ≤ sizeOf qs
  | [], h => by
    rw [listTests] at h
    cases h
  | q :: rest, h => by
    rw [listTests, List.mem_append] at h
    rcases h with h | h
    · have := sizeOf_le_of_mem_tests h
      simp only [List.cons.sizeOf_spec]
      omega
    · have := sizeOf_le_of_mem_listTests h
      simp only [List.cons.sizeOf_spec]
      omega

end

theorem sizeOf_lt_of_mem_columns {p : Query} {columns : List (String × Query)}
    (h : p ∈ columns.map Prod.snd) : sizeOf p < sizeOf columns := by
  obtain ⟨⟨name, p'⟩, hc, rfl⟩ := List.mem_map.mp h
  have hsize := List.sizeOf_lt_of_mem hc
  simp only [Prod.mk.sizeOf_spec] at hsize ⊢
  omega

/-- A scalar of a sequence is one of its outermost operator or one of the sequence under it. -/
theorem mem_scalars_cases {p q : Query} (h : p ∈ q.scalars) :
    ∃ rows, q.rows? = some rows ∧ (p ∈ rows.scalars ∨ sizeOf p + sizeOf rows < sizeOf q) := by
  cases q with
  | filter rows predicate =>
    refine ⟨rows, rfl, ?_⟩
    simp only [scalars, predicates, projections, sortKeys, List.mem_append,
      List.mem_singleton] at h ⊢
    rcases h with ((h | rfl) | h) | h
    · exact .inl (.inl (.inl h))
    · right
      simp only [filter.sizeOf_spec]
      omega
    · exact .inl (.inl (.inr h))
    · exact .inl (.inr h)
  | project rows columns =>
    refine ⟨rows, rfl, ?_⟩
    simp only [scalars, predicates, projections, sortKeys, List.mem_append,
      List.map_append] at h ⊢
    rcases h with (h | h | h) | h
    · exact .inl (.inl (.inl h))
    · exact .inl (.inl (.inr h))
    · right
      have := sizeOf_lt_of_mem_columns h
      simp only [project.sizeOf_spec]
      omega
    · exact .inl (.inr h)
  | skip rows count | take rows count => exact ⟨rows, rfl, .inl h⟩
  | orderBy rows key direction =>
    refine ⟨rows, rfl, ?_⟩
    simp only [scalars, predicates, projections, sortKeys, List.mem_append,
      List.mem_singleton] at h ⊢
    rcases h with (h | h) | h | rfl
    · exact .inl (.inl (.inl h))
    · exact .inl (.inl (.inr h))
    · exact .inl (.inr h)
    · right
      simp only [orderBy.sizeOf_spec]
      omega
  | _ => exact absurd h (by simp [scalars, predicates, projections, sortKeys])

theorem sizeOf_lt_of_rows? {q rows : Query} (h : q.rows? = some rows) :
    sizeOf rows < sizeOf q := by
  cases q <;> cases h
  all_goals
    simp only [filter.sizeOf_spec, project.sizeOf_spec, skip.sizeOf_spec, take.sizeOf_spec,
      orderBy.sizeOf_spec]
    omega

theorem sizeOf_le_of_rows? {q rows : Query} (h : q.rows? = some rows) {size : Nat}
    (hsize : sizeOf q ≤ size) : sizeOf rows ≤ size :=
  Nat.le_trans (Nat.le_of_lt (sizeOf_lt_of_rows? h)) hsize

/-- A scalar of a sequence is smaller than the sequence. -/
theorem sizeOf_lt_of_mem_scalars {p q : Query} (h : p ∈ q.scalars) : sizeOf p < sizeOf q := by
  obtain ⟨rows, hrows, hp | hsize⟩ := mem_scalars_cases h
  · exact Nat.lt_trans (sizeOf_lt_of_mem_scalars hp) (sizeOf_lt_of_rows? hrows)
  · omega
termination_by sizeOf q
decreasing_by exact sizeOf_lt_of_rows? hrows

/-! ### Aliases -/

mutual

theorem sourceAliases_subset_of_mem_tests {t : Query} :
    (q : Query) → t ∈ q.tests → t.sourceAliases ⊆ q.sourceAliases
  | any rows none, h => by
    rw [tests, List.mem_singleton] at h
    rw [h, sourceAliases]
    exact List.subset_append_left _ _
  | any rows (some predicate), h => by
    rw [tests, List.mem_singleton] at h
    rw [h]
    exact List.Subset.refl _
  | member receiver? m, h => by
    rw [tests] at h
    exact sourceAliases_subset_of_mem_optionTests receiver? h
  | call receiver? m args, h => by
    rw [tests, List.mem_append] at h
    rcases h with h | h
    · exact List.subset_append_of_subset_left _ (sourceAliases_subset_of_mem_optionTests receiver? h)
    · exact List.subset_append_of_subset_right _ (sourceAliases_subset_of_mem_listTests args h)
  | binary left op right, h => by
    rw [tests, List.mem_append] at h
    rcases h with h | h
    · exact List.subset_append_of_subset_left _ (sourceAliases_subset_of_mem_tests left h)
    · exact List.subset_append_of_subset_right _ (sourceAliases_subset_of_mem_tests right h)
  | unary op operand, h => by
    rw [tests] at h
    exact sourceAliases_subset_of_mem_tests operand h
  | source .., h | filter .., h | project .., h | skip .., h | take .., h | orderBy .., h
  | constant _, h | parameter _, h => absurd h List.not_mem_nil

theorem sourceAliases_subset_of_mem_optionTests {t : Query} :
    (q? : Option Query) → t ∈ optionTests q? → t.sourceAliases ⊆ optionAliases q?
  | none, h => absurd h List.not_mem_nil
  | some q, h => sourceAliases_subset_of_mem_tests q h

theorem sourceAliases_subset_of_mem_listTests {t : Query} :
    (qs : List Query) → t ∈ listTests qs → t.sourceAliases ⊆ listAliases qs
  | [], h => absurd h List.not_mem_nil
  | q :: rest, h => by
    rw [listTests, List.mem_append] at h
    rcases h with h | h
    · exact List.subset_append_of_subset_left _ (sourceAliases_subset_of_mem_tests q h)
    · exact List.subset_append_of_subset_right _ (sourceAliases_subset_of_mem_listTests rest h)

end

theorem sourceAliases_subset_of_mem_columns {p : Query} {columns : List (String × Query)}
    (h : p ∈ columns.map Prod.snd) : p.sourceAliases ⊆ columnAliases columns := by
  induction columns with
  | nil => exact absurd h List.not_mem_nil
  | cons c rest ih =>
    rw [List.map_cons, List.mem_cons] at h
    rcases h with rfl | h
    · exact List.subset_append_left _ _
    · exact List.subset_append_of_subset_right _ (ih h)

end QueryLoom.Query

/-
  QueryLoom/Proofs/Meaning/Rows.lean
  ==================================
  **The rows of a statement and the rows of a sequence.**  Both leave a choice: the rows of
  a table come in any order, and an ordering settles only what its keys tell apart.  So the
  meaning of either is a relation to the lists of rows that it may give.

  `Select.yields` applies the clauses of a statement in the order of SQL.  The rows of a
  table or of a derived table arrive in any order; those that meet the conditions are
  arranged by the ordering; the window keeps some of them by number, in integers
  without bound; then the columns are computed.

  `Query.yields` applies the operators of a sequence from the innermost one outwards.  A row
  carries the keys that it was ordered by, because a later ordering refines an earlier
  one.
-/
import QueryLoom.Proofs.Meaning.Engine
import QueryLoom.Proofs.Meaning.Scalar
import QueryLoom.Proofs.Query.Spine

namespace QueryLoom.Sql

variable {V : Type}

/-! ### Rows -/

/-- A row: the values of its columns by name. -/
abbrev Row (V : Type) := List (String × V)

/-- The value of a column, the first one if there are two of that name. -/
def Row.value (I : Interpretation V) (r : Row V) (name : String) : V :=
  (r.lookup name).getD I.undefined

/-- The rows of each table. -/
abbrev Database (V : Type) := String → List (Row V)

/-- The columns in scope of a statement, for a row of its origin. -/
def Columns.ofRow (I : Interpretation V) (source? : Option String) (r : Row V) : Columns V :=
  fun source name => if some source = source? then r.value I name else I.undefined

/-- The columns that a query can name, for a row of the sequence with an alias. -/
def Fields.ofRow (I : Interpretation V) (source : String) (r : Row V) : Fields V :=
  fun alias? name =>
    if alias? = none ∨ alias? = some source then r.value I name else I.undefined

/-! ### Statements -/

/-- The cells that a column adds to a row.  A column without a name has the empty one. -/
def Column.cells (I : Interpretation V) (source? : Option String) (r : Row V) : Column → Row V
  | ⟨.allColumns source, none⟩ => if some source = source? then r else []
  | ⟨e, alias?⟩ => [(alias?.getD "", e.value I (.ofRow I source? r))]

/-- The row that a row of the origin becomes. -/
def outputRow (I : Interpretation V) (source? : Option String) (columns : List Column)
    (r : Row V) : Row V :=
  columns.flatMap (Column.cells I source? r)

/-- The keys of a row of the origin. -/
def orderingKeys (I : Interpretation V) (source? : Option String) (ordering : List OrderKey)
    (r : Row V) : List V :=
  ordering.map fun k => k.expr.value I (.ofRow I source? r)

/-- The number of a row that a bound of a window stands for. -/
def Engine.rowNumber (E : Engine V) : Expr → Int
  | .literal v => v.integer?.getD 0
  | .parameter p => E.count p
  | .binary left .add right => E.rowNumber left + E.rowNumber right
  | _ => 0

/-- The rows in a window. -/
def Window.keep (E : Engine V) {α : Type} (w : Window) (rows : List α) : List α :=
  match w.upper? with
  | none => rows.take (E.rowNumber w.lower).toNat
  | some upper => (rows.take (E.rowNumber upper).toNat).drop (E.rowNumber w.lower - 1).toNat

/-- The rows in a window that may be missing. -/
def keepOption (E : Engine V) {α : Type} (w? : Option Window) (rows : List α) : List α :=
  w?.elim rows fun w => w.keep E rows

/-- Whether a row of the origin meets the conditions. -/
def Engine.meets (E : Engine V) (source? : Option String) (conditions : List Expr)
    (r : Row V) : Bool :=
  conditions.all fun c => E.holds (c.value E.toInterpretation (.ofRow E.toInterpretation source? r))

/-- Whether a row of the origin may stand before another one. -/
def Engine.ordered (E : Engine V) (source? : Option String) (ordering : List OrderKey)
    (r r' : Row V) : Bool :=
  E.inOrder (ordering.map OrderKey.direction) (orderingKeys E.toInterpretation source? ordering r)
    (orderingKeys E.toInterpretation source? ordering r')

mutual

/-- The lists of rows that a statement may give. -/
def Select.yields (E : Engine V) (db : Database V) : Select → List (Row V) → Prop
  | ⟨columns, origin, conditions, ordering, window?⟩, out =>
    ∃ arrived arranged : List (Row V),
      origin.delivers E db arrived ∧
      arranged.Perm (arrived.filter (E.meets origin.alias? conditions)) ∧
      (arranged.Pairwise fun r r' => E.ordered origin.alias? ordering r r' = true) ∧
      out = (keepOption E window? arranged).map
        (outputRow E.toInterpretation origin.alias? columns)

/-- The lists of rows that may arrive from an origin. -/
def Origin.delivers (E : Engine V) (db : Database V) : Origin → List (Row V) → Prop
  | .table name _, arrived => arrived.Perm (db name)
  | .derived s _, arrived => ∃ rows : List (Row V), s.yields E db rows ∧ arrived.Perm rows
  | .singleRow, arrived => arrived = [[]]

end

end QueryLoom.Sql

/-! ### Sequences -/

namespace QueryLoom

open Sql

variable {V : Type}

/-- A row with the keys that it was ordered by. -/
structure Ranked (V : Type) where
  keys : List V
  row : Row V

namespace Query

/-- The directions of the orderings of a sequence, the first one first. -/
def directions : Query → List Direction
  | filter rows _ => rows.directions
  | project rows _ => rows.directions
  | skip rows _ => rows.directions
  | take rows _ => rows.directions
  | orderBy rows _ direction => rows.directions ++ [direction]
  | _ => []

/-- The number of rows that a count stands for. -/
def rowCount (E : Engine V) : Query → Nat
  | constant v => (v.integer?.getD 0).toNat
  | parameter p => E.count p
  | _ => 0

/-- The columns of a projected row.  A projection without columns keeps the row. -/
def projected (I : Interpretation V) (caps : Capabilities) (source : String)
    (columns : List (String × Query)) (r : Row V) : Row V :=
  if columns.isEmpty then r
  else columns.map fun c => (c.1, c.2.value I caps (.ofRow I source r))

/-- The lists of rows that a sequence may give, with their keys.  An ordering keeps rows with
    equal keys in their order. -/
def yields (E : Engine V) (caps : Capabilities) (db : Database V) :
    Query → List (Ranked V) → Prop
  | source table _, out => ∃ rows : List (Row V), rows.Perm (db table) ∧ out = rows.map (⟨[], ·⟩)
  | filter rows predicate, out => ∃ before, rows.yields E caps db before ∧
    out = before.filter fun r =>
      E.holds (predicate.value E.toInterpretation caps
        (.ofRow E.toInterpretation rows.rowAlias r.row))
  | project rows columns, out => ∃ before, rows.yields E caps db before ∧
    out = before.map fun r =>
      ⟨r.keys, projected E.toInterpretation caps rows.rowAlias columns r.row⟩
  | skip rows count, out => ∃ before, rows.yields E caps db before ∧
    out = before.drop (count.rowCount E)
  | take rows count, out => ∃ before, rows.yields E caps db before ∧
    out = before.take (count.rowCount E)
  | orderBy rows key direction, out => ∃ before, rows.yields E caps db before ∧
    out = (before.map fun r =>
        (⟨r.keys ++ [key.value E.toInterpretation caps
          (.ofRow E.toInterpretation rows.rowAlias r.row)], r.row⟩ : Ranked V)).mergeSort
      fun r r' => E.inOrder (rows.directions ++ [direction]) r.keys r'.keys
  | _, _ => False

end Query

end QueryLoom

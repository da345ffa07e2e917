/-
  QueryLoom/Proofs/Answer/Possible.lean
  =====================================
  **What a query with tests may answer.**  The rows of a table come in any order, so a page of
  them is not determined, and neither is the value of a test for a page.  Hence a scalar has some
  values that it may have, and a sequence some lists of rows that it may give.  Every time that a
  scalar is looked at, the choice is free.

  A scalar is looked at for a row in front of those around it.  As in `Query.yields`, a row
  carries the keys that it was ordered by.  A predicate is a scalar like any other, and a row meets it
  if its value holds.

    * `Query.mayBe`, `Query.mayGive` — the values of a scalar and the rows of a sequence;
    * `Query.mayFind` — the rows that a test looks for;
    * `Query.exists_mayBe` — every scalar may have some value.
-/
import QueryLoom.Proofs.Meaning.Server

namespace QueryLoom.Sql

variable {V : Type}

/-- The value of two scalars with an operator between them.  A comparison with the constant NULL asks
    whether the other one is missing. -/
def Store.joined (K : Store V) (left : Query) (op : QueryLoom.BinaryOperator) (right : Query)
    (v w : V) : V :=
  if testsEquality op && isNullConstant left then K.operator (.isNull (op == .notEqual)) [w]
  else if testsEquality op && isNullConstant right then
    K.operator (.isNull (op == .notEqual)) [v]
  else K.operator (.binary (.ofQuery op)) [v, w]

/-! ### Kept rows -/

/-- The second list has the elements of the first for which the answer is yes, where each
    element may have several answers. -/
inductive Kept {α : Type} (answer : α → Bool → Prop) : List α → List α → Prop
  | nil : Kept answer [] []
  | keep {a : α} {as bs : List α} (ha : answer a true) (h : Kept answer as bs) :
    Kept answer (a :: as) (a :: bs)
  | drop {a : α} {as bs : List α} (ha : answer a false) (h : Kept answer as bs) :
    Kept answer (a :: as) bs

section Kept

variable {α : Type} {answer : α → Bool → Prop}

theorem Kept.filter {p : α → Bool} {as : List α} (h : ∀ a ∈ as, answer a (p a)) :
    Kept answer as (as.filter p) := by
  induction as with
  | nil => exact .nil
  | cons a as ih =>
    rw [List.forall_mem_cons] at h
    cases hp : p a with
    | true =>
      rw [List.filter_cons_of_pos hp]
      exact .keep (hp ▸ h.1) (ih h.2)
    | false =>
      rw [List.filter_cons_of_neg (by simp [hp])]
      exact .drop (hp ▸ h.1) (ih h.2)

theorem Kept.exists (h : ∀ a, ∃ b, answer a b) (as : List α) : ∃ bs, Kept answer as bs := by
  choose p hp using h
  exact ⟨_, .filter fun a _ => hp a⟩

end Kept

end QueryLoom.Sql

namespace QueryLoom.Query

open Sql

variable {V : Type}

/-! ### Possible answers -/

mutual

/-- The values that a scalar may have.  What is no scalar has none but the undefined one. -/
def mayBe (K : Store V) (caps : Capabilities) (χ : Fields V) : Query → V → Prop
  | constant v, x => x = K.literal v
  | parameter p, x => x = K.parameter p
  | member _ (.column alias? name), x => x = χ alias? name
  | member receiver? (.property p), x => ∃ vs, mayBeOption K caps χ receiver? vs ∧
    x = operationValue K.toInterpretation caps (.property p) 0 none vs
  | call receiver? m args, x =>
    ∃ vs ws, mayBeOption K caps χ receiver? vs ∧ mayBeList K caps χ args ws ∧
      x = operationValue K.toInterpretation caps (.method m) args.length
        (secondConstant? (receiver?.toList ++ args)) (vs ++ ws)
  | binary left op right, x => ∃ v w, left.mayBe K caps χ v ∧ right.mayBe K caps χ w ∧
    x = K.joined left op right v w
  | unary .not operand, x => ∃ v, operand.mayBe K caps χ v ∧ x = K.operator (.unary .not) [v]
  | unary .negate operand, x => ∃ v, operand.mayBe K caps χ v ∧
    x = K.operator (.unary .negate) [v]
  | any rows predicate?, x => ∃ all found, rows.mayGive K caps χ all ∧
    mayKeep K caps χ rows.rowAlias predicate? all found ∧ x = K.truth !found.isEmpty
  | _, x => x = K.undefined

/-- The values that a value that may be missing may have, as a list of at most one. -/
def mayBeOption (K : Store V) (caps : Capabilities) (χ : Fields V) : Option Query → List V → Prop
  | none, vs => vs = []
  | some q, vs => ∃ v, q.mayBe K caps χ v ∧ vs = [v]

/-- The values that a list of values may have. -/
def mayBeList (K : Store V) (caps : Capabilities) (χ : Fields V) : List Query → List V → Prop
  | [], vs => vs = []
  | q :: rest, vs => ∃ v ws, q.mayBe K caps χ v ∧ mayBeList K caps χ rest ws ∧ vs = v :: ws

/-- The rows that the columns of a projection may make. -/
def mayShow (K : Store V) (caps : Capabilities) (χ : Fields V) :
    List (String × Query) → Row V → Prop
  | [], r => r = []
  | (name, q) :: rest, r => ∃ v cells, q.mayBe K caps χ v ∧ mayShow K caps χ rest cells ∧
    r = (name, v) :: cells

/-- The rows of a sequence that may meet a predicate, or all of them if there is none. -/
def mayKeep (K : Store V) (caps : Capabilities) (χ : Fields V) (source : String) :
    Option Query → List (Ranked V) → List (Ranked V) → Prop
  | none, all, found => found = all
  | some predicate, all, found => Kept (fun r b => ∃ v,
    predicate.mayBe K caps (χ.within source (r.row.value K.toInterpretation)) v ∧
      b = K.holds v) all found

/-- The lists of rows that a sequence may give, with their keys.  What is no sequence gives no
    rows. -/
def mayGive (K : Store V) (caps : Capabilities) (χ : Fields V) : Query → List (Ranked V) → Prop
  | source table _, out => ∃ rows : List (Row V),
    rows.Perm (K.tables table) ∧ out = rows.map (⟨[], ·⟩)
  | filter rows predicate, out => ∃ before, rows.mayGive K caps χ before ∧
    Kept (fun r b => ∃ v,
      predicate.mayBe K caps (χ.within rows.rowAlias (r.row.value K.toInterpretation)) v ∧
        b = K.holds v) before out
  | project rows columns, out => ∃ before, rows.mayGive K caps χ before ∧
    List.Forall₂ (fun r r' => r'.keys = r.keys ∧
      if columns.isEmpty then r'.row = r.row
      else mayShow K caps (χ.within rows.rowAlias (r.row.value K.toInterpretation)) columns
        r'.row) before out
  | skip rows count, out => ∃ before, rows.mayGive K caps χ before ∧
    out = before.drop (count.rowCount K.toEngine)
  | take rows count, out => ∃ before, rows.mayGive K caps χ before ∧
    out = before.take (count.rowCount K.toEngine)
  | orderBy rows key direction, out => ∃ before keyed, rows.mayGive K caps χ before ∧
    List.Forall₂ (fun r r' => ∃ v,
      key.mayBe K caps (χ.within rows.rowAlias (r.row.value K.toInterpretation)) v ∧
        r' = ⟨r.keys ++ [v], r.row⟩) before keyed ∧
    out = keyed.mergeSort fun r r' => K.inOrder (rows.directions ++ [direction]) r.keys r'.keys
  | _, out => out = []

end

/-- The rows that a test may find: those of the sequence that meet the predicate. -/
def mayFind (K : Store V) (caps : Capabilities) (χ : Fields V) (rows : Query)
    (predicate? : Option Query) (found : List (Ranked V)) : Prop :=
  ∃ all, rows.mayGive K caps χ all ∧ mayKeep K caps χ rows.rowAlias predicate? all found

theorem mayBe_any {K : Store V} {caps : Capabilities} {χ : Fields V} {rows : Query}
    {predicate? : Option Query} {x : V} : (any rows predicate?).mayBe K caps χ x ↔
      ∃ found, rows.mayFind K caps χ predicate? found ∧ x = K.truth !found.isEmpty := by
  simp only [mayBe, mayFind]
  constructor
  · rintro ⟨all, found, hall, hfound, rfl⟩
    exact ⟨found, ⟨all, hall, hfound⟩, rfl⟩
  · rintro ⟨found, ⟨all, hall, hfound⟩, rfl⟩
    exact ⟨all, found, hall, hfound, rfl⟩

/-- To find the rows that meet a predicate is to filter by it. -/
theorem mayFind_some {K : Store V} {caps : Capabilities} {χ : Fields V} {rows predicate : Query}
    {found : List (Ranked V)} :
    rows.mayFind K caps χ (some predicate) found ↔ (filter rows predicate).mayGive K caps χ found := by
  simp only [mayFind, mayKeep, mayGive]

theorem mayFind_none {K : Store V} {caps : Capabilities} {χ : Fields V} {rows : Query}
    {found : List (Ranked V)} : rows.mayFind K caps χ none found ↔ rows.mayGive K caps χ found := by
  simp only [mayFind, mayKeep, exists_eq_right']

section

variable (K : Store V) (caps : Capabilities)

mutual

/-- Every scalar may have some value. -/
theorem exists_mayBe (χ : Fields V) : (q : Query) → ∃ x, q.mayBe K caps χ x
  | constant _ | parameter _ | member _ (.column ..) => ⟨_, rfl⟩
  | source .. | filter .. | project .. | skip .. | take .. | orderBy .. => ⟨_, rfl⟩
  | member receiver? (.property _) => by
    obtain ⟨vs, hvs⟩ := exists_mayBeOption χ receiver?
    exact ⟨_, vs, hvs, rfl⟩
  | call receiver? _ args => by
    obtain ⟨vs, hvs⟩ := exists_mayBeOption χ receiver?
    obtain ⟨ws, hws⟩ := exists_mayBeList χ args
    exact ⟨_, vs, ws, hvs, hws, rfl⟩
  | binary left _ right => by
    obtain ⟨v, hv⟩ := exists_mayBe χ left
    obtain ⟨w, hw⟩ := exists_mayBe χ right
    exact ⟨_, v, w, hv, hw, rfl⟩
  | unary .not operand | unary .negate operand => by
    obtain ⟨v, hv⟩ := exists_mayBe χ operand
    exact ⟨_, v, hv, rfl⟩
  | any rows predicate? => by
    obtain ⟨all, hall⟩ := exists_mayGive χ rows
    obtain ⟨found, hfound⟩ := exists_mayKeep χ rows.rowAlias predicate? all
    exact ⟨_, all, found, hall, hfound, rfl⟩

theorem exists_mayBeOption (χ : Fields V) : (q? : Option Query) → ∃ vs, mayBeOption K caps χ q? vs
  | none => ⟨_, rfl⟩
  | some q => by
    obtain ⟨v, hv⟩ := exists_mayBe χ q
    exact ⟨_, v, hv, rfl⟩

theorem exists_mayBeList (χ : Fields V) : (qs : List Query) → ∃ vs, mayBeList K caps χ qs vs
  | [] => ⟨_, rfl⟩
  | q :: rest => by
    obtain ⟨v, hv⟩ := exists_mayBe χ q
    obtain ⟨ws, hws⟩ := exists_mayBeList χ rest
    exact ⟨_, v, ws, hv, hws, rfl⟩

theorem exists_mayShow (χ : Fields V) :
    (columns : List (String × Query)) → ∃ r, mayShow K caps χ columns r
  | [] => ⟨_, rfl⟩
  | (_, q) :: rest => by
    obtain ⟨v, hv⟩ := exists_mayBe χ q
    obtain ⟨cells, hcells⟩ := exists_mayShow χ rest
    exact ⟨_, v, cells, hv, hcells, rfl⟩

theorem exists_mayKeep (χ : Fields V) (source : String) :
    (predicate? : Option Query) → (all : List (Ranked V)) →
      ∃ found, mayKeep K caps χ source predicate? all found
  | none, _ => ⟨_, rfl⟩
  | some predicate, all => by
    refine Kept.exists (fun r => ?_) all
    obtain ⟨v, hv⟩ := exists_mayBe (χ.within source (r.row.value K.toInterpretation)) predicate
    exact ⟨_, v, hv, rfl⟩

/-- Every sequence may give some rows. -/
theorem exists_mayGive (χ : Fields V) : (q : Query) → ∃ out, q.mayGive K caps χ out
  | source table _ => ⟨_, _, .refl _, rfl⟩
  | filter rows predicate => by
    obtain ⟨before, hbefore⟩ := exists_mayGive χ rows
    refine (Kept.exists (fun r => ?_) before).imp fun out hout => ⟨before, hbefore, hout⟩
    obtain ⟨v, hv⟩ := exists_mayBe
      (χ.within rows.rowAlias (r.row.value K.toInterpretation)) predicate
    exact ⟨_, v, hv, rfl⟩
  | project rows columns => by
    obtain ⟨before, hbefore⟩ := exists_mayGive χ rows
    refine (exists_forall₂_iff.mpr fun r _ => ?_).imp fun out hout => ⟨before, hbefore, hout⟩
    cases columns with
    | nil => exact ⟨r, rfl, rfl⟩
    | cons c rest =>
      obtain ⟨cells, hcells⟩ := exists_mayShow
        (χ.within rows.rowAlias (r.row.value K.toInterpretation)) (c :: rest)
      exact ⟨⟨r.keys, cells⟩, rfl, hcells⟩
  | skip rows _ | take rows _ => by
    obtain ⟨before, hbefore⟩ := exists_mayGive χ rows
    exact ⟨_, before, hbefore, rfl⟩
  | orderBy rows key _ => by
    obtain ⟨before, hbefore⟩ := exists_mayGive χ rows
    suffices hkeyed : ∃ keyed, List.Forall₂ _ before keyed from
      hkeyed.elim fun keyed hkeyed => ⟨_, before, keyed, hbefore, hkeyed, rfl⟩
    refine exists_forall₂_iff.mpr fun r _ => ?_
    obtain ⟨v, hv⟩ := exists_mayBe (χ.within rows.rowAlias (r.row.value K.toInterpretation)) key
    exact ⟨_, v, hv, rfl⟩
  | constant _ | parameter _ | member .. | call .. | binary .. | unary .. | any .. => ⟨_, rfl⟩

end

end

end QueryLoom.Query

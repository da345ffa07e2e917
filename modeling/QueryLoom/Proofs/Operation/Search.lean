/-
  QueryLoom/Proofs/Operation/Search.lean
  ======================================
  **Searching texts in SQL finds what the query asks for.**  Queries count the characters of a
  text from zero, and a text that does not occur has the place minus one.  The SQL for the four
  searches is put together from operators that count from one, take their operands the other way
  round, or know lengths instead of ends; its value is the one that is asked for all the same, for
  all texts, empty ones and ones that occur more than once among them.
-/
import QueryLoom.Proofs.Operation.Text

namespace QueryLoom.Sql

/-- The SQL for a method of a text with one argument. -/
def search (caps : Capabilities) (m : Method) (receiver argument : Expr) :
    Except CompileError Expr := do
  (← Mapping.find (.method m) 1).apply caps (some receiver) [argument]

/-! ### What the expressions are worth -/

namespace Server

variable {V : Type} {S : Server V} {text : List Char → V} {integer : Int → V} {ρ : Columns V}

theorem Counts.eval_int (hS : S.Counts integer) (n : Int32) :
    (Expr.int n).eval S ρ = integer n.toInt :=
  hS.literal rfl

namespace Searches

variable (hS : S.Searches text integer) {ex ey : Expr} {x y : List Char}
  (hx : ex.eval S ρ = text x) (hy : ey.eval S ρ = text y)

include hS hx hy

theorem eval_position : (Expr.position ey ex).eval S ρ = integer (placeIn y x) := by
  rw [Expr.eval, hx, hy, hS.position]

/-- There is a place, counted from one, where the text occurs. -/
theorem eval_positionFound :
    (Expr.binary (.position ey ex) .greater (.int 0)).eval S ρ = S.truth (decide (y <:+: x)) := by
  rw [Expr.eval, hS.eval_position hx hy, hS.eval_int, hS.greater]
  exact congrArg S.truth (decide_eq_decide.mpr placeIn_pos_iff)

theorem eval_startingWith :
    (Expr.binary ex .startingWith ey).eval S ρ = S.truth (decide (y <+: x)) := by
  rw [Expr.eval, hx, hy, hS.startingWith]

/-- The end of a text that is as long as another one, or all of it if it is not as long. -/
theorem eval_endsWith :
    (Expr.binary (.function "RIGHT" [ex, .function "CHAR_LENGTH" [ey]]) .equal ey).eval S ρ
      = S.truth (decide (y <:+ x)) := by
  have hright : (Expr.function "RIGHT" [ex, .function "CHAR_LENGTH" [ey]]).eval S ρ
      = text (x.drop (x.length - y.length)) := by
    simp only [Expr.eval, evalList, hx, hy, hS.length, hS.right]
  have hend : x.drop (x.length - y.length) = y ↔ y <:+ x :=
    eq_comm.trans List.suffix_iff_eq_drop.symm
  rw [Expr.eval, hright, hy, hS.equal]
  exact congrArg S.truth (decide_eq_decide.mpr hend)

theorem eval_decremented :
    (Expr.binary (.position ey ex) .subtract (.int 1)).eval S ρ = integer (placeIn y x - 1) := by
  rw [Expr.eval, hS.eval_position hx hy, hS.eval_int, hS.subtract]
  rfl

end Searches

end Server

/-! ### Searches -/

/-- One less than the place counted from one is the place counted from zero, and minus one where
    there is none. -/
theorem placeIn_sub_one (needle haystack : List Char) :
    (∃ i : Nat, placeIn needle haystack - 1 = i ∧ needle <+: haystack.drop i ∧
      ∀ j < i, ¬ needle <+: haystack.drop j) ∨
    placeIn needle haystack - 1 = -1 ∧ ¬ needle <:+: haystack := by
  rw [placeIn]
  cases h : firstPlace? needle haystack with
  | some i => exact .inl ⟨i, Int.add_sub_cancel _ _, firstPlace?_eq_some_iff.mp h⟩
  | none => exact .inr ⟨rfl, firstPlace?_eq_none_iff.mp h⟩

/-- The SQL for the searches in a text finds what they ask for: whether another text occurs in it,
    whether it starts with it, whether it ends with it, and the first place, counted from zero,
    where it occurs, or minus one. -/
theorem eval_of_search {V : Type} {S : Server V} {text : List Char → V} {integer : Int → V}
    (hS : S.Searches text integer) (caps : Capabilities) (ρ : Columns V) {ex ey : Expr}
    {x y : List Char} (hx : ex.eval S ρ = text x) (hy : ey.eval S ρ = text y) :
    (∃ e, search caps .contains ex ey = .ok e ∧ e.eval S ρ = S.truth (decide (y <:+: x))) ∧
    (∃ e, search caps .startsWith ex ey = .ok e ∧ e.eval S ρ = S.truth (decide (y <+: x))) ∧
    (∃ e, search caps .endsWith ex ey = .ok e ∧ e.eval S ρ = S.truth (decide (y <:+ x))) ∧
    ∃ e index, search caps .indexOf ex ey = .ok e ∧ e.eval S ρ = integer index ∧
      ((∃ i : Nat, index = i ∧ y <+: x.drop i ∧ ∀ j < i, ¬ y <+: x.drop j) ∨
        index = -1 ∧ ¬ y <:+: x) := by
  refine ⟨⟨_, rfl, ?_⟩, ⟨_, rfl, ?_⟩, ⟨_, rfl, ?_⟩, ⟨_, _, rfl, ?_, placeIn_sub_one y x⟩⟩
  · exact hS.eval_positionFound hx hy
  · exact hS.eval_startingWith hx hy
  · exact hS.eval_endsWith hx hy
  · exact hS.eval_decremented hx hy

/-- `ANA` occurs twice in `BANANA`, which does not start with it and ends with it. -/
theorem eval_of_search_banana :
    let S := Dialect.texts.newServer fun _ => []
    let ex := Expr.literal (.string "BANANA")
    let ey := Expr.literal (.string "ANA")
    (∃ e, search (.ofVersion ⟨3, 0, 0, 0⟩) .startsWith ex ey = .ok e ∧
      e.eval S (fun _ _ => .null) = .truth false) ∧
    (∃ e, search (.ofVersion ⟨3, 0, 0, 0⟩) .endsWith ex ey = .ok e ∧
      e.eval S (fun _ _ => .null) = .truth true) ∧
    ∃ e, search (.ofVersion ⟨3, 0, 0, 0⟩) .indexOf ex ey = .ok e ∧
      e.eval S (fun _ _ => .null) = Dialect.ofInteger 1 := by
  intro S ex ey
  have hx : ex.eval S (fun _ _ => .null) = Dialect.ofText "BANANA".toList := rfl
  have hy : ey.eval S (fun _ _ => .null) = Dialect.ofText "ANA".toList := rfl
  obtain ⟨-, hstarts, hends, e, index, he, hindex, hplace⟩ :=
    eval_of_search (Dialect.searches_texts _) (.ofVersion ⟨3, 0, 0, 0⟩) (fun _ _ => .null) hx hy
  refine ⟨hstarts, hends, e, he, hindex.trans (congrArg Dialect.ofInteger ?_)⟩
  rcases hplace with ⟨i, rfl, hstart, hfirst⟩ | ⟨-, hnone⟩
  · have hzero : i ≠ 0 := by
      rintro rfl
      exact absurd hstart (by decide)
    have hone : ¬ 1 < i := fun hi => hfirst 1 hi (by decide)
    omega
  · exact absurd (by decide) hnone

end QueryLoom.Sql

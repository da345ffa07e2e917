/-
  QueryLoom/Proofs/Operation/Text.lean
  ====================================
  **What a server does with texts.**  Texts are lists of characters and integers are integers of
  any size; a server has values for both.  SQL counts the characters of a text from one: POSITION
  gives the first place of a text in another or zero, RIGHT the last characters, all of them if
  there are not so many, and SUBSTRING the characters from a place on.

  `Server.Counts`, `Server.Searches` and `Server.Cuts` say this of a server, as much of it as
  searching and cutting need.

    * `firstPlace?_eq_some_iff`, `firstPlace?_eq_none_iff` — what it is to be the first place;
    * `searches_texts`, `cuts_texts` — a server that does all of it.
-/
import Mathlib.Data.Char
import Mathlib.Data.List.Infix
import Mathlib.Data.List.Lex
import QueryLoom.Proofs.Truth.Datum

namespace QueryLoom.Sql

/-! ### Places -/

/-- The first place of a text in another, counted from zero. -/
def firstPlace? (needle : List Char) : List Char → Option Nat
  | [] => if needle.isEmpty then some 0 else none
  | c :: rest =>
    if needle.isPrefixOf (c :: rest) then some 0 else (firstPlace? needle rest).map (· + 1)

/-- The first place of a text in another, counted from one, or zero. -/
def placeIn (needle haystack : List Char) : Int :=
  match firstPlace? needle haystack with
  | some i => i + 1
  | none => 0

/-- The first place is where the text starts and does not start before. -/
theorem firstPlace?_eq_some_iff {needle haystack : List Char} {i : Nat} :
    firstPlace? needle haystack = some i ↔
      needle <+: haystack.drop i ∧ (∀ j < i, ¬ needle <+: haystack.drop j) := by
  induction haystack generalizing i with
  | nil =>
    rw [firstPlace?]
    cases i with
    | zero => simp [List.isEmpty_iff]
    | succ i =>
      refine iff_of_false (fun h => ?_) fun h => h.2 0 (Nat.succ_pos i) (by simpa using h.1)
      split at h <;> cases h
  | cons c rest ih =>
    rw [firstPlace?]
    by_cases hstarts : needle <+: c :: rest
    · rw [if_pos (List.isPrefixOf_iff_prefix.mpr hstarts)]
      cases i with
      | zero => simpa using hstarts
      | succ i =>
        refine iff_of_false (by simp) fun h => ?_
        exact h.2 0 (Nat.succ_pos i) hstarts
    · rw [if_neg (mt List.isPrefixOf_iff_prefix.mp hstarts)]
      cases i with
      | zero => simpa using hstarts
      | succ i =>
        simp only [Option.map_eq_some_iff, Nat.add_right_cancel_iff, exists_eq_right, ih,
          List.drop_succ_cons]
        refine and_congr_right fun _ => ⟨fun h j hj => ?_, fun h j hj => h (j + 1) (by omega)⟩
        cases j with
        | zero => exact hstarts
        | succ j => exact h j (by omega)

/-- There is no first place where the text does not occur. -/
theorem firstPlace?_eq_none_iff {needle haystack : List Char} :
    firstPlace? needle haystack = none ↔ ¬ needle <:+: haystack := by
  induction haystack with
  | nil => simp [firstPlace?, List.isEmpty_iff]
  | cons c rest ih =>
    rw [firstPlace?, List.infix_cons_iff]
    by_cases hstarts : needle <+: c :: rest
    · rw [if_pos (List.isPrefixOf_iff_prefix.mpr hstarts)]
      simp [hstarts]
    · rw [if_neg (mt List.isPrefixOf_iff_prefix.mp hstarts)]
      simp [hstarts, ih]

theorem placeIn_pos_iff {needle haystack : List Char} :
    0 < placeIn needle haystack ↔ needle <:+: haystack := by
  rw [placeIn]
  cases h : firstPlace? needle haystack with
  | none => exact iff_of_false (Int.lt_irrefl 0) (firstPlace?_eq_none_iff.mp h)
  | some i =>
    have hoccurs : needle <:+: haystack := by
      by_contra hnone
      rw [firstPlace?_eq_none_iff.mpr hnone] at h
      cases h
    have hpositive : (0 : Int) < i + 1 := by omega
    exact iff_of_true hpositive hoccurs

/-! ### Servers -/

namespace Server

variable {V : Type}

/-- The server has values for integers and computes with them. -/
structure Counts (S : Server V) (integer : Int → V) : Prop where
  injective : Function.Injective integer
  literal {v : Value} {n : Int} (h : v.integer? = some n) : S.literal v = integer n
  add (a b : Int) : S.operator (.binary .add) [integer a, integer b] = integer (a + b)
  subtract (a b : Int) : S.operator (.binary .subtract) [integer a, integer b] = integer (a - b)
  greater (a b : Int) :
    S.operator (.binary .greater) [integer a, integer b] = S.truth (decide (b < a))

/-- The server has values for texts as well, and finds texts in one another. -/
structure Searches (S : Server V) (text : List Char → V) (integer : Int → V) : Prop
    extends S.Counts integer where
  equal (x y : List Char) :
    S.operator (.binary .equal) [text x, text y] = S.truth (decide (x = y))
  startingWith (x y : List Char) :
    S.operator (.binary .startingWith) [text x, text y] = S.truth (decide (y <+: x))
  length (x : List Char) : S.operator (.function "CHAR_LENGTH") [text x] = integer x.length
  right (x : List Char) (n : Nat) :
    S.operator (.function "RIGHT") [text x, integer n] = text (x.drop (x.length - n))
  position (needle haystack : List Char) :
    S.operator .position [text needle, text haystack] = integer (placeIn needle haystack)

/-- The server has values for texts as well, and cuts characters out of them. -/
structure Cuts (S : Server V) (text : List Char → V) (integer : Int → V) : Prop
    extends S.Counts integer where
  /-- From a place on, counted from one. -/
  rest (x : List Char) (place : Nat) (h : 0 < place) :
    S.operator (.substring false) [text x, integer place] = text (x.drop (place - 1))
  /-- From a place on, counted from one, so many characters. -/
  part (x : List Char) (place n : Nat) (h : 0 < place) :
    S.operator (.substring true) [text x, integer place, integer n]
      = text ((x.drop (place - 1)).take n)

end Server

/-! ### A server with texts -/

namespace Dialect

/-- An integer or a text. -/
abbrev Scalar := Int ⊕ List Char

/-- The result of an operator on integers and texts. -/
def textOperation : Operator → List (Datum Scalar) → Option Scalar
  | .binary .add, [.other (.inl a), .other (.inl b)] => some (.inl (a + b))
  | .binary .subtract, [.other (.inl a), .other (.inl b)] => some (.inl (a - b))
  | .function "CHAR_LENGTH", [.other (.inr x)] => some (.inl x.length)
  | .function "RIGHT", [.other (.inr x), .other (.inl n)] =>
    some (.inr (x.drop (x.length - n.toNat)))
  | .position, [.other (.inr needle), .other (.inr haystack)] =>
    some (.inl (placeIn needle haystack))
  | .substring false, [.other (.inr x), .other (.inl place)] =>
    some (.inr (x.drop (place.toNat - 1)))
  | .substring true, [.other (.inr x), .other (.inl place), .other (.inl n)] =>
    some (.inr ((x.drop (place.toNat - 1)).take n.toNat))
  | _, _ => none

/-- Whether a value comes no later than another one, integers before texts. -/
def scalarAtMost : Scalar → Scalar → Bool
  | .inl a, .inl b => a ≤ b
  | .inl _, .inr _ => true
  | .inr _, .inl _ => false
  | .inr x, .inr y => x ≤ y

/-- How integers and texts compare. -/
def scalarRelates (op : BinaryOperator) (u v : Scalar) : Bool :=
  match op, u, v with
  | .equal, u, v => u = v
  | .notEqual, u, v => u ≠ v
  | .less, u, v => !scalarAtMost v u
  | .lessOrEqual, u, v => scalarAtMost u v
  | .greater, u, v => !scalarAtMost u v
  | .greaterOrEqual, u, v => scalarAtMost v u
  | .startingWith, .inr x, .inr y => y.isPrefixOf x
  | _, _, _ => false

/-- The value of a constant among integers and texts. -/
def scalar : Value → Scalar
  | .string s => .inr s.toList
  | v => .inl (v.integer?.getD 0)

theorem scalar_eq_of_agrees {v w : Value} (h : v.agrees w = true) : scalar v = scalar w := by
  cases v <;> cases w <;> simp_all [Value.agrees, scalar, Value.integer?]

/-- Integers and texts. -/
def texts : Dialect Scalar where
  constant := scalar
  constant_eq_of_agrees := scalar_eq_of_agrees
  parameter _ := .null
  parameter_fits _ := Datum.fits_null _
  operation := textOperation
  relates := scalarRelates
  count _ := 0
  atMost := scalarAtMost
  atMost_total u v := by
    rcases u with a | x <;> rcases v with b | y <;> simp only [scalarAtMost, or_true, true_or]
    · simpa using Int.le_total a b
    · simpa using le_total x y
  atMost_trans {u v w} huv hvw := by
    rcases u with a | x <;> rcases v with b | y <;> rcases w with c | z <;>
      simp only [scalarAtMost, decide_eq_true_eq, Bool.false_eq_true] at huv hvw ⊢
    · exact Int.le_trans huv hvw
    · exact le_trans huv hvw
  relates_bits {op} hop a b := by
    cases op <;> first
      | cases hop; done
      | (cases a <;> cases b <;> rfl)
  atMost_bits a b := by cases a <;> cases b <;> rfl

/-- The value of a text. -/
def ofText (x : List Char) : Datum Scalar := .other (.inr x)

/-- The value of an integer. -/
def ofInteger (n : Int) : Datum Scalar := .other (.inl n)

section

variable (tables : Database (Datum Scalar))

theorem counts_texts : (texts.newServer tables).Counts ofInteger where
  injective a b h := by
    cases h
    rfl
  literal {v n} h := by cases v <;> cases h <;> rfl
  add _ _ := rfl
  subtract _ _ := rfl
  greater a b := by
    change Datum.truth (!decide (a ≤ b)) = Datum.truth (decide (b < a))
    rw [← decide_not, decide_eq_decide.mpr Int.not_le]

theorem searches_texts : (texts.newServer tables).Searches ofText ofInteger where
  toCounts := counts_texts tables
  equal x y := by
    change Datum.truth (decide ((.inr x : Scalar) = .inr y)) = Datum.truth (decide (x = y))
    simp only [Sum.inr.injEq]
  startingWith x y := by
    change Datum.truth (y.isPrefixOf x) = Datum.truth (decide (y <+: x))
    rw [Bool.eq_iff_iff.mpr (List.isPrefixOf_iff_prefix.trans decide_eq_true_iff.symm)]
  length _ := rfl
  right _ _ := rfl
  position _ _ := rfl

theorem cuts_texts : (texts.newServer tables).Cuts ofText ofInteger where
  toCounts := counts_texts tables
  rest _ _ _ := rfl
  part _ _ _ _ := rfl

end

end Dialect

end QueryLoom.Sql

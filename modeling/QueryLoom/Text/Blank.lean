/-
  QueryLoom/Text/Blank.lean
  =========================
  **White space**: the characters with the Unicode property `White_Space`, trimming
  a text at both ends, and the first word of a text.

  `trim_eq_self` says when trimming changes nothing; `dropBlank_append` lets a
  leading blank run be passed over.
-/
namespace QueryLoom.Text

/-- A character with the Unicode property `White_Space`. -/
def isBlank (c : Char) : Bool :=
  let n := c.toNat
  (9 ≤ n && n ≤ 13) || n == 0x20 || n == 0x85 || n == 0xA0 || n == 0x1680
    || (0x2000 ≤ n && n ≤ 0x200A) || n == 0x2028 || n == 0x2029 || n == 0x202F
    || n == 0x205F || n == 0x3000

/-- The text without the blanks it starts with. -/
def dropBlank (cs : List Char) : List Char := cs.dropWhile isBlank

/-- The text without the blanks at either end. -/
def trim (cs : List Char) : List Char := (dropBlank (dropBlank cs).reverse).reverse

/-- The first maximal run without blanks, empty when there is none. -/
def firstWord (cs : List Char) : List Char := (dropBlank cs).takeWhile fun c => !isBlank c

/-! ### Texts that trimming leaves alone -/

theorem dropBlank_cons {c : Char} {cs : List Char} (h : isBlank c = false) :
    dropBlank (c :: cs) = c :: cs := by
  simp [dropBlank, h]

theorem dropBlank_append {ws cs : List Char} (h : ∀ c ∈ ws, isBlank c = true) :
    dropBlank (ws ++ cs) = dropBlank cs := by
  induction ws with
  | nil => rfl
  | cons w ws ih =>
    simp only [List.mem_cons, forall_eq_or_imp] at h
    simp only [dropBlank, List.cons_append, List.dropWhile_cons, h.1, if_true]
    exact ih h.2

theorem dropBlank_eq_self {cs : List Char} (h : ∀ c ∈ cs, isBlank c = false) :
    dropBlank cs = cs := by
  cases cs with
  | nil => rfl
  | cons c cs => exact dropBlank_cons (h c (List.mem_cons_self ..))

theorem trim_eq_self {cs : List Char} (h : ∀ c ∈ cs, isBlank c = false) : trim cs = cs := by
  rw [trim, dropBlank_eq_self h, dropBlank_eq_self (by simpa using h), List.reverse_reverse]

end QueryLoom.Text

/-
  QueryLoom/Proofs/Paging/Window.lean
  ===================================
  **What the bounds of a window amount to.**  Counts stay symbolic in a window, so its bounds are
  sums that only the server computes.  `Expr.amount?` is what they amount to over all integers, and
  `Page` says of a sequence which of its counts share one window.

    * `exists_amount?_of_checkCount` — a checked count is a number from zero to the last row;
    * `amount?_of_window?` — the bounds are the first and the last row of the page;
    * `isInt64_bounds_iff` — they are numbers of 64 bits just when the page fits.
-/
import QueryLoom.Proofs.Drafting.Readiness

namespace QueryLoom

/-- The last row that there can be: the greatest number of 64 bits with its sign. -/
def lastRow : Int := 9223372036854775807

/-- A number of 64 bits with its sign. -/
def IsInt64 (n : Int) : Prop := -9223372036854775808 ≤ n ∧ n ≤ lastRow

/-! ### Pages -/

/-- The counts of a sequence that share the window of its last rows. -/
structure Page where
  skip? : Option Query := none
  take? : Option Query := none
  /-- Whether these rows have columns of their own already. -/
  isProjected : Bool := false

/-- Whether the page has counts. -/
def Page.isCounted (p : Page) : Bool := p.skip?.isSome || p.take?.isSome

namespace Query

/-- The page of a sequence.  Rows are skipped before they are taken, and each is done once on a
    page.  A projection keeps the page unless there are columns already; a filter and an ordering
    need a new one. -/
def page : Query → Page
  | project rows _ =>
    if rows.page.isProjected then { isProjected := true }
    else { rows.page with isProjected := true }
  | skip rows count =>
    if rows.page.isCounted then { skip? := some count } else { rows.page with skip? := some count }
  | take rows count =>
    if rows.page.take?.isSome then { take? := some count }
    else { rows.page with take? := some count }
  | _ => {}

/-- The number that a count stands for, with these numbers for the parameters. -/
def count? (ρ : Parameter → Int) : Query → Option Int
  | constant v => v.integer?
  | parameter p => some (ρ p)
  | _ => none

end Query

namespace Page

variable (ρ : Parameter → Int) (p : Page)

/-- How many rows are skipped. -/
def skipped? : Option Int := p.skip?.bind (Query.count? ρ)

/-- How many rows are taken. -/
def taken? : Option Int := p.take?.bind (Query.count? ρ)

/-- The first and the last row of the page, counted from one.  Where nothing is skipped the last one
    stands alone. -/
def bounds : List Int :=
  match p.skipped? ρ, p.taken? ρ with
  | none, none => []
  | none, some n => [n]
  | some s, none => [s + 1, lastRow]
  | some s, some n => [s + 1, s + n]

/-- There is a row after those skipped, and the last row of the page is one that there can be. -/
def Fits : Prop :=
  ∀ s, p.skipped? ρ = some s → s < lastRow ∧ ∀ n, p.taken? ρ = some n → s + n ≤ lastRow

end Page

/-! ### Bounds as expressions -/

/-- A count as it stands in a window. -/
def Query.asCount : Query → Sql.Expr
  | .constant v => .literal v
  | .parameter p => .parameter p
  | _ => .literal .null

/-- The counts of the page as the draft of a statement has them. -/
def Page.paging (p : Page) : Sql.Paging where
  skip? := p.skip?.map Query.asCount
  take? := p.take?.map Query.asCount

theorem Page.isCounted_eq (p : Page) : p.isCounted = !p.paging.isEmpty := by
  rcases p with ⟨_ | _, _ | _, _⟩ <;> rfl

namespace Query

theorem paging_project (rows : Query) (columns : List (String × Query)) :
    (project rows columns).page.paging =
      if rows.page.isProjected then {} else rows.page.paging := by
  rw [page]
  split <;> rfl

theorem isProjected_project (rows : Query) (columns : List (String × Query)) :
    (project rows columns).page.isProjected = true := by
  rw [page]
  split <;> rfl

theorem paging_skip (rows count : Query) : (skip rows count).page.paging =
    { (if rows.page.isCounted then {} else rows.page.paging) with
      skip? := some count.asCount } := by
  rw [page]
  split <;> rfl

theorem isProjected_skip (rows count : Query) : (skip rows count).page.isProjected =
    if rows.page.isCounted then false else rows.page.isProjected := by
  rw [page]
  split <;> rfl

theorem paging_take (rows count : Query) : (take rows count).page.paging =
    { (if rows.page.take?.isSome then {} else rows.page.paging) with
      take? := some count.asCount } := by
  rw [page]
  split <;> rfl

theorem isProjected_take (rows count : Query) : (take rows count).page.isProjected =
    if rows.page.take?.isSome then false else rows.page.isProjected := by
  rw [page]
  split <;> rfl

end Query

namespace Sql

/-- What a literal, a parameter or a sum of them amounts to over all integers. -/
def Expr.amount? (ρ : Parameter → Int) : Expr → Option Int
  | .literal v => v.integer?
  | .parameter p => some (ρ p)
  | .binary left .add right =>
    match left.amount? ρ, right.amount? ρ with
    | some a, some b => some (a + b)
    | _, _ => none
  | _ => none

variable {ρ : Parameter → Int} {p : Page} {operator : String}

theorem amount?_asCount (c : Query) : (Query.asCount c).amount? ρ = c.count? ρ := by
  cases c <;> rfl

theorem eq_asCount_of_rowCount {count : Query} {e : Expr}
    (h : Paging.rowCount operator count = .ok e) : e = Query.asCount count := by
  obtain ⟨-, ⟨v, rfl, rfl⟩ | ⟨p, rfl, rfl⟩⟩ := rowCount_eq_ok.mp h <;> rfl

theorem le_lastRow_of_integer? {v : Value} {n : Int} (h : v.integer? = some n) : n ≤ lastRow := by
  rw [lastRow]
  cases v <;> cases h
  case int16 x =>
    have := x.toInt_lt
    omega
  case int32 x =>
    have := x.toInt_lt
    omega
  case int64 x =>
    have := x.toInt_lt
    omega

/-- What was checked as a count is a number from zero to the last row, as long as the parameters
    are. -/
theorem exists_amount?_of_checkCount (hρ : ∀ p, 0 ≤ ρ p ∧ ρ p ≤ lastRow) {e : Expr}
    (h : Paging.checkCount operator e = .ok ()) :
    ∃ n, e.amount? ρ = some n ∧ 0 ≤ n ∧ n ≤ lastRow := by
  rcases checkCount_eq_ok.mp h with ⟨v, rfl, hv⟩ | ⟨p, rfl, -⟩
  · rw [Value.isNatural] at hv
    cases hn : v.integer? with
    | none =>
      rw [hn] at hv
      cases hv
    | some n =>
      rw [hn] at hv
      exact ⟨n, hn, of_decide_eq_true hv, le_lastRow_of_integer? hn⟩
  · exact ⟨ρ p, rfl, hρ p⟩

/-- The counts of a page that has a window. -/
theorem counts_of_window? (hρ : ∀ p, 0 ≤ ρ p ∧ ρ p ≤ lastRow) {w? : Option Window}
    (h : p.paging.window? = .ok w?) :
    (∀ c, p.skip? = some c → ∃ s, c.count? ρ = some s ∧ 0 ≤ s ∧ s ≤ lastRow) ∧
    (∀ c, p.take? = some c → ∃ n, c.count? ρ = some n ∧ 0 ≤ n ∧ n ≤ lastRow) := by
  obtain ⟨hskip, htake, -⟩ := window?_eq_ok h
  constructor
  · intro c hc
    rw [← amount?_asCount]
    exact exists_amount?_of_checkCount hρ (hskip _ (by rw [Page.paging, hc]; rfl))
  · intro c hc
    rw [← amount?_asCount]
    exact exists_amount?_of_checkCount hρ (htake _ (by rw [Page.paging, hc]; rfl))

theorem amount?_add {left right : Expr} {a b : Int} (hleft : left.amount? ρ = some a)
    (hright : right.amount? ρ = some b) :
    (Expr.binary left .add right).amount? ρ = some (a + b) := by
  rw [Expr.amount?, hleft, hright]

/-- The bounds of a window amount to the first and the last row of the page. -/
theorem amount?_of_window? (hρ : ∀ p, 0 ≤ ρ p ∧ ρ p ≤ lastRow) {w : Window}
    (h : p.paging.window? = .ok (some w)) :
    (w.lower :: w.upper?.toList).map (Expr.amount? ρ) = (p.bounds ρ).map some := by
  obtain ⟨hskip, htake⟩ := counts_of_window? hρ h
  obtain ⟨-, -, hw⟩ := window?_eq_ok h
  have hone : (Expr.int 1).amount? ρ = some 1 := rfl
  have hlast : Paging.lastRow.amount? ρ = some lastRow := rfl
  rcases p with ⟨_ | c, _ | c', _⟩
  · cases hw
  · cases hw
    obtain ⟨n, hn, -⟩ := htake c' rfl
    simp [Page.bounds, Page.skipped?, Page.taken?, amount?_asCount, hn]
  · cases hw
    obtain ⟨s, hs, -⟩ := hskip c rfl
    have hlower := amount?_add ((amount?_asCount c).trans hs) hone
    simp [Page.bounds, Page.skipped?, Page.taken?, hs, hlower, hlast]
  · cases hw
    obtain ⟨s, hs, -⟩ := hskip c rfl
    obtain ⟨n, hn, -⟩ := htake c' rfl
    have hlower := amount?_add ((amount?_asCount c).trans hs) hone
    have hupper := amount?_add ((amount?_asCount c).trans hs) ((amount?_asCount c').trans hn)
    simp [Page.bounds, Page.skipped?, Page.taken?, hs, hn, hlower, hupper]

/-- Expressions amount to numbers of a kind just when the numbers that they amount to are. -/
theorem forall_amount?_iff {es : List Expr} {bs : List Int} {P : Int → Prop}
    (h : es.map (Expr.amount? ρ) = bs.map some) :
    (∀ e ∈ es, ∃ n, e.amount? ρ = some n ∧ P n) ↔ ∀ b ∈ bs, P b := by
  have hmap : (∀ o ∈ es.map (Expr.amount? ρ), ∃ n, o = some n ∧ P n) ↔
      ∀ e ∈ es, ∃ n, e.amount? ρ = some n ∧ P n := List.forall_mem_map
  rw [← hmap, h, List.forall_mem_map]
  simp only [Option.some.injEq, exists_eq_left']

/-- The rows of a page have numbers of 64 bits just when the page fits. -/
theorem isInt64_bounds_iff (hρ : ∀ p, 0 ≤ ρ p ∧ ρ p ≤ lastRow) {w? : Option Window}
    (h : p.paging.window? = .ok w?) : (∀ b ∈ p.bounds ρ, IsInt64 b) ↔ p.Fits ρ := by
  obtain ⟨hskip, htake⟩ := counts_of_window? hρ h
  have hlast : IsInt64 lastRow := ⟨by decide, Int.le_refl _⟩
  have hnext : ∀ s, 0 ≤ s → (IsInt64 (s + 1) ↔ s < lastRow) := fun s hs => by
    rw [IsInt64]
    omega
  have hsum : ∀ s n, 0 ≤ s → 0 ≤ n → (IsInt64 (s + n) ↔ s + n ≤ lastRow) := fun s n hs hn => by
    rw [IsInt64]
    omega
  rw [Page.bounds, Page.Fits, Page.skipped?, Page.taken?]
  rcases p with ⟨_ | c, _ | c', _⟩
  · simp
  · obtain ⟨n, hn, hpos, hle⟩ := htake c' rfl
    have hin : IsInt64 n := ⟨by omega, hle⟩
    simp [hn, hin]
  · obtain ⟨s, hs, hpos, -⟩ := hskip c rfl
    simp [hs, hnext s hpos, hlast]
  · obtain ⟨s, hs, hpos, -⟩ := hskip c rfl
    obtain ⟨n, hn, hpos', -⟩ := htake c' rfl
    simp [hs, hn, hnext s hpos, hsum s n hpos hpos']

end Sql

end QueryLoom

/-
  QueryLoom/Proofs/Meaning/Substitution.lean
  ==========================================
  **To rebase an expression is to substitute one source for another.**  When an ordering moves
  out of a derived table, its keys have to refer to that table instead of the rows inside it.  The
  row that was bound to the old alias is then bound to the new one, and every key keeps its value.

  A row may be anything here.  An environment binds a row to every alias, and a `Meaning` says what
  columns, constants, parameters and operators stand for; no law at all is asked of it.  A
  server with the rows around a statement is one such meaning (`eval_eq_denote`).

    * `sources_rename` — renaming a source renames each reference to it and no other one;
    * `rename_rename` — a source can be called by its old alias again, if the new one was not in
      use;
    * `denote_rename` — an expression keeps its value if the rows move with the aliases;
    * `rebase_substitutes` — the three together for what rebasing gives, and when it gives nothing.
-/
import Mathlib.Logic.Function.Basic
import QueryLoom.Proofs.Drafting.Readiness
import QueryLoom.Proofs.Meaning.Server

namespace QueryLoom.Sql

/-! ### References -/

/-- The source that an expression refers to by itself. -/
def Expr.source? : Expr → Option String
  | column source _ => some source
  | allColumns source => some source
  | _ => none

/-- The sources that an expression refers to, one for each reference from left to right.
    Statements in it are left alone. -/
def Expr.sources (e : Expr) : List String := e.parts.filterMap Expr.source?

theorem mem_sources_of_mem_operands {e o : Expr} {source : String} (ho : o ∈ e.operands)
    (h : source ∈ o.sources) : source ∈ e.sources := by
  rw [Expr.sources, List.mem_filterMap] at h ⊢
  obtain ⟨x, hx, hsource⟩ := h
  exact ⟨x, mem_parts_of_mem_operands ho hx, hsource⟩

/-- Renaming a source renames each reference to it and no other one. -/
theorem sources_rename (old new : String) (e : Expr) :
    (e.rename old new).sources = e.sources.map (renamed old new) := by
  have hsource : ∀ x : Expr, (x.rename old new).source? = x.source?.map (renamed old new) := by
    intro x
    cases x <;> rfl
  rw [Expr.sources, parts_rename, List.filterMap_map, Expr.sources, List.map_filterMap]
  exact List.filterMap_congr fun x _ => hsource x

theorem renamed_self (old new : String) : renamed old new old = new := if_pos rfl

theorem renamed_of_ne {old source : String} (h : source ≠ old) (new : String) :
    renamed old new source = source := if_neg h

/-- No reference to the old alias is left. -/
theorem not_mem_sources_rename {old new : String} (h : old ≠ new) (e : Expr) :
    old ∉ (e.rename old new).sources := by
  rw [sources_rename]
  intro hmem
  obtain ⟨source, -, hsource⟩ := List.mem_map.mp hmem
  by_cases hold : source = old
  · rw [hold, renamed_self] at hsource
    exact h hsource.symm
  · rw [renamed_of_ne hold] at hsource
    exact hold hsource

theorem renamed_renamed {old new source : String} (h : source ≠ new) :
    renamed new old (renamed old new source) = source := by
  by_cases hold : source = old
  · rw [hold, renamed_self, renamed_self]
  · rw [renamed_of_ne hold, renamed_of_ne h]

/-- A source can be called by its old alias again, if the new one was not in use. -/
theorem rename_rename {old new : String} {e : Expr} (h : new ∉ e.sources) :
    (e.rename old new).rename new old = e := by
  induction e using Expr.induction_on_operands with
  | column source name =>
    have hsource : source ≠ new := fun heq => h (heq ▸ List.mem_singleton_self source)
    rw [Expr.rename, Expr.rename, renamed_renamed hsource]
  | allColumns source =>
    have hsource : source ≠ new := fun heq => h (heq ▸ List.mem_singleton_self source)
    rw [Expr.rename, Expr.rename, renamed_renamed hsource]
  | literal v => rfl
  | parameter p => rfl
  | existsRow rows => rfl
  | operator e op hop ih =>
    apply Expr.eq_of_operands _ hop
    · rw [operands_rename, operands_rename, List.map_map]
      conv_rhs => rw [← List.map_id e.operands]
      apply List.map_congr_left
      intro o ho
      exact ih o ho fun hmem => h (mem_sources_of_mem_operands ho hmem)
    · rw [operator?_rename, operator?_rename, hop]

/-! ### Values -/

variable {R V : Type}

/-- What columns, constants, parameters and operators stand for, where a row is some `R` and a value
    some `V`. -/
structure Meaning (R V : Type) where
  column : R → String → V
  allColumns : R → V
  literal : Value → V
  parameter : Parameter → V
  operator : Operator → List V → V
  /-- A test may look at every row around it. -/
  test : Select → (String → R) → V

mutual

/-- The value of an expression in an environment. -/
def Expr.denote (M : Meaning R V) (ρ : String → R) : Expr → V
  | .column source name => M.column (ρ source) name
  | .allColumns source => M.allColumns (ρ source)
  | .literal v => M.literal v
  | .parameter p => M.parameter p
  | .keyword w => M.operator (.keyword w) []
  | .function name args => M.operator (.function name) (denoteList M ρ args)
  | .trim side? chars? text =>
    M.operator (.trim side? chars?.isSome) (denoteOption M ρ chars? ++ [text.denote M ρ])
  | .substring text start length? =>
    M.operator (.substring length?.isSome)
      (text.denote M ρ :: start.denote M ρ :: denoteOption M ρ length?)
  | .extract part operand => M.operator (.extract part) [operand.denote M ρ]
  | .cast operand type => M.operator (.cast type) [operand.denote M ρ]
  | .position needle haystack => M.operator .position [needle.denote M ρ, haystack.denote M ρ]
  | .dateAdd amount part operand =>
    M.operator (.dateAdd part) [amount.denote M ρ, operand.denote M ρ]
  | .atTimeZone operand zone => M.operator (.atTimeZone zone) [operand.denote M ρ]
  | .binary left op right => M.operator (.binary op) [left.denote M ρ, right.denote M ρ]
  | .unary op operand => M.operator (.unary op) [operand.denote M ρ]
  | .isNull operand negated => M.operator (.isNull negated) [operand.denote M ρ]
  | .case whens otherwise? =>
    M.operator (.case otherwise?.isSome) (denoteWhens M ρ whens ++ denoteOption M ρ otherwise?)
  | .existsRow rows => M.test rows ρ

/-- The value of an expression that may be missing, as a list of at most one. -/
def denoteOption (M : Meaning R V) (ρ : String → R) : Option Expr → List V
  | none => []
  | some e => [e.denote M ρ]

/-- The values of expressions. -/
def denoteList (M : Meaning R V) (ρ : String → R) : List Expr → List V
  | [] => []
  | e :: rest => e.denote M ρ :: denoteList M ρ rest

/-- The values of conditions and results, in turn. -/
def denoteWhens (M : Meaning R V) (ρ : String → R) : List When → List V
  | [] => []
  | ⟨condition, result⟩ :: rest =>
    condition.denote M ρ :: result.denote M ρ :: denoteWhens M ρ rest

end

/-- The value of an operator comes from the values of its operands. -/
theorem denote_of_operator (M : Meaning R V) (ρ : String → R) {e : Expr} {op : Operator}
    (h : e.operator? = some op) :
    e.denote M ρ = M.operator op (e.operands.map (Expr.denote M ρ)) := by
  have hlist : ∀ es : List Expr, denoteList M ρ es = es.map (Expr.denote M ρ) := by
    intro es
    induction es with
    | nil => rfl
    | cons e rest ih => rw [denoteList, ih, List.map_cons]
  have hoption : ∀ e? : Option Expr, denoteOption M ρ e? = e?.toList.map (Expr.denote M ρ) := by
    rintro (_ | e) <;> rfl
  have hwhens : ∀ ws : List When, denoteWhens M ρ ws
      = (ws.flatMap fun w => [w.condition, w.result]).map (Expr.denote M ρ) := by
    intro ws
    induction ws with
    | nil => rfl
    | cons w rest ih =>
      rcases w with ⟨condition, result⟩
      simp [denoteWhens, ih]
  cases e <;> cases h <;> simp [Expr.denote, Expr.operands, hlist, hoption, hwhens]

/-- What a server makes of expressions, a row being the values of its columns. -/
def Server.meaning (S : Server V) : Meaning (String → V) V where
  column row name := row name
  allColumns _ := S.undefined
  literal := S.literal
  parameter := S.parameter
  operator := S.operator
  test rows ρ := S.truth !(rows.run S ρ).isEmpty

theorem eval_eq_denote (S : Server V) (ρ : Columns V) (e : Expr) :
    e.eval S ρ = e.denote S.meaning ρ := by
  induction e using Expr.induction_on_operands with
  | operator e op hop ih =>
    rw [eval_of_operator S ρ hop, denote_of_operator S.meaning ρ hop]
    exact congrArg _ (List.map_congr_left ih)
  | _ => rfl

/-- An expression keeps its value if the rows move with the aliases. -/
theorem denote_rename (M : Meaning R V) {ρ ρ' : String → R} {old new : String} {e : Expr}
    (hsubquery : e.hasSubquery = false)
    (hrows : ∀ source ∈ e.sources, ρ' (renamed old new source) = ρ source) :
    (e.rename old new).denote M ρ' = e.denote M ρ := by
  induction e using Expr.induction_on_operands with
  | column source name =>
    rw [Expr.rename, Expr.denote, Expr.denote, hrows source (List.mem_singleton_self source)]
  | allColumns source =>
    rw [Expr.rename, Expr.denote, Expr.denote, hrows source (List.mem_singleton_self source)]
  | literal v => rfl
  | parameter p => rfl
  | existsRow rows => cases hsubquery
  | operator e op hop ih =>
    rw [denote_of_operator M ρ' ((operator?_rename old new e).trans hop),
      denote_of_operator M ρ hop, operands_rename, List.map_map]
    apply congrArg
    apply List.map_congr_left
    intro o ho
    apply ih o ho (Expr.hasSubquery_of_mem_operands hsubquery ho)
    intro source hsource
    exact hrows source (mem_sources_of_mem_operands ho hsource)

/-! ### Rebasing -/

/-- The row that is bound to a new alias is the one that was bound to the old alias, and the other
    aliases in use keep theirs. -/
theorem update_renamed {ρ : String → R} {old new source : String} (h : source ≠ new) (r : R) :
    Function.update ρ new r (renamed old new source) = Function.update ρ old r source := by
  by_cases hold : source = old
  · rw [hold, renamed_self, Function.update_self, Function.update_self]
  · rw [renamed_of_ne hold, Function.update_of_ne h, Function.update_of_ne hold]

theorem Expr.rebase_eq_none {old new : String} {e : Expr} :
    e.rebase old new = none ↔ ∃ rows, .existsRow rows ∈ e.parts := by
  unfold Expr.rebase
  cases hsubquery : e.hasSubquery with
  | true => simpa using exists_of_hasSubquery e hsubquery
  | false => simpa using not_exists_of_hasSubquery hsubquery

/-- Rebasing gives nothing just for an expression with a test in it.  Otherwise nothing refers to
    the old alias any more; and if the new one was not in use, the value is the one with the row
    bound to the old alias, and rebasing back gives the expression again. -/
theorem rebase_substitutes (e : Expr) (old new : String) :
    (e.rebase old new = none ↔ ∃ rows, .existsRow rows ∈ e.parts) ∧
      ∀ e', e.rebase old new = some e' →
        (old ≠ new → old ∉ e'.sources) ∧
        (new ∉ e.sources →
          (∀ (R V : Type) (M : Meaning R V) (ρ : String → R) (r : R),
            e'.denote M (Function.update ρ new r) = e.denote M (Function.update ρ old r)) ∧
          e'.rebase new old = some e) := by
  refine ⟨Expr.rebase_eq_none, ?_⟩
  intro e' he'
  obtain ⟨hsubquery, rfl⟩ := Expr.rebase_eq_some.mp he'
  refine ⟨fun hne => not_mem_sources_rename hne e, ?_⟩
  intro hnew
  constructor
  · intro R V M ρ r
    apply denote_rename M hsubquery
    intro source hsource
    have hsource_ne : source ≠ new := fun heq => hnew (heq ▸ hsource)
    exact update_renamed hsource_ne r
  · apply Expr.rebase_eq_some.mpr
    exact ⟨(hasSubquery_rename old new e).trans hsubquery, (rename_rename hnew).symm⟩

/-- The name that is shown for a part: its code without the marks of a supplier where it has no
    name, and else its name cut off, with the marks after it. -/
def shownName (part : String) : Expr :=
  .case [⟨.isNull (.column part "NAME") false,
      .trim (some .both) (some (.column "s" "MARKS")) (.column part "CODE")⟩]
    (some (.binary (.substring (.column part "NAME") (.int 1) (some (.column part "WIDTH"))) .concat
      (.column "s" "MARKS")))

theorem rebase_substitutes_shownName :
    (shownName "p").rebase "p" "t0" = some (shownName "t0") ∧ "p" ≠ "t0" ∧
      "t0" ∉ (shownName "p").sources ∧ "p" ∉ (shownName "t0").sources ∧
      (∀ (R V : Type) (M : Meaning R V) (ρ : String → R) (r : R),
        (shownName "t0").denote M (Function.update ρ "t0" r)
          = (shownName "p").denote M (Function.update ρ "p" r)) ∧
      (shownName "t0").rebase "t0" "p" = some (shownName "p") := by
  have hrebase : (shownName "p").rebase "p" "t0" = some (shownName "t0") := rfl
  have hne : "p" ≠ "t0" := by decide
  have hnew : "t0" ∉ (shownName "p").sources := by decide
  obtain ⟨-, hgiven⟩ := rebase_substitutes (shownName "p") "p" "t0"
  obtain ⟨hold, hmoved⟩ := hgiven _ hrebase
  exact ⟨hrebase, hne, hnew, hold hne, hmoved hnew⟩

end QueryLoom.Sql

/-
  QueryLoom/Proofs/Scoping/Copies.lean
  ====================================
  **What an expression is made of, and how often.**  An operator writes each of its operands once,
  and so do most operations.  The tests whether a text is null or empty and whether a text ends in
  another write one operand twice (`Expr.Repeats`), with all derived tables in it.

    * `Portion.MadeOf` — a portion has the derived tables of the portions that it is made of, each
      of them once if no operand with derived tables is written twice;
    * `once_of_nodup` — derived tables without repetition come from operands that are written once;
    * `Template.madeOf_of_build?`, `Adjustment.madeOf_result`, `madeOf_asValue` — an operation is
      made of its operands, and an expression stays what it is as a value or as a condition.
-/
import QueryLoom.Proofs.Scoping.Derived
import QueryLoom.Proofs.Scoping.Statement

namespace QueryLoom.Sql

/-! ### Operands that are written twice -/

/-- The expression is one that an operation makes which writes the operand `x` twice. -/
def Expr.Repeats (e x : Expr) : Prop :=
  (∃ trimmed, (Template.isNullOrEmpty trimmed).build? [x] = some e) ∨
    ∃ text, Template.endsWith.build? [text, x] = some e

/-- No operand with derived tables is written twice in the portion. -/
def Portion.Once (p : Portion) : Prop := ∀ e ∈ p.walked, ∀ x, e.Repeats x → x.portion.tables = []

theorem Portion.Once.mono {p p' : Portion} (h : p'.Once) (hwalked : p.walked ⊆ p'.walked) :
    p.Once :=
  fun e he => h e (hwalked he)

/-- An operand that is written twice is walked twice. -/
theorem Expr.Repeats.walk_sublist {e x : Expr} (h : e.Repeats x) :
    (x.walk ++ x.walk).Sublist e.walk := by
  rcases h with ⟨trimmed, h⟩ | ⟨text, h⟩
  · cases h
    have hcompared : x.walk.Sublist (if trimmed then Expr.trim none none x else x).walk := by
      cases trimmed with
      | true => exact walk_sublist_of_mem_operands List.mem_cons_self
      | false => exact List.Sublist.refl _
    have hleft : x.walk.Sublist (Expr.isNull x false).walk :=
      walk_sublist_of_mem_operands List.mem_cons_self
    rw [Expr.walk]
    exact (hleft.append (hcompared.trans (walk_sublist_of_mem_operands List.mem_cons_self))).cons _
  · cases h
    have hlength : x.walk.Sublist (Expr.function "CHAR_LENGTH" [x]).walk :=
      walk_sublist_of_mem_operands List.mem_cons_self
    have hright : (Expr.function "CHAR_LENGTH" [x]).walk.Sublist
        (Expr.function "RIGHT" [text, .function "CHAR_LENGTH" [x]]).walk :=
      walk_sublist_of_mem_operands (List.mem_cons_of_mem _ List.mem_cons_self)
    rw [Expr.walk]
    exact ((hlength.trans hright).append (List.Sublist.refl _)).cons _

/-- Where no alias is there twice, no operand with derived tables is written twice. -/
theorem once_of_nodup {s : Select} (h : (s.portion.tables.map DerivedTable.source).Nodup) :
    s.portion.Once := by
  intro e he x hx
  have htwice : (x.portion.tables ++ x.portion.tables).Sublist s.portion.tables := by
    have hwalked := hx.walk_sublist.trans (walk_sublist_of_mem_walk_select s he)
    rw [tables_expr, ← List.flatMap_append]
    exact (hwalked.flatMap Expr.spine).trans (List.sublist_append_right _ _)
  have hnodup := h.sublist (htwice.map DerivedTable.source)
  rw [List.map_append, List.nodup_append] at hnodup
  cases htables : x.portion.tables with
  | nil => rfl
  | cons t rest =>
    rw [htables] at hnodup
    exact absurd rfl (hnodup.2.2 t.source List.mem_cons_self t.source List.mem_cons_self)

/-! ### Portions of portions -/

/-- The portion has the derived tables of the given ones, and each as often, unless an operand is
    written twice. -/
structure Portion.MadeOf (p : Portion) (ps : List Portion) : Prop where
  subset : p.tables ⊆ ps.flatMap Portion.tables
  once : p.Once → ∀ o ∈ ps, o.Once
  perm : p.Once → p.tables.Perm (ps.flatMap Portion.tables)

/-- Portions whose derived tables are the same in number make up the portion if all that is walked
    in them is walked in it. -/
theorem madeOf_of_perm {p : Portion} {ps : List Portion}
    (hwalked : ∀ o ∈ ps, o.walked ⊆ p.walked) (hperm : p.tables.Perm (ps.flatMap Portion.tables)) :
    p.MadeOf ps where
  subset := hperm.subset
  once honce o ho := honce.mono (hwalked o ho)
  perm _ := hperm

/-- An expression that is no test has the derived tables of its operands. -/
theorem madeOf_operands {e : Expr} (h : e.isExists = false) :
    e.portion.MadeOf (e.operands.map Expr.portion) := by
  refine madeOf_of_perm ?_ (List.Perm.of_eq ?_)
  · intro p hp
    obtain ⟨o, ho, rfl⟩ := List.mem_map.mp hp
    exact walk_subset_of_mem_operands ho
  · have hspine : e.spine = [] := by
      cases e with
      | existsRow rows => cases h
      | _ => rfl
    rw [tables_expr, walk_eq h, List.flatMap_cons, hspine, List.nil_append, List.flatMap_assoc,
      List.flatMap_map]
    rfl

theorem madeOf_existsRow (rows : Select) : (Expr.existsRow rows).portion.MadeOf [rows.portion] := by
  refine madeOf_of_perm ?_ (List.Perm.of_eq ?_)
  · rw [List.forall_mem_singleton]
    exact List.subset_cons_self _ _
  · rw [List.flatMap_singleton]
    rfl

/-! ### Operations -/

section Operations

theorem once_literal (v : Value) : (Expr.literal v).portion.Once := by
  intro e he x hx
  rw [Expr.portion, Expr.walk, List.mem_singleton] at he
  rw [he] at hx
  rcases hx with ⟨_, h⟩ | ⟨_, h⟩ <;> cases h

theorem madeOf_self (p : Portion) : p.MadeOf [p] :=
  madeOf_of_perm (List.forall_mem_singleton.mpr (List.Subset.refl _))
    (List.Perm.of_eq (List.flatMap_singleton ..).symm)

theorem Portion.MadeOf.of_perm {p : Portion} {ps qs : List Portion} (h : p.MadeOf ps)
    (hps : ps.Perm qs) : p.MadeOf qs where
  subset := List.Subset.trans h.subset (hps.flatMap_right _).subset
  once honce o ho := h.once honce o (hps.mem_iff.mpr ho)
  perm honce := (h.perm honce).trans (hps.flatMap_right _)

theorem Portion.MadeOf.trans {p q : Portion} {ps : List Portion} (h : p.MadeOf [q])
    (hq : q.MadeOf ps) : p.MadeOf ps := by
  have honce : p.Once → q.Once := fun honce => h.once honce q List.mem_cons_self
  refine ⟨?_, fun hp => hq.once (honce hp), fun hp => ?_⟩
  · have hsubset := h.subset
    rw [List.flatMap_singleton] at hsubset
    exact List.Subset.trans hsubset hq.subset
  · have hperm := h.perm hp
    rw [List.flatMap_singleton] at hperm
    exact hperm.trans (hq.perm (honce hp))

/-- An operator between an expression and a constant adds nothing to the expression. -/
theorem madeOf_binary_literal (e : Expr) (op : BinaryOperator) (v : Value) :
    (Expr.binary e op (.literal v)).portion.MadeOf [e.portion] := by
  refine madeOf_of_perm ?_ (List.Perm.of_eq ?_)
  · rw [List.forall_mem_singleton]
    exact walk_subset_of_mem_operands List.mem_cons_self
  · simp [tables_expr, Expr.walk, Expr.spine]

/-- What a template adds to its operands are constants. -/
theorem Template.madeOf_of_build? {t : Template} {es : List Expr} {e : Expr}
    (h : t.build? es = some e) : e.portion.MadeOf (es.map Expr.portion) := by
  cases Template.build?_eq_some_iff.mp h with
  | positionFound =>
    refine (madeOf_binary_literal _ _ _).trans ?_
    exact (madeOf_operands rfl).of_perm (List.Perm.swap _ _ _)
  | endsWith text suffix =>
    have htables : (Expr.binary (.function "RIGHT" [text, .function "CHAR_LENGTH" [suffix]]) .equal
        suffix).portion.tables =
          text.portion.tables ++ suffix.portion.tables ++ suffix.portion.tables := by
      simp [tables_expr, Expr.walk, walkList, Expr.spine]
    refine ⟨?_, ?_, ?_⟩
    · rw [htables]
      intro x hx
      simpa using hx
    · intro honce
      have hright : (Expr.function "RIGHT" [text, .function "CHAR_LENGTH" [suffix]]).walk ⊆ _ :=
        walk_subset_of_mem_operands (e := .binary _ .equal suffix) List.mem_cons_self
      have hsuffix : suffix.walk ⊆ _ := walk_subset_of_mem_operands
        (e := .binary (.function "RIGHT" [text, .function "CHAR_LENGTH" [suffix]]) .equal suffix)
        (List.mem_cons_of_mem _ List.mem_cons_self)
      rw [List.map_cons, List.map_cons, List.forall_mem_cons, List.map_nil,
        List.forall_mem_singleton]
      refine ⟨honce.mono (List.Subset.trans ?_ hright), honce.mono hsuffix⟩
      exact walk_subset_of_mem_operands List.mem_cons_self
    · intro honce
      have hsuffix := honce _ List.mem_cons_self suffix (.inr ⟨text, h⟩)
      simp [htables, hsuffix]
  | isNullOrEmpty trimmed text =>
    have htables : (Expr.binary (.isNull text false) .or
        (.binary (if trimmed then Expr.trim none none text else text) .equal
          (.literal (.string "")))).portion.tables =
        text.portion.tables ++ text.portion.tables := by
      cases trimmed <;> simp [tables_expr, Expr.walk, walkOption, Expr.spine]
    refine ⟨?_, ?_, ?_⟩
    · rw [htables]
      intro x hx
      simpa using hx
    · intro honce
      rw [List.map_cons, List.map_nil, List.forall_mem_singleton]
      have hisNull : (Expr.isNull text false).walk ⊆ _ := walk_subset_of_mem_operands
        (e := .binary _ .or (.binary (if trimmed then Expr.trim none none text else text) .equal
          (.literal (.string "")))) List.mem_cons_self
      refine honce.mono (List.Subset.trans ?_ hisNull)
      exact walk_subset_of_mem_operands List.mem_cons_self
    · intro honce
      have htext := honce _ List.mem_cons_self text (.inl ⟨trimmed, h⟩)
      simp [htables, htext]
  | utcTimestamp => exact madeOf_of_perm (List.forall_mem_nil _) (List.Perm.refl _)
  | trimChars | position | dateAdd =>
    exact (madeOf_operands rfl).of_perm (List.Perm.swap _ _ _)
  | _ => exact madeOf_operands rfl

/-- A start counted from one is a constant as well, or the start and a constant. -/
theorem madeOf_oneBased {start start' : Expr} (h : oneBased start = .ok start') :
    start'.portion.MadeOf [start.portion] := by
  unfold oneBased at h
  split at h
  · split at h
    · cases h
    · split at h
      · cases h
      · cases h
        refine ⟨List.nil_subset _, fun _ => ?_, fun _ => List.Perm.refl _⟩
        exact List.forall_mem_singleton.mpr (once_literal _)
  · cases h
    exact madeOf_binary_literal _ _ _

theorem Adjustment.madeOf_result (a : Adjustment) (e : Expr) :
    (a.result e).portion.MadeOf [e.portion] := by
  cases a with
  | none | oneBasedStart => exact madeOf_self _
  | incrementResult | decrementResult => exact madeOf_binary_literal _ _ _
  | truncateResult => exact madeOf_operands rfl

theorem madeOf_asValue (caps : Capabilities) (e : Expr) :
    (asValue caps e).portion.MadeOf [e.portion] := by
  unfold asValue
  split
  · exact madeOf_self _
  · refine madeOf_of_perm ?_ (List.Perm.of_eq ?_)
    · rw [List.forall_mem_singleton]
      exact walk_subset_of_mem_operands List.mem_cons_self
    · simp [tables_expr, Expr.walk, walkWhens, walkOption, Expr.spine, Expr.int]

theorem madeOf_asPredicate (caps : Capabilities) (e : Expr) :
    (asPredicate caps e).portion.MadeOf [e.portion] := by
  unfold asPredicate
  split
  · exact madeOf_self _
  · exact madeOf_binary_literal _ _ _

end Operations

end QueryLoom.Sql

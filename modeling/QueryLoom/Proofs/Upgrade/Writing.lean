/-
  QueryLoom/Proofs/Upgrade/Writing.lean
  =====================================
  **What an older server can be told, a newer one can be told.**  A later version has room for
  every identifier that an earlier one has room for, and whether a constant can be written does
  not depend on the server at all.  Coercions only add ones and zeros, so a statement can be
  written if it can be written with coercions.

    * `Select.writable_of_upgrade` — the same statement for a newer server;
    * `writable_of_coerced` — a statement without the coercions of another server.
-/
import QueryLoom.Proofs.Rendering.Refusal
import QueryLoom.Proofs.Truth.Coercion
import QueryLoom.Proofs.Upgrade.Features

namespace QueryLoom.Sql

variable {old new caps : Capabilities}

theorem isIdentifier_of_upgrade (hup : Upgrade old new) {id : String}
    (h : isIdentifier old id = true) : isIdentifier new id = true := by
  simp only [isIdentifier, Bool.and_eq_true, decide_eq_true_eq] at h ⊢
  exact ⟨h.1, Nat.le_trans h.2 hup.identifiers⟩

/-- Every server can write the constants that one can write. -/
theorem writable_literal {v : Value} (h : Writable old (literal old v)) :
    Writable new (literal new v) := by
  have hsame : ∀ {ps : List Piece}, (∀ id, .name id ∉ ps) → Writable old ps → Writable new ps := by
    intro ps hps hold p hp
    have := hold p hp
    cases p with
    | name id => exact absurd hp (hps id)
    | refused e => cases this
    | _ => rfl
  cases v with
  | boolean b =>
    rw [literal]
    split <;> exact writable_cons.mpr ⟨rfl, writable_nil⟩
  | uuid u =>
    rw [literal]
    split
    · simp
    · exact writable_cons.mpr ⟨rfl, writable_nil⟩
  | _ =>
    refine hsame (fun id => ?_) h
    simp only [literal, integer, signed, binaryNumber, dated, labelled]
    repeat' split
    all_goals simp

mutual

/-- An expression that can be written for a server can be written for a newer one. -/
theorem Expr.writable_of_upgrade (hup : Upgrade old new) (e : Expr)
    (h : Writable old (e.pieces old)) : Writable new (e.pieces new) := by
  cases hop : e.operator? with
  | some op =>
    rw [writable_of_operator hop] at h ⊢
    intro o ho
    have := sizeOf_lt_of_mem_operands ho
    exact Expr.writable_of_upgrade hup o (h o ho)
  | none =>
    cases e with
    | column source name | allColumns source =>
      simp only [Expr.pieces, writable_cons, refusal?_name, refusal?_symbol, writable_nil,
        true_and, and_true] at h ⊢
      first
        | exact h.imp (isIdentifier_of_upgrade hup) (isIdentifier_of_upgrade hup)
        | exact isIdentifier_of_upgrade hup h
    | literal v => exact writable_literal h
    | parameter p => exact writable_cons.mpr ⟨rfl, writable_nil⟩
    | existsRow rows =>
      simp only [Expr.pieces, writable_cons, writable_parenthesized] at h ⊢
      exact ⟨rfl, rfl, Select.writable_of_upgrade hup rows h.2.2⟩
    | _ => cases hop
termination_by sizeOf e

/-- A statement that can be written for a server can be written for a newer one. -/
theorem Select.writable_of_upgrade (hup : Upgrade old new) (s : Select)
    (h : Writable old (s.pieces old)) : Writable new (s.pieces new) := by
  rw [writable_select_iff] at h ⊢
  obtain ⟨hcolumns, horigin, hconditions, hordering, hwindow⟩ := h
  refine ⟨fun c hc => ?_, ?_, fun e he => ?_, fun k hk => ?_, fun w hw => ?_⟩
  · have := sizeOf_lt_of_mem_columns hc
    exact ⟨Expr.writable_of_upgrade hup c.expr (hcolumns c hc).1,
      fun label hlabel => isIdentifier_of_upgrade hup ((hcolumns c hc).2 label hlabel)⟩
  · cases hs : s.origin with
    | table name source =>
      rw [hs] at horigin
      exact horigin.imp (isIdentifier_of_upgrade hup) (isIdentifier_of_upgrade hup)
    | derived rows source =>
      rw [hs] at horigin
      have := sizeOf_lt_of_origin hs
      exact ⟨Select.writable_of_upgrade hup rows horigin.1,
        isIdentifier_of_upgrade hup horigin.2⟩
    | singleRow => trivial
  · have := sizeOf_lt_of_mem_conditions he
    exact Expr.writable_of_upgrade hup e (hconditions e he)
  · have := sizeOf_lt_of_mem_ordering hk
    exact Expr.writable_of_upgrade hup k.expr (hordering k hk)
  · obtain ⟨hlower, hupper⟩ := sizeOf_lt_of_mem_window hw
    refine ⟨Expr.writable_of_upgrade hup w.lower (hwindow w hw).1, fun upper hmem => ?_⟩
    have := hupper upper hmem
    exact Expr.writable_of_upgrade hup upper ((hwindow w hw).2 upper hmem)
termination_by sizeOf s

end

/-! ### Operations -/

@[simp] theorem writable_integer (n : Int) : Writable caps (integer n) := by
  rw [integer, signed]
  split <;> simp [Piece.refusal?]

@[simp] theorem writable_int (n : Int32) : Writable caps ((Expr.int n).pieces caps) :=
  writable_integer n.toInt

theorem writable_of_integer? {v : Value} {n : Int} (h : v.integer? = some n) :
    Writable caps ((Expr.literal v).pieces caps) := by
  cases v <;> first
    | exact writable_integer _
    | cases h

theorem writable_successor (v : Value) (n : Int) :
    Writable caps ((Expr.literal (successor v n)).pieces caps) := by
  unfold successor
  split
  · exact writable_integer _
  · split <;> exact writable_integer _

/-- A start that is counted from one can be written if it can be written as it was. -/
theorem writable_oneBased {start start' : Expr} (h : oneBased start = .ok start') :
    Writable caps (start'.pieces caps) ↔ Writable caps (start.pieces caps) := by
  unfold oneBased at h
  split at h
  · next v =>
    split at h
    · cases h
    · next n hv =>
      split at h <;> cases h
      exact iff_of_true (writable_successor v n) (writable_of_integer? hv)
  · next hstart =>
    cases h
    rw [writable_of_operator rfl]
    simp [Expr.operands]

theorem Adjustment.writable_operands {a : Adjustment} {server : Capabilities} {es es' : List Expr}
    (h : a.operands server es = .ok es') :
    (∀ o ∈ es', Writable caps (o.pieces caps)) ↔ ∀ o ∈ es, Writable caps (o.pieces caps) := by
  rcases operands_eq_ok h with rfl | ⟨text, start, start', rest, rfl, rfl, hstart⟩
  · rfl
  · simp only [List.forall_mem_cons, writable_oneBased hstart]

theorem Adjustment.writable_result {a : Adjustment} {e : Expr} :
    Writable caps ((a.result e).pieces caps) ↔ Writable caps (e.pieces caps) := by
  cases a with
  | none | oneBasedStart => rfl
  | incrementResult | decrementResult | truncateResult =>
    rw [result, writable_of_operator rfl]
    simp [Expr.operands]

theorem writable_binary {l r : Expr} {op : BinaryOperator} :
    Writable caps ((Expr.binary l op r).pieces caps) ↔
      Writable caps (l.pieces caps) ∧ Writable caps (r.pieces caps) := by
  rw [writable_of_operator rfl]
  simp [Expr.operands]

theorem writable_function {name : String} {args : List Expr} :
    Writable caps ((Expr.function name args).pieces caps) ↔
      ∀ o ∈ args, Writable caps (o.pieces caps) := writable_of_operator rfl

/-- Nothing that a template adds to its operands is refused. -/
theorem Template.writable_of_build? {t : Template} {es : List Expr} {e : Expr}
    (h : t.build? es = some e) :
    Writable caps (e.pieces caps) ↔ ∀ o ∈ es, Writable caps (o.pieces caps) := by
  cases Template.build?_eq_some_iff.mp h with
  | positionFound =>
    rw [writable_binary, writable_of_operator rfl]
    simp [Expr.operands, and_comm]
  | endsWith =>
    rw [writable_binary, writable_function]
    simp only [List.forall_mem_cons, writable_function]
    simp
  | isNullOrEmpty trimmed text =>
    have hnull : Writable caps ((Expr.isNull text false).pieces caps) ↔
        Writable caps (text.pieces caps) := by
      rw [writable_of_operator rfl]
      simp [Expr.operands]
    have hcompared :
        Writable caps ((if trimmed then Expr.trim none none text else text).pieces caps) ↔
          Writable caps (text.pieces caps) := by
      split
      · rw [writable_of_operator rfl]
        simp [Expr.operands]
      · rfl
    rw [writable_binary, writable_binary, hnull, hcompared]
    simp [Expr.pieces, literal]
  | utcTimestamp =>
    rw [writable_of_operator rfl]
    simp [Expr.operands, Expr.pieces]
  | _ =>
    rw [writable_of_operator rfl]
    simp [Expr.operands, and_comm]

/-- An operation can be written if its operands can. -/
theorem Mapping.writable_of_apply {x : Mapping} {server : Capabilities} {receiver? : Option Expr}
    {args : List Expr} {e : Expr} (h : x.apply server receiver? args = .ok e) :
    Writable caps (e.pieces caps) ↔
      ∀ o ∈ receiver?.toList ++ args, Writable caps (o.pieces caps) := by
  obtain ⟨operands, built, hoperands, hbuilt, rfl⟩ := Mapping.apply_eq_ok h
  rw [Adjustment.writable_result, Template.writable_of_build? hbuilt,
    Adjustment.writable_operands hoperands]

/-! ### Coercions -/

/-- A coercion can be written where its operand can. -/
theorem writable_placed {condition : Bool} {e : Expr} :
    Writable caps ((placed old condition e).pieces caps) ↔ Writable caps (e.pieces caps) := by
  cases condition <;> simp only [placed, asPredicate, asValue, Bool.false_eq_true, if_true,
    if_false] <;> split
  · rfl
  · rw [writable_of_operator rfl]
    simp [Expr.operands, writable_int]
  · rfl
  · rw [writable_of_operator rfl]
    simp [Expr.operands, writable_int]

theorem inherited_writable : Inherited
    (fun e => Writable caps ((e.coerced old).pieces caps) → Writable caps (e.pieces caps))
    (fun s => Writable caps ((s.coerced old).pieces caps) → Writable caps (s.pieces caps)) where
  expression e operands test h := by
    cases hop : e.operator? with
    | some op =>
      by_cases hcase : ∃ b, op = .case b
      · obtain ⟨b, rfl⟩ := hcase
        cases e <;> cases hop
        exact h
      · rw [writable_of_operator ((operator?_coerced old e).trans hop),
          operands_coerced old hop fun b hb => hcase ⟨b, hb⟩, List.forall_mem_map] at h
        rw [writable_of_operator hop]
        exact fun o ho => operands o ho (writable_placed.mp (h o ho))
    | none =>
      cases e with
      | existsRow rows =>
        simp only [Expr.coerced, Expr.pieces, writable_cons, writable_parenthesized] at h ⊢
        exact ⟨rfl, rfl, test rows rfl h.2.2⟩
      | column | allColumns | literal | parameter => exact h
      | _ => cases hop
  statement s columns conditions ordering origin h := by
    rw [coerced_mk, writable_select_iff] at h
    simp only [List.forall_mem_map] at h
    obtain ⟨hcolumns, horigin, hconditions, hordering, hwindow⟩ := h
    rw [writable_select_iff]
    refine ⟨fun c hc => ⟨columns c hc (writable_placed.mp (hcolumns c hc).1), (hcolumns c hc).2⟩,
      ?_, fun e he => conditions e he (writable_placed.mp (hconditions e he)),
      fun k hk => ordering k hk (writable_placed.mp (hordering k hk)), hwindow⟩
    cases hs : s.origin with
    | table | singleRow =>
      rw [hs] at horigin
      exact horigin
    | derived rows source =>
      rw [hs] at horigin
      exact ⟨origin rows source hs horigin.1, horigin.2⟩

/-- A statement can be written if it can be written with coercions. -/
theorem writable_of_coerced {s : Select} (h : Writable caps ((s.coerced old).pieces caps)) :
    Writable caps (s.pieces caps) := inherited_writable.of_select s h

end QueryLoom.Sql

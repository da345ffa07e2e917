/-
  QueryLoom/Proofs/Truth/Carrying.lean
  ====================================
  **Steps of drafting with coercions.**  An operation is built from coerced operands as from the
  others, and a coerced draft is finished, tested for rows and pushed down as the draft is.  The
  step that is not obvious is a key that a derived table carries: it is found among the
  columns by agreement, and coercions can make a key agree with a column that it does not agree
  with otherwise.  `Select.KeepsKeys` says that they do not.

    * `Mapping.coerced_of_apply` — operations;
    * `carryOrdering_coerced` — the keys that a derived table carries;
    * `finish_coerced`, `existence_coerced`, `gives_pushDown_coerced` — drafts.
-/
import Mathlib.Data.List.Find
import QueryLoom.Proofs.Drafting.Condition
import QueryLoom.Proofs.Meaning.Carried
import QueryLoom.Proofs.Meaning.Scalar
import QueryLoom.Proofs.Truth.Coercion

namespace QueryLoom.Sql

/-! ### Operations -/

section Operations

variable {caps old : Capabilities}

theorem standing_literal (v : Value) (condition : Bool) (h : condition = false) :
    (Expr.literal v).standing caps condition = .literal v := by
  rw [h]
  rfl

/-- A start counted from one is that of the coerced start. -/
theorem oneBased_coerced {start start' coerced : Expr} (h : oneBased start = .ok start')
    (h' : oneBased (start.standing old false) = .ok coerced) :
    coerced = start'.standing old false := by
  cases hliteral : start.literal? with
  | some v =>
    cases start <;> cases hliteral
    rw [standing_literal _ _ rfl, h] at h'
    cases h'
    rcases oneBased_eq_ok h with ⟨w, rfl⟩ | rfl
    · exact (standing_literal _ _ rfl).symm
    · rfl
  | none =>
    have hone : ∀ {e e' : Expr}, e.literal? = none → oneBased e = .ok e' →
        e' = .binary e .add (.int 1) := by
      intro e e' he h
      unfold oneBased at h
      split at h
      · cases he
      · cases h
        rfl
    have hcoerced : (start.coerced old).literal? = none := by
      cases start <;> first
        | rfl
        | cases hliteral
    rw [hone hliteral h, hone ((literal?_asValue old _).trans hcoerced) h']
    rfl

theorem Adjustment.operands_coerced {a : Adjustment} {es es' coerced : List Expr}
    (hone : caps.oneBasedSubstring = old.oneBasedSubstring) (h : a.operands caps es = .ok es')
    (h' : a.operands old (es.map (Expr.standing old false)) = .ok coerced) :
    coerced = es'.map (Expr.standing old false) := by
  unfold Adjustment.operands at h
  split at h
  · rename_i text start rest
    simp only [List.map_cons, Adjustment.operands] at h'
    rw [← hone] at h'
    split at h
    · rename_i hcaps
      rw [if_pos hcaps] at h'
      cases hstart : oneBased start with
      | error e => rw [hstart] at h; cases h
      | ok start' =>
        cases hstart' : oneBased (start.standing old false) with
        | error e => rw [hstart'] at h'; cases h'
        | ok coerced' =>
          rw [hstart] at h
          rw [hstart'] at h'
          cases h
          cases h'
          rw [oneBased_coerced hstart hstart']
          rfl
    · rename_i hcaps
      rw [if_neg hcaps] at h'
      cases h
      cases h'
      rfl
  · rename_i hshape
    cases h
    have hsame : a.operands old (es.map (Expr.standing old false))
        = .ok (es.map (Expr.standing old false)) := by
      unfold Adjustment.operands
      split
      · rename_i hes
        rcases es with _ | ⟨text, _ | ⟨start, rest⟩⟩
        · cases hes
        · cases hes
        · exact absurd rfl (hshape text start rest rfl)
      · rfl
    rw [hsame] at h'
    cases h'
    rfl

theorem Template.build?_coerced {t : Template} {es : List Expr} {e : Expr}
    (h : t.build? es = some e) :
    t.build? (es.map (Expr.standing old false)) = some (e.coerced old) := by
  cases Template.build?_eq_some_iff.mp h with
  | function => simp only [Template.build?, Expr.coerced, coercedList_eq_map]
  | isNullOrEmpty trimmed => cases trimmed <;> rfl
  | _ => rfl

/-- An operation on coerced operands is the coerced operation. -/
theorem Mapping.coerced_of_apply {op : Operation} {arity : Nat} {x : Mapping}
    {receiver? : Option Expr} {args : List Expr} {e e' : Expr}
    (hone : caps.oneBasedSubstring = old.oneBasedSubstring) (hx : Mapping.find op arity = .ok x)
    (h : x.apply caps receiver? args = .ok e)
    (h' : x.apply old (receiver?.map (Expr.standing old false))
      (args.map (Expr.standing old false)) = .ok e') : e' = e.coerced old := by
  obtain ⟨operands, built, hoperands, hbuilt, rfl⟩ := Mapping.apply_eq_ok h
  obtain ⟨operands', built', hoperands', hbuilt', rfl⟩ := Mapping.apply_eq_ok h'
  have hgiven : (receiver?.map (Expr.standing old false)).toList
      ++ args.map (Expr.standing old false)
      = (receiver?.toList ++ args).map (Expr.standing old false) := by
    cases receiver? <;> simp
  rw [hgiven] at hoperands'
  rw [Adjustment.operands_coerced hone hoperands hoperands', Template.build?_coerced hbuilt]
    at hbuilt'
  cases hbuilt'
  obtain ⟨_, hpredicate⟩ := Template.isPredicate_of_build? hbuilt
  have hcomputes := Mapping.isCondition_template x (Mapping.mem_of_find hx)
  have hvalue : x.adjustment.computes = true → built.standing old false = built.coerced old := by
    intro h
    rw [hcomputes h] at hpredicate
    exact standing_value hpredicate
  cases ha : x.adjustment <;> rw [ha] at hvalue
  case none | oneBasedStart => rfl
  case truncateResult =>
    rw [Adjustment.result, Adjustment.result, Expr.coerced, coercedList, coercedList,
      ← Expr.standing, hvalue rfl]
  all_goals
    rw [Adjustment.result, Adjustment.result, Expr.coerced]
    refine congrArg (fun l => Expr.binary l _ (.int 1)) ?_
    exact (hvalue rfl).symm

end Operations

/-! ### Keys -/

section Keys

variable {caps : Capabilities}

theorem standing_eq_allColumns {e : Expr} {source : String} :
    e.standing caps false = .allColumns source ↔ e = .allColumns source := by
  constructor
  · intro h
    simp only [Expr.standing, placed, asValue, Bool.false_eq_true, if_false] at h
    split at h
    · cases e <;> first
        | cases h; rfl
        | simp [Expr.coerced] at h
    · cases h
  · rintro rfl
    rfl

theorem selectsAllColumns_coerced (s : Select) :
    (s.coerced caps).selectsAllColumns = s.selectsAllColumns := by
  rw [Bool.eq_iff_iff, selectsAllColumns_iff, selectsAllColumns_iff, coerced_mk]
  refine exists_congr fun source => and_congr ?_ (by rw [alias?_coerced])
  dsimp only
  rw [List.map_eq_singleton_iff]
  constructor
  · rintro ⟨⟨e, alias?⟩, hcolumns, hc⟩
    simp only [Column.mk.injEq, standing_eq_allColumns] at hc
    rw [hcolumns, hc.1, hc.2]
  · intro hcolumns
    exact ⟨_, hcolumns, rfl⟩

/-- With coercions the key agrees with the columns that it agrees with anyway. -/
def Select.KeepsKey (caps : Capabilities) (s : Select) (key : Expr) : Prop :=
  ∀ c ∈ s.columns,
    (c.expr.standing caps false).agrees (key.standing caps false) = c.expr.agrees key

/-- With coercions every key of the ordering agrees with the columns that it agrees with anyway. -/
def Select.KeepsKeys (caps : Capabilities) (s : Select) : Prop :=
  ∀ k ∈ s.ordering, s.KeepsKey caps k.expr

/-- A coerced statement has the coerced key in a column where the statement has the key in one. -/
theorem columnOf?_coerced {s : Select} {key : Expr} (hkey : s.KeepsKey caps key) :
    (s.coerced caps).columnOf? (key.standing caps false) = s.columnOf? key := by
  rw [coerced_mk, Select.columnOf?, Select.columnOf?, List.find?_map, Option.bind_map]
  exact congrArg (fun c? => Option.bind c? Column.alias?) (List.find?_congr hkey)

/-- A coerced statement carries the coerced key. -/
theorem carry_coerced {s : Select} {key : Expr} (hkey : s.KeepsKey caps key) (source : String) :
    (s.coerced caps).carry source (key.standing caps false)
      = (s.carry source key).map (Expr.standing caps false) := by
  unfold Select.carry
  rw [columnOf?_coerced hkey, selectsAllColumns_coerced]
  cases s.columnOf? key with
  | some name => rfl
  | none =>
    dsimp only
    split
    · rw [coerced_mk]
      dsimp only
      rw [alias?_coerced]
      cases s.origin.alias? with
      | none => rfl
      | some old =>
        rw [Option.bind_some, Option.bind_some, Expr.rebase, Expr.rebase, Expr.standing,
          hasSubquery_placed, hasSubquery_coerced]
        cases key.hasSubquery with
        | true => rfl
        | false =>
          rw [← Expr.standing, rename_standing]
          rfl
    · rfl

/-- The keys of an ordering, as they stand where coercions are needed. -/
abbrev standingKeys (caps : Capabilities) (keys : List OrderKey) : List OrderKey :=
  keys.map fun k => ⟨k.expr.standing caps false, k.direction⟩

/-- A coerced statement carries the coerced ordering. -/
theorem carryOrdering_coerced {s : Select} (hkeys : s.KeepsKeys caps) (source : String) :
    (s.coerced caps).carryOrdering source
      = (s.carryOrdering source).map (standingKeys caps) := by
  have hordering : (s.coerced caps).ordering = standingKeys caps s.ordering := by
    rw [coerced_mk]
  have hcarry : ∀ k ∈ s.ordering, (s.coerced caps).carry source (k.expr.standing caps false)
      = (s.carry source k.expr).map (Expr.standing caps false) :=
    fun k hk => carry_coerced (hkeys k hk) source
  rw [Select.carryOrdering, Select.carryOrdering, hordering]
  refine mapM_map_of_forall fun k hk => ?_
  rw [hcarry k hk]
  cases s.carry source k.expr <;> rfl

end Keys

/-! ### Drafts -/

/-- The draft with coercions wherever a place demands one. -/
def Draft.coerced (d : Draft) (caps : Capabilities) : Draft :=
  { d with select := d.select.coerced caps }

section Drafts

variable {caps : Capabilities} {d : Draft} {source : String}

theorem finalColumns_coerced (d : Draft) (source : String) :
    (d.coerced caps).finalColumns source
      = (d.finalColumns source).map fun c => ⟨c.expr.standing caps false, c.alias?⟩ := by
  rw [Draft.finalColumns, Draft.finalColumns, Draft.coerced, coerced_mk]
  cases d.select.columns <;> rfl

theorem source_coerced (h : d.select.origin.alias? = some source) :
    (d.coerced caps).select.origin.alias? = some source := by
  rw [Draft.coerced, coerced_mk]
  exact (alias?_coerced caps _).trans h

/-- The statement of a coerced draft is the coerced statement. -/
theorem finish_coerced (h : d.select.origin.alias? = some source) {s' : Select} :
    (d.coerced caps).finish = .ok s' ↔ ∃ s, d.finish = .ok s ∧ s' = s.coerced caps := by
  have hfinal : ∀ w,
      ({ (d.coerced caps).select with
        columns := (d.coerced caps).finalColumns source, window? := w } : Select)
      = Select.coerced caps { d.select with columns := d.finalColumns source, window? := w } := by
    intro w
    rw [finalColumns_coerced, Draft.coerced, coerced_mk, coerced_mk]
  simp only [Draft.finish_eq_ok h, Draft.finish_eq_ok (source_coerced h), hfinal]
  constructor
  · rintro ⟨w, hw, rfl⟩
    exact ⟨_, ⟨w, hw, rfl⟩, rfl⟩
  · rintro ⟨_, ⟨w, hw, rfl⟩, rfl⟩
    exact ⟨w, hw, rfl⟩

theorem existence_coerced (h : d.select.origin.alias? = some source) {s' : Select} :
    (d.coerced caps).existence = .ok s' ↔ ∃ s, d.existence = .ok s ∧ s' = s.coerced caps := by
  have hexistence : ∀ w, ({ (d.coerced caps).select with
      columns := [⟨.int 1, none⟩]
      ordering := if (d.coerced caps).isPaged then (d.coerced caps).select.ordering else []
      window? := w } : Select)
      = ({ d.select with
        columns := [⟨.int 1, none⟩]
        ordering := if d.isPaged then d.select.ordering else []
        window? := w } : Select).coerced caps := by
    intro w
    have hpaged : (d.coerced caps).isPaged = d.isPaged := rfl
    rw [hpaged, Draft.coerced, coerced_mk, coerced_mk]
    cases d.isPaged <;> rfl
  simp only [Draft.existence_eq_ok h, Draft.existence_eq_ok (source_coerced h), hexistence]
  constructor
  · rintro ⟨w, hw, rfl⟩
    exact ⟨_, ⟨w, hw, rfl⟩, rfl⟩
  · rintro ⟨_, ⟨w, hw, rfl⟩, rfl⟩
    exact ⟨w, hw, rfl⟩

theorem filtered_coerced (d : Draft) (e : Expr) :
    (d.coerced caps).filtered (asPredicate caps (e.coerced caps))
      = (d.filtered e).coerced caps := by
  simp only [Draft.coerced, Draft.filtered, coerced_mk, List.map_append]
  rfl

theorem ordered_coerced (d : Draft) (e : Expr) (direction : Direction) :
    (d.coerced caps).ordered ⟨asValue caps (e.coerced caps), direction⟩
      = (d.ordered ⟨e, direction⟩).coerced caps := by
  simp only [Draft.coerced, Draft.ordered, coerced_mk, List.map_append]
  rfl

theorem projecting_coerced (d : Draft) (cs : List Column) :
    (d.coerced caps).projecting (cs.map fun c => ⟨c.expr.standing caps false, c.alias?⟩)
      = (d.projecting cs).coerced caps := by
  simp only [Draft.coerced, Draft.projecting, coerced_mk]

theorem coerced_derived (rows : Select) (source : String) (ordering : List OrderKey) :
    ({ Select.reading (.derived rows source) with ordering } : Select).coerced caps
      = { Select.reading (.derived (rows.coerced caps) source) with
          ordering := standingKeys caps ordering } := by
  rw [coerced_mk]
  rfl

/-- The rows of a derived table have no order, with coercions or without. -/
theorem inner_coerced (s : Select) :
    (if (s.coerced caps).isPaged then s.coerced caps else { s.coerced caps with ordering := [] })
      = (if s.isPaged then s else { s with ordering := [] }).coerced caps := by
  have hpaged : (s.coerced caps).isPaged = s.isPaged := by
    rw [coerced_mk]
    rfl
  rw [hpaged]
  cases s.isPaged with
  | true => rfl
  | false =>
    rw [if_neg (by simp), if_neg (by simp), coerced_mk, coerced_mk]
    rfl

/-- To push a coerced draft down is to push the draft down and to put in coercions. -/
theorem gives_pushDown_coerced (h : d.select.origin.alias? = some source)
    (hkeys : ∀ s, d.finish = .ok s → s.KeepsKeys caps) {d' : Draft} {n m : Naming} :
    Gives (pushDown (d.coerced caps)) n d' m ↔
      ∃ d₁, Gives (pushDown d) n d₁ m ∧ d' = d₁.coerced caps := by
  have hpushed : ∀ (s : Select) (ordering : List OrderKey),
      ({ select := { Select.reading (.derived (if (s.coerced caps).isPaged then s.coerced caps
          else { s.coerced caps with ordering := [] }) (Text.numbered "t" n.next)) with
            ordering := standingKeys caps ordering }
         row := ⟨d.row.logical, Text.numbered "t" n.next⟩ } : Draft)
      = Draft.coerced { select := { Select.reading (.derived
            (if s.isPaged then s else { s with ordering := [] }) (Text.numbered "t" n.next)) with
              ordering }
                        row := ⟨d.row.logical, Text.numbered "t" n.next⟩ } caps := by
    intro s ordering
    rw [inner_coerced, Draft.coerced, coerced_derived]
  constructor
  · intro hpush
    obtain ⟨inner', ordering', hfinish', hcarry', hm, rfl⟩ := gives_pushDown.mp hpush
    obtain ⟨inner, hfinish, rfl⟩ := (finish_coerced h).mp hfinish'
    rw [carryOrdering_coerced (hkeys inner hfinish)] at hcarry'
    cases hcarry : inner.carryOrdering (Text.numbered "t" n.next) with
    | error e =>
      rw [hcarry] at hcarry'
      cases hcarry'
    | ok ordering =>
      rw [hcarry] at hcarry'
      cases hcarry'
      exact ⟨_, gives_pushDown.mpr ⟨inner, ordering, hfinish, hcarry, hm, rfl⟩,
        hpushed inner ordering⟩
  · rintro ⟨d₁, hpush, rfl⟩
    obtain ⟨inner, ordering, hfinish, hcarry, hm, rfl⟩ := gives_pushDown.mp hpush
    refine gives_pushDown.mpr ⟨inner.coerced caps, standingKeys caps ordering,
      (finish_coerced h).mpr ⟨inner, hfinish, rfl⟩, ?_, hm, (hpushed inner ordering).symm⟩
    rw [carryOrdering_coerced (hkeys inner hfinish), hcarry]
    rfl

theorem gives_pushDownIf_coerced (h : d.select.origin.alias? = some source)
    (hkeys : ∀ s, d.finish = .ok s → s.KeepsKeys caps) {needed : Bool} {d' : Draft}
    {n m : Naming} : Gives (pushDownIf needed (d.coerced caps)) n d' m ↔
      ∃ d₁, Gives (pushDownIf needed d) n d₁ m ∧ d' = d₁.coerced caps := by
  simp only [gives_pushDownIf]
  cases needed with
  | true => exact gives_pushDown_coerced h hkeys
  | false =>
    constructor
    · rintro ⟨rfl, rfl⟩
      exact ⟨d, ⟨rfl, rfl⟩, rfl⟩
    · rintro ⟨_, ⟨rfl, rfl⟩, rfl⟩
      exact ⟨rfl, rfl⟩

end Drafts

end QueryLoom.Sql

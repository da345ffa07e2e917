/-
  QueryLoom/Proofs/Scoping/Fresh.lean
  ===================================
  **Aliases of derived tables are new.**  A derived table is numbered when a draft is pushed down.
  Its number is the first from the counter on whose alias no table of the query has, and the
  counter goes past it.  So what one step of drafting makes has numbers between the counters before
  and after the step, and what two steps make has different numbers.

  Nearly everything that is drafted once is written once.  The tests whether a text is null or
  empty and whether a text ends in another write an operand twice, and a test for rows in that
  operand is written twice with the same aliases.

    * `Apart` — portions with numbers in a range of their own, and no number in two of them;
    * `fresh_of_gives_expression`, `numbered_of_gives_sequence` — what drafting makes is such;
    * `Naming.isLeast_next` — where the search for an alias ends;
    * `aliases_of_ofQuery` — the derived tables of a statement.
-/
import Mathlib.Algebra.Group.Nat.Defs
import Mathlib.Data.List.Pairwise
import Mathlib.Order.Bounds.Basic
import QueryLoom.Proofs.Drafting.Counter
import QueryLoom.Proofs.Scoping.Copies

namespace QueryLoom.Sql

/-! ### Numbers in a range -/

section Numbers

variable {taken : List String} {lo mid hi : Nat} {p q : Portion} {ps qs : List Portion}

/-- The derived tables of the portion have numbers from `lo` on and below `hi`, and no alias that is
    taken.  Equal aliases are those of copies of one derived table, and there are none where no
    operand is written twice. -/
structure Portion.Fresh (taken : List String) (lo hi : Nat) (p : Portion) : Prop where
  numbered : ∀ t ∈ p.tables,
    t.source ∉ taken ∧ ∃ i, lo ≤ i ∧ i < hi ∧ t.source = Text.numbered "t" i
  copies : ∀ t ∈ p.tables, ∀ t' ∈ p.tables, t.source = t'.source → t = t'
  nodup : p.Once → (p.tables.map DerivedTable.source).Nodup

/-- No derived table of the one portion has the alias of one of the other. -/
def Portion.Disjoint (p q : Portion) : Prop :=
  ∀ t ∈ p.tables, ∀ t' ∈ q.tables, t.source ≠ t'.source

/-- Derived tables of the two portions that have one alias are copies of one derived table. -/
def Portion.Copies (p q : Portion) : Prop :=
  ∀ t ∈ p.tables, ∀ t' ∈ q.tables, t.source = t'.source → t = t'

/-- Portions with numbers in a range, and no number in two of them. -/
structure Apart (taken : List String) (lo hi : Nat) (ps : List Portion) : Prop where
  fresh : ∀ p ∈ ps, p.Fresh taken lo hi
  disjoint : ps.Pairwise Portion.Disjoint

theorem Portion.Disjoint.symm (h : p.Disjoint q) : q.Disjoint p :=
  fun t ht t' ht' => (h t' ht' t ht).symm

theorem Portion.Copies.symm (h : p.Copies q) : q.Copies p := by
  intro t ht t' ht' heq
  exact (h t' ht' t ht heq.symm).symm

/-- Portions that are apart have copies of their derived tables inside of one portion only. -/
theorem Apart.copies (h : Apart taken lo hi ps) (hp : p ∈ ps) (hq : q ∈ ps) : p.Copies q := by
  have hsymm : Std.Symm Portion.Copies := ⟨fun _ _ => Portion.Copies.symm⟩
  have hdisjoint : ps.Pairwise Portion.Copies := by
    apply h.disjoint.imp
    intro p q hdisjoint t ht t' ht' heq
    exact absurd heq (hdisjoint t ht t' ht')
  exact List.Pairwise.forall_of_forall (fun p hp => (h.fresh p hp).copies) hdisjoint hp hq

theorem Portion.Fresh.widen {lo' hi' : Nat} (h : p.Fresh taken lo hi) (hlo : lo' ≤ lo)
    (hhi : hi ≤ hi') : p.Fresh taken lo' hi' := by
  refine { h with numbered := fun t ht => ?_ }
  obtain ⟨hfree, i, hfrom, hbelow, hsource⟩ := h.numbered t ht
  exact ⟨hfree, i, Nat.le_trans hlo hfrom, Nat.lt_of_lt_of_le hbelow hhi, hsource⟩

/-- Portions with numbers in ranges that do not meet. -/
theorem Portion.Fresh.disjoint (hp : p.Fresh taken lo mid) (hq : q.Fresh taken mid hi) :
    p.Disjoint q := by
  intro t ht t' ht' heq
  obtain ⟨-, i, -, hbelow, hsource⟩ := hp.numbered t ht
  obtain ⟨-, j, hfrom, -, hsource'⟩ := hq.numbered t' ht'
  have hij : i = j := by
    apply Text.numbered_injective "t"
    rw [← hsource, ← hsource', heq]
  omega

theorem fresh_of_tables_eq_nil (h : p.tables = []) : p.Fresh taken lo hi := by
  refine ⟨?_, ?_, ?_⟩
  all_goals simp [h]

theorem apart_nil : Apart taken lo hi [] := ⟨List.forall_mem_nil _, .nil⟩

theorem Portion.Fresh.apart (h : p.Fresh taken lo hi) : Apart taken lo hi [p] :=
  ⟨List.forall_mem_singleton.mpr h, List.pairwise_singleton _ _⟩

theorem Apart.sublist (h : Apart taken lo hi ps) (hsub : qs.Sublist ps) : Apart taken lo hi qs :=
  ⟨fun q hq => h.fresh q (hsub.subset hq), h.disjoint.sublist hsub⟩

theorem Apart.of_perm (h : Apart taken lo hi ps) (hperm : ps.Perm qs) : Apart taken lo hi qs :=
  ⟨fun q hq => h.fresh q (hperm.mem_iff.mpr hq),
    h.disjoint.perm hperm fun hdisjoint => hdisjoint.symm⟩

theorem Apart.append (hps : Apart taken lo mid ps) (hqs : Apart taken mid hi qs) (hlo : lo ≤ mid)
    (hhi : mid ≤ hi) : Apart taken lo hi (ps ++ qs) := by
  refine ⟨?_, List.pairwise_append.mpr ⟨hps.disjoint, hqs.disjoint, ?_⟩⟩
  · rw [List.forall_mem_append]
    exact ⟨fun p hp => (hps.fresh p hp).widen (Nat.le_refl lo) hhi,
      fun q hq => (hqs.fresh q hq).widen hlo (Nat.le_refl hi)⟩
  · exact fun p hp q hq => (hps.fresh p hp).disjoint (hqs.fresh q hq)

/-- Portions without derived tables are apart from all others. -/
theorem Apart.append_of_tables_eq_nil (h : Apart taken lo hi ps) (hqs : ∀ q ∈ qs, q.tables = []) :
    Apart taken lo hi (ps ++ qs) := by
  refine ⟨?_, List.pairwise_append.mpr ⟨h.disjoint, ?_, ?_⟩⟩
  · rw [List.forall_mem_append]
    exact ⟨h.fresh, fun q hq => fresh_of_tables_eq_nil (hqs q hq)⟩
  · refine List.pairwise_of_forall_mem_list fun q hq q' hq' t ht => ?_
    rw [hqs q hq] at ht
    cases ht
  · intro p hp q hq t ht t' ht'
    rw [hqs q hq] at ht'
    cases ht'

/-- What is made of portions that are apart has their numbers. -/
theorem Portion.MadeOf.fresh (h : p.MadeOf ps) (hps : Apart taken lo hi ps) :
    p.Fresh taken lo hi := by
  refine ⟨?_, ?_, ?_⟩
  · intro t ht
    obtain ⟨o, ho, ht⟩ := List.mem_flatMap.mp (h.subset ht)
    exact (hps.fresh o ho).numbered t ht
  · intro t ht t' ht'
    obtain ⟨o, ho, ht⟩ := List.mem_flatMap.mp (h.subset ht)
    obtain ⟨o', ho', ht'⟩ := List.mem_flatMap.mp (h.subset ht')
    exact hps.copies ho ho' t ht t' ht'
  · intro honce
    rw [((h.perm honce).map DerivedTable.source).nodup_iff, List.map_flatMap, List.nodup_flatMap]
    refine ⟨fun o ho => (hps.fresh o ho).nodup (h.once honce o ho), hps.disjoint.imp ?_⟩
    intro o o' hdisjoint source hsource hsource'
    obtain ⟨t, ht, rfl⟩ := List.mem_map.mp hsource
    obtain ⟨t', ht', heq⟩ := List.mem_map.mp hsource'
    exact hdisjoint t ht t' ht' heq.symm

/-- Portions stay apart when something is added to each that has no derived tables. -/
theorem Apart.forall₂ (h : Apart taken lo hi ps)
    (hqs : List.Forall₂ (fun p q => q.MadeOf [p]) ps qs) : Apart taken lo hi qs := by
  have hsubset : ∀ {p q : Portion}, q.MadeOf [p] → q.tables ⊆ p.tables := by
    intro p q hq
    have := hq.subset
    rwa [List.flatMap_singleton] at this
  induction hqs with
  | nil => exact h
  | @cons p q ps qs hq hqs ih =>
    obtain ⟨hfirst, hrest⟩ := List.pairwise_cons.mp h.disjoint
    obtain ⟨hp, hps⟩ := List.forall_mem_cons.mp h.fresh
    have hrest := ih ⟨hps, hrest⟩
    refine ⟨List.forall_mem_cons.mpr ⟨hq.fresh hp.apart, hrest.fresh⟩,
      List.pairwise_cons.mpr ⟨?_, hrest.disjoint⟩⟩
    intro q' hq' t ht t' ht'
    obtain ⟨i, hi, rfl⟩ := List.getElem_of_mem hq'
    have hi' : i < ps.length := by
      rw [hqs.length_eq]
      exact hi
    have hmade := hqs.get hi' hi
    exact hfirst ps[i] (List.getElem_mem hi') t (hsubset hq ht) t' (hsubset hmade ht')

end Numbers

/-! ### Statements -/

section Statements

variable {taken : List String} {lo mid hi : Nat} {n m k : Naming} {d d' : Draft} {s : Select}

theorem perm_insert {α : Type} (before after as : List α) :
    (before ++ after ++ as).Perm (before ++ as ++ after) := by
  rw [List.append_assoc, List.append_assoc]
  exact List.perm_append_comm.append_left before

theorem Apart.insert {before after qs : List Portion} (h : Apart taken lo mid (before ++ after))
    (hqs : Apart taken mid hi qs) (hlo : lo ≤ mid) (hhi : mid ≤ hi) :
    Apart taken lo hi (before ++ qs ++ after) :=
  (h.append hqs hlo hhi).of_perm (perm_insert before after qs)

/-- The origin of a statement and the expressions of its clauses, windows left out. -/
def Select.portions (s : Select) : List Portion :=
  s.origin.portion :: (s.columns.map (fun c => c.expr.portion) ++ s.conditions.map Expr.portion
    ++ s.ordering.map fun k => k.expr.portion)

theorem tables_of_not_exists {e : Expr} (h : ∀ rows, .existsRow rows ∉ e.parts) :
    e.portion.tables = [] := by
  rw [tables_expr, List.flatMap_eq_nil_iff]
  intro x hx
  cases x with
  | existsRow rows =>
    rcases reached_of_mem_walk e hx with hpart | ⟨rows', hpart, -⟩
    · exact absurd hpart (h rows)
    · exact absurd hpart (h rows')
  | _ => rfl

theorem walk_subset_of_origin (s : Select) : s.origin.walk ⊆ s.walk := by
  rcases s with ⟨columns, origin, conditions, ordering, window?⟩
  intro x hx
  simp only [Select.walk, List.mem_append]
  exact .inl (.inl (.inl (.inr hx)))

/-- A statement whose window has no tests is made of its origin and its other clauses. -/
theorem madeOf_portions (hwindow : ∀ w, s.window? = some w →
    ∀ e ∈ w.lower :: w.upper?.toList, e.ReadsNothing) : s.portion.MadeOf s.portions := by
  refine madeOf_of_perm ?_ ?_
  · have hclause : ∀ e ∈ s.clauses, e.portion.walked ⊆ s.portion.walked :=
      fun e he => walk_subset_of_mem_clauses he
    simp only [Select.clauses, List.forall_mem_append, List.forall_mem_map] at hclause
    simp only [Select.portions, List.forall_mem_cons, List.forall_mem_append, List.forall_mem_map]
    exact ⟨walk_subset_of_origin s, hclause.1.1, hclause.1.2⟩
  · have hwindow : ((s.window?.toList.flatMap fun w => w.lower :: w.upper?.toList).map
        Expr.walk).flatten.flatMap Expr.spine = [] := by
      rw [← List.flatMap_def, List.flatMap_assoc, List.flatMap_eq_nil_iff]
      intro e he
      obtain ⟨w, hw, he⟩ := List.mem_flatMap.mp he
      exact tables_of_not_exists (hwindow w (Option.mem_toList.mp hw) e he).not_exists
    rw [Portion.tables, Select.portion, s.walk_eq, s.spine_eq]
    rw [List.flatten_append, List.flatMap_append, hwindow, List.append_nil]
    simp only [List.flatten_append, List.flatMap_append, List.flatten_singleton,
      ← List.flatMap_def, List.flatMap_assoc, Select.portions, List.flatMap_cons, List.flatMap_map,
      List.append_assoc, Origin.portion, Portion.tables, Expr.portion, List.nil_append]
    exact (List.perm_append_comm_assoc _ _ _).append_left _

/-- A derived table with a number that is not below the others has a number of its own. -/
theorem fresh_derived {rows : Select} {i : Nat} (h : rows.portion.Fresh taken lo mid)
    (hlo : lo ≤ mid) (hi : mid ≤ i) (hfree : Text.numbered "t" i ∉ taken) :
    (Origin.derived rows (Text.numbered "t" i)).portion.Fresh taken lo (i + 1) := by
  have htables : (Origin.derived rows (Text.numbered "t" i)).portion.tables =
      ⟨Text.numbered "t" i, rows⟩ :: rows.portion.tables := rfl
  have hnew : ∀ t ∈ rows.portion.tables, t.source ≠ Text.numbered "t" i := by
    intro t ht heq
    obtain ⟨-, j, -, hbelow, hsource⟩ := h.numbered t ht
    have hij : i = j := Text.numbered_injective "t" (heq.symm.trans hsource)
    omega
  refine ⟨?_, ?_, fun honce => ?_⟩
  · rw [htables, List.forall_mem_cons]
    refine ⟨⟨hfree, i, by omega, by omega, rfl⟩, ?_⟩
    exact (h.widen (Nat.le_refl lo) (by omega)).numbered
  · rw [htables]
    simp only [List.forall_mem_cons]
    refine ⟨⟨fun _ => trivial, fun t ht heq => absurd heq.symm (hnew t ht)⟩, fun t ht => ?_⟩
    exact ⟨fun heq => absurd heq (hnew t ht), h.copies t ht⟩
  · rw [htables, List.map_cons, List.nodup_cons]
    refine ⟨fun hmem => ?_, h.nodup (honce.mono (List.Subset.refl _))⟩
    obtain ⟨t, ht, heq⟩ := List.mem_map.mp hmem
    exact hnew t ht heq

/-- The clauses of a draft are apart, with the numbers that drafting it gave, and its counts have no
    tests. -/
structure Draft.Numbered (n m : Naming) (d : Draft) : Prop where
  follows : m.Follows n
  portions : Apart n.sourceAliases n.derived m.derived d.select.portions
  counts : ∀ e, d.paging.skip? = some e ∨ d.paging.take? = some e → e.ReadsNothing

theorem Select.portions_bare_sublist (s : Select) : ([s.origin.portion] ++
    (s.conditions.map Expr.portion ++ s.ordering.map fun k => k.expr.portion)).Sublist
      s.portions := by
  rw [Select.portions, List.append_assoc]
  exact (List.sublist_append_right _ _).cons_cons _

theorem portions_columns (s : Select) (columns : List Column) :
    Select.portions { s with columns } = [s.origin.portion] ++
      columns.map (fun c => c.expr.portion) ++
      (s.conditions.map Expr.portion ++ s.ordering.map fun k => k.expr.portion) := by
  simp [Select.portions]

/-- A statement with other columns, which have no tests. -/
theorem Apart.columns (h : Apart taken lo hi s.portions) {columns : List Column}
    (hcolumns : ∀ c ∈ columns, c.expr.portion.tables = []) :
    Apart taken lo hi (Select.portions { s with columns }) := by
  have hbare := h.sublist s.portions_bare_sublist
  rw [portions_columns]
  refine (hbare.append_of_tables_eq_nil (List.forall_mem_map.mpr hcolumns)).of_perm ?_
  exact perm_insert _ _ _

theorem Draft.Numbered.finish (hd : d.Numbered n m) (h : d.finish = .ok s) :
    Apart n.sourceAliases n.derived m.derived s.portions ∧
      ∀ w, s.window? = some w → ∀ e ∈ w.lower :: w.upper?.toList, e.ReadsNothing := by
  obtain ⟨columns, w, hw, hshown, rfl⟩ := Draft.finish_inv h
  refine ⟨?_, readsNothing_of_window? hw hd.counts⟩
  rcases hshown with rfl | ⟨source, rfl⟩
  · exact hd.portions
  · exact hd.portions.columns (List.forall_mem_singleton.mpr rfl)

/-- A finished draft as a whole, with or without its ordering. -/
theorem Draft.Numbered.portion_finish (hd : d.Numbered n m) (h : d.finish = .ok s) {s' : Select}
    (hs' : s' = s ∨ s' = { s with ordering := [] }) :
    s'.portion.Fresh n.sourceAliases n.derived m.derived := by
  obtain ⟨hportions, hwindow⟩ := hd.finish h
  rcases hs' with rfl | rfl
  · exact (madeOf_portions hwindow).fresh hportions
  · refine (madeOf_portions (s := { s with ordering := [] }) hwindow).fresh (hportions.sublist ?_)
    exact ((List.Sublist.refl _).append (List.nil_sublist _)).cons_cons _

theorem Draft.Numbered.existence (hd : d.Numbered n m) (h : d.existence = .ok s) :
    s.portion.Fresh n.sourceAliases n.derived m.derived := by
  have hone : ∀ c ∈ [(⟨.int 1, none⟩ : Column)], c.expr.portion.tables = [] :=
    List.forall_mem_singleton.mpr rfl
  have hkept : Draft.Numbered n m { d with select := { d.select with
      ordering := if d.isPaged then d.select.ordering else [], columns := [⟨.int 1, none⟩] } } := by
    refine ⟨hd.follows, (hd.portions.columns hone).sublist ?_, hd.counts⟩
    refine ((List.Sublist.refl _).append (List.Sublist.map _ ?_)).cons_cons _
    split
    · exact List.Sublist.refl _
    · exact List.nil_sublist _
  exact hkept.portion_finish h (.inl rfl)

theorem Draft.Numbered.pushDown (hd : d.Numbered n m) (h : Gives (pushDown d) m d' k) :
    d'.Numbered n k := by
  obtain ⟨inner, keys, hfinish, hkeys, rfl, rfl⟩ := gives_pushDown.mp h
  have hrows : (if inner.isPaged then inner else { inner with ordering := [] }).portion.Fresh
      n.sourceAliases n.derived m.derived := by
    refine hd.portion_finish hfinish ?_
    split
    · exact .inl rfl
    · exact .inr rfl
  have hfree : Text.numbered "t" m.next ∉ n.sourceAliases := by
    rw [← hd.follows.sourceAliases]
    exact m.numbered_next_not_mem
  have hcarried : ∀ k ∈ keys, k.expr.portion.tables = [] := by
    intro k hk
    obtain ⟨old, -, hcarry⟩ := exists_carry_of_carryOrdering hkeys hk
    refine tables_of_not_exists fun rows hrows => ?_
    rcases carry_eq_some hcarry with ⟨_, _, name, _, _, hkey⟩ | ⟨from', _, _, hsubquery, hkey⟩
    · rw [hkey, Expr.parts, List.mem_singleton] at hrows
      cases hrows
    · rw [hkey, parts_rename] at hrows
      obtain ⟨x, hx, hrenamed⟩ := List.mem_map.mp hrows
      cases x with
      | existsRow rows' => exact not_exists_of_hasSubquery hsubquery rows' hx
      | _ => cases hrenamed
  refine ⟨?_, ?_, ?_⟩
  · exact ⟨hd.follows.scopes, hd.follows.sourceAliases,
      Nat.le_trans hd.follows.derived (Nat.le_succ_of_le m.le_next)⟩
  · have hrows := fresh_derived hrows hd.follows.derived m.le_next hfree
    exact hrows.apart.append_of_tables_eq_nil (List.forall_mem_map.mpr hcarried)
  · rintro e (he | he) <;> cases he

theorem Draft.Numbered.pushDownIf {needed : Bool} (hd : d.Numbered n m)
    (h : Gives (pushDownIf needed d) m d' k) : d'.Numbered n k := by
  rw [gives_pushDownIf] at h
  split at h
  · exact hd.pushDown h
  · obtain ⟨rfl, rfl⟩ := h
    exact hd

/-! ### One clause more -/

theorem Draft.Numbered.insert (hd : d.Numbered n m) (before after : List Portion)
    {ps : List Portion} (hbare : (before ++ after).Sublist d.select.portions)
    (hps : Apart m.sourceAliases m.derived k.derived ps) (hk : k.Follows m)
    (hselect : d'.select.portions = before ++ ps ++ after) (hpaging : d'.paging = d.paging) :
    d'.Numbered n k := by
  refine ⟨hk.trans hd.follows, ?_, ?_⟩
  · rw [hd.follows.sourceAliases] at hps
    rw [hselect]
    exact (hd.portions.sublist hbare).insert hps hd.follows.derived hk.derived
  · rw [hpaging]
    exact hd.counts

theorem Draft.Numbered.filtered (hd : d.Numbered n m) {e : Expr}
    (he : e.portion.Fresh m.sourceAliases m.derived k.derived) (hk : k.Follows m) :
    (d.filtered e).Numbered n k := by
  refine hd.insert (d.select.origin.portion :: (d.select.columns.map _ ++ _)) _
    (List.Sublist.refl _) he.apart hk ?_ rfl
  simp [Select.portions, Draft.filtered]

theorem Draft.Numbered.ordered (hd : d.Numbered n m) {key : OrderKey}
    (hkey : key.expr.portion.Fresh m.sourceAliases m.derived k.derived) (hk : k.Follows m) :
    (d.ordered key).Numbered n k := by
  refine hd.insert d.select.portions [] ?_ hkey.apart hk ?_ rfl
  · rw [List.append_nil]
  · simp [Select.portions, Draft.ordered]

theorem Draft.Numbered.projecting (hd : d.Numbered n m) {cs : List Column}
    (hcs : Apart m.sourceAliases m.derived k.derived (cs.map fun c => c.expr.portion))
    (hk : k.Follows m) : (d.projecting cs).Numbered n k := by
  refine hd.insert [d.select.origin.portion] _ ?_ hcs hk
    (portions_columns d.select cs) rfl
  exact d.select.portions_bare_sublist

end Statements

/-! ### The steps -/

section Steps

variable {caps : Capabilities} {n m k : Naming}

theorem Apart.step {ps qs : List Portion} (hps : Apart n.sourceAliases n.derived m.derived ps)
    (hqs : Apart m.sourceAliases m.derived k.derived qs) (hm : m.Follows n) (hk : k.Follows m) :
    Apart n.sourceAliases n.derived k.derived (ps ++ qs) := by
  rw [hm.sourceAliases] at hqs
  exact hps.append hqs hm.derived hk.derived

/-- An operation has the derived tables of its receiver and its arguments. -/
theorem Mapping.fresh_of_apply {x : Mapping} {receiver? : Option Expr} {args : List Expr}
    {e : Expr} {taken : List String} {lo hi : Nat} (h : x.apply caps receiver? args = .ok e)
    (hoperands : Apart taken lo hi ((receiver?.toList ++ args).map Expr.portion)) :
    e.portion.Fresh taken lo hi := by
  obtain ⟨operands, built, hadjusted, hbuilt, rfl⟩ := Mapping.apply_eq_ok h
  have happart : Apart taken lo hi (operands.map Expr.portion) := by
    rcases Adjustment.operands_eq_ok hadjusted with rfl |
      ⟨text, start, start', rest, hgiven, rfl, hstart⟩
    · exact hoperands
    · rw [hgiven] at hoperands
      refine hoperands.forall₂ (.cons (madeOf_self _) (.cons (madeOf_oneBased hstart) ?_))
      rw [List.forall₂_same]
      exact fun p _ => madeOf_self p
  have hbuilt := (Template.madeOf_of_build? hbuilt).fresh happart
  exact (Adjustment.madeOf_result _ built).fresh hbuilt.apart

theorem Portion.Fresh.asValue {e : Expr} {taken : List String} {lo hi : Nat}
    (h : e.portion.Fresh taken lo hi) : (asValue caps e).portion.Fresh taken lo hi :=
  (madeOf_asValue caps e).fresh h.apart

theorem Portion.Fresh.asPredicate {e : Expr} {taken : List String} {lo hi : Nat}
    (h : e.portion.Fresh taken lo hi) : (asPredicate caps e).portion.Fresh taken lo hi :=
  (madeOf_asPredicate caps e).fresh h.apart

/-- A predicate that the rows have to meet brings its derived tables along. -/
theorem Draft.Numbered.meeting {d d' : Draft} {predicate : Query} (hd : d.Numbered n m)
    (hpredicate : ∀ {n m : Naming} {e : Expr}, Gives (expression caps predicate) n e m →
      e.portion.Fresh n.sourceAliases n.derived m.derived)
    (h : Gives (Sql.meeting caps d (some predicate)) m d' k) : d'.Numbered n k := by
  obtain ⟨d₁, n₁, e, hpush, he, rfl⟩ := gives_meeting_some.mp h
  have hk := ((keepsNames_expression caps predicate).inRow d₁.row).of_gives he
  obtain ⟨k', hinside, rfl⟩ := gives_inRow.mp he
  exact (hd.pushDownIf hpush).filtered (hpredicate hinside).asPredicate hk

mutual

/-- The derived tables of a drafted expression have the numbers that drafting it gave. -/
theorem fresh_of_gives_expression {e : Expr} : {n m : Naming} → (q : Query) →
    Gives (expression caps q) n e m → e.portion.Fresh n.sourceAliases n.derived m.derived
  | n, m, .constant _, h => by
    rw [(gives_constant.mp h).1]
    exact fresh_of_tables_eq_nil rfl
  | n, m, .parameter _, h => by
    rw [(gives_parameter.mp h).1]
    exact fresh_of_tables_eq_nil rfl
  | n, m, .member receiver? (.column alias? name), h => by
    obtain ⟨-, row, -, rfl, -⟩ := gives_column.mp h
    exact fresh_of_tables_eq_nil rfl
  | n, m, .member receiver? (.property p), h => by
    obtain ⟨receiver, mapping, hreceiver, -, happly⟩ := gives_property.mp h
    refine Mapping.fresh_of_apply happly ?_
    rw [List.append_nil]
    exact apart_of_gives_optionValue receiver? hreceiver
  | n, m, .call receiver? method args, h => by
    obtain ⟨mapping, receiver, k, es, -, hreceiver, hes, happly⟩ := gives_call.mp h
    refine Mapping.fresh_of_apply happly ?_
    rw [List.map_append]
    exact (apart_of_gives_optionValue receiver? hreceiver).step (apart_of_gives_values args hes)
      ((keepsNames_optionValue caps receiver?).of_gives hreceiver)
      ((keepsNames_values caps args).of_gives hes)
  | n, m, .binary left op right, h => by
    rw [gives_binary] at h
    split at h
    · obtain ⟨e', he, rfl⟩ := h
      exact (madeOf_operands rfl).fresh (fresh_of_gives_expression right he).asValue.apart
    · split at h
      · obtain ⟨e', he, rfl⟩ := h
        exact (madeOf_operands rfl).fresh (fresh_of_gives_expression left he).asValue.apart
      · obtain ⟨l, k, r, hl, hr, rfl⟩ := h
        have hoperand : ∀ {e' : Expr} {taken : List String} {lo hi : Nat},
            e'.portion.Fresh taken lo hi →
              ((if op.isLogical then asPredicate caps else asValue caps) e').portion.Fresh
                taken lo hi := by
          intro e' taken lo hi he'
          split
          · exact he'.asPredicate
          · exact he'.asValue
        have hleft := hoperand (fresh_of_gives_expression left hl)
        have hright := hoperand (fresh_of_gives_expression right hr)
        refine (madeOf_operands rfl).fresh (hleft.apart.step hright.apart ?_ ?_)
        · exact (keepsNames_expression caps left).of_gives hl
        · exact (keepsNames_expression caps right).of_gives hr
  | n, m, .unary .not operand, h => by
    obtain ⟨e', he, rfl⟩ := gives_not.mp h
    exact (madeOf_operands rfl).fresh (fresh_of_gives_expression operand he).asPredicate.apart
  | n, m, .unary .negate operand, h => by
    obtain ⟨e', he, rfl⟩ := gives_negate.mp h
    exact (madeOf_operands rfl).fresh (fresh_of_gives_expression operand he).asValue.apart
  | n, m, .any rows predicate?, h => by
    obtain ⟨d, k, d', s, hd, hd', hs, rfl⟩ := gives_any.mp h
    have hnumbered := numbered_of_gives_meeting predicate? (numbered_of_gives_sequence rows hd) hd'
    exact (madeOf_existsRow s).fresh (hnumbered.existence hs).apart
  | n, m, .source .., h | n, m, .filter .., h | n, m, .project .., h | n, m, .skip .., h
  | n, m, .take .., h | n, m, .orderBy .., h => absurd h (not_gives_expression rfl)

theorem apart_of_gives_optionValue {e? : Option Expr} : {n m : Naming} → (q? : Option Query) →
    Gives (optionValue caps q?) n e? m →
      Apart n.sourceAliases n.derived m.derived (e?.toList.map Expr.portion)
  | n, m, none, h => by
    rw [(gives_optionValue_none.mp h).1]
    exact apart_nil
  | n, m, some q, h => by
    obtain ⟨e, he, rfl⟩ := gives_optionValue_some.mp h
    exact (fresh_of_gives_expression q he).asValue.apart

theorem apart_of_gives_values {es : List Expr} : {n m : Naming} → (qs : List Query) →
    Gives (values caps qs) n es m → Apart n.sourceAliases n.derived m.derived (es.map Expr.portion)
  | n, m, [], h => by
    rw [(gives_values_nil.mp h).1]
    exact apart_nil
  | n, m, q :: rest, h => by
    obtain ⟨e, k, es', he, hes, rfl⟩ := gives_values_cons.mp h
    exact (fresh_of_gives_expression q he).asValue.apart.step (apart_of_gives_values rest hes)
      ((keepsNames_expression caps q).of_gives he) ((keepsNames_values caps rest).of_gives hes)

theorem apart_of_gives_projection {cs : List Column} : {n m : Naming} →
    (columns : List (String × Query)) → Gives (projection caps columns) n cs m →
      Apart n.sourceAliases n.derived m.derived (cs.map fun c => c.expr.portion)
  | n, m, [], h => by
    rw [(gives_projection_nil.mp h).1]
    exact apart_nil
  | n, m, (name, q) :: rest, h => by
    obtain ⟨e, k, cs', he, hcs, rfl⟩ := gives_projection_cons.mp h
    exact (fresh_of_gives_expression q he).asValue.apart.step (apart_of_gives_projection rest hcs)
      ((keepsNames_expression caps q).of_gives he) ((keepsNames_projection caps rest).of_gives hcs)

/-- The clauses of a draft are apart. -/
theorem numbered_of_gives_sequence {d : Draft} : {n m : Naming} → (q : Query) →
    Gives (sequence caps q) n d m → d.Numbered n m
  | n, m, .source table alias?, h => by
    obtain ⟨rfl, rfl⟩ := gives_source.mp h
    refine ⟨.refl _, (fresh_of_tables_eq_nil rfl).apart, ?_⟩
    rintro e (he | he) <;> cases he
  | n, m, .filter rows predicate, h => by
    obtain ⟨d₀, n₀, hrows, hmeeting⟩ := gives_filter.mp h
    exact (numbered_of_gives_sequence rows hrows).meeting
      (fun hinside => fresh_of_gives_expression predicate hinside) hmeeting
  | n, m, .project rows columns, h => by
    obtain ⟨d₀, n₀, d₁, n₁, cs, hrows, hpush, hcs, rfl⟩ := gives_project.mp h
    have hd := (numbered_of_gives_sequence rows hrows).pushDownIf hpush
    have hk := ((keepsNames_projection caps columns).inRow d₁.row).of_gives hcs
    obtain ⟨k, hinside, rfl⟩ := gives_inRow.mp hcs
    have hcolumns := apart_of_gives_projection columns hinside
    exact hd.projecting hcolumns hk
  | n, m, .skip rows count, h => by
    obtain ⟨d₀, n₀, d₁, e, hrows, hpush, he, rfl⟩ := gives_skip.mp h
    have hd := (numbered_of_gives_sequence rows hrows).pushDownIf hpush
    exact ⟨hd.follows, hd.portions, readsNothing_skip hd.counts he⟩
  | n, m, .take rows count, h => by
    obtain ⟨d₀, n₀, d₁, e, hrows, hpush, he, rfl⟩ := gives_take.mp h
    have hd := (numbered_of_gives_sequence rows hrows).pushDownIf hpush
    exact ⟨hd.follows, hd.portions, readsNothing_take hd.counts he⟩
  | n, m, .orderBy rows key direction, h => by
    obtain ⟨d₀, n₀, d₁, n₁, e, hrows, hpush, he, rfl⟩ := gives_orderBy.mp h
    have hd := (numbered_of_gives_sequence rows hrows).pushDownIf hpush
    have hk := ((keepsNames_expression caps key).inRow d₁.row).of_gives he
    obtain ⟨k, hinside, rfl⟩ := gives_inRow.mp he
    exact hd.ordered (fresh_of_gives_expression key hinside).asValue hk
  | n, m, .any .., h | n, m, .member .., h | n, m, .call .., h | n, m, .constant _, h
  | n, m, .parameter _, h | n, m, .binary .., h | n, m, .unary .., h =>
    absurd h (not_gives_sequence rfl)

theorem numbered_of_gives_meeting {d d' : Draft} : {n k m : Naming} → (predicate? : Option Query) →
    d.Numbered n k → Gives (meeting caps d predicate?) k d' m → d'.Numbered n m
  | n, k, m, none, hd, h => by
    obtain ⟨rfl, rfl⟩ := gives_meeting_none.mp h
    exact hd
  | n, k, m, some predicate, hd, h => by
    exact hd.meeting (fun hinside => fresh_of_gives_expression predicate hinside) h

end

end Steps

/-! ### The search for an alias -/

/-- The number of the next derived table is the least one whose alias no table has, and there are
    not more numbers before it than tables. -/
theorem Naming.isLeast_next (n : Naming) :
    IsLeast {i | n.derived ≤ i ∧ Text.numbered "t" i ∉ n.sourceAliases} n.next ∧
      n.next ≤ n.derived + n.sourceAliases.length := by
  obtain ⟨hle, hfree, hbefore⟩ := Text.freeNumber_spec "t" n.sourceAliases 0 n.derived
  have htaken : ∀ i ∈ List.range' n.derived (n.next - n.derived),
      n.sourceAliases.contains (Text.numbered "t" i) = true := by
    intro i hi
    rw [List.countP_eq_zero] at hbefore
    simpa using hbefore i hi
  refine ⟨⟨⟨hle, hfree⟩, ?_⟩, ?_⟩
  · rintro i ⟨hfrom, hnew⟩
    by_contra hlt
    have hmem : i ∈ List.range' n.derived (n.next - n.derived) := by
      rw [List.mem_range'_1]
      omega
    exact hnew (by simpa using htaken i hmem)
  · have hcount := Text.countP_taken_le "t" n.sourceAliases n.derived (n.next - n.derived)
    rw [List.countP_eq_length.mpr htaken, List.length_range'] at hcount
    omega

/-! ### Whole queries -/

section Queries

variable {caps : Capabilities} {q : Query} {s : Select}

theorem madeOf_answering (e : Expr) : (answering e).portion.MadeOf [e.portion] := by
  have hcolumn : Expr.case [⟨e, .literal (.boolean true)⟩] (some (.literal (.boolean false))) ∈
      (answering e).clauses := List.mem_cons_self
  have hwalked : e.walk ⊆ (answering e).walk :=
    List.Subset.trans (walk_subset_of_mem_operands List.mem_cons_self)
      (walk_subset_of_mem_clauses hcolumn)
  refine madeOf_of_perm (List.forall_mem_singleton.mpr hwalked) (List.Perm.of_eq ?_)
  rw [List.flatMap_singleton]
  simp [Select.portion, Portion.tables, Expr.portion, answering, Select.reading, Select.spine,
    Origin.spine, Select.walk, walkColumns, Origin.walk, walkList, walkKeys, walkWindow, Expr.walk,
    walkWhens, walkOption, Expr.spine]

theorem fresh_of_ofQuery (h : Select.ofQuery caps q = .ok s) :
    ∃ hi, s.portion.Fresh q.sourceAliases 0 hi := by
  by_cases hq : q.isSequence = true
  · obtain ⟨d, m, hd, hfinish⟩ := sequence_of_ofQuery hq h
    exact ⟨_, (numbered_of_gives_sequence q hd).portion_finish hfinish (.inl rfl)⟩
  · obtain ⟨rows, predicate?, e, m, hany, he, rfl⟩ := any_of_ofQuery (by simpa using hq) h
    exact ⟨_, (madeOf_answering e).fresh (fresh_of_gives_expression q he).apart⟩

/-- **Aliases of derived tables.**  The listed derived tables are the origins of the SELECTs of the
    statement.  None has the alias of a table of the query, and two with the same alias are copies
    of one.  There are no copies just when no operand with derived tables is written twice.  The
    counter of a run is bounded by the nodes and the tables of the query.  For any counter and any
    aliases of tables, as long as 64 bits are enough to count past a number whose alias no table has,
    the search for a new alias ends at the first such number from the counter on. -/
theorem aliases_of_ofQuery (h : Select.ofQuery caps q = .ok s) :
    (∀ source rows, ⟨source, rows⟩ ∈ s.portion.tables ↔
      ∃ t around, s.Block [] t around ∧ t.origin = .derived rows source) ∧
    (∀ t ∈ s.portion.tables, t.source ∉ q.sourceAliases) ∧
    (∀ t ∈ s.portion.tables, ∀ t' ∈ s.portion.tables, t.source = t'.source → t = t') ∧
    ((s.portion.tables.map DerivedTable.source).Nodup ↔
      ∀ e ∈ s.walk, ∀ x, e.Repeats x → x.portion.tables = []) ∧
    ((statement caps q).run.run {}).2.derived ≤ q.nodes.length + q.sourceAliases.length ∧
    ∀ names : Naming, (∃ j, names.derived ≤ j ∧ j + 1 < 2 ^ 64 ∧
        Text.numbered "t" j ∉ names.sourceAliases) → ∃ i,
      Gives freshAlias names (Text.numbered "t" i) { names with derived := i + 1 } ∧
      i + 1 < 2 ^ 64 ∧
      IsLeast {j | names.derived ≤ j ∧ Text.numbered "t" j ∉ names.sourceAliases} i ∧
      i ≤ names.derived + names.sourceAliases.length := by
  obtain ⟨hi, hfresh⟩ := fresh_of_ofQuery h
  refine ⟨fun source rows => mem_tables_iff, fun t ht => (hfresh.numbered t ht).1, hfresh.copies,
    ⟨once_of_nodup, hfresh.nodup⟩, derived_le_of_run caps q, ?_⟩
  rintro names ⟨j, hfrom, hbound, hfree⟩
  obtain ⟨hleast, hend⟩ := names.isLeast_next
  have hj : names.next ≤ j := hleast.2 ⟨hfrom, hfree⟩
  exact ⟨names.next, gives_freshAlias.mpr ⟨rfl, rfl⟩, by omega, hleast, hend⟩

/-- The first items of which a part that is one of the first has a test. -/
def firstParts : Query :=
  .filter (.take (.source "ITEM" none) (.constant (.int32 5)))
    (.any (.take (.source "PART" (some "t1")) (.constant (.int32 1)))
      (some (.equal (.column "OWNER") (.columnOf "i" "ID"))))

theorem aliases_of_ofQuery_firstParts :
    ∃ s, Select.ofQuery (.ofVersion ⟨3, 0, 0, 0⟩) firstParts = .ok s ∧
      s.portion.tables.map DerivedTable.source = ["t0", "t2"] ∧
      (∀ t ∈ s.portion.tables, t.source ∉ firstParts.sourceAliases) ∧
      (∀ e ∈ s.walk, ∀ x, e.Repeats x → x.portion.tables = []) ∧
      ∃ i, IsLeast {j | 1 ≤ j ∧ Text.numbered "t" j ∉ firstParts.sourceAliases} i := by
  have h : Select.ofQuery (.ofVersion ⟨3, 0, 0, 0⟩) firstParts = .ok _ := rfl
  obtain ⟨-, hfree, -, honce, -, hsearch⟩ := aliases_of_ofQuery h
  have htables : _ = ["t0", "t2"] := rfl
  have htwo : Text.numbered "t" 2 ∉ firstParts.sourceAliases := by decide
  obtain ⟨i, -, -, hleast, -⟩ :=
    hsearch { derived := 1, sourceAliases := firstParts.sourceAliases } ⟨2, by decide, by decide, htwo⟩
  refine ⟨_, h, htables, hfree, honce.mp ?_, i, hleast⟩
  change ["t0", "t2"].Nodup
  decide

/-- The items with a first part, asked in a way that writes the test twice. -/
def emptyTest : Query :=
  .filter (.source "ITEM" none) (.call none .isNullOrEmpty
    [.any (.take (.source "PART" none) (.constant (.int32 1)))
      (some (.equal (.column "OWNER") (.columnOf "i" "ID")))])

theorem not_nodup_of_emptyTest :
    ∃ s, Select.ofQuery (.ofVersion ⟨3, 0, 0, 0⟩) emptyTest = .ok s ∧
      ¬ (s.portion.tables.map DerivedTable.source).Nodup := by
  refine ⟨_, rfl, ?_⟩
  change ¬ ["t0", "t0"].Nodup
  decide

end Queries

end QueryLoom.Sql

/-
  QueryLoom/Proofs/Upgrade/Loss.lean
  ==================================
  **Nothing but an ordering gets lost.**  Where a server without Booleans takes a query over, one
  with Booleans does so too or finds a key of an ordering in no column.  What the two give may
  differ in the columns that keys of derived tables are carried as, also deep inside of tests,
  so it is not the same statement up to coercions.  It has the same shape, and can be written if the
  other one can.

    * `Matched` — steps for two servers, the second of which may lose an ordering;
    * `Draft.Alike` — drafts of the same shape;
    * `matched_expression`, `matched_sequence` — the two servers' recursions match.
-/
import QueryLoom.Proofs.Meaning.Accepted
import QueryLoom.Proofs.Upgrade.Truth
import QueryLoom.Proofs.Upgrade.Writing

namespace QueryLoom.Sql

/-! ### Steps -/

/-- The step fails for want of a key of an ordering. -/
def Loses {α : Type} (x : Drafting α) (n : Naming) : Prop :=
  (x.run.run n).1 = .error .lostOrdering

/-- Whatever the first step gives, the second one gives its like or loses an ordering. -/
def Matched {α β : Type} (R : α → β → Prop) (x : Drafting α) (y : Drafting β) : Prop :=
  ∀ n m a, Gives x n a m → (∃ b, Gives y n b m ∧ R a b) ∨ Loses y n

section Combinators

variable {α α' β β' : Type} {R : α → β → Prop} {R' : α' → β' → Prop} {n m : Naming}

theorem Loses.bind {x : Drafting α} (h : Loses x n) (f : α → Drafting β) : Loses (x >>= f) n := by
  simp only [Loses, ExceptT.run_bind, StateT.run_bind] at h ⊢
  rcases hrun : x.run.run n with ⟨r, m⟩
  rw [hrun] at h
  obtain rfl : r = .error .lostOrdering := h
  rfl

theorem Gives.loses_bind {x : Drafting α} {a : α} {f : α → Drafting β} (ha : Gives x n a m)
    (h : Loses (f a) m) : Loses (x >>= f) n := by
  simp only [Loses, ExceptT.run_bind, StateT.run_bind] at h ⊢
  rw [ha]
  exact h

theorem Loses.inRow {x : Drafting α} {row : Scope}
    (h : Loses x { n with scopes := row :: n.scopes }) : Loses (inRow row x) n := h

theorem matched_pure {a : α} {b : β} (h : R a b) : Matched R (pure a) (pure b) := by
  intro n m c hc
  obtain ⟨rfl, rfl⟩ := gives_pure.mp hc
  exact .inl ⟨b, gives_pure.mpr ⟨rfl, rfl⟩, h⟩

theorem matched_throw (e : CompileError) (y : Drafting β) : Matched R (throw e) y :=
  fun _ _ _ h => absurd h not_gives_throw

theorem matched_lift {x : Except CompileError α} {y : Except CompileError β}
    (h : ∀ a, x = .ok a → (∃ b, y = .ok b ∧ R a b) ∨ y = .error .lostOrdering) :
    Matched R (liftM x) (liftM y) := by
  intro n m a ha
  obtain ⟨hx, rfl⟩ := gives_lift.mp ha
  rcases h a hx with ⟨b, hb, hr⟩ | hlost
  · exact .inl ⟨b, gives_lift.mpr ⟨hb, rfl⟩, hr⟩
  · rw [hlost]
    exact .inr rfl

/-- A step matches itself if everything that it gives is its own like. -/
theorem Ensures.matched {R : α → α → Prop} {x : Drafting α} (h : Ensures (fun a => R a a) x) :
    Matched R x x :=
  fun n m a ha => .inl ⟨a, ha, h n m a ha⟩

theorem Matched.bind {x : Drafting α} {y : Drafting β} {f : α → Drafting α'} {g : β → Drafting β'}
    (h : Matched R x y) (hf : ∀ a b, R a b → Matched R' (f a) (g b)) :
    Matched R' (x >>= f) (y >>= g) := by
  intro n k a' h'
  obtain ⟨a, m, ha, ha'⟩ := gives_bind.mp h'
  rcases h n m a ha with ⟨b, hb, hr⟩ | hlost
  · rcases hf a b hr m k a' ha' with ⟨b', hb', hr'⟩ | hlost
    · exact .inl ⟨b', gives_bind.mpr ⟨b, m, hb, hb'⟩, hr'⟩
    · exact .inr (hb.loses_bind hlost)
  · exact .inr (hlost.bind g)

theorem Matched.inRow {x : Drafting α} {y : Drafting β} (h : Matched R x y) (row : Scope) :
    Matched R (inRow row x) (inRow row y) := by
  intro n m a ha
  obtain ⟨k, hk, rfl⟩ := gives_inRow.mp ha
  rcases h _ k a hk with ⟨b, hb, hr⟩ | hlost
  · exact .inl ⟨b, gives_inRow.mpr ⟨k, hb, rfl⟩, hr⟩
  · exact .inr hlost.inRow

end Combinators

/-! ### Expressions -/

variable {old new caps : Capabilities}

/-- The first expression, for a server without Booleans, has the shape of the second one.  Without
    a test in them the two are the same up to coercions. -/
structure Expr.Alike (old caps : Capabilities) (e' e : Expr) : Prop where
  literal : e'.literal? = e.literal?
  coerced : e.hasSubquery = false → e' = e.coerced old
  writable : Writable caps (e'.pieces caps) → Writable caps (e.pieces caps)

/-- The first expression stands for the second one as a value. -/
structure Expr.ValueAlike (old caps : Capabilities) (e' e : Expr) : Prop where
  literal : e'.literal? = e.literal?
  standing : e.hasSubquery = false → e' = e.standing old false
  writable : Writable caps (e'.pieces caps) → Writable caps (e.pieces caps)

namespace Expr

theorem alike_coerced (old caps : Capabilities) (e : Expr) : (e.coerced old).Alike old caps e where
  literal := by cases e <;> rfl
  coerced _ := rfl
  writable := inherited_writable.of_expr e

namespace Alike

variable {e e' l l' r r' : Expr}

theorem value (h : e'.Alike old caps e) : (asValue old e').ValueAlike old caps e where
  literal := (literal?_asValue old e').trans h.literal
  standing hs := by
    rw [h.coerced hs]
    rfl
  writable hw := by
    have hplaced : Writable caps ((placed old false e').pieces caps) := hw
    exact h.writable (writable_placed.mp hplaced)

theorem writable_asPredicate (h : e'.Alike old caps e)
    (hw : Writable caps ((asPredicate old e').pieces caps)) : Writable caps (e.pieces caps) := by
  have hplaced : Writable caps ((placed old true e').pieces caps) := hw
  exact h.writable (writable_placed.mp hplaced)

theorem isNull (h : e'.Alike old caps e) (negated : Bool) :
    (Expr.isNull (asValue old e') negated).Alike old caps (.isNull e negated) where
  literal := rfl
  coerced hs := by
    rw [h.coerced (hasSubquery_of_mem_operands hs List.mem_cons_self)]
    rfl
  writable hw := by
    rw [writable_of_operator rfl] at hw ⊢
    exact List.forall_mem_singleton.mpr (h.value.writable (hw _ List.mem_cons_self))

theorem not (h : e'.Alike old caps e) :
    (Expr.unary .not (asPredicate old e')).Alike old caps (.unary .not e) where
  literal := rfl
  coerced hs := by
    rw [h.coerced (hasSubquery_of_mem_operands hs List.mem_cons_self)]
    rfl
  writable hw := by
    rw [writable_of_operator rfl] at hw ⊢
    exact List.forall_mem_singleton.mpr (h.writable_asPredicate (hw _ List.mem_cons_self))

theorem negate (h : e'.Alike old caps e) :
    (Expr.unary .negate (asValue old e')).Alike old caps (.unary .negate e) where
  literal := rfl
  coerced hs := by
    rw [h.coerced (hasSubquery_of_mem_operands hs List.mem_cons_self)]
    rfl
  writable hw := by
    rw [writable_of_operator rfl] at hw ⊢
    exact List.forall_mem_singleton.mpr (h.value.writable (hw _ List.mem_cons_self))

theorem binary (hl : l'.Alike old caps l) (hr : r'.Alike old caps r)
    (op : QueryLoom.BinaryOperator) :
    (Expr.binary ((if op.isLogical then asPredicate old else asValue old) l') (.ofQuery op)
      ((if op.isLogical then asPredicate old else asValue old) r')).Alike old caps
      (.binary l (.ofQuery op) r) where
  literal := rfl
  coerced hs := by
    rw [hl.coerced (hasSubquery_of_mem_operands hs List.mem_cons_self),
      hr.coerced (hasSubquery_of_mem_operands hs (List.mem_cons_of_mem _ List.mem_cons_self)),
      Expr.coerced, isLogical_ofQuery]
    cases op.isLogical <;> rfl
  writable hw := by
    rw [writable_binary] at hw ⊢
    cases hop : op.isLogical <;> rw [hop] at hw
    · exact ⟨hl.value.writable hw.1, hr.value.writable hw.2⟩
    · exact ⟨hl.writable_asPredicate hw.1, hr.writable_asPredicate hw.2⟩

theorem existsRow {s s' : Select}
    (h : Writable caps (s'.pieces caps) → Writable caps (s.pieces caps)) :
    (Expr.existsRow s').Alike old caps (.existsRow s) where
  literal := rfl
  coerced hs := by
    rw [hasSubquery_eq] at hs
    cases hs
  writable hw := by
    simp only [Expr.pieces, writable_cons, writable_parenthesized] at hw ⊢
    exact ⟨rfl, rfl, h hw.2.2⟩

end Alike

theorem eq_map_of_valueAlike {es es' : List Expr} (h : List.Forall₂ (ValueAlike old caps) es' es)
    (hnone : ∀ o ∈ es, o.hasSubquery = false) : es' = es.map (Expr.standing old false) := by
  induction h with
  | nil => rfl
  | cons hfirst _ ih =>
    obtain ⟨hnone, hrest⟩ := List.forall_mem_cons.mp hnone
    rw [List.map_cons, hfirst.standing hnone, ih hrest]

/-- Operations on values that stand for each other are alike. -/
theorem exists_apply_alike (h₀ : GainsBooleans old new) {op : Operation} {x : Mapping}
    {receiver? receiver'? : Option Expr} {args args' : List Expr} {e' : Expr}
    (hx : Mapping.find op args.length = .ok x)
    (hreceiver : List.Forall₂ (ValueAlike old caps) receiver'?.toList receiver?.toList)
    (hargs : List.Forall₂ (ValueAlike old caps) args' args)
    (h' : x.apply old receiver'? args' = .ok e') :
    ∃ e, x.apply new receiver? args = .ok e ∧ e'.Alike old caps e := by
  have hisSome : receiver'?.isSome = receiver?.isSome := by
    cases receiver? <;> cases receiver'? <;> first
      | rfl
      | cases hreceiver
  have hstart : ∀ start ∈ args.head?, ∃ start' ∈ args'.head?, start'.literal? = start.literal? := by
    cases hargs with
    | nil => exact fun _ hhead => by cases hhead
    | cons hfirst _ =>
      rintro _ ⟨⟩
      exact ⟨_, rfl, hfirst.literal⟩
  obtain ⟨e, he⟩ := Mapping.exists_apply_of_gain h₀ hx hargs.length_eq hisSome hstart h'
  have hoperands := List.rel_append hreceiver hargs
  refine ⟨e, he, ?_, fun hs => ?_, fun hw => ?_⟩
  · rw [Mapping.literal?_of_apply h', Mapping.literal?_of_apply he]
  · have hnone : ∀ o ∈ receiver?.toList ++ args, o.hasSubquery = false := by
      intro o ho
      by_contra hsubquery
      obtain ⟨rows, hrows⟩ := exists_of_hasSubquery o (Bool.not_eq_false _ |>.mp hsubquery)
      exact not_exists_of_hasSubquery hs rows (Mapping.test_mem_of_apply he ho hrows)
    obtain ⟨hnone, hnones⟩ := List.forall_mem_append.mp hnone
    have hgiven : receiver'? = receiver?.map (Expr.standing old false) := by
      have hlist := eq_map_of_valueAlike hreceiver hnone
      cases receiver? <;> cases receiver'? <;> first
        | rfl
        | exact congrArg some (List.cons.inj hlist).1
        | cases hisSome
    rw [hgiven, eq_map_of_valueAlike hargs hnones] at h'
    exact Mapping.coerced_of_apply h₀.start.symm hx he h'
  · rw [Mapping.writable_of_apply he]
    rw [Mapping.writable_of_apply h'] at hw
    intro o ho
    obtain ⟨o', ho', halike⟩ := exists_of_forall₂_right hoperands ho
    exact halike.writable (hw o' ho')

end Expr

/-! ### Statements -/

/-- The first key stands for the second one, or the second one is a column that an origin shows. -/
def KeyAlike (old caps : Capabilities) (o' : Origin) (k' k : Expr) : Prop :=
  k'.ValueAlike old caps k ∨ ∃ source name, k = .column source name ∧
    (o'.Writable caps → isIdentifier caps source = true ∧ isIdentifier caps name = true)

theorem KeyAlike.writable {o' : Origin} {k' k : Expr} (h : KeyAlike old caps o' k' k)
    (ho : o'.Writable caps) (hk : Writable caps (k'.pieces caps)) :
    Writable caps (k.pieces caps) := by
  rcases h with halike | ⟨source, name, rfl, hnames⟩
  · exact halike.writable hk
  · simpa [Expr.pieces, refusal?_name] using hnames ho

/-- The first statement has the shape of the second one. -/
structure Select.Alike (old caps : Capabilities) (s' s : Select) : Prop where
  source : s'.origin.alias? = s.origin.alias?
  labels : s'.columns.map Column.alias? = s.columns.map Column.alias?
  window : s'.window? = s.window?
  origin : s'.origin.Writable caps → s.origin.Writable caps
  columns : (∀ c ∈ s'.columns, Writable caps (c.expr.pieces caps)) →
    ∀ c ∈ s.columns, Writable caps (c.expr.pieces caps)
  conditions : (∀ e ∈ s'.conditions, Writable caps (e.pieces caps)) →
    ∀ e ∈ s.conditions, Writable caps (e.pieces caps)
  ordering : List.Forall₂ (fun k' k => KeyAlike old caps s'.origin k'.expr k.expr)
    s'.ordering s.ordering

theorem carryOrdering_eq_error {s : Select} {source : String} {e : CompileError}
    (h : s.carryOrdering source = .error e) : e = .lostOrdering := by
  rw [Select.carryOrdering] at h
  generalize s.ordering = keys at h
  induction keys with
  | nil => cases h
  | cons k rest ih =>
    rw [List.mapM_cons] at h
    cases hkey : s.carry source k.expr with
    | none =>
      rw [hkey] at h
      cases h
      rfl
    | some carried =>
      rw [hkey] at h
      simp only [bind, Except.bind] at h
      split at h
      · next herror =>
        cases h
        exact ih herror
      · cases h

namespace Select.Alike

variable {s s' : Select} (h : s'.Alike old caps s)

include h

theorem writable (hw : Writable caps (s'.pieces caps)) : Writable caps (s.pieces caps) := by
  rw [writable_select_iff] at hw ⊢
  obtain ⟨hcolumns, horigin, hconditions, hordering, hwindow⟩ := hw
  have hlabels : ∀ a? ∈ s'.columns.map Column.alias?, ∀ label ∈ a?,
      isIdentifier caps label = true := List.forall_mem_map.mpr fun c hc => (hcolumns c hc).2
  rw [h.labels, List.forall_mem_map] at hlabels
  have hexprs := h.columns fun c hc => (hcolumns c hc).1
  refine ⟨fun c hc => ⟨hexprs c hc, hlabels c hc⟩, h.origin horigin, h.conditions hconditions,
    fun k hk => ?_, h.window ▸ hwindow⟩
  obtain ⟨k', hk', halike⟩ := exists_of_forall₂_right h.ordering hk
  exact halike.writable horigin (hordering k' hk')

/-- A key is carried as one that it corresponds to, where it is carried at all. -/
theorem carry {o' : Origin} {source : String} {k' k e' e : Expr}
    (hshown : o'.Writable caps → isIdentifier caps source = true ∧
      ∀ c ∈ s'.columns, ∀ label ∈ c.alias?, isIdentifier caps label = true)
    (horigin : o'.Writable caps → s'.origin.Writable caps)
    (hk : KeyAlike old caps s'.origin k' k)
    (he' : s'.carry source k' = some e') (he : s.carry source k = some e) :
    KeyAlike old caps o' e' e := by
  rcases carry_eq_some he with ⟨c, hc, name, -, hname, rfl⟩ | ⟨shown, hall, hshows, hs, rfl⟩
  · refine .inr ⟨source, name, rfl, fun hw => ⟨(hshown hw).1, ?_⟩⟩
    have hlabel : some name ∈ s'.columns.map Column.alias? := by
      rw [h.labels]
      exact hname ▸ List.mem_map_of_mem hc
    obtain ⟨c', hc', hname'⟩ := List.mem_map.mp hlabel
    exact (hshown hw).2 c' hc' name hname'
  · rcases carry_eq_some he' with ⟨c', hc', name, -, hname, -⟩ | ⟨shown', -, hshows', -, rfl⟩
    · -- A statement that selects all columns names none of them.
      have hlabel : c'.alias? ∈ s.columns.map Column.alias? := by
        rw [← h.labels]
        exact List.mem_map_of_mem hc'
      rw [hall, List.map_singleton, List.mem_singleton, hname] at hlabel
      cases hlabel
    · obtain rfl : shown' = shown := Option.some.inj (hshows'.symm.trans (h.source.trans hshows))
      rcases hk with halike | ⟨table, name, rfl, hnames⟩
      · refine .inl ?_
        rw [halike.standing hs, rename_standing]
        exact (Expr.alike_coerced old caps _).value
      · refine .inr ⟨_, name, rfl, fun hw => ⟨?_, (hnames (horigin hw)).2⟩⟩
        unfold renamed
        split
        · exact (hshown hw).1
        · exact (hnames (horigin hw)).1

/-- The ordering of a statement is carried like that of its like, or gets lost. -/
theorem carryOrdering {o' : Origin} {source : String} {ordering' : List OrderKey}
    (hshown : o'.Writable caps → isIdentifier caps source = true ∧
      ∀ c ∈ s'.columns, ∀ label ∈ c.alias?, isIdentifier caps label = true)
    (horigin : o'.Writable caps → s'.origin.Writable caps)
    (h' : s'.carryOrdering source = .ok ordering') :
    (∃ ordering, s.carryOrdering source = .ok ordering ∧
      List.Forall₂ (fun k' k => KeyAlike old caps o' k'.expr k.expr) ordering' ordering) ∨
    s.carryOrdering source = .error .lostOrdering := by
  cases hordering : s.carryOrdering source with
  | error e => exact .inr (congrArg _ (carryOrdering_eq_error hordering))
  | ok ordering =>
    refine .inl ⟨ordering, rfl, ?_⟩
    exact forall₂_of_forall₂ h.ordering (carryOrdering_eq_ok h') (carryOrdering_eq_ok hordering)
      fun _ _ _ _ hk he' he => h.carry hshown horigin hk he'.1 he.1

end Select.Alike

/-! ### Drafts -/

/-- The first draft has the shape of the second one. -/
structure Draft.Alike (old caps : Capabilities) (d' d : Draft) : Prop where
  select : d'.select.Alike old caps d.select
  row : d'.row = d.row
  paging : d'.paging = d.paging
  projected : d'.projected = d.projected
  source : ∃ source, d.select.origin.alias? = some source

namespace Draft.Alike

variable {d d' : Draft} (h : d'.Alike old caps d)

include h

theorem isPaged : d'.isPaged = d.isPaged := by
  rw [Draft.isPaged, Draft.isPaged, h.paging]

theorem finish {s' : Select} (hs' : d'.finish = .ok s') :
    ∃ s, d.finish = .ok s ∧ s'.Alike old caps s := by
  obtain ⟨source, hsource⟩ := h.source
  have hsource' := h.select.source.trans hsource
  obtain ⟨w, hw, rfl⟩ := (Draft.finish_eq_ok hsource').mp hs'
  have hempty : d'.select.columns.isEmpty = d.select.columns.isEmpty := by
    have hlabels := congrArg List.isEmpty h.select.labels
    simpa using hlabels
  refine ⟨_, (Draft.finish_eq_ok hsource).mpr ⟨w, h.paging ▸ hw, rfl⟩,
    { h.select with labels := ?_, window := rfl, columns := ?_ }⟩
  · dsimp only [Draft.finalColumns]
    rw [hempty]
    split
    · rfl
    · exact h.select.labels
  · dsimp only [Draft.finalColumns]
    rw [hempty]
    split
    · exact id
    · exact h.select.columns

theorem existence {s' : Select} (hs' : d'.existence = .ok s') :
    ∃ s, d.existence = .ok s ∧
      (Writable caps (s'.pieces caps) → Writable caps (s.pieces caps)) := by
  obtain ⟨source, hsource⟩ := h.source
  have hsource' := h.select.source.trans hsource
  obtain ⟨w, hw, rfl⟩ := (Draft.existence_eq_ok hsource').mp hs'
  refine ⟨_, (Draft.existence_eq_ok hsource).mpr ⟨w, h.paging ▸ hw, rfl⟩, ?_⟩
  refine (?_ : Select.Alike old caps _ _).writable
  refine { h.select with labels := rfl, window := rfl, columns := id, ordering := ?_ }
  dsimp only
  rw [h.isPaged]
  split
  · exact h.select.ordering
  · exact .nil

theorem filtered {e e' : Expr}
    (he : Writable caps (e'.pieces caps) → Writable caps (e.pieces caps)) :
    (d'.filtered e').Alike old caps (d.filtered e) where
  select := { h.select with
    conditions := fun hw => by
      obtain ⟨hconditions, hlast⟩ := List.forall_mem_append.mp hw
      refine List.forall_mem_append.mpr ⟨h.select.conditions hconditions, ?_⟩
      exact List.forall_mem_singleton.mpr (he (hlast _ List.mem_cons_self)) }
  row := h.row
  paging := h.paging
  projected := h.projected
  source := h.source

theorem projecting {cs cs' : List Column} (hlabels : cs'.map Column.alias? = cs.map Column.alias?)
    (hcolumns : (∀ c ∈ cs', Writable caps (c.expr.pieces caps)) →
      ∀ c ∈ cs, Writable caps (c.expr.pieces caps)) :
    (d'.projecting cs').Alike old caps (d.projecting cs) where
  select := { h.select with labels := hlabels, columns := hcolumns }
  row := h.row
  paging := h.paging
  projected := rfl
  source := h.source

theorem ordered {e e' : Expr} (he : e'.ValueAlike old caps e) (direction : Direction) :
    (d'.ordered ⟨e', direction⟩).Alike old caps (d.ordered ⟨e, direction⟩) where
  select := { h.select with
    ordering := List.rel_append h.select.ordering (.cons (.inl he) .nil) }
  row := h.row
  paging := h.paging
  projected := h.projected
  source := h.source

/-- Pushing a draft down matches pushing down its like, which may lose the ordering. -/
theorem matched_pushDown : Matched (Draft.Alike old caps) (pushDown d') (pushDown d) := by
  unfold pushDown
  refine (matched_lift fun s' hs' => .inl (h.finish hs')).bind fun inner' inner hinner => ?_
  refine (Ensures.matched (R := Eq) fun _ _ _ _ => rfl).bind fun source' source hsource => ?_
  subst hsource
  have hpaged : inner'.isPaged = inner.isPaged := congrArg Option.isSome hinner.window
  have hrows : Select.Alike old caps
      (if inner'.isPaged then inner' else { inner' with ordering := [] })
      (if inner.isPaged then inner else { inner with ordering := [] }) := by
    rw [hpaged]
    split
    · exact hinner
    · exact { hinner with ordering := .nil }
  have hshown : (Origin.derived (if inner'.isPaged then inner' else { inner' with ordering := [] })
      source').Writable caps → (isIdentifier caps source' = true ∧
        ∀ c ∈ inner'.columns, ∀ label ∈ c.alias?, isIdentifier caps label = true) ∧
      inner'.origin.Writable caps := by
    rintro ⟨hw, hsource⟩
    split at hw <;> rw [writable_select_iff] at hw <;>
      exact ⟨⟨hsource, fun c hc => (hw.1 c hc).2⟩, hw.2.1⟩
  refine (matched_lift fun _ hcarried => hinner.carryOrdering (fun hw => (hshown hw).1)
    (fun hw => (hshown hw).2) hcarried).bind fun ordering' ordering hordering => matched_pure ?_
  exact {
    select := {
      source := rfl
      labels := rfl
      window := rfl
      origin := fun hw => ⟨hrows.writable hw.1, hw.2⟩
      columns := id
      conditions := id
      ordering := hordering }
    row := by rw [h.row]
    paging := rfl
    projected := rfl
    source := ⟨_, rfl⟩ }

theorem matched_pushDownIf (needed : Bool) :
    Matched (Draft.Alike old caps) (pushDownIf needed d') (pushDownIf needed d) := by
  cases needed with
  | false => exact matched_pure h
  | true => exact h.matched_pushDown

end Draft.Alike

/-! ### The recursion -/

/-- A step that only looks something up matches itself. -/
theorem matched_self {α : Type} {x : Except CompileError α} :
    Matched (fun a b => a = b ∧ x = .ok b) (liftM x) (liftM x) :=
  matched_lift fun a ha => .inl ⟨a, ha, rfl, ha⟩

mutual

/-- Scalars for the two servers are alike, unless an ordering gets lost in a test. -/
theorem matched_expression (h₀ : GainsBooleans old new) : (q : Query) →
    Matched (Expr.Alike old caps) (expression old q) (expression new q)
  | .constant v => by
    rw [expression, expression]
    exact matched_pure (Expr.alike_coerced old caps (.literal v))
  | .parameter p => by
    rw [expression, expression]
    exact matched_pure (Expr.alike_coerced old caps (.parameter p))
  | .member receiver? (.column alias? name) => by
    rw [expression, expression]
    split
    · exact matched_throw _ _
    · refine Ensures.matched fun n m e h => ?_
      obtain ⟨row, _, rfl, _⟩ := gives_resolve.mp h
      exact Expr.alike_coerced old caps (.column row.actual name)
  | .member receiver? (.property p) => by
    rw [expression, expression]
    refine (matched_optionValue h₀ receiver?).bind fun receiver'? receiver? hreceiver => ?_
    refine matched_self.bind ?_
    rintro _ x ⟨rfl, hx⟩
    exact matched_lift fun e' he' => .inl (Expr.exists_apply_alike h₀ hx hreceiver .nil he')
  | .call receiver? m args => by
    rw [expression, expression]
    refine matched_self.bind ?_
    rintro _ x ⟨rfl, hx⟩
    refine (matched_optionValue h₀ receiver?).bind fun receiver'? receiver? hreceiver => ?_
    refine (matched_values h₀ args).bind ?_
    rintro es' es ⟨hes, hlength⟩
    refine matched_lift fun e' he' => .inl ?_
    exact Expr.exists_apply_alike h₀ (hlength ▸ hx) hreceiver hes he'
  | .binary left op right => by
    rw [expression, expression]
    split
    · refine (matched_expression h₀ right).bind fun e' e he => matched_pure ?_
      rw [asValue_of_booleanType h₀.newer]
      exact he.isNull _
    · split
      · refine (matched_expression h₀ left).bind fun e' e he => matched_pure ?_
        rw [asValue_of_booleanType h₀.newer]
        exact he.isNull _
      · refine (matched_expression h₀ left).bind fun l' l hl => ?_
        refine (matched_expression h₀ right).bind fun r' r hr => matched_pure ?_
        rw [operand_of_booleanType h₀.newer, operand_of_booleanType h₀.newer]
        exact hl.binary hr op
  | .unary .not operand => by
    rw [expression, expression]
    refine (matched_expression h₀ operand).bind fun e' e he => matched_pure ?_
    rw [asPredicate_of_booleanType h₀.newer]
    exact he.not
  | .unary .negate operand => by
    rw [expression, expression]
    refine (matched_expression h₀ operand).bind fun e' e he => matched_pure ?_
    rw [asValue_of_booleanType h₀.newer]
    exact he.negate
  | .any rows predicate? => by
    rw [expression, expression]
    refine (matched_sequence h₀ rows).bind fun d' d hd => ?_
    refine (matched_meeting h₀ hd predicate?).bind fun d' d hd => ?_
    refine (matched_lift fun s' hs' => .inl (hd.existence hs')).bind fun s' s hs => ?_
    exact matched_pure (.existsRow hs)
  | .source .. | .filter .. | .project .. | .skip .. | .take .. | .orderBy .. => by
    rw [expression]
    exact matched_throw _ _

theorem matched_optionValue (h₀ : GainsBooleans old new) : (q? : Option Query) →
    Matched (fun e'? e? => List.Forall₂ (Expr.ValueAlike old caps) e'?.toList e?.toList)
      (optionValue old q?) (optionValue new q?)
  | none => by
    rw [optionValue, optionValue]
    exact matched_pure .nil
  | some q => by
    rw [optionValue, optionValue]
    refine (matched_expression h₀ q).bind fun e' e he => matched_pure ?_
    rw [asValue_of_booleanType h₀.newer]
    exact .cons he.value .nil

theorem matched_values (h₀ : GainsBooleans old new) : (qs : List Query) →
    Matched (fun es' es => List.Forall₂ (Expr.ValueAlike old caps) es' es ∧
      es.length = qs.length) (values old qs) (values new qs)
  | [] => by
    rw [values, values]
    exact matched_pure ⟨.nil, rfl⟩
  | q :: rest => by
    rw [values, values]
    refine (matched_expression h₀ q).bind fun e' e he => ?_
    refine (matched_values h₀ rest).bind fun es' es hes => matched_pure ?_
    rw [asValue_of_booleanType h₀.newer]
    exact ⟨.cons he.value hes.1, congrArg Nat.succ hes.2⟩

theorem matched_projection (h₀ : GainsBooleans old new) : (columns : List (String × Query)) →
    Matched (List.Forall₂ fun c' c => c'.alias? = c.alias? ∧ c'.expr.ValueAlike old caps c.expr)
      (projection old columns) (projection new columns)
  | [] => by
    rw [projection, projection]
    exact matched_pure .nil
  | (name, q) :: rest => by
    rw [projection, projection]
    refine (matched_expression h₀ q).bind fun e' e he => ?_
    refine (matched_projection h₀ rest).bind fun cs' cs hcs => matched_pure ?_
    rw [asValue_of_booleanType h₀.newer]
    exact .cons ⟨rfl, he.value⟩ hcs

/-- Drafts for the two servers are alike, unless an ordering gets lost. -/
theorem matched_sequence (h₀ : GainsBooleans old new) : (q : Query) →
    Matched (Draft.Alike old caps) (sequence old q) (sequence new q)
  | .source table alias? => by
    rw [sequence, sequence]
    exact matched_pure ⟨⟨rfl, rfl, rfl, id, id, id, .nil⟩, rfl, rfl, rfl, ⟨_, rfl⟩⟩
  | .filter rows predicate => by
    rw [sequence, sequence]
    refine (matched_sequence h₀ rows).bind fun d' d hd => ?_
    rw [hd.isPaged, hd.projected]
    refine (hd.matched_pushDownIf _).bind fun d' d hd => ?_
    rw [hd.row]
    refine ((matched_expression h₀ predicate).inRow d.row).bind fun e' e he => matched_pure ?_
    rw [asPredicate_of_booleanType h₀.newer]
    exact hd.filtered he.writable_asPredicate
  | .project rows columns => by
    rw [sequence, sequence]
    refine (matched_sequence h₀ rows).bind fun d' d hd => ?_
    rw [hd.projected]
    refine (hd.matched_pushDownIf _).bind fun d' d hd => ?_
    rw [hd.row]
    refine ((matched_projection h₀ columns).inRow d.row).bind fun cs' cs hcs => matched_pure ?_
    refine hd.projecting (map_eq_of_forall₂ hcs fun _ _ _ h => h.1) fun hw c hc => ?_
    obtain ⟨c', hc', -, halike⟩ := exists_of_forall₂_right hcs hc
    exact halike.writable (hw c' hc')
  | .skip rows count => by
    rw [sequence, sequence]
    refine (matched_sequence h₀ rows).bind fun d' d hd => ?_
    rw [hd.isPaged]
    refine (hd.matched_pushDownIf _).bind fun d' d hd => ?_
    refine matched_self.bind ?_
    rintro _ e ⟨rfl, -⟩
    exact matched_pure { hd with paging := by rw [hd.paging] }
  | .take rows count => by
    rw [sequence, sequence]
    refine (matched_sequence h₀ rows).bind fun d' d hd => ?_
    rw [hd.paging]
    refine (hd.matched_pushDownIf _).bind fun d' d hd => ?_
    refine matched_self.bind ?_
    rintro _ e ⟨rfl, -⟩
    exact matched_pure { hd with paging := by rw [hd.paging] }
  | .orderBy rows key direction => by
    rw [sequence, sequence]
    refine (matched_sequence h₀ rows).bind fun d' d hd => ?_
    rw [hd.isPaged, hd.projected]
    refine (hd.matched_pushDownIf _).bind fun d' d hd => ?_
    rw [hd.row]
    refine ((matched_expression h₀ key).inRow d.row).bind fun e' e he => matched_pure ?_
    rw [asValue_of_booleanType h₀.newer]
    exact hd.ordered he.value direction
  | .any .. | .member .. | .call .. | .constant _ | .parameter _ | .binary .. | .unary .. => by
    rw [sequence]
    exact matched_throw _ _

theorem matched_meeting (h₀ : GainsBooleans old new) {d d' : Draft} (hd : d'.Alike old caps d) :
    (predicate? : Option Query) →
    Matched (Draft.Alike old caps) (meeting old d' predicate?) (meeting new d predicate?)
  | none => by
    rw [meeting, meeting]
    exact matched_pure hd
  | some predicate => by
    rw [meeting, meeting, hd.isPaged, hd.projected]
    refine (hd.matched_pushDownIf _).bind fun d' d hd => ?_
    rw [hd.row]
    refine ((matched_expression h₀ predicate).inRow d.row).bind fun e' e he => matched_pure ?_
    rw [asPredicate_of_booleanType h₀.newer]
    exact hd.filtered he.writable_asPredicate

end

/-- A statement can be written if its like for the older server can. -/
def AsWritable (caps : Capabilities) (s' s : Select) : Prop :=
  Writable caps (s'.pieces caps) → Writable caps (s.pieces caps)

/-- The statement for the older server is matched, where the older one has no tests at the top. -/
theorem matched_statement (h₀ : GainsBooleans old new) (htop : old.topLevelAny = false)
    (q : Query) : Matched (AsWritable caps) (statement old q) (statement new q) := by
  have hrows (q : Query) : Matched (AsWritable caps)
      (if q.isSequence then sequence old q >>= fun d => liftM d.finish
        else throw (.notAQuery q.kind))
      (if q.isSequence then sequence new q >>= fun d => liftM d.finish
        else throw (.notAQuery q.kind)) := by
    have hsequence : Matched (Draft.Alike old caps) (sequence old q) (sequence new q) :=
      matched_sequence h₀ q
    split
    · refine hsequence.bind fun d' d hd => matched_lift fun s' hs' => .inl ?_
      obtain ⟨s, hs, halike⟩ := hd.finish hs'
      exact ⟨s, hs, halike.writable⟩
    · exact matched_throw _ _
  unfold statement
  refine (Ensures.matched (R := Eq) fun _ _ _ _ => rfl).bind fun _ _ _ => ?_
  cases q with
  | any rows predicate? =>
    intro n m s' h
    obtain ⟨_, _, hrequired, -⟩ := gives_bind.mp h
    obtain ⟨hrequired, -⟩ := gives_lift.mp hrequired
    have hrefused : old.supports .topLevelAny = false := htop
    rw [Capabilities.require, hrefused] at hrequired
    cases hrequired
  | _ => exact hrows _

/-- A query with a statement for the older server has one for the newer one that can be written if
    the other one can, or an ordering gets lost. -/
theorem statement_or_lost (h₀ : GainsBooleans old new) (htop : old.topLevelAny = false) {q : Query}
    {s' : Select} (hs' : Select.ofQuery old q = .ok s') :
    (∃ s, Select.ofQuery new q = .ok s ∧ AsWritable caps s' s) ∨
      Select.ofQuery new q = .error .lostOrdering := by
  obtain ⟨m, hm⟩ := gives_of_ofQuery hs'
  rcases matched_statement h₀ htop q _ m s' hm with ⟨s, hs, hwritable⟩ | hlost
  · exact .inl ⟨s, by rw [Select.ofQuery, hs], hwritable⟩
  · exact .inr hlost

end QueryLoom.Sql

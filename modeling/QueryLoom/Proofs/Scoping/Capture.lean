/-
  QueryLoom/Proofs/Scoping/Capture.lean
  =====================================
  **No column is captured.**  A `Frame` is a row in scope: the alias that the query knows it by,
  the alias of the statement that it comes from now, and its table.  `Placed` says how the
  aliases of statements were chosen: the alias of a table is the one that the query uses, and
  every other alias is a numbered one that no table and no other frame has.  So two frames
  with one alias in the statement have one alias in the query as well, and the innermost
  frame that the statement finds is the innermost one that the query means.

    * `level?_of_row?` — a column of a row in scope has the level that the query means;
    * `traces_of_gives` — the references of a drafted expression are what its scalar mentions,
      each in its place: columns of rows in scope and statements of the sequences tested;
    * `readsAs_of_traces` — so a drafted expression reads as its scalar;
    * `Expr.ReadsAs.rename` — it still does when the innermost alias is replaced by a new one.
-/
import QueryLoom.Proofs.Scoping.Levels

namespace QueryLoom.Sql

/-! ### Frames -/

/-- A row in scope, with its table. -/
structure Frame where
  logical : String
  actual : String
  table : String

namespace Frame

/-- The row as drafting knows it. -/
def scope (f : Frame) : Scope := ⟨f.logical, f.actual⟩

/-- The item that the row has in the statement. -/
def item (f : Frame) : Item := ⟨f.actual, f.table⟩

/-- The source that the row has in the query. -/
def source (f : Frame) : Item := ⟨f.logical, f.table⟩

end Frame

/-- The aliases of the frames were chosen so that none hides another by accident. -/
structure Placed (n : Naming) (frames : List Frame) : Prop where
  named : ∀ f ∈ frames, f.actual ∈ n.sourceAliases → f.actual = f.logical
  generated : ∀ f ∈ frames, f.actual ∉ n.sourceAliases →
    ∃ i < n.derived, f.actual = Text.numbered "t" i
  apart : frames.Pairwise fun f g => f.actual = g.actual → f.actual ∈ n.sourceAliases

theorem placed_nil (n : Naming) : Placed n [] :=
  ⟨fun _ h => absurd h List.not_mem_nil, fun _ h => absurd h List.not_mem_nil, .nil⟩

namespace Placed

variable {n m : Naming} {frames : List Frame}

theorem tail {f : Frame} (h : Placed n (f :: frames)) : Placed n frames :=
  ⟨fun g hg => h.named g (List.mem_cons_of_mem f hg),
    fun g hg => h.generated g (List.mem_cons_of_mem f hg), h.apart.tail⟩

theorem mono (h : Placed n frames) (haliases : m.sourceAliases = n.sourceAliases)
    (hderived : n.derived ≤ m.derived) : Placed m frames := by
  refine ⟨?_, ?_, ?_⟩
  · rw [haliases]
    exact h.named
  · rw [haliases]
    intro f hf hnot
    obtain ⟨i, hi, heq⟩ := h.generated f hf hnot
    exact ⟨i, Nat.lt_of_lt_of_le hi hderived, heq⟩
  · rw [haliases]
    exact h.apart

theorem follows (h : Placed n frames) (hm : m.Follows n) : Placed m frames :=
  h.mono hm.sourceAliases hm.derived

/-- A table comes into scope under its own alias. -/
theorem cons_table (h : Placed n frames) {source table : String}
    (hsource : source ∈ n.sourceAliases) : Placed n (⟨source, source, table⟩ :: frames) := by
  refine ⟨?_, ?_, ?_⟩
  · intro f hf
    rcases List.mem_cons.mp hf with rfl | hf
    · exact fun _ => rfl
    · exact h.named f hf
  · intro f hf
    rcases List.mem_cons.mp hf with rfl | hf
    · exact fun hnot => absurd hsource hnot
    · exact h.generated f hf
  · exact List.pairwise_cons.mpr ⟨fun _ _ _ => hsource, h.apart⟩

/-- No frame has the next alias yet. -/
theorem ne_next (h : Placed n frames) {f : Frame} (hf : f ∈ frames) :
    f.actual ≠ Text.numbered "t" n.next := by
  intro heq
  have hnot : f.actual ∉ n.sourceAliases := by
    rw [heq]
    exact n.numbered_next_not_mem
  obtain ⟨i, hi, hfi⟩ := h.generated f hf hnot
  have hnext : i = n.next := Text.numbered_injective "t" (hfi.symm.trans heq)
  have := n.le_next
  omega

/-- A derived table comes into scope under the next alias. -/
theorem cons_next (h : Placed n frames) (logical table : String) :
    Placed { n with derived := n.next + 1 }
      (⟨logical, Text.numbered "t" n.next, table⟩ :: frames) := by
  have hrest : Placed { n with derived := n.next + 1 } frames :=
    h.mono rfl (Nat.le_succ_of_le n.le_next)
  refine ⟨?_, ?_, ?_⟩
  · intro f hf
    rcases List.mem_cons.mp hf with rfl | hf
    · exact fun hin => absurd hin n.numbered_next_not_mem
    · exact hrest.named f hf
  · intro f hf
    rcases List.mem_cons.mp hf with rfl | hf
    · exact fun _ => ⟨n.next, Nat.lt_succ_self _, rfl⟩
    · exact hrest.generated f hf
  · refine List.pairwise_cons.mpr ⟨?_, hrest.apart⟩
    intro g hg heq
    exact absurd heq.symm (h.ne_next hg)

end Placed

/-! ### Levels of rows in scope -/

theorem level?_append_cons (before : List Item) {after : List Item} {i : Item}
    (hbefore : ∀ j ∈ before, j.source ≠ i.source) :
    level? (before ++ i :: after) i.source = some before.length := by
  unfold level?
  induction before with
  | nil => simp [List.findIdx?_cons]
  | cons j before ih =>
    have hj := hbefore j List.mem_cons_self
    rw [List.cons_append, List.findIdx?_cons, beq_eq_false_iff_ne.mpr hj,
      ih fun k hk => hbefore k (List.mem_cons_of_mem j hk)]
    rfl

/-- A column of a row in scope has the level that the query means. -/
theorem level?_of_row? {n : Naming} {frames : List Frame} (h : Placed n frames)
    (hscopes : n.scopes = frames.map Frame.scope) {alias? : Option String} {row : Scope}
    (hrow : n.row? alias? = some row) :
    level? (frames.map Frame.item) row.actual = meant? (frames.map Frame.source) alias? ∧
      (level? (frames.map Frame.item) row.actual).isSome = true := by
  cases alias? with
  | none =>
    simp only [Naming.row?, hscopes] at hrow
    cases frames with
    | nil => cases hrow
    | cons f rest =>
      cases hrow
      have hzero : level? ((f :: rest).map Frame.item) f.actual = some 0 :=
        level?_append_cons [] (i := f.item) (by simp)
      rw [show f.scope.actual = f.actual from rfl, hzero]
      exact ⟨rfl, rfl⟩
  | some source =>
    simp only [Naming.row?, hscopes, List.find?_map] at hrow
    obtain ⟨f, hfind, rfl⟩ := Option.map_eq_some_iff.mp hrow
    obtain ⟨hf, before, after, rfl, hbefore⟩ := List.find?_eq_some_iff_append.mp hfind
    have hlogical : f.logical = source := by simpa [Frame.scope] using hf
    have hne : ∀ g ∈ before, g.logical ≠ source := by
      intro g hg
      simpa [Frame.scope] using hbefore g hg
    have hmem : f ∈ before ++ f :: after := by simp
    -- a frame further in with the same alias would be the table that the query means
    have happart : ∀ g ∈ before, g.actual ≠ f.actual := by
      intro g hg heq
      have hgmem : g ∈ before ++ f :: after := List.mem_append_left _ hg
      have htable := (List.pairwise_append.mp h.apart).2.2 g hg f List.mem_cons_self heq
      have hglogical := h.named g hgmem htable
      rw [heq] at htable
      have hflogical := h.named f hmem htable
      exact hne g hg (by rw [← hglogical, heq, hflogical, hlogical])
    have hactual : level? ((before ++ f :: after).map Frame.item) f.actual
        = some before.length := by
      rw [List.map_append, List.map_cons,
        ← (List.length_map Frame.item : (before.map Frame.item).length = before.length)]
      refine level?_append_cons _ (i := f.item) ?_
      intro j hj
      obtain ⟨g, hg, rfl⟩ := List.mem_map.mp hj
      exact happart g hg
    have hsource : level? ((before ++ f :: after).map Frame.source) source
        = some before.length := by
      rw [← hlogical, List.map_append, List.map_cons,
        ← (List.length_map Frame.source : (before.map Frame.source).length = before.length)]
      refine level?_append_cons _ (i := f.source) ?_
      intro j hj
      obtain ⟨g, hg, rfl⟩ := List.mem_map.mp hj
      rw [show f.source.source = source from hlogical]
      exact hne g hg
    rw [show f.scope.actual = f.actual from rfl, hactual, meant?, hsource]
    exact ⟨rfl, rfl⟩

/-! ### What drafted expressions refer to -/

/-- A test for rows is the statement of one of the sequences, drafted with the same rows in
    scope. -/
def Tested (caps : Capabilities) (n : Naming) (tests : List Query) (rows : Select) : Prop :=
  ∃ t ∈ tests, ∃ n' d m', n'.Follows n ∧ Gives (sequence caps t) n' d m' ∧
    d.existence = .ok rows

/-- A reference was drafted for what is mentioned: for a column the column of the row in scope, for a
    test of one of the sequences its statement. -/
inductive Traces (caps : Capabilities) (n : Naming) (tests : List Query) : Expr → Mention → Prop
  | column {alias? : Option String} {row : Scope} {name : String}
      (hrow : n.row? alias? = some row) :
    Traces caps n tests (.column row.actual name) (.column alias? name)
  | test {t : Query} {n' m' : Naming} {d : Draft} {rows : Select} (ht : t ∈ tests)
      (hn' : n'.Follows n) (hd : Gives (sequence caps t) n' d m') (hrows : d.existence = .ok rows) :
    Traces caps n tests (.existsRow rows) (.test t)

theorem Traces.mono {caps : Capabilities} {n m : Naming} {tests more : List Query} {x : Expr}
    {y : Mention} (h : Traces caps m tests x y) (hm : m.Follows n) (hsub : tests ⊆ more) :
    Traces caps n more x y := by
  cases h with
  | column hrow =>
    rw [Naming.row?_congr hm.scopes] at hrow
    exact .column hrow
  | test ht hn' hd hrows => exact .test (hsub ht) (hn'.trans hm) hd hrows

theorem related_collecting {α β : Type} (R : α → β → Prop) :
    (collecting α).Related (collecting β) (List.Forall₂ R) :=
  ⟨fun _ => .nil, fun _ _ _ h => List.rel_flatten h, .nil⟩

/-- An operation refers to what is mentioned if its operands do. -/
theorem references_of_apply {caps : Capabilities} {R : Expr → Mention → Prop} {op : Operation}
    {arity : Nat} {x : Mapping} {receiver? : Option Expr} {args : List Expr} {e : Expr}
    {mentioned : List (List Mention)} (hx : Mapping.find op arity = .ok x)
    (happly : x.apply caps receiver? args = .ok e)
    (h : List.Forall₂ (List.Forall₂ R) ((receiver?.toList ++ args).map Expr.references) mentioned) :
    List.Forall₂ R e.references (operationValue (collecting Mention) caps op arity
      (secondLiteral? (receiver?.toList ++ args)) mentioned) := by
  rw [Mapping.value_of_apply evaluates_references happly, ← operationValue_eq _ caps hx]
  exact operationValue_related (related_collecting R) caps op arity _ h

theorem mentions_of_isNullConstant (caps : Capabilities) {q : Query}
    (h : isNullConstant q = true) : mentions caps q = [] := by
  cases q <;> first
    | rfl
    | cases h

mutual

/-- The references of a drafted expression are what its scalar mentions, each in its place. -/
theorem traces_of_gives {caps : Capabilities} {n m : Naming} {e : Expr} :
    {q : Query} → Gives (expression caps q) n e m →
      List.Forall₂ (Traces caps n q.tests) e.references (mentions caps q)
  | .constant _, h => by
    rw [(gives_constant.mp h).1]
    exact .nil
  | .parameter _, h => by
    rw [(gives_parameter.mp h).1]
    exact .nil
  | .member receiver? (.column alias? name), h => by
    obtain ⟨_, row, hrow, rfl, _⟩ := gives_column.mp h
    rw [mentions]
    exact .cons (.column hrow) .nil
  | .member receiver? (.property p), h => by
    obtain ⟨receiver, mapping, hreceiver, hmapping, happly⟩ := gives_property.mp h
    have hone : secondLiteral? (receiver.toList ++ []) = none := by
      cases receiver <;> rfl
    rw [mentions, Query.tests, ← hone]
    refine references_of_apply hmapping happly ?_
    rw [List.append_nil]
    exact traces_of_gives_optionValue hreceiver
  | .call receiver? method args, h => by
    obtain ⟨mapping, receiver, k, es, hmapping, hreceiver, hes, happly⟩ := gives_call.mp h
    have hk := (keepsNames_optionValue caps receiver?).of_gives hreceiver
    have hliterals : (receiver.toList ++ es).map Expr.literal?
        = (receiver?.toList ++ args).map Query.constant? := by
      rw [List.map_append, List.map_append, literals_of_gives_optionValue hreceiver,
        literals_of_gives_values hes]
    rw [mentions, Query.tests, ← secondLiteral?_eq hliterals]
    refine references_of_apply hmapping happly ?_
    rw [List.map_append]
    refine List.rel_append ?_ ?_
    · exact (traces_of_gives_optionValue hreceiver).imp fun _ _ h =>
        h.imp fun _ _ hx => hx.mono (.refl _) (List.subset_append_left _ _)
    · exact (traces_of_gives_values hes).imp fun _ _ h =>
        h.imp fun _ _ hx => hx.mono hk (List.subset_append_right _ _)
  | .binary left op right, h => by
    have hl : ∀ {l k}, Gives (expression caps left) n l k → List.Forall₂
        (Traces caps n (left.tests ++ right.tests)) l.references (mentions caps left) := fun hl =>
      (traces_of_gives hl).imp fun _ _ hx => hx.mono (.refl _) (List.subset_append_left _ _)
    have hr : ∀ {r k k'}, k.Follows n → Gives (expression caps right) k r k' → List.Forall₂
        (Traces caps n (left.tests ++ right.tests)) r.references (mentions caps right) :=
      fun hk hr => (traces_of_gives hr).imp fun _ _ hx => hx.mono hk (List.subset_append_right _ _)
    rw [gives_binary] at h
    rw [mentions, Query.tests]
    split at h
    · rename_i hnull
      obtain ⟨r, hright, rfl⟩ := h
      rw [mentions_of_isNullConstant caps (Bool.and_eq_true_iff.mp hnull).2, List.nil_append,
        references_isNull, references_asValue]
      exact hr (.refl n) hright
    · split at h
      · rename_i hnull
        obtain ⟨l, hleft, rfl⟩ := h
        rw [mentions_of_isNullConstant caps (Bool.and_eq_true_iff.mp hnull).2, List.append_nil,
          references_isNull, references_asValue]
        exact hl hleft
      · obtain ⟨l, k, r, hleft, hright, rfl⟩ := h
        rw [references_binary, references_operand, references_operand]
        exact List.rel_append (hl hleft)
          (hr ((keepsNames_expression caps left).of_gives hleft) hright)
  | .unary .not operand, h => by
    obtain ⟨e', he, rfl⟩ := gives_not.mp h
    rw [mentions, Query.tests, references_unary, references_asPredicate]
    exact traces_of_gives he
  | .unary .negate operand, h => by
    obtain ⟨e', he, rfl⟩ := gives_negate.mp h
    rw [mentions, Query.tests, references_unary, references_asValue]
    exact traces_of_gives he
  | .any rows none, h => by
    obtain ⟨d, k, _, s, hd, hnone, hs, rfl⟩ := gives_any.mp h
    obtain ⟨rfl, rfl⟩ := gives_meeting_none.mp hnone
    rw [mentions]
    exact .cons (.test List.mem_cons_self (.refl _) hd hs) .nil
  | .any rows (some predicate), h => by
    obtain ⟨d', k, d, s, hd', hd, hs, rfl⟩ := gives_any.mp h
    have hfilter := gives_filter.mpr ⟨d', k, hd', hd⟩
    rw [mentions]
    exact .cons (.test List.mem_cons_self (.refl n) hfilter hs) .nil
  | .source .., h | .filter .., h | .project .., h | .skip .., h | .take .., h
  | .orderBy .., h => absurd h (not_gives_expression rfl)

theorem traces_of_gives_optionValue {caps : Capabilities} {n m : Naming} {e? : Option Expr} :
    {q? : Option Query} → Gives (optionValue caps q?) n e? m →
      List.Forall₂ (List.Forall₂ (Traces caps n (Query.optionTests q?)))
        (e?.toList.map Expr.references) (optionMentions caps q?)
  | none, h => by
    rw [(gives_optionValue_none.mp h).1]
    exact .nil
  | some q, h => by
    obtain ⟨e, he, rfl⟩ := gives_optionValue_some.mp h
    rw [Option.toList, List.map_singleton, references_asValue]
    exact .cons (traces_of_gives he) .nil

theorem traces_of_gives_values {caps : Capabilities} {n m : Naming} {es : List Expr} :
    {qs : List Query} → Gives (values caps qs) n es m →
      List.Forall₂ (List.Forall₂ (Traces caps n (Query.listTests qs))) (es.map Expr.references)
        (listMentions caps qs)
  | [], h => by
    rw [(gives_values_nil.mp h).1]
    exact .nil
  | q :: rest, h => by
    obtain ⟨e, k, es', he, hes, rfl⟩ := gives_values_cons.mp h
    have hk := (keepsNames_expression caps q).of_gives he
    rw [List.map_cons, references_asValue]
    refine .cons ?_ ?_
    · exact (traces_of_gives he).imp fun _ _ hx => hx.mono (.refl _) (List.subset_append_left _ _)
    · exact (traces_of_gives_values hes).imp fun _ _ h =>
        h.imp fun _ _ hx => hx.mono hk (List.subset_append_right _ _)

end

/-- A test in an expression that was drafted is one of the sequences tested. -/
theorem tested_of_traces {caps : Capabilities} {n : Naming} {tests : List Query} {e : Expr}
    {mentioned : List Mention} (h : List.Forall₂ (Traces caps n tests) e.references mentioned)
    {rows : Select} (hrows : .existsRow rows ∈ e.parts) : Tested caps n tests rows := by
  obtain ⟨y, _, htrace⟩ := exists_of_forall₂_left h (mem_references.mpr ⟨hrows, rfl⟩)
  cases htrace with
  | test ht hn' hd hexistence => exact ⟨_, ht, _, _, _, hn', hd, hexistence⟩

theorem tested_of_gives {caps : Capabilities} {n m : Naming} {q : Query} {e : Expr}
    (h : Gives (expression caps q) n e m) {rows : Select} (hrows : .existsRow rows ∈ e.parts) :
    Tested caps n q.tests rows :=
  tested_of_traces (traces_of_gives h) hrows

/-- The columns drafted for a projection have its names and refer to what its scalars mention. -/
theorem columns_trace_of_gives {caps : Capabilities} {n m : Naming}
    {columns : List (String × Query)} {cs : List Column}
    (h : Gives (projection caps columns) n cs m) :
    List.Forall₂ (fun c p => c.alias? = some p.1 ∧ List.Forall₂ (Traces caps n p.2.tests)
      c.expr.references (mentions caps p.2)) cs columns := by
  induction columns generalizing n cs with
  | nil =>
    rw [(gives_projection_nil.mp h).1]
    exact .nil
  | cons p rest ih =>
    obtain ⟨e, k, cs', he, hcs', rfl⟩ := gives_projection_cons.mp h
    have hk := (keepsNames_expression caps p.2).of_gives he
    refine .cons ⟨rfl, ?_⟩ ((ih hcs').imp fun c p' h => ⟨h.1, ?_⟩)
    · rw [references_asValue]
      exact traces_of_gives he
    · exact h.2.imp fun _ _ hx => hx.mono hk (List.Subset.refl _)

/-! ### Reading alike -/

/-- Where the rows in scope are placed, what was drafted for a scalar reads as the scalar. -/
theorem readsAs_of_traces {caps : Capabilities} {n : Naming} {frames : List Frame}
    (h : Placed n frames) (hscopes : n.scopes = frames.map Frame.scope) {tests : List Query}
    {p : Query} {e : Expr}
    (he : List.Forall₂ (Traces caps n tests) e.references (mentions caps p)) :
    e.ReadsAs caps (frames.map Frame.item) (frames.map Frame.source) p := by
  refine he.imp fun x y hx => ?_
  cases hx with
  | column hrow =>
    obtain ⟨hmeant, hsome⟩ := level?_of_row? h hscopes hrow
    obtain ⟨level, hlevel⟩ := Option.isSome_iff_exists.mp hsome
    exact .column hlevel (hmeant ▸ hlevel)
  | test => exact .test _ _

section

variable {caps : Capabilities} {items meant : List Item} {e : Expr} {p : Query}
  (h : e.ReadsAs caps items meant p)

include h

theorem Expr.ReadsAs.asValue : (asValue caps e).ReadsAs caps items meant p := by
  rw [Expr.ReadsAs, references_asValue]
  exact h

theorem Expr.ReadsAs.asPredicate : (asPredicate caps e).ReadsAs caps items meant p := by
  rw [Expr.ReadsAs, references_asPredicate]
  exact h

/-- What agrees with an expression reads alike. -/
theorem Expr.ReadsAs.of_agrees {e' : Expr} (hagrees : e'.agrees e = true) :
    e'.ReadsAs caps items meant p := by
  have hboth := references_of_agrees e' e hagrees
  refine forall₂_trans hboth h fun x' x y hx hy => ?_
  cases hy with
  | column hlevel hmeant =>
    cases Expr.agrees_iff.mp hx with
    | column => exact .column hlevel hmeant
    | operator _ hop => cases hop
  | test rows t =>
    cases Expr.agrees_iff.mp hx with
    | existsRow => exact .test _ t
    | operator _ hop => cases hop

end

/-! ### A new alias -/

theorem level?_cons_self (i : Item) (items : List Item) :
    level? (i :: items) i.source = some 0 := by
  simp [level?, List.findIdx?_cons]

theorem level?_cons_ne {i : Item} {source : String} (h : i.source ≠ source)
    (items : List Item) : level? (i :: items) source = (level? items source).map (· + 1) := by
  simp [level?, List.findIdx?_cons, beq_eq_false_iff_ne.mpr h]

theorem level?_eq_none {items : List Item} {source : String}
    (h : ∀ i ∈ items, i.source ≠ source) : level? items source = none := by
  unfold level?
  rw [List.findIdx?_eq_none_iff]
  intro i hi
  exact beq_eq_false_iff_ne.mpr (h i hi)

/-- A column with a level keeps it when the innermost item gets an alias that no other one
    has. -/
theorem level?_renamed {old new table source : String} {around : List Item}
    (hnew : ∀ i ∈ around, i.source ≠ new)
    (h : (level? (⟨old, table⟩ :: around) source).isSome = true) :
    level? (⟨new, table⟩ :: around) (renamed old new source)
      = level? (⟨old, table⟩ :: around) source := by
  unfold renamed
  split
  · rename_i heq
    rw [heq]
    exact (level?_cons_self ⟨new, table⟩ around).trans (level?_cons_self ⟨old, table⟩ around).symm
  · rename_i hne
    have hold := level?_cons_ne (i := ⟨old, table⟩) (Ne.symm hne) around
    have hsource : new ≠ source := by
      rintro rfl
      rw [hold, level?_eq_none hnew] at h
      cases h
    rw [hold]
    exact level?_cons_ne (i := ⟨new, table⟩) hsource around

theorem Expr.ReadsAs.rename {caps : Capabilities} {old new table : String}
    {around meant : List Item} {e : Expr} {p : Query}
    (h : e.ReadsAs caps (⟨old, table⟩ :: around) meant p)
    (hnew : ∀ i ∈ around, i.source ≠ new) :
    (e.rename old new).ReadsAs caps (⟨new, table⟩ :: around) meant p := by
  rw [Expr.ReadsAs, references_rename, List.forall₂_map_left_iff]
  refine h.imp fun x y hx => ?_
  cases hx with
  | column hlevel hmeant =>
    refine .column ?_ hmeant
    rw [level?_renamed hnew (by rw [hlevel]; rfl), hlevel]
  | test rows t => exact .test rows t

end QueryLoom.Sql

/-
  QueryLoom/Proofs/Drafting/Acceptance.lean
  =========================================
  **A query has a statement just when it is well formed.**  Each step of the recursion succeeds
  exactly if the sites that it goes through are sound: the scope that the recursion keeps lists
  the sources of the site, an operation can be written if the mapping table allows it, and a
  draft can always be pushed down and finished where orderings are spared.

    * `exists_apply_iff` — operations;
    * `succeeds_expression_iff`, `succeeds_sequence_iff` — scalars and sequences;
    * `accepts_iff_isWellFormed` — whole queries, on every server.
-/
import QueryLoom.Proofs.Drafting.Condition
import QueryLoom.Proofs.Drafting.Readiness
import QueryLoom.Proofs.Drafting.Vocabulary
import QueryLoom.Proofs.Meaning.Scalar

namespace QueryLoom.Sql

open Query (Site)

variable {caps : Capabilities}

/-! ### Operations -/

/-- Only the number of its operands decides whether a template can be filled in. -/
theorem Template.isSome_build?_congr (t : Template) {es es' : List Expr}
    (h : es.length = es'.length) : (t.build? es).isSome = (t.build? es').isSome := by
  rcases es with _ | ⟨e₁, _ | ⟨e₂, _ | ⟨e₃, _ | ⟨e₄, es⟩⟩⟩⟩ <;>
    rcases es' with _ | ⟨e₁', _ | ⟨e₂', _ | ⟨e₃', _ | ⟨e₄', es'⟩⟩⟩⟩ <;>
    simp only [List.length_cons, List.length_nil] at h <;>
    first
      | omega
      | cases t <;> rfl

/-- Every mapping has a template for as many operands as it takes. -/
theorem Mapping.isSome_build? : ∀ x ∈ Mapping.all,
    (x.template.build? (List.replicate (x.hasReceiver.toNat + x.arity) default)).isSome = true := by
  decide

theorem Adjustment.length_operands {a : Adjustment} {es es' : List Expr}
    (h : a.operands caps es = .ok es') : es'.length = es.length := by
  rcases Adjustment.operands_eq_ok h with rfl | ⟨text, start, start', rest, rfl, rfl, -⟩
  · rfl
  · rfl

/-- The starts of texts are counted from one, and nothing else is. -/
theorem Mapping.isSubstring_of_adjustment : ∀ x ∈ Mapping.all,
    x.adjustment = .oneBasedStart ↔ x.operation = .method .substring := by
  decide

theorem Mapping.hasReceiver_substring : ∀ x ∈ Mapping.all,
    x.operation = .method .substring → x.hasReceiver = true ∧ 0 < x.arity := by
  decide

theorem exists_oneBased_iff {start : Expr} :
    (∃ e, oneBased start = .ok e) ↔ ∀ v, start.literal? = some v → v.isNatural = true := by
  cases start with
  | literal v =>
    simp only [oneBased, Expr.literal?, Option.some.injEq, forall_eq', Value.isNatural]
    cases hinteger : v.integer? with
    | none => simp
    | some n =>
      by_cases hn : n < 0
      · simp [hn]
      · simp [hn, Int.not_lt.mp hn]
  | _ => simp [oneBased, Expr.literal?]

/-- An adjustment only looks at the start of a text. -/
theorem Adjustment.exists_operands_iff (hcaps : caps.oneBasedSubstring = true) {a : Adjustment}
    {es : List Expr} : (∃ es', a.operands caps es = .ok es') ↔
      (a = .oneBasedStart → ∀ text start rest, es = text :: start :: rest →
        ∀ v, start.literal? = some v → v.isNatural = true) := by
  rw [Adjustment.operands.eq_def]
  split
  · next text start rest =>
    rw [if_pos hcaps]
    have hmap : (∃ es', (oneBased start).map (fun start => text :: start :: rest) = .ok es') ↔
        ∃ e, oneBased start = .ok e := by
      cases oneBased start <;> simp [Except.map]
    rw [hmap, exists_oneBased_iff]
    constructor
    · rintro h - _ _ _ ⟨⟩
      exact h
    · intro h
      exact h rfl text start rest rfl
  · next hother =>
    refine iff_of_true ⟨es, rfl⟩ ?_
    rintro rfl text start rest rfl
    exact absurd rfl (hother text start rest rfl)

theorem Mapping.find_eq_ok {op : Operation} {arity : Nat} {x : Mapping} :
    Mapping.find op arity = .ok x ↔ Mapping.find? op arity = some x := by
  rw [Mapping.find]
  cases Mapping.find? op arity <;> simp

theorem Mapping.arity_of_find {op : Operation} {arity : Nat} {x : Mapping}
    (h : Mapping.find op arity = .ok x) : x.arity = arity := by
  have hfound := List.find?_some (Mapping.find_eq_ok.mp h)
  simp only [Bool.and_eq_true, beq_iff_eq] at hfound
  exact hfound.2

/-- What an operation needs besides its operands, and what it makes of them. -/
theorem apply_eq_ok_iff {x : Mapping} {receiver? : Option Expr} {args : List Expr} {e : Expr} :
    x.apply caps receiver? args = .ok e ↔ x.requires?.all caps.supports = true ∧
      receiver?.isSome = x.hasReceiver ∧ args.length = x.arity ∧
      ∃ operands built, x.adjustment.operands caps (receiver?.toList ++ args) = .ok operands ∧
        x.template.build? operands = some built ∧ e = x.adjustment.result built := by
  have hrequire : ∀ feature, caps.require feature = .ok () ↔ caps.supports feature = true := by
    intro feature
    rw [Capabilities.require]
    cases caps.supports feature <;> simp
  constructor
  · intro h
    have hsupports := Mapping.supports_of_apply h
    have hmatched : receiver?.isSome = x.hasReceiver ∧ args.length = x.arity := by
      constructor
      · by_contra hreceiver
        simp [Mapping.apply, hreceiver, bind, Except.bind, throw, throwThe,
          MonadExceptOf.throw] at h
        repeat' split at h
        all_goals cases h
      · by_contra hlength
        simp [Mapping.apply, hlength, bind, Except.bind, throw, throwThe, MonadExceptOf.throw] at h
        repeat' split at h
        all_goals cases h
    exact ⟨hsupports, hmatched.1, hmatched.2, Mapping.apply_eq_ok h⟩
  · rintro ⟨hsupports, hreceiver, hlength, operands, built, hoperands, hbuilt, rfl⟩
    cases hfeature : x.requires? with
    | none => simp [Mapping.apply, hfeature, hreceiver, hlength, hoperands, hbuilt, bind,
        Except.bind, pure, Except.pure]
    | some feature =>
      rw [hfeature, Option.all_some, ← hrequire] at hsupports
      simp [Mapping.apply, hfeature, hsupports, hreceiver, hlength, hoperands, hbuilt, bind,
        Except.bind, pure, Except.pure]

/-- A mapping of the table can be applied when the server has its feature, there is a receiver if
    it wants one, the arguments are as many as it takes, and the start of a text is not a constant
    that no text starts at. -/
theorem exists_apply_iff {op : Operation} {x : Mapping} {receiver? : Option Expr}
    {args : List Expr} (hcaps : caps.oneBasedSubstring = true)
    (hx : Mapping.find op args.length = .ok x) :
    (∃ e, x.apply caps receiver? args = .ok e) ↔
      (x.requires?.all caps.supports = true ∧ receiver?.isSome = x.hasReceiver) ∧
      (op = .method .substring → ∀ start ∈ args.head?, ∀ v, start.literal? = some v →
        v.isNatural = true) := by
  have hmem := Mapping.mem_of_find hx
  have harity := Mapping.arity_of_find hx
  have hoperation := Mapping.operation_of_find hx
  have hbuild : ∀ operands,
      x.adjustment.operands caps (receiver?.toList ++ args) = .ok operands →
      receiver?.isSome = x.hasReceiver → ∃ built, x.template.build? operands = some built := by
    intro operands hoperands hreceiver
    rw [← Option.isSome_iff_exists, ← Mapping.isSome_build? x hmem]
    refine x.template.isSome_build?_congr ?_
    rw [Adjustment.length_operands hoperands, List.length_append, List.length_replicate, harity,
      ← hreceiver, length_toList]
  have hadjusts :
      (∃ operands, x.adjustment.operands caps (receiver?.toList ++ args) = .ok operands) ↔
      (op = .method .substring → ∀ text start rest,
        receiver?.toList ++ args = text :: start :: rest →
        ∀ v, start.literal? = some v → v.isNatural = true) := by
    rw [Adjustment.exists_operands_iff hcaps, ← hoperation,
      Mapping.isSubstring_of_adjustment x hmem]
  have hstart : receiver?.isSome = x.hasReceiver → op = .method .substring → ∀ start,
      start ∈ args.head? ↔ ∃ text rest, receiver?.toList ++ args = text :: start :: rest := by
    intro hreceiver hop start
    have hgiven := (Mapping.hasReceiver_substring x hmem (hoperation.trans hop)).1
    rw [hgiven, Option.isSome_iff_exists] at hreceiver
    obtain ⟨text, rfl⟩ := hreceiver
    cases args <;> simp [eq_comm]
  constructor
  · rintro ⟨e, happly⟩
    obtain ⟨hsupports, hreceiver, -, operands, built, hoperands, -, -⟩ :=
      apply_eq_ok_iff.mp happly
    refine ⟨⟨hsupports, hreceiver⟩, fun hop start hhead => ?_⟩
    obtain ⟨text, rest, hes⟩ := (hstart hreceiver hop start).mp hhead
    exact hadjusts.mp ⟨operands, hoperands⟩ hop text start rest hes
  · rintro ⟨⟨hsupports, hreceiver⟩, hnatural⟩
    obtain ⟨operands, hoperands⟩ := hadjusts.mpr fun hop text start rest hes =>
      hnatural hop start ((hstart hreceiver hop start).mpr ⟨text, rest, hes⟩)
    obtain ⟨built, hbuilt⟩ := hbuild operands hoperands hreceiver
    exact ⟨_, apply_eq_ok_iff.mpr
      ⟨hsupports, hreceiver, harity.symm, operands, built, hoperands, hbuilt, rfl⟩⟩

/-! ### Sites -/

/-- The nodes of all sites are what is wanted there. -/
def Sound (caps : Capabilities) (sites : List Site) : Prop :=
  ∀ site ∈ sites, site.isSound caps = true

@[simp] theorem sound_nil : Sound caps [] := List.forall_mem_nil _

@[simp] theorem sound_cons {site : Site} {sites : List Site} :
    Sound caps (site :: sites) ↔ site.isSound caps = true ∧ Sound caps sites :=
  List.forall_mem_cons

@[simp] theorem sound_append {sites sites' : List Site} :
    Sound caps (sites ++ sites') ↔ Sound caps sites ∧ Sound caps sites' :=
  List.forall_mem_append

/-- The rows in scope are those that sites are given. -/
def Naming.Has (n : Naming) (scope : List String) : Prop := n.scopes.map Scope.logical = scope

variable {n m : Naming} {scope : List String}

theorem Naming.Has.follows (h : n.Has scope) (hm : m.Follows n) : m.Has scope := by
  rw [Naming.Has, hm.scopes]
  exact h

/-- A column can be read where there is a row, and the alias is that of one. -/
theorem succeeds_resolve_iff (h : n.Has scope) (hscope : scope ≠ []) {alias? : Option String}
    {name : String} :
    Succeeds (resolve alias? name) n ↔ alias?.all scope.contains = true := by
  have hrow : Succeeds (resolve alias? name) n ↔ ∃ row, n.row? alias? = some row := by
    constructor
    · rintro ⟨e, k, he⟩
      obtain ⟨row, hrow, -⟩ := gives_resolve.mp he
      exact ⟨row, hrow⟩
    · rintro ⟨row, hrow⟩
      exact ⟨_, n, gives_resolve.mpr ⟨row, hrow, rfl, rfl⟩⟩
  rw [hrow, ← Option.isSome_iff_exists]
  subst h
  cases alias? with
  | none =>
    rw [Naming.row?]
    cases hscopes : n.scopes with
    | nil => exact absurd (by rw [hscopes]; rfl) hscope
    | cons row rest => simp
  | some source =>
    rw [Naming.row?, Option.all_some, List.find?_isSome, List.contains_iff_mem, List.mem_map]
    simp only [beq_iff_eq]

/-! ### One operator -/

/-- All of the nodes leave orderings as they can be kept. -/
def Sparing (nodes : List Query) : Prop := ∀ x ∈ nodes, x.sparesOrderings = true

@[simp] theorem sparing_nil : Sparing [] := List.forall_mem_nil _

@[simp] theorem sparing_cons {q : Query} {nodes : List Query} :
    Sparing (q :: nodes) ↔ q.sparesOrderings = true ∧ Sparing nodes := List.forall_mem_cons

@[simp] theorem sparing_append {nodes nodes' : List Query} :
    Sparing (nodes ++ nodes') ↔ Sparing nodes ∧ Sparing nodes' := List.forall_mem_append

theorem Drafts.pushDownIf {q : Query} {d d' : Draft} {k : Naming} {needed : Bool}
    (hd : Drafts caps q n d m) (h : Gives (pushDownIf needed d) m d' k) : Drafts caps q n d' k := by
  rw [gives_pushDownIf] at h
  split at h
  · exact hd.pushed h
  · obtain ⟨rfl, rfl⟩ := h
    exact hd

/-- An operator on a sequence succeeds if the sequence does and the rest of the operator does. -/
theorem succeeds_operator_iff {α : Type} {rows : Query} {f : Draft → Drafting α} {P : Prop}
    (needed : Draft → Bool) (hrows : Sparing rows.nodes)
    (hf : ∀ d m, Drafts caps rows n d m → (Succeeds (f d) m ↔ P)) :
    Succeeds (do
      let d ← sequence caps rows
      let d ← pushDownIf (needed d) d
      f d) n ↔ Succeeds (sequence caps rows) n ∧ P := by
  refine succeeds_bind_iff fun d m hd => ?_
  have hd := drafts_of_gives hd
  rw [succeeds_bind_iff fun d' k hpush => hf d' k (hd.pushDownIf hpush)]
  exact and_iff_right (succeeds_pushDownIf hd hrows (needed d))

/-- What is in scope for the scalars of an operator. -/
theorem Drafts.has {rows : Query} {d : Draft} (hd : Drafts caps rows n d m)
    (hrows : Sparing rows.nodes) (h : n.Has scope) :
    ({ m with scopes := d.row :: m.scopes } : Naming).Has (rows.rowAlias :: scope) := by
  rw [Naming.Has, List.map_cons, (ready_of_drafts hd hrows).row, h.follows hd.follows]

/-! ### Operations on scalars -/

/-- An operation is mapped if its mapping can be applied, the starts of texts aside. -/
theorem succeeds_apply_iff (hcaps : caps.oneBasedSubstring = true) {op : Operation} {x : Mapping}
    {receiver? : Option Expr} {args : List Expr} (hx : Mapping.find op args.length = .ok x) :
    Succeeds (liftM (x.apply caps receiver? args)) n ↔
      Mapping.isFor caps op receiver?.isSome args.length = true ∧
      (op = .method .substring → ∀ start ∈ args.head?, ∀ v, start.literal? = some v →
        v.isNatural = true) := by
  have hmapped : Mapping.isFor caps op receiver?.isSome args.length = true ↔
      x.requires?.all caps.supports = true ∧ receiver?.isSome = x.hasReceiver := by
    rw [Mapping.isFor, Mapping.find_eq_ok.mp hx, Option.any_some, Bool.and_eq_true, beq_iff_eq,
      and_comm, eq_comm (a := x.hasReceiver)]
  rw [succeeds_lift, exists_apply_iff hcaps hx, hmapped]

theorem not_isFor_of_find {op : Operation} {arity : Nat} {err : CompileError} {given : Bool}
    (hx : Mapping.find op arity = .error err) : Mapping.isFor caps op given arity = false := by
  rw [Mapping.find] at hx
  rw [Mapping.isFor]
  cases hfound : Mapping.find? op arity with
  | none => rfl
  | some x =>
    rw [hfound] at hx
    cases hx

theorem isSome_of_gives_optionValue {q? : Option Query} {e? : Option Expr}
    (h : Gives (optionValue caps q?) n e? m) : e?.isSome = q?.isSome := by
  have hlength := congrArg List.length (literals_of_gives_optionValue h)
  cases e? <;> cases q? <;> simp_all

theorem length_of_gives_values {qs : List Query} {es : List Expr}
    (h : Gives (values caps qs) n es m) : es.length = qs.length := by
  simpa using congrArg List.length (literals_of_gives_values h)

/-- The start of a text is a literal where it is a constant. -/
theorem forall_start_iff {qs : List Query} {es : List Expr} (h : Gives (values caps qs) n es m) :
    (∀ start ∈ es.head?, ∀ v, start.literal? = some v → v.isNatural = true) ↔
      qs.head?.all Query.isStart = true := by
  have hliterals := literals_of_gives_values h
  cases es with
  | nil =>
    rw [List.map_nil, eq_comm, List.map_eq_nil_iff] at hliterals
    simp [hliterals]
  | cons e es =>
    cases qs with
    | nil => cases hliterals
    | cons q qs =>
      rw [List.map_cons, List.map_cons, List.cons.injEq] at hliterals
      simp only [List.head?_cons, Option.mem_def, Option.some.injEq, forall_eq', Option.all_some,
        hliterals.1]
      cases q <;> simp [Query.constant?, Query.isStart]

/-- A comparison with null does not take the null over, and nothing is wrong with a null. -/
theorem sound_of_isNullConstant {q : Query} (hq : isNullConstant q = true) :
    Sound caps (q.scalarSites scope) := by
  cases q <;> first
    | cases hq
    | simp [Query.scalarSites, Site.isSound, Query.isSequence]

/-! ### Tests -/

/-- Once there is a draft of the sequence, it can be tested for rows. -/
theorem succeeds_any_none_iff {rows : Query} (hrows : Sparing rows.nodes) :
    Succeeds (expression caps (.any rows none)) n ↔ Succeeds (sequence caps rows) n := by
  simp only [expression, meeting, pure_bind]
  refine (succeeds_bind_iff fun d m hd => iff_true_intro ?_).trans (and_iff_left trivial)
  rw [succeeds_bind_pure, succeeds_lift]
  exact (ready_of_drafts (drafts_of_gives hd) hrows).exists_existence

/-- A test with a predicate is a test of the filtered sequence. -/
theorem succeeds_any_some_iff {rows predicate : Query} (hrows : Sparing rows.nodes)
    (hpredicate : Sparing predicate.nodes) :
    Succeeds (expression caps (.any rows (some predicate))) n ↔
      Succeeds (sequence caps (.filter rows predicate)) n := by
  have hfilter : Sparing (Query.filter rows predicate).nodes := by
    rw [Query.nodes, sparing_cons, sparing_append]
    exact ⟨rfl, hrows, hpredicate⟩
  rw [← succeeds_any_none_iff hfilter]
  simp only [expression, meeting, sequence, bind_assoc, pure_bind]

/-! ### The recursion -/

mutual

/-- A scalar is taken over just when its sites are sound. -/
theorem succeeds_expression_iff (hcaps : caps.oneBasedSubstring = true) {n : Naming}
    {scope : List String} :
    (q : Query) → Sparing q.nodes → n.Has scope → (q.isAny = false → scope ≠ []) →
      (Succeeds (expression caps q) n ↔ Sound caps (q.scalarSites scope))
  | .constant _, _, _, _ | .parameter _, _, _, _ => by
    rw [expression]
    exact iff_of_true (succeeds_pure _)
      (by simp [Query.scalarSites, Site.isSound, Query.isSequence])
  | .member receiver? (.column alias? name), hq, hn, hscope => by
    rw [expression, Query.scalarSites, sound_cons, Site.isSound_column]
    cases receiver? with
    | some _ => exact iff_of_false not_succeeds_throw (by simp)
    | none =>
      refine (succeeds_resolve_iff hn (hscope rfl)).trans ?_
      simp [Query.optionSites]
  | .member receiver? (.property p), hq, hn, hscope => by
    rw [Query.nodes, sparing_cons] at hq
    rw [expression, Query.scalarSites, sound_cons, Site.isSound_property,
      ← succeeds_optionValue_iff hcaps receiver? hq.2 hn (hscope rfl), and_comm]
    refine succeeds_bind_iff fun e? k he => ?_
    rw [← isSome_of_gives_optionValue he, succeeds_lift_bind]
    cases hx : Mapping.find (.property p) 0 with
    | error err => simp [not_isFor_of_find hx]
    | ok x =>
      have hnone : Mapping.find (.property p) ([] : List Expr).length = .ok x := hx
      simpa using succeeds_apply_iff hcaps hnone
  | .call receiver? method args, hq, hn, hscope => by
    rw [Query.nodes, sparing_cons, sparing_append] at hq
    rw [expression, Query.scalarSites, sound_cons, Site.isSound_call, sound_append,
      ← succeeds_optionValue_iff hcaps receiver? hq.2.1 hn (hscope rfl), succeeds_lift_bind]
    cases hx : Mapping.find (.method method) args.length with
    | error err => simp [not_isFor_of_find hx]
    | ok x =>
      simp only [Except.ok.injEq, exists_eq_left', Bool.and_eq_true]
      rw [and_left_comm]
      refine succeeds_bind_iff fun e? k he => ?_
      have hk := (keepsNames_optionValue caps receiver?).of_gives he
      rw [and_comm, ← succeeds_values_iff hcaps args hq.2.2 (hn.follows hk) (hscope rfl)]
      refine succeeds_bind_iff fun es k' hes => ?_
      have hlength := length_of_gives_values hes
      rw [succeeds_apply_iff hcaps (hlength ▸ hx), forall_start_iff hes,
        isSome_of_gives_optionValue he, hlength]
      simp [imp_iff_not_or]
  | .binary left op right, hq, hn, hscope => by
    rw [Query.nodes, sparing_cons, sparing_append] at hq
    have hright : ∀ {k}, k.Has scope →
        (Succeeds (expression caps right) k ↔ Sound caps (right.scalarSites scope)) :=
      fun hk => succeeds_expression_iff hcaps right hq.2.2 hk fun _ => hscope rfl
    rw [Query.scalarSites, sound_cons, sound_append, expression]
    refine Iff.trans ?_ (and_iff_right rfl).symm
    split
    · next hleft =>
      rw [succeeds_bind_pure, hright hn]
      exact (and_iff_right (sound_of_isNullConstant (Bool.and_eq_true_iff.mp hleft).2)).symm
    · rw [← succeeds_expression_iff hcaps left hq.2.1 hn fun _ => hscope rfl]
      split
      · next hnullRight =>
        rw [succeeds_bind_pure]
        exact (and_iff_left (sound_of_isNullConstant (Bool.and_eq_true_iff.mp hnullRight).2)).symm
      · refine succeeds_bind_iff fun l k hl => ?_
        have hk := (keepsNames_expression caps left).of_gives hl
        rw [succeeds_bind_pure]
        exact hright (hn.follows hk)
  | .unary .not operand, hq, hn, hscope | .unary .negate operand, hq, hn, hscope => by
    rw [Query.nodes, sparing_cons] at hq
    have hoperand := succeeds_expression_iff hcaps operand hq.2 hn fun _ => hscope rfl
    rw [expression, succeeds_bind_pure, hoperand, Query.scalarSites, sound_cons]
    simp [Site.isSound, Query.isSequence]
  | .any rows none, hq, hn, _ => by
    rw [Query.nodes, sparing_cons, sparing_append] at hq
    rw [succeeds_any_none_iff hq.2.1, succeeds_sequence_iff hcaps rows hq.2.1 hn, Query.scalarSites,
      Query.optionSites]
    simp [Site.isSound, Query.isSequence]
  | .any rows (some predicate), hq, hn, _ => by
    rw [Query.nodes, sparing_cons, sparing_append, Query.optionNodes] at hq
    rw [succeeds_any_some_iff hq.2.1 hq.2.2, sequence, Query.scalarSites, Query.optionSites,
      sound_cons, sound_append, ← succeeds_sequence_iff hcaps rows hq.2.1 hn]
    refine (succeeds_operator_iff (fun d => d.isPaged || d.projected) hq.2.1 fun d m hd => ?_).trans
      (and_iff_right rfl).symm
    rw [succeeds_bind_pure, succeeds_inRow]
    exact succeeds_expression_iff hcaps predicate hq.2.2 (hd.has hq.2.1 hn) fun _ =>
      List.cons_ne_nil _ _
  | .source .., _, _, _ | .filter .., _, _, _ | .project .., _, _, _ | .skip .., _, _, _
  | .take .., _, _, _ | .orderBy .., _, _, _ => by
    rw [expression]
    exact iff_of_false not_succeeds_throw
      (by simp [Query.scalarSites, Site.isSound, Query.isSequence])

theorem succeeds_optionValue_iff (hcaps : caps.oneBasedSubstring = true) {n : Naming}
    {scope : List String} :
    (q? : Option Query) → Sparing (Query.optionNodes q?) → n.Has scope → scope ≠ [] →
      (Succeeds (optionValue caps q?) n ↔ Sound caps (Query.optionSites scope q?))
  | none, _, _, _ => by
    rw [optionValue]
    exact iff_of_true (succeeds_pure _) sound_nil
  | some q, hq, hn, hscope => by
    rw [optionValue, succeeds_bind_pure]
    exact succeeds_expression_iff hcaps q hq hn fun _ => hscope

theorem succeeds_values_iff (hcaps : caps.oneBasedSubstring = true) {n : Naming}
    {scope : List String} :
    (qs : List Query) → Sparing (Query.listNodes qs) → n.Has scope → scope ≠ [] →
      (Succeeds (values caps qs) n ↔ Sound caps (Query.listSites scope qs))
  | [], _, _, _ => by
    rw [values]
    exact iff_of_true (succeeds_pure _) sound_nil
  | q :: rest, hqs, hn, hscope => by
    rw [Query.listNodes, sparing_append] at hqs
    rw [values, Query.listSites, sound_append,
      ← succeeds_expression_iff hcaps q hqs.1 hn fun _ => hscope]
    refine succeeds_bind_iff fun e k he => ?_
    have hk := (keepsNames_expression caps q).of_gives he
    rw [succeeds_bind_pure]
    exact succeeds_values_iff hcaps rest hqs.2 (hn.follows hk) hscope

theorem succeeds_projection_iff (hcaps : caps.oneBasedSubstring = true) {n : Naming}
    {scope : List String} :
    (columns : List (String × Query)) → Sparing (Query.columnNodes columns) → n.Has scope →
      scope ≠ [] →
        (Succeeds (projection caps columns) n ↔ Sound caps (Query.columnSites scope columns))
  | [], _, _, _ => by
    rw [projection]
    exact iff_of_true (succeeds_pure _) sound_nil
  | (name, q) :: rest, hqs, hn, hscope => by
    rw [Query.columnNodes, sparing_append] at hqs
    rw [projection, Query.columnSites, sound_append,
      ← succeeds_expression_iff hcaps q hqs.1 hn fun _ => hscope]
    refine succeeds_bind_iff fun e k he => ?_
    have hk := (keepsNames_expression caps q).of_gives he
    rw [succeeds_bind_pure]
    exact succeeds_projection_iff hcaps rest hqs.2 (hn.follows hk) hscope

/-- A sequence is drafted just when its sites are sound. -/
theorem succeeds_sequence_iff (hcaps : caps.oneBasedSubstring = true) {n : Naming}
    {scope : List String} :
    (q : Query) → Sparing q.nodes → n.Has scope →
      (Succeeds (sequence caps q) n ↔ Sound caps (q.rowSites scope))
  | .source .., _, _ => by
    rw [sequence]
    exact iff_of_true (succeeds_pure _) (by simp [Query.rowSites, Site.isSound, Query.isSequence])
  | .filter rows predicate, hq, hn => by
    rw [Query.nodes, sparing_cons, sparing_append] at hq
    rw [Query.rowSites, sound_cons, sound_append,
      ← succeeds_sequence_iff hcaps rows hq.2.1 hn, sequence]
    refine (succeeds_operator_iff (fun d => d.isPaged || d.projected) hq.2.1 fun d m hd => ?_).trans
      (and_iff_right rfl).symm
    rw [succeeds_bind_pure, succeeds_inRow]
    exact succeeds_expression_iff hcaps predicate hq.2.2 (hd.has hq.2.1 hn) fun _ =>
      List.cons_ne_nil _ _
  | .orderBy rows key _, hq, hn => by
    rw [Query.nodes, sparing_cons, sparing_append] at hq
    rw [Query.rowSites, sound_cons, sound_append,
      ← succeeds_sequence_iff hcaps rows hq.2.1 hn, sequence]
    refine (succeeds_operator_iff (fun d => d.isPaged || d.projected) hq.2.1 fun d m hd => ?_).trans
      (and_iff_right rfl).symm
    rw [succeeds_bind_pure, succeeds_inRow]
    exact succeeds_expression_iff hcaps key hq.2.2 (hd.has hq.2.1 hn) fun _ =>
      List.cons_ne_nil _ _
  | .project rows columns, hq, hn => by
    rw [Query.nodes, sparing_cons, sparing_append] at hq
    rw [Query.rowSites, sound_cons, sound_append,
      ← succeeds_sequence_iff hcaps rows hq.2.1 hn, sequence]
    refine (succeeds_operator_iff Draft.projected hq.2.1 fun d m hd => ?_).trans
      (and_iff_right rfl).symm
    rw [succeeds_bind_pure, succeeds_inRow]
    exact succeeds_projection_iff hcaps columns hq.2.2 (hd.has hq.2.1 hn) (List.cons_ne_nil _ _)
  | .skip rows count, hq, hn => by
    rw [Query.nodes, sparing_cons, sparing_append] at hq
    rw [Query.rowSites, sound_cons, sound_append,
      ← succeeds_sequence_iff hcaps rows hq.2.1 hn, sequence]
    refine (succeeds_operator_iff Draft.isPaged hq.2.1 fun d m hd => ?_).trans
      (and_iff_right rfl).symm
    rw [succeeds_bind_pure, succeeds_lift, exists_rowCount_iff]
    simp [Site.isSound]
  | .take rows count, hq, hn => by
    rw [Query.nodes, sparing_cons, sparing_append] at hq
    rw [Query.rowSites, sound_cons, sound_append,
      ← succeeds_sequence_iff hcaps rows hq.2.1 hn, sequence]
    refine (succeeds_operator_iff (fun d => d.paging.take?.isSome) hq.2.1 fun d m hd => ?_).trans
      (and_iff_right rfl).symm
    rw [succeeds_bind_pure, succeeds_lift, exists_rowCount_iff]
    simp [Site.isSound]
  | .any .., _, _ | .member .., _, _ | .call .., _, _ | .constant _, _, _ | .parameter _, _, _
  | .binary .., _, _ | .unary .., _, _ => by
    rw [sequence]
    exact iff_of_false not_succeeds_throw
      (by simp [Query.rowSites, Site.isSound, Query.isSequence])

end

/-! ### Whole queries -/

/-- The names that are known while a query is taken over. -/
def Naming.reading (n : Naming) (q : Query) : Naming :=
  { n with sourceAliases := n.sourceAliases ++ q.sourceAliases }

/-- A sequence has a statement if it can be drafted. -/
theorem succeeds_statement_sequence_iff {q : Query} (hq : Sparing q.nodes)
    (hsequence : q.isSequence = true) :
    Succeeds (statement caps q) n ↔ Succeeds (sequence caps q) (n.reading q) := by
  have hfinish : Succeeds (do let d ← sequence caps q; d.finish) (n.reading q) ↔
      Succeeds (sequence caps q) (n.reading q) := by
    refine (succeeds_bind_iff fun d m hd => iff_true_intro ?_).trans (and_iff_left trivial)
    rw [succeeds_lift]
    exact (ready_of_drafts (drafts_of_gives hd) hq).exists_finish
  unfold statement
  rw [succeeds_modify_bind, ← hfinish]
  cases q <;> first
    | exact Iff.rfl
    | exact absurd hsequence Bool.false_ne_true

/-- Besides sequences only tests have statements, and only where a server takes tests. -/
theorem succeeds_statement_scalar_iff {q : Query} (hsequence : q.isSequence = false) :
    Succeeds (statement caps q) n ↔
      (q.isAny = true ∧ caps.topLevelAny = true) ∧
        Succeeds (expression caps q) (n.reading q) := by
  have hrequire : (∃ u, caps.require .topLevelAny = .ok u) ↔ caps.topLevelAny = true := by
    rw [Capabilities.require]
    cases h : caps.supports .topLevelAny <;> simp_all [Capabilities.supports]
  unfold statement
  rw [succeeds_modify_bind]
  cases q
  case any rows predicate? =>
    refine succeeds_lift_bind.trans ?_
    simp only [exists_and_right, hrequire, succeeds_bind_pure]
    exact and_congr_left fun _ => (and_iff_right rfl).symm
  all_goals first
    | exact iff_of_false not_succeeds_throw fun h => Bool.false_ne_true h.1.1
    | exact absurd hsequence.symm Bool.false_ne_true

/-- A query is taken over just when it is well formed. -/
theorem succeeds_statement_iff (hcaps : caps.oneBasedSubstring = true) {q : Query}
    (hq : Sparing q.nodes) (hn : n.scopes = []) :
    Succeeds (statement caps q) n ↔ q.isWellFormed caps = true := by
  have hempty : (n.reading q).Has [] := congrArg (List.map Scope.logical) hn
  rw [Query.isWellFormed]
  cases hsequence : q.isSequence with
  | true =>
    rw [succeeds_statement_sequence_iff hq hsequence, succeeds_sequence_iff hcaps q hq hempty,
      if_pos rfl, List.all_eq_true, Sound]
  | false =>
    rw [succeeds_statement_scalar_iff hsequence, if_neg Bool.false_ne_true, Bool.and_eq_true,
      Bool.and_eq_true, List.all_eq_true]
    refine and_congr_right fun hany => succeeds_expression_iff hcaps q hq hempty fun hnot => ?_
    rw [hany.1] at hnot
    cases hnot

/-- **Accepting a query is being well formed.**  On every server, and whatever was taken over
    before, a query that spares orderings is given a statement if it is well formed, and an error
    if it is not. -/
theorem accepts_iff_isWellFormed (v : Version) (q : Query)
    (hq : ∀ x ∈ q.nodes, x.sparesOrderings = true) (n : Naming) (hn : n.scopes = []) :
    (q.isWellFormed (.ofVersion v) = true →
      ∃ s, ((statement (.ofVersion v) q).run.run n).1 = .ok s) ∧
    (q.isWellFormed (.ofVersion v) = false →
      ∃ e, ((statement (.ofVersion v) q).run.run n).1 = .error e) := by
  have hiff : Succeeds (statement (.ofVersion v) q) n ↔ q.isWellFormed (.ofVersion v) = true :=
    succeeds_statement_iff rfl hq hn
  rcases hrun : (statement (.ofVersion v) q).run.run n with ⟨_ | s, m⟩
  · next e =>
    have hfails : ¬ Succeeds (statement (.ofVersion v) q) n := by
      rintro ⟨s, m', hs⟩
      rw [Gives, hrun] at hs
      cases hs
    exact ⟨fun h => absurd (hiff.mpr h) hfails, fun _ => ⟨e, rfl⟩⟩
  · refine ⟨fun _ => ⟨s, rfl⟩, fun h => ?_⟩
    rw [hiff.mp ⟨s, m, hrun⟩] at h
    cases h

/-- Whether one of the first customers has an order with a number that starts with their code. -/
def ordersOfFirst : Query :=
  .any (.take (.orderBy (.source "CUSTOMERS" none) (.column "NAME") .ascending)
      (.constant (.int32 10)))
    (some (.any (.source "ORDERS" none) (some (.equal (.columnOf "c" "CODE")
      (.call (some (.columnOf "o" "NUMBER")) .substring
        [.constant (.int32 0), .constant (.int32 3)])))))

theorem accepts_ordersOfFirst :
    (∀ x ∈ ordersOfFirst.nodes, x.sparesOrderings = true) ∧
    (∃ s, ((statement (.ofVersion ⟨3, 0, 0, 0⟩) ordersOfFirst).run.run {}).1 = .ok s) ∧
    ∃ e, ((statement (.ofVersion ⟨2, 5, 0, 0⟩) ordersOfFirst).run.run {}).1 = .error e := by
  have hspares : ∀ x ∈ ordersOfFirst.nodes, x.sparesOrderings = true := by decide
  have hnew := accepts_iff_isWellFormed ⟨3, 0, 0, 0⟩ ordersOfFirst hspares {} rfl
  have hold := accepts_iff_isWellFormed ⟨2, 5, 0, 0⟩ ordersOfFirst hspares {} rfl
  exact ⟨hspares, hnew.1 (by decide), hold.2 (by decide)⟩

end QueryLoom.Sql

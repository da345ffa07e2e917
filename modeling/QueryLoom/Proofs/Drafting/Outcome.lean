/-
  QueryLoom/Proofs/Drafting/Outcome.lean
  ======================================
  **What a drafting step gives.**  `Gives x n a m` says that the step `x` succeeds with `a`
  and takes what is known of names from `n` to `m`.  Each combinator and each clause of
  the recursion has one lemma that takes such a fact apart, so nothing below unfolds the
  monad.

  `Drafts` is the same recursion as a relation with one rule for each operator of a sequence
  and one for pushing down, which may happen at any point.  An invariant of drafts is
  proved rule by rule, and `drafts_of_gives` carries it over to `sequence`.
-/
import QueryLoom.Proofs.Lists.Pairing
import QueryLoom.Sql.Drafting

namespace QueryLoom.Sql

/-! ### Steps -/

/-- The step succeeds with `a` and takes the names from `n` to `m`. -/
def Gives {α : Type} (x : Drafting α) (n : Naming) (a : α) (m : Naming) : Prop :=
  x.run.run n = (.ok a, m)

section Combinators

variable {α β : Type} {n m k : Naming}

/-- A step gives one thing. -/
theorem Gives.unique {x : Drafting α} {a b : α} (ha : Gives x n a m) (hb : Gives x n b k) :
    a = b ∧ m = k := by
  cases ha.symm.trans hb
  exact ⟨rfl, rfl⟩

theorem gives_pure {a b : α} : Gives (pure a) n b m ↔ b = a ∧ m = n := by
  constructor
  · intro h
    cases h
    exact ⟨rfl, rfl⟩
  · rintro ⟨rfl, rfl⟩
    rfl

theorem gives_bind {x : Drafting α} {f : α → Drafting β} {b : β} :
    Gives (x >>= f) n b k ↔ ∃ a m, Gives x n a m ∧ Gives (f a) m b k := by
  simp only [Gives, ExceptT.run_bind, StateT.run_bind]
  rcases x.run.run n with ⟨r, m⟩
  cases r with
  | ok a =>
    constructor
    · intro h
      exact ⟨a, m, rfl, h⟩
    · rintro ⟨_, _, h₁, h₂⟩
      cases h₁
      exact h₂
  | error e =>
    constructor
    · intro h
      cases h
    · rintro ⟨_, _, h₁, _⟩
      cases h₁

theorem not_gives_throw {e : CompileError} {a : α} : ¬ Gives (throw e) n a m := by
  intro h
  cases h

theorem gives_lift {x : Except CompileError α} {a : α} :
    Gives (liftM x) n a m ↔ x = .ok a ∧ m = n := by
  cases x with
  | ok b =>
    constructor
    · intro h
      cases h
      exact ⟨rfl, rfl⟩
    · rintro ⟨h, rfl⟩
      cases h
      rfl
  | error e =>
    constructor
    · intro h
      cases h
    · rintro ⟨h, _⟩
      cases h

theorem gives_get {a : Naming} : Gives get n a m ↔ a = n ∧ m = n := by
  constructor
  · intro h
    cases h
    exact ⟨rfl, rfl⟩
  · rintro ⟨rfl, rfl⟩
    rfl

theorem gives_set {a : PUnit} {s : Naming} : Gives (set s) n a m ↔ m = s := by
  constructor
  · intro h
    cases h
    rfl
  · rintro rfl
    rfl

theorem gives_modify {a : PUnit} {f : Naming → Naming} : Gives (modify f) n a m ↔ m = f n := by
  constructor
  · intro h
    cases h
    rfl
  · rintro rfl
    rfl

/-- A row that is put in scope for a step is out of it again afterwards. -/
theorem gives_inRow {x : Drafting α} {row : Scope} {a : α} :
    Gives (inRow row x) n a m ↔
      ∃ k, Gives x { n with scopes := row :: n.scopes } a k ∧
        m = { k with scopes := n.scopes } := by
  have hrun : (inRow row x).run.run n =
      ((x.run.run { n with scopes := row :: n.scopes }).1,
        { (x.run.run { n with scopes := row :: n.scopes }).2 with scopes := n.scopes }) := rfl
  simp only [Gives, hrun]
  rcases x.run.run { n with scopes := row :: n.scopes } with ⟨r, k⟩
  constructor
  · intro h
    cases h
    exact ⟨k, rfl, rfl⟩
  · rintro ⟨_, h, rfl⟩
    cases h
    rfl

end Combinators

/-! ### What steps ensure -/

/-- Whatever names the step starts with, what it gives has the property. -/
def Ensures {α : Type} (P : α → Prop) (x : Drafting α) : Prop :=
  ∀ (n m : Naming) (a : α), Gives x n a m → P a

section Ensuring

variable {α β : Type} {P : α → Prop} {Q : β → Prop}

theorem ensures_pure {a : α} (ha : P a) : Ensures P (pure a) := by
  intro n m b h
  obtain ⟨rfl, _⟩ := gives_pure.mp h
  exact ha

theorem ensures_throw (e : CompileError) : Ensures P (throw e) :=
  fun _ _ _ h => absurd h not_gives_throw

theorem ensures_lift {x : Except CompileError α} (hx : ∀ a, x = .ok a → P a) :
    Ensures P (liftM x) := by
  intro n m a h
  exact hx a (gives_lift.mp h).1

theorem Ensures.bind {x : Drafting α} {f : α → Drafting β} (hx : Ensures P x)
    (hf : ∀ a, P a → Ensures Q (f a)) : Ensures Q (x >>= f) := by
  intro n m b h
  obtain ⟨a, k, ha, hb⟩ := gives_bind.mp h
  exact hf a (hx n k a ha) k m b hb

theorem Ensures.inRow {x : Drafting α} (hx : Ensures P x) (row : Scope) :
    Ensures P (inRow row x) := by
  intro n m a h
  obtain ⟨k, ha, _⟩ := gives_inRow.mp h
  exact hx _ k a ha

end Ensuring

/-! ### Drafts -/

/-- The row in scope that a column refers to. -/
def Naming.row? (n : Naming) : Option String → Option Scope
  | none => n.scopes.head?
  | some source => n.scopes.find? fun row => row.logical == source

theorem gives_resolve {alias? : Option String} {name : String} {n m : Naming} {e : Expr} :
    Gives (resolve alias? name) n e m ↔
      ∃ row, n.row? alias? = some row ∧ e = .column row.actual name ∧ m = n := by
  simp only [resolve, gives_bind, gives_get, and_assoc, exists_and_left, exists_eq_left]
  cases alias? with
  | none =>
    simp only [Naming.row?]
    cases n.scopes.head? with
    | none => simp [not_gives_throw]
    | some row => simp [gives_pure]
  | some source =>
    simp only [Naming.row?]
    cases n.scopes.find? fun row => row.logical == source with
    | none => simp [not_gives_throw]
    | some row => simp [gives_pure]

/-- What the window of the counts is, if they are counts. -/
theorem window?_eq_ok {p : Paging} {w? : Option Window} (h : p.window? = .ok w?) :
    (∀ e, p.skip? = some e → Paging.checkCount PagingOperator.skip.name e = .ok ()) ∧
    (∀ e, p.take? = some e → Paging.checkCount PagingOperator.take.name e = .ok ()) ∧
    w? = match p.skip?, p.take? with
      | none, none => none
      | none, some take => some ⟨take, none⟩
      | some skip, none => some ⟨.binary skip .add (.int 1), some Paging.lastRow⟩
      | some skip, some take =>
        some ⟨.binary skip .add (.int 1), some (.binary skip .add take)⟩ := by
  rcases p with ⟨_ | skip, _ | take⟩ <;>
    simp only [Paging.window?, bind, Except.bind, pure, Except.pure] at h
  · cases h
    simp
  · cases htake : Paging.checkCount PagingOperator.take.name take with
    | error e => rw [htake] at h; cases h
    | ok u =>
      rw [htake] at h
      cases h
      simp [htake]
  · cases hskip : Paging.checkCount PagingOperator.skip.name skip with
    | error e => rw [hskip] at h; cases h
    | ok u =>
      rw [hskip] at h
      cases h
      simp [hskip]
  · cases hskip : Paging.checkCount PagingOperator.skip.name skip with
    | error e => rw [hskip] at h; cases h
    | ok u =>
      cases htake : Paging.checkCount PagingOperator.take.name take with
      | error e => rw [hskip, htake] at h; cases h
      | ok u' =>
        rw [hskip, htake] at h
        cases h
        simp [hskip, htake]

/-- The number of the next derived table. -/
def Naming.next (n : Naming) : Nat := Text.freeNumber "t" n.sourceAliases 0 n.derived

theorem gives_freshAlias {n m : Naming} {a : String} :
    Gives freshAlias n a m ↔
      a = Text.numbered "t" n.next ∧ m = { n with derived := n.next + 1 } := by
  simp only [freshAlias, gives_bind, gives_get, gives_set, gives_pure, and_assoc, exists_and_left,
    exists_eq_left, exists_const, Naming.next]

namespace Draft

/-- The columns of the statement that the draft becomes. -/
def finalColumns (d : Draft) (source : String) : List Column :=
  if d.select.columns.isEmpty then [⟨.allColumns source, none⟩] else d.select.columns

theorem finish_eq_ok {d : Draft} {source : String} (h : d.select.origin.alias? = some source)
    {s : Select} :
    d.finish = .ok s ↔ ∃ w, d.paging.window? = .ok w ∧
      s = { d.select with columns := d.finalColumns source, window? := w } := by
  rcases d with ⟨⟨columns, origin, conditions, ordering, window?⟩, row, paging, projected⟩
  simp only at h
  cases hw : paging.window? with
  | error e => cases columns <;> simp [finish, h, hw, bind, Except.bind]
  | ok w =>
    cases columns <;>
      simp [finish, finalColumns, h, hw, bind, Except.bind, pure, Except.pure, eq_comm]

theorem existence_eq_ok {d : Draft} {source : String} (h : d.select.origin.alias? = some source)
    {s : Select} :
    d.existence = .ok s ↔ ∃ w, d.paging.window? = .ok w ∧
      s = { d.select with
        columns := [⟨.int 1, none⟩]
        ordering := if d.isPaged then d.select.ordering else []
        window? := w } := by
  exact finish_eq_ok (d := { d with select := { d.select with
    ordering := if d.isPaged then d.select.ordering else [], columns := [⟨.int 1, none⟩] } }) h

end Draft

theorem gives_pushDown {d d' : Draft} {n m : Naming} :
    Gives (pushDown d) n d' m ↔ ∃ inner ordering,
      d.finish = .ok inner ∧
      inner.carryOrdering (Text.numbered "t" n.next) = .ok ordering ∧
      m = { n with derived := n.next + 1 } ∧
      d' = {
        select := { Select.reading (.derived
          (if inner.isPaged then inner else { inner with ordering := [] })
          (Text.numbered "t" n.next)) with ordering }
        row := ⟨d.row.logical, Text.numbered "t" n.next⟩ } := by
  simp only [pushDown, gives_bind, gives_lift, gives_freshAlias, gives_pure, and_assoc,
    exists_and_left, exists_eq_left]
  constructor
  · rintro ⟨inner, hinner, ordering, hordering, rfl, rfl⟩
    exact ⟨inner, hinner, ordering, hordering, rfl, rfl⟩
  · rintro ⟨inner, hinner, ordering, hordering, rfl, rfl⟩
    exact ⟨inner, hinner, ordering, hordering, rfl, rfl⟩

/-- The keys that a derived table carries are those of the statement, in order. -/
theorem carryOrdering_eq_ok {s : Select} {source : String} {ordering : List OrderKey}
    (h : s.carryOrdering source = .ok ordering) :
    List.Forall₂ (fun k k' => s.carry source k.expr = some k'.expr ∧ k'.direction = k.direction)
      s.ordering ordering := by
  refine (mapM_eq_ok_iff.mp h).imp fun k k' hk => ?_
  split at hk
  · rename_i e hkey
    cases hk
    exact ⟨hkey, rfl⟩
  · cases hk

/-- Every key that a derived table carries is one of the statement's. -/
theorem exists_carry_of_carryOrdering {s : Select} {source : String} {ordering : List OrderKey}
    (h : s.carryOrdering source = .ok ordering) {k' : OrderKey} (hk' : k' ∈ ordering) :
    ∃ k ∈ s.ordering, s.carry source k.expr = some k'.expr :=
  let ⟨k, hk, hcarry, _⟩ := exists_of_forall₂_right (carryOrdering_eq_ok h) hk'
  ⟨k, hk, hcarry⟩

theorem Expr.rebase_eq_some {old new : String} {e e' : Expr} :
    e.rebase old new = some e' ↔ e.hasSubquery = false ∧ e' = e.rename old new := by
  unfold Expr.rebase
  cases e.hasSubquery <;> simp [eq_comm]

theorem columnOf?_eq_some {s : Select} {key : Expr} {name : String}
    (h : s.columnOf? key = some name) :
    ∃ c ∈ s.columns, c.expr.agrees key = true ∧ c.alias? = some name := by
  obtain ⟨c, hfind, hname⟩ := Option.bind_eq_some_iff.mp h
  have hagrees := List.find?_some (p := fun c : Column => c.expr.agrees key) hfind
  exact ⟨c, List.mem_of_find?_eq_some hfind, hagrees, hname⟩

theorem selectsAllColumns_eq_true {s : Select} (h : s.selectsAllColumns = true) :
    ∃ source, s.columns = [⟨.allColumns source, none⟩] ∧ s.origin.alias? = some source := by
  unfold Select.selectsAllColumns at h
  split at h
  · rename_i shown source hcolumns halias
    obtain rfl : shown = source := by simpa using h
    exact ⟨shown, hcolumns, halias⟩
  · cases h

theorem selectsAllColumns_iff {s : Select} : s.selectsAllColumns = true ↔
    ∃ source, s.columns = [⟨.allColumns source, none⟩] ∧ s.origin.alias? = some source := by
  refine ⟨selectsAllColumns_eq_true, ?_⟩
  rintro ⟨source, hcolumns, halias⟩
  simp [Select.selectsAllColumns, hcolumns, halias]

/-- A key is carried as a column of the derived table, or as it stands where the derived table
    has all columns of the origin. -/
theorem carry_eq_some {s : Select} {source : String} {key key' : Expr}
    (h : s.carry source key = some key') :
    (∃ c ∈ s.columns, ∃ name, c.expr.agrees key = true ∧ c.alias? = some name ∧
        key' = .column source name) ∨
      (∃ old, s.columns = [⟨.allColumns old, none⟩] ∧ s.origin.alias? = some old ∧
        key.hasSubquery = false ∧ key' = key.rename old source) := by
  unfold Select.carry at h
  cases hcolumn : s.columnOf? key with
  | some name =>
    rw [hcolumn] at h
    cases h
    obtain ⟨c, hc, hagrees, hname⟩ := columnOf?_eq_some hcolumn
    exact .inl ⟨c, hc, name, hagrees, hname, rfl⟩
  | none =>
    rw [hcolumn] at h
    dsimp only at h
    split at h
    · rename_i hall
      obtain ⟨old, hcolumns, hold⟩ := selectsAllColumns_eq_true hall
      rw [hold] at h
      obtain ⟨hsubquery, hkey⟩ := Expr.rebase_eq_some.mp h
      exact .inr ⟨old, hcolumns, hold, hsubquery, hkey⟩
    · cases h

theorem gives_pushDownIf {needed : Bool} {d d' : Draft} {n m : Naming} :
    Gives (pushDownIf needed d) n d' m ↔
      if needed then Gives (pushDown d) n d' m else d' = d ∧ m = n := by
  cases needed <;> simp [pushDownIf, gives_pure]

/-! ### Operations -/

/-- The template filled in with operands, one rule for each shape it has. -/
inductive Template.Builds : Template → List Expr → Expr → Prop
  | function (name : String) (operands : List Expr) :
      Builds (.function name) operands (.function name operands)
  | trim (side? : Option TrimSide) (text : Expr) :
      Builds (.trim side?) [text] (.trim side? none text)
  | trimChars (side? : Option TrimSide) (text chars : Expr) :
      Builds (.trim side?) [text, chars] (.trim side? (some chars) text)
  | substring (text start : Expr) : Builds .substring [text, start] (.substring text start none)
  | substringLength (text start length : Expr) :
      Builds .substring [text, start, length] (.substring text start (some length))
  | extract (part : DatePart) (operand : Expr) :
      Builds (.extract part) [operand] (.extract part operand)
  | cast (type : CastType) (operand : Expr) : Builds (.cast type) [operand] (.cast operand type)
  | keyword (word : String) : Builds (.keyword word) [] (.keyword word)
  | position (haystack needle : Expr) :
      Builds .position [haystack, needle] (.position needle haystack)
  | positionFound (haystack needle : Expr) :
      Builds .positionFound [haystack, needle]
        (.binary (.position needle haystack) .greater (.int 0))
  | startingWith (text start : Expr) :
      Builds .startingWith [text, start] (.binary text .startingWith start)
  | endsWith (text suffix : Expr) :
      Builds .endsWith [text, suffix]
        (.binary (.function "RIGHT" [text, .function "CHAR_LENGTH" [suffix]]) .equal suffix)
  | isNullOrEmpty (trimmed : Bool) (text : Expr) :
      Builds (.isNullOrEmpty trimmed) [text]
        (.binary (.isNull text false) .or
          (.binary (if trimmed then .trim none none text else text) .equal
            (.literal (.string ""))))
  | dateAdd (part : DatePart) (operand amount : Expr) :
      Builds (.dateAdd part) [operand, amount] (.dateAdd amount part operand)
  | utcTimestamp :
      Builds .utcTimestamp [] (.cast (.atTimeZone (.keyword "CURRENT_TIMESTAMP") "UTC") .timestamp)

theorem Template.build?_eq_some_iff {t : Template} {es : List Expr} {e : Expr} :
    t.build? es = some e ↔ t.Builds es e := by
  constructor
  · intro h
    unfold Template.build? at h
    split at h <;> cases h <;> constructor
  · intro h
    cases h <;> rfl

theorem Mapping.mem_of_find {op : Operation} {arity : Nat} {x : Mapping}
    (h : Mapping.find op arity = .ok x) : x ∈ Mapping.all := by
  unfold Mapping.find at h
  cases hx : Mapping.find? op arity with
  | none =>
    rw [hx] at h
    cases h
  | some y =>
    rw [hx] at h
    cases h
    exact List.mem_of_find?_eq_some hx

/-- What there is to know when an operation can be written. -/
theorem Mapping.apply_eq_ok {x : Mapping} {caps : Capabilities} {receiver? : Option Expr}
    {args : List Expr} {e : Expr} (h : x.apply caps receiver? args = .ok e) :
    ∃ operands built,
      x.adjustment.operands caps (receiver?.toList ++ args) = .ok operands ∧
      x.template.build? operands = some built ∧ e = x.adjustment.result built := by
  have hrest : (x.adjustment.operands caps (receiver?.toList ++ args)).bind (fun operands =>
      (x.template.build? operands).elim (.error (.unmapped x.operation x.arity))
        fun e => .ok (x.adjustment.result e)) = .ok e := by
    unfold Mapping.apply at h
    simp only [bind, Except.bind, pure, Except.pure] at h
    repeat' split at h
    all_goals first
      | cases h; done
      | simp_all [Except.bind, throw, throwThe, MonadExceptOf.throw]
  cases hoperands : x.adjustment.operands caps (receiver?.toList ++ args) with
  | error err => rw [hoperands] at hrest; cases hrest
  | ok operands =>
    rw [hoperands] at hrest
    cases hbuilt : x.template.build? operands with
    | none => simp [Except.bind, hbuilt] at hrest
    | some built =>
      simp only [Except.bind, hbuilt, Option.elim_some, Except.ok.injEq] at hrest
      exact ⟨operands, built, rfl, hbuilt, hrest.symm⟩

/-- A start counted from one is a constant or the given start and one. -/
theorem oneBased_eq_ok {start start' : Expr} (h : oneBased start = .ok start') :
    (∃ v, start' = .literal v) ∨ start' = .binary start .add (.int 1) := by
  unfold oneBased at h
  split at h
  · split at h
    · cases h
    split at h
    · cases h
    · cases h
      exact .inl ⟨_, rfl⟩
  · cases h
    exact .inr rfl

/-- Adjusted operands are the given ones, one of them maybe counted from one. -/
theorem Adjustment.operands_eq_ok {a : Adjustment} {caps : Capabilities} {es es' : List Expr}
    (h : a.operands caps es = .ok es') :
    es' = es ∨ ∃ text start start' rest, es = text :: start :: rest ∧
      es' = text :: start' :: rest ∧ oneBased start = .ok start' := by
  unfold Adjustment.operands at h
  split at h
  · rename_i text start rest
    split at h
    · cases hstart : oneBased start with
      | error e =>
        rw [hstart] at h
        cases h
      | ok start' =>
        rw [hstart] at h
        cases h
        exact .inr ⟨text, start, start', rest, rfl, rfl, hstart⟩
    · cases h
      exact .inl rfl
  · cases h
    exact .inl rfl

/-- What holds of the operands, of constants and of sums with a one that it holds of the other
    side of, holds of the adjusted operands. -/
theorem Adjustment.forall_of_operands {P : Expr → Prop} (hliteral : ∀ v, P (.literal v))
    (hsum : ∀ e, P e → P (.binary e .add (.int 1))) {a : Adjustment} {caps : Capabilities}
    {es es' : List Expr} (hes : ∀ o ∈ es, P o) (h : a.operands caps es = .ok es') :
    ∀ o ∈ es', P o := by
  rcases operands_eq_ok h with rfl | ⟨text, start, start', rest, rfl, rfl, hstart⟩
  · exact hes
  · simp only [List.forall_mem_cons] at hes ⊢
    refine ⟨hes.1, ?_, hes.2.2⟩
    rcases oneBased_eq_ok hstart with ⟨v, rfl⟩ | rfl
    · exact hliteral v
    · exact hsum start hes.2.1

/-! ### The clauses of the recursion -/

-- each clause is a bind, a pure step or a failure by definition, so none has to be unfolded

section Clauses

variable {caps : Capabilities} {n m : Naming}

theorem gives_constant {v : Value} {e : Expr} :
    Gives (expression caps (.constant v)) n e m ↔ e = .literal v ∧ m = n :=
  gives_pure

theorem gives_parameter {p : Parameter} {e : Expr} :
    Gives (expression caps (.parameter p)) n e m ↔ e = .parameter p ∧ m = n :=
  gives_pure

theorem gives_column {receiver? : Option Query} {alias? : Option String} {name : String}
    {e : Expr} :
    Gives (expression caps (.member receiver? (.column alias? name))) n e m ↔
      receiver? = none ∧ ∃ row, n.row? alias? = some row ∧ e = .column row.actual name ∧ m = n := by
  cases receiver? with
  | none => exact gives_resolve.trans (and_iff_right rfl).symm
  | some q => exact iff_of_false not_gives_throw nofun

theorem gives_property {receiver? : Option Query} {p : Property} {e : Expr} :
    Gives (expression caps (.member receiver? (.property p))) n e m ↔
      ∃ r? x, Gives (optionValue caps receiver?) n r? m ∧ Mapping.find (.property p) 0 = .ok x ∧
        x.apply caps r? [] = .ok e := by
  refine gives_bind.trans ?_
  simp only [gives_bind, gives_lift]
  constructor
  · rintro ⟨r?, _, hr, x, _, ⟨hx, rfl⟩, happly, rfl⟩
    exact ⟨r?, x, hr, hx, happly⟩
  · rintro ⟨r?, x, hr, hx, happly⟩
    exact ⟨r?, m, hr, x, m, ⟨hx, rfl⟩, happly, rfl⟩

theorem gives_call {receiver? : Option Query} {method : Method} {args : List Query} {e : Expr} :
    Gives (expression caps (.call receiver? method args)) n e m ↔
      ∃ x r? k es, Mapping.find (.method method) args.length = .ok x ∧
        Gives (optionValue caps receiver?) n r? k ∧ Gives (values caps args) k es m ∧
        x.apply caps r? es = .ok e := by
  refine gives_bind.trans ?_
  simp only [gives_bind, gives_lift, and_assoc, exists_and_left, exists_eq_left,
    exists_eq_right_right']

/-- An operator of two operands tests the other one where one is null. -/
theorem gives_binary {left right : Query} {op : QueryLoom.BinaryOperator} {e : Expr} :
    Gives (expression caps (.binary left op right)) n e m ↔
      if testsEquality op && isNullConstant left then
        ∃ r, Gives (expression caps right) n r m ∧ e = .isNull (asValue caps r) (op == .notEqual)
      else if testsEquality op && isNullConstant right then
        ∃ l, Gives (expression caps left) n l m ∧ e = .isNull (asValue caps l) (op == .notEqual)
      else
        ∃ l k r, Gives (expression caps left) n l k ∧ Gives (expression caps right) k r m ∧
          e = .binary ((if op.isLogical then asPredicate caps else asValue caps) l) (.ofQuery op)
            ((if op.isLogical then asPredicate caps else asValue caps) r) := by
  rw [expression]
  split
  · simp only [gives_bind, gives_pure, exists_eq_right_right']
  · split
    · simp only [gives_bind, gives_pure, exists_eq_right_right']
    · simp only [gives_bind, gives_pure, exists_eq_right_right', exists_and_left]

theorem gives_not {operand : Query} {e : Expr} :
    Gives (expression caps (.unary .not operand)) n e m ↔
      ∃ e', Gives (expression caps operand) n e' m ∧ e = .unary .not (asPredicate caps e') := by
  refine gives_bind.trans ?_
  simp only [gives_pure, exists_eq_right_right']

theorem gives_negate {operand : Query} {e : Expr} :
    Gives (expression caps (.unary .negate operand)) n e m ↔
      ∃ e', Gives (expression caps operand) n e' m ∧ e = .unary .negate (asValue caps e') := by
  refine gives_bind.trans ?_
  simp only [gives_pure, exists_eq_right_right']

theorem gives_any {rows : Query} {predicate? : Option Query} {e : Expr} :
    Gives (expression caps (.any rows predicate?)) n e m ↔
      ∃ d k d' s, Gives (sequence caps rows) n d k ∧ Gives (meeting caps d predicate?) k d' m ∧
        d'.existence = .ok s ∧ e = .existsRow s := by
  refine gives_bind.trans ?_
  simp only [gives_bind, gives_lift, gives_pure]
  constructor
  · rintro ⟨d, k, hd, d', _, hd', s, _, ⟨hs, rfl⟩, rfl, rfl⟩
    exact ⟨d, k, d', s, hd, hd', hs, rfl⟩
  · rintro ⟨d, k, d', s, hd, hd', hs, rfl⟩
    exact ⟨d, k, hd, d', m, hd', s, m, ⟨hs, rfl⟩, rfl, rfl⟩

theorem not_gives_expression {q : Query} (hq : q.isSequence = true) {e : Expr} :
    ¬ Gives (expression caps q) n e m := by
  cases q <;> first
    | exact absurd hq Bool.false_ne_true
    | exact not_gives_throw

theorem gives_optionValue_none {e? : Option Expr} :
    Gives (optionValue caps none) n e? m ↔ e? = none ∧ m = n :=
  gives_pure

theorem gives_optionValue_some {q : Query} {e? : Option Expr} :
    Gives (optionValue caps (some q)) n e? m ↔
      ∃ e, Gives (expression caps q) n e m ∧ e? = some (asValue caps e) := by
  refine gives_bind.trans ?_
  simp only [gives_pure, exists_eq_right_right']

theorem gives_values_nil {es : List Expr} :
    Gives (values caps []) n es m ↔ es = [] ∧ m = n :=
  gives_pure

theorem gives_values_cons {q : Query} {rest : List Query} {es : List Expr} :
    Gives (values caps (q :: rest)) n es m ↔
      ∃ e k es', Gives (expression caps q) n e k ∧ Gives (values caps rest) k es' m ∧
        es = asValue caps e :: es' := by
  refine gives_bind.trans ?_
  simp only [gives_bind, gives_pure, exists_eq_right_right', exists_and_left]

theorem gives_projection_nil {cs : List Column} :
    Gives (projection caps []) n cs m ↔ cs = [] ∧ m = n :=
  gives_pure

theorem gives_projection_cons {name : String} {q : Query} {rest : List (String × Query)}
    {cs : List Column} :
    Gives (projection caps ((name, q) :: rest)) n cs m ↔
      ∃ e k cs', Gives (expression caps q) n e k ∧ Gives (projection caps rest) k cs' m ∧
        cs = ⟨asValue caps e, some name⟩ :: cs' := by
  refine gives_bind.trans ?_
  simp only [gives_bind, gives_pure, exists_eq_right_right', exists_and_left]

theorem gives_source {table : String} {alias? : Option String} {d : Draft} :
    Gives (sequence caps (.source table alias?)) n d m ↔
      d = { select := .reading (.table table (Query.sourceAlias table alias?))
            row := ⟨Query.sourceAlias table alias?, Query.sourceAlias table alias?⟩ } ∧ m = n :=
  gives_pure

/-- To filter a sequence is to draft it and to let its rows meet the predicate. -/
theorem gives_filter {rows predicate : Query} {d : Draft} :
    Gives (sequence caps (.filter rows predicate)) n d m ↔
      ∃ d₀ k, Gives (sequence caps rows) n d₀ k ∧ Gives (meeting caps d₀ (some predicate)) k d m :=
  gives_bind

theorem gives_project {rows : Query} {columns : List (String × Query)} {d : Draft} :
    Gives (sequence caps (.project rows columns)) n d m ↔
      ∃ d₀ k₀ d₁ k₁ cs, Gives (sequence caps rows) n d₀ k₀ ∧
        Gives (pushDownIf d₀.projected d₀) k₀ d₁ k₁ ∧
        Gives (inRow d₁.row (projection caps columns)) k₁ cs m ∧ d = d₁.projecting cs := by
  refine gives_bind.trans ?_
  simp only [gives_bind, gives_pure, exists_eq_right_right', exists_and_left]

theorem gives_skip {rows count : Query} {d : Draft} :
    Gives (sequence caps (.skip rows count)) n d m ↔
      ∃ d₀ k₀ d₁ e, Gives (sequence caps rows) n d₀ k₀ ∧
        Gives (pushDownIf d₀.isPaged d₀) k₀ d₁ m ∧
        Paging.rowCount PagingOperator.skip.name count = .ok e ∧
        d = { d₁ with paging := { d₁.paging with skip? := some e } } := by
  refine gives_bind.trans ?_
  simp only [gives_bind, gives_lift, gives_pure]
  constructor
  · rintro ⟨d₀, k₀, hrows, d₁, _, hpush, e, _, ⟨he, rfl⟩, rfl, rfl⟩
    exact ⟨d₀, k₀, d₁, e, hrows, hpush, he, rfl⟩
  · rintro ⟨d₀, k₀, d₁, e, hrows, hpush, he, rfl⟩
    exact ⟨d₀, k₀, hrows, d₁, m, hpush, e, m, ⟨he, rfl⟩, rfl, rfl⟩

theorem gives_take {rows count : Query} {d : Draft} :
    Gives (sequence caps (.take rows count)) n d m ↔
      ∃ d₀ k₀ d₁ e, Gives (sequence caps rows) n d₀ k₀ ∧
        Gives (pushDownIf d₀.paging.take?.isSome d₀) k₀ d₁ m ∧
        Paging.rowCount PagingOperator.take.name count = .ok e ∧
        d = { d₁ with paging := { d₁.paging with take? := some e } } := by
  refine gives_bind.trans ?_
  simp only [gives_bind, gives_lift, gives_pure]
  constructor
  · rintro ⟨d₀, k₀, hrows, d₁, _, hpush, e, _, ⟨he, rfl⟩, rfl, rfl⟩
    exact ⟨d₀, k₀, d₁, e, hrows, hpush, he, rfl⟩
  · rintro ⟨d₀, k₀, d₁, e, hrows, hpush, he, rfl⟩
    exact ⟨d₀, k₀, hrows, d₁, m, hpush, e, m, ⟨he, rfl⟩, rfl, rfl⟩

theorem gives_orderBy {rows key : Query} {direction : Direction} {d : Draft} :
    Gives (sequence caps (.orderBy rows key direction)) n d m ↔
      ∃ d₀ k₀ d₁ k₁ e, Gives (sequence caps rows) n d₀ k₀ ∧
        Gives (pushDownIf (d₀.isPaged || d₀.projected) d₀) k₀ d₁ k₁ ∧
        Gives (inRow d₁.row (expression caps key)) k₁ e m ∧
        d = d₁.ordered ⟨asValue caps e, direction⟩ := by
  refine gives_bind.trans ?_
  simp only [gives_bind, gives_pure, exists_eq_right_right', exists_and_left]

theorem not_gives_sequence {q : Query} (hq : q.isSequence = false) {d : Draft} :
    ¬ Gives (sequence caps q) n d m := by
  cases q <;> first
    | exact absurd hq.symm Bool.false_ne_true
    | exact not_gives_throw

theorem gives_meeting_none {d d' : Draft} :
    Gives (meeting caps d none) n d' m ↔ d' = d ∧ m = n :=
  gives_pure

theorem gives_meeting_some {d d' : Draft} {predicate : Query} :
    Gives (meeting caps d (some predicate)) n d' m ↔
      ∃ d₁ k e, Gives (pushDownIf (d.isPaged || d.projected) d) n d₁ k ∧
        Gives (inRow d₁.row (expression caps predicate)) k e m ∧
        d' = d₁.filtered (asPredicate caps e) := by
  refine gives_bind.trans ?_
  simp only [gives_bind, gives_pure, exists_eq_right_right', exists_and_left]

end Clauses

/-! ### Sequences -/

/-- `Drafts caps q n d m`: drafting the sequence `q` with the names `n` can arrive at the draft
    `d` and the names `m`.  The draft may have been pushed down since its last operator. -/
inductive Drafts (caps : Capabilities) : Query → Naming → Draft → Naming → Prop
  | source {table : String} {alias? : Option String} {n : Naming} :
    Drafts caps (.source table alias?) n
      { select := .reading (.table table (Query.sourceAlias table alias?))
        row := ⟨Query.sourceAlias table alias?, Query.sourceAlias table alias?⟩ } n
  | pushed {q : Query} {n m k : Naming} {d d' : Draft} (hd : Drafts caps q n d m)
      (hpush : Gives (pushDown d) m d' k) : Drafts caps q n d' k
  | filter {rows predicate : Query} {n m k : Naming} {d : Draft} {e : Expr}
      (hd : Drafts caps rows n d m) (hpaged : d.isPaged = false) (hproj : d.projected = false)
      (he : Gives (inRow d.row (expression caps predicate)) m e k) :
    Drafts caps (.filter rows predicate) n (d.filtered (asPredicate caps e)) k
  | project {rows : Query} {columns : List (String × Query)} {n m k : Naming} {d : Draft}
      {cs : List Column} (hd : Drafts caps rows n d m) (hproj : d.projected = false)
      (hcs : Gives (inRow d.row (projection caps columns)) m cs k) :
    Drafts caps (.project rows columns) n (d.projecting cs) k
  | skip {rows count : Query} {n m : Naming} {d : Draft} {e : Expr}
      (hd : Drafts caps rows n d m) (hpaged : d.isPaged = false)
      (he : Paging.rowCount PagingOperator.skip.name count = .ok e) :
    Drafts caps (.skip rows count) n { d with paging := { d.paging with skip? := some e } } m
  | take {rows count : Query} {n m : Naming} {d : Draft} {e : Expr}
      (hd : Drafts caps rows n d m) (htake : d.paging.take? = none)
      (he : Paging.rowCount PagingOperator.take.name count = .ok e) :
    Drafts caps (.take rows count) n { d with paging := { d.paging with take? := some e } } m
  | orderBy {rows key : Query} {direction : Direction} {n m k : Naming} {d : Draft} {e : Expr}
      (hd : Drafts caps rows n d m) (hpaged : d.isPaged = false) (hproj : d.projected = false)
      (he : Gives (inRow d.row (expression caps key)) m e k) :
    Drafts caps (.orderBy rows key direction) n (d.ordered ⟨asValue caps e, direction⟩) k

/-- A draft has no columns before its first projection. -/
theorem Drafts.bare {caps : Capabilities} {q : Query} {n m : Naming} {d : Draft}
    (h : Drafts caps q n d m) : d.projected = false → d.select.columns = [] := by
  induction h with
  | source => exact fun _ => rfl
  | pushed _ hpush =>
    obtain ⟨_, _, _, _, _, rfl⟩ := gives_pushDown.mp hpush
    exact fun _ => rfl
  | project => exact fun hproj => absurd hproj (by simp [Draft.projecting])
  | filter _ _ _ _ ih | orderBy _ _ _ _ ih | skip _ _ _ ih | take _ _ _ ih => exact ih

/-- A draft that was just pushed down has no window and no columns. -/
theorem flat_of_gives_pushDown {d d' : Draft} {n m : Naming} (h : Gives (pushDown d) n d' m) :
    d'.paging = {} ∧ d'.projected = false := by
  obtain ⟨_, _, _, _, _, rfl⟩ := gives_pushDown.mp h
  exact ⟨rfl, rfl⟩

/-- Pushing down where needed keeps a draft of the sequence and leaves it without need. -/
theorem Drafts.pushedIf {caps : Capabilities} {q : Query} {n m k : Naming} {d d' : Draft}
    (needed : Draft → Bool) (hfresh : ∀ d : Draft, d.paging = {} → d.projected = false →
      needed d = false) (hd : Drafts caps q n d m)
    (h : Gives (pushDownIf (needed d) d) m d' k) :
    Drafts caps q n d' k ∧ needed d' = false := by
  rw [gives_pushDownIf] at h
  split at h
  · obtain ⟨hpaging, hprojected⟩ := flat_of_gives_pushDown h
    exact ⟨hd.pushed h, hfresh _ hpaging hprojected⟩
  · rename_i hneeded
    obtain ⟨rfl, rfl⟩ := h
    exact ⟨hd, by simpa using hneeded⟩

/-- Pushing down what has a window or columns leaves neither. -/
theorem Drafts.flat {caps : Capabilities} {q : Query} {n m k : Naming} {d d' : Draft}
    (hd : Drafts caps q n d m) (h : Gives (pushDownIf (d.isPaged || d.projected) d) m d' k) :
    Drafts caps q n d' k ∧ d'.isPaged = false ∧ d'.projected = false := by
  obtain ⟨hpushed, hneeded⟩ := hd.pushedIf (fun d => d.isPaged || d.projected)
    (by rintro ⟨⟩ rfl rfl; rfl) h
  exact ⟨hpushed, Bool.or_eq_false_iff.mp hneeded⟩

/-- What `sequence` gives is a draft of the sequence. -/
theorem drafts_of_gives {caps : Capabilities} {n m : Naming} {d : Draft} :
    {q : Query} → Gives (sequence caps q) n d m → Drafts caps q n d m
  | .source .., h => by
    obtain ⟨rfl, rfl⟩ := gives_source.mp h
    exact .source
  | .filter rows predicate, h => by
    obtain ⟨d₀, n₀, hrows, hmeeting⟩ := gives_filter.mp h
    obtain ⟨d₁, n₁, e, hpush, he, rfl⟩ := gives_meeting_some.mp hmeeting
    obtain ⟨hd, hpaged, hproj⟩ := (drafts_of_gives hrows).flat hpush
    exact .filter hd hpaged hproj he
  | .project rows columns, h => by
    obtain ⟨d₀, n₀, d₁, n₁, cs, hrows, hpush, hcs, rfl⟩ := gives_project.mp h
    have hd := (drafts_of_gives hrows).pushedIf Draft.projected
      (by rintro ⟨⟩ rfl rfl; rfl) hpush
    exact .project hd.1 hd.2 hcs
  | .skip rows count, h => by
    obtain ⟨d₀, n₀, d₁, e, hrows, hpush, he, rfl⟩ := gives_skip.mp h
    have hd := (drafts_of_gives hrows).pushedIf Draft.isPaged
      (by rintro ⟨⟩ rfl rfl; rfl) hpush
    exact .skip hd.1 hd.2 he
  | .take rows count, h => by
    obtain ⟨d₀, n₀, d₁, e, hrows, hpush, he, rfl⟩ := gives_take.mp h
    have hd := (drafts_of_gives hrows).pushedIf (fun d => d.paging.take?.isSome)
      (by rintro ⟨⟩ rfl rfl; rfl) hpush
    exact .take hd.1 (by simpa using hd.2) he
  | .orderBy rows key direction, h => by
    obtain ⟨d₀, n₀, d₁, n₁, e, hrows, hpush, he, rfl⟩ := gives_orderBy.mp h
    obtain ⟨hd, hpaged, hproj⟩ := (drafts_of_gives hrows).flat hpush
    exact .orderBy hd hpaged hproj he
  | .any .., h | .member .., h | .call .., h | .constant _, h | .parameter _, h
  | .binary .., h | .unary .., h => absurd h (not_gives_sequence rfl)

/-! ### Whole queries -/

/-- The names that the statement of a query on its own starts with. -/
def Naming.ofQuery (q : Query) : Naming := { sourceAliases := q.sourceAliases }

theorem gives_of_ofQuery {caps : Capabilities} {q : Query} {s : Select}
    (h : Select.ofQuery caps q = .ok s) : ∃ m, Gives (statement caps q) {} s m := by
  unfold Select.ofQuery at h
  rcases hrun : (statement caps q).run.run {} with ⟨result, m⟩
  rw [hrun] at h
  refine ⟨m, ?_⟩
  rw [Gives, hrun]
  exact congrArg (·, m) h

/-- The statement of a sequence is that of its draft. -/
theorem sequence_of_ofQuery {caps : Capabilities} {q : Query} {s : Select}
    (hq : q.isSequence = true) (h : Select.ofQuery caps q = .ok s) :
    ∃ d m, Gives (sequence caps q) (.ofQuery q) d m ∧ d.finish = .ok s := by
  obtain ⟨m, hgives⟩ := gives_of_ofQuery h
  unfold statement at hgives
  simp only [gives_bind, gives_modify] at hgives
  obtain ⟨_, _, rfl, hgives⟩ := hgives
  cases q <;> simp only [Query.isSequence, Bool.false_eq_true] at hq <;>
    simp only [Query.isSequence, if_true, gives_bind, gives_lift] at hgives <;>
    obtain ⟨d, m', hd, hfinish, _⟩ := hgives <;>
    exact ⟨d, m', hd, hfinish⟩

/-- A sequence has the statement of its draft. -/
theorem ofQuery_of_sequence {caps : Capabilities} {q : Query} {d : Draft} {s : Select} {m : Naming}
    (hq : q.isSequence = true) (hd : Gives (sequence caps q) (.ofQuery q) d m)
    (hs : d.finish = .ok s) : Select.ofQuery caps q = .ok s := by
  have hrest : Gives (do let d ← sequence caps q; d.finish) (.ofQuery q) s m :=
    gives_bind.mpr ⟨d, m, hd, gives_lift.mpr ⟨hs, rfl⟩⟩
  have hgives : Gives (statement caps q) {} s m := by
    unfold statement
    refine gives_bind.mpr ⟨⟨⟩, .ofQuery q, gives_modify.mpr rfl, ?_⟩
    cases q <;> first
      | exact hrest
      | exact absurd hq Bool.false_ne_true
  exact congrArg Prod.fst hgives

/-- Besides sequences only tests have statements. -/
theorem any_of_ofQuery {caps : Capabilities} {q : Query} {s : Select}
    (hq : q.isSequence = false) (h : Select.ofQuery caps q = .ok s) :
    ∃ rows predicate? e m, q = .any rows predicate? ∧
      Gives (expression caps q) (.ofQuery q) e m ∧ s = answering e := by
  obtain ⟨m, hgives⟩ := gives_of_ofQuery h
  unfold statement at hgives
  simp only [gives_bind, gives_modify] at hgives
  obtain ⟨_, _, rfl, hgives⟩ := hgives
  cases q <;> simp only [Query.isSequence, Bool.true_eq_false] at hq
  case any rows predicate? =>
    simp only [gives_bind, gives_lift, gives_pure] at hgives
    obtain ⟨_, _, ⟨_, rfl⟩, e, m', he, rfl, _⟩ := hgives
    exact ⟨rows, predicate?, e, m', rfl, he, rfl⟩
  all_goals
    simp only [Query.isSequence, Bool.false_eq_true, if_false] at hgives
    exact absurd hgives not_gives_throw

/-- What is taken over for a test is a test for rows. -/
theorem existsRow_of_gives_any {caps : Capabilities} {rows : Query} {predicate? : Option Query}
    {n m : Naming} {e : Expr} (h : Gives (expression caps (.any rows predicate?)) n e m) :
    ∃ s, e = .existsRow s := by
  obtain ⟨_, _, _, s, _, _, _, rfl⟩ := gives_any.mp h
  exact ⟨s, rfl⟩

end QueryLoom.Sql

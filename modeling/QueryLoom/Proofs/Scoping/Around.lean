/-
  QueryLoom/Proofs/Scoping/Around.lean
  ====================================
  **One more row around an expression.**  To enter a SELECT puts a row in front of those around
  it: in the statement under its alias there, and in the query under the alias that the query
  knows it by, where it is the innermost row as well.

  What is said of a row here may be the values of its columns or anything else that belongs to
  them, such as their kinds.

    * `Naming.Reads.within` — if columns are read as the query reads them, then they still are
      with one more row in scope;
    * `Naming.Sees.enter` — so it is with the row of a draft, whose frame is placed as well;
    * `Draft.Tracks.ne_next_of_key` — no key refers to the alias that comes next.
-/
import QueryLoom.Proofs.Scoping.Statement

namespace QueryLoom.Sql

variable {V : Type}

/-- The columns in scope with one more row around. -/
def Columns.within (ρ : Columns V) (source? : Option String) (row : String → V) : Columns V :=
  fun source name => if some source = source? then row name else ρ source name

/-- The columns that a query can name with one more row around. -/
def Fields.within (χ : Fields V) (source : String) (row : String → V) : Fields V :=
  fun alias? name => if alias? = none ∨ alias? = some source then row name else χ alias? name

theorem Columns.within_self (ρ : Columns V) (source : String) (row : String → V) (name : String) :
    ρ.within (some source) row source name = row name := if_pos rfl

theorem Columns.within_ne {ρ : Columns V} {source other : String} (h : other ≠ source)
    (row : String → V) (name : String) :
    ρ.within (some source) row other name = ρ other name :=
  if_neg fun heq => h (Option.some.inj heq)

/-- With one more row in scope columns are read as the query reads them, if they were before. -/
theorem Naming.Reads.within {n : Naming} {f : Frame} {frames : List Frame} {ρ : Columns V}
    {χ : Fields V} (hr : n.Reads ρ χ) (hplaced : Placed n (f :: frames))
    (hscopes : n.scopes = frames.map Frame.scope) (row : String → V) {row' : Scope}
    (hrow : row' = f.scope) :
    ({ n with scopes := row' :: n.scopes } : Naming).Reads (ρ.within (some f.actual) row)
      (χ.within f.logical row) := by
  subst hrow
  intro alias? found hfound name
  cases alias? with
  | none =>
    obtain rfl : f.scope = found := Option.some.inj hfound
    exact (ρ.within_self f.actual row name).trans (if_pos (.inl rfl)).symm
  | some source =>
    simp only [Naming.row?, List.find?_cons] at hfound
    by_cases hsource : f.logical = source
    · rw [show f.scope.logical = f.logical from rfl, beq_iff_eq.mpr hsource] at hfound
      obtain rfl : f.scope = found := Option.some.inj hfound
      rw [← hsource]
      exact (ρ.within_self f.actual row name).trans (if_pos (.inr rfl)).symm
    · rw [show f.scope.logical = f.logical from rfl, beq_eq_false_iff_ne.mpr hsource] at hfound
      have hlogical : found.logical = source := by simpa using List.find?_some hfound
      have hmem : found ∈ frames.map Frame.scope := hscopes ▸ List.mem_of_find?_eq_some hfound
      obtain ⟨g, hg, rfl⟩ := List.mem_map.mp hmem
      -- one alias in the statement for both would be one alias in the query
      have hactual : g.actual ≠ f.actual := by
        intro heq
        have htable := (List.pairwise_cons.mp hplaced.apart).1 g hg heq.symm
        have hf := hplaced.named f List.mem_cons_self htable
        have hg := hplaced.named g (List.mem_cons_of_mem f hg) (heq ▸ htable)
        exact hsource (by rw [← hf, ← heq, hg]; exact hlogical)
      have hfields : χ.within f.logical row (some source) name = χ (some source) name :=
        if_neg (by simpa using Ne.symm hsource)
      rw [hfields, ← hr (some source) g.scope hfound name]
      exact Columns.within_ne hactual row name

/-! ### What is around a sequence -/

/-- The rows in scope are placed, and read as the query reads them. -/
structure Naming.Sees (n : Naming) (frames : List Frame) (ρ : Columns V) (χ : Fields V) : Prop where
  placed : Placed n frames
  scopes : n.scopes = frames.map Frame.scope
  reads : n.Reads ρ χ

namespace Naming.Sees

variable {n m : Naming} {frames : List Frame} {ρ : Columns V} {χ : Fields V} {caps : Capabilities}
  {q : Query} {d : Draft}

theorem nil {ρ : Columns V} {χ : Fields V} (hscopes : n.scopes = []) : n.Sees [] ρ χ := by
  refine ⟨placed_nil n, hscopes, ?_⟩
  intro alias? row hrow
  cases alias? <;> simp [Naming.row?, hscopes] at hrow

theorem follows (h : n.Sees frames ρ χ) (hm : m.Follows n) : m.Sees frames ρ χ :=
  ⟨h.placed.follows hm, hm.scopes.trans h.scopes, h.reads.congr hm.scopes⟩

/-- The draft of a sequence tracks it below the rows in scope. -/
theorem tracks (h : n.Sees frames ρ χ) (haliases : q.sourceAliases ⊆ n.sourceAliases)
    (hd : Drafts caps q n d m) : d.Tracks caps frames m q :=
  tracksBelow caps (sizeOf q + 1) q n m d frames (Nat.lt_succ_self _) h.placed h.scopes haliases hd

/-- What is around an expression that is taken over with the row of a draft in scope. -/
theorem enter (h : n.Sees frames ρ χ) (hd : d.Tracks caps frames n q) (row : String → V) :
    ({ n with scopes := d.row :: n.scopes } : Naming).Sees (d.frame q :: frames)
      (ρ.within (some d.row.actual) row) (χ.within q.rowAlias row) := by
  obtain ⟨hplaced, hscopes⟩ := hd.inRow h.scopes
  refine ⟨hplaced, hscopes, ?_⟩
  refine h.reads.within hd.placed h.scopes row ?_
  rw [Draft.frame, Frame.scope, ← hd.logical]

/-- What is known where the next operator of a sequence is taken over: the draft tracks the
    sequence, and the rows around it are seen as before. -/
theorem next {k : Naming} {d' : Draft} (hn : n.Sees frames ρ χ)
    (haliases : q.sourceAliases ⊆ n.sourceAliases) (hd : Gives (sequence caps q) n d m)
    (needed : Draft → Bool) (hfresh : ∀ d : Draft, d.paging = {} → d.projected = false →
      needed d = false) (hpush : Gives (pushDownIf (needed d) d) m d' k) :
    d.Tracks caps frames m q ∧ d'.Tracks caps frames k q ∧ k.Follows n ∧ needed d' = false := by
  have hdrafts := drafts_of_gives hd
  obtain ⟨hpushed, hneeded⟩ := hdrafts.pushedIf needed hfresh hpush
  exact ⟨hn.tracks haliases hdrafts, hn.tracks haliases hpushed, hpushed.follows, hneeded⟩

/-- The same where the next operator has to find neither a window nor columns. -/
theorem nextFlat {k : Naming} {d' : Draft} (hn : n.Sees frames ρ χ)
    (haliases : q.sourceAliases ⊆ n.sourceAliases) (hd : Gives (sequence caps q) n d m)
    (hpush : Gives (pushDownIf (d.isPaged || d.projected) d) m d' k) :
    d.Tracks caps frames m q ∧ d'.Tracks caps frames k q ∧ k.Follows n ∧
      d'.isPaged = false ∧ d'.projected = false := by
  have hdrafts := drafts_of_gives hd
  obtain ⟨hpushed, hflat⟩ := hdrafts.flat hpush
  exact ⟨hn.tracks haliases hdrafts, hn.tracks haliases hpushed, hpushed.follows, hflat⟩

end Naming.Sees

/-- No key of a draft refers to the alias that comes next. -/
theorem Draft.Tracks.ne_next_of_key {caps : Capabilities} {frames : List Frame} {m : Naming}
    {d : Draft} {q : Query} (hd : d.Tracks caps frames m q) {k : OrderKey}
    (hk : k ∈ d.select.ordering) {source name : String}
    (hx : .column source name ∈ k.expr.parts) : source ≠ Text.numbered "t" m.next := by
  obtain ⟨base, ps, cs, hclauses⟩ := hd.clauses
  obtain ⟨p, -, hkey, -⟩ := exists_of_forall₂_left hclauses.ordering hk
  rcases hkey.named hd.source (mem_references.mpr ⟨hx, rfl⟩) with ⟨_, _, heq, hlevel⟩ | ⟨_, heq⟩ <;>
    cases heq
  rintro rfl
  have hnone : level? ((d.frame q :: frames).map Frame.item) (Text.numbered "t" m.next) = none := by
    refine level?_eq_none fun i hi => ?_
    obtain ⟨f, hf, rfl⟩ := List.mem_map.mp hi
    exact hd.placed.ne_next hf
  cases (congrArg Option.isSome hnone).symm.trans hlevel

end QueryLoom.Sql

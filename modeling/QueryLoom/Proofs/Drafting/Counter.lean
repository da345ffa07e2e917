/-
  QueryLoom/Proofs/Drafting/Counter.lean
  ======================================
  **How far the counter of derived tables goes.**  A step that draws an alias passes over the
  numbers of aliases that tables have and takes the next one.  So the counter is never further
  than the aliases drawn and the aliases of tables together, and as a node of a query draws no
  more than one alias, a run on a query ends with a counter that is bounded by the nodes and the
  tables of the query, also if it fails.

    * `Naming.derived_le` — the counter is bounded by the aliases drawn and those of tables;
    * `derived_le_of_run` — the counter at the end of a run.
-/
import QueryLoom.Proofs.Drafting.Naming

namespace QueryLoom.Sql

/-- How many numbers below the counter no table has in its alias.  These are the numbers that were
    drawn. -/
def Naming.drawn (n : Naming) : Nat :=
  (List.range' 0 n.derived).countP fun i => !n.sourceAliases.contains (Text.numbered "t" i)

theorem Naming.derived_le (n : Naming) : n.derived ≤ n.drawn + n.sourceAliases.length := by
  have htaken := Text.countP_taken_le "t" n.sourceAliases 0 n.derived
  have hall := List.length_eq_countP_add_countP (l := List.range' 0 n.derived)
    fun i => n.sourceAliases.contains (Text.numbered "t" i)
  rw [List.length_range'] at hall
  simp only [Bool.not_eq_true, Bool.decide_eq_false] at hall
  rw [Naming.drawn]
  omega

/-- The search for an alias passes over aliases of tables only. -/
theorem Naming.drawn_fresh (n : Naming) :
    ({ n with derived := n.next + 1 } : Naming).drawn ≤ n.drawn + 1 := by
  obtain ⟨-, -, hbefore⟩ := Text.freeNumber_spec "t" n.sourceAliases 0 n.derived
  have hskipped := List.range'_append_1 (s := 0) (m := n.derived) (n := n.next - n.derived)
  rw [Nat.zero_add, Nat.add_sub_cancel' n.le_next] at hskipped
  show (List.range' 0 (n.next + 1)).countP (fun i => !n.sourceAliases.contains
    (Text.numbered "t" i)) ≤ n.drawn + 1
  rw [List.range'_1_concat, ← hskipped, List.countP_append, List.countP_append]
  refine Nat.add_le_add (Nat.le_of_eq ?_) List.countP_le_length
  rw [Naming.next, hbefore, Nat.add_zero]
  rfl

/-- No more aliases are drawn than may be. -/
def Growth.drawing : Growth where
  rel k n m := m.drawn ≤ n.drawn + k
  refl n := Nat.le_refl _
  trans h h' := by omega
  mono h h' := by omega
  inRow _ h := h
  fresh n := n.drawn_fresh

/-- At the end of a run the counter is bounded by the nodes and the tables of the query. -/
theorem derived_le_of_run (caps : Capabilities) (q : Query) :
    ((statement caps q).run.run {}).2.derived ≤ q.nodes.length + q.sourceAliases.length := by
  have hbound : ∀ {x : Drafting Select}, Grows .drawing x q.nodes.length → KeepsNames x →
      (x.run.run (.ofQuery q)).2.derived ≤ q.nodes.length + q.sourceAliases.length := by
    intro x hdraws hkeeps
    have hnames := (hkeeps (.ofQuery q)).sourceAliases
    have hdrawn : (x.run.run (.ofQuery q)).2.drawn ≤ 0 + q.nodes.length := hdraws (.ofQuery q)
    refine Nat.le_trans (Naming.derived_le _) ?_
    rw [hnames]
    exact Nat.add_le_add_right (Nat.zero_add q.nodes.length ▸ hdrawn) _
  have hsequence : Grows .drawing (sequence caps q >>= fun d => liftM d.finish) q.nodes.length :=
    (grows_sequence caps q).bind fun d => grows_lift _
  have hkeeps : KeepsNames (sequence caps q >>= fun d => liftM d.finish) :=
    (keepsNames_sequence caps q).bind fun d => keepsNames_lift _
  cases q with
  | any rows predicate? =>
    refine hbound (x := liftM (caps.require .topLevelAny) >>= fun _ =>
      expression caps (.any rows predicate?) >>= fun e => pure (answering e)) ?_ ?_
    · exact ((grows_lift _).bind fun _ => (grows_expression caps _).bind fun _ =>
        grows_pure _).mono (by omega)
    · exact (keepsNames_lift _).bind fun _ => (keepsNames_expression caps _).bind fun _ =>
        keepsNames_pure _
  | source | filter | project | skip | take | orderBy => exact hbound hsequence hkeeps
  | member | call | constant | parameter | binary | unary =>
    exact hbound (x := throw (.notAQuery (Query.kind _))) ((grows_throw _).mono (Nat.zero_le _))
      (keepsNames_throw _)

end QueryLoom.Sql

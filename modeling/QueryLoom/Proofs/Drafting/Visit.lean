/-
  QueryLoom/Proofs/Drafting/Visit.lean
  ====================================
  **Where a node is taken over.**  The rows in scope and the derived tables so far depend on what
  was taken over before a node.  `Visits` follows the run to a node and the names that it
  starts from there.  Each rule of `Enters` is one call of the recursion, with what the run gave
  before that call.

    * `Enters` — from a node to one right below it;
    * `Visits` — from a node to any in it;
    * `Visits.mem_nodes` — only nodes of the query are visited.
-/
import QueryLoom.Proofs.Drafting.Outcome
import QueryLoom.Proofs.Query.Site

namespace QueryLoom.Sql

/-- One of several scalars is taken over, after those in front of it. -/
inductive EntersOne (caps : Capabilities) : List Query → Naming → Query → Naming → Prop
  | head {q : Query} {rest : List Query} {n : Naming} : EntersOne caps (q :: rest) n q n
  | tail {q x : Query} {rest : List Query} {n m k : Naming} {e : Expr}
      (he : Gives (expression caps q) n e m) (hx : EntersOne caps rest m x k) :
    EntersOne caps (q :: rest) n x k

/-- `Enters caps q n x k`: taking over `q` with the names `n` takes over `x`, which is right below,
    with the names `k`. -/
inductive Enters (caps : Capabilities) : Query → Naming → Query → Naming → Prop
  | memberReceiver {receiver : Query} {member : Member} {n : Naming} :
    Enters caps (.member (some receiver) member) n receiver n
  | callReceiver {receiver : Query} {method : Method} {args : List Query} {n : Naming} :
    Enters caps (.call (some receiver) method args) n receiver n
  | argument {receiver? : Option Query} {method : Method} {args : List Query} {x : Query}
      {n m k : Naming} {r? : Option Expr} (hr : Gives (optionValue caps receiver?) n r? m)
      (hx : EntersOne caps args m x k) :
    Enters caps (.call receiver? method args) n x k
  | besideNull {left right : Query} {op : QueryLoom.BinaryOperator} {n : Naming}
      (hnull : testsEquality op && isNullConstant left) :
    Enters caps (.binary left op right) n right n
  | left {left right : Query} {op : QueryLoom.BinaryOperator} {n : Naming}
      (hleft : ¬ (testsEquality op && isNullConstant left)) :
    Enters caps (.binary left op right) n left n
  | right {left right : Query} {op : QueryLoom.BinaryOperator} {n m : Naming} {l : Expr}
      (hleft : ¬ (testsEquality op && isNullConstant left))
      (hright : ¬ (testsEquality op && isNullConstant right))
      (hl : Gives (expression caps left) n l m) :
    Enters caps (.binary left op right) n right m
  | operand {op : QueryLoom.UnaryOperator} {operand : Query} {n : Naming} :
    Enters caps (.unary op operand) n operand n
  | testRows {rows : Query} {predicate? : Option Query} {n : Naming} :
    Enters caps (.any rows predicate?) n rows n
  | testPredicate {rows predicate : Query} {n m k : Naming} {d d' : Draft}
      (hrows : Gives (sequence caps rows) n d m)
      (hpush : Gives (pushDownIf (d.isPaged || d.projected) d) m d' k) :
    Enters caps (.any rows (some predicate)) n predicate { k with scopes := d'.row :: k.scopes }
  | filterRows {rows predicate : Query} {n : Naming} :
    Enters caps (.filter rows predicate) n rows n
  | filterPredicate {rows predicate : Query} {n m k : Naming} {d d' : Draft}
      (hrows : Gives (sequence caps rows) n d m)
      (hpush : Gives (pushDownIf (d.isPaged || d.projected) d) m d' k) :
    Enters caps (.filter rows predicate) n predicate { k with scopes := d'.row :: k.scopes }
  | projectRows {rows : Query} {columns : List (String × Query)} {n : Naming} :
    Enters caps (.project rows columns) n rows n
  | column {rows x : Query} {columns : List (String × Query)} {n m k k' : Naming} {d d' : Draft}
      (hrows : Gives (sequence caps rows) n d m)
      (hpush : Gives (pushDownIf d.projected d) m d' k)
      (hx : EntersOne caps (columns.map Prod.snd) { k with scopes := d'.row :: k.scopes } x k') :
    Enters caps (.project rows columns) n x k'
  | skipRows {rows count : Query} {n : Naming} : Enters caps (.skip rows count) n rows n
  | takeRows {rows count : Query} {n : Naming} : Enters caps (.take rows count) n rows n
  | orderedRows {rows key : Query} {direction : Direction} {n : Naming} :
    Enters caps (.orderBy rows key direction) n rows n
  | sortKey {rows key : Query} {direction : Direction} {n m k : Naming} {d d' : Draft}
      (hrows : Gives (sequence caps rows) n d m)
      (hpush : Gives (pushDownIf (d.isPaged || d.projected) d) m d' k) :
    Enters caps (.orderBy rows key direction) n key { k with scopes := d'.row :: k.scopes }

/-- `Visits caps q n x k`: taking over `q` with the names `n` takes over its node `x` with the
    names `k`. -/
inductive Visits (caps : Capabilities) : Query → Naming → Query → Naming → Prop
  | start {q : Query} {n : Naming} : Visits caps q n q n
  | step {q x y : Query} {n m k : Naming} (hx : Enters caps q n x m)
      (hy : Visits caps x m y k) : Visits caps q n y k

variable {caps : Capabilities} {q x : Query} {n k : Naming}

theorem EntersOne.mem {qs : List Query} (h : EntersOne caps qs n x k) : x ∈ qs := by
  induction h with
  | head => exact List.mem_cons_self
  | tail _ _ ih => exact List.mem_cons_of_mem _ ih

/-- The nodes of what is right below a node are among its own. -/
theorem Enters.nodes_subset (h : Enters caps q n x k) : x.nodes ⊆ q.nodes := by
  rw [Query.nodes.eq_def q]
  refine List.subset_cons_of_subset _ ?_
  cases h with
  | memberReceiver | operand => exact List.Subset.refl _
  | argument _ hx =>
    exact List.Subset.trans (Query.nodes_subset_listNodes hx.mem) (List.subset_append_right _ _)
  | column _ _ hx =>
    dsimp only
    rw [Query.columnNodes_eq]
    exact List.Subset.trans (Query.nodes_subset_listNodes hx.mem) (List.subset_append_right _ _)
  | callReceiver | left | testRows | filterRows | projectRows | skipRows | takeRows
  | orderedRows => exact List.subset_append_left _ _
  | besideNull | right | testPredicate | filterPredicate | sortKey =>
    exact List.subset_append_right _ _

theorem Visits.mem_nodes (h : Visits caps q n x k) : x ∈ q.nodes := by
  induction h with
  | start => exact Query.self_mem_nodes _
  | step hx _ ih => exact hx.nodes_subset ih

end QueryLoom.Sql

/-
  QueryLoom/Proofs/Rendering/Placement.lean
  =========================================
  **Where the parts of a statement stand in its text.**  The pieces of an operand stand side by side
  among those of the operator, the pieces of a clause among those of its SELECT, and the pieces of
  a derived table and of a tested statement among those of the statement around it.  What stands
  side by side as pieces is written side by side.

    * `infix_of_mem_parts`, `Select.Block.infix_pieces` — the pieces of a part of an expression
      and of a SELECT in a statement;
    * `Style.exists_write_of_part` — the text of pieces in the text of all of them;
    * `Select.Block.listsKeys` — the ORDER BY list of every SELECT is in the text of the statement.
-/
import Mathlib.Data.List.Infix
import QueryLoom.Proofs.Rendering.Representable
import QueryLoom.Proofs.Rendering.Writing

namespace QueryLoom.Sql

/-! ### Pieces among pieces -/

section Pieces

variable {caps : Capabilities} {ps qs rs sep : List Piece} {parts : List (List Piece)}

theorem infix_append_of_left (h : ps <:+: qs) : ps <:+: qs ++ rs :=
  h.trans (List.prefix_append qs rs).isInfix

theorem infix_append_of_right (h : ps <:+: rs) : ps <:+: qs ++ rs :=
  h.trans (List.suffix_append qs rs).isInfix

theorem infix_intercalate (h : ps ∈ parts) : ps <:+: sep.intercalate parts := by
  induction parts with
  | nil => cases h
  | cons first rest ih =>
    cases rest with
    | nil =>
      obtain rfl := List.mem_singleton.mp h
      rw [List.intercalate_singleton]
    | cons next rest =>
      rw [List.intercalate_cons_cons]
      rcases List.mem_cons.mp h with rfl | h
      · exact infix_append_of_left (List.prefix_append _ _).isInfix
      · exact infix_append_of_right (ih h)

theorem infix_parenthesized (h : ps <:+: qs) : ps <:+: Piece.parenthesized qs :=
  List.infix_cons (infix_append_of_left h)

theorem infix_call {name : String} (h : ps <:+: qs) : ps <:+: Piece.call name qs :=
  List.infix_cons (infix_parenthesized h)

theorem infix_guarded {least : Precedence} {e : Expr} (h : ps <:+: qs) :
    ps <:+: e.guarded least qs := by
  unfold Expr.guarded
  split
  · exact infix_parenthesized h
  · exact h

theorem infix_spaced (h : ps ∈ parts) (hsilent : Piece.areSilent ps = false) :
    ps <:+: Piece.spaced parts :=
  infix_intercalate (List.mem_filter.mpr ⟨h, by rw [hsilent]; rfl⟩)

theorem infix_whensPieces (caps : Capabilities) {ws : List When} {w : When} (hw : w ∈ ws) :
    ∃ branch ∈ whensPieces caps ws, w.condition.pieces caps <:+: branch ∧
      w.result.pieces caps <:+: branch := by
  induction ws with
  | nil => cases hw
  | cons first rest ih =>
    rcases first with ⟨condition, result⟩
    rw [whensPieces]
    rcases List.mem_cons.mp hw with rfl | hw
    · refine ⟨_, List.mem_cons_self, ?_, ?_⟩
      · exact infix_append_of_left (infix_append_of_left (List.infix_cons (List.infix_cons
          (List.infix_refl _))))
      · exact infix_append_of_right (List.infix_refl _)
    · obtain ⟨branch, hbranch, h⟩ := ih hw
      exact ⟨branch, List.mem_cons_of_mem _ hbranch, h⟩

/-- The pieces of an operand stand among those of the operator. -/
theorem infix_operand {e o : Expr} (ho : o ∈ e.operands) : o.pieces caps <:+: e.pieces caps := by
  cases e with
  | column | allColumns | literal | parameter | existsRow | keyword => cases ho
  | function name args =>
    rw [Expr.pieces, listPieces_eq_map]
    exact infix_call (infix_intercalate (List.mem_map_of_mem ho))
  | trim side? chars? text =>
    rw [Expr.pieces]
    refine infix_call ?_
    rcases List.mem_append.mp ho with ho | ho
    · obtain rfl := Option.mem_toList.mp ho
      rw [Option.isNone_some, Bool.and_false, if_neg Bool.false_ne_true]
      refine infix_append_of_left (infix_append_of_left (infix_intercalate ?_))
      exact List.mem_append_right _ List.mem_cons_self
    · obtain rfl := List.mem_singleton.mp ho
      split
      · exact List.infix_refl _
      · exact infix_append_of_right (List.infix_refl _)
  | substring text start length? =>
    rw [Expr.pieces]
    refine infix_call ?_
    rcases List.mem_cons.mp ho with rfl | ho
    · exact infix_append_of_left (infix_append_of_left (infix_append_of_left (List.infix_refl _)))
    rcases List.mem_cons.mp ho with rfl | ho
    · exact infix_append_of_left (infix_append_of_right (List.infix_refl _))
    · obtain rfl := Option.mem_toList.mp ho
      refine infix_append_of_right ?_
      rw [optionPieces, List.flatMap_singleton]
      exact infix_append_of_right (List.infix_refl _)
  | extract part operand =>
    obtain rfl := List.mem_singleton.mp ho
    rw [Expr.pieces]
    exact infix_call (infix_append_of_right (List.infix_refl _))
  | cast operand type =>
    obtain rfl := List.mem_singleton.mp ho
    rw [Expr.pieces]
    exact infix_call (infix_append_of_left (infix_append_of_left (List.infix_refl _)))
  | position needle haystack =>
    rw [Expr.pieces]
    refine infix_call ?_
    rcases List.mem_pair.mp ho with rfl | rfl
    · exact infix_append_of_left (infix_append_of_left (List.infix_refl _))
    · exact infix_append_of_right (List.infix_refl _)
  | dateAdd amount part operand =>
    rw [Expr.pieces]
    refine infix_call ?_
    rcases List.mem_pair.mp ho with rfl | rfl
    · exact infix_append_of_left (infix_append_of_left (infix_guarded (List.infix_refl _)))
    · exact infix_append_of_right (List.infix_refl _)
  | atTimeZone operand zone =>
    obtain rfl := List.mem_singleton.mp ho
    rw [Expr.pieces]
    exact infix_append_of_left (infix_append_of_left (infix_guarded (List.infix_refl _)))
  | binary left op right =>
    rw [Expr.pieces]
    split
    · refine infix_call (infix_intercalate ?_)
      rcases List.mem_pair.mp ho with rfl | rfl
      · exact List.mem_cons_self
      · exact List.mem_cons_of_mem _ List.mem_cons_self
    · rcases List.mem_pair.mp ho with rfl | rfl
      · exact infix_append_of_left (infix_append_of_left (infix_guarded (List.infix_refl _)))
      · exact infix_append_of_right (List.infix_cons (infix_guarded (List.infix_refl _)))
  | unary op operand =>
    obtain rfl := List.mem_singleton.mp ho
    cases op with
    | not =>
      rw [Expr.pieces]
      exact List.infix_cons (List.infix_cons (infix_guarded (List.infix_refl _)))
    | negate =>
      rw [Expr.pieces]
      refine List.infix_cons ?_
      split
      · exact infix_parenthesized (infix_guarded (List.infix_refl _))
      · exact infix_guarded (List.infix_refl _)
  | isNull operand negated =>
    obtain rfl := List.mem_singleton.mp ho
    rw [Expr.pieces]
    exact infix_append_of_left (infix_guarded (List.infix_refl _))
  | case whens otherwise? =>
    rw [Expr.pieces]
    rcases List.mem_append.mp ho with ho | ho
    · obtain ⟨w, hw, ho⟩ := List.mem_flatMap.mp ho
      obtain ⟨branch, hbranch, hcondition, hresult⟩ := infix_whensPieces caps hw
      have hpart : o.pieces caps <:+: branch := by
        rcases List.mem_pair.mp ho with rfl | rfl
        · exact hcondition
        · exact hresult
      exact hpart.trans (infix_intercalate (List.mem_append_left _ (List.mem_append_left _
        (List.mem_cons_of_mem _ hbranch))))
    · obtain rfl := Option.mem_toList.mp ho
      have hotherwise : o.pieces caps <:+: .word "ELSE" :: .space :: o.pieces caps :=
        List.infix_cons (List.infix_cons (List.infix_refl _))
      exact hotherwise.trans (infix_intercalate (List.mem_append_left _
        (List.mem_append_right _ List.mem_cons_self)))

/-- The pieces of a part stand among those of the expression. -/
theorem infix_of_mem_parts (e : Expr) : ∀ x ∈ e.parts, x.pieces caps <:+: e.pieces caps := by
  have hall : Inherited (fun e => ∀ x ∈ e.parts, x.pieces caps <:+: e.pieces caps)
      (fun _ => True) := by
    refine ⟨?_, fun _ _ _ _ _ => trivial⟩
    intro e operands _ x hx
    rw [parts_eq, List.mem_cons] at hx
    rcases hx with rfl | hx
    · exact List.infix_refl _
    · obtain ⟨o, ho, hx⟩ := List.mem_flatMap.mp hx
      exact (operands o ho x hx).trans (infix_operand ho)
  exact hall.of_expr e

/-! ### Clauses -/

theorem not_areSilent_of_part (h : ps <:+: qs) (hps : Piece.areSilent ps = false) :
    Piece.areSilent qs = false := by
  rw [Piece.areSilent, List.all_eq_false] at hps ⊢
  obtain ⟨p, hp, hsilent⟩ := hps
  exact ⟨p, h.subset hp, hsilent⟩

theorem not_areSilent_word {w : String} (hw : w ≠ "") :
    Piece.areSilent (.word w :: ps) = false := by
  simp [Piece.areSilent, Piece.verbatim?, hw]

theorem infix_columnsPieces (caps : Capabilities) {cs : List Column} {c : Column} (hc : c ∈ cs) :
    ∃ part ∈ columnsPieces caps cs, c.expr.pieces caps <:+: part := by
  induction cs with
  | nil => cases hc
  | cons first rest ih =>
    rcases first with ⟨e, alias?⟩
    rw [columnsPieces]
    rcases List.mem_cons.mp hc with rfl | hc
    · exact ⟨_, List.mem_cons_self, infix_append_of_left (List.infix_refl _)⟩
    · obtain ⟨part, hpart, h⟩ := ih hc
      exact ⟨part, List.mem_cons_of_mem _ hpart, h⟩

theorem conditionsPieces_eq_map (es : List Expr) :
    conditionsPieces caps es = es.map fun e => e.guarded Precedence.and (e.pieces caps) := by
  induction es with
  | nil => rfl
  | cons e rest ih => rw [conditionsPieces, ih, List.map_cons]

theorem orderingPieces_eq_map (keys : List OrderKey) :
    orderingPieces caps keys =
      keys.map fun k => k.expr.pieces caps ++ [.space, .word (directionWord k.direction)] := by
  induction keys with
  | nil => rfl
  | cons k rest ih =>
    rcases k with ⟨e, direction⟩
    rw [orderingPieces, ih, List.map_cons]

/-- The pieces of an ORDER BY clause. -/
def orderByPieces (caps : Capabilities) (keys : List OrderKey) : List Piece :=
  Piece.phrase ["ORDER", "BY"] ++ .space :: Piece.listed (orderingPieces caps keys)

/-- The pieces of the origin and of the ORDER BY clause stand among those of the SELECT. -/
theorem infix_select (caps : Capabilities) (s : Select) : s.origin.pieces caps <:+: s.pieces caps ∧
    (s.ordering ≠ [] → orderByPieces caps s.ordering <:+: s.pieces caps) := by
  rcases s with ⟨columns, origin, conditions, ordering, window?⟩
  rw [Select.pieces]
  constructor
  · have hfrom : origin.pieces caps <:+: .word "FROM" :: .space :: origin.pieces caps :=
      List.infix_cons (List.infix_cons (List.infix_refl _))
    exact hfrom.trans (infix_spaced (by simp) (not_areSilent_word (by decide)))
  · intro hne
    have hordering : (orderingPieces caps ordering).isEmpty = false := by
      rw [orderingPieces_eq_map, List.isEmpty_map]
      exact List.isEmpty_eq_false_iff.mpr hne
    exact infix_spaced (by simp [orderByPieces, hordering]) (not_areSilent_word (by decide))

/-- The pieces of a clause that is not silent stand among those of the SELECT. -/
theorem infix_clause {s : Select} {e : Expr} (he : e ∈ s.clauses)
    (hsilent : Piece.areSilent (e.pieces caps) = false) : e.pieces caps <:+: s.pieces caps := by
  have hselect := (infix_select caps s).2
  rcases s with ⟨columns, origin, conditions, ordering, window?⟩
  simp only [Select.clauses, List.mem_append, List.mem_map, List.mem_flatMap] at he
  rcases he with ((⟨c, hc, rfl⟩ | he) | ⟨k, hk, rfl⟩) | ⟨w, hw, he⟩
  · obtain ⟨part, hpart, h⟩ := infix_columnsPieces caps hc
    have hlisted : c.expr.pieces caps <:+: Piece.listed (columnsPieces caps columns) :=
      h.trans (infix_intercalate hpart)
    rw [Select.pieces]
    exact hlisted.trans (infix_spaced (by simp) (not_areSilent_of_part hlisted hsilent))
  · have hpart : e.pieces caps <:+: e.guarded Precedence.and (e.pieces caps) :=
      infix_guarded (List.infix_refl _)
    have hmem : e.guarded Precedence.and (e.pieces caps) ∈ conditionsPieces caps conditions := by
      rw [conditionsPieces_eq_map]
      exact List.mem_map_of_mem he
    have hwhere : e.pieces caps <:+: .word "WHERE" :: .space :: (between "AND").intercalate
        (conditionsPieces caps conditions) :=
      List.infix_cons (List.infix_cons (hpart.trans (infix_intercalate hmem)))
    have hempty : (conditionsPieces caps conditions).isEmpty = false :=
      List.isEmpty_eq_false_iff.mpr (List.ne_nil_of_mem hmem)
    rw [Select.pieces]
    exact hwhere.trans (infix_spaced (by simp [hempty]) (not_areSilent_word (by decide)))
  · have hpart : k.expr.pieces caps <:+:
        k.expr.pieces caps ++ [.space, .word (directionWord k.direction)] :=
      infix_append_of_left (List.infix_refl _)
    have hmem : k.expr.pieces caps ++ [.space, .word (directionWord k.direction)] ∈
        orderingPieces caps ordering := by
      rw [orderingPieces_eq_map]
      exact List.mem_map_of_mem hk
    have hkeys : k.expr.pieces caps <:+: orderByPieces caps ordering :=
      infix_append_of_right (List.infix_cons (hpart.trans (infix_intercalate hmem)))
    exact hkeys.trans (hselect (List.ne_nil_of_mem hk))
  · obtain rfl := Option.mem_toList.mp hw
    have hrows : e.pieces caps <:+: windowPieces caps (some w) := by
      rcases w with ⟨lower, upper?⟩
      rw [windowPieces]
      rcases List.mem_cons.mp he with rfl | he
      · exact infix_append_of_left (List.infix_cons (List.infix_cons
          (infix_parenthesized (List.infix_refl _))))
      · obtain rfl := Option.mem_toList.mp he
        rw [optionPieces, List.flatMap_singleton]
        have hupper := infix_parenthesized (List.infix_refl (e.pieces caps))
        exact infix_append_of_right (infix_append_of_right hupper)
    rw [Select.pieces]
    exact hrows.trans (infix_spaced (by simp) (not_areSilent_of_part hrows hsilent))

/-- The pieces of a SELECT stand among those of the statement that it is in. -/
theorem Select.Block.infix_pieces {s t : Select} {items around : List Item}
    (h : s.Block items t around) : t.pieces caps <:+: s.pieces caps := by
  induction h with
  | self => exact List.infix_refl _
  | @derived s inner t source items around horigin _ ih =>
    have hinner : inner.pieces caps <:+: s.origin.pieces caps := by
      rw [horigin, Origin.pieces]
      exact infix_append_of_left (infix_parenthesized (List.infix_refl _))
    exact ih.trans (hinner.trans (infix_select caps s).1)
  | @test s rows t e items around he hrows _ ih =>
    have htest : (Expr.existsRow rows).pieces caps <:+: e.pieces caps :=
      infix_of_mem_parts e _ hrows
    have hsilent : Piece.areSilent ((Expr.existsRow rows).pieces caps) = false := by
      rw [Expr.pieces]
      exact not_areSilent_word (by decide)
    have hinner : rows.pieces caps <:+: (Expr.existsRow rows).pieces caps := by
      rw [Expr.pieces]
      exact List.infix_cons (List.infix_cons (infix_parenthesized (List.infix_refl _)))
    exact (ih.trans hinner).trans
      (htest.trans (infix_clause he (not_areSilent_of_part htest hsilent)))

end Pieces

/-! ### Texts among texts -/

namespace Style

variable {style : Style} {bound bound' : List Binding} {ps qs : List Piece} {text : String}

theorem write_append_eq_ok (h : style.write bound (ps ++ qs) = (.ok text, bound')) :
    ∃ first between rest, style.write bound ps = (.ok first, between) ∧
      style.write between qs = (.ok rest, bound') ∧ text = first ++ rest := by
  induction ps generalizing bound text with
  | nil => exact ⟨"", bound, text, rfl, h, String.empty_append.symm⟩
  | cons p ps ih =>
    obtain ⟨first, between, rest, hfirst, hrest, rfl⟩ := write_cons_eq_ok h
    obtain ⟨more, after, last, hmore, hlast, rfl⟩ := ih hrest
    refine ⟨first ++ more, after, last, ?_, hlast, String.append_assoc.symm⟩
    rw [write, hfirst]
    dsimp only
    rw [hmore]
    rfl

/-- Pieces that stand side by side are written side by side. -/
theorem exists_write_of_part (h : style.write bound qs = (.ok text, bound')) (hps : ps <:+: qs) :
    ∃ before part after from' to', style.write from' ps = (.ok part, to') ∧
      text = before ++ part ++ after := by
  obtain ⟨front, back, rfl⟩ := hps
  obtain ⟨first, _, after, hfirst, -, rfl⟩ := write_append_eq_ok h
  obtain ⟨before, from', part, -, hpart, rfl⟩ := write_append_eq_ok hfirst
  exact ⟨before, part, after, from', _, hpart, rfl⟩

/-- The expression can be written as the text, behind the bindings of what stands before it. -/
def Writes (style : Style) (e : Expr) (text : String) : Prop :=
  ∃ bound bound', style.write bound (e.pieces style.caps) = (.ok text, bound')

/-- The text has an ORDER BY list, and its items are what the keys are written as. -/
def ListsKeys (style : Style) (text : String) (keys : List OrderKey) (items : List String) : Prop :=
  List.Forall₂ (fun k item => style.Writes k.expr item) keys items ∧
    ∃ before after, text = before ++ ("ORDER BY " ++ ", ".intercalate
      (List.zipWith (fun k item => item ++ " " ++ directionWord k.direction) keys items)) ++ after

theorem write_key {k : OrderKey} (h : style.write bound (k.expr.pieces style.caps ++
      [.space, .word (directionWord k.direction)]) = (.ok text, bound')) :
    ∃ item, style.Writes k.expr item ∧ text = item ++ " " ++ directionWord k.direction := by
  obtain ⟨item, after, rest, hitem, hrest, rfl⟩ := write_append_eq_ok h
  cases hrest
  refine ⟨item, ⟨bound, _, hitem⟩, ?_⟩
  dsimp only
  rw [String.append_empty, String.append_assoc]

theorem write_orderingPieces {keys : List OrderKey}
    (h : style.write bound (Piece.listed (orderingPieces style.caps keys)) = (.ok text, bound')) :
    ∃ items, List.Forall₂ (fun k item => style.Writes k.expr item) keys items ∧
      text = ", ".intercalate
        (List.zipWith (fun k item => item ++ " " ++ directionWord k.direction) keys items) := by
  rw [orderingPieces_eq_map] at h
  induction keys generalizing bound text with
  | nil =>
    cases h
    exact ⟨[], .nil, rfl⟩
  | cons k rest ih =>
    cases rest with
    | nil =>
      rw [List.map_singleton, Piece.listed, List.intercalate_singleton] at h
      obtain ⟨item, hitem, rfl⟩ := write_key h
      exact ⟨[item], .cons hitem .nil, rfl⟩
    | cons next rest =>
      rw [List.map_cons, List.map_cons, Piece.listed, List.intercalate_cons_cons] at h
      obtain ⟨_, between, others, hfirst, hothers, rfl⟩ := write_append_eq_ok h
      obtain ⟨_, _, _, hfirst, hcomma, rfl⟩ := write_append_eq_ok hfirst
      cases hcomma
      obtain ⟨item, hitem, rfl⟩ := write_key hfirst
      obtain ⟨items, hitems, rfl⟩ := ih hothers
      cases hitems with
      | cons hnext hitems =>
        refine ⟨_, .cons hitem (.cons hnext hitems), ?_⟩
        have hcomma : "," ++ (" " ++ "") = ", " := rfl
        dsimp only
        simp only [List.zipWith_cons_cons, String.intercalate_cons_cons, hcomma]

end Style

/-- The ORDER BY list of every SELECT is in the text of the statement. -/
theorem Select.Block.listsKeys {caps : Capabilities} {placeholders : Placeholders} {s t : Select}
    {st : Statement} {items around : List Item} (h : render caps placeholders s = .ok st)
    (hblock : s.Block items t around) (hne : t.ordering ≠ []) :
    ∃ texts, Style.ListsKeys ⟨caps, placeholders, s.parameterNames⟩ st.text t.ordering texts := by
  have hpieces := ((infix_select caps t).2 hne).trans hblock.infix_pieces
  obtain ⟨before, part, after, bound, bound', hpart, htext⟩ :=
    Style.exists_write_of_part (render_eq_ok h) hpieces
  obtain ⟨_, _, _, hphrase, hlist, rfl⟩ := Style.write_append_eq_ok hpart
  obtain ⟨_, _, _, hspace, hlist, rfl⟩ := Style.write_cons_eq_ok hlist
  cases hphrase
  cases hspace
  obtain ⟨texts, htexts, rfl⟩ := Style.write_orderingPieces hlist
  refine ⟨texts, htexts, before, after, ?_⟩
  rw [htext]
  rfl

end QueryLoom.Sql

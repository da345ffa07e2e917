/-
  QueryLoom/Proofs/Rendering/Refusal.lean
  =======================================
  **Whether pieces can be written is up to the server.**  A piece is refused when the server
  cannot have its identifier or cannot represent its value, and the first piece that is refused
  gives the error.  Neither the style of placeholders nor what has been bound before makes a
  difference.

    * `write_eq_error_iff`, `exists_write_iff` — for a list of pieces;
    * `render_eq_error_iff`, `exists_render_iff` — for a statement;
    * `writable_of_operator`, `writable_select_iff` — what the parts of a tree have to do with it.
-/
import QueryLoom.Proofs.Meaning.Operands
import QueryLoom.Proofs.Rendering.Writing

namespace QueryLoom.Sql

/-- The error with which a server refuses a piece, if it does. -/
def Piece.refusal? (caps : Capabilities) : Piece → Option CompileError
  | .name id =>
    match identifier caps id with
    | .error e => some e
    | .ok _ => none
  | .refused e => some e
  | _ => none

/-- The server refuses none of the pieces. -/
def Writable (caps : Capabilities) (ps : List Piece) : Prop := ∀ p ∈ ps, p.refusal? caps = none

namespace Style

variable {style : Style} {bound : List Binding} {p : Piece} {ps : List Piece}
  {e : CompileError}

theorem writePiece_of_refusal? (h : p.refusal? style.caps = some e) :
    style.writePiece bound p = .error e := by
  cases p with
  | name id =>
    rw [Piece.refusal?] at h
    rw [writePiece]
    cases hid : identifier style.caps id with
    | error e' =>
      rw [hid] at h
      cases h
      rfl
    | ok text =>
      rw [hid] at h
      cases h
  | refused e' =>
    cases h
    rfl
  | _ => cases h

theorem exists_writePiece (bound : List Binding) (h : p.refusal? style.caps = none) :
    ∃ text bound', style.writePiece bound p = .ok (text, bound') := by
  cases p with
  | name id =>
    rw [Piece.refusal?] at h
    rw [writePiece]
    cases hid : identifier style.caps id with
    | error e' =>
      rw [hid] at h
      cases h
    | ok text => exact ⟨text, bound, rfl⟩
  | refused e' => cases h
  | _ => exact ⟨_, _, rfl⟩

/-- Writing stops at the first piece that is refused. -/
theorem write_eq_error_iff (style : Style) (bound : List Binding) :
    (style.write bound ps).1 = .error e ↔
      ps.findSome? (Piece.refusal? style.caps) = some e := by
  induction ps generalizing bound with
  | nil => simp [write]
  | cons p ps ih =>
    cases hp : p.refusal? style.caps with
    | some e' =>
      rw [write, writePiece_of_refusal? hp, List.findSome?_cons_of_isSome (by simp [hp]), hp]
      simp
    | none =>
      obtain ⟨first, between, hfirst⟩ := exists_writePiece bound hp
      rw [List.findSome?_cons_of_isNone (by simp [hp]), ← ih between, write, hfirst]
      cases hrest : (style.write between ps).1 <;> simp [hrest, Except.map]

theorem exists_write_iff (style : Style) (bound : List Binding) :
    (∃ text bound', style.write bound ps = (.ok text, bound')) ↔ Writable style.caps ps := by
  rw [Writable, ← List.findSome?_eq_none_iff]
  rcases hwrite : style.write bound ps with ⟨result, after⟩
  cases result with
  | error e =>
    have hrefusal := (write_eq_error_iff style bound).mp (congrArg Prod.fst hwrite)
    simp [hrefusal]
  | ok text =>
    have hrefusal : ∀ e, ps.findSome? (Piece.refusal? style.caps) ≠ some e := by
      intro e he
      rw [← write_eq_error_iff style bound, hwrite] at he
      cases he
    simpa using Option.eq_none_iff_forall_ne_some.mpr hrefusal

end Style

variable {caps : Capabilities} {placeholders : Placeholders} {s : Select} {e : CompileError}

theorem render_eq_error_iff :
    render caps placeholders s = .error e ↔
      (s.pieces caps).findSome? (Piece.refusal? caps) = some e := by
  rw [← Style.write_eq_error_iff ⟨caps, placeholders, s.parameterNames⟩ [], render]
  rcases Style.write ⟨caps, placeholders, s.parameterNames⟩ [] (s.pieces caps)
    with ⟨_ | _, after⟩ <;> simp [Except.map]

/-- A statement can be rendered when the server refuses none of its pieces. -/
theorem exists_render_iff :
    (∃ st, render caps placeholders s = .ok st) ↔ Writable caps (s.pieces caps) := by
  rw [← Style.exists_write_iff ⟨caps, placeholders, s.parameterNames⟩ [], render]
  rcases Style.write ⟨caps, placeholders, s.parameterNames⟩ [] (s.pieces caps)
    with ⟨_ | _, after⟩ <;> simp [Except.map]

/-! ### Pieces -/

section

open Piece

/-- Whether a server can have the identifier. -/
def isIdentifier (caps : Capabilities) (id : String) : Bool :=
  !id.isEmpty && !id.toList.contains (Char.ofNat 0) && id.length ≤ caps.maxIdentifier

theorem refusal?_name {id : String} :
    (name id).refusal? caps = none ↔ isIdentifier caps id = true := by
  rw [refusal?, identifier, isIdentifier]
  cases id.isEmpty <;> cases id.toList.contains (Char.ofNat 0) <;>
    by_cases hlength : id.length ≤ caps.maxIdentifier <;> simp [hlength] <;> grind

variable {ps qs sep : List Piece} {parts : List (List Piece)} {p : Piece}

@[simp] theorem writable_nil : Writable caps [] := List.forall_mem_nil _

@[simp] theorem writable_cons :
    Writable caps (p :: ps) ↔ p.refusal? caps = none ∧ Writable caps ps := List.forall_mem_cons

@[simp] theorem writable_append :
    Writable caps (ps ++ qs) ↔ Writable caps ps ∧ Writable caps qs := List.forall_mem_append

theorem refusal?_of_verbatim? (h : p.verbatim?.isSome) : p.refusal? caps = none := by
  cases p with
  | word | symbol | number | space => rfl
  | _ => cases h

@[simp] theorem refusal?_word (w : String) : (word w).refusal? caps = none := rfl

@[simp] theorem refusal?_symbol (t : String) : (symbol t).refusal? caps = none := rfl

@[simp] theorem refusal?_space : space.refusal? caps = none := rfl

@[simp] theorem refusal?_string (t : String) : (string t).refusal? caps = none := rfl

@[simp] theorem writable_parenthesized : Writable caps (parenthesized ps) ↔ Writable caps ps := by
  simp [parenthesized]

@[simp] theorem writable_call {f : String} : Writable caps (call f ps) ↔ Writable caps ps := by
  simp [call]

@[simp] theorem writable_guarded {least : Precedence} {e : Expr} :
    Writable caps (e.guarded least ps) ↔ Writable caps ps := by
  rw [Expr.guarded]
  split
  · exact writable_parenthesized
  · rfl

theorem writable_intercalate (hsep : Writable caps sep) :
    Writable caps (sep.intercalate parts) ↔ ∀ ps ∈ parts, Writable caps ps := by
  induction parts with
  | nil => simp
  | cons ps parts ih =>
    cases parts with
    | nil => simp
    | cons qs parts =>
      rw [List.intercalate_cons_cons, writable_append, writable_append, ih, List.forall_mem_cons]
      simp [hsep]

@[simp] theorem writable_intercalate_space :
    Writable caps ([space].intercalate parts) ↔ ∀ ps ∈ parts, Writable caps ps :=
  writable_intercalate (by simp)

@[simp] theorem writable_listed :
    Writable caps (listed parts) ↔ ∀ ps ∈ parts, Writable caps ps :=
  writable_intercalate (by simp)

/-- Parts without text are left out, and nothing could be refused in them. -/
@[simp] theorem writable_spaced :
    Writable caps (spaced parts) ↔ ∀ ps ∈ parts, Writable caps ps := by
  rw [spaced, writable_intercalate_space]
  refine ⟨fun h ps hps => ?_, fun h ps hps => h ps (List.mem_filter.mp hps).1⟩
  cases hsilent : areSilent ps with
  | false => exact h ps (List.mem_filter.mpr ⟨hps, by simp [hsilent]⟩)
  | true =>
    intro p hp
    have hp' : p.verbatim? = some "" := by simpa using List.all_eq_true.mp hsilent p hp
    exact refusal?_of_verbatim? (by simp [hp'])

@[simp] theorem writable_phrase (ws : List String) : Writable caps (phrase ws) := by
  induction ws with
  | nil => exact writable_nil
  | cons w ws ih =>
    cases ws with
    | nil => simp [phrase]
    | cons v ws => exact writable_cons.mpr ⟨rfl, writable_cons.mpr ⟨rfl, ih⟩⟩

@[simp] theorem writable_between (w : String) : Writable caps (between w) := by simp [between]

@[simp] theorem writable_operator (op : BinaryOperator) : Writable caps op.pieces := by
  cases op with
  | _ => simp [BinaryOperator.pieces]

end

/-! ### Trees -/

theorem listPieces_eq_map (es : List Expr) : listPieces caps es = es.map (Expr.pieces caps) := by
  induction es with
  | nil => rfl
  | cons e rest ih => rw [listPieces, ih, List.map_cons]

theorem optionPieces_eq_map (e? : Option Expr) :
    optionPieces caps e? = e?.toList.map (Expr.pieces caps) := by
  cases e? <;> rfl

theorem writable_whensPieces (ws : List When) :
    (∀ ps ∈ whensPieces caps ws, Writable caps ps) ↔
      ∀ o ∈ ws.flatMap fun w => [w.condition, w.result], Writable caps (o.pieces caps) := by
  induction ws with
  | nil => simp [whensPieces]
  | cons w rest ih =>
    rcases w with ⟨condition, result⟩
    rw [whensPieces, List.forall_mem_cons, ih, List.flatMap_cons, List.forall_mem_append]
    simp

/-- The pieces that an operator adds to those of its operands can always be written. -/
theorem writable_of_operator {e : Expr} {op : Operator} (h : e.operator? = some op) :
    Writable caps (e.pieces caps) ↔ ∀ o ∈ e.operands, Writable caps (o.pieces caps) := by
  cases e with
  | column | allColumns | literal | parameter | existsRow => cases h
  | keyword w => simp [Expr.pieces, Expr.operands]
  | function name args => simp [Expr.pieces, Expr.operands, listPieces_eq_map]
  | trim side? chars? text =>
    cases side? <;> cases chars? <;>
      simp [Expr.pieces, Expr.operands, optionPieces_eq_map]
  | substring text start length? =>
    cases length? <;> simp [Expr.pieces, Expr.operands, optionPieces_eq_map]
  | extract part operand | cast operand type => simp [Expr.pieces, Expr.operands]
  | position needle haystack | dateAdd amount part operand =>
    simp [Expr.pieces, Expr.operands]
  | atTimeZone operand zone => simp [Expr.pieces, Expr.operands]
  | binary left op right =>
    rw [Expr.pieces]
    split <;> simp [Expr.operands]
  | unary op operand =>
    cases op with
    | not => simp [Expr.pieces, Expr.operands]
    | negate =>
      rw [Expr.pieces, writable_cons]
      split <;> simp [Expr.operands]
  | isNull operand negated => simp [Expr.pieces, Expr.operands]
  | case whens otherwise? =>
    simp only [Expr.pieces, writable_intercalate_space, Expr.operands, List.cons_append,
      List.forall_mem_cons, List.forall_mem_append, writable_whensPieces]
    cases otherwise? <;> simp [optionPieces_eq_map]

/-- What has to be writable for the pieces of an origin to be. -/
def Origin.Writable (caps : Capabilities) : Origin → Prop
  | .table name source => isIdentifier caps name = true ∧ isIdentifier caps source = true
  | .derived rows source => Sql.Writable caps (rows.pieces caps) ∧ isIdentifier caps source = true
  | .singleRow => True

theorem writable_origin_iff {o : Origin} : Writable caps (o.pieces caps) ↔ o.Writable caps := by
  cases o <;> simp [Origin.pieces, Origin.Writable, refusal?_name]

theorem writable_columnsPieces {cs : List Column} :
    (∀ ps ∈ columnsPieces caps cs, Writable caps ps) ↔ ∀ c ∈ cs,
      Writable caps (c.expr.pieces caps) ∧ ∀ label ∈ c.alias?, isIdentifier caps label = true := by
  induction cs with
  | nil => simp [columnsPieces]
  | cons c rest ih =>
    rcases c with ⟨e, alias?⟩
    rw [columnsPieces, List.forall_mem_cons, List.forall_mem_cons, ih]
    cases alias? <;> simp [refusal?_name]

theorem writable_conditionsPieces {es : List Expr} :
    (∀ ps ∈ conditionsPieces caps es, Writable caps ps) ↔
      ∀ e ∈ es, Writable caps (e.pieces caps) := by
  induction es with
  | nil => simp [conditionsPieces]
  | cons e rest ih => simp [conditionsPieces, ih]

theorem writable_orderingPieces {keys : List OrderKey} :
    (∀ ps ∈ orderingPieces caps keys, Writable caps ps) ↔
      ∀ k ∈ keys, Writable caps (k.expr.pieces caps) := by
  induction keys with
  | nil => simp [orderingPieces]
  | cons k rest ih =>
    rcases k with ⟨e, direction⟩
    simp [orderingPieces, ih]

theorem writable_windowPieces {w? : Option Window} :
    Writable caps (windowPieces caps w?) ↔ ∀ w ∈ w?, Writable caps (w.lower.pieces caps) ∧
      ∀ upper ∈ w.upper?, Writable caps (upper.pieces caps) := by
  rcases w? with _ | ⟨lower, _ | upper⟩ <;> simp [windowPieces, optionPieces]

/-- The pieces of a statement can be written when those of its clauses can. -/
theorem writable_select_iff {s : Select} : Writable caps (s.pieces caps) ↔
    (∀ c ∈ s.columns, Writable caps (c.expr.pieces caps) ∧
      ∀ label ∈ c.alias?, isIdentifier caps label = true) ∧
    s.origin.Writable caps ∧ (∀ e ∈ s.conditions, Writable caps (e.pieces caps)) ∧
    (∀ k ∈ s.ordering, Writable caps (k.expr.pieces caps)) ∧
    ∀ w ∈ s.window?, Writable caps (w.lower.pieces caps) ∧
      ∀ upper ∈ w.upper?, Writable caps (upper.pieces caps) := by
  rcases s with ⟨columns, origin, conditions, ordering, window?⟩
  have hconditions : Writable caps (if (conditionsPieces caps conditions).isEmpty then []
      else .word "WHERE" :: .space :: (between "AND").intercalate
        (conditionsPieces caps conditions)) ↔ ∀ e ∈ conditions, Writable caps (e.pieces caps) := by
    rw [← writable_conditionsPieces]
    cases conditionsPieces caps conditions with
    | nil => simp
    | cons ps rest => simp [writable_intercalate]
  have hordering : Writable caps (if (orderingPieces caps ordering).isEmpty then []
      else Piece.phrase ["ORDER", "BY"] ++ .space :: Piece.listed (orderingPieces caps ordering))
        ↔ ∀ k ∈ ordering, Writable caps (k.expr.pieces caps) := by
    rw [← writable_orderingPieces]
    cases orderingPieces caps ordering with
    | nil => simp
    | cons ps rest => simp
  rw [Select.pieces, writable_spaced]
  simp only [List.forall_mem_cons, hconditions, hordering, writable_windowPieces, writable_listed,
    writable_columnsPieces, writable_cons, writable_origin_iff, refusal?_word, refusal?_space,
    writable_nil, List.not_mem_nil, false_implies, implies_true, true_and, and_true]

end QueryLoom.Sql

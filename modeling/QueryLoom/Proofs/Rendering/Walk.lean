/-
  QueryLoom/Proofs/Rendering/Walk.lean
  ====================================
  **The pieces of a tree come in the order in which it is walked.**  Most pieces belong to the
  form of a statement: its words and symbols, spaces, and the names and strings that are quoted.
  A choice that overlooks all of these is left with what the constants, parameters, keywords and
  functions met by `walk` have as their own pieces, in the same order.

  The pieces that are not plain, because they are bound or may hold question marks or quotes
  of their own, are one such choice.

    * `chosen_pieces`, `chosen_selectPieces` — the pieces that are chosen, for an expression
      and a statement;
    * `forall_mem_pieces` — what all pieces of a statement are like;
    * `loose_selectPieces` — the pieces that are not plain;
    * `bindings_pieces` — what the pieces of a statement bind is what the placeholders met by
      `walk` stand for.
-/
import QueryLoom.Proofs.Rendering.Writing

namespace QueryLoom.Sql

namespace Piece

/-! ### Choosing pieces -/

/-- The words that stand in statements for their form, whatever they say. -/
def formWords : List String :=
  ["SELECT", "FROM", "WHERE", "ORDER", "BY", "ASC", "DESC", "ROWS", "TO", "AS", "RDB$DATABASE",
    "AND", "OR", "NOT", "IS", "NULL", "STARTING", "WITH", "IN", "EXISTS", "CASE", "WHEN", "THEN",
    "ELSE", "END", "TRIM", "BOTH", "LEADING", "TRAILING", "SUBSTRING", "FOR", "EXTRACT", "YEAR",
    "MONTH", "DAY", "HOUR", "MINUTE", "SECOND", "MILLISECOND", "YEARDAY", "WEEKDAY", "CAST", "DATE",
    "TIME", "TIMESTAMP", "POSITION", "DATEADD", "AT", "ZONE", "MOD"]

/-- The symbols that stand in statements for their form. -/
def formSymbols : List String :=
  ["(", ")", ",", ".", "*", "+", "-", "/", "%", "||", "=", "<>", ">", ">=", "<", "<="]

/-- Whether the piece belongs to the form of a statement, or is quoted, or has no text at all. -/
def isForm : Piece → Bool
  | word w => w.isEmpty || formWords.contains w
  | symbol t => t.isEmpty || formSymbols.contains t
  | number t => t.isEmpty
  | space | name _ | string _ => true
  | parameter _ | constant _ | refused _ => false

/-- The choice leaves out everything that belongs to the form of a statement. -/
class Overlooks (keep : Piece → Bool) : Prop where
  form (p : Piece) (hp : p.isForm = true) : keep p = false

/-- The pieces that are chosen. -/
def chosen (keep : Piece → Bool) (ps : List Piece) : List Piece := ps.filter keep

section

variable (keep : Piece → Bool)

@[simp] theorem chosen_nil : chosen keep [] = [] := rfl

@[simp] theorem chosen_append (ps qs : List Piece) :
    chosen keep (ps ++ qs) = chosen keep ps ++ chosen keep qs :=
  List.filter_append ..

theorem chosen_intercalate {separator : List Piece} (h : chosen keep separator = [])
    (parts : List (List Piece)) :
    chosen keep (separator.intercalate parts) = parts.flatMap (chosen keep) := by
  induction parts with
  | nil => rfl
  | cons ps rest ih =>
    cases rest with
    | nil => simp
    | cons qs rest =>
      rw [List.intercalate_cons_cons, chosen_append, chosen_append, h, ih, List.append_nil]
      rfl

variable [Overlooks keep]

theorem not_keep_of_isForm {p : Piece} (hp : p.isForm = true) : ¬ keep p = true := by
  have hform : keep p = false := Overlooks.form p hp
  rw [hform]
  exact Bool.false_ne_true

theorem chosen_cons {p : Piece} (hp : p.isForm = true) (ps : List Piece) :
    chosen keep (p :: ps) = chosen keep ps :=
  List.filter_cons_of_neg (not_keep_of_isForm keep hp)

@[simp] theorem chosen_space (ps : List Piece) : chosen keep (space :: ps) = chosen keep ps :=
  chosen_cons keep rfl ps

@[simp] theorem chosen_name (id : String) (ps : List Piece) :
    chosen keep (name id :: ps) = chosen keep ps :=
  chosen_cons keep rfl ps

@[simp] theorem chosen_string (t : String) (ps : List Piece) :
    chosen keep (string t :: ps) = chosen keep ps :=
  chosen_cons keep rfl ps

@[simp] theorem chosen_parenthesized (ps : List Piece) :
    chosen keep (parenthesized ps) = chosen keep ps := by
  rw [parenthesized, List.cons_append, chosen_cons keep (by decide), chosen_append,
    chosen_cons keep (by decide)]
  exact List.append_nil _

@[simp] theorem chosen_call (f : String) (args : List Piece) :
    chosen keep (call f args) = chosen keep [word f] ++ chosen keep args := by
  rw [call, ← List.singleton_append, chosen_append, chosen_parenthesized]

@[simp] theorem chosen_intercalate_space (parts : List (List Piece)) :
    chosen keep ([space].intercalate parts) = parts.flatMap (chosen keep) :=
  chosen_intercalate keep (chosen_space keep []) parts

@[simp] theorem chosen_listed (parts : List (List Piece)) :
    chosen keep (listed parts) = parts.flatMap (chosen keep) :=
  chosen_intercalate keep ((chosen_cons keep (by decide) _).trans (chosen_space keep [])) parts

theorem isForm_of_verbatim? {p : Piece} (h : p.verbatim? = some "") : p.isForm = true := by
  cases p with
  | word t | symbol t | number t =>
    obtain rfl : t = "" := Option.some.inj h
    rfl
  | space => rfl
  | name _ | string _ | parameter _ | constant _ | refused _ => cases h

theorem chosen_of_areSilent {ps : List Piece} (h : areSilent ps = true) : chosen keep ps = [] := by
  refine List.filter_eq_nil_iff.mpr fun p hp => ?_
  have hverbatim : p.verbatim? = some "" := by simpa using List.all_eq_true.mp h p hp
  exact not_keep_of_isForm keep (isForm_of_verbatim? hverbatim)

@[simp] theorem chosen_spaced (parts : List (List Piece)) :
    chosen keep (spaced parts) = parts.flatMap (chosen keep) := by
  rw [spaced, chosen_intercalate_space]
  induction parts with
  | nil => rfl
  | cons ps rest ih =>
    cases hsilent : areSilent ps with
    | true => simp [hsilent, ih, chosen_of_areSilent keep hsilent]
    | false => simp [hsilent, ih]

@[simp] theorem chosen_operator (op : BinaryOperator) : chosen keep op.pieces = [] := by
  cases op with
  | startingWith =>
    rw [BinaryOperator.pieces, phrase]
    simp +decide [chosen_cons]
  | _ => exact chosen_cons keep (by decide) []

theorem chosen_between {w : String} (h : (word w).isForm = true) :
    chosen keep (between w) = [] := by
  rw [between, chosen_space, chosen_cons keep h, chosen_space, chosen_nil]

@[simp] theorem chosen_guarded (least : Precedence) (e : Expr) (ps : List Piece) :
    chosen keep (e.guarded least ps) = chosen keep ps := by
  unfold Expr.guarded
  split
  · exact chosen_parenthesized keep ps
  · rfl

end

@[simp] theorem isForm_side (side : TrimSide) : (word side.word).isForm = true := by
  cases side <;> decide

@[simp] theorem isForm_part (part : DatePart) : (word part.word).isForm = true := by
  cases part <;> decide

@[simp] theorem isForm_type (type : CastType) : (word type.word).isForm = true := by
  cases type <;> decide

@[simp] theorem isForm_direction (direction : Direction) :
    (word (directionWord direction)).isForm = true := by
  cases direction <;> decide

end Piece

/-! ### Trees -/

/-- The pieces that an expression adds to those of its operands and that need not belong to its form. -/
def Expr.own (caps : Capabilities) : Expr → List Piece
  | literal v => Sql.literal caps v
  | parameter p => [.parameter p]
  | keyword w => [.word w]
  | function f _ => [.word f]
  | _ => []

/-- The own pieces of expressions that are chosen. -/
def chosenOwn (keep : Piece → Bool) (caps : Capabilities) (es : List Expr) : List Piece :=
  es.flatMap fun e => Piece.chosen keep (e.own caps)

section

variable (keep : Piece → Bool) (caps : Capabilities)

open Piece

@[simp] theorem chosenOwn_nil : chosenOwn keep caps [] = [] := rfl

@[simp] theorem chosenOwn_append (es es' : List Expr) :
    chosenOwn keep caps (es ++ es') = chosenOwn keep caps es ++ chosenOwn keep caps es' :=
  List.flatMap_append

@[simp] theorem chosenOwn_cons (e : Expr) (es : List Expr) :
    chosenOwn keep caps (e :: es) = chosen keep (e.own caps) ++ chosenOwn keep caps es :=
  List.flatMap_cons

variable [Overlooks keep]

set_option linter.unusedSectionVars false in
mutual

/-- The pieces of an expression that are chosen are those of the expressions walked. -/
theorem chosen_pieces : (e : Expr) → chosen keep (e.pieces caps) = chosenOwn keep caps e.walk
  | .column .. | .allColumns _ => by
    simp +decide [Expr.pieces, Expr.walk, Expr.own, chosen_cons]
  | .literal _ | .parameter _ | .keyword _ => by
    simp [Expr.pieces, Expr.walk, Expr.own]
  | .function f args => by
    have hargs := chosen_listPieces args
    simp [Expr.pieces, Expr.walk, Expr.own, hargs]
  | .trim side? chars? text => by
    have hchars := chosen_optionPieces chars?
    have htext := chosen_pieces text
    cases side? with
    | none =>
      cases chars? with
      | none => simp +decide [Expr.pieces, Expr.walk, Expr.own, walkOption, htext, chosen_cons]
      | some chars =>
        simp +decide [Expr.pieces, Expr.walk, Expr.own, htext, hchars, chosen_between,
          chosen_cons]
    | some side =>
      simp +decide [Expr.pieces, Expr.walk, Expr.own, htext, hchars, chosen_between,
        chosen_cons]
  | .substring text start length? => by
    have htext := chosen_pieces text
    have hstart := chosen_pieces start
    cases length? with
    | none =>
      simp +decide [Expr.pieces, Expr.walk, Expr.own, optionPieces, walkOption, htext, hstart,
        chosen_between, chosen_cons]
    | some length =>
      have hlength := chosen_pieces length
      simp +decide [Expr.pieces, Expr.walk, Expr.own, optionPieces, walkOption, htext, hstart,
        hlength, chosen_between, chosen_cons]
  | .extract _ operand | .cast operand _ => by
    simp +decide [Expr.pieces, Expr.walk, Expr.own, chosen_pieces operand, chosen_between,
      chosen_cons]
  | .position left right | .dateAdd left _ right => by
    simp +decide [Expr.pieces, Expr.walk, Expr.own, chosen_pieces left, chosen_pieces right,
      chosen_between, chosen_cons]
  | .atTimeZone operand _ => by
    simp +decide [Expr.pieces, Expr.walk, Expr.own, chosen_pieces operand, phrase, chosen_cons]
  | .binary left op right => by
    by_cases hop : op = .modulo
    · simp +decide [Expr.pieces, Expr.walk, Expr.own, hop, chosen_pieces left, chosen_pieces right,
        chosen_cons]
    · simp [Expr.pieces, Expr.walk, Expr.own, hop, chosen_pieces left, chosen_pieces right]
  | .unary op operand => by
    have hoperand := chosen_pieces operand
    cases op with
    | not =>
      simp +decide [Expr.pieces, Expr.walk, Expr.own, hoperand, chosen_cons]
    | negate =>
      simp +decide [Expr.pieces, Expr.walk, Expr.own, hoperand, chosen_cons, apply_ite (chosen keep)]
  | .isNull operand negated => by
    cases negated <;>
      simp +decide [Expr.pieces, Expr.walk, Expr.own, chosen_pieces operand, phrase,
        chosen_cons]
  | .case whens otherwise? => by
    have hwhens := chosen_whensPieces whens
    cases otherwise? with
    | none =>
      simp +decide [Expr.pieces, Expr.walk, Expr.own, optionPieces, walkOption, hwhens,
        chosen_cons]
    | some e =>
      have he := chosen_pieces e
      simp +decide [Expr.pieces, Expr.walk, Expr.own, optionPieces, walkOption, hwhens, he,
        chosen_cons]
  | .existsRow rows => by
    simp +decide [Expr.pieces, Expr.walk, Expr.own, chosen_selectPieces rows, chosen_cons]

theorem chosen_optionPieces : (e? : Option Expr) →
    (optionPieces caps e?).flatMap (chosen keep) = chosenOwn keep caps (walkOption e?)
  | none => rfl
  | some e => by simp [optionPieces, walkOption, chosen_pieces e]

theorem chosen_listPieces : (es : List Expr) →
    (listPieces caps es).flatMap (chosen keep) = chosenOwn keep caps (walkList es)
  | [] => rfl
  | e :: rest => by simp [listPieces, walkList, chosen_pieces e, chosen_listPieces rest]

theorem chosen_whensPieces : (ws : List When) →
    (whensPieces caps ws).flatMap (chosen keep) = chosenOwn keep caps (walkWhens ws)
  | [] => rfl
  | ⟨condition, result⟩ :: rest => by
    simp +decide [whensPieces, walkWhens, chosen_pieces condition, chosen_pieces result,
      chosen_whensPieces rest, chosen_between, chosen_cons]

/-- The pieces of a statement that are chosen are those of the expressions walked. -/
theorem chosen_selectPieces : (s : Select) → chosen keep (s.pieces caps) = chosenOwn keep caps s.walk
  | ⟨columns, origin, conditions, ordering, window?⟩ => by
    have hcolumns := chosen_columnsPieces columns
    have horigin := chosen_originPieces origin
    have hconditions : chosen keep (if (conditionsPieces caps conditions).isEmpty then []
        else .word "WHERE" :: .space :: (between "AND").intercalate
          (conditionsPieces caps conditions)) = chosenOwn keep caps (walkList conditions) := by
      rw [← chosen_conditionsPieces conditions]
      cases conditionsPieces caps conditions with
      | nil => rfl
      | cons ps rest => simp +decide [chosen_cons, chosen_intercalate, chosen_between]
    have hordering : chosen keep (if (orderingPieces caps ordering).isEmpty then []
        else phrase ["ORDER", "BY"] ++ .space :: listed (orderingPieces caps ordering))
          = chosenOwn keep caps (walkKeys ordering) := by
      rw [← chosen_orderingPieces ordering]
      cases orderingPieces caps ordering with
      | nil => rfl
      | cons ps rest => simp +decide [chosen_cons, phrase]
    have hwindow := chosen_windowPieces window?
    simp only [Select.pieces, Select.walk, chosen_spaced, List.flatMap_cons, List.flatMap_nil,
      hconditions, hordering, hwindow, chosenOwn_append]
    simp +decide [hcolumns, horigin, chosen_cons]

theorem chosen_columnsPieces : (cs : List Column) →
    (columnsPieces caps cs).flatMap (chosen keep) = chosenOwn keep caps (walkColumns cs)
  | [] => rfl
  | ⟨e, alias?⟩ :: rest => by
    cases alias? <;>
      simp +decide [columnsPieces, walkColumns, chosen_pieces e, chosen_columnsPieces rest,
        chosen_between]

theorem chosen_originPieces : (o : Origin) → chosen keep (o.pieces caps) = chosenOwn keep caps o.walk
  | .table .. => by simp [Origin.pieces, Origin.walk]
  | .singleRow => chosen_cons keep (by decide) []
  | .derived rows _ => by simp [Origin.pieces, Origin.walk, chosen_selectPieces rows]

theorem chosen_conditionsPieces : (es : List Expr) →
    (conditionsPieces caps es).flatMap (chosen keep) = chosenOwn keep caps (walkList es)
  | [] => rfl
  | e :: rest => by simp [conditionsPieces, walkList, chosen_pieces e, chosen_conditionsPieces rest]

theorem chosen_orderingPieces : (keys : List OrderKey) →
    (orderingPieces caps keys).flatMap (chosen keep) = chosenOwn keep caps (walkKeys keys)
  | [] => rfl
  | ⟨e, direction⟩ :: rest => by
    simp [orderingPieces, walkKeys, chosen_pieces e, chosen_orderingPieces rest, chosen_cons]

theorem chosen_windowPieces : (w? : Option Window) →
    chosen keep (windowPieces caps w?) = chosenOwn keep caps (walkWindow w?)
  | none => rfl
  | some ⟨lower, upper?⟩ => by
    have hlower := chosen_pieces lower
    cases upper? with
    | none =>
      simp +decide [windowPieces, walkWindow, optionPieces, walkOption, hlower, chosen_cons]
    | some upper =>
      have hupper := chosen_pieces upper
      simp +decide [windowPieces, walkWindow, optionPieces, walkOption, hlower, hupper,
        chosen_between, chosen_cons]

end

end

/-- A property of what belongs to the form and of what the expressions have of their own is one of
    all pieces. -/
theorem forall_mem_pieces {P : Piece → Prop} {caps : Capabilities} {s : Select}
    (hform : ∀ p : Piece, p.isForm = true → P p)
    (hown : ∀ x ∈ s.walk, ∀ p ∈ x.own caps, P p) : ∀ p ∈ s.pieces caps, P p := by
  classical
  have : Piece.Overlooks fun p => decide ¬ P p := ⟨fun p hp => by simp [hform p hp]⟩
  refine fun p hp => Classical.byContradiction fun hfails => ?_
  have hchosen : p ∈ chosenOwn (fun p => decide ¬ P p) caps s.walk := by
    rw [← chosen_selectPieces]
    exact List.mem_filter.mpr ⟨hp, decide_eq_true hfails⟩
  obtain ⟨x, hx, hpx⟩ := List.mem_flatMap.mp hchosen
  exact hfails (hown x hx p (List.mem_filter.mp hpx).1)

/-! ### Plain pieces -/

/-- Whether the character is neither a question mark nor a quote. -/
def isOrdinary (c : Char) : Bool := c != '?' && c != '\'' && c != '"'

/-- Whether the text has no question mark and no quote. -/
def isBare (text : String) : Bool := text.toList.all isOrdinary

namespace Piece

/-- Whether the piece is neither bound nor refused and has question marks and quotes only
    between quotes of its own. -/
def isPlain : Piece → Bool
  | word t | symbol t | number t => isBare t
  | space | name _ | string _ => true
  | parameter _ | constant _ | refused _ => false

theorem isPlain_of_isForm {p : Piece} (h : p.isForm = true) : p.isPlain = true := by
  have hempty : ∀ t : String, t.isEmpty = true → isBare t = true := by
    intro t ht
    rw [String.isEmpty_iff] at ht
    rw [ht]
    rfl
  have hwords : ∀ w ∈ formWords, isBare w = true := by decide
  have hsymbols : ∀ t ∈ formSymbols, isBare t = true := by decide
  cases p with
  | word t =>
    rcases Bool.or_eq_true_iff.mp h with h | h
    · exact hempty t h
    · exact hwords t (List.contains_iff_mem.mp h)
  | symbol t =>
    rcases Bool.or_eq_true_iff.mp h with h | h
    · exact hempty t h
    · exact hsymbols t (List.contains_iff_mem.mp h)
  | number t => exact hempty t h
  | space | name _ | string _ => rfl
  | parameter _ | constant _ | refused _ => cases h

instance : Overlooks fun p => !p.isPlain := ⟨fun p hp => by simp [isPlain_of_isForm hp]⟩

/-- The pieces that are not plain. -/
def loose (ps : List Piece) : List Piece := ps.filter fun p => !p.isPlain

theorem loose_cons_plain {p : Piece} (hp : p.isPlain = true) (ps : List Piece) :
    loose (p :: ps) = loose ps :=
  List.filter_cons_of_neg (by simp [hp])

end Piece

section

variable (caps : Capabilities)

open Piece

/-- The own pieces of the expressions that are not plain. -/
def looseOwn (es : List Expr) : List Piece := es.flatMap fun e => loose (e.own caps)

theorem looseOwn_cons (e : Expr) (es : List Expr) :
    looseOwn caps (e :: es) = loose (e.own caps) ++ looseOwn caps es :=
  List.flatMap_cons

/-- The pieces of a statement that are not plain are those of the expressions walked. -/
theorem loose_selectPieces (s : Select) : loose (s.pieces caps) = looseOwn caps s.walk :=
  chosen_selectPieces (fun p => !p.isPlain) caps s

/-! ### Placeholders -/

/-- What an expression binds by itself: a parameter, and the constants that the server has no
    way to write. -/
def Expr.placeholder? : Expr → Option Binding
  | .parameter p => some (.dynamic p)
  | .literal (.binary bytes) => some (.constant (.binary bytes))
  | .literal (.uuid u) => if caps.charToUuid then none else some (.constant (.uuid u))
  | _ => none

theorem binding?_of_isPlain {p : Piece} (h : p.isPlain = true) : p.binding? = none := by
  cases p with
  | parameter _ | constant _ => cases h
  | _ => rfl

/-- Only the pieces that are not plain bind anything. -/
theorem filterMap_binding?_loose (ps : List Piece) :
    (loose ps).filterMap binding? = ps.filterMap binding? := by
  induction ps with
  | nil => rfl
  | cons p rest ih =>
    cases hp : p.isPlain with
    | true => rw [loose_cons_plain hp, List.filterMap_cons_none (binding?_of_isPlain hp), ih]
    | false =>
      have hloose : loose (p :: rest) = p :: loose rest := List.filter_cons_of_pos (by simp [hp])
      rw [hloose, List.filterMap_cons, List.filterMap_cons, ih]

theorem bindings_signed (negative : Bool) (magnitude : String) :
    (signed negative magnitude).filterMap binding? = [] := by
  cases negative <;> rfl

theorem bindings_binaryNumber {f : Number.BinaryFormat} (v : Value) (x : Number.Binary f) :
    (binaryNumber v x).filterMap binding? = [] := by
  unfold binaryNumber
  split
  · exact bindings_signed _ _
  · rfl

theorem bindings_dated (w : String) (text? : Except CompileError String) :
    (dated w text?).filterMap binding? = [] := by
  cases text? <;> rfl

theorem bindings_own (e : Expr) : (e.own caps).filterMap binding? = (e.placeholder? caps).toList := by
  cases e with
  | literal v =>
    cases v with
    | boolean b =>
      rw [Expr.own, Sql.literal]
      split <;> rfl
    | int16 n | int32 n | int64 n | decimal d => exact bindings_signed _ _
    | single x | double x => exact bindings_binaryNumber _ x
    | date _ | dateTime _ => exact bindings_dated _ _
    | uuid u =>
      cases huuid : caps.charToUuid with
      | true =>
        rw [Expr.own, Sql.literal, Expr.placeholder?, if_pos huuid, if_pos huuid]
        rfl
      | false =>
        rw [Expr.own, Sql.literal, Expr.placeholder?, huuid]
        rfl
    | null | string _ | binary _ | time _ => rfl
  | _ => rfl

theorem bindings_looseOwn (es : List Expr) :
    (looseOwn caps es).filterMap binding? = es.filterMap (Expr.placeholder? caps) := by
  induction es with
  | nil => rfl
  | cons e rest ih =>
    rw [looseOwn_cons, List.filterMap_append, filterMap_binding?_loose, bindings_own, ih]
    cases he : e.placeholder? caps with
    | none => simp [he]
    | some b => simp [he]

/-- What the pieces of a statement bind is what the expressions walked bind, in their order. -/
theorem bindings_pieces (s : Select) :
    (s.pieces caps).filterMap binding? = s.walk.filterMap (Expr.placeholder? caps) := by
  rw [← filterMap_binding?_loose, loose_selectPieces, bindings_looseOwn]

end

end QueryLoom.Sql

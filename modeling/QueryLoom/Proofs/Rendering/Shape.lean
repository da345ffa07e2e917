/-
  QueryLoom/Proofs/Rendering/Shape.lean
  =====================================
  **Names and strings do not shape a statement.**  The skeleton of a tree is the tree with its
  names and its strings left empty.  The pieces of a tree and those of its skeleton differ only
  in what stands between quotes, because no decision of the renderer (parentheses, clauses left
  out, a minus set apart) looks there.

    * `Piece.KeepsVerbatim` — changes of pieces that leave what is written as it stands, so that
      they can be made before or after pieces are put together;
    * `blank_pieces`, `blank_selectPieces` — up to what stands between quotes, the pieces of an
      expression and of a statement are those of its skeleton.
-/
import QueryLoom.Sql.Piece

namespace QueryLoom.Sql

/-! ### Skeletons -/

/-- The constant, a string left empty. -/
def blankValue : Value → Value
  | .string _ => .string ""
  | v => v

mutual

/-- The expression with its names and strings left empty. -/
def Expr.skeleton : Expr → Expr
  | .column _ _ => .column "" ""
  | .allColumns _ => .allColumns ""
  | .literal v => .literal (blankValue v)
  | .parameter p => .parameter p
  | .keyword w => .keyword w
  | .function name args => .function name (skeletonList args)
  | .trim side? chars? text => .trim side? (skeletonOption chars?) text.skeleton
  | .substring text start length? =>
    .substring text.skeleton start.skeleton (skeletonOption length?)
  | .extract part operand => .extract part operand.skeleton
  | .cast operand type => .cast operand.skeleton type
  | .position needle haystack => .position needle.skeleton haystack.skeleton
  | .dateAdd amount part operand => .dateAdd amount.skeleton part operand.skeleton
  | .atTimeZone operand zone => .atTimeZone operand.skeleton zone
  | .binary left op right => .binary left.skeleton op right.skeleton
  | .unary op operand => .unary op operand.skeleton
  | .isNull operand negated => .isNull operand.skeleton negated
  | .case whens otherwise? => .case (skeletonWhens whens) (skeletonOption otherwise?)
  | .existsRow rows => .existsRow rows.skeleton

/-- The skeleton of an expression that may be missing. -/
def skeletonOption : Option Expr → Option Expr
  | none => none
  | some e => some e.skeleton

/-- The skeletons of the expressions in a list. -/
def skeletonList : List Expr → List Expr
  | [] => []
  | e :: rest => e.skeleton :: skeletonList rest

/-- The skeletons of the branches of a CASE. -/
def skeletonWhens : List When → List When
  | [] => []
  | ⟨condition, result⟩ :: rest => ⟨condition.skeleton, result.skeleton⟩ :: skeletonWhens rest

/-- The statement with its names and strings left empty. -/
def Select.skeleton : Select → Select
  | ⟨columns, origin, conditions, ordering, window?⟩ =>
    ⟨skeletonColumns columns, origin.skeleton, skeletonList conditions, skeletonKeys ordering,
      skeletonWindow window?⟩

/-- The skeletons of selected columns. -/
def skeletonColumns : List Column → List Column
  | [] => []
  | ⟨e, alias?⟩ :: rest => ⟨e.skeleton, alias?.map fun _ => ""⟩ :: skeletonColumns rest

/-- The skeleton of the origin of rows. -/
def Origin.skeleton : Origin → Origin
  | .table _ _ => .table "" ""
  | .derived rows _ => .derived rows.skeleton ""
  | .singleRow => .singleRow

/-- The skeletons of the keys of an ordering. -/
def skeletonKeys : List OrderKey → List OrderKey
  | [] => []
  | ⟨e, direction⟩ :: rest => ⟨e.skeleton, direction⟩ :: skeletonKeys rest

/-- The skeleton of a window. -/
def skeletonWindow : Option Window → Option Window
  | none => none
  | some ⟨lower, upper?⟩ => some ⟨lower.skeleton, skeletonOption upper?⟩

end

/-! ### Changes of pieces -/

namespace Piece

theorem map_intercalate {g : Piece → Piece} (sep : List Piece) (parts : List (List Piece)) :
    (sep.intercalate parts).map g = (sep.map g).intercalate (parts.map (List.map g)) := by
  induction parts with
  | nil => rfl
  | cons ps rest ih =>
    cases rest with
    | nil => simp
    | cons qs rest =>
      rw [List.intercalate_cons_cons, List.map_append, List.map_append, ih, List.map_cons,
        List.map_cons, List.map_cons, List.intercalate_cons_cons]

theorem map_clause {g : Piece → Piece} {f : List (List Piece) → List Piece}
    (hf : ∀ parts, (f parts).map g = f (parts.map (List.map g))) (parts : List (List Piece)) :
    (if parts.isEmpty then [] else f parts).map g
      = if (parts.map (List.map g)).isEmpty then [] else f (parts.map (List.map g)) := by
  cases parts with
  | nil => rfl
  | cons ps rest => exact hf (ps :: rest)

/-- A change of pieces that leaves what is written as it stands. -/
class KeepsVerbatim (g : Piece → Piece) : Prop where
  verbatim? : ∀ p : Piece, (g p).verbatim? = p.verbatim?
  eq_self : ∀ p : Piece, p.verbatim?.isSome = true → g p = p

section

variable {g : Piece → Piece} [KeepsVerbatim g]

theorem map_word (w : String) : g (word w) = word w := KeepsVerbatim.eq_self _ rfl

theorem map_symbol (s : String) : g (symbol s) = symbol s := KeepsVerbatim.eq_self _ rfl

theorem map_space : g space = space := KeepsVerbatim.eq_self _ rfl

theorem areSilent_map (ps : List Piece) : areSilent (ps.map g) = areSilent ps := by
  simp only [areSilent, List.all_map]
  congr 1
  funext p
  simp [KeepsVerbatim.verbatim?]

theorem startWithMinus_map (ps : List Piece) : startWithMinus (ps.map g) = startWithMinus ps := by
  induction ps with
  | nil => rfl
  | cons p ps ih =>
    rw [List.map_cons, startWithMinus, startWithMinus, KeepsVerbatim.verbatim?, ih]

@[simp] theorem map_parenthesized (ps : List Piece) :
    (parenthesized ps).map g = parenthesized (ps.map g) := by
  simp [parenthesized, map_symbol (g := g)]

@[simp] theorem map_call (f : String) (args : List Piece) :
    (call f args).map g = call f (args.map g) := by
  rw [call, List.map_cons, map_parenthesized, map_word (g := g)]
  rfl

@[simp] theorem map_listed (parts : List (List Piece)) :
    (listed parts).map g = listed (parts.map (List.map g)) := by
  simp [listed, map_intercalate, map_symbol (g := g), map_space (g := g)]

@[simp] theorem map_spaced (parts : List (List Piece)) :
    (spaced parts).map g = spaced (parts.map (List.map g)) := by
  have hsilent : ((fun ps => !areSilent ps) ∘ List.map g) = fun ps => !areSilent ps := by
    funext ps
    simp [areSilent_map]
  rw [spaced, spaced, map_intercalate, List.filter_map, hsilent, List.map_cons,
    map_space (g := g), List.map_nil]

@[simp] theorem map_phrase (ws : List String) : (phrase ws).map g = phrase ws := by
  induction ws with
  | nil => rfl
  | cons w ws ih =>
    cases ws with
    | nil => simp [phrase, map_word (g := g)]
    | cons v ws =>
      have hphrase : phrase (w :: v :: ws) = word w :: space :: phrase (v :: ws) := rfl
      rw [hphrase, List.map_cons, List.map_cons, ih, map_word (g := g), map_space (g := g)]

@[simp] theorem map_between (w : String) : (between w).map g = between w := by
  simp [between, map_word (g := g), map_space (g := g)]

@[simp] theorem map_operator (op : BinaryOperator) : op.pieces.map g = op.pieces := by
  cases op <;> simp [BinaryOperator.pieces, map_word (g := g), map_symbol (g := g)]

@[simp] theorem map_guarded (least : Precedence) (e : Expr) (ps : List Piece) :
    (e.guarded least ps).map g = e.guarded least (ps.map g) := by
  unfold Expr.guarded
  split
  · exact map_parenthesized ps
  · rfl

end

/-! ### Pieces up to quotes -/

/-- The piece with nothing between its quotes. -/
def blank : Piece → Piece
  | name _ => name ""
  | string _ => string ""
  | p => p

instance : KeepsVerbatim blank where
  verbatim? p := by cases p <;> rfl
  eq_self p h := by
    cases p <;> first
      | rfl
      | cases h

end Piece

/-! ### Pieces of skeletons -/

theorem isNegative_blankValue (v : Value) : isNegative (blankValue v) = isNegative v := by
  cases v <;> rfl

theorem precedence_skeleton (e : Expr) : e.skeleton.precedence = e.precedence := by
  cases e with
  | literal v => rw [Expr.skeleton, Expr.precedence, Expr.precedence, isNegative_blankValue]
  | unary op _ => cases op <;> rfl
  | _ => rfl

@[simp] theorem guarded_skeleton (least : Precedence) (e : Expr) :
    e.skeleton.guarded least = e.guarded least := by
  funext ps
  rw [Expr.guarded, Expr.guarded, precedence_skeleton]

@[simp] theorem rightLeast_skeleton (op : BinaryOperator) (e : Expr) :
    op.rightLeast e.skeleton = op.rightLeast e := by
  cases e <;> rfl

theorem blank_literal (caps : Capabilities) (v : Value) :
    (literal caps (blankValue v)).map Piece.blank = (literal caps v).map Piece.blank := by
  cases v <;> rfl

section

variable (caps : Capabilities)

open Piece

mutual

/-- The pieces of an expression and of its skeleton differ between quotes only. -/
theorem blank_pieces : (e : Expr) →
    (e.skeleton.pieces caps).map blank = (e.pieces caps).map blank
  | .column .. | .allColumns _ | .parameter _ | .keyword _ => rfl
  | .literal v => blank_literal caps v
  | .function _ args => by
    simp [Expr.pieces, Expr.skeleton, blank_listPieces args]
  | .trim side? chars? text => by
    have htext := blank_pieces text
    cases chars? with
    | none =>
      cases side? <;> simp [Expr.pieces, Expr.skeleton, skeletonOption, optionPieces, htext, blank]
    | some chars =>
      have hchars := blank_pieces chars
      cases side? <;>
        simp [Expr.pieces, Expr.skeleton, skeletonOption, optionPieces, htext, hchars, blank]
  | .substring text start length? => by
    have htext := blank_pieces text
    have hstart := blank_pieces start
    cases length? with
    | none => simp [Expr.pieces, Expr.skeleton, skeletonOption, optionPieces, htext, hstart]
    | some length =>
      have hlength := blank_pieces length
      simp [Expr.pieces, Expr.skeleton, skeletonOption, optionPieces, htext, hstart, hlength]
  | .extract _ operand | .cast operand _ | .atTimeZone operand _ | .isNull operand _ => by
    simp [Expr.pieces, Expr.skeleton, blank_pieces operand, blank]
  | .position left right | .dateAdd left _ right => by
    simp [Expr.pieces, Expr.skeleton, blank_pieces left, blank_pieces right, blank]
  | .binary left op right => by
    by_cases hop : op = .modulo
    · simp [Expr.pieces, Expr.skeleton, hop, blank_pieces left, blank_pieces right]
    · simp [Expr.pieces, Expr.skeleton, hop, blank_pieces left, blank_pieces right, blank]
  | .unary .not operand => by
    simp [Expr.pieces, Expr.skeleton, blank_pieces operand, blank]
  | .unary .negate operand => by
    have hinner : (operand.guarded Precedence.negate (operand.skeleton.pieces caps)).map blank
        = (operand.guarded Precedence.negate (operand.pieces caps)).map blank := by
      rw [map_guarded, map_guarded, blank_pieces operand]
    have hminus : startWithMinus (operand.guarded Precedence.negate (operand.skeleton.pieces caps))
        = startWithMinus (operand.guarded Precedence.negate (operand.pieces caps)) := by
      rw [← startWithMinus_map (g := blank), hinner, startWithMinus_map (g := blank)]
    simp only [Expr.pieces, Expr.skeleton, guarded_skeleton, hminus, List.map_cons]
    split
    · rw [map_parenthesized, map_parenthesized, hinner]
    · rw [hinner]
  | .case whens otherwise? => by
    have hwhens := blank_whensPieces whens
    cases otherwise? with
    | none =>
      simp [Expr.pieces, Expr.skeleton, skeletonOption, optionPieces, map_intercalate, hwhens]
    | some e =>
      have he := blank_pieces e
      simp [Expr.pieces, Expr.skeleton, skeletonOption, optionPieces, map_intercalate, hwhens,
        he, blank]
  | .existsRow rows => by
    simp [Expr.pieces, Expr.skeleton, blank_selectPieces rows, blank]

theorem blank_listPieces : (es : List Expr) →
    (listPieces caps (skeletonList es)).map (List.map blank)
      = (listPieces caps es).map (List.map blank)
  | [] => rfl
  | e :: rest => by simp [listPieces, skeletonList, blank_pieces e, blank_listPieces rest]

theorem blank_whensPieces : (ws : List When) →
    (whensPieces caps (skeletonWhens ws)).map (List.map blank)
      = (whensPieces caps ws).map (List.map blank)
  | [] => rfl
  | ⟨condition, result⟩ :: rest => by
    simp [whensPieces, skeletonWhens, blank_pieces condition, blank_pieces result,
      blank_whensPieces rest, blank]

/-- The pieces of a statement and of its skeleton differ between quotes only. -/
theorem blank_selectPieces : (s : Select) →
    (s.skeleton.pieces caps).map blank = (s.pieces caps).map blank
  | ⟨columns, origin, conditions, ordering, window?⟩ => by
    have hwhere := map_clause (g := blank) (f := fun parts =>
      word "WHERE" :: space :: (between "AND").intercalate parts)
      fun parts => by simp [map_intercalate, blank]
    have horderBy := map_clause (g := blank) (f := fun parts =>
      phrase ["ORDER", "BY"] ++ space :: listed parts) fun parts => by simp [blank]
    simp only [Select.skeleton, Select.pieces, map_spaced, List.map_cons, List.map_nil,
      map_listed, hwhere, horderBy, blank_columnsPieces columns, blank_originPieces origin,
      blank_conditionsPieces conditions, blank_orderingPieces ordering,
      blank_windowPieces window?]

theorem blank_columnsPieces : (cs : List Column) →
    (columnsPieces caps (skeletonColumns cs)).map (List.map blank)
      = (columnsPieces caps cs).map (List.map blank)
  | [] => rfl
  | ⟨e, alias?⟩ :: rest => by
    cases alias? <;>
      simp [columnsPieces, skeletonColumns, blank_pieces e, blank_columnsPieces rest, blank]

theorem blank_originPieces : (o : Origin) →
    (o.skeleton.pieces caps).map blank = (o.pieces caps).map blank
  | .table .. | .singleRow => rfl
  | .derived rows _ => by simp [Origin.pieces, Origin.skeleton, blank_selectPieces rows, blank]

theorem blank_conditionsPieces : (es : List Expr) →
    (conditionsPieces caps (skeletonList es)).map (List.map blank)
      = (conditionsPieces caps es).map (List.map blank)
  | [] => rfl
  | e :: rest => by
    simp [conditionsPieces, skeletonList, blank_pieces e, blank_conditionsPieces rest]

theorem blank_orderingPieces : (keys : List OrderKey) →
    (orderingPieces caps (skeletonKeys keys)).map (List.map blank)
      = (orderingPieces caps keys).map (List.map blank)
  | [] => rfl
  | ⟨e, direction⟩ :: rest => by
    simp [orderingPieces, skeletonKeys, blank_pieces e, blank_orderingPieces rest]

theorem blank_windowPieces : (w? : Option Window) →
    (windowPieces caps (skeletonWindow w?)).map blank = (windowPieces caps w?).map blank
  | none => rfl
  | some ⟨lower, upper?⟩ => by
    have hlower := blank_pieces lower
    cases upper? with
    | none => simp [windowPieces, skeletonWindow, skeletonOption, optionPieces, hlower, blank]
    | some upper =>
      have hupper := blank_pieces upper
      simp [windowPieces, skeletonWindow, skeletonOption, optionPieces, hlower, hupper, blank]

end

end

end QueryLoom.Sql

/-
  QueryLoom/Proofs/Parameters/Pieces.lean
  =======================================
  **A statement with other parameters is made of the same pieces with other parameters.**  The
  renderer never asks a parameter anything: not for parentheses, not for clauses that are left
  out, not for a minus to be set apart.

    * `pieces_mapParameters`, `pieces_mapParameters_select`: the pieces of an expression and of a
      statement.
-/
import QueryLoom.Proofs.Parameters.Tree
import QueryLoom.Proofs.Rendering.Shape

namespace QueryLoom.Sql

/-! ### Pieces with other parameters -/

namespace Piece

/-- The piece with another parameter. -/
def mapParameter (f : Parameter → Parameter) : Piece → Piece
  | parameter p => parameter (f p)
  | p => p

instance (f : Parameter → Parameter) : KeepsVerbatim (mapParameter f) where
  verbatim? p := by cases p <;> rfl
  eq_self p h := by
    cases p <;> first
      | rfl
      | cases h

end Piece

section

variable (f : Parameter → Parameter)

theorem precedence_mapParameters (e : Expr) : (e.mapParameters f).precedence = e.precedence := by
  cases e with
  | unary op _ => cases op <;> rfl
  | _ => rfl

@[simp] theorem guarded_mapParameters (least : Precedence) (e : Expr) :
    (e.mapParameters f).guarded least = e.guarded least := by
  funext ps
  rw [Expr.guarded, Expr.guarded, precedence_mapParameters]

@[simp] theorem rightLeast_mapParameters (op : BinaryOperator) (e : Expr) :
    op.rightLeast (e.mapParameters f) = op.rightLeast e := by
  cases e <;> rfl

open Piece

/-- A constant has no parameters. -/
theorem map_literal (caps : Capabilities) (v : Value) :
    (literal caps v).map (mapParameter f) = literal caps v := by
  have hsigned : ∀ negative magnitude,
      (signed negative magnitude).map (mapParameter f) = signed negative magnitude := by
    rintro (_ | _) magnitude <;> rfl
  have hdated : ∀ w (text? : Except CompileError String),
      (dated w text?).map (mapParameter f) = dated w text? := by
    rintro w (e | text) <;> rfl
  have hbinary : ∀ {format : Number.BinaryFormat} (x : Number.Binary format),
      (binaryNumber v x).map (mapParameter f) = binaryNumber v x := by
    intro format x
    unfold binaryNumber
    split
    · exact hsigned _ _
    · rfl
  cases v with
  | boolean b | uuid u =>
    rw [literal]
    split <;> rfl
  | int16 n | int32 n | int64 n | decimal d => exact hsigned _ _
  | date d | dateTime dt => exact hdated _ _
  | single x | double x => exact hbinary x
  | _ => rfl

/-! ### Trees -/

variable (caps : Capabilities)

mutual

/-- The pieces of an expression with other parameters. -/
theorem pieces_mapParameters : (e : Expr) →
    (e.mapParameters f).pieces caps = (e.pieces caps).map (mapParameter f)
  | .column .. | .allColumns _ | .parameter _ | .keyword _ => rfl
  | .literal v => (map_literal f caps v).symm
  | .function _ args => by
    simp [Expr.pieces, Expr.mapParameters, listPieces_mapParameters args]
  | .trim side? chars? text => by
    have htext := pieces_mapParameters text
    cases chars? with
    | none =>
      cases side? <;>
        simp [Expr.pieces, Expr.mapParameters, mapOptionParameters, optionPieces, htext,
          mapParameter]
    | some chars =>
      have hchars := pieces_mapParameters chars
      cases side? <;>
        simp [Expr.pieces, Expr.mapParameters, mapOptionParameters, optionPieces, htext, hchars,
          mapParameter]
  | .substring text start length? => by
    have htext := pieces_mapParameters text
    have hstart := pieces_mapParameters start
    cases length? with
    | none =>
      simp [Expr.pieces, Expr.mapParameters, mapOptionParameters, optionPieces, htext, hstart]
    | some length =>
      have hlength := pieces_mapParameters length
      simp [Expr.pieces, Expr.mapParameters, mapOptionParameters, optionPieces, htext, hstart,
        hlength]
  | .extract _ operand | .cast operand _ | .atTimeZone operand _ | .isNull operand _ => by
    simp [Expr.pieces, Expr.mapParameters, pieces_mapParameters operand, mapParameter]
  | .position left right | .dateAdd left _ right => by
    simp [Expr.pieces, Expr.mapParameters, pieces_mapParameters left, pieces_mapParameters right,
      mapParameter]
  | .binary left op right => by
    by_cases hop : op = .modulo
    · simp [Expr.pieces, Expr.mapParameters, hop, pieces_mapParameters left,
        pieces_mapParameters right]
    · simp [Expr.pieces, Expr.mapParameters, hop, pieces_mapParameters left,
        pieces_mapParameters right, mapParameter]
  | .unary .not operand => by
    simp [Expr.pieces, Expr.mapParameters, pieces_mapParameters operand, mapParameter]
  | .unary .negate operand => by
    have hinner : operand.guarded Precedence.negate ((operand.pieces caps).map (mapParameter f))
        = (operand.guarded Precedence.negate (operand.pieces caps)).map (mapParameter f) :=
      (map_guarded _ _ _).symm
    simp only [Expr.pieces, Expr.mapParameters, guarded_mapParameters,
      pieces_mapParameters operand, hinner, startWithMinus_map, List.map_cons]
    split
    · rw [map_parenthesized]
      rfl
    · rfl
  | .case whens otherwise? => by
    have hwhens := whensPieces_mapParameters whens
    cases otherwise? with
    | none =>
      simp [Expr.pieces, Expr.mapParameters, mapOptionParameters, optionPieces, map_intercalate,
        hwhens, mapParameter]
    | some e =>
      have he := pieces_mapParameters e
      simp [Expr.pieces, Expr.mapParameters, mapOptionParameters, optionPieces, map_intercalate,
        hwhens, he, mapParameter]
  | .existsRow rows => by
    simp [Expr.pieces, Expr.mapParameters, pieces_mapParameters_select rows, mapParameter]

theorem listPieces_mapParameters : (es : List Expr) →
    listPieces caps (mapListParameters f es) = (listPieces caps es).map (List.map (mapParameter f))
  | [] => rfl
  | e :: rest => by
    simp [listPieces, mapListParameters, pieces_mapParameters e, listPieces_mapParameters rest]

theorem whensPieces_mapParameters : (ws : List When) →
    whensPieces caps (mapWhenParameters f ws)
      = (whensPieces caps ws).map (List.map (mapParameter f))
  | [] => rfl
  | ⟨condition, result⟩ :: rest => by
    simp [whensPieces, mapWhenParameters, pieces_mapParameters condition,
      pieces_mapParameters result, whensPieces_mapParameters rest, mapParameter]

/-- The pieces of a statement with other parameters. -/
theorem pieces_mapParameters_select : (s : Select) →
    (s.mapParameters f).pieces caps = (s.pieces caps).map (mapParameter f)
  | ⟨columns, origin, conditions, ordering, window?⟩ => by
    have hwhere := map_clause (g := mapParameter f) (f := fun parts =>
      word "WHERE" :: space :: (between "AND").intercalate parts)
      fun parts => by simp [map_intercalate, mapParameter]
    have horderBy := map_clause (g := mapParameter f) (f := fun parts =>
      phrase ["ORDER", "BY"] ++ space :: listed parts) fun parts => by simp [mapParameter]
    simp only [Select.mapParameters, Select.pieces, map_spaced, List.map_cons, List.map_nil,
      map_listed, hwhere, horderBy, columnsPieces_mapParameters columns,
      originPieces_mapParameters origin, conditionsPieces_mapParameters conditions,
      orderingPieces_mapParameters ordering, windowPieces_mapParameters window?, mapParameter]

theorem columnsPieces_mapParameters : (cs : List Column) →
    columnsPieces caps (mapColumnParameters f cs)
      = (columnsPieces caps cs).map (List.map (mapParameter f))
  | [] => rfl
  | ⟨e, alias?⟩ :: rest => by
    cases alias? <;>
      simp [columnsPieces, mapColumnParameters, pieces_mapParameters e,
        columnsPieces_mapParameters rest, mapParameter]

theorem originPieces_mapParameters : (o : Origin) →
    (o.mapParameters f).pieces caps = (o.pieces caps).map (mapParameter f)
  | .table .. | .singleRow => rfl
  | .derived rows _ => by
    simp [Origin.pieces, Origin.mapParameters, pieces_mapParameters_select rows, mapParameter]

theorem conditionsPieces_mapParameters : (es : List Expr) →
    conditionsPieces caps (mapListParameters f es)
      = (conditionsPieces caps es).map (List.map (mapParameter f))
  | [] => rfl
  | e :: rest => by
    simp [conditionsPieces, mapListParameters, pieces_mapParameters e,
      conditionsPieces_mapParameters rest]

theorem orderingPieces_mapParameters : (keys : List OrderKey) →
    orderingPieces caps (mapKeyParameters f keys)
      = (orderingPieces caps keys).map (List.map (mapParameter f))
  | [] => rfl
  | ⟨e, direction⟩ :: rest => by
    simp [orderingPieces, mapKeyParameters, pieces_mapParameters e,
      orderingPieces_mapParameters rest, mapParameter]

theorem windowPieces_mapParameters : (w? : Option Window) →
    windowPieces caps (mapWindowParameters f w?)
      = (windowPieces caps w?).map (mapParameter f)
  | none => rfl
  | some ⟨lower, upper?⟩ => by
    have hlower := pieces_mapParameters lower
    cases upper? with
    | none =>
      simp [windowPieces, mapWindowParameters, mapOptionParameters, optionPieces, hlower,
        mapParameter]
    | some upper =>
      have hupper := pieces_mapParameters upper
      simp [windowPieces, mapWindowParameters, mapOptionParameters, optionPieces, hlower, hupper,
        mapParameter]

end

end

end QueryLoom.Sql

/-
  QueryLoom/Proofs/Rendering/Quoted.lean
  ======================================
  **User text stays between quotes.**  `Select.quoted` lists the names and strings of a statement
  from left to right, and that is what its pieces put between quotes.

  Pieces are lexed one by one.  So two statements that differ in their names and strings only have
  the same tokens up to what stands between quotes, no comments, and between quotes each has its
  own names and strings.

    * `quotes_pieces`, `quotes_selectPieces` — what is put between quotes;
    * `tokens_of_render` — the tokens of a text are those of the statement's pieces;
    * `tokens_of_skeleton` — two statements with one skeleton.
-/
import QueryLoom.Proofs.Drafting.Vocabulary
import QueryLoom.Proofs.Rendering.Separation
import QueryLoom.Proofs.Rendering.Shape

namespace QueryLoom.Sql

/-! ### What stands between quotes -/

/-- What a constant is written as between quotes. -/
def literalStrings (caps : Capabilities) : Value → List String
  | .string s => [s]
  | .date d => (dateText? d).toOption.toList
  | .time t => [timeText t]
  | .dateTime dt =>
    ((dateText? dt.date).map fun date => date ++ " " ++ timeText dt.time).toOption.toList
  | .uuid u => if caps.charToUuid then [u.write] else []
  | _ => []

open Lexical (Token)

mutual

/-- The names and strings of an expression from left to right. -/
def Expr.quoted (caps : Capabilities) : Expr → List Token
  | .column source name => [.name source, .name name]
  | .allColumns source => [.name source]
  | .literal v => (literalStrings caps v).map .string
  | .parameter _ => []
  | .keyword _ => []
  | .function _ args => quotedList caps args
  | .trim _ chars? text => quotedOption caps chars? ++ text.quoted caps
  | .substring text start length? =>
    text.quoted caps ++ start.quoted caps ++ quotedOption caps length?
  | .extract _ operand => operand.quoted caps
  | .cast operand _ => operand.quoted caps
  | .position needle haystack => needle.quoted caps ++ haystack.quoted caps
  | .dateAdd amount _ operand => amount.quoted caps ++ operand.quoted caps
  | .atTimeZone operand zone => operand.quoted caps ++ [.string zone]
  | .binary left _ right => left.quoted caps ++ right.quoted caps
  | .unary _ operand => operand.quoted caps
  | .isNull operand _ => operand.quoted caps
  | .case whens otherwise? => quotedWhens caps whens ++ quotedOption caps otherwise?
  | .existsRow rows => rows.quoted caps

/-- The names and strings of an expression that may be missing. -/
def quotedOption (caps : Capabilities) : Option Expr → List Token
  | none => []
  | some e => e.quoted caps

/-- The names and strings of the expressions in a list. -/
def quotedList (caps : Capabilities) : List Expr → List Token
  | [] => []
  | e :: rest => e.quoted caps ++ quotedList caps rest

/-- The names and strings of the branches of a CASE. -/
def quotedWhens (caps : Capabilities) : List When → List Token
  | [] => []
  | ⟨condition, result⟩ :: rest =>
    condition.quoted caps ++ result.quoted caps ++ quotedWhens caps rest

/-- The names and strings of a statement from left to right. -/
def Select.quoted (caps : Capabilities) : Select → List Token
  | ⟨columns, origin, conditions, ordering, window?⟩ =>
    quotedColumns caps columns ++ origin.quoted caps ++ quotedList caps conditions
      ++ quotedKeys caps ordering ++ quotedWindow caps window?

/-- The names and strings of selected columns, each with its own name after it. -/
def quotedColumns (caps : Capabilities) : List Column → List Token
  | [] => []
  | ⟨e, alias?⟩ :: rest =>
    e.quoted caps ++ alias?.toList.map .name ++ quotedColumns caps rest

/-- The names and strings of the origin of rows, the alias of the rows last. -/
def Origin.quoted (caps : Capabilities) : Origin → List Token
  | .table name source => [.name name, .name source]
  | .derived rows source => rows.quoted caps ++ [.name source]
  | .singleRow => []

/-- The names and strings of the keys of an ordering. -/
def quotedKeys (caps : Capabilities) : List OrderKey → List Token
  | [] => []
  | ⟨e, _⟩ :: rest => e.quoted caps ++ quotedKeys caps rest

/-- The names and strings of the bounds of a window. -/
def quotedWindow (caps : Capabilities) : Option Window → List Token
  | none => []
  | some ⟨lower, upper?⟩ => lower.quoted caps ++ quotedOption caps upper?

end

namespace Piece

/-- What a piece puts between quotes. -/
def quote? : Piece → Option Token
  | name id => some (.name id)
  | string s => some (.string s)
  | _ => none

/-- What pieces put between quotes. -/
def quotes (ps : List Piece) : List Token := ps.filterMap quote?

@[simp] theorem quotes_nil : quotes [] = [] := rfl

@[simp] theorem quotes_append (ps qs : List Piece) : quotes (ps ++ qs) = quotes ps ++ quotes qs :=
  List.filterMap_append

@[simp] theorem quotes_word (w : String) (ps : List Piece) : quotes (word w :: ps) = quotes ps :=
  rfl

@[simp] theorem quotes_symbol (s : String) (ps : List Piece) :
    quotes (symbol s :: ps) = quotes ps := rfl

@[simp] theorem quotes_number (ds : String) (ps : List Piece) :
    quotes (number ds :: ps) = quotes ps := rfl

@[simp] theorem quotes_space (ps : List Piece) : quotes (space :: ps) = quotes ps := rfl

@[simp] theorem quotes_name (id : String) (ps : List Piece) :
    quotes (name id :: ps) = .name id :: quotes ps := rfl

@[simp] theorem quotes_string (s : String) (ps : List Piece) :
    quotes (string s :: ps) = .string s :: quotes ps := rfl

@[simp] theorem quotes_parenthesized (ps : List Piece) : quotes (parenthesized ps) = quotes ps := by
  simp [parenthesized]

@[simp] theorem quotes_call (f : String) (args : List Piece) : quotes (call f args) = quotes args := by
  simp [call]

theorem quotes_intercalate {sep : List Piece} (h : quotes sep = []) (parts : List (List Piece)) :
    quotes (sep.intercalate parts) = parts.flatMap quotes := by
  induction parts with
  | nil => rfl
  | cons ps rest ih =>
    cases rest with
    | nil => simp
    | cons qs rest =>
      rw [List.intercalate_cons_cons, quotes_append, quotes_append, h, ih, List.append_nil]
      rfl

@[simp] theorem quotes_intercalate_space (parts : List (List Piece)) :
    quotes ([space].intercalate parts) = parts.flatMap quotes :=
  quotes_intercalate rfl parts

@[simp] theorem quotes_listed (parts : List (List Piece)) :
    quotes (listed parts) = parts.flatMap quotes :=
  quotes_intercalate rfl parts

@[simp] theorem quotes_between (w : String) : quotes (between w) = [] := rfl

@[simp] theorem quotes_phrase (ws : List String) : quotes (phrase ws) = [] := by
  induction ws with
  | nil => rfl
  | cons w ws ih =>
    cases ws with
    | nil => rfl
    | cons v ws => exact ih

theorem quotes_of_areSilent {ps : List Piece} (h : areSilent ps = true) : quotes ps = [] := by
  refine List.filterMap_eq_nil_iff.mpr fun p hp => ?_
  have hverbatim : p.verbatim? = some "" := by simpa using List.all_eq_true.mp h p hp
  cases p with
  | name _ | string _ => cases hverbatim
  | _ => rfl

@[simp] theorem quotes_spaced (parts : List (List Piece)) :
    quotes (spaced parts) = parts.flatMap quotes := by
  rw [spaced, quotes_intercalate_space]
  induction parts with
  | nil => rfl
  | cons ps rest ih =>
    cases hsilent : areSilent ps with
    | true => simp [hsilent, ih, quotes_of_areSilent hsilent]
    | false => simp [hsilent, ih]

@[simp] theorem quotes_operator (op : BinaryOperator) : quotes op.pieces = [] := by
  cases op <;> rfl

@[simp] theorem quotes_guarded (least : Precedence) (e : Expr) (ps : List Piece) :
    quotes (e.guarded least ps) = quotes ps := by
  unfold Expr.guarded
  split
  · exact quotes_parenthesized ps
  · rfl

end Piece

section

variable (caps : Capabilities)

open Piece

theorem quotes_signed (negative : Bool) (magnitude : String) :
    quotes (signed negative magnitude) = [] := by
  cases negative <;> rfl

theorem quotes_binaryNumber {f : Number.BinaryFormat} (v : Value) (x : Number.Binary f) :
    quotes (binaryNumber v x) = [] := by
  unfold binaryNumber
  split
  · exact quotes_signed _ _
  · rfl

theorem quotes_dated (w : String) (text? : Except CompileError String) :
    quotes (dated w text?) = text?.toOption.toList.map .string := by
  cases text? <;> rfl

theorem quotes_literal (v : Value) :
    quotes (literal caps v) = (literalStrings caps v).map .string := by
  cases v with
  | boolean b =>
    rw [literal]
    split <;> rfl
  | int16 n | int32 n | int64 n | decimal d => exact quotes_signed _ _
  | single x | double x => exact quotes_binaryNumber _ x
  | date _ | dateTime _ => exact quotes_dated _ _
  | uuid u =>
    rw [literal, literalStrings]
    split <;> rfl
  | null | string _ | binary _ | time _ => rfl

mutual

/-- The pieces of an expression put its names and strings between quotes. -/
theorem quotes_pieces : (e : Expr) → quotes (e.pieces caps) = e.quoted caps
  | .column .. | .allColumns _ | .parameter _ | .keyword _ => rfl
  | .literal v => quotes_literal caps v
  | .function _ args => by
    simp [Expr.pieces, Expr.quoted, quotes_listPieces args]
  | .trim side? chars? text => by
    have htext := quotes_pieces text
    have hchars := quotes_optionPieces chars?
    cases side? with
    | none =>
      cases chars? with
      | none => simp [Expr.pieces, Expr.quoted, quotedOption, htext]
      | some chars => simp [Expr.pieces, Expr.quoted, htext, hchars]
    | some side => simp [Expr.pieces, Expr.quoted, htext, hchars]
  | .substring text start length? => by
    have htext := quotes_pieces text
    have hstart := quotes_pieces start
    cases length? with
    | none => simp [Expr.pieces, Expr.quoted, optionPieces, quotedOption, htext, hstart]
    | some length =>
      have hlength := quotes_pieces length
      simp [Expr.pieces, Expr.quoted, optionPieces, quotedOption, htext, hstart, hlength]
  | .extract _ operand | .cast operand _ | .atTimeZone operand _ | .isNull operand _ => by
    simp [Expr.pieces, Expr.quoted, quotes_pieces operand]
  | .position left right | .dateAdd left _ right => by
    simp [Expr.pieces, Expr.quoted, quotes_pieces left, quotes_pieces right]
  | .binary left op right => by
    by_cases hop : op = .modulo
    · simp [Expr.pieces, Expr.quoted, hop, quotes_pieces left, quotes_pieces right]
    · simp [Expr.pieces, Expr.quoted, hop, quotes_pieces left, quotes_pieces right]
  | .unary .not operand => by
    simp [Expr.pieces, Expr.quoted, quotes_pieces operand]
  | .unary .negate operand => by
    simp [Expr.pieces, Expr.quoted, quotes_pieces operand, apply_ite quotes]
  | .case whens otherwise? => by
    have hwhens := quotes_whensPieces whens
    cases otherwise? with
    | none => simp [Expr.pieces, Expr.quoted, optionPieces, quotedOption, hwhens]
    | some e =>
      have he := quotes_pieces e
      simp [Expr.pieces, Expr.quoted, optionPieces, quotedOption, hwhens, he]
  | .existsRow rows => by
    simp [Expr.pieces, Expr.quoted, quotes_selectPieces rows]

theorem quotes_optionPieces : (e? : Option Expr) →
    (optionPieces caps e?).flatMap quotes = quotedOption caps e?
  | none => rfl
  | some e => by simp [optionPieces, quotedOption, quotes_pieces e]

theorem quotes_listPieces : (es : List Expr) →
    (listPieces caps es).flatMap quotes = quotedList caps es
  | [] => rfl
  | e :: rest => by simp [listPieces, quotedList, quotes_pieces e, quotes_listPieces rest]

theorem quotes_whensPieces : (ws : List When) →
    (whensPieces caps ws).flatMap quotes = quotedWhens caps ws
  | [] => rfl
  | ⟨condition, result⟩ :: rest => by
    simp [whensPieces, quotedWhens, quotes_pieces condition, quotes_pieces result,
      quotes_whensPieces rest]

/-- The pieces of a statement put its names and strings between quotes. -/
theorem quotes_selectPieces : (s : Select) → quotes (s.pieces caps) = s.quoted caps
  | ⟨columns, origin, conditions, ordering, window?⟩ => by
    have hwhere : quotes (if (conditionsPieces caps conditions).isEmpty then []
        else word "WHERE" :: space :: (between "AND").intercalate
          (conditionsPieces caps conditions)) = quotedList caps conditions := by
      rw [← quotes_conditionsPieces conditions]
      cases conditionsPieces caps conditions with
      | nil => rfl
      | cons ps rest =>
        have hbetween : quotes (between "AND") = [] := rfl
        exact quotes_intercalate hbetween (ps :: rest)
    have horderBy : quotes (if (orderingPieces caps ordering).isEmpty then []
        else phrase ["ORDER", "BY"] ++ space :: listed (orderingPieces caps ordering))
          = quotedKeys caps ordering := by
      rw [← quotes_orderingPieces ordering]
      cases orderingPieces caps ordering with
      | nil => rfl
      | cons ps rest => simp
    simp only [Select.pieces, Select.quoted, quotes_spaced, List.flatMap_cons, List.flatMap_nil,
      quotes_listed, quotes_columnsPieces columns, quotes_word, quotes_space, quotes_nil,
      quotes_originPieces origin, hwhere, horderBy, quotes_windowPieces window?, List.nil_append,
      List.append_nil, List.append_assoc]

theorem quotes_columnsPieces : (cs : List Column) →
    (columnsPieces caps cs).flatMap quotes = quotedColumns caps cs
  | [] => rfl
  | ⟨e, alias?⟩ :: rest => by
    cases alias? <;>
      simp [columnsPieces, quotedColumns, quotes_pieces e, quotes_columnsPieces rest]

theorem quotes_originPieces : (o : Origin) → quotes (o.pieces caps) = o.quoted caps
  | .table .. | .singleRow => rfl
  | .derived rows _ => by simp [Origin.pieces, Origin.quoted, quotes_selectPieces rows]

theorem quotes_conditionsPieces : (es : List Expr) →
    (conditionsPieces caps es).flatMap quotes = quotedList caps es
  | [] => rfl
  | e :: rest => by
    simp [conditionsPieces, quotedList, quotes_pieces e, quotes_conditionsPieces rest]

theorem quotes_orderingPieces : (keys : List OrderKey) →
    (orderingPieces caps keys).flatMap quotes = quotedKeys caps keys
  | [] => rfl
  | ⟨e, _⟩ :: rest => by
    simp [orderingPieces, quotedKeys, quotes_pieces e, quotes_orderingPieces rest]

theorem quotes_windowPieces : (w? : Option Window) →
    quotes (windowPieces caps w?) = quotedWindow caps w?
  | none => rfl
  | some ⟨lower, upper?⟩ => by
    have hlower := quotes_pieces lower
    cases upper? with
    | none => simp [windowPieces, quotedWindow, quotedOption, optionPieces, hlower]
    | some upper =>
      have hupper := quotes_pieces upper
      simp [windowPieces, quotedWindow, quotedOption, optionPieces, hlower, hupper]

end

end

/-! ### Texts -/

namespace Lexical.Token

/-- The token with nothing between its quotes. -/
def blank : Token → Token
  | name _ => name ""
  | string _ => string ""
  | t => t

/-- Whether the token stands between quotes. -/
def isQuoted : Token → Bool
  | name _ | string _ => true
  | _ => false

end Lexical.Token

theorem token?_blank (p : Piece) : p.blank.token? = p.token?.map Token.blank := by
  cases p <;> rfl

theorem map_blank_token? (ps : List Piece) :
    (ps.filterMap Piece.token?).map Token.blank = (ps.map Piece.blank).filterMap Piece.token? := by
  rw [List.map_filterMap, List.filterMap_map]
  congr 1
  funext p
  exact (token?_blank p).symm

theorem filter_isQuoted_token? (ps : List Piece) :
    (ps.filterMap Piece.token?).filter Token.isQuoted = Piece.quotes ps := by
  induction ps with
  | nil => rfl
  | cons p ps ih =>
    cases p with
    | name id => exact congrArg (Token.name id :: ·) ih
    | string t => exact congrArg (Token.string t :: ·) ih
    | _ => exact ih

theorem comment_not_mem_token? (ps : List Piece) : Token.comment ∉ ps.filterMap Piece.token? := by
  intro h
  obtain ⟨p, _, hp⟩ := List.mem_filterMap.mp h
  cases p <;> cases hp

theorem Expr.isWorded_of_inVocabulary {e : Expr} (h : e.inVocabulary = true) :
    e.isWorded = true := by
  cases e with
  | keyword w =>
    have hall : ∀ w ∈ keywords, Reading.isWord w = true := by decide
    exact hall w (List.contains_iff_mem.mp h)
  | function f args =>
    have hall : ∀ f ∈ functionNames, Reading.isWord f = true := by decide
    exact hall f (List.contains_iff_mem.mp h)
  | _ => rfl

section

variable {caps : Capabilities} {s s' : Select} {st st' : Statement}

/-- The pieces of a statement that can be written are readable. -/
theorem isReadable_of_render {placeholders : Placeholders} (hs : ∀ x ∈ s.walk, x.isWorded = true)
    (h : render caps placeholders s = .ok st) : ∀ p ∈ s.pieces caps, p.isReadable = true := by
  intro p hp
  have hsound := (tidy_selectPieces caps s hs).sound p hp
  rwa [Piece.isSound, Style.not_isRefused_of_write (render_eq_ok h) p hp, Bool.or_false] at hsound

/-- The text of a statement is lexed piece by piece. -/
theorem tokens_of_render (hs : ∀ x ∈ s.walk, x.isWorded = true)
    (h : render caps .positional s = .ok st) :
    Lexical.tokens st.text = (s.pieces caps).filterMap Piece.token? := by
  rw [Lexical.tokens, Style.spelled_of_write (render_eq_ok h) (.inl rfl)]
  exact Lexical.lex_spelled rfl (isReadable_of_render hs h) (tidy_selectPieces caps s hs).apart

/-- Two statements of one skeleton, made of what statements of queries are made of, have the same
    tokens up to what stands between quotes and no comments, and what stands between quotes is
    what each of them has for names and strings. -/
theorem tokens_of_skeleton (hs : ∀ x ∈ s.walk, x.inVocabulary = true)
    (hs' : ∀ x ∈ s'.walk, x.inVocabulary = true) (hshape : s.skeleton = s'.skeleton)
    (h : render caps .positional s = .ok st) (h' : render caps .positional s' = .ok st') :
    (Lexical.tokens st.text).map Token.blank = (Lexical.tokens st'.text).map Token.blank ∧
      Token.comment ∉ Lexical.tokens st.text ∧ Token.comment ∉ Lexical.tokens st'.text ∧
      (Lexical.tokens st.text).filter Token.isQuoted = s.quoted caps ∧
      (Lexical.tokens st'.text).filter Token.isQuoted = s'.quoted caps := by
  have htokens := tokens_of_render (fun x hx => Expr.isWorded_of_inVocabulary (hs x hx)) h
  have htokens' := tokens_of_render (fun x hx => Expr.isWorded_of_inVocabulary (hs' x hx)) h'
  rw [htokens, htokens']
  refine ⟨?_, comment_not_mem_token? _, comment_not_mem_token? _, ?_, ?_⟩
  · have hpieces : (s.pieces caps).map Piece.blank = (s'.pieces caps).map Piece.blank := by
      rw [← blank_selectPieces caps s, hshape, blank_selectPieces]
    rw [map_blank_token?, map_blank_token?, hpieces]
  · rw [filter_isQuoted_token?, quotes_selectPieces]
  · rw [filter_isQuoted_token?, quotes_selectPieces]

end

/-- The statement of the rows of a table whose column has a text. -/
def Select.having (table column text : String) : Select where
  columns := [⟨.allColumns "i", none⟩]
  origin := .table table "i"
  conditions := [.binary (.column "i" column) .equal (.literal (.string text))]
  ordering := []
  window? := none

theorem tokens_of_skeleton_having :
    ∃ st st', render (.ofVersion ⟨3, 0, 0, 0⟩) .positional (.having "ITEM" "NAME" "bolt") = .ok st ∧
      render (.ofVersion ⟨3, 0, 0, 0⟩) .positional (.having "IT\"EM" "NA--ME" "' OR '/*") = .ok st' ∧
      (Lexical.tokens st.text).map Token.blank = (Lexical.tokens st'.text).map Token.blank ∧
      Token.comment ∉ Lexical.tokens st'.text ∧
      (Lexical.tokens st'.text).filter Token.isQuoted = [.name "i", .name "IT\"EM", .name "i",
        .name "i", .name "NA--ME", .string "' OR '/*"] := by
  have hs : ∀ x ∈ (Select.having "ITEM" "NAME" "bolt").walk, x.inVocabulary = true := by
    simp [Select.having, Select.walk, walkColumns, Origin.walk, walkList, walkKeys, walkWindow,
      Expr.walk, Expr.inVocabulary]
  have hs' : ∀ x ∈ (Select.having "IT\"EM" "NA--ME" "' OR '/*").walk, x.inVocabulary = true := by
    simp [Select.having, Select.walk, walkColumns, Origin.walk, walkList, walkKeys, walkWindow,
      Expr.walk, Expr.inVocabulary]
  have h : ∃ st, render (.ofVersion ⟨3, 0, 0, 0⟩) .positional (.having "ITEM" "NAME" "bolt")
      = .ok st := ⟨_, rfl⟩
  have h' : ∃ st, render (.ofVersion ⟨3, 0, 0, 0⟩) .positional
      (.having "IT\"EM" "NA--ME" "' OR '/*") = .ok st := ⟨_, rfl⟩
  obtain ⟨st, h⟩ := h
  obtain ⟨st', h'⟩ := h'
  obtain ⟨hblank, _, hcomment, _, hquoted⟩ := tokens_of_skeleton hs hs' rfl h h'
  exact ⟨st, st', h, h', hblank, hcomment, hquoted⟩

end QueryLoom.Sql

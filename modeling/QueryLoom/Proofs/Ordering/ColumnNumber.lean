/-
  QueryLoom/Proofs/Ordering/ColumnNumber.lean
  ===========================================
  **Which expressions are written as a column number.**  A server takes an item of an ordering that
  is digits alone for the number of a selected column.  Every piece of an expression that is not a
  constant brings something else with it: a dot, a parenthesis, a space, a quote or a letter.  So
  only constants are left, and of these the whole numbers without a sign, Booleans where they are
  written as one and zero, and decimals without a fraction.

    * `forall_isDigit_write`, digits are written by pieces of digits only;
    * `isColumnNumber_of_writes`, the expressions whose text is a column number.
-/
import QueryLoom.Proofs.Drafting.Vocabulary
import QueryLoom.Proofs.Rendering.Numeral
import QueryLoom.Proofs.Rendering.Placement

namespace QueryLoom.Sql

/-- Whether a server takes an item of an ordering for the number of a selected column. -/
def IsColumnNumber (text : String) : Prop := text ≠ "" ∧ ∀ c ∈ text.toList, c.isDigit = true

instance : DecidablePred IsColumnNumber := fun text =>
  inferInstanceAs (Decidable (text ≠ "" ∧ ∀ c ∈ text.toList, c.isDigit = true))

/-- Whether a constant is written as a whole number without a sign. -/
def isUnsigned (caps : Capabilities) : Value → Bool
  | .boolean _ => !caps.booleanType
  | .int16 n => 0 ≤ n.toInt
  | .int32 n => 0 ≤ n.toInt
  | .int64 n => 0 ≤ n.toInt
  | .decimal d => !d.negative && d.scale == 0
  | _ => false

/-! ### Pieces of digits -/

/-- Whether the text of a piece is digits alone. -/
def Piece.isDigits : Piece → Bool
  | word w => w.toList.all Char.isDigit
  | symbol s => s.toList.all Char.isDigit
  | number ds => ds.toList.all Char.isDigit
  | _ => false

section Writing

variable {style : Style} {bound bound' : List Binding} {p : Piece} {ps : List Piece}
  {text : String}

theorem not_forall_isDigit {c : Char} (hc : c ∈ text.toList) (hdigit : c.isDigit = false) :
    ¬ ∀ c ∈ text.toList, c.isDigit = true := by
  intro h
  rw [h c hc] at hdigit
  cases hdigit

theorem mem_toList_quoted (q : Char) (t : String) : q ∈ (Text.quoted q t).toList := by
  rw [Text.quoted, String.toList_ofList]
  exact List.mem_cons_self

theorem forall_isDigit_writePiece (h : style.writePiece bound p = .ok (text, bound')) :
    (∀ c ∈ text.toList, c.isDigit = true) ↔ p.isDigits = true := by
  cases p with
  | word w | symbol w | number w =>
    cases h
    exact List.all_eq_true.symm
  | space =>
    cases h
    exact iff_of_false (not_forall_isDigit (c := ' ') (by simp) rfl) Bool.false_ne_true
  | name id =>
    rw [Style.writePiece] at h
    cases hid : identifier style.caps id with
    | error e =>
      rw [hid] at h
      cases h
    | ok t =>
      rw [hid] at h
      cases h
      rw [Style.identifier_eq_ok hid]
      exact iff_of_false (not_forall_isDigit (mem_toList_quoted _ id) rfl) Bool.false_ne_true
  | string t =>
    cases h
    exact iff_of_false (not_forall_isDigit (mem_toList_quoted _ t) rfl) Bool.false_ne_true
  | parameter q | constant q =>
    refine iff_of_false ?_ Bool.false_ne_true
    cases hstyle : style.placeholders with
    | positional =>
      simp only [Style.writePiece, Style.bind, Style.bindConstant, hstyle, Except.ok.injEq,
        Prod.mk.injEq] at h
      rw [← h.1]
      exact not_forall_isDigit (c := '?') (by simp) rfl
    | named =>
      simp only [Style.writePiece, Style.bind, Style.bindConstant, hstyle, Except.ok.injEq,
        Prod.mk.injEq] at h
      rw [← h.1]
      exact not_forall_isDigit (c := '@') (by simp) rfl
  | refused e => cases h

/-- A text is digits alone if all of its pieces are. -/
theorem forall_isDigit_write (h : style.write bound ps = (.ok text, bound')) :
    (∀ c ∈ text.toList, c.isDigit = true) ↔ ∀ p ∈ ps, p.isDigits = true := by
  induction ps generalizing bound text with
  | nil =>
    cases h
    exact iff_of_true (List.forall_mem_nil _) (List.forall_mem_nil _)
  | cons p ps ih =>
    obtain ⟨first, between, rest, hfirst, hrest, rfl⟩ := Style.write_cons_eq_ok h
    rw [String.toList_append, List.forall_mem_append, List.forall_mem_cons, ih hrest,
      forall_isDigit_writePiece hfirst]

theorem write_singleton_number {ds : String}
    (h : style.write bound [.number ds] = (.ok text, bound')) : text = ds := by
  obtain ⟨first, between, rest, hfirst, hrest, rfl⟩ := Style.write_cons_eq_ok h
  cases hfirst
  cases hrest
  exact String.append_empty

end Writing

/-! ### Numbers -/

section Numbers

theorem isDigits_nat (n : Nat) : (Piece.number (toString n)).isDigits = true := by
  rw [Piece.isDigits, List.all_eq_true]
  exact fun _ => Text.isDigit_of_mem_toString

/-- A floating-point number has a point or an exponent. -/
theorem not_isDigits_layout (x : Number.Scientific) :
    (Piece.number (Number.plainLayout.decimal x)).isDigits = false := by
  rw [Piece.isDigits, List.all_eq_false]
  simp only [Number.Layout.decimal]
  split
  · exact ⟨'e', by simp, by decide⟩
  split
  · exact ⟨'.', by simp, by decide⟩
  split
  · exact ⟨'.', by simp, by decide⟩
  · exact ⟨'.', by simp, by decide⟩

theorem not_isDigits_binary {f : Number.BinaryFormat} (x : Number.Binary f)
    (hx : x.isFinite = true) (hnegative : x.negative = false) :
    (Piece.number (x.write Number.plainLayout)).isDigits = false := by
  rcases x with ⟨negative, magnitude⟩
  obtain rfl : negative = false := hnegative
  cases magnitude with
  | infinite | notANumber => cases hx
  | finite m e =>
    have hwrite : Number.Binary.write Number.plainLayout (f := f) ⟨false, .finite m e⟩
        = if m = 0 then "0.0" else Number.plainLayout.decimal (Number.shortest f m e) := by
      simp [Number.Binary.write]
    rw [hwrite]
    split
    · decide
    · exact not_isDigits_layout _

/-- A decimal has a point unless its scale is zero, and a digit in any case. -/
theorem isDigits_decimal (d : Number.Decimal) (hd : d.negative = false) :
    (Piece.number d.write).isDigits = (d.scale == 0) ∧ d.write ≠ "" := by
  rcases d with ⟨negative, mantissa, scale⟩
  obtain rfl : negative = false := hd
  simp only [Number.Decimal.write, Bool.false_eq_true, if_false, Piece.isDigits]
  by_cases hscale : scale = 0
  · subst hscale
    rw [Nat.sub_zero, List.take_length, if_pos rfl]
    constructor
    · simpa using fun c hc => Nat.isDigit_of_mem_toDigits (by decide) (by decide) hc
    · intro hempty
      simpa using congrArg String.toList hempty
  · rw [if_neg hscale]
    constructor
    · rw [beq_false_of_ne hscale, List.all_eq_false]
      exact ⟨'.', by simp, by decide⟩
    · intro hempty
      simpa using congrArg String.toList hempty

end Numbers

/-! ### Expressions -/

section Expressions

variable {caps : Capabilities}

theorem isDigits_signed {negative : Bool} {magnitude : String} :
    (∀ p ∈ signed negative magnitude, p.isDigits = true) ↔
      negative = false ∧ (Piece.number magnitude).isDigits = true := by
  cases negative <;> simp [signed, Piece.isDigits]

theorem isDigits_integer (n : Int) : (∀ p ∈ integer n, p.isDigits = true) ↔ 0 ≤ n := by
  rw [integer, isDigits_signed, and_iff_left (isDigits_nat _), decide_eq_false_iff_not, Int.not_lt]

theorem not_isDigits_binaryNumber {f : Number.BinaryFormat} (v : Value) (x : Number.Binary f) :
    ¬ ∀ p ∈ binaryNumber v x, p.isDigits = true := by
  rw [binaryNumber]
  split
  · rename_i hfinite
    have hnumber := not_isDigits_binary (⟨false, x.magnitude⟩ : Number.Binary f) hfinite rfl
    rw [isDigits_signed, hnumber]
    exact fun h => Bool.false_ne_true h.2
  · simp [Piece.isDigits]

theorem not_isDigits_dated {w : String} (text? : Except CompileError String) :
    ¬ ∀ p ∈ dated w text?, p.isDigits = true := by
  cases text? <;> simp [dated, labelled, Piece.isDigits]

/-- The constants that are written with digits only. -/
theorem isDigits_literal (v : Value) :
    (∀ p ∈ literal caps v, p.isDigits = true) ↔ isUnsigned caps v = true := by
  cases v with
  | int16 n | int32 n | int64 n => exact (isDigits_integer _).trans decide_eq_true_iff.symm
  | decimal d =>
    rw [literal, isDigits_signed, (isDigits_decimal _ rfl).1, isUnsigned, Bool.and_eq_true,
      Bool.not_eq_true']
  | boolean b =>
    cases hcaps : caps.booleanType <;> cases b <;>
      simp [literal, isUnsigned, hcaps, Piece.isDigits]
  | single x | double x =>
    exact iff_of_false (not_isDigits_binaryNumber _ x) Bool.false_ne_true
  | date d | dateTime dt => exact iff_of_false (not_isDigits_dated _) Bool.false_ne_true
  | time t => simp [literal, labelled, isUnsigned, Piece.isDigits]
  | uuid u =>
    cases hcaps : caps.charToUuid <;>
      simp [literal, isUnsigned, hcaps, Piece.isDigits, Piece.call, Piece.parenthesized]
  | null | string s | binary b => simp [literal, isUnsigned, Piece.isDigits]

/-- A piece that is not digits alone, in every expression but constants. -/
theorem exists_not_isDigits (caps : Capabilities) {e : Expr} (he : e.inVocabulary = true)
    (hliteral : e.literal? = none) : ∃ p ∈ e.pieces caps, p.isDigits = false := by
  cases e with
  | literal v => cases hliteral
  | column source name | allColumns source => exact ⟨.symbol ".", by simp [Expr.pieces], by decide⟩
  | parameter p => exact ⟨.parameter p, List.mem_cons_self, rfl⟩
  | keyword w =>
    have hall : ∀ w ∈ keywords, (Piece.word w).isDigits = false := by decide
    exact ⟨.word w, List.mem_cons_self, hall w (List.contains_iff_mem.mp he)⟩
  | function | trim | substring | extract | cast | position | dateAdd =>
    exact ⟨.symbol "(", by simp [Expr.pieces, Piece.call, Piece.parenthesized], by decide⟩
  | atTimeZone | existsRow | isNull => exact ⟨.space, by simp [Expr.pieces], rfl⟩
  | binary left op right =>
    by_cases hop : op = .modulo
    · exact ⟨.symbol "(", by simp [Expr.pieces, hop, Piece.call, Piece.parenthesized], by decide⟩
    · exact ⟨.space, by simp [Expr.pieces, hop], rfl⟩
  | unary op operand =>
    cases op with
    | not => exact ⟨.space, by simp [Expr.pieces], rfl⟩
    | negate => exact ⟨.symbol "-", by simp [Expr.pieces], by decide⟩
  | case whens otherwise? =>
    have hword : [Piece.word "CASE"] <:+: (Expr.case whens otherwise?).pieces caps := by
      rw [Expr.pieces]
      exact infix_intercalate (List.mem_append_left _ (List.mem_append_left _ List.mem_cons_self))
    exact ⟨.word "CASE", hword.subset List.mem_cons_self, by decide⟩

theorem ne_empty_of_isUnsigned {style : Style} {bound bound' : List Binding} {v : Value}
    {text : String} (hv : isUnsigned style.caps v = true)
    (h : style.write bound (literal style.caps v) = (.ok text, bound')) : text ≠ "" := by
  have hinteger : ∀ n : Int, 0 ≤ n → style.write bound (integer n) = (.ok text, bound') →
      text ≠ "" := by
    intro n hn h
    rw [integer, signed, if_neg (by simpa using hn)] at h
    rw [write_singleton_number h]
    exact fun hempty => Text.toList_toString_ne_nil _ (congrArg String.toList hempty)
  cases v with
  | int16 n | int32 n | int64 n => exact hinteger _ (of_decide_eq_true hv) h
  | boolean b =>
    have hcaps : style.caps.booleanType = false := by simpa [isUnsigned] using hv
    rw [literal, hcaps, if_neg Bool.false_ne_true] at h
    rw [write_singleton_number h]
    cases b <;> decide
  | decimal d =>
    rw [isUnsigned, Bool.and_eq_true, Bool.not_eq_true'] at hv
    rw [literal, signed, hv.1, if_neg Bool.false_ne_true] at h
    rw [write_singleton_number h]
    exact (isDigits_decimal _ rfl).2
  | _ => cases hv

/-- The expressions that are written as a column number are the constants that are written as a
    whole number without a sign. -/
theorem isColumnNumber_of_writes {style : Style} {e : Expr} {text : String}
    (he : e.inVocabulary = true) (h : style.Writes e text) :
    IsColumnNumber text ↔ ∃ v, e = .literal v ∧ isUnsigned style.caps v = true := by
  obtain ⟨bound, bound', hwrite⟩ := h
  rw [IsColumnNumber, forall_isDigit_write hwrite]
  constructor
  · rintro ⟨-, hdigits⟩
    cases hliteral : e.literal? with
    | none =>
      obtain ⟨p, hp, hmark⟩ := exists_not_isDigits style.caps he hliteral
      exact absurd (hdigits p hp) (Bool.eq_false_iff.mp hmark)
    | some v =>
      obtain rfl : e = .literal v := by
        cases e <;> cases hliteral
        rfl
      exact ⟨v, rfl, (isDigits_literal v).mp hdigits⟩
  · rintro ⟨v, rfl, hv⟩
    exact ⟨ne_empty_of_isUnsigned hv hwrite, (isDigits_literal v).mpr hv⟩

end Expressions

end QueryLoom.Sql

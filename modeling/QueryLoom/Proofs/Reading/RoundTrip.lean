/-
  QueryLoom/Proofs/Reading/RoundTrip.lean
  =======================================
  **Parentheses are where the reader needs them.**  `Expr.term` is an expression as it stands,
  with every operator between the operands that it has in the tree.  The text of an expression
  is read as that term, as long as no associative operator has itself on its right: there, and
  only there, the parentheses are left out and the reader groups the operators anew.

  Three things are the same to the reader.  The width of an integer is not in the text, a
  negative number is the negation of its absolute value, and the remainder is a call of MOD.

    * `reading_eq_term` — what is read is the expression as it stands;
    * `read?_of_kept` — the text exists and is read as that.
-/
import QueryLoom.Proofs.Drafting.Vocabulary
import QueryLoom.Proofs.Reading.Grouping
import QueryLoom.Proofs.Rendering.Refusal

namespace QueryLoom.Sql

open Reading (Term)

/-! ### Expressions as they stand -/

/-- A constant as it stands. -/
def constantTerm (v : Value) : Term :=
  match v.integer? with
  | some n => Reading.integerTerm n
  | none =>
    match v with
    | .string s => .string s
    | .boolean b => .truth b
    | _ => .null

mutual

/-- An expression as it stands. -/
def Expr.term : Expr → Term
  | .column source name => .column source name
  | .literal v => constantTerm v
  | .parameter p => .bound (.dynamic p)
  | .function name args => .call name (listTerms args)
  | .binary left .modulo right => .call "MOD" [left.term, right.term]
  | .binary left op right => .binary left.term op right.term
  | .unary op operand => .unary op operand.term
  | .isNull operand negated => .isNull operand.term negated
  | .case whens otherwise? => .case (whenTerms whens) (optionTerm otherwise?)
  | _ => .null

/-- An expression that may be missing, as it stands. -/
def optionTerm : Option Expr → Option Term
  | none => none
  | some e => some e.term

/-- The expressions of a list as they stand. -/
def listTerms : List Expr → List Term
  | [] => []
  | e :: rest => e.term :: listTerms rest

/-- The branches of a CASE as they stand. -/
def whenTerms : List When → List (Term × Term)
  | [] => []
  | ⟨condition, result⟩ :: rest => (condition.term, result.term) :: whenTerms rest

end

/-- Whether the text keeps what the expression is, operands aside: columns with names that the
    server can have, constants that are written as a word, a number or a string, parameters,
    calls of the functions that operations are mapped to, a CASE with a branch, tests for null,
    and operators, but no associative operator with itself on its right. -/
def Expr.isKept (caps : Capabilities) : Expr → Bool
  | .column source name => isIdentifier caps source && isIdentifier caps name
  | .literal v => Reading.readsLiteral v
  | .parameter _ => true
  | .function name _ => functionNames.contains name
  | .case whens _ => !whens.isEmpty
  | .binary _ op right => !Reading.repeats op right
  | .unary .. | .isNull .. => true
  | _ => false

/-- The text keeps the expression and all expressions in it. -/
def Expr.Kept (caps : Capabilities) (e : Expr) : Prop := ∀ x ∈ e.parts, x.isKept caps = true

instance (caps : Capabilities) : DecidablePred (Expr.Kept caps) := fun e =>
  inferInstanceAs (Decidable (∀ x ∈ e.parts, x.isKept caps = true))

theorem Expr.kept_iff {caps : Capabilities} {e : Expr} :
    e.Kept caps ↔ e.isKept caps = true ∧ ∀ o ∈ e.operands, o.Kept caps := by
  rw [Expr.Kept, parts_eq, List.forall_mem_cons]
  simp only [List.mem_flatMap, forall_exists_index, and_imp, Expr.Kept]
  exact and_congr_right fun _ => ⟨fun h o ho x hx => h x o ho hx, fun h x o ho hx => h o ho x hx⟩

namespace Reading

variable {style : Style} {e : Expr}

/-! ### What is read -/

theorem isFunctionName_of_mem : ∀ name ∈ functionNames, isFunctionName name = true := by decide

theorem readsList_iff {placeholders : Placeholders} {es : List Expr} :
    readsList placeholders es = true ↔ ∀ e ∈ es, reads placeholders e = true := by
  induction es with
  | nil => simp [readsList]
  | cons e rest ih => simp [readsList, ih]

theorem readsWhens_iff {placeholders : Placeholders} {ws : List When} :
    readsWhens placeholders ws = true ↔
      ∀ o ∈ ws.flatMap fun w => [w.condition, w.result], reads placeholders o = true := by
  induction ws with
  | nil => simp [readsWhens]
  | cons w rest ih =>
    rcases w with ⟨condition, result⟩
    rw [readsWhens, Bool.and_eq_true, Bool.and_eq_true, ih, List.flatMap_cons,
      List.forall_mem_append]
    simp

theorem readsOption_iff {placeholders : Placeholders} {e? : Option Expr} :
    readsOption placeholders e? = true ↔ ∀ e ∈ e?.toList, reads placeholders e = true := by
  cases e? <;> simp [readsOption]

/-- Expressions that the text keeps can be read back. -/
theorem reads_of_kept {caps : Capabilities} (e : Expr) :
    e.Kept caps → reads .positional e = true := by
  have hall : Inherited (fun e => e.Kept caps → reads .positional e = true) (fun _ => True) := by
    refine ⟨?_, fun _ _ _ _ _ => trivial⟩
    intro e operands _ hkept
    obtain ⟨hself, hoperands⟩ := Expr.kept_iff.mp hkept
    have hreads : ∀ o ∈ e.operands, reads .positional o = true :=
      fun o ho => operands o ho (hoperands o ho)
    cases e with
    | column | parameter => rfl
    | literal v => exact hself
    | function name args =>
      rw [reads, Bool.and_eq_true]
      exact ⟨isFunctionName_of_mem name (by simpa [Expr.isKept] using hself),
        readsList_iff.mpr hreads⟩
    | binary left op right => simpa [reads, Expr.operands] using hreads
    | unary op operand => simpa [reads, Expr.operands] using hreads
    | isNull operand negated => simpa [reads, Expr.operands] using hreads
    | case whens otherwise? =>
      obtain ⟨hwhens, hotherwise⟩ := List.forall_mem_append.mp hreads
      rw [reads, Bool.and_eq_true, Bool.and_eq_true]
      exact ⟨⟨hself, readsWhens_iff.mpr hwhens⟩, readsOption_iff.mpr hotherwise⟩
    | _ => cases hself
  exact hall.of_expr e

theorem literalTerm_eq_constantTerm {caps : Capabilities} (hcaps : caps.booleanType = true)
    {v : Value} (hv : readsLiteral v = true) : literalTerm caps v = constantTerm v := by
  cases v with
  | boolean b => exact if_pos hcaps
  | null | string | int16 | int32 | int64 => rfl
  | _ => cases hv

theorem readingList_eq_listTerms {es : List Expr} (h : ∀ e ∈ es, reading style e = e.term) :
    readingList style es = listTerms es := by
  induction es with
  | nil => rfl
  | cons e rest ih =>
    rw [readingList, listTerms, h e List.mem_cons_self,
      ih fun e he => h e (List.mem_cons_of_mem _ he)]

theorem readingOption_eq_optionTerm {e? : Option Expr}
    (h : ∀ e ∈ e?.toList, reading style e = e.term) :
    readingOption style e? = optionTerm e? := by
  cases e? with
  | none => rfl
  | some e => rw [readingOption, optionTerm, h e List.mem_cons_self]

theorem readingWhens_eq_whenTerms {ws : List When}
    (h : ∀ o ∈ ws.flatMap fun w => [w.condition, w.result], reading style o = o.term) :
    readingWhens style ws = whenTerms ws := by
  induction ws with
  | nil => rfl
  | cons w rest ih =>
    rcases w with ⟨condition, result⟩
    rw [List.flatMap_cons, List.forall_mem_append] at h
    rw [readingWhens, whenTerms, h.1 condition List.mem_cons_self,
      h.1 result (List.mem_cons_of_mem _ List.mem_cons_self), ih h.2]

/-- Where no associative operator has itself on its right, an expression is read as it
    stands. -/
theorem reading_eq_term (hcaps : style.caps.booleanType = true)
    (hstyle : style.placeholders = .positional) (e : Expr) :
    e.Kept style.caps → reading style e = e.term := by
  have hall : Inherited (fun e => e.Kept style.caps → reading style e = e.term)
      (fun _ => True) := by
    refine ⟨?_, fun _ _ _ _ _ => trivial⟩
    intro e operands _ hkept
    obtain ⟨hself, hoperands⟩ := Expr.kept_iff.mp hkept
    have hread : ∀ o ∈ e.operands, reading style o = o.term :=
      fun o ho => operands o ho (hoperands o ho)
    cases e with
    | column => rfl
    | literal v => exact literalTerm_eq_constantTerm hcaps hself
    | parameter p => simp [reading, parameterTerm, hstyle, Expr.term]
    | function name args =>
      have hargs : ∀ o ∈ args, reading style o = o.term := hread
      rw [reading, Expr.term, readingList_eq_listTerms hargs]
    | unary op operand => rw [reading, Expr.term, hread operand List.mem_cons_self]
    | isNull operand negated => rw [reading, Expr.term, hread operand List.mem_cons_self]
    | binary left op right =>
      have hleft := hread left List.mem_cons_self
      have hright := hread right (List.mem_cons_of_mem left List.mem_cons_self)
      have hrepeats : repeats op right = false := by simpa [Expr.isKept] using hself
      rw [reading, hrepeats, hleft, hright]
      cases op <;> rfl
    | case whens otherwise? =>
      obtain ⟨hwhens, hotherwise⟩ := List.forall_mem_append.mp hread
      rw [reading, Expr.term, readingWhens_eq_whenTerms hwhens,
        readingOption_eq_optionTerm hotherwise]
    | _ => cases hself
  exact hall.of_expr e

/-! ### That there is a text -/

theorem writable_literal {caps : Capabilities} {v : Value} (hv : readsLiteral v = true) :
    Writable caps (literal caps v) := by
  have hinteger : ∀ n : Int, Writable caps (integer n) := by
    intro n
    rw [integer, signed]
    split <;> simp [Piece.refusal?]
  cases v with
  | null | string => simp [literal]
  | boolean b =>
    rw [literal]
    split <;> simp [Piece.refusal?]
  | int16 n | int32 n | int64 n => exact hinteger n.toInt
  | _ => cases hv

/-- The server refuses nothing in an expression that the text keeps. -/
theorem writable_of_kept {caps : Capabilities} (e : Expr) :
    e.Kept caps → Writable caps (e.pieces caps) := by
  have hall : Inherited (fun e => e.Kept caps → Writable caps (e.pieces caps))
      (fun _ => True) := by
    refine ⟨?_, fun _ _ _ _ _ => trivial⟩
    intro e operands _ hkept
    obtain ⟨hself, hoperands⟩ := Expr.kept_iff.mp hkept
    cases hop : e.operator? with
    | some op =>
      exact (writable_of_operator hop).mpr fun o ho => operands o ho (hoperands o ho)
    | none =>
      cases e with
      | column source name =>
        rw [Expr.isKept, Bool.and_eq_true] at hself
        simpa [Expr.pieces, refusal?_name] using hself
      | literal v => exact writable_literal hself
      | parameter p => simp [Expr.pieces, Piece.refusal?]
      | allColumns | existsRow => cases hself
      | _ => cases hop
  exact hall.of_expr e

/-- On a server with truth values the positional text of an expression that the text keeps exists,
    and it is read as the expression as it stands. -/
theorem read?_of_kept (style : Style) (hcaps : style.caps.booleanType = true)
    (hstyle : style.placeholders = .positional) (e : Expr) (he : e.Kept style.caps) :
    ∃ text bindings, style.write [] (e.pieces style.caps) = (.ok text, bindings) ∧
      read? bindings text = some e.term := by
  obtain ⟨text, bindings, hwrite⟩ := (Style.exists_write_iff style []).mpr (writable_of_kept e he)
  refine ⟨text, bindings, hwrite, ?_⟩
  rw [← reading_eq_term hcaps hstyle e he]
  exact read?_of_write (by rw [hstyle]; exact reads_of_kept e he) hwrite

/-- A difference in a difference, and the remainder of a negative number. -/
def mixedTerms : Expr :=
  .binary
    (.unary .not (.isNull (.binary (.column "t" "a") .subtract
      (.binary (.parameter ⟨"p", .int32⟩) .subtract (.literal (.int16 (-3))))) false))
    .or
    (.binary (.function "UPPER" [.literal (.boolean true)])
      .equal (.unary .negate (.binary (.literal (.int64 (-7))) .modulo (.parameter ⟨"q", .int64⟩))))

theorem read?_of_kept_mixedTerms :
    (Style.mk (.ofVersion ⟨3, 0, 0, 0⟩) .positional []).write []
        (mixedTerms.pieces (.ofVersion ⟨3, 0, 0, 0⟩)) =
      (.ok "NOT \"t\".\"a\" - (? - -3) IS NULL OR UPPER(TRUE) = -MOD(-7, ?)",
        [.dynamic ⟨"p", .int32⟩, .dynamic ⟨"q", .int64⟩]) ∧
    read? [.dynamic ⟨"p", .int32⟩, .dynamic ⟨"q", .int64⟩]
      "NOT \"t\".\"a\" - (? - -3) IS NULL OR UPPER(TRUE) = -MOD(-7, ?)" =
      some mixedTerms.term := by
  have hwrite : (Style.mk (.ofVersion ⟨3, 0, 0, 0⟩) .positional []).write []
        (mixedTerms.pieces (.ofVersion ⟨3, 0, 0, 0⟩)) =
      (.ok "NOT \"t\".\"a\" - (? - -3) IS NULL OR UPPER(TRUE) = -MOD(-7, ?)",
        [.dynamic ⟨"p", .int32⟩, .dynamic ⟨"q", .int64⟩]) := by decide +kernel
  obtain ⟨text, bindings, htext, hread⟩ :=
    read?_of_kept ⟨.ofVersion ⟨3, 0, 0, 0⟩, .positional, []⟩ rfl rfl mixedTerms (by decide)
  obtain ⟨rfl, rfl⟩ : _ = text ∧ _ = bindings := by simpa using hwrite.symm.trans htext
  exact ⟨hwrite, hread⟩

end Reading

end QueryLoom.Sql

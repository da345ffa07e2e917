/-
  QueryLoom/Proofs/Reading/Grouping.lean
  ======================================
  **What the text of an expression is read as.**  Parentheses are left out where the
  precedence of the operators says as much, and also around a right operand that repeats an
  associative operator.  In the second case the reader groups the operators of that level
  differently: everything on the left spine of the right operand comes to stand on the left.
  `graft` puts an operand there, and `reading` is the expression grouped that way.

  * `Groups` says of an expression that the reader finds `reading` wherever the expression
    stands, as an operand of its own or behind an operator of its level.
  * `groups_pieces` proves it for every expression that can be read.
  * `read?_of_write` is about whole texts.
-/
import QueryLoom.Proofs.Reading.Layout
import QueryLoom.Proofs.Reading.Term
import QueryLoom.Proofs.Text.Digits

namespace QueryLoom.Sql.Reading

/-! ### Operands on the left -/

/-- The term with `t` and the operator `op` in front of everything on its level. -/
def graft (t : Term) (op : BinaryOperator) : Term → Term
  | .binary left o right =>
    if level o = level op then .binary (graft t op left) o right
    else .binary t op (.binary left o right)
  | u => .binary t op u

/-- A constant as it is read.  A negative number is the negation of its absolute value. -/
def integerTerm (n : Int) : Term :=
  if n < 0 then .unary .negate (.number n.natAbs) else .number n.natAbs

/-- What a constant is read as.  A server without truth values has one and zero. -/
def literalTerm (caps : Capabilities) : Value → Term
  | .string s => .string s
  | .boolean b => if caps.booleanType then .truth b else .number (if b then 1 else 0)
  | .int16 n => integerTerm n.toInt
  | .int32 n => integerTerm n.toInt
  | .int64 n => integerTerm n.toInt
  | _ => .null

/-- What a parameter is read as. -/
def parameterTerm (placeholders : Placeholders) (p : Parameter) : Term :=
  match placeholders with
  | .positional => .bound (.dynamic p)
  | .named => .named p.name

/-- Whether an operand behind an operator is written without parentheses although it repeats
    the operator. -/
def repeats (op : BinaryOperator) (right : Expr) : Bool := right.applies op && op.isAssociative

mutual

/-- What the text of an expression is read as. -/
def reading (style : Style) : Expr → Term
  | .column source name => .column source name
  | .literal v => literalTerm style.caps v
  | .parameter p => parameterTerm style.placeholders p
  | .function name args => .call name (readingList style args)
  | .binary left op right =>
    if op = .modulo then .call "MOD" [reading style left, reading style right]
    else if repeats op right then graft (reading style left) op (reading style right)
    else .binary (reading style left) op (reading style right)
  | .unary op operand => .unary op (reading style operand)
  | .isNull operand negated => .isNull (reading style operand) negated
  | .case whens otherwise? => .case (readingWhens style whens) (readingOption style otherwise?)
  | _ => .null

/-- What an expression that may be missing is read as. -/
def readingOption (style : Style) : Option Expr → Option Term
  | none => none
  | some e => some (reading style e)

/-- What the expressions of a list are read as. -/
def readingList (style : Style) : List Expr → List Term
  | [] => []
  | e :: rest => reading style e :: readingList style rest

/-- What the branches of a CASE are read as. -/
def readingWhens (style : Style) : List When → List (Term × Term)
  | [] => []
  | ⟨condition, result⟩ :: rest =>
    (reading style condition, reading style result) :: readingWhens style rest

end

variable {style : Style} {t u v left right : Term} {op o : BinaryOperator} {e l r : Expr}
  {least reached : Nat} {rest : List Token}

theorem level_eq_precedence (op : BinaryOperator) : level op = op.precedence := by
  cases op <;> rfl

theorem leftLevel_eq_leftLeast (op : BinaryOperator) :
    (Suffix.operator op).leftLevel = op.leftLeast := by
  cases op <;> rfl

theorem level_of_graft (h : graft t op u = .binary left o right) : level o = level op := by
  cases u with
  | binary l o' r =>
    rw [graft] at h
    split at h
    · next hlevel =>
      cases h
      exact hlevel
    · cases h
      rfl
  | _ =>
    cases h
    rfl

theorem graft_of_level_ne (h : ∀ left o right, u = .binary left o right → level o ≠ level op) :
    graft t op u = .binary t op u := by
  cases u with
  | binary l o r => rw [graft, if_neg (h l o r rfl)]
  | _ => rfl

/-- Operators of one level are put in front one after the other. -/
theorem graft_graft (h : level op = level o) :
    ∀ v, graft t o (graft u op v) = graft (graft t o u) op v
  | .binary x o' y => by
    rw [graft, graft]
    split
    · next hlevel => rw [graft, if_pos (hlevel.trans h), graft_graft h x]
    · rw [graft, if_pos h]
  | .column .. | .number _ | .string _ | .truth _ | .null | .bound _ | .named _ | .call ..
  | .case .. | .unary .. | .isNull .. => by
    simp only [graft, if_pos h]

/-- The outermost operator that is read has the precedence of the expression. -/
theorem level_of_reading (h : reading style e = .binary left o right) :
    level o = e.precedence := by
  have hinteger : ∀ n : Int, integerTerm n ≠ .binary left o right := by
    intro n hn
    rw [integerTerm] at hn
    split at hn <;> cases hn
  cases e with
  | binary l op r =>
    rw [Expr.precedence, ← level_eq_precedence]
    rw [reading] at h
    split at h
    · cases h
    split at h
    · exact level_of_graft h
    · cases h
      rfl
  | literal v =>
    cases v with
    | int16 n => exact absurd h (hinteger _)
    | int32 n => exact absurd h (hinteger _)
    | int64 n => exact absurd h (hinteger _)
    | boolean b =>
      rw [reading, literalTerm] at h
      split at h <;> cases h
    | _ => cases h
  | parameter p =>
    simp only [reading, parameterTerm] at h
    split at h <;> cases h
  | _ => simp [reading] at h

/-! ### Tokens of pieces with what is bound -/

/-- What a piece is read as once it is known what is bound to the placeholders. -/
def boundPiece (placeholders : Placeholders) : Piece → List Token
  | .parameter p =>
    match placeholders with
    | .positional => [.bound (.dynamic p)]
    | .named => [.named p.name]
  | .constant v => [.bound (.constant v)]
  | p => pieceTokens placeholders p

/-- What pieces are read as once it is known what is bound to the placeholders. -/
def boundTokens (placeholders : Placeholders) (ps : List Piece) : List Token :=
  ps.flatMap (boundPiece placeholders)

section Bound

variable {placeholders : Placeholders} {p : Piece} {ps qs sep : List Piece} {ts : List Token}

@[simp] theorem boundTokens_nil : boundTokens placeholders [] = [] := rfl

@[simp] theorem boundTokens_cons :
    boundTokens placeholders (p :: ps) =
      boundPiece placeholders p ++ boundTokens placeholders ps := rfl

@[simp] theorem boundTokens_append :
    boundTokens placeholders (ps ++ qs) =
      boundTokens placeholders ps ++ boundTokens placeholders qs := by
  simp [boundTokens]

/-- Positional placeholders are filled with what their pieces bind. -/
theorem fill_positional (bindings : List Binding) :
    fill (ps.filterMap Piece.binding? ++ bindings) (tokens .positional ps ++ ts) =
      boundTokens .positional ps ++ fill bindings ts := by
  induction ps with
  | nil => rfl
  | cons p ps ih =>
    cases p with
    | parameter q => simpa [List.filterMap_cons, Piece.binding?, pieceTokens, boundPiece, fill] using ih
    | constant v => simpa [List.filterMap_cons, Piece.binding?, pieceTokens, boundPiece, fill] using ih
    | space | refused => simpa [List.filterMap_cons, Piece.binding?, pieceTokens, boundPiece] using ih
    | _ => simpa [List.filterMap_cons, Piece.binding?, pieceTokens, boundPiece, fill] using ih

/-- Where all placeholders are named there is nothing to fill. -/
theorem fill_named {bindings : List Binding} (hps : ∀ p ∈ ps, p.isConstant = false) :
    fill bindings (tokens .named ps) = boundTokens .named ps := by
  induction ps with
  | nil => cases bindings <;> rfl
  | cons p ps ih =>
    have hrest := ih fun q hq => hps q (List.mem_cons_of_mem p hq)
    cases p with
    | constant v => exact absurd (hps _ List.mem_cons_self) Bool.noConfusion
    | space | refused => simpa [pieceTokens, boundPiece] using hrest
    | _ => cases bindings <;> simpa [pieceTokens, boundPiece, fill] using hrest

theorem boundTokens_intercalate (parts : List (List Piece)) :
    boundTokens placeholders ([Piece.space].intercalate parts) =
      parts.flatMap (boundTokens placeholders) := by
  induction parts with
  | nil => rfl
  | cons ps parts ih =>
    cases parts with
    | nil => simp
    | cons qs parts =>
      rw [List.intercalate_cons_cons, boundTokens_append, boundTokens_append, ih]
      simp [boundPiece, pieceTokens]

theorem boundTokens_operator (hop : op ≠ .modulo) :
    boundTokens placeholders op.pieces = operatorTokens op := by
  cases op with
  | modulo => exact absurd rfl hop
  | _ => rfl

end Bound

/-! ### Expressions among operators -/

/-- The tokens of pieces, as a reader with the given style meets them. -/
abbrev met (style : Style) (ps : List Piece) : List Token := boundTokens style.placeholders ps

/-- The reader finds `reading` where the expression starts an operand, and behind an operator
    whose level the expression has or exceeds. -/
structure Groups (style : Style) (e : Expr) : Prop where
  parses : ∀ {least : Nat} {rest out : List Token} {u : Term}, least ≤ e.precedence →
    suffixLevel rest ≤ e.precedence →
    Climbs least e.precedence (reading style e) rest u out →
    Parses least (met style (e.pieces style.caps) ++ rest) u out
  climbs : ∀ {least reached : Nat} {rest out : List Token} {t u : Term} {o : BinaryOperator},
    o.isAssociative → level o ≤ e.precedence → (Suffix.operator o).leftLevel ≤ reached →
    least ≤ level o → suffixLevel rest ≤ level o →
    Climbs least (level o) (graft t o (reading style e)) rest u out →
    Climbs least reached t (operatorTokens o ++ (met style (e.pieces style.caps) ++ rest)) u out

theorem one_le_precedence (e : Expr) : 1 ≤ e.precedence := by
  cases e with
  | binary l op r => cases op <;> exact Nat.le_add_left 1 _
  | unary op e => cases op <;> exact Nat.le_add_left 1 _
  | literal v =>
    rw [Expr.precedence]
    split <;> decide
  | _ => exact Nat.le_add_left 1 _

/-- An expression between parentheses is an atom. -/
theorem Groups.parses_parenthesized {out : List Token} (he : Groups style e)
    (h : Climbs least Level.atom (reading style e) rest u out) :
    Parses least (met style (Piece.parenthesized (e.pieces style.caps)) ++ rest) u out := by
  have hinside : Parses Level.or (met style (e.pieces style.caps) ++ .symbol ")" :: rest)
      (reading style e) (.symbol ")" :: rest) :=
    he.parses (one_le_precedence e) (Nat.zero_le _) (Climbs.stop Nat.zero_lt_one)
  have hhead : Heads least _ _ _ _ := Heads.parenthesized hinside (by simp; omega)
  have hparses := hhead.parses h
  simpa [Piece.parenthesized, boundPiece, pieceTokens] using hparses

/-- An operand that needs the precedence `m`, with or without parentheses. -/
theorem Groups.parses_guarded {m : Nat} {out : List Token} (he : Groups style e)
    (hm : m ≤ Level.atom) (hleast : least ≤ m) (hrest : suffixLevel rest ≤ m)
    (h : ∀ reached, m ≤ reached → Climbs least reached (reading style e) rest u out) :
    Parses least (met style (e.guarded m (e.pieces style.caps)) ++ rest) u out := by
  rw [Expr.guarded]
  split
  · exact he.parses_parenthesized (h _ hm)
  · next hguard =>
    have hprecedence : m ≤ e.precedence := Nat.not_lt.1 hguard
    exact he.parses (Nat.le_trans hleast hprecedence) (Nat.le_trans hrest hprecedence)
      (h _ hprecedence)

/-- An operand that nothing of its level follows is read to its end. -/
theorem Groups.parses_operand {m : Nat} (he : Groups style e) (hm : m ≤ Level.atom)
    (hrest : suffixLevel rest < m) :
    Parses m (met style (e.guarded m (e.pieces style.caps)) ++ rest) (reading style e) rest :=
  he.parses_guarded hm (Nat.le_refl m) (Nat.le_of_lt hrest) fun _ _ => Climbs.stop hrest

/-- What is read when `right` follows an operator behind `t`. -/
def appended (style : Style) (t : Term) (op : BinaryOperator) (right : Expr) : Term :=
  if repeats op right then graft t op (reading style right)
  else .binary t op (reading style right)

theorem level_lt_atom (hop : op ≠ .modulo) : level op < Level.atom := by
  cases op with
  | modulo => exact absurd rfl hop
  | _ => decide

/-- The right operand of an operator. -/
theorem Groups.climbs_right {out : List Token} (hr : Groups style r) (hop : op ≠ .modulo)
    (hreached : (Suffix.operator op).leftLevel ≤ reached) (hleast : least ≤ level op)
    (hrest : suffixLevel rest ≤ level op)
    (h : Climbs least (level op) (appended style t op r) rest u out) :
    Climbs least reached t (operatorTokens op ++
      (met style (r.guarded (op.rightLeast r) (r.pieces style.caps)) ++ rest)) u out := by
  rw [appended] at h
  split at h
  · next hrepeats =>
    rw [repeats, Bool.and_eq_true] at hrepeats
    have hprecedence : r.precedence = op.precedence := by
      cases r with
      | binary l o r =>
        have ho : o = op := by simpa [Expr.applies] using hrepeats.1
        rw [Expr.precedence, ho]
      | _ => cases hrepeats.1
    have hguard : r.guarded (op.rightLeast r) (r.pieces style.caps) = r.pieces style.caps := by
      have hneeded : op.rightLeast r = op.precedence := by
        rw [BinaryOperator.rightLeast, hrepeats.1, hrepeats.2]
        rfl
      rw [Expr.guarded, hneeded, hprecedence, if_neg (Nat.lt_irrefl _)]
    rw [hguard]
    have hlevel : level op = r.precedence := (level_eq_precedence op).trans hprecedence.symm
    exact hr.climbs hrepeats.2 (Nat.le_of_eq hlevel) hreached hleast hrest h
  · next hrepeats =>
    have hneeded : op.rightLeast r = level op + 1 := by
      rw [BinaryOperator.rightLeast, if_neg (by simpa [repeats] using hrepeats),
        level_eq_precedence]
    rw [hneeded]
    have hright := hr.parses_operand (level_lt_atom hop) (Nat.lt_succ_of_le hrest)
    exact Climbs.operator hop hleast hreached (by simp) hright h

/-- An operand that binds more tightly than the operator in front is read to its end. -/
theorem climbs_of_parses {out : List Token}
    (hparses : ∀ {least rest}, least ≤ e.precedence → suffixLevel rest < least →
      Parses least (met style (e.pieces style.caps) ++ rest) (reading style e) rest)
    (ho : o.isAssociative) (hlevel : level o < e.precedence)
    (hreached : (Suffix.operator o).leftLevel ≤ reached) (hleast : least ≤ level o)
    (hrest : suffixLevel rest ≤ level o)
    (h : Climbs least (level o) (graft t o (reading style e)) rest u out) :
    Climbs least reached t (operatorTokens o ++ (met style (e.pieces style.caps) ++ rest)) u
      out := by
  have hmodulo : o ≠ .modulo := by
    rintro rfl
    cases ho
  have hgraft : graft t o (reading style e) = .binary t o (reading style e) := by
    refine graft_of_level_ne ?_
    intro left o' right hreading
    rw [level_of_reading hreading]
    exact Nat.ne_of_gt hlevel
  rw [hgraft] at h
  exact Climbs.operator hmodulo hleast hreached (by simp)
    (hparses hlevel (Nat.lt_succ_of_le hrest)) h

/-- The levels without an associative operator. -/
def ungrouped : List Nat := [Level.not, Level.comparison, Level.negation, Level.atom]

theorem level_not_mem_ungrouped (ho : o.isAssociative) : level o ∉ ungrouped := by
  revert ho
  cases o <;> decide

/-- On the levels without an associative operator nothing is regrouped. -/
theorem Groups.of_parses (hlevel : e.precedence ∈ ungrouped)
    (hparses : ∀ {least : Nat} {rest out : List Token} {u : Term}, least ≤ e.precedence →
      suffixLevel rest ≤ e.precedence →
      Climbs least e.precedence (reading style e) rest u out →
      Parses least (met style (e.pieces style.caps) ++ rest) u out) : Groups style e where
  parses := hparses
  climbs := by
    intro least reached rest out t u o ho hle hreached hleast hrest h
    have hne : level o ≠ e.precedence := fun heq =>
      level_not_mem_ungrouped ho (heq ▸ hlevel)
    refine climbs_of_parses ?_ ho (Nat.lt_of_le_of_ne hle hne) hreached hleast hrest h
    intro least rest hleast hrest
    exact hparses hleast (Nat.le_trans (Nat.le_of_lt hrest) hleast) (Climbs.stop hrest)

/-- No comparison is associative. -/
theorem leftLevel_of_isAssociative (ho : o.isAssociative) (hsame : level op = level o) :
    (Suffix.operator op).leftLevel = level o := by
  rw [Suffix.leftLevel, Suffix.level, hsame]
  revert ho
  clear hsame
  cases o <;> decide

/-- An expression that is read as one head. -/
theorem Groups.of_head (hprecedence : e.precedence = Level.atom)
    (hhead : ∀ least rest, Heads least (met style (e.pieces style.caps) ++ rest)
      (reading style e) Level.atom rest) : Groups style e := by
  refine Groups.of_parses ?_ ?_
  · rw [hprecedence]
    decide
  · intro least rest out u _ _ h
    rw [hprecedence] at h
    exact (hhead least rest).parses h

/-- The left operand of an operator, with or without parentheses. -/
theorem Groups.climbs_left {out : List Token} (hl : Groups style l)
    (ho : o.isAssociative) (hsame : level op = level o)
    (hreached : (Suffix.operator o).leftLevel ≤ reached) (hleast : least ≤ level o)
    (hrest : suffixLevel rest ≤ level o)
    (h : Climbs least (level o) (graft t o (reading style l)) rest u out) :
    Climbs least reached t (operatorTokens o ++
      (met style (l.guarded op.leftLeast (l.pieces style.caps)) ++ rest)) u out := by
  have hmodulo : o ≠ .modulo := by
    rintro rfl
    cases ho
  have hneeded : op.leftLeast = level o := by
    rw [← leftLevel_eq_leftLeast, leftLevel_of_isAssociative ho hsame]
  rw [hneeded, Expr.guarded]
  split
  · next hlooser =>
    have hgraft : graft t o (reading style l) = .binary t o (reading style l) := by
      refine graft_of_level_ne ?_
      intro left o' right hreading
      rw [level_of_reading hreading]
      exact Nat.ne_of_lt hlooser
    rw [hgraft] at h
    have hleft : Parses (level o + 1)
        (met style (Piece.parenthesized (l.pieces style.caps)) ++ rest) (reading style l) rest :=
      hl.parses_parenthesized (Climbs.stop (Nat.lt_succ_of_le hrest))
    exact Climbs.operator hmodulo hleast hreached (by simp) hleft h
  · next htight => exact hl.climbs ho (Nat.not_lt.1 htight) hreached hleast hrest h

theorem graft_appended (hsame : level op = level o) :
    graft t o (appended style u op r) = appended style (graft t o u) op r := by
  rw [appended, appended]
  split
  · exact graft_graft hsame _
  · rw [graft, if_pos hsame]

theorem reading_binary (hop : op ≠ .modulo) :
    reading style (.binary l op r) = appended style (reading style l) op r := by
  rw [reading, if_neg hop, appended]

theorem met_binary (hop : op ≠ .modulo) :
    met style (Expr.pieces style.caps (.binary l op r)) ++ rest =
      met style (l.guarded op.leftLeast (l.pieces style.caps)) ++ (operatorTokens op ++
        (met style (r.guarded (op.rightLeast r) (r.pieces style.caps)) ++ rest)) := by
  rw [Expr.pieces, if_neg hop]
  simp [boundPiece, pieceTokens, boundTokens_operator hop]

theorem suffixLevel_operatorTokens_le (hop : op ≠ .modulo) :
    suffixLevel (operatorTokens op ++ rest) ≤ op.leftLeast := by
  rw [suffixLevel_operator hop]
  cases op <;> decide

theorem Groups.parses_binary {out : List Token} (hop : op ≠ .modulo) (hl : Groups style l)
    (hr : Groups style r) (hleast : least ≤ level op) (hrest : suffixLevel rest ≤ level op)
    (h : Climbs least (level op) (reading style (.binary l op r)) rest u out) :
    Parses least (met style (Expr.pieces style.caps (.binary l op r)) ++ rest) u out := by
  rw [reading_binary hop] at h
  rw [met_binary hop]
  have hneeded : level op ≤ op.leftLeast := by cases op <;> decide
  have hatom : op.leftLeast ≤ Level.atom := by cases op <;> decide
  refine hl.parses_guarded hatom (Nat.le_trans hleast hneeded)
    (suffixLevel_operatorTokens_le hop) ?_
  intro reached hreached
  rw [← leftLevel_eq_leftLeast] at hreached
  exact hr.climbs_right hop hreached hleast hrest h

/-- Two operands with an operator between them. -/
theorem Groups.binary (hop : op ≠ .modulo) (hl : Groups style l) (hr : Groups style r) :
    Groups style (.binary l op r) where
  parses := by
    intro least rest out u hleast hrest h
    rw [Expr.precedence, ← level_eq_precedence] at hleast hrest h
    exact hl.parses_binary hop hr hleast hrest h
  climbs := by
    intro least reached rest out t u o ho hlevel hreached hleast hrest h
    rw [Expr.precedence, ← level_eq_precedence] at hlevel
    rcases Nat.lt_or_eq_of_le hlevel with hlt | hsame
    · -- the operator in front binds less tightly and takes the whole expression
      refine climbs_of_parses ?_ ho ?_ hreached hleast hrest h
      · intro least rest hleast hrest
        rw [Expr.precedence, ← level_eq_precedence] at hleast
        exact hl.parses_binary hop hr hleast (Nat.le_of_lt (Nat.lt_of_lt_of_le hrest hleast))
          (Climbs.stop hrest)
      · rwa [Expr.precedence, ← level_eq_precedence]
    · -- the operator in front is of the same level and takes the left operand alone
      rw [reading_binary hop, graft_appended hsame.symm] at h
      rw [met_binary hop]
      refine hl.climbs_left ho hsame.symm hreached hleast ?_ ?_
      · exact Nat.le_of_eq ((suffixLevel_operator hop).trans hsame.symm)
      · rw [hsame] at hleast hrest h ⊢
        have hleft : (Suffix.operator op).leftLevel = level op :=
          (leftLevel_of_isAssociative ho hsame.symm).trans hsame
        exact hr.climbs_right hop (Nat.le_of_eq hleft) hleast hrest h

/-! ### All expressions that can be read -/

theorem suffixLevel_ne_not (ts : List Token) : suffixLevel ts ≠ Level.not := by
  rw [suffixLevel]
  split
  · next s _ _ =>
    cases s with
    | operator op => cases op <;> decide
    | nullTest negated => cases negated <;> decide
  · decide

/-- The remainder is never read as an operator. -/
theorem ne_modulo_of_suffix? {ts : List Token} (h : suffix? ts = some (.operator op, rest)) :
    op ≠ .modulo := by
  rintro rfl
  rw [suffix?.eq_def] at h
  split at h
  · next s ts =>
    obtain ⟨op, hop, heq⟩ := Option.map_eq_some_iff.1 h
    cases heq
    rw [symbolOperator?.eq_def] at hop
    split at hop <;> cases hop
  all_goals cases h

theorem suffixLevel_lt_negation (ts : List Token) : suffixLevel ts < Level.negation := by
  rw [suffixLevel]
  split
  · next s rest h =>
    cases s with
    | operator op =>
      have hop := ne_modulo_of_suffix? h
      revert hop
      clear h
      cases op <;> decide
    | nullTest negated => cases negated <;> decide
  · decide

theorem Groups.not (he : Groups style e) : Groups style (.unary .not e) := by
  refine Groups.of_parses (by decide : Level.not ∈ ungrouped) ?_
  intro least rest out u hleast hrest h
  have hbelow : suffixLevel rest < Level.not :=
    Nat.lt_of_le_of_ne hrest (suffixLevel_ne_not rest)
  have hoperand := he.parses_operand (m := Level.not) (by decide) hbelow
  exact (Heads.not hleast hoperand (by simp)).parses h

theorem Groups.isNull {negated : Bool} (he : Groups style e) :
    Groups style (.isNull e negated) := by
  refine Groups.of_parses (by decide : Level.comparison ∈ ungrouped) ?_
  intro least rest out u hleast hrest h
  have hmet : met style (Expr.pieces style.caps (.isNull e negated)) ++ rest =
      met style (e.guarded Precedence.concat (e.pieces style.caps)) ++
        (nullTestTokens negated ++ rest) := by
    cases negated <;> simp [Expr.pieces, Piece.phrase, boundPiece, pieceTokens, nullTestTokens]
  have hbelow : suffixLevel (nullTestTokens negated ++ rest) ≤ Precedence.concat := by
    cases negated <;> exact Nat.le_succ _
  rw [hmet]
  refine he.parses_guarded (by decide) (Nat.le_succ_of_le hleast) hbelow ?_
  intro reached hreached
  exact Climbs.nullTest hleast hreached h

/-- A negation, with its operand between parentheses where a second minus would follow. -/
theorem Groups.negate (he : Groups style e) : Groups style (.unary .negate e) := by
  refine Groups.of_parses (by decide : Level.negation ∈ ungrouped) ?_
  intro least rest out u hleast hrest h
  have hoperand : ∃ ps, Expr.pieces style.caps (.unary .negate e) = .symbol "-" :: ps ∧
      Parses Level.negation (met style ps ++ rest) (reading style e) rest := by
    rw [Expr.pieces]
    refine ⟨_, rfl, ?_⟩
    split
    · have hinside : Parses Level.or
          (met style (e.guarded Precedence.negate (e.pieces style.caps)) ++ .symbol ")" :: rest)
          (reading style e) (.symbol ")" :: rest) :=
        he.parses_guarded (by decide) (by decide) (Nat.zero_le _) fun _ _ =>
          Climbs.stop Nat.zero_lt_one
      have hhead : Heads Level.negation _ _ _ _ :=
        Heads.parenthesized hinside (by simp; omega)
      have hparses := hhead.parses (Climbs.stop (suffixLevel_lt_negation rest))
      simpa [Piece.parenthesized, boundPiece, pieceTokens] using hparses
    · exact he.parses_operand (by decide) (suffixLevel_lt_negation rest)
  obtain ⟨ps, hps, hoperand⟩ := hoperand
  rw [hps]
  exact (Heads.negate hoperand (by simp)).parses h

theorem Heads.nat (n : Nat) : Heads least
    (met style [.number (toString n)] ++ rest) (.number n) Level.atom rest := by
  refine Heads.leaf (fun fuel => ?_) (by simp)
  simp only [boundTokens_cons, boundTokens_nil, boundPiece, pieceTokens,
    Text.natOf_toString, List.append_nil, List.singleton_append, head]
  rfl

theorem Groups.integer {v : Value} {n : Int} (hpieces : Sql.literal style.caps v = integer n)
    (hterm : literalTerm style.caps v = integerTerm n) (hnegative : isNegative v = decide (n < 0)) :
    Groups style (.literal v) := by
  have hreading : reading style (.literal v) = integerTerm n := by rw [reading, hterm]
  have hmet : Expr.pieces style.caps (.literal v) = Sql.integer n := by rw [Expr.pieces, hpieces]
  by_cases hn : n < 0
  · have hprecedence : (Expr.literal v).precedence = Level.negation := by
      rw [Expr.precedence, hnegative, if_pos (decide_eq_true hn)]
      rfl
    refine Groups.of_parses (by rw [hprecedence]; decide) ?_
    intro least rest out u _ _ h
    have habsolute : Parses Level.negation (met style [.number (toString n.natAbs)] ++ rest)
        (.number n.natAbs) rest :=
      (Heads.nat n.natAbs).parses (Climbs.stop (suffixLevel_lt_negation rest))
    rw [hreading, hprecedence, integerTerm, if_pos hn] at h
    rw [hmet, Sql.integer, signed, if_pos (decide_eq_true hn)]
    exact (Heads.negate habsolute (by simp)).parses h
  · refine Groups.of_head ?_ ?_
    · rw [Expr.precedence, hnegative, if_neg (by simpa using hn)]
      rfl
    · intro least rest
      rw [hreading, hmet, Sql.integer, signed, if_neg (by simpa using hn), integerTerm, if_neg hn]
      exact Heads.nat n.natAbs

theorem Groups.literal {v : Value} (hv : readsLiteral v) : Groups style (.literal v) := by
  cases v with
  | int16 n => exact Groups.integer (n := n.toInt) rfl rfl rfl
  | int32 n => exact Groups.integer (n := n.toInt) rfl rfl rfl
  | int64 n => exact Groups.integer (n := n.toInt) rfl rfl rfl
  | null => exact Groups.of_head rfl fun _ _ => Heads.word (by decide) (by decide) rfl
  | string t =>
    refine Groups.of_head rfl fun least rest => Heads.leaf (fun fuel => ?_) ?_
    · simp [Expr.pieces, Sql.literal, boundPiece, pieceTokens, head, reading, literalTerm]
    · simp
  | boolean b =>
    refine Groups.of_head rfl fun least rest => ?_
    rw [Expr.pieces, Sql.literal, reading, literalTerm]
    split
    · cases b <;> exact Heads.word (by decide) (by decide) rfl
    · cases b
      · exact Heads.nat 0
      · exact Heads.nat 1
  | _ => cases hv

/-- A function has none of the words as its name that expressions start with. -/
theorem wordTerm?_of_isFunctionName {w : String} (hw : isFunctionName w) :
    w ≠ "NOT" ∧ w ≠ "CASE" ∧ wordTerm? w = none := by
  simp only [isFunctionName, reserved, Bool.and_eq_true, Bool.not_eq_true', List.contains_eq_mem,
    decide_eq_false_iff_not, List.mem_cons, List.not_mem_nil, or_false, not_or] at hw
  obtain ⟨-, hnot, hcase, hnull, htrue, hfalse⟩ := hw
  refine ⟨hnot, hcase, ?_⟩
  rw [wordTerm?.eq_def]
  split <;> first | contradiction | rfl

theorem met_call {name : String} {args : List Piece} :
    met style (Piece.call name args) ++ rest =
      .word name :: .symbol "(" :: (met style args ++ .symbol ")" :: rest) := by
  simp [Piece.call, Piece.parenthesized, boundPiece, pieceTokens]

/-- Arguments with commas between them, up to the closing parenthesis. -/
theorem arguments_listed {es : List Expr} (hes : ∀ e ∈ es, Groups style e) (hne : es ≠ []) :
    Arguments (met style (Piece.listed (listPieces style.caps es)) ++ .symbol ")" :: rest)
      (readingList style es) rest := by
  induction es with
  | nil => exact absurd rfl hne
  | cons e es ih =>
    have he := hes e List.mem_cons_self
    cases es with
    | nil =>
      refine Arguments.last ?_
      rw [listPieces, listPieces, Piece.listed, List.intercalate_singleton]
      exact he.parses (one_le_precedence e) (Nat.zero_le _) (Climbs.stop Nat.zero_lt_one)
    | cons e' es =>
      have hrest := ih (fun e he => hes e (List.mem_cons_of_mem _ he)) (List.cons_ne_nil e' es)
      have hmet : met style (Piece.listed (listPieces style.caps (e :: e' :: es))) ++
          .symbol ")" :: rest = met style (e.pieces style.caps) ++ .symbol "," ::
            (met style (Piece.listed (listPieces style.caps (e' :: es))) ++
              .symbol ")" :: rest) := by
        simp [listPieces, Piece.listed, boundPiece, pieceTokens]
      rw [hmet]
      refine Arguments.cons ?_ (by simp; omega) hrest
      exact he.parses (one_le_precedence e) (Nat.zero_le _) (Climbs.stop Nat.zero_lt_one)

theorem Groups.function {name : String} {args : List Expr} (hname : isFunctionName name)
    (hargs : ∀ e ∈ args, Groups style e) : Groups style (.function name args) := by
  obtain ⟨hnot, hcase, hterm⟩ := wordTerm?_of_isFunctionName hname
  refine Groups.of_head rfl fun least rest => ?_
  rw [Expr.pieces, met_call]
  cases args with
  | nil => exact Heads.callEmpty hnot hcase hterm
  | cons e es =>
    exact Heads.call hnot hcase hterm (arguments_listed hargs (List.cons_ne_nil e es))
      (by simp; omega)

theorem Groups.modulo (hl : Groups style l) (hr : Groups style r) :
    Groups style (.binary l .modulo r) := by
  have hname : isFunctionName "MOD" := by decide
  have hcall : Groups style (.function "MOD" [l, r]) := Groups.function hname (by simp [hl, hr])
  exact ⟨hcall.parses, hcall.climbs⟩

/-- The branches of a CASE, in front of the word that ends them. -/
theorem branches_whensPieces {whens : List When} {rest : List Token}
    (hwhens : ∀ w ∈ whens, Groups style w.condition ∧ Groups style w.result)
    (hrest : suffixLevel rest = 0) (hhead : rest.head? ≠ some (.word "WHEN")) :
    Branches ((whensPieces style.caps whens).flatMap (met style) ++ rest)
      (readingWhens style whens) rest := by
  induction whens with
  | nil => exact Branches.nil hhead
  | cons w whens ih =>
    obtain ⟨condition, result⟩ := w
    obtain ⟨hcondition, hresult⟩ := hwhens _ List.mem_cons_self
    have htail := ih fun w hw => hwhens w (List.mem_cons_of_mem _ hw)
    have hafter : suffixLevel ((whensPieces style.caps whens).flatMap (met style) ++ rest) = 0 := by
      cases whens with
      | nil => exact hrest
      | cons w whens =>
        cases w
        rfl
    have hmet : (whensPieces style.caps (⟨condition, result⟩ :: whens)).flatMap (met style) ++ rest =
        .word "WHEN" :: (met style (condition.pieces style.caps) ++ .word "THEN" ::
          (met style (result.pieces style.caps) ++
            ((whensPieces style.caps whens).flatMap (met style) ++ rest))) := by
      simp [whensPieces, between, boundPiece, pieceTokens]
    rw [hmet]
    have hthen : Parses Level.or _ _ (.word "THEN" :: (met style (result.pieces style.caps) ++
        ((whensPieces style.caps whens).flatMap (met style) ++ rest))) :=
      hcondition.parses (one_le_precedence _) (Nat.zero_le _) (Climbs.stop Nat.zero_lt_one)
    refine Branches.cons hthen (by simp; omega) ?_ (by simp) htail
    refine hresult.parses (one_le_precedence _) ?_ (Climbs.stop ?_)
    · rw [hafter]
      exact Nat.zero_le _
    · rw [hafter]
      exact Nat.zero_lt_one

theorem readingWhens_ne_nil {whens : List When} (hne : whens ≠ []) :
    readingWhens style whens ≠ [] := by
  cases whens with
  | nil => exact absurd rfl hne
  | cons w whens =>
    cases w
    exact List.cons_ne_nil _ _

theorem Groups.case {whens : List When} {otherwise? : Option Expr} (hne : whens ≠ [])
    (hwhens : ∀ w ∈ whens, Groups style w.condition ∧ Groups style w.result)
    (hotherwise : ∀ e ∈ otherwise?, Groups style e) : Groups style (.case whens otherwise?) := by
  refine Groups.of_head rfl fun least rest => ?_
  rw [Expr.pieces, met, boundTokens_intercalate]
  cases otherwise? with
  | none =>
    have hbranches : Branches _ _ (.word "END" :: rest) :=
      branches_whensPieces hwhens rfl (by simp)
    have hhead : Heads least _ _ _ _ :=
      Heads.case (readingWhens_ne_nil hne) hbranches (by simp; omega)
    simpa [optionPieces, boundPiece, pieceTokens, reading, readingOption] using hhead
  | some e =>
    have hbranches : Branches _ _
        (.word "ELSE" :: (met style (e.pieces style.caps) ++ .word "END" :: rest)) :=
      branches_whensPieces hwhens rfl (by simp)
    have he : Parses Level.or (met style (e.pieces style.caps) ++ .word "END" :: rest)
        (reading style e) (.word "END" :: rest) :=
      (hotherwise e rfl).parses (one_le_precedence e) (Nat.zero_le _) (Climbs.stop Nat.zero_lt_one)
    have hhead : Heads least _ _ _ _ :=
      Heads.caseElse (readingWhens_ne_nil hne) hbranches (by simp; omega) he (by simp; omega)
    simpa [optionPieces, boundPiece, pieceTokens, reading, readingOption] using hhead

theorem Groups.column {source name : String} : Groups style (.column source name) := by
  refine Groups.of_head rfl fun least rest => Heads.leaf (fun fuel => ?_) (by simp)
  simp [Expr.pieces, boundPiece, pieceTokens, head, reading]

theorem Groups.parameter {p : Parameter} : Groups style (.parameter p) := by
  refine Groups.of_head rfl fun least rest => Heads.leaf (fun fuel => ?_) (by simp)
  cases hstyle : style.placeholders with
  | positional => simp [Expr.pieces, boundPiece, hstyle, head, reading, parameterTerm]
  | named => simp [Expr.pieces, boundPiece, hstyle, head, reading, parameterTerm]

variable {placeholders : Placeholders}

mutual

/-- Every expression that can be read is found where it stands. -/
theorem groups_pieces (style : Style) : ∀ e : Expr, reads placeholders e → Groups style e
  | .column .., _ => Groups.column
  | .literal v, h => Groups.literal h
  | .parameter p, _ => Groups.parameter
  | .function name args, h => by
    rw [reads, Bool.and_eq_true] at h
    exact Groups.function h.1 (groups_list style args h.2)
  | .binary left op right, h => by
    rw [reads, Bool.and_eq_true] at h
    have hleft := groups_pieces style left h.1
    have hright := groups_pieces style right h.2
    by_cases hop : op = .modulo
    · rw [hop]
      exact Groups.modulo hleft hright
    · exact Groups.binary hop hleft hright
  | .unary .not operand, h => (groups_pieces style operand h).not
  | .unary .negate operand, h => (groups_pieces style operand h).negate
  | .isNull operand negated, h => (groups_pieces style operand h).isNull
  | .case whens otherwise?, h => by
    rw [reads, Bool.and_eq_true, Bool.and_eq_true, Bool.not_eq_true', List.isEmpty_eq_false_iff] at h
    exact Groups.case h.1.1 (groups_whens style whens h.1.2) (groups_option style otherwise? h.2)

theorem groups_option (style : Style) : ∀ e? : Option Expr, readsOption placeholders e? →
    ∀ e ∈ e?, Groups style e
  | none, _ => fun _ he => nomatch he
  | some e, h => by
    have hgroups := groups_pieces style e h
    intro e' he
    obtain rfl : e = e' := Option.some.inj he
    exact hgroups

theorem groups_list (style : Style) : ∀ es : List Expr, readsList placeholders es →
    ∀ e ∈ es, Groups style e
  | [], _ => fun _ he => absurd he List.not_mem_nil
  | e :: es, h => by
    rw [readsList, Bool.and_eq_true] at h
    have hfirst := groups_pieces style e h.1
    have hrest := groups_list style es h.2
    intro e' he
    rcases List.mem_cons.1 he with rfl | he
    · exact hfirst
    · exact hrest e' he

theorem groups_whens (style : Style) : ∀ whens : List When, readsWhens placeholders whens →
    ∀ w ∈ whens, Groups style w.condition ∧ Groups style w.result
  | [], _ => fun _ hw => absurd hw List.not_mem_nil
  | ⟨condition, result⟩ :: whens, h => by
    rw [readsWhens, Bool.and_eq_true, Bool.and_eq_true] at h
    have hcondition := groups_pieces style condition h.1.1
    have hresult := groups_pieces style result h.1.2
    have hrest := groups_whens style whens h.2
    intro w hw
    rcases List.mem_cons.1 hw with rfl | hw
    · exact ⟨hcondition, hresult⟩
    · exact hrest w hw

end

theorem parses_pieces (h : reads placeholders e) :
    Parses Level.or (met style (e.pieces style.caps)) (reading style e) [] := by
  have hparses : Parses Level.or (met style (e.pieces style.caps) ++ []) (reading style e) [] :=
    (groups_pieces style e h).parses (one_le_precedence e) (Nat.zero_le _)
      (Climbs.stop Nat.zero_lt_one)
  rwa [List.append_nil] at hparses

/-- The tokens of an expression's text, with what is bound in the place of placeholders. -/
theorem fill_lex_of_write {bindings : List Binding} {text : String}
    (h : reads style.placeholders e)
    (hwrite : style.write [] (e.pieces style.caps) = (.ok text, bindings)) :
    fill bindings (lex .blank text.toList) = met style (e.pieces style.caps) := by
  have hlegible := legible_pieces h
  have hconstant : ∀ p ∈ e.pieces style.caps, p.isConstant = false := by
    intro p hp
    have hread := hlegible.reads p hp
    cases p with
    | constant v => cases hread
    | _ => rfl
  have hlaid := hlegible.laid [] trivial
  rw [Laid, List.append_nil, lex, Lexing.pending, List.append_nil, spelled,
    ← Style.spelled_of_write hwrite (.inr hconstant)] at hlaid
  rw [hlaid]
  cases hstyle : style.placeholders with
  | positional =>
    have hfill : fill (_ ++ []) (tokens .positional (e.pieces style.caps) ++ []) = _ :=
      fill_positional []
    rw [List.append_nil, List.append_nil, fill, List.append_nil] at hfill
    rw [Style.bindings_of_write hstyle hwrite, List.nil_append, met, hstyle, hfill]
  | named => rw [fill_named hconstant, met, hstyle]

/-- The whole text of an expression is read as the expression, grouped the way its text says. -/
theorem read?_of_write {bindings : List Binding} {text : String} (h : reads style.placeholders e)
    (hwrite : style.write [] (e.pieces style.caps) = (.ok text, bindings)) :
    read? bindings text = some (reading style e) := by
  rw [read?, fill_lex_of_write h hwrite]
  rw [parses_pieces h _ (Nat.le_refl _)]

end QueryLoom.Sql.Reading

/-
  QueryLoom/Proofs/Reading/Layout.lean
  ====================================
  **The pieces of an expression are read one by one.**  Between two pieces of an expression
  there is always something that ends the first one: a space, a comma, a parenthesis or a dot,
  except after the minus of a negation, and there the renderer sees to it that no second minus
  follows.

  The expressions are the ones that a reader can tell apart from their text: columns,
  integers, strings, truth values, the null, parameters, calls, CASE and the operators.
  `legible_pieces` says it for all of them.
-/
import QueryLoom.Proofs.Reading.Token

namespace QueryLoom.Sql.Reading

/-! ### Expressions that can be read -/

/-- The constants that are written as a word, a number or a string. -/
def readsLiteral : Value → Bool
  | .null | .string _ | .boolean _ | .int16 _ | .int32 _ | .int64 _ => true
  | _ => false

/-- The words that an expression can start with and that no function is called. -/
def reserved : List String := ["NOT", "CASE", "NULL", "TRUE", "FALSE"]

/-- Whether a name can stand in front of the arguments of a call. -/
def isFunctionName (w : String) : Bool := isWord w && !reserved.contains w

mutual

/-- Whether an expression can be read back from its text.  A named placeholder has to be a
    single word. -/
def reads (placeholders : Placeholders) : Expr → Bool
  | .column .. => true
  | .literal v => readsLiteral v
  | .parameter p => readsPiece placeholders (.parameter p)
  | .function name args => isFunctionName name && readsList placeholders args
  | .binary left _ right => reads placeholders left && reads placeholders right
  | .unary _ operand => reads placeholders operand
  | .isNull operand _ => reads placeholders operand
  | .case whens otherwise? =>
    !whens.isEmpty && readsWhens placeholders whens && readsOption placeholders otherwise?
  | _ => false

/-- Whether an expression that may be missing can be read back. -/
def readsOption (placeholders : Placeholders) : Option Expr → Bool
  | none => true
  | some e => reads placeholders e

/-- Whether the expressions of a list can be read back. -/
def readsList (placeholders : Placeholders) : List Expr → Bool
  | [] => true
  | e :: rest => reads placeholders e && readsList placeholders rest

/-- Whether the branches of a CASE can be read back. -/
def readsWhens (placeholders : Placeholders) : List When → Bool
  | [] => true
  | ⟨condition, result⟩ :: rest =>
    reads placeholders condition && reads placeholders result && readsWhens placeholders rest

end

/-! ### Pieces in front of a boundary -/

/-- Pieces that are read as their tokens wherever a boundary follows them. -/
structure Legible (style : Style) (ps : List Piece) : Prop where
  reads : ∀ p ∈ ps, readsPiece style.placeholders p
  laid : ∀ rest, Boundary rest → Laid style ps rest

variable {style : Style} {p : Piece} {ps qs sep : List Piece} {rest : List Char} {w : String}

theorem Legible.piece (hp : readsPiece style.placeholders p) : Legible style [p] where
  reads q hq := by
    rw [List.mem_singleton.1 hq]
    exact hp
  laid _ hrest := laid_piece hp hrest

theorem Legible.word (hw : isWord w) : Legible style [.word w] := Legible.piece hw

theorem Legible.symbol {t : String} (ht : t ∈ symbols) : Legible style [.symbol t] :=
  Legible.piece (List.contains_iff_mem.2 ht)

theorem Legible.append (hps : Legible style ps) (hqs : Legible style qs)
    (hbetween : ∀ rest, Boundary rest → Boundary (spelled style qs ++ rest)) :
    Legible style (ps ++ qs) where
  reads p hp := (List.mem_append.1 hp).elim (hps.reads p) (hqs.reads p)
  laid rest hrest := (hps.laid _ (hbetween rest hrest)).append (hqs.laid rest hrest)

/-- A symbol that nothing extends needs no boundary after it. -/
theorem Legible.free {a : Char} (ha : a ∈ ['+', '*', '=', '(', ')', ',', '.'])
    (hps : Legible style ps) : Legible style (.symbol (String.ofList [a]) :: ps) where
  reads p hp := by
    rcases List.mem_cons.1 hp with rfl | hp
    · have hsymbols : ∀ a ∈ ['+', '*', '=', '(', ')', ',', '.'],
          String.ofList [a] ∈ symbols := List.all_iff_forall_prop.mp (by decide)
      exact List.contains_iff_mem.2 (hsymbols a ha)
    · exact hps.reads p hp
  laid rest hrest := Laid.cons (laid_free ha) (hps.laid rest hrest)

theorem Legible.space (hps : Legible style ps) : Legible style (.space :: ps) where
  reads p hp := by
    rcases List.mem_cons.1 hp with rfl | hp
    · rfl
    · exact hps.reads p hp
  laid rest hrest := Laid.cons laid_space (hps.laid rest hrest)

theorem Legible.spaced (hps : Legible style ps) (hqs : Legible style qs) :
    Legible style (ps ++ .space :: qs) :=
  hps.append hqs.space fun _ _ => List.mem_cons_self

theorem Legible.parenthesized (hps : Legible style ps) :
    Legible style (Piece.parenthesized ps) := by
  have hclose : Legible style (ps ++ [.symbol ")"]) :=
    hps.append (Legible.symbol (by decide)) fun _ _ => (by decide : ')' ∈ boundaries)
  exact hclose.free (a := '(') (by decide)

theorem Legible.guarded {least : Precedence} {e : Expr} (hps : Legible style ps) :
    Legible style (e.guarded least ps) := by
  rw [Expr.guarded]
  split
  · exact hps.parenthesized
  · exact hps

theorem Legible.between (hps : Legible style ps) (hw : isWord w) (hqs : Legible style qs) :
    Legible style (ps ++ between w ++ qs) := by
  have hspaced := hps.spaced ((Legible.word hw).spaced hqs)
  rwa [Sql.between, List.append_assoc]

theorem Legible.phrase {ws : List String} (hws : ∀ w ∈ ws, isWord w) :
    Legible style (Piece.phrase ws) := by
  induction ws with
  | nil => exact ⟨by simp [Piece.phrase], fun _ _ => Laid.nil⟩
  | cons w ws ih =>
    have hw : isWord w := hws w List.mem_cons_self
    have hrest := ih fun v hv => hws v (List.mem_cons_of_mem w hv)
    cases ws with
    | nil => exact Legible.word hw
    | cons v ws => exact (Legible.word hw).spaced hrest

/-- Parts with a separator between them that starts with a boundary. -/
theorem Legible.intercalate {parts : List (List Piece)}
    (hsep : ∀ {qs}, Legible style qs → Legible style (sep ++ qs))
    (hbetween : ∀ rest, Boundary (spelled style sep ++ rest))
    (hparts : ∀ ps ∈ parts, Legible style ps) : Legible style (sep.intercalate parts) := by
  induction parts with
  | nil => exact ⟨fun _ hp => absurd hp List.not_mem_nil, fun _ _ => Laid.nil⟩
  | cons ps parts ih =>
    have hps := hparts ps List.mem_cons_self
    have hrest := ih fun qs hqs => hparts qs (List.mem_cons_of_mem ps hqs)
    cases parts with
    | nil => rwa [List.intercalate_singleton]
    | cons qs parts =>
      rw [List.intercalate_cons_cons, List.append_assoc]
      refine hps.append (hsep hrest) fun rest _ => ?_
      rw [spelled_append, List.append_assoc]
      exact hbetween _

theorem Legible.listed {parts : List (List Piece)} (hparts : ∀ ps ∈ parts, Legible style ps) :
    Legible style (Piece.listed parts) :=
  Legible.intercalate (fun hqs => hqs.space.free (a := ',') (by decide))
    (fun _ => (by decide : ',' ∈ boundaries)) hparts

theorem Legible.call {name : String} {args : List Piece} (hname : isWord name)
    (hargs : Legible style args) : Legible style (Piece.call name args) :=
  (Legible.word hname).append hargs.parenthesized fun _ _ => (by decide : '(' ∈ boundaries)

/-! ### Constants -/

theorem Legible.nat (n : Nat) : Legible style [.number (toString n)] := by
  have hdigits : ∀ c ∈ Nat.toDigits 10 n, c.isDigit := fun c hc =>
    Nat.isDigit_of_mem_toDigits (by decide) (by decide) hc
  refine Legible.piece ?_
  simpa [readsPiece, Nat.toString_eq_ofList_toDigits, String.toList_ofList] using hdigits

/-- A piece that can be read starts with a minus only if it is one. -/
theorem exists_spelling_cons (hp : readsPiece style.placeholders p) (hspace : p ≠ .space) :
    ∃ c cs, style.spelling p = c :: cs ∧ (c = '-' → p = .symbol "-") := by
  cases p with
  | word w =>
    cases hcs : w.toList with
    | nil => simp [readsPiece, isWord, hcs] at hp
    | cons c cs =>
      simp only [readsPiece, isWord, hcs, Bool.and_eq_true] at hp
      refine ⟨c, cs, hcs, ?_⟩
      rintro rfl
      exact absurd hp.1 (by decide)
  | symbol t =>
    have hall : ∀ t ∈ symbols, t.toList ≠ [] ∧ (t.toList.head? = some '-' → t = "-") :=
      List.all_iff_forall_prop.mp (by decide)
    obtain ⟨hne, hminus⟩ := hall t (by simpa [readsPiece] using hp)
    obtain ⟨c, cs, hcs⟩ := List.exists_cons_of_ne_nil hne
    refine ⟨c, cs, hcs, ?_⟩
    rintro rfl
    rw [hminus (by rw [hcs]; rfl)]
  | number ds =>
    cases hcs : ds.toList with
    | nil => simp [readsPiece, hcs] at hp
    | cons c cs =>
      simp only [readsPiece, hcs, Bool.and_eq_true, List.all_cons] at hp
      refine ⟨c, cs, hcs, ?_⟩
      rintro rfl
      exact absurd hp.2.1 (by decide)
  | space => exact absurd rfl hspace
  | name id =>
    refine ⟨'"', _, by rw [Style.spelling, Text.quoted, String.toList_ofList], ?_⟩
    exact fun h => absurd h (by decide)
  | string t =>
    refine ⟨'\'', _, by rw [Style.spelling, Text.quoted, String.toList_ofList], ?_⟩
    exact fun h => absurd h (by decide)
  | parameter q =>
    cases hstyle : style.placeholders with
    | positional =>
      exact ⟨'?', [], by simp [Style.spelling, hstyle], fun h => absurd h (by decide)⟩
    | named =>
      exact ⟨'@', q.name.toList, by simp [Style.spelling, hstyle], fun h => absurd h (by decide)⟩
  | constant | refused => cases hp

/-- A minus in front of pieces that do not start with one. -/
theorem Legible.minus (hps : Legible style (p :: ps)) (hspace : p ≠ .space)
    (hminus : p ≠ .symbol "-") : Legible style (.symbol "-" :: p :: ps) where
  reads q hq := by
    rcases List.mem_cons.1 hq with rfl | hq
    · exact List.contains_iff_mem.2 (by decide)
    · exact hps.reads q hq
  laid rest hrest := by
    obtain ⟨c, cs, hcs, hc⟩ := exists_spelling_cons (hps.reads p List.mem_cons_self) hspace
    refine Laid.cons (laid_minus ?_) (hps.laid rest hrest)
    rw [spelled_cons, hcs]
    intro hhead
    exact hminus (hc (Option.some.inj hhead))

theorem Legible.negated (hps : Legible style (p :: ps)) (hspace : p ≠ .space) :
    Legible style (.symbol "-" :: if Piece.startWithMinus (p :: ps)
      then Piece.parenthesized (p :: ps) else p :: ps) := by
  split
  · exact hps.parenthesized.minus (by decide) (by decide)
  · next hstart =>
    refine hps.minus hspace ?_
    rintro rfl
    exact hstart rfl

theorem Legible.integer (n : Int) : Legible style (integer n) := by
  rw [Sql.integer, signed]
  split
  · exact (Legible.nat n.natAbs).minus (by simp) (by simp)
  · exact Legible.nat n.natAbs

theorem Legible.literal {caps : Capabilities} {v : Value} (hv : readsLiteral v) :
    Legible style (literal caps v) := by
  cases v with
  | null => exact Legible.word (by decide)
  | string t => exact Legible.piece rfl
  | boolean b =>
    rw [Sql.literal]
    split
    · cases b <;> exact Legible.word (by decide)
    · cases b
      · exact Legible.nat 0
      · exact Legible.nat 1
  | int16 n => exact Legible.integer n.toInt
  | int32 n => exact Legible.integer n.toInt
  | int64 n => exact Legible.integer n.toInt
  | _ => cases hv

/-! ### Expressions in front of a boundary -/

variable {caps : Capabilities} {placeholders : Placeholders}

theorem exists_literal_cons {v : Value} (hv : readsLiteral v) :
    ∃ p ps, literal caps v = p :: ps ∧ p ≠ .space := by
  have hinteger : ∀ n : Int, ∃ p ps, integer n = p :: ps ∧ p ≠ .space := by
    intro n
    rw [integer, signed]
    split
    · exact ⟨_, _, rfl, by simp⟩
    · exact ⟨_, _, rfl, by simp⟩
  cases v with
  | null | string => exact ⟨_, _, rfl, by simp⟩
  | boolean b =>
    rw [literal]
    split
    · exact ⟨_, _, rfl, by simp⟩
    · exact ⟨_, _, rfl, by simp⟩
  | int16 n => exact hinteger n.toInt
  | int32 n => exact hinteger n.toInt
  | int64 n => exact hinteger n.toInt
  | _ => cases hv

theorem exists_guarded_cons (least : Precedence) (e : Expr)
    (h : ∃ p ps', ps = p :: ps' ∧ p ≠ .space) :
    ∃ p ps', e.guarded least ps = p :: ps' ∧ p ≠ .space := by
  rw [Expr.guarded]
  split
  · exact ⟨_, _, rfl, by simp⟩
  · exact h

/-- The pieces of an expression start with one that is not a space. -/
theorem exists_pieces_cons : ∀ {e : Expr}, reads placeholders e →
    ∃ p ps, e.pieces caps = p :: ps ∧ p ≠ .space
  | .column .., _ | .parameter _, _ | .function .., _ => ⟨_, _, rfl, by simp⟩
  | .literal v, h => exists_literal_cons h
  | .binary left op right, h => by
    rw [reads, Bool.and_eq_true] at h
    rw [Expr.pieces]
    split
    · exact ⟨_, _, rfl, by simp⟩
    · obtain ⟨p, ps, hps, hp⟩ :=
        exists_guarded_cons op.leftLeast left (exists_pieces_cons (e := left) h.1)
      rw [hps]
      exact ⟨_, _, rfl, hp⟩
  | .unary .not _, _ | .unary .negate _, _ => ⟨_, _, rfl, by simp⟩
  | .isNull operand negated, h => by
    obtain ⟨p, ps, hps, hp⟩ :=
      exists_guarded_cons Precedence.concat operand (exists_pieces_cons (e := operand) h)
    rw [Expr.pieces, hps]
    exact ⟨_, _, rfl, hp⟩
  | .case whens otherwise?, _ => by
    rw [Expr.pieces, List.cons_append, List.cons_append, List.intercalate_cons_cons_left]
    exact ⟨_, _, rfl, by simp⟩

theorem legible_operator {op : BinaryOperator} (h : op ≠ .modulo) : Legible style op.pieces := by
  cases op with
  | modulo => exact absurd rfl h
  | startingWith => exact Legible.phrase (by decide)
  | and | or => exact Legible.word (by decide)
  | _ => exact Legible.symbol (by decide)

mutual

/-- In front of a boundary an expression is read piece by piece. -/
theorem legible_pieces : ∀ {e : Expr}, reads style.placeholders e →
    Legible style (e.pieces style.caps)
  | .column source name, _ => by
    have hname : Legible style [.name name] := Legible.piece rfl
    have hsource : Legible style [.name source] := Legible.piece rfl
    exact hsource.append (hname.free (a := '.') (by decide)) fun _ _ =>
      (by decide : '.' ∈ boundaries)
  | .literal v, h => Legible.literal h
  | .parameter p, h => Legible.piece h
  | .function name args, h => by
    rw [reads, isFunctionName, Bool.and_eq_true, Bool.and_eq_true] at h
    exact Legible.call h.1.1 (Legible.listed (legible_listPieces h.2))
  | .binary left op right, h => by
    rw [reads, Bool.and_eq_true] at h
    have hleft := legible_pieces h.1
    have hright := legible_pieces h.2
    rw [Expr.pieces]
    split
    · exact Legible.call (by decide) (Legible.listed (by simp [hleft, hright]))
    · next hop => exact (hleft.guarded.spaced (legible_operator hop)).spaced hright.guarded
  | .unary .not operand, h => by
    have hoperand := legible_pieces (e := operand) h
    exact (Legible.word (w := "NOT") (by decide)).spaced hoperand.guarded
  | .unary .negate operand, h => by
    have hoperand : Legible style
        (operand.guarded Precedence.negate (operand.pieces style.caps)) :=
      (legible_pieces (e := operand) h).guarded
    obtain ⟨p, ps, hps, hp⟩ :=
      exists_guarded_cons Precedence.negate operand (exists_pieces_cons (e := operand) h)
    rw [Expr.pieces]
    rw [hps] at hoperand ⊢
    exact hoperand.negated hp
  | .isNull operand negated, h => by
    have hoperand := legible_pieces (e := operand) h
    rw [Expr.pieces]
    refine hoperand.guarded.spaced (Legible.phrase ?_)
    cases negated <;> decide
  | .case whens otherwise?, h => by
    rw [reads, Bool.and_eq_true, Bool.and_eq_true] at h
    have hotherwise := legible_optionPieces h.2
    refine Legible.intercalate Legible.space (fun _ => (by decide : ' ' ∈ boundaries)) ?_
    intro ps hps
    rcases List.mem_append.1 hps with hps | hps
    · rcases List.mem_append.1 hps with hps | hps
      · rcases List.mem_cons.1 hps with rfl | hps
        · exact Legible.word (by decide)
        · exact legible_whensPieces h.1.2 ps hps
      · obtain ⟨qs, hqs, rfl⟩ := List.mem_map.1 hps
        exact (Legible.word (w := "ELSE") (by decide)).spaced (hotherwise qs hqs)
    · rw [List.mem_singleton.1 hps]
      exact Legible.word (by decide)

/-- The expressions of a list are read piece by piece. -/
theorem legible_listPieces : ∀ {es : List Expr}, readsList style.placeholders es →
    ∀ ps ∈ listPieces style.caps es, Legible style ps
  | [], _ => fun _ hps => absurd hps List.not_mem_nil
  | e :: es, h => by
    rw [readsList, Bool.and_eq_true] at h
    intro ps hps
    rcases List.mem_cons.1 hps with rfl | hps
    · exact legible_pieces h.1
    · exact legible_listPieces h.2 ps hps

theorem legible_optionPieces : ∀ {e? : Option Expr}, readsOption style.placeholders e? →
    ∀ ps ∈ optionPieces style.caps e?, Legible style ps
  | none, _ => fun _ hps => absurd hps List.not_mem_nil
  | some e, h => by
    intro ps hps
    rw [List.mem_singleton.1 hps]
    exact legible_pieces (e := e) h

theorem legible_whensPieces : ∀ {whens : List When}, readsWhens style.placeholders whens →
    ∀ ps ∈ whensPieces style.caps whens, Legible style ps
  | [], _ => fun _ hps => absurd hps List.not_mem_nil
  | ⟨condition, result⟩ :: whens, h => by
    rw [readsWhens, Bool.and_eq_true, Bool.and_eq_true] at h
    have hcondition := (Legible.word (w := "WHEN") (by decide)).spaced (legible_pieces h.1.1)
    intro ps hps
    rcases List.mem_cons.1 hps with rfl | hps
    · exact hcondition.between (by decide) (legible_pieces h.1.2)
    · exact legible_whensPieces h.2 ps hps

end

end QueryLoom.Sql.Reading

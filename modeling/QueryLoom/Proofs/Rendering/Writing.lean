/-
  QueryLoom/Proofs/Rendering/Writing.lean
  =======================================
  **The text of pieces is made of their spellings.**  With positional placeholders a piece is
  spelled the same wherever it stands, and so it is with named ones as long as no constant is
  bound.  Writing puts the spellings one after the other (`spelled_of_write`) and binds what
  the pieces bind, in their order (`bindings_of_write`).
-/
import QueryLoom.Sql.Statement

namespace QueryLoom.Sql

/-- The characters of a piece. -/
def Style.spelling (style : Style) : Piece → List Char
  | .name id => (Text.quoted '"' id).toList
  | .string s => (Text.quoted '\'' s).toList
  | .parameter p =>
    match style.placeholders with
    | .positional => ['?']
    | .named => '@' :: p.name.toList
  | .constant _ => ['?']
  | .refused _ => []
  | .word w => w.toList
  | .symbol s => s.toList
  | .number ds => ds.toList
  | .space => [' ']

/-- What a piece binds. -/
def Piece.binding? : Piece → Option Binding
  | .parameter p => some (.dynamic p)
  | .constant v => some (.constant v)
  | _ => none

/-- Whether a piece binds a constant. -/
def Piece.isConstant : Piece → Bool
  | .constant _ => true
  | _ => false

namespace Style

variable {style : Style} {bound bound' : List Binding} {p : Piece} {ps : List Piece}
  {text : String}

theorem identifier_eq_ok {caps : Capabilities} {id text : String}
    (h : identifier caps id = .ok text) : text = Text.quoted '"' id := by
  rw [identifier] at h
  split at h
  · cases h
  split at h
  · cases h
  split at h
  · cases h
  · exact (Except.ok.inj h).symm

theorem writePiece_eq_ok (h : style.writePiece bound p = .ok (text, bound'))
    (hp : style.placeholders = .positional ∨ p.isConstant = false) :
    text.toList = style.spelling p := by
  cases p with
  | name id =>
    rw [writePiece] at h
    cases hid : identifier style.caps id with
    | error e =>
      rw [hid] at h
      cases h
    | ok t =>
      rw [hid] at h
      cases h
      rw [identifier_eq_ok hid]
      rfl
  | refused e => cases h
  | parameter q =>
    cases hstyle : style.placeholders with
    | positional =>
      simp only [writePiece, bind, hstyle, Except.ok.injEq, Prod.mk.injEq] at h
      simp [spelling, hstyle, ← h.1]
    | named =>
      simp only [writePiece, bind, hstyle, Except.ok.injEq, Prod.mk.injEq] at h
      simp [spelling, hstyle, ← h.1]
  | constant v =>
    have hpositional : style.placeholders = .positional := hp.resolve_right Bool.noConfusion
    simp only [writePiece, bindConstant, hpositional, Except.ok.injEq, Prod.mk.injEq] at h
    simp [spelling, ← h.1]
  | _ =>
    cases h
    rfl

theorem write_cons_eq_ok (h : style.write bound (p :: ps) = (.ok text, bound')) :
    ∃ first between rest, style.writePiece bound p = .ok (first, between) ∧
      style.write between ps = (.ok rest, bound') ∧ text = first ++ rest := by
  rw [write] at h
  split at h
  · cases h
  next first between hfirst =>
    rcases hrest : style.write between ps with ⟨result, after⟩
    rw [hrest] at h
    cases result with
    | error e => cases h
    | ok rest =>
      cases h
      exact ⟨first, between, rest, hfirst, hrest, rfl⟩

/-- Writing puts the spellings of the pieces one after the other. -/
theorem spelled_of_write (h : style.write bound ps = (.ok text, bound'))
    (hps : style.placeholders = .positional ∨ ∀ p ∈ ps, p.isConstant = false) :
    text.toList = ps.flatMap style.spelling := by
  induction ps generalizing bound text with
  | nil =>
    cases h
    rfl
  | cons p ps ih =>
    obtain ⟨first, between, rest, hfirst, hrest, rfl⟩ := write_cons_eq_ok h
    have hp : style.placeholders = .positional ∨ p.isConstant = false :=
      hps.imp_right fun hall => hall p List.mem_cons_self
    have hps' : style.placeholders = .positional ∨ ∀ p ∈ ps, p.isConstant = false :=
      hps.imp_right fun hall q hq => hall q (List.mem_cons_of_mem p hq)
    rw [String.toList_append, List.flatMap_cons, writePiece_eq_ok hfirst hp, ih hrest hps']

theorem writePiece_bindings (hstyle : style.placeholders = .positional)
    (h : style.writePiece bound p = .ok (text, bound')) :
    bound' = bound ++ p.binding?.toList := by
  cases p with
  | name id =>
    rw [writePiece] at h
    cases hid : identifier style.caps id with
    | error e =>
      rw [hid] at h
      cases h
    | ok t =>
      rw [hid] at h
      cases h
      exact (List.append_nil _).symm
  | refused e => cases h
  | parameter q =>
    simp only [writePiece, bind, hstyle, Except.ok.injEq, Prod.mk.injEq] at h
    exact h.2.symm
  | constant v =>
    simp only [writePiece, bindConstant, Except.ok.injEq, Prod.mk.injEq] at h
    exact h.2.symm
  | _ =>
    cases h
    exact (List.append_nil _).symm

/-- With positional placeholders the bindings are those of the pieces, in their order. -/
theorem bindings_of_write (hstyle : style.placeholders = .positional)
    (h : style.write bound ps = (.ok text, bound')) :
    bound' = bound ++ ps.filterMap Piece.binding? := by
  induction ps generalizing bound text with
  | nil =>
    cases h
    exact (List.append_nil _).symm
  | cons p ps ih =>
    obtain ⟨first, between, rest, hfirst, hrest, rfl⟩ := write_cons_eq_ok h
    rw [ih hrest, writePiece_bindings hstyle hfirst]
    cases hp : p.binding? with
    | none => simp [hp]
    | some b => simp [hp]

end Style

/-- A statement that is rendered is written piece by piece. -/
theorem render_eq_ok {caps : Capabilities} {placeholders : Placeholders} {s : Select}
    {st : Statement} (h : render caps placeholders s = .ok st) :
    Style.write ⟨caps, placeholders, s.parameterNames⟩ [] (s.pieces caps)
      = (.ok st.text, st.bindings) := by
  rw [render] at h
  rcases hwrite : Style.write ⟨caps, placeholders, s.parameterNames⟩ [] (s.pieces caps)
    with ⟨result, bound⟩
  rw [hwrite] at h
  cases result with
  | error e => cases h
  | ok text =>
    cases h
    rfl

/-- A query that compiles has a statement, which is rendered. -/
theorem compile_eq_ok {caps : Capabilities} {placeholders : Placeholders} {q : Query}
    {st : Statement} :
    compile caps placeholders q = .ok st ↔
      ∃ s, Select.ofQuery caps q = .ok s ∧ render caps placeholders s = .ok st := by
  rw [compile]
  cases Select.ofQuery caps q with
  | error e => simp [bind, Except.bind]
  | ok s => simp [bind, Except.bind]

end QueryLoom.Sql

/-
  QueryLoom/Proofs/Rendering/Lexemes.lean
  =======================================
  **The tokens of a text with named placeholders.**  An at sign starts a placeholder, whose name is
  the longest run of letters, digits, `_` and `$` behind it.  Everything else is lexed as it
  is without placeholders.

  Names are written raw.  No piece behind a placeholder starts with one of those characters, so a
  name that has no others is read back, and of every other name only a part is.

    * `lexNamed_run`: the name of a placeholder is a longest run;
    * `lexNamed_spelled`: pieces whose parameters have such names are lexed one by one;
    * `names_lexNamed_iff`: the names are read back just when all of them are such names.
-/
import Mathlib.Data.List.TakeWhile
import QueryLoom.Proofs.Rendering.Labels
import QueryLoom.Proofs.Rendering.Quoted

namespace QueryLoom.Sql

open Reading (isWordChar)

namespace Lexical

/-- A token of a text with named placeholders. -/
inductive Lexeme where
  | token (t : Token)
  | placeholder (name : String)
deriving DecidableEq, Repr

namespace Lexeme

/-- The name of a placeholder. -/
def name? : Lexeme → Option String
  | token _ => none
  | placeholder name => some name

/-- The token without the name of a placeholder. -/
def unnamed : Lexeme → Lexeme
  | token t => token t
  | placeholder _ => placeholder ""

end Lexeme

/-! ### The lexer -/

/-- The token that the lexer is in. -/
inductive NamedState where
  | plain (s : State)
  | placeholder (cs : List Char)

namespace NamedState

/-- The token that ends where the lexer is. -/
def pending : NamedState → List Lexeme
  | plain s => s.pending.map .token
  | placeholder cs => [.placeholder (String.ofList cs)]

/-- The token with one more character, unless the character is not part of it. -/
def extend? : NamedState → Char → Option NamedState
  | plain s, c => (s.extend? c).map plain
  | placeholder cs, c => if isWordChar c then some (placeholder (cs ++ [c])) else none

/-- The token that a character starts. -/
def start (c : Char) : NamedState := if c = '@' then placeholder [] else plain (.start c)

end NamedState

/-- The tokens of a text with named placeholders, from inside the given one. -/
def lexNamed (s : NamedState) : List Char → List Lexeme
  | [] => s.pending
  | c :: cs =>
    match s.extend? c with
    | some s => lexNamed s cs
    | none => s.pending ++ lexNamed (.start c) cs

/-- The tokens of a text with named placeholders. -/
def lexemes (text : String) : List Lexeme := lexNamed (.plain .blank) text.toList

/-- Whether a text is a name that a placeholder can have. -/
def isName (text : String) : Bool := text.toList.all isWordChar

end Lexical

open Lexical (Lexeme NamedState lexNamed)

/-- What a piece is lexed as in a text with named placeholders. -/
def Piece.lexeme? : Piece → Option Lexeme
  | parameter p => some (.placeholder p.name)
  | p => p.token?.map .token

/-- The name of a parameter. -/
def Piece.parameterName? : Piece → Option String
  | parameter p => some p.name
  | _ => none

/-- What a piece is lexed as, without the name of a placeholder. -/
def Piece.form? : Piece → Option Lexeme
  | parameter _ | constant _ => some (.placeholder "")
  | p => p.token?.map .token

/-- Pieces with a parameter in the place of each constant, of the name that its placeholder
    has where `n` constants have been bound before. -/
def Style.named (style : Style) : Nat → List Piece → List Piece
  | _, [] => []
  | n, .constant v :: rest => .parameter ⟨style.constantName n, v.type⟩ :: style.named (n + 1) rest
  | n, p :: rest => p :: style.named n rest

namespace Lexical

open NamedState

variable {s s' : State} {c : Char} {cs acc rest : List Char}

/-! ### Runs -/

theorem lexNamed_append_of_foldlM (h : cs.foldlM State.extend? s = some s') :
    lexNamed (.plain s) (cs ++ rest) = lexNamed (.plain s') rest := by
  induction cs generalizing s with
  | nil => rw [List.nil_append, Option.some.inj h]
  | cons c cs ih =>
    obtain ⟨k, hk, hrest⟩ := Option.bind_eq_some_iff.mp h
    have hextend : (NamedState.plain s).extend? c = some (.plain k) := by
      rw [extend?, hk, Option.map_some]
    rw [List.cons_append, lexNamed, hextend]
    exact ih hrest

theorem lexNamed_of_endsAt (h : s.EndsAt rest) :
    lexNamed (.plain s) rest = s.pending.map .token ++ lexNamed (.plain .blank) rest := by
  cases rest with
  | nil => exact (List.append_nil _).symm
  | cons c cs =>
    have hextend : (NamedState.plain s).extend? c = none := by
      rw [extend?, show s.extend? c = none from h, Option.map_none]
    rw [lexNamed, hextend]
    rfl

/-- The name of a placeholder is a longest run of the characters of names. -/
theorem lexNamed_run : lexNamed (.placeholder acc) cs =
    .placeholder (String.ofList (acc ++ cs.takeWhile isWordChar)) ::
      lexNamed (.plain .blank) (cs.dropWhile isWordChar) := by
  induction cs generalizing acc with
  | nil => rw [List.takeWhile_nil, List.append_nil]; rfl
  | cons c cs ih =>
    rw [lexNamed, extend?]
    split
    · next s hs =>
      split at hs
      · next hc =>
        cases hs
        rw [ih, List.takeWhile_cons_of_pos hc, List.dropWhile_cons_of_pos hc, List.append_assoc,
          List.singleton_append]
      · cases hs
    · next hs =>
      split at hs
      · cases hs
      · next hc =>
        rw [List.takeWhile_cons_of_neg hc, List.dropWhile_cons_of_neg hc, List.append_nil]
        rfl

/-! ### Pieces as tokens -/

variable {style : Style} {p q : Piece} {ps : List Piece}

/-- A piece that binds nothing is lexed as its token. -/
theorem lexNamed_piece (hp : p.isReadable = true) (hbinds : p.binding? = none)
    (hps : ∀ q ∈ ps, q.isReadable = true) (hapart : (p :: ps).IsChain fun p q => p.apart q = true) :
    lexNamed (.plain .blank) (style.spelling p ++ ps.flatMap style.spelling) =
      p.lexeme?.toList ++ lexNamed (.plain .blank) (ps.flatMap style.spelling) := by
  obtain ⟨s, hs⟩ : ∃ s, Leads style p s := exists_leads hp (.inr hbinds)
  obtain ⟨c, cs, hcs, hreach⟩ := hs.reaches
  have hc : c ≠ '@' := head?_ne_at hp hbinds c (by rw [hcs]; rfl)
  have hlexeme : p.lexeme?.toList = s.pending.map .token := by
    rw [hs.pending]
    cases p with
    | parameter q => cases hbinds
    | _ => rfl
  have hstart : lexNamed (.plain .blank) (c :: (cs ++ ps.flatMap style.spelling)) =
      lexNamed (start c) (cs ++ ps.flatMap style.spelling) := rfl
  rw [hcs, List.cons_append, hstart, start, if_neg hc, lexNamed_append_of_foldlM hreach,
    lexNamed_of_endsAt (hs.endsAt hps hapart), hlexeme]

/-- Behind a placeholder no run goes on. -/
theorem takeWhile_spelled {p : Parameter} (hps : ∀ q ∈ ps, q.isReadable = true)
    (hapart : (Piece.parameter p :: ps).IsChain fun p q => p.apart q = true) :
    (ps.flatMap style.spelling).takeWhile isWordChar = [] := by
  cases ps with
  | nil => rfl
  | cons q ps =>
    have hcloses : q.closes = true := by
      simpa [Piece.apart, Piece.opens, Piece.isName] using (List.isChain_cons_cons.mp hapart).1
    cases hcs : style.spelling q with
    | nil => exact absurd hcs (spelling_ne_nil (hps q List.mem_cons_self))
    | cons c cs =>
      have hc : isWordChar c = false :=
        isWordChar_of_closes c (head?_of_closes hcloses c (by rw [hcs]; rfl))
      rw [List.flatMap_cons, hcs, List.cons_append, List.takeWhile_cons_of_neg (by simp [hc])]

/-- A parameter is lexed as a placeholder, which has as much of the name as is one. -/
theorem lexNamed_parameter {p : Parameter} (hstyle : style.placeholders = .named)
    (hps : ∀ q ∈ ps, q.isReadable = true)
    (hapart : (Piece.parameter p :: ps).IsChain fun p q => p.apart q = true) :
    lexNamed (.plain .blank) (style.spelling (.parameter p) ++ ps.flatMap style.spelling) =
      .placeholder (String.ofList (p.name.toList.takeWhile isWordChar)) ::
        lexNamed (.plain .blank)
          (p.name.toList.dropWhile isWordChar ++ ps.flatMap style.spelling) := by
  have hspelling : style.spelling (.parameter p) = '@' :: p.name.toList := by
    rw [Style.spelling, hstyle]
  have hrest : (ps.flatMap style.spelling).takeWhile isWordChar = [] :=
    takeWhile_spelled hps hapart
  have htake : (p.name.toList ++ ps.flatMap style.spelling).takeWhile isWordChar =
      p.name.toList.takeWhile isWordChar := by
    rw [List.takeWhile_append, hrest, List.append_nil]
    split
    · next hlength => exact ((List.takeWhile_prefix isWordChar).eq_of_length hlength).symm
    · rfl
  have hdrop : (p.name.toList ++ ps.flatMap style.spelling).dropWhile isWordChar =
      p.name.toList.dropWhile isWordChar ++ ps.flatMap style.spelling := by
    have hself : (ps.flatMap style.spelling).dropWhile isWordChar = ps.flatMap style.spelling := by
      simpa [hrest] using
        List.takeWhile_append_dropWhile (p := isWordChar) (l := ps.flatMap style.spelling)
    rw [List.dropWhile_append, hself]
    split
    · next hempty => rw [List.isEmpty_iff.mp hempty, List.nil_append]
    · rfl
  have hstart : lexNamed (.plain .blank) ('@' :: (p.name.toList ++ ps.flatMap style.spelling)) =
      lexNamed (.placeholder []) (p.name.toList ++ ps.flatMap style.spelling) := rfl
  rw [hspelling, List.cons_append, hstart, lexNamed_run, htake, hdrop, List.nil_append]

/-- Pieces whose parameters have names are lexed one by one. -/
theorem lexNamed_spelled (hstyle : style.placeholders = .named)
    (hps : ∀ p ∈ ps, p.isReadable = true) (hconstants : ∀ p ∈ ps, p.isConstant = false)
    (hapart : ps.IsChain fun p q => p.apart q = true)
    (hnames : ∀ p, .parameter p ∈ ps → isName p.name = true) :
    lexNamed (.plain .blank) (ps.flatMap style.spelling) = ps.filterMap Piece.lexeme? := by
  induction ps with
  | nil => rfl
  | cons p ps ih =>
    obtain ⟨hp, hreadable⟩ := List.forall_mem_cons.mp hps
    obtain ⟨hconstant, hparameters⟩ := List.forall_mem_cons.mp hconstants
    have hrest := ih hreadable hparameters hapart.tail
      fun q hq => hnames q (List.mem_cons_of_mem p hq)
    rw [List.flatMap_cons]
    cases hbinds : p.binding? with
    | none =>
      rw [lexNamed_piece hp hbinds hreadable hapart, hrest]
      cases hlexeme : p.lexeme? with
      | none => rw [List.filterMap_cons_none hlexeme]; rfl
      | some t => rw [List.filterMap_cons_some hlexeme]; rfl
    | some b =>
      cases p with
      | parameter q =>
        have hall : ∀ c ∈ q.name.toList, isWordChar c = true :=
          List.all_eq_true.mp (hnames q List.mem_cons_self)
        rw [lexNamed_parameter hstyle hreadable hapart, List.takeWhile_eq_self_iff.mpr hall,
          List.dropWhile_eq_nil_iff.mpr hall, List.nil_append, hrest, String.ofList_toList]
        rfl
      | constant v => cases hconstant
      | _ => cases hbinds

theorem name?_lexeme? (p : Piece) : p.lexeme?.bind Lexeme.name? = p.parameterName? := by
  cases p <;> rfl

/-- The names of parameters are read back just when all of them are names. -/
theorem names_lexNamed_iff (hstyle : style.placeholders = .named)
    (hps : ∀ p ∈ ps, p.isReadable = true) (hconstants : ∀ p ∈ ps, p.isConstant = false)
    (hapart : ps.IsChain fun p q => p.apart q = true) :
    (lexNamed (.plain .blank) (ps.flatMap style.spelling)).filterMap Lexeme.name? =
        ps.filterMap Piece.parameterName? ↔
      ∀ p, .parameter p ∈ ps → isName p.name = true := by
  refine ⟨fun hnames => ?_, fun hnames => ?_⟩
  · induction ps with
    | nil => exact fun _ hp => absurd hp List.not_mem_nil
    | cons p ps ih =>
      obtain ⟨hp, hreadable⟩ := List.forall_mem_cons.mp hps
      obtain ⟨hconstant, hparameters⟩ := List.forall_mem_cons.mp hconstants
      replace ih := ih hreadable hparameters hapart.tail
      rw [List.flatMap_cons] at hnames
      cases hbinds : p.binding? with
      | none =>
        have hsilent : p.parameterName? = none := by
          cases p <;> first
            | rfl
            | cases hbinds
        have hlexeme : p.lexeme?.toList.filterMap Lexeme.name? = [] := by
          cases p <;> first
            | rfl
            | cases hbinds
        rw [lexNamed_piece hp hbinds hreadable hapart, List.filterMap_append, hlexeme,
          List.nil_append, List.filterMap_cons_none hsilent] at hnames
        intro q hq
        refine ih hnames q ((List.mem_cons.mp hq).resolve_left ?_)
        rintro rfl
        cases hbinds
      | some b =>
        cases p with
        | parameter q =>
          rw [lexNamed_parameter hstyle hreadable hapart] at hnames
          obtain ⟨hname, hrest⟩ := List.cons.inj hnames
          have hrun : q.name.toList.takeWhile isWordChar = q.name.toList := by
            rw [← String.toList_ofList (l := q.name.toList.takeWhile isWordChar), hname]
          have hall : ∀ c ∈ q.name.toList, isWordChar c = true :=
            List.takeWhile_eq_self_iff.mp hrun
          rw [List.dropWhile_eq_nil_iff.mpr hall, List.nil_append] at hrest
          intro q' hq'
          rcases List.mem_cons.mp hq' with heq | hq'
          · cases heq
            exact List.all_eq_true.mpr hall
          · exact ih hrest q' hq'
        | constant v => cases hconstant
        | _ => cases hbinds
  · rw [lexNamed_spelled hstyle hps hconstants hapart hnames, List.filterMap_filterMap]
    exact congrArg (List.filterMap · ps) (funext name?_lexeme?)

end Lexical

/-! ### Constants -/

namespace Style

variable {style : Style} {p : Piece} {n : Nat} {ps : List Piece}

theorem named_cons (hp : p.isConstant = false) :
    style.named n (p :: ps) = p :: style.named n ps := by
  cases p with
  | constant v => cases hp
  | _ => rfl

/-- The text of segments is made of pieces that bind parameters only. -/
theorem written_named (hstyle : style.placeholders = .named) (n : Nat) (ps : List Piece) :
    (Segment.written .named (style.segments n ps)).toList =
      (style.named n ps).flatMap style.spelling := by
  induction ps generalizing n with
  | nil => rfl
  | cons p ps ih =>
    cases p with
    | parameter q =>
      rw [segments, Segment.written_cons, String.toList_append, ih, named_cons rfl,
        List.flatMap_cons, spelling, hstyle, Segment.text, String.toList_append]
      rfl
    | constant v =>
      rw [segments, Segment.written_cons, String.toList_append, ih, named, List.flatMap_cons,
        spelling, hstyle, Segment.text, String.toList_append]
      rfl
    | _ =>
      rw [segments_cons rfl, Segment.written_cons, String.toList_append, ih, named_cons rfl,
        List.flatMap_cons, Segment.text, String.toList_ofList]

/-- What is not a parameter in the place of a constant was there before. -/
theorem mem_of_mem_named (h : p ∈ style.named n ps) :
    p ∈ ps ∧ p.isConstant = false ∨ ∃ q, p = .parameter q := by
  induction ps generalizing n with
  | nil => cases h
  | cons q ps ih =>
    cases hq : q.isConstant with
    | false =>
      rw [named_cons hq] at h
      rcases List.mem_cons.mp h with rfl | h
      · exact .inl ⟨List.mem_cons_self, hq⟩
      · exact (ih h).imp_left (And.imp_left (List.mem_cons_of_mem q))
    | true =>
      cases q with
      | constant v =>
        rcases List.mem_cons.mp h with rfl | h
        · exact .inr ⟨_, rfl⟩
        · exact (ih h).imp_left (And.imp_left (List.mem_cons_of_mem _))
      | _ => cases hq

theorem isConstant_of_mem_named (p : Piece) (h : p ∈ style.named n ps) : p.isConstant = false := by
  rcases mem_of_mem_named h with ⟨-, h⟩ | ⟨q, rfl⟩
  · exact h
  · rfl

theorem isReadable_of_mem_named (hps : ∀ p ∈ ps, p.isReadable = true) (p : Piece)
    (h : p ∈ style.named n ps) : p.isReadable = true := by
  rcases mem_of_mem_named h with ⟨h, -⟩ | ⟨q, rfl⟩
  · exact hps p h
  · rfl

/-- A constant is apart from a piece where a parameter is. -/
theorem isChain_named (h : ps.IsChain fun p q => p.apart q = true) :
    (style.named n ps).IsChain fun p q => p.apart q = true := by
  have hhead : ∀ p : Piece, ∀ n ps, (∀ q ∈ List.head? ps, p.apart q = true) →
      ∀ q ∈ (style.named n ps).head?, p.apart q = true := by
    rintro p n (_ | ⟨q, ps⟩) hq
    · exact hq
    · cases q with
      | constant v =>
        have hconstant : p.apart (.constant v) = true := hq _ rfl
        rintro _ ⟨⟩
        exact hconstant
      | _ => exact hq
  induction ps generalizing n with
  | nil => exact .nil
  | cons p ps ih =>
    obtain ⟨hp, hrest⟩ := List.isChain_cons.mp h
    cases p with
    | constant v => exact List.isChain_cons.mpr ⟨hhead _ _ _ hp, ih hrest⟩
    | _ => exact List.isChain_cons.mpr ⟨hhead _ _ _ hp, ih hrest⟩

theorem names_named (n : Nat) (ps : List Piece) :
    (style.named n ps).filterMap Piece.parameterName? = Segment.names (style.segments n ps) := by
  induction ps generalizing n with
  | nil => rfl
  | cons p ps ih =>
    cases p with
    | parameter q => exact congrArg (q.name :: ·) (ih n)
    | constant v => exact congrArg (style.constantName n :: ·) (ih (n + 1))
    | _ => exact ih n

/-- The names of constants are names. -/
theorem isName_constantName (n : Nat) : Lexical.isName (style.constantName n) = true := by
  rw [constantName, Text.numbered, Lexical.isName, String.toList_append, List.all_append,
    Bool.and_eq_true]
  refine ⟨rfl, List.all_eq_true.mpr fun c hc => ?_⟩
  have hdigit : c.isDigit = true := Text.isDigit_of_mem_toString hc
  simp [isWordChar, Char.isAlphanum, hdigit]

theorem isName_named_iff : (∀ p, .parameter p ∈ style.named n ps → Lexical.isName p.name = true) ↔
    ∀ p, .parameter p ∈ ps → Lexical.isName p.name = true := by
  induction ps generalizing n with
  | nil => exact Iff.rfl
  | cons p ps ih =>
    cases p with
    | constant v => simp [named, isName_constantName, ih]
    | _ => simp [named, ih]

/-- Only the names of placeholders depend on which constants come before. -/
theorem unnamed_named (n : Nat) (ps : List Piece) :
    ((style.named n ps).filterMap Piece.lexeme?).map Lexeme.unnamed =
      ps.filterMap Piece.form? := by
  induction ps generalizing n with
  | nil => rfl
  | cons p ps ih =>
    cases p with
    | parameter q => exact congrArg (.placeholder "" :: ·) (ih n)
    | constant v => exact congrArg (.placeholder "" :: ·) (ih (n + 1))
    | space | refused e => exact ih n
    | _ => exact congrArg (_ :: ·) (ih n)

end Style

/-! ### Statements -/

namespace Select

variable {caps : Capabilities} {s : Select} {st : Statement}

theorem parameter_mem_pieces {p : Parameter} :
    .parameter p ∈ s.pieces caps ↔ .parameter p ∈ s.walk := by
  rw [← dynamic_mem_placeholders, ← bindings_pieces, List.mem_filterMap]
  constructor
  · exact fun h => ⟨_, h, rfl⟩
  · rintro ⟨q, hq, hbinds⟩
    cases q <;> cases hbinds
    exact hq

theorem isName_pieces_iff : (∀ p, .parameter p ∈ s.pieces caps → Lexical.isName p.name = true) ↔
    ∀ name ∈ s.parameterNames, Lexical.isName name = true := by
  simp only [parameter_mem_pieces, mem_parameterNames]
  constructor
  · rintro h _ ⟨p, hp, rfl⟩
    exact h p hp
  · exact fun h p hp => h p.name ⟨p, hp, rfl⟩

/-- The text of a statement in which parameters stand for the constants that are bound. -/
theorem lexemes_of_render (h : render caps .named s = .ok st) : Lexical.lexemes st.text =
    lexNamed (.plain .blank) (((s.style caps .named).named 0 (s.pieces caps)).flatMap
      (s.style caps .named).spelling) := by
  rw [Lexical.lexemes, text_of_render h, segments, Style.written_named rfl]

section

variable (hs : ∀ x ∈ s.walk, x.isWorded = true) (h : render caps .named s = .ok st)

include hs h

/-- Where parameters have names, a text is lexed piece by piece. -/
theorem unnamed_lexemes (hnames : ∀ name ∈ s.parameterNames, Lexical.isName name = true) :
    (Lexical.lexemes st.text).map Lexeme.unnamed = (s.pieces caps).filterMap Piece.form? := by
  rw [lexemes_of_render h, Lexical.lexNamed_spelled rfl
    (Style.isReadable_of_mem_named (isReadable_of_render hs h)) Style.isConstant_of_mem_named
    (Style.isChain_named (tidy_selectPieces caps s hs).apart)
    (Style.isName_named_iff.mpr (isName_pieces_iff.mpr hnames)), Style.unnamed_named]

/-- The placeholders of a text have the names of what the expressions walked bind, just when
    the parameters have names. -/
theorem names_lexemes_iff : (Lexical.lexemes st.text).filterMap Lexeme.name? =
      s.boundNames caps (s.walk.filterMap (Expr.placeholder? caps)) ↔
    ∀ name ∈ s.parameterNames, Lexical.isName name = true := by
  have hstyle : (s.style caps .named).placeholders = .named := rfl
  rw [← isName_pieces_iff, ← Style.isName_named_iff (n := 0),
    lexemes_of_render h, ← Lexical.names_lexNamed_iff hstyle
      (Style.isReadable_of_mem_named (isReadable_of_render hs h)) Style.isConstant_of_mem_named
      (Style.isChain_named (tidy_selectPieces caps s hs).apart), Style.names_named,
    Style.names_segments, bindings_pieces]
  rfl

end

end Select

end QueryLoom.Sql

/-
  QueryLoom/Proofs/Reading/Token.lean
  ===================================
  **A reader of SQL text, first part: from characters to tokens.**

  The reader goes through the text once and keeps the token that it is in.  A character
  either extends that token or ends it and starts the next one.  Quoted text runs to its
  closing quote, where a doubled quote stands for one; two minus signs start a comment, and
  so do a slash and an asterisk.

  What the pieces of a statement are read as is `Piece.tokens`, and `Laid` says that a list
  of pieces is read that way in front of a given rest of the text.
-/
import Mathlib.Data.Bool.AllAny
import QueryLoom.Proofs.Rendering.Writing
import QueryLoom.Proofs.Text.Blank

namespace QueryLoom.Sql.Reading

/-- A token of SQL text.  `bound` takes the place of a positional placeholder once it is known
    what is bound to it. -/
inductive Token where
  | word (w : String)
  | symbol (s : String)
  | number (n : Nat)
  | name (id : String)
  | string (s : String)
  | placeholder
  | named (name : String)
  | bound (b : Binding)
deriving DecidableEq

/-! ### Characters to tokens -/

/-- The characters of words after their first letter. -/
def isWordChar (c : Char) : Bool := c.isAlphanum || c == '_' || c == '$'

/-- The symbols of two characters. -/
def pairs : List (Char × Char) := [('|', '|'), ('<', '>'), ('<', '='), ('>', '=')]

/-- The token that the reader is in. -/
inductive Lexing where
  | blank
  | word (cs : List Char)
  | number (ds : List Char)
  | named (cs : List Char)
  | placeholder
  | symbol (c : Char)
  | pair (c d : Char)
  | quoted (q : Char) (cs : List Char)
  /-- After a quote that closes the text unless it is doubled. -/
  | closing (q : Char) (cs : List Char)
  | lineComment
  | blockComment (afterStar : Bool)
deriving DecidableEq

namespace Lexing

/-- The token that ends where the reader is. -/
def pending : Lexing → List Token
  | blank | lineComment | blockComment _ => []
  | word cs => [.word (String.ofList cs)]
  | number ds => [.number (Text.natOf ds)]
  | named cs => [.named (String.ofList cs)]
  | placeholder => [.placeholder]
  | symbol c => [.symbol (String.ofList [c])]
  | pair c d => [.symbol (String.ofList [c, d])]
  | quoted q _ => [.symbol (String.ofList [q])]
  | closing q cs => [if q = '"' then .name (String.ofList cs) else .string (String.ofList cs)]

/-- The token with one more character, unless the character is not part of it. -/
def extend? : Lexing → Char → Option Lexing
  | blank, _ | placeholder, _ | pair .., _ => none
  | word cs, c => if isWordChar c then some (word (cs ++ [c])) else none
  | number ds, c => if c.isDigit then some (number (ds ++ [c])) else none
  | named cs, c => if isWordChar c then some (named (cs ++ [c])) else none
  | symbol a, c =>
    if a = '-' ∧ c = '-' then some lineComment
    else if a = '/' ∧ c = '*' then some (blockComment false)
    else if (a, c) ∈ pairs then some (pair a c)
    else none
  | quoted q cs, c => some (if c = q then closing q cs else quoted q (cs ++ [c]))
  | closing q cs, c => if c = q then some (quoted q (cs ++ [q])) else none
  | lineComment, c => some (if c = '\n' then blank else lineComment)
  | blockComment afterStar, c =>
    some (if afterStar ∧ c = '/' then blank else blockComment (c == '*'))

/-- The token that a character starts. -/
def start (c : Char) : Lexing :=
  if c.isWhitespace then blank
  else if c.isDigit then number [c]
  else if c.isAlpha then word [c]
  else if c = '"' ∨ c = '\'' then quoted c []
  else if c = '@' then named []
  else if c = '?' then placeholder
  else symbol c

end Lexing

open Lexing

/-- The tokens of a text, from inside the given one. -/
def lex (s : Lexing) : List Char → List Token
  | [] => s.pending
  | c :: cs =>
    match s.extend? c with
    | some s => lex s cs
    | none => s.pending ++ lex (start c) cs

/-- Whether the token ends in front of a text. -/
def Lexing.EndsAt (s : Lexing) : List Char → Prop
  | [] => True
  | c :: _ => s.extend? c = none

variable {s s' : Lexing} {c q : Char} {cs ds acc rest : List Char}

theorem lex_cons_of_extend (h : s.extend? c = some s') : lex s (c :: cs) = lex s' cs := by
  rw [lex, h]

theorem lex_blank_cons : lex .blank (c :: cs) = lex (start c) cs := rfl

theorem lex_of_endsAt (h : s.EndsAt rest) : lex s rest = s.pending ++ lex .blank rest := by
  cases rest with
  | nil => exact (List.append_nil _).symm
  | cons c cs =>
    rw [lex, h]
    rfl

theorem lex_word_append (h : ∀ c ∈ cs, isWordChar c) :
    lex (.word acc) (cs ++ rest) = lex (.word (acc ++ cs)) rest := by
  induction cs generalizing acc with
  | nil => rw [List.nil_append, List.append_nil]
  | cons c cs ih =>
    have hc : (Lexing.word acc).extend? c = some (.word (acc ++ [c])) := by
      rw [extend?, if_pos (h c List.mem_cons_self)]
    rw [List.cons_append, lex_cons_of_extend hc,
      ih fun d hd => h d (List.mem_cons_of_mem c hd), List.append_assoc, List.singleton_append]

theorem lex_named_append (h : ∀ c ∈ cs, isWordChar c) :
    lex (.named acc) (cs ++ rest) = lex (.named (acc ++ cs)) rest := by
  induction cs generalizing acc with
  | nil => rw [List.nil_append, List.append_nil]
  | cons c cs ih =>
    have hc : (Lexing.named acc).extend? c = some (.named (acc ++ [c])) := by
      rw [extend?, if_pos (h c List.mem_cons_self)]
    rw [List.cons_append, lex_cons_of_extend hc,
      ih fun d hd => h d (List.mem_cons_of_mem c hd), List.append_assoc, List.singleton_append]

theorem lex_number_append (h : ∀ c ∈ ds, c.isDigit) :
    lex (.number acc) (ds ++ rest) = lex (.number (acc ++ ds)) rest := by
  induction ds generalizing acc with
  | nil => rw [List.nil_append, List.append_nil]
  | cons c ds ih =>
    have hc : (Lexing.number acc).extend? c = some (.number (acc ++ [c])) := by
      rw [extend?, if_pos (h c List.mem_cons_self)]
    rw [List.cons_append, lex_cons_of_extend hc,
      ih fun d hd => h d (List.mem_cons_of_mem c hd), List.append_assoc, List.singleton_append]

/-- A text with its quotes doubled is read as it was. -/
theorem lex_quoted_append :
    lex (.quoted q acc) (Text.doubled q cs ++ rest) = lex (.quoted q (acc ++ cs)) rest := by
  induction cs generalizing acc with
  | nil => rw [Text.doubled, List.nil_append, List.append_nil]
  | cons c cs ih =>
    rw [Text.doubled]
    split
    · next hc =>
      have hopen : (Lexing.quoted q acc).extend? q = some (.closing q acc) := by
        rw [extend?, if_pos rfl]
      have hdouble : (Lexing.closing q acc).extend? q = some (.quoted q (acc ++ [q])) := by
        rw [extend?, if_pos rfl]
      rw [List.cons_append, List.cons_append, lex_cons_of_extend hopen,
        lex_cons_of_extend hdouble, ih, hc, List.append_assoc, List.singleton_append]
    · next hc =>
      have hinside : (Lexing.quoted q acc).extend? c = some (.quoted q (acc ++ [c])) := by
        rw [extend?, if_neg hc]
      rw [List.cons_append, lex_cons_of_extend hinside, ih, List.append_assoc,
        List.singleton_append]

/-! ### Pieces to tokens -/

/-- The characters that end every token which is neither quoted nor a comment. -/
def boundaries : List Char := [' ', ',', ')', '(', '.']

/-- Whether a text is empty or starts with a character that ends tokens. -/
def Boundary : List Char → Prop
  | [] => True
  | c :: _ => c ∈ boundaries

/-- Whether a text is read as one word. -/
def isWord (w : String) : Bool :=
  match w.toList with
  | [] => false
  | c :: cs => c.isAlpha && cs.all isWordChar

/-- The symbols of one character in expressions. -/
def singles : List Char := ['+', '-', '*', '/', '=', '>', '<', '(', ')', ',', '.']

/-- The symbols of expressions. -/
def symbols : List String :=
  singles.map (fun c => String.ofList [c]) ++ pairs.map fun (c, d) => String.ofList [c, d]

/-- Whether the reader takes a piece for one token, a space for none. -/
def readsPiece (placeholders : Placeholders) : Piece → Bool
  | .word w => isWord w
  | .symbol s => symbols.contains s
  | .number ds => ds.toList ≠ [] && ds.toList.all Char.isDigit
  | .space | .name _ | .string _ => true
  | .parameter p => placeholders == .positional || p.name.toList.all isWordChar
  | .constant _ | .refused _ => false

/-- What a piece is read as. -/
def pieceTokens (placeholders : Placeholders) : Piece → List Token
  | .word w => [.word w]
  | .symbol s => [.symbol s]
  | .number ds => [.number (Text.natOf ds.toList)]
  | .name id => [.name id]
  | .string s => [.string s]
  | .parameter p =>
    match placeholders with
    | .positional => [.placeholder]
    | .named => [.named p.name]
  | .constant _ => [.placeholder]
  | .space | .refused _ => []

/-- The characters of pieces. -/
def spelled (style : Style) (ps : List Piece) : List Char := ps.flatMap style.spelling

/-- What pieces are read as. -/
def tokens (placeholders : Placeholders) (ps : List Piece) : List Token :=
  ps.flatMap (pieceTokens placeholders)

/-- In front of `rest` the pieces are read as their tokens. -/
def Laid (style : Style) (ps : List Piece) (rest : List Char) : Prop :=
  lex .blank (spelled style ps ++ rest) = tokens style.placeholders ps ++ lex .blank rest

variable {style : Style} {p : Piece} {ps qs : List Piece}

@[simp] theorem spelled_nil : spelled style [] = [] := rfl

@[simp] theorem spelled_cons : spelled style (p :: ps) = style.spelling p ++ spelled style ps := rfl

@[simp] theorem spelled_append :
    spelled style (ps ++ qs) = spelled style ps ++ spelled style qs := by
  simp [spelled]

@[simp] theorem tokens_nil {placeholders : Placeholders} : tokens placeholders [] = [] := rfl

@[simp] theorem tokens_cons {placeholders : Placeholders} :
    tokens placeholders (p :: ps) = pieceTokens placeholders p ++ tokens placeholders ps := rfl

@[simp] theorem tokens_append {placeholders : Placeholders} :
    tokens placeholders (ps ++ qs) = tokens placeholders ps ++ tokens placeholders qs := by
  simp [tokens]

theorem Laid.nil : Laid style [] rest := rfl

theorem Laid.append (hps : Laid style ps (spelled style qs ++ rest)) (hqs : Laid style qs rest) :
    Laid style (ps ++ qs) rest := by
  rw [Laid, spelled_append, List.append_assoc, hps, hqs, tokens_append, List.append_assoc]

theorem Laid.cons (hp : Laid style [p] (spelled style ps ++ rest)) (hps : Laid style ps rest) :
    Laid style (p :: ps) rest := by
  have happend : Laid style ([p] ++ ps) rest := hp.append hps
  exact happend

/-- A text that leads the reader into a token which ends in front of the rest. -/
theorem Laid.of_lex (hlex : lex .blank (style.spelling p ++ rest) = lex s rest)
    (hend : s.EndsAt rest) (hs : s.pending = pieceTokens style.placeholders p) :
    Laid style [p] rest := by
  rw [Laid, spelled_cons, spelled_nil, List.append_nil, hlex, lex_of_endsAt hend, hs,
    tokens_cons, tokens_nil, List.append_nil]

theorem laid_space : Laid style [.space] rest := rfl

/-- A minus is read as one unless another minus follows. -/
theorem laid_minus (h : rest.head? ≠ some '-') : Laid style [.symbol "-"] rest := by
  refine Laid.of_lex (s := .symbol '-') rfl ?_ rfl
  cases rest with
  | nil => trivial
  | cons c cs =>
    have hc : c ≠ '-' := by simpa using h
    simp [EndsAt, extend?, pairs, hc]

/-- The tokens that a boundary ends. -/
def Lexing.isPlain : Lexing → Bool
  | word _ | number _ | named _ | placeholder | symbol _ | pair .. => true
  | closing q _ => q == '"' || q == '\''
  | _ => false

theorem Lexing.endsAt_of_boundary (hs : s.isPlain) (hrest : Boundary rest) : s.EndsAt rest := by
  cases rest with
  | nil => trivial
  | cons c cs =>
    have hc : c ∈ boundaries := hrest
    simp only [boundaries, List.mem_cons, List.not_mem_nil, or_false] at hc
    cases s with
    | word | number | named => rcases hc with rfl | rfl | rfl | rfl | rfl <;> rfl
    | placeholder | pair => rfl
    | symbol a => rcases hc with rfl | rfl | rfl | rfl | rfl <;> simp [EndsAt, extend?, pairs]
    | closing q ds =>
      have hq : c ≠ q := by
        rintro rfl
        rcases hc with rfl | rfl | rfl | rfl | rfl <;> simp [isPlain] at hs
      exact if_neg hq
    | _ => cases hs

theorem not_isWhitespace_of_isAlphanum (hc : c.isAlphanum) : c.isWhitespace = false := by
  refine Bool.eq_false_iff.2 fun hblank => ?_
  simp only [Char.isWhitespace, Bool.or_eq_true, decide_eq_true_eq] at hblank
  rcases hblank with ((rfl | rfl) | rfl) | rfl <;> exact absurd hc (by decide)

theorem not_isDigit_of_isAlpha (hc : c.isAlpha) : c.isDigit = false := by
  refine Bool.eq_false_iff.2 fun hdigit => ?_
  have hhigh : c.toNat ≤ 0x39 := (Char.isDigit_iff_toNat.mp hdigit).2
  rcases Text.isAlpha_iff_toNat.mp hc with ⟨hlow, _⟩ | ⟨hlow, _⟩ <;> omega

theorem start_of_isDigit (hc : c.isDigit) : start c = .number [c] := by
  have hblank : c.isWhitespace = false :=
    not_isWhitespace_of_isAlphanum (by simp [Char.isAlphanum, hc])
  simp [start, hc, hblank]

theorem start_of_isAlpha (hc : c.isAlpha) : start c = .word [c] := by
  have hblank : c.isWhitespace = false :=
    not_isWhitespace_of_isAlphanum (by simp [Char.isAlphanum, hc])
  simp [start, hc, hblank, not_isDigit_of_isAlpha hc]

theorem laid_word {w : String} (hw : isWord w) (hrest : Boundary rest) :
    Laid style [.word w] rest := by
  rw [isWord] at hw
  cases hcs : w.toList with
  | nil => simp [hcs] at hw
  | cons c cs =>
    simp only [hcs, Bool.and_eq_true, List.all_eq_true] at hw
    refine Laid.of_lex (s := .word w.toList) ?_ (endsAt_of_boundary rfl hrest) ?_
    · rw [Style.spelling, hcs, List.cons_append, lex_blank_cons, start_of_isAlpha hw.1,
        lex_word_append hw.2]
      rfl
    · rw [pending, String.ofList_toList]
      rfl

theorem laid_number {digits : String} (hne : digits.toList ≠ [])
    (hdigits : ∀ c ∈ digits.toList, c.isDigit) (hrest : Boundary rest) :
    Laid style [.number digits] rest := by
  cases hcs : digits.toList with
  | nil => exact absurd hcs hne
  | cons c cs =>
    rw [hcs] at hdigits
    refine Laid.of_lex (s := .number digits.toList) ?_ (endsAt_of_boundary rfl hrest) rfl
    rw [Style.spelling, hcs, List.cons_append, lex_blank_cons,
      start_of_isDigit (hdigits c List.mem_cons_self), lex_number_append fun d hd => hdigits d (List.mem_cons_of_mem c hd)]
    rfl

/-- A text between quotes is read as the text. -/
theorem lex_quoted {t : String} (hq : q = '"' ∨ q = '\'') :
    lex .blank ((Text.quoted q t).toList ++ rest) = lex (.closing q t.toList) rest := by
  have hstart : start q = .quoted q [] := by
    rcases hq with rfl | rfl <;> rfl
  have hclose : (Lexing.quoted q t.toList).extend? q = some (.closing q t.toList) := by
    rw [extend?, if_pos rfl]
  rw [Text.quoted, String.toList_ofList, List.cons_append, lex_blank_cons, hstart,
    List.append_assoc, lex_quoted_append, List.nil_append, List.singleton_append,
    lex_cons_of_extend hclose]

theorem laid_name {id : String} (hrest : Boundary rest) : Laid style [.name id] rest := by
  refine Laid.of_lex (s := .closing '"' id.toList) (lex_quoted (.inl rfl))
    (endsAt_of_boundary rfl hrest) ?_
  rw [pending, if_pos rfl, String.ofList_toList]
  rfl

theorem laid_string {t : String} (hrest : Boundary rest) : Laid style [.string t] rest := by
  refine Laid.of_lex (s := .closing '\'' t.toList) (lex_quoted (.inr rfl))
    (endsAt_of_boundary rfl hrest) ?_
  rw [pending, if_neg (by decide), String.ofList_toList]
  rfl

theorem laid_parameter {p : Parameter} (hp : readsPiece style.placeholders (.parameter p))
    (hrest : Boundary rest) : Laid style [.parameter p] rest := by
  cases hstyle : style.placeholders with
  | positional =>
    refine Laid.of_lex (s := .placeholder) ?_ (endsAt_of_boundary rfl hrest) ?_
    · simp only [Style.spelling, hstyle]
      rfl
    · simp only [pieceTokens, hstyle]
      rfl
  | named =>
    have hname : ∀ c ∈ p.name.toList, isWordChar c := by
      simpa [readsPiece, hstyle] using hp
    refine Laid.of_lex (s := .named p.name.toList) ?_ (endsAt_of_boundary rfl hrest) ?_
    · simp only [Style.spelling, hstyle, List.cons_append]
      rw [lex_blank_cons, show start '@' = .named [] from rfl, lex_named_append hname,
        List.nil_append]
    · simp only [pieceTokens, hstyle, pending, String.ofList_toList]

theorem start_of_mem_singles (hc : c ∈ singles) : start c = .symbol c := by
  have hall : ∀ c ∈ singles, start c = .symbol c := List.all_iff_forall_prop.mp (by decide)
  exact hall c hc

/-- The symbols that no other character extends. -/
theorem laid_free {a : Char} (ha : a ∈ ['+', '*', '=', '(', ')', ',', '.']) :
    Laid style [.symbol (String.ofList [a])] rest := by
  have hend : (Lexing.symbol a).EndsAt rest := by
    cases rest with
    | nil => trivial
    | cons c cs =>
      simp only [List.mem_cons, List.not_mem_nil, or_false] at ha
      rcases ha with rfl | rfl | rfl | rfl | rfl | rfl | rfl <;> simp [EndsAt, extend?, pairs]
  have hsingle : ∀ a ∈ ['+', '*', '=', '(', ')', ',', '.'], a ∈ singles :=
    List.all_iff_forall_prop.mp (by decide)
  refine Laid.of_lex (s := .symbol a) ?_ hend rfl
  rw [Style.spelling, String.toList_ofList, List.singleton_append, lex_blank_cons,
    start_of_mem_singles (hsingle a ha)]

theorem laid_symbol {t : String} (ht : t ∈ symbols) (hrest : Boundary rest) :
    Laid style [.symbol t] rest := by
  rcases List.mem_append.1 ht with hsingle | hpair
  · obtain ⟨a, ha, rfl⟩ := List.mem_map.1 hsingle
    refine Laid.of_lex (s := .symbol a) ?_ (endsAt_of_boundary rfl hrest) rfl
    rw [Style.spelling, String.toList_ofList, List.singleton_append, lex_blank_cons,
      start_of_mem_singles ha]
  · obtain ⟨⟨a, b⟩, hab, rfl⟩ := List.mem_map.1 hpair
    have hboth : ∀ ab ∈ pairs, start ab.1 = .symbol ab.1 ∧
        (Lexing.symbol ab.1).extend? ab.2 = some (.pair ab.1 ab.2) := by
      decide
    obtain ⟨hstart, hpair⟩ := hboth (a, b) hab
    refine Laid.of_lex (s := .pair a b) ?_ (endsAt_of_boundary rfl hrest) rfl
    rw [Style.spelling, String.toList_ofList, List.cons_append, lex_blank_cons, hstart,
      List.singleton_append, lex_cons_of_extend hpair]

/-- In front of a boundary each piece is read as its tokens. -/
theorem laid_piece (hp : readsPiece style.placeholders p) (hrest : Boundary rest) :
    Laid style [p] rest := by
  cases p with
  | word w => exact laid_word hp hrest
  | symbol t => exact laid_symbol (by simpa [readsPiece] using hp) hrest
  | number ds =>
    simp only [readsPiece, Bool.and_eq_true, decide_eq_true_eq, List.all_eq_true] at hp
    exact laid_number hp.1 hp.2 hrest
  | space => exact laid_space
  | name id => exact laid_name hrest
  | string t => exact laid_string hrest
  | parameter q => exact laid_parameter hp hrest
  | constant | refused => cases hp

end QueryLoom.Sql.Reading

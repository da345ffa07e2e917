/-
  QueryLoom/Proofs/Rendering/Lexing.lean
  ======================================
  **The tokens of a statement's text.**  The lexer goes through the text once and keeps the
  token that it is in: a word, a number with its fraction and exponent, a symbol of one or two
  characters, a text between quotes in which a doubled quote stands for one, or a comment, which
  two minus signs or a slash and an asterisk open.

  A piece that is readable is lexed as one token, as long as the next piece cannot be taken for
  more of it.  `Piece.apart` says so of two pieces by their kind, and only a minus depends on
  more than that.

    * `tokens_spelled` — readable pieces that are apart from each other are lexed one by one.
-/
import Mathlib.Data.List.Chain
import QueryLoom.Proofs.Reading.Token

namespace QueryLoom.Sql

open Reading (isWordChar isWord pairs symbols)

namespace Lexical

/-- A token of SQL text. -/
inductive Token where
  | word (w : String)
  | number (text : String)
  | symbol (s : String)
  | name (id : String)
  | string (s : String)
  | comment
  /-- A text between quotes that is not closed. -/
  | unclosed
deriving DecidableEq, Repr

/-! ### Numbers -/

/-- How far a number has been read. -/
inductive Numeral where
  | start
  | whole
  | fraction
  | exponent
  | power
deriving DecidableEq, Repr

/-- The number with one more character, unless the character is not part of it. -/
def Numeral.next? : Numeral → Char → Option Numeral
  | start, c => if c.isDigit then some whole else none
  | whole, c =>
    if c.isDigit then some whole
    else if c = '.' then some fraction
    else if c = 'e' ∨ c = 'E' then some exponent
    else none
  | fraction, c =>
    if c.isDigit then some fraction else if c = 'e' ∨ c = 'E' then some exponent else none
  | exponent, c => if c.isDigit ∨ c = '+' ∨ c = '-' then some power else none
  | power, c => if c.isDigit then some power else none

/-- The number with more characters. -/
def Numeral.after? (n : Numeral) (cs : List Char) : Option Numeral := cs.foldlM next? n

/-- Whether a text is read as one number. -/
def isNumeral (text : String) : Bool :=
  !text.isEmpty && (Numeral.start.after? text.toList).isSome

/-! ### The lexer -/

/-- The token that the lexer is in. -/
inductive State where
  | blank
  | word (cs : List Char)
  | number (n : Numeral) (cs : List Char)
  | symbol (c : Char)
  | pair (c d : Char)
  | quoted (q : Char) (cs : List Char)
  /-- After a quote that closes the text unless it is doubled. -/
  | closing (q : Char) (cs : List Char)
  | lineComment
  | blockComment (afterStar : Bool)
  | commented
deriving DecidableEq, Repr

namespace State

/-- The token that ends where the lexer is. -/
def pending : State → List Token
  | blank => []
  | word cs => [.word (String.ofList cs)]
  | number _ cs => [.number (String.ofList cs)]
  | symbol c => [.symbol (String.ofList [c])]
  | pair c d => [.symbol (String.ofList [c, d])]
  | quoted .. => [.unclosed]
  | closing q cs => [if q = '"' then .name (String.ofList cs) else .string (String.ofList cs)]
  | lineComment | blockComment _ | commented => [.comment]

/-- The token with one more character, unless the character is not part of it. -/
def extend? : State → Char → Option State
  | blank, _ | pair .., _ | commented, _ => none
  | word cs, c => if isWordChar c then some (word (cs ++ [c])) else none
  | number n cs, c => (n.next? c).map fun m => number m (cs ++ [c])
  | symbol a, c =>
    if a = '-' ∧ c = '-' then some lineComment
    else if a = '/' ∧ c = '*' then some (blockComment false)
    else if pairs.contains (a, c) then some (pair a c)
    else none
  | quoted q cs, c => some (if c = q then closing q cs else quoted q (cs ++ [c]))
  | closing q cs, c => if c = q then some (quoted q (cs ++ [q])) else none
  | lineComment, c => if c = '\n' then none else some lineComment
  | blockComment afterStar, c =>
    some (if afterStar ∧ c = '/' then commented else blockComment (c == '*'))

/-- The token that a character starts. -/
def start (c : Char) : State :=
  if c.isWhitespace then blank
  else if c.isDigit then number .whole [c]
  else if c.isAlpha then word [c]
  else if c = '"' ∨ c = '\'' then quoted c []
  else symbol c

end State

/-- The tokens of a text, from inside the given one. -/
def lex (s : State) : List Char → List Token
  | [] => s.pending
  | c :: cs =>
    match s.extend? c with
    | some s => lex s cs
    | none => s.pending ++ lex (.start c) cs

/-- The tokens of a text. -/
def tokens (text : String) : List Token := lex .blank text.toList

end Lexical

/-! ### Pieces -/

namespace Piece

/-- Whether a piece is lexed as one token, a space as none. -/
def isReadable : Piece → Bool
  | word w => isWord w
  | symbol s => symbols.contains s
  | number text => Lexical.isNumeral text
  | space | name _ | string _ | parameter _ | constant _ => true
  | refused _ => false

/-- Whether a piece stands for something that the server cannot represent. -/
def isRefused : Piece → Bool
  | refused _ => true
  | _ => false

/-- Whether a piece is readable if it can be written at all. -/
def isSound (p : Piece) : Bool := p.isReadable || p.isRefused

/-- What a piece is lexed as. -/
def token? : Piece → Option Lexical.Token
  | word w => some (.word w)
  | symbol s => some (.symbol s)
  | number text => some (.number text)
  | name id => some (.name id)
  | string s => some (.string s)
  | parameter _ | constant _ => some (.symbol "?")
  | space | refused _ => none

/-- Whether a piece ends before whatever follows it. -/
def opens : Piece → Bool
  | space => true
  | symbol s => ["(", ",", "."].contains s
  | _ => false

/-- Whether whatever stands before a piece ends there. -/
def closes : Piece → Bool
  | space => true
  | symbol s => ["(", ")", ","].contains s
  | _ => false

/-- Whether a piece is a name. -/
def isName : Piece → Bool
  | name _ => true
  | _ => false

/-- Whether the second of two pieces cannot be taken for more of the first. -/
def apart (p q : Piece) : Bool :=
  p.opens || q.closes || (p.isName && q == symbol ".") || (p == symbol "-" && q != symbol "-")

end Piece

namespace Lexical

open State

variable {s s' : State} {c q : Char} {cs acc rest : List Char}

/-- Whether the token ends in front of a text. -/
def State.EndsAt (s : State) : List Char → Prop
  | [] => True
  | c :: _ => s.extend? c = none

theorem lex_cons_of_extend (h : s.extend? c = some s') : lex s (c :: cs) = lex s' cs := by
  rw [lex, h]

theorem lex_blank_cons : lex .blank (c :: cs) = lex (start c) cs := rfl

theorem lex_of_endsAt (h : s.EndsAt rest) : lex s rest = s.pending ++ lex .blank rest := by
  cases rest with
  | nil => exact (List.append_nil _).symm
  | cons c cs =>
    rw [lex, h]
    rfl

/-! ### Characters that stay in one token -/

theorem foldlM_cons_of_extend (h : s.extend? c = some s') :
    (c :: cs).foldlM extend? s = cs.foldlM extend? s' := by
  rw [List.foldlM_cons, h]
  rfl

theorem lex_append_of_foldlM (h : cs.foldlM extend? s = some s') :
    lex s (cs ++ rest) = lex s' rest := by
  induction cs generalizing s with
  | nil => rw [List.nil_append, Option.some.inj h]
  | cons c cs ih =>
    obtain ⟨k, hk, hrest⟩ := Option.bind_eq_some_iff.mp h
    rw [List.cons_append, lex_cons_of_extend hk, ih hrest]

theorem foldlM_word (h : ∀ c ∈ cs, isWordChar c = true) :
    cs.foldlM extend? (.word acc) = some (.word (acc ++ cs)) := by
  induction cs generalizing acc with
  | nil =>
    rw [List.append_nil]
    rfl
  | cons c cs ih =>
    have hc : (State.word acc).extend? c = some (.word (acc ++ [c])) := by
      rw [extend?, if_pos (h c List.mem_cons_self)]
    rw [foldlM_cons_of_extend hc, ih fun d hd => h d (List.mem_cons_of_mem c hd),
      List.append_assoc, List.singleton_append]

theorem foldlM_number {n m : Numeral} (h : n.after? cs = some m) :
    cs.foldlM extend? (.number n acc) = some (.number m (acc ++ cs)) := by
  induction cs generalizing n acc with
  | nil =>
    obtain rfl : n = m := Option.some.inj h
    rw [List.append_nil]
    rfl
  | cons c cs ih =>
    obtain ⟨k, hk, hrest⟩ := Option.bind_eq_some_iff.mp h
    have hc : (State.number n acc).extend? c = some (.number k (acc ++ [c])) := by
      rw [extend?, hk, Option.map_some]
    rw [foldlM_cons_of_extend hc, ih hrest, List.append_assoc, List.singleton_append]

/-- A text with its quotes doubled is read as it was. -/
theorem foldlM_quoted :
    (Text.doubled q cs).foldlM extend? (.quoted q acc) = some (.quoted q (acc ++ cs)) := by
  induction cs generalizing acc with
  | nil =>
    rw [List.append_nil]
    rfl
  | cons c cs ih =>
    rw [Text.doubled]
    split
    · next hc =>
      have hopen : (State.quoted q acc).extend? q = some (.closing q acc) := by
        rw [extend?, if_pos rfl]
      have hdouble : (State.closing q acc).extend? q = some (.quoted q (acc ++ [q])) := by
        rw [extend?, if_pos rfl]
      rw [foldlM_cons_of_extend hopen, foldlM_cons_of_extend hdouble, ih, hc, List.append_assoc,
        List.singleton_append]
    · next hc =>
      have hinside : (State.quoted q acc).extend? c = some (.quoted q (acc ++ [c])) := by
        rw [extend?, if_neg hc]
      rw [foldlM_cons_of_extend hinside, ih, List.append_assoc, List.singleton_append]

/-- The characters start a token and stay in it. -/
def Reaches (cs : List Char) (s : State) : Prop :=
  ∃ c rest, cs = c :: rest ∧ rest.foldlM extend? (start c) = some s

theorem Reaches.lex_eq (h : Reaches cs s) (rest : List Char) :
    lex .blank (cs ++ rest) = lex s rest := by
  obtain ⟨c, cs, rfl, hcs⟩ := h
  rw [List.cons_append, lex_blank_cons, lex_append_of_foldlM hcs]

/-! ### Pieces as tokens -/

theorem start_of_isDigit (hc : c.isDigit) : start c = .number .whole [c] := by
  have hblank : c.isWhitespace = false :=
    Reading.not_isWhitespace_of_isAlphanum (by simp [Char.isAlphanum, hc])
  simp [start, hc, hblank]

theorem start_of_isAlpha (hc : c.isAlpha) : start c = .word [c] := by
  have hblank : c.isWhitespace = false :=
    Reading.not_isWhitespace_of_isAlphanum (by simp [Char.isAlphanum, hc])
  simp [start, hc, hblank, Reading.not_isDigit_of_isAlpha hc]

/-- A text between quotes is read as the text. -/
theorem reaches_quoted {t : String} (hq : q = '"' ∨ q = '\'') :
    Reaches (Text.quoted q t).toList (.closing q t.toList) := by
  have hstart : start q = .quoted q [] := by
    rcases hq with rfl | rfl <;> rfl
  have hclose : (State.quoted q t.toList).extend? q = some (.closing q t.toList) := by
    rw [extend?, if_pos rfl]
  refine ⟨q, Text.doubled q t.toList ++ [q], ?_, ?_⟩
  · rw [Text.quoted, String.toList_ofList]
  · rw [hstart, List.foldlM_append, foldlM_quoted, List.nil_append]
    exact foldlM_cons_of_extend hclose

/-- A piece leads the lexer from a blank into a token that is its own, and every piece that is
    apart from it ends that token. -/
structure Leads (style : Style) (p : Piece) (s : State) : Prop where
  reaches : Reaches (style.spelling p) s
  pending : s.pending = p.token?.toList
  ends : ∀ q : Piece, q.isReadable = true → p.apart q = true →
    ∀ c ∈ (style.spelling q).head?, s.extend? c = none

section

variable {style : Style} {p q : Piece} {ps : List Piece}

theorem head?_of_closes (hq : q.closes = true) :
    ∀ c ∈ (style.spelling q).head?, c ∈ [' ', '(', ')', ','] := by
  cases q with
  | space =>
    rintro c ⟨⟩
    decide
  | symbol t =>
    simp only [Piece.closes, List.contains_iff_mem, List.mem_cons, List.not_mem_nil,
      or_false] at hq
    rcases hq with rfl | rfl | rfl <;> rintro c ⟨⟩ <;> decide
  | _ => cases hq

theorem isAlpha_of_isWord {w : String} (hw : isWord w = true) :
    ∃ c cs, w.toList = c :: cs ∧ c.isAlpha = true ∧ ∀ d ∈ cs, isWordChar d = true := by
  rw [isWord] at hw
  cases hcs : w.toList with
  | nil => simp [hcs] at hw
  | cons c cs =>
    simp only [hcs, Bool.and_eq_true, List.all_eq_true] at hw
    exact ⟨c, cs, rfl, hw⟩

theorem isDigit_of_isNumeral {t : String} (ht : isNumeral t = true) :
    ∃ c cs m, t.toList = c :: cs ∧ c.isDigit = true ∧ Numeral.whole.after? cs = some m := by
  simp only [isNumeral, Bool.and_eq_true, Option.isSome_iff_exists] at ht
  obtain ⟨hne, m, hm⟩ := ht
  cases hcs : t.toList with
  | nil =>
    obtain rfl : t = "" := by simpa using hcs
    cases hne
  | cons c cs =>
    rw [hcs] at hm
    obtain ⟨k, hk, hrest⟩ := Option.bind_eq_some_iff.mp hm
    rw [Numeral.next?] at hk
    split at hk
    · rename_i hdigit
      cases hk
      exact ⟨c, cs, m, rfl, hdigit, hrest⟩
    · cases hk

/-- What a readable piece starts with. -/
theorem head?_of_isReadable (hq : q.isReadable = true) : ∀ c ∈ (style.spelling q).head?,
    c.isAlphanum = true ∨ c ∈ [' ', '"', '\''] ∨
      (∃ t ∈ symbols, q = .symbol t ∧ t.toList.head? = some c) ∨
      (q.binding?.isSome = true ∧ c ∈ ['?', '@']) := by
  cases q with
  | word w =>
    obtain ⟨c, cs, hcs, hc, _⟩ := isAlpha_of_isWord hq
    rw [Style.spelling, hcs]
    rintro _ ⟨⟩
    exact .inl (by simp [Char.isAlphanum, hc])
  | symbol t => exact fun c hc => .inr (.inr (.inl ⟨t, List.contains_iff_mem.mp hq, rfl, hc⟩))
  | number t =>
    obtain ⟨c, cs, _, hcs, hc, _⟩ := isDigit_of_isNumeral hq
    rw [Style.spelling, hcs]
    rintro _ ⟨⟩
    exact .inl (by simp [Char.isAlphanum, hc])
  | name _ | string _ =>
    rw [Style.spelling, Text.quoted, String.toList_ofList]
    rintro _ ⟨⟩
    exact .inr (.inl (by decide))
  | space =>
    rintro _ ⟨⟩
    exact .inr (.inl (by decide))
  | parameter _ =>
    rw [Style.spelling]
    split <;> rintro _ ⟨⟩ <;> exact .inr (.inr (.inr ⟨rfl, by decide⟩))
  | constant _ =>
    rintro _ ⟨⟩
    exact .inr (.inr (.inr ⟨rfl, by decide⟩))
  | refused _ => cases hq

/-- Besides the minus no readable piece starts with one. -/
theorem head?_ne_minus (hq : q.isReadable = true) (hminus : q ≠ .symbol "-") :
    ∀ c ∈ (style.spelling q).head?, c ≠ '-' := by
  have hall : ∀ t ∈ symbols, t.toList.head? = some '-' → t = "-" :=
    List.all_iff_forall_prop.mp (by decide)
  rintro _ hc rfl
  rcases head?_of_isReadable hq _ hc with h | h | ⟨t, ht, rfl, h⟩ | ⟨-, h⟩
  · exact absurd h (by decide)
  · exact absurd h (by decide)
  · exact hminus (by rw [hall t ht h])
  · exact absurd h (by decide)

/-- Besides placeholders no readable piece starts with an at sign. -/
theorem head?_ne_at (hq : q.isReadable = true) (hbinds : q.binding? = none) :
    ∀ c ∈ (style.spelling q).head?, c ≠ '@' := by
  have hall : ∀ t ∈ symbols, t.toList.head? ≠ some '@' := by decide
  rintro _ hc rfl
  rcases head?_of_isReadable hq _ hc with h | h | ⟨t, ht, rfl, h⟩ | ⟨h, -⟩
  · exact absurd h (by decide)
  · exact absurd h (by decide)
  · exact hall t ht h
  · rw [hbinds] at h
    cases h

theorem isWordChar_of_closes : ∀ c ∈ [' ', '(', ')', ','], isWordChar c = false :=
  List.all_iff_forall_prop.mp (by decide)

theorem next?_of_closes (n : Numeral) : ∀ c ∈ [' ', '(', ')', ','], n.next? c = none :=
  List.all_iff_forall_prop.mp (by cases n <;> decide)

theorem extend?_symbol_of_closes (a : Char) :
    ∀ c ∈ [' ', '(', ')', ','], (State.symbol a).extend? c = none := by
  intro c hc
  simp only [List.mem_cons, List.not_mem_nil, or_false] at hc
  rcases hc with rfl | rfl | rfl | rfl <;> simp [extend?, pairs]

theorem leads_word {w : String} (hw : isWord w = true) : Leads style (.word w) (.word w.toList) where
  reaches := by
    obtain ⟨c, cs, hcs, hc, hrest⟩ := isAlpha_of_isWord hw
    refine ⟨c, cs, hcs, ?_⟩
    rw [start_of_isAlpha hc, foldlM_word hrest, hcs, List.singleton_append]
  pending := by
    rw [State.pending, String.ofList_toList]
    rfl
  ends q hq hapart c hc := by
    have hcloses : q.closes = true := by simpa [Piece.apart, Piece.opens, Piece.isName] using hapart
    rw [extend?, isWordChar_of_closes c (head?_of_closes hcloses c hc)]
    rfl

theorem leads_number {t : String} (ht : isNumeral t = true) :
    ∃ n, Leads style (.number t) (.number n t.toList) := by
  obtain ⟨c, cs, m, hcs, hc, hrest⟩ := isDigit_of_isNumeral ht
  refine ⟨m, ?_, ?_, ?_⟩
  · refine ⟨c, cs, hcs, ?_⟩
    rw [start_of_isDigit hc, foldlM_number hrest, hcs, List.singleton_append]
  · rw [State.pending, String.ofList_toList]
    rfl
  · intro q hq hapart d hd
    have hcloses : q.closes = true := by simpa [Piece.apart, Piece.opens, Piece.isName] using hapart
    rw [extend?, next?_of_closes m d (head?_of_closes hcloses d hd)]
    rfl

theorem leads_single {a : Char} (ha : a ∈ Reading.singles) :
    Leads style (.symbol (String.ofList [a])) (.symbol a) where
  reaches := by
    have hstart : ∀ a ∈ Reading.singles, start a = .symbol a :=
      List.all_iff_forall_prop.mp (by decide)
    exact ⟨a, [], String.toList_ofList, congrArg some (hstart a ha)⟩
  pending := rfl
  ends q hq hapart c hc := by
    simp only [Piece.apart, Piece.isName, Bool.false_and, Bool.or_false, Bool.or_eq_true,
      Bool.and_eq_true, beq_iff_eq, bne_iff_ne] at hapart
    rcases hapart with (hopens | hcloses) | ⟨hself, hminus⟩
    · have hopen : ∀ a ∈ Reading.singles, (Piece.symbol (String.ofList [a])).opens = true →
          a ∈ ['(', ',', '.'] := List.all_iff_forall_prop.mp (by decide)
      have ha := hopen a ha hopens
      simp only [List.mem_cons, List.not_mem_nil, or_false] at ha
      rcases ha with rfl | rfl | rfl <;> simp [extend?, pairs]
    · exact extend?_symbol_of_closes a c (head?_of_closes hcloses c hc)
    · obtain rfl : a = '-' := by
        have hall : ∀ a ∈ Reading.singles, Piece.symbol (String.ofList [a]) = .symbol "-" →
            a = '-' := List.all_iff_forall_prop.mp (by decide)
        exact hall a ha hself
      have hc' := head?_ne_minus hq hminus c hc
      simp [extend?, pairs, hc']

theorem leads_pair {a b : Char} (hab : (a, b) ∈ pairs) :
    Leads style (.symbol (String.ofList [a, b])) (.pair a b) where
  reaches := by
    have hstart : ∀ x ∈ pairs, start x.1 = .symbol x.1 ∧
        (State.symbol x.1).extend? x.2 = some (.pair x.1 x.2) := by decide
    obtain ⟨hfirst, hsecond⟩ := hstart (a, b) hab
    refine ⟨a, [b], String.toList_ofList, ?_⟩
    rw [hfirst]
    exact foldlM_cons_of_extend hsecond
  pending := rfl
  ends _ _ _ _ _ := rfl

theorem leads_symbol {t : String} (ht : t ∈ symbols) : ∃ s, Leads style (.symbol t) s := by
  rcases List.mem_append.mp ht with ht | ht
  · obtain ⟨a, ha, rfl⟩ := List.mem_map.mp ht
    exact ⟨_, leads_single ha⟩
  · obtain ⟨⟨a, b⟩, hab, rfl⟩ := List.mem_map.mp ht
    exact ⟨_, leads_pair hab⟩

theorem leads_name (id : String) : Leads style (.name id) (.closing '"' id.toList) where
  reaches := reaches_quoted (.inl rfl)
  pending := by
    rw [State.pending, if_pos rfl, String.ofList_toList]
    rfl
  ends q hq hapart c hc := by
    have hne : c ≠ '"' := by
      simp only [Piece.apart, Piece.opens, Piece.isName, Bool.false_or, Bool.true_and,
        Bool.or_eq_true, Bool.and_eq_true, beq_iff_eq, reduceCtorEq, false_and,
        or_false] at hapart
      rcases hapart with hcloses | rfl
      · have hmem := head?_of_closes hcloses c hc
        rintro rfl
        exact absurd hmem (by decide)
      · obtain rfl : '.' = c := Option.some.inj hc
        decide
    rw [extend?, if_neg hne]

theorem leads_string (t : String) : Leads style (.string t) (.closing '\'' t.toList) where
  reaches := reaches_quoted (.inr rfl)
  pending := by
    rw [State.pending, if_neg (by decide), String.ofList_toList]
    rfl
  ends q hq hapart c hc := by
    have hcloses : q.closes = true := by simpa [Piece.apart, Piece.opens, Piece.isName] using hapart
    have hmem := head?_of_closes hcloses c hc
    have hne : c ≠ '\'' := by
      rintro rfl
      exact absurd hmem (by decide)
    rw [extend?, if_neg hne]

theorem leads_placeholder (hp : style.spelling p = ['?']) (htoken : p.token? = some (.symbol "?"))
    (hopens : p.opens = false) (hname : p.isName = false) (hminus : p ≠ .symbol "-") :
    Leads style p (.symbol '?') where
  reaches := ⟨'?', [], hp, rfl⟩
  pending := by
    rw [htoken]
    rfl
  ends q hq hapart c hc := by
    have hcloses : q.closes = true := by simpa [Piece.apart, hopens, hname, hminus] using hapart
    exact extend?_symbol_of_closes '?' c (head?_of_closes hcloses c hc)

/-- Every readable piece leads the lexer into a token of its own, a parameter where placeholders
    are positional. -/
theorem exists_leads (hp : p.isReadable = true)
    (hstyle : style.placeholders = .positional ∨ p.binding? = none) : ∃ s, Leads style p s := by
  cases p with
  | word w => exact ⟨_, leads_word hp⟩
  | symbol t => exact leads_symbol (List.contains_iff_mem.mp hp)
  | number t =>
    obtain ⟨n, hn⟩ : ∃ n, Leads style (.number t) (.number n t.toList) := leads_number hp
    exact ⟨_, hn⟩
  | space => exact ⟨.blank, ⟨' ', [], rfl, rfl⟩, rfl, fun _ _ _ _ _ => rfl⟩
  | name id => exact ⟨_, leads_name id⟩
  | string t => exact ⟨_, leads_string t⟩
  | parameter q =>
    have hpositional : style.placeholders = .positional := hstyle.resolve_right nofun
    have hspelling : style.spelling (.parameter q) = ['?'] := by rw [Style.spelling, hpositional]
    exact ⟨_, leads_placeholder hspelling rfl rfl rfl (by simp)⟩
  | constant v => exact ⟨_, leads_placeholder rfl rfl rfl rfl (by simp)⟩
  | refused e => cases hp

theorem spelling_ne_nil (hp : p.isReadable = true) : style.spelling p ≠ [] := by
  cases p with
  | word w =>
    obtain ⟨c, cs, hcs, _⟩ := isAlpha_of_isWord hp
    simp [Style.spelling, hcs]
  | symbol t =>
    have hall : ∀ t ∈ symbols, t.toList ≠ [] := by decide
    exact hall t (List.contains_iff_mem.mp hp)
  | number t =>
    obtain ⟨c, cs, _, hcs, _⟩ := isDigit_of_isNumeral hp
    simp [Style.spelling, hcs]
  | parameter q =>
    rw [Style.spelling]
    split <;> simp
  | name _ | string _ => simp [Style.spelling, Text.quoted]
  | space | constant _ => simp [Style.spelling]
  | refused _ => cases hp

/-- The pieces behind a piece end its token. -/
theorem Leads.endsAt {s : State} (hs : Leads style p s) (hps : ∀ q ∈ ps, q.isReadable = true)
    (hapart : (p :: ps).IsChain fun p q => p.apart q = true) :
    s.EndsAt (ps.flatMap style.spelling) := by
  cases ps with
  | nil => trivial
  | cons q ps =>
    have hq : q.isReadable = true := hps q List.mem_cons_self
    have hpq : p.apart q = true := (List.isChain_cons_cons.mp hapart).1
    cases hcs : style.spelling q with
    | nil => exact absurd hcs (spelling_ne_nil hq)
    | cons c cs =>
      rw [List.flatMap_cons, hcs, List.cons_append]
      exact hs.ends q hq hpq c (by simp [hcs])

/-- Readable pieces that are apart from each other are lexed one by one. -/
theorem lex_spelled (hstyle : style.placeholders = .positional)
    (hps : ∀ p ∈ ps, p.isReadable = true) (hapart : ps.IsChain fun p q => p.apart q = true) :
    lex .blank (ps.flatMap style.spelling) = ps.filterMap Piece.token? := by
  induction ps with
  | nil => rfl
  | cons p ps ih =>
    obtain ⟨hp, hrest⟩ := List.forall_mem_cons.mp hps
    obtain ⟨s, hs⟩ : ∃ s, Leads style p s := exists_leads hp (.inl hstyle)
    rw [List.flatMap_cons, hs.reaches.lex_eq, lex_of_endsAt (hs.endsAt hrest hapart),
      hs.pending, ih hrest hapart.tail]
    cases htoken : p.token? with
    | none => rw [List.filterMap_cons_none htoken]; rfl
    | some t => rw [List.filterMap_cons_some htoken]; rfl

end

end Lexical

/-- Pieces that were written are not refused. -/
theorem Style.not_isRefused_of_write {style : Style} {bound bound' : List Binding}
    {ps : List Piece} {text : String} (h : style.write bound ps = (.ok text, bound')) :
    ∀ p ∈ ps, p.isRefused = false := by
  induction ps generalizing bound text with
  | nil => exact List.forall_mem_nil _
  | cons p ps ih =>
    obtain ⟨first, between, rest, hfirst, hrest, rfl⟩ := write_cons_eq_ok h
    refine List.forall_mem_cons.mpr ⟨?_, ih hrest⟩
    cases p with
    | refused e => cases hfirst
    | _ => rfl

end QueryLoom.Sql

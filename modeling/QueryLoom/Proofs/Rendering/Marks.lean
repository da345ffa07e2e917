/-
  QueryLoom/Proofs/Rendering/Marks.lean
  =====================================
  **Question marks are placeholders.**  A question mark in a text is a placeholder unless it
  stands between quotes.  Outside quotes nothing but a placeholder is written as one: words,
  symbols and numbers hold neither question marks nor quotes, and what is quoted ends with the
  quote that it started with, because the quotes inside are doubled.

    * `marked_spelled` — the pieces of a statement have as many placeholders as they bind;
    * `marks_of_render` — with positional placeholders, the bindings are what the expressions
      met by `walk` bind, and each of these is written as the question mark in its place.
-/
import QueryLoom.Proofs.Drafting.Vocabulary
import QueryLoom.Proofs.Rendering.Separation
import QueryLoom.Proofs.Rendering.Walk

namespace QueryLoom.Sql

/-! ### Question marks in texts -/

/-- The quote that a text between quotes waits for after one more character. -/
def quoteAfter (open? : Option Char) (c : Char) : Option Char :=
  match open? with
  | none => if c = '\'' ∨ c = '"' then some c else none
  | some q => if c = q then none else some q

/-- The quote that the rest of a text is between, if it is between quotes. -/
def openQuote (open? : Option Char) (cs : List Char) : Option Char := cs.foldl quoteAfter open?

/-- The number of question marks that are not between quotes. -/
def countMarks (open? : Option Char) : List Char → Nat
  | [] => 0
  | c :: cs => (if open? = none ∧ c = '?' then 1 else 0) + countMarks (quoteAfter open? c) cs

/-- The text closes its quotes and has `n` question marks outside of them. -/
structure Marked (cs : List Char) (n : Nat) : Prop where
  closed : openQuote none cs = none
  count : countMarks none cs = n

section

variable {xs ys cs : List Char} {m n : Nat}

theorem countMarks_append (open? : Option Char) (xs ys : List Char) :
    countMarks open? (xs ++ ys) = countMarks open? xs + countMarks (openQuote open? xs) ys := by
  induction xs generalizing open? with
  | nil => simp [countMarks, openQuote]
  | cons c cs ih =>
    rw [List.cons_append, countMarks, countMarks, ih, openQuote, openQuote, List.foldl_cons,
      Nat.add_assoc]

theorem Marked.nil : Marked [] 0 := ⟨rfl, rfl⟩

theorem Marked.append (hxs : Marked xs m) (hys : Marked ys n) : Marked (xs ++ ys) (m + n) where
  closed := by
    have hclosed : openQuote (openQuote none xs) ys = none := by rw [hxs.closed, hys.closed]
    rwa [openQuote, openQuote, ← List.foldl_append] at hclosed
  count := by rw [countMarks_append, hxs.closed, hxs.count, hys.count]

theorem Marked.mark : Marked ['?'] 1 := ⟨rfl, rfl⟩

theorem Marked.ordinary {c : Char} (hc : isOrdinary c = true) : Marked [c] 0 := by
  simp only [isOrdinary, Bool.and_eq_true, bne_iff_ne] at hc
  obtain ⟨⟨hmark, hsingle⟩, hdouble⟩ := hc
  exact ⟨by simp [openQuote, quoteAfter, hsingle, hdouble], by simp [countMarks, hmark]⟩

theorem Marked.bare (h : cs.all isOrdinary = true) : Marked cs 0 := by
  induction cs with
  | nil => exact Marked.nil
  | cons c cs ih =>
    simp only [List.all_cons, Bool.and_eq_true] at h
    exact (Marked.ordinary h.1).append (ih h.2)

/-- Between quotes that are doubled there are no placeholders and no end. -/
theorem openQuote_doubled {q : Char} (hq : quoteAfter none q = some q) (hmark : q ≠ '?')
    (cs : List Char) : openQuote (some q) (Text.doubled q cs) = some q ∧
      countMarks (some q) (Text.doubled q cs) = 0 := by
  induction cs with
  | nil => exact ⟨rfl, rfl⟩
  | cons c cs ih =>
    have hclose : quoteAfter (some q) q = none := if_pos rfl
    rw [Text.doubled]
    split
    · rw [openQuote, List.foldl_cons, List.foldl_cons, hclose, hq, countMarks, countMarks, hclose,
        hq]
      exact ⟨ih.1, by simp [ih.2, hmark]⟩
    · rename_i hc
      have hinside : quoteAfter (some q) c = some q := if_neg hc
      rw [openQuote, List.foldl_cons, hinside, countMarks, hinside]
      exact ⟨ih.1, by simp [ih.2]⟩

theorem Marked.quoted {q : Char} (hq : q = '"' ∨ q = '\'') (t : String) :
    Marked (Text.quoted q t).toList 0 := by
  have hstart : quoteAfter none q = some q := by rcases hq with rfl | rfl <;> rfl
  have hmark : q ≠ '?' := by rcases hq with rfl | rfl <;> decide
  have hclose : quoteAfter (some q) q = none := if_pos rfl
  obtain ⟨hopen, hcount⟩ := openQuote_doubled hstart hmark t.toList
  rw [Text.quoted, String.toList_ofList]
  refine ⟨?_, ?_⟩
  · rw [openQuote, List.foldl_cons, hstart, List.foldl_append]
    rw [openQuote] at hopen
    rw [hopen, List.foldl_cons, hclose, List.foldl_nil]
  · rw [countMarks, hstart, countMarks_append, hcount, hopen]
    simp [countMarks, hmark]

end

/-! ### Pieces -/

theorem isOrdinary_of_isAlphanum {c : Char} (hc : c.isAlphanum = true) : isOrdinary c = true := by
  simp only [isOrdinary, Bool.and_eq_true, bne_iff_ne]
  refine ⟨⟨?_, ?_⟩, ?_⟩ <;> rintro rfl <;> exact absurd hc (by decide)

theorem isOrdinary_of_isWordChar {c : Char} (hc : Reading.isWordChar c = true) :
    isOrdinary c = true := by
  simp only [Reading.isWordChar, Bool.or_eq_true, beq_iff_eq] at hc
  rcases hc with (hc | rfl) | rfl
  · exact isOrdinary_of_isAlphanum hc
  · rfl
  · rfl

theorem isOrdinary_of_next? {n m : Lexical.Numeral} {c : Char} (h : n.next? c = some m) :
    isOrdinary c = true := by
  have hdigit : c.isDigit = true → isOrdinary c = true := fun hc =>
    isOrdinary_of_isAlphanum (by simp [Char.isAlphanum, hc])
  by_cases hc : c.isDigit = true
  · exact hdigit hc
  · have hother : c = '.' ∨ c = 'e' ∨ c = 'E' ∨ c = '+' ∨ c = '-' := by
      cases n <;> simp only [Lexical.Numeral.next?, hc] at h <;> grind
    rcases hother with rfl | rfl | rfl | rfl | rfl <;> rfl

theorem all_isOrdinary_of_after? {cs : List Char} {n m : Lexical.Numeral}
    (h : n.after? cs = some m) : cs.all isOrdinary = true := by
  induction cs generalizing n with
  | nil => rfl
  | cons c cs ih =>
    obtain ⟨k, hk, hrest⟩ := Option.bind_eq_some_iff.mp h
    rw [List.all_cons, isOrdinary_of_next? hk, ih hrest]
    rfl

/-- What is lexed as one token holds neither question marks nor quotes, unless it is one. -/
theorem isPlain_of_isReadable {p : Piece} (hp : p.isReadable = true)
    (hbinding : p.binding? = none) : p.isPlain = true := by
  cases p with
  | word w =>
    obtain ⟨c, cs, hcs, hc, hrest⟩ := Lexical.isAlpha_of_isWord hp
    have hfirst : isOrdinary c = true :=
      isOrdinary_of_isAlphanum (by simp [Char.isAlphanum, hc])
    rw [Piece.isPlain, isBare, hcs, List.all_cons, hfirst, Bool.true_and, List.all_eq_true]
    exact fun d hd => isOrdinary_of_isWordChar (hrest d hd)
  | symbol t =>
    have hall : ∀ t ∈ Reading.symbols, isBare t = true := by decide
    exact hall t (List.contains_iff_mem.mp hp)
  | number t =>
    simp only [Piece.isReadable, Lexical.isNumeral, Bool.and_eq_true,
      Option.isSome_iff_exists] at hp
    obtain ⟨_, m, hm⟩ := hp
    exact all_isOrdinary_of_after? hm
  | space | name _ | string _ => rfl
  | parameter _ | constant _ => cases hbinding
  | refused _ => cases hp

section

variable {style : Style} {p : Piece} {ps : List Piece}

/-- What binds something is written as a question mark. -/
theorem spelling_of_bound (hstyle : style.placeholders = .positional)
    (hp : p.binding?.isSome = true) : style.spelling p = ['?'] := by
  cases p with
  | parameter q => rw [Style.spelling, hstyle]
  | constant v => rfl
  | _ => cases hp

/-- A piece has as many placeholders as it binds. -/
theorem marked_spelling (hstyle : style.placeholders = .positional)
    (hp : p.isPlain = true ∨ p.binding?.isSome = true) :
    Marked (style.spelling p) p.binding?.toList.length := by
  cases p with
  | word t | symbol t | number t => exact Marked.bare (hp.resolve_right Bool.noConfusion)
  | space => exact Marked.ordinary (by decide)
  | name id => exact Marked.quoted (.inl rfl) id
  | string t => exact Marked.quoted (.inr rfl) t
  | parameter q =>
    rw [spelling_of_bound hstyle rfl]
    exact Marked.mark
  | constant v => exact Marked.mark
  | refused e => rcases hp with hp | hp <;> cases hp

/-- Of plain and bound pieces those that are not plain bind one thing each. -/
theorem length_bindings (hps : ∀ p ∈ ps, p.isPlain = true ∨ p.binding?.isSome = true) :
    (ps.filterMap Piece.binding?).length = (Piece.loose ps).length := by
  induction ps with
  | nil => rfl
  | cons p ps ih =>
    obtain ⟨hp, hrest⟩ := List.forall_mem_cons.mp hps
    cases hplain : p.isPlain with
    | true =>
      rw [Piece.loose_cons_plain hplain, List.filterMap_cons_none (binding?_of_isPlain hplain),
        ih hrest]
    | false =>
      obtain ⟨b, hb⟩ := Option.isSome_iff_exists.mp
        (hp.resolve_left (by rw [hplain]; exact Bool.false_ne_true))
      have hloose : Piece.loose (p :: ps) = p :: Piece.loose ps :=
        List.filter_cons_of_pos (by simp [hplain])
      rw [List.filterMap_cons_some hb, hloose, List.length_cons, List.length_cons, ih hrest]

/-- Pieces have as many placeholders as they bind. -/
theorem marked_spelled (hstyle : style.placeholders = .positional)
    (hps : ∀ p ∈ ps, p.isPlain = true ∨ p.binding?.isSome = true) :
    Marked (ps.flatMap style.spelling) (ps.filterMap Piece.binding?).length := by
  induction ps with
  | nil => exact Marked.nil
  | cons p ps ih =>
    obtain ⟨hp, hrest⟩ := List.forall_mem_cons.mp hps
    have hlength : ((p :: ps).filterMap Piece.binding?).length
        = p.binding?.toList.length + (ps.filterMap Piece.binding?).length := by
      cases hbinding : p.binding? with
      | none => simp [hbinding]
      | some b => simp [hbinding, Nat.add_comm]
    rw [List.flatMap_cons, hlength]
    exact (marked_spelling hstyle hp).append (ih hrest)

end

/-! ### Statements -/

section

variable {caps : Capabilities} {s : Select} {e : Expr} {es : List Expr}

theorem isSound_own (he : e.inVocabulary = true) : ∀ p ∈ e.own caps, p.isSound = true := by
  cases e with
  | literal v => exact (tidy_literal caps v).sound
  | parameter p => exact List.forall_mem_singleton.mpr rfl
  | keyword w =>
    have hall : ∀ w ∈ keywords, (Piece.word w).isSound = true := by decide
    exact List.forall_mem_singleton.mpr (hall w (List.contains_iff_mem.mp he))
  | function f args =>
    have hall : ∀ f ∈ functionNames, (Piece.word f).isSound = true := by decide
    exact List.forall_mem_singleton.mpr (hall f (List.contains_iff_mem.mp he))
  | _ => exact List.forall_mem_nil _

theorem isPlain_or_bound_of_isSound {p : Piece} (hp : p.isSound = true)
    (hwritten : p.isRefused = false) : p.isPlain = true ∨ p.binding?.isSome = true := by
  rw [Piece.isSound, hwritten, Bool.or_false] at hp
  cases hbinding : p.binding? with
  | none => exact .inl (isPlain_of_isReadable hp hbinding)
  | some b => exact .inr rfl

/-- The pieces of a statement that can be written are plain or bound. -/
theorem isPlain_or_bound (hs : ∀ x ∈ s.walk, x.inVocabulary = true)
    (hwritten : ∀ p ∈ s.pieces caps, p.isRefused = false) :
    ∀ p ∈ s.pieces caps, p.isPlain = true ∨ p.binding?.isSome = true := by
  intro p hp
  by_cases hplain : p.isPlain = true
  · exact .inl hplain
  · have hloose : p ∈ looseOwn caps s.walk := by
      rw [← loose_selectPieces]
      exact List.mem_filter.mpr ⟨hp, by simpa using hplain⟩
    obtain ⟨x, hx, hpx⟩ := List.mem_flatMap.mp hloose
    exact isPlain_or_bound_of_isSound (isSound_own (hs x hx) p (List.mem_filter.mp hpx).1)
      (hwritten p hp)

/-- An expression that binds something is written as one piece, its placeholder. -/
theorem pieces_of_placeholder? (he : (e.placeholder? caps).isSome = true) :
    ∃ p, e.pieces caps = [p] ∧ p.binding?.isSome = true ∧ Piece.loose (e.own caps) = [p] := by
  cases e with
  | parameter p => exact ⟨_, rfl, rfl, rfl⟩
  | literal v =>
    cases v with
    | binary bytes => exact ⟨_, rfl, rfl, rfl⟩
    | uuid u =>
      cases huuid : caps.charToUuid with
      | true => simp [Expr.placeholder?, huuid] at he
      | false =>
        have hpieces : literal caps (.uuid u) = [.constant (.uuid u)] := by
          simp [literal, huuid]
        refine ⟨.constant (.uuid u), hpieces, rfl, ?_⟩
        rw [Expr.own, hpieces]
        rfl
    | _ => cases he
  | _ => cases he

/-- An expression that binds nothing has only plain pieces of its own, if it can be written. -/
theorem loose_own_of_placeholder? (hsound : ∀ p ∈ Piece.loose (e.own caps), p.isSound = true)
    (hwritten : ∀ p ∈ Piece.loose (e.own caps), p.isRefused = false)
    (he : e.placeholder? caps = none) : Piece.loose (e.own caps) = [] := by
  refine List.eq_nil_iff_forall_not_mem.mpr fun p hp => ?_
  have hnone : p.binding? = none := by
    have hall := bindings_own caps e
    rw [he, Option.toList_none, List.filterMap_eq_nil_iff] at hall
    exact hall p (List.mem_filter.mp hp).1
  have hloose : p.isPlain = false := by simpa using (List.mem_filter.mp hp).2
  rcases isPlain_or_bound_of_isSound (hsound p hp) (hwritten p hp) with hplain | hbound
  · rw [hloose] at hplain
    cases hplain
  · rw [hnone] at hbound
    cases hbound

/-- The pieces of a list of expressions that are not plain are the placeholders of those that
    bind something, in their order. -/
theorem getElem?_looseOwn (hsound : ∀ x ∈ es, ∀ p ∈ x.own caps, p.isSound = true)
    (hwritten : ∀ p ∈ looseOwn caps es, p.isRefused = false) {i : Nat}
    (hi : (es.filter fun x => (x.placeholder? caps).isSome)[i]? = some e) :
    ∃ p, (looseOwn caps es)[i]? = some p ∧ e.pieces caps = [p] ∧ p.binding?.isSome = true := by
  induction es generalizing i with
  | nil => simp at hi
  | cons x rest ih =>
    rw [looseOwn_cons] at hwritten ⊢
    obtain ⟨hwritten, hrest⟩ := List.forall_mem_append.mp hwritten
    obtain ⟨hx, hsound⟩ := List.forall_mem_cons.mp hsound
    cases hplaceholder : x.placeholder? caps with
    | none =>
      rw [loose_own_of_placeholder? (fun p hp => hx p (List.mem_filter.mp hp).1) hwritten
        hplaceholder, List.nil_append]
      rw [List.filter_cons_of_neg (by simp [hplaceholder])] at hi
      exact ih hsound hrest hi
    | some b =>
      have hsome : (x.placeholder? caps).isSome = true := by simp [hplaceholder]
      obtain ⟨p, hpieces, hbound, hloose⟩ := pieces_of_placeholder? hsome
      rw [hloose, List.singleton_append]
      rw [List.filter_cons, if_pos hsome] at hi
      cases i with
      | zero =>
        obtain rfl : x = e := Option.some.inj hi
        exact ⟨p, rfl, hpieces, hbound⟩
      | succ i => exact ih hsound hrest hi

end

theorem exists_append_of_getElem?_filter {α : Type} {f : α → Bool} {xs : List α} {i : Nat} {x : α}
    (h : (xs.filter f)[i]? = some x) :
    ∃ before after, xs = before ++ x :: after ∧ (before.filter f).length = i := by
  induction xs generalizing i with
  | nil => simp at h
  | cons y rest ih =>
    by_cases hy : f y = true
    · rw [List.filter_cons_of_pos hy] at h
      cases i with
      | zero =>
        obtain rfl : y = x := Option.some.inj h
        exact ⟨[], rest, rfl, rfl⟩
      | succ i =>
        obtain ⟨before, after, rfl, hlength⟩ := ih h
        exact ⟨y :: before, after, rfl, by rw [List.filter_cons_of_pos hy, List.length_cons, hlength]⟩
    · rw [List.filter_cons_of_neg hy] at h
      obtain ⟨before, after, rfl, hlength⟩ := ih h
      exact ⟨y :: before, after, rfl, by rw [List.filter_cons_of_neg hy, hlength]⟩

/-- The style with positional placeholders. -/
def Style.positional (caps : Capabilities) (s : Select) : Style :=
  ⟨caps, .positional, s.parameterNames⟩

/-- In the text of the statement the expression is the question mark after `i` others that
    stand outside quotes. -/
def Select.Marks (caps : Capabilities) (s : Select) (text : List Char) (i : Nat) (e : Expr) :
    Prop :=
  ∃ before p after, s.pieces caps = before ++ p :: after ∧ e.pieces caps = [p] ∧
    Marked (before.flatMap (Style.positional caps s).spelling) i ∧
    text = before.flatMap (Style.positional caps s).spelling
      ++ '?' :: after.flatMap (Style.positional caps s).spelling

/-- With positional placeholders, what is bound is what the expressions met by `walk` bind, in
    that order; as many question marks stand outside quotes; and each expression that binds
    something is written as the question mark in its place. -/
theorem marks_of_render {caps caps' : Capabilities} {q : Query} {s : Select} {st : Statement}
    (hs : Select.ofQuery caps' q = .ok s) (h : render caps .positional s = .ok st) :
    st.bindings = s.walk.filterMap (Expr.placeholder? caps) ∧
      Marked st.text.toList st.bindings.length ∧
      ∀ i e, (s.walk.filter fun x => (x.placeholder? caps).isSome)[i]? = some e →
        s.Marks caps st.text.toList i e := by
  have hwrite := render_eq_ok h
  have hwritten := Style.not_isRefused_of_write hwrite
  have hvocabulary : ∀ x ∈ s.walk, x.inVocabulary = true := fun x hx =>
    Expr.inVocabulary_of_isAvailable (available_of_ofQuery hs x hx)
  have hplain := isPlain_or_bound hvocabulary hwritten
  have hbindings : st.bindings = (s.pieces caps).filterMap Piece.binding? :=
    Style.bindings_of_write rfl hwrite
  have htext : st.text.toList = (s.pieces caps).flatMap (Style.positional caps s).spelling :=
    Style.spelled_of_write hwrite (.inl rfl)
  refine ⟨hbindings.trans (bindings_pieces caps s), ?_, ?_⟩
  · rw [htext, hbindings]
    exact marked_spelled rfl hplain
  · intro i e he
    have hloose : ∀ p ∈ looseOwn caps s.walk, p.isRefused = false := by
      rw [← loose_selectPieces]
      exact fun p hp => hwritten p (List.mem_filter.mp hp).1
    obtain ⟨p, hp, hpieces, hbound⟩ :=
      getElem?_looseOwn (fun x hx => isSound_own (hvocabulary x hx)) hloose he
    rw [← loose_selectPieces] at hp
    obtain ⟨before, after, hsplit, hlength⟩ := exists_append_of_getElem?_filter hp
    refine ⟨before, p, after, hsplit, hpieces, ?_, ?_⟩
    · have hbefore : ∀ p ∈ before, p.isPlain = true ∨ p.binding?.isSome = true := by
        rw [hsplit] at hplain
        exact (List.forall_mem_append.mp hplain).1
      have hmarked : Marked (before.flatMap (Style.positional caps s).spelling)
          (before.filterMap Piece.binding?).length := marked_spelled rfl hbefore
      rwa [length_bindings hbefore, Piece.loose, hlength] at hmarked
    · rw [htext, hsplit, List.flatMap_append, List.flatMap_cons, spelling_of_bound rfl hbound]
      rfl

/-- Parts with a question mark in their name, asked for by a key. -/
def askedParts : Query :=
  .filter (.take (.source "PART?" none) (.parameter ⟨"most", .int32⟩))
    (.and (.equal (.column "NAME") (.text "what's that?"))
      (.equal (.column "KEY") (.constant (.uuid ⟨7⟩))))

/-- The statement of `askedParts`. -/
def Select.askedParts : Select where
  columns := [⟨.allColumns "t0", none⟩]
  origin := .derived
    ⟨[⟨.allColumns "p", none⟩], .table "PART?" "p", [], [], some ⟨.parameter ⟨"most", .int32⟩, none⟩⟩
    "t0"
  conditions := [.binary
    (.binary (.column "t0" "NAME") .equal (.literal (.string "what's that?"))) .and
    (.binary (.column "t0" "KEY") .equal (.literal (.uuid ⟨7⟩)))]
  ordering := []
  window? := none

/-- The text of `askedParts` for a server that takes no identifiers as text. -/
def askedPartsText : Statement where
  text := "SELECT \"t0\".* FROM (SELECT \"p\".* FROM \"PART?\" \"p\" ROWS (?)) \"t0\" "
    ++ "WHERE \"t0\".\"NAME\" = 'what''s that?' AND \"t0\".\"KEY\" = ?"
  bindings := [.dynamic ⟨"most", .int32⟩, .constant (.uuid ⟨7⟩)]

theorem marks_of_render_askedParts :
    Select.ofQuery (.ofVersion ⟨2, 0, 0, 0⟩) askedParts = .ok .askedParts ∧
      render (.ofVersion ⟨2, 0, 0, 0⟩) .positional .askedParts = .ok askedPartsText ∧
      Marked askedPartsText.text.toList 2 ∧
      Select.askedParts.Marks (.ofVersion ⟨2, 0, 0, 0⟩) askedPartsText.text.toList 1
        (.literal (.uuid ⟨7⟩)) := by
  have hs : Select.ofQuery (.ofVersion ⟨2, 0, 0, 0⟩) askedParts = .ok .askedParts := rfl
  have h : render (.ofVersion ⟨2, 0, 0, 0⟩) .positional .askedParts = .ok askedPartsText := by
    decide +kernel
  obtain ⟨_, hmarked, hmarks⟩ := marks_of_render hs h
  exact ⟨hs, h, hmarked, hmarks 1 _ rfl⟩

end QueryLoom.Sql

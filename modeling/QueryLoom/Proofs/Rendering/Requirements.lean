/-
  QueryLoom/Proofs/Rendering/Requirements.lean
  ============================================
  **A statement has nothing that its server lacks.**  Time zones and milliseconds are asked for by
  the mappings that need them, Booleans and UUIDs by the way in which their constants are
  written, and the length of an identifier by the quotes around it.  Wherever one of these is in
  the statement of a query, the server's version is one that has it.

  * `Expr.supports_of_isAvailable`: what an available expression needs, the server supports;
  * `isSupported_of_mem_pieces`: so it is with every word that a statement is written with;
  * `version_of_compile`: the least versions, for the statement and for the tokens of its text.
-/
import QueryLoom.Proofs.Rendering.Quoted
import QueryLoom.Proofs.Rendering.Refusal
import QueryLoom.Proofs.Rendering.Walk
import QueryLoom.Proofs.Scoping.Walked
import QueryLoom.Proofs.Upgrade.Features

namespace QueryLoom.Sql

/-- The word is the given one, in capitals or not. -/
def isSpelled (keyword w : String) : Bool := w.toList.map Char.toUpper == keyword.toList

/-- The feature that a word outside quotes needs. -/
def wordFeature? (w : String) : Option Feature :=
  if isSpelled "TRUE" w || isSpelled "FALSE" w then some .booleanType
  else if isSpelled "CHAR_TO_UUID" w then some .charToUuid
  else none

/-- The feature that an expression needs, operands aside. -/
def Expr.feature? : Expr → Option Feature
  | atTimeZone .. => some .timeZones
  | extract .millisecond _ => some .millisecondExtract
  | _ => none

section

variable {caps : Capabilities}

/-- What an expression needs that is available, the server supports. -/
theorem Expr.supports_of_isAvailable {e : Expr} (h : e.isAvailable caps = true) {f : Feature}
    (hf : e.feature? = some f) : caps.supports f = true := by
  cases e with
  | atTimeZone operand zone =>
    cases hf
    exact (Bool.and_eq_true_iff.mp h).1
  | extract part operand =>
    cases part with
    | millisecond =>
      cases hf
      exact h
    | _ => cases hf
  | _ => cases hf

/-- The server supports what the piece needs, if it is a word. -/
def Piece.IsSupported (caps : Capabilities) (p : Piece) : Prop :=
  ∀ w, p = .word w → ∀ f, wordFeature? w = some f → caps.supports f = true

theorem Piece.isSupported_of_none {w : String} (h : wordFeature? w = none) :
    (Piece.word w).IsSupported caps := by
  rintro _ ⟨⟩ f hf
  rw [h] at hf
  cases hf

theorem Piece.isSupported_of_ne {p : Piece} (h : ∀ w, p ≠ .word w) : p.IsSupported caps :=
  fun w hw => absurd hw (h w)

/-- The form of a statement needs nothing. -/
theorem Piece.isSupported_of_isForm {p : Piece} (h : p.isForm = true) : p.IsSupported caps := by
  cases p with
  | word w =>
    refine isSupported_of_none ?_
    rcases Bool.or_eq_true_iff.mp h with h | h
    · rw [String.isEmpty_iff] at h
      rw [h]
      decide
    · have hall : ∀ w ∈ formWords, wordFeature? w = none := by decide
      exact hall w (List.contains_iff_mem.mp h)
  | _ => exact isSupported_of_ne (by simp)

theorem isSupported_signed (negative : Bool) (magnitude : String) :
    ∀ p ∈ signed negative magnitude, p.IsSupported caps := by
  intro p hp
  refine Piece.isSupported_of_ne fun w hw => ?_
  subst hw
  cases negative <;> simp [signed] at hp

theorem isSupported_binaryNumber {f : Number.BinaryFormat} (v : Value) (x : Number.Binary f) :
    ∀ p ∈ binaryNumber v x, p.IsSupported caps := by
  unfold binaryNumber
  split
  · exact isSupported_signed _ _
  · exact List.forall_mem_singleton.mpr (Piece.isSupported_of_ne (by simp))

theorem isSupported_labelled {word : String} (h : wordFeature? word = none) (text : String) :
    ∀ p ∈ labelled word text, p.IsSupported caps := by
  simp only [labelled, List.forall_mem_cons]
  exact ⟨Piece.isSupported_of_none h, Piece.isSupported_of_ne (by simp),
    Piece.isSupported_of_ne (by simp), List.forall_mem_nil _⟩

theorem isSupported_dated {word : String} (h : wordFeature? word = none)
    (text? : Except CompileError String) : ∀ p ∈ dated word text?, p.IsSupported caps := by
  cases text? with
  | ok text => exact isSupported_labelled h text
  | error e => exact List.forall_mem_singleton.mpr (Piece.isSupported_of_ne (by simp))

/-- A constant is written with words that the server has. -/
theorem isSupported_literal (v : Value) : ∀ p ∈ literal caps v, p.IsSupported caps := by
  cases v with
  | null => exact List.forall_mem_singleton.mpr (Piece.isSupported_of_none (by decide))
  | boolean b =>
    rw [literal]
    split
    · rename_i hcaps
      refine List.forall_mem_singleton.mpr ?_
      rintro w ⟨⟩ f hf
      cases b <;> cases hf <;> exact hcaps
    · exact List.forall_mem_singleton.mpr (Piece.isSupported_of_ne (by simp))
  | int16 n | int32 n | int64 n | decimal d => exact isSupported_signed _ _
  | single x | double x => exact isSupported_binaryNumber _ x
  | date d | dateTime dt => exact isSupported_dated (by decide) _
  | time t => exact isSupported_labelled (by decide) _
  | uuid u =>
    rw [literal]
    split
    · rename_i hcaps
      simp only [Piece.call, Piece.parenthesized, List.forall_mem_cons, List.cons_append,
        List.nil_append]
      refine ⟨?_, Piece.isSupported_of_ne (by simp), Piece.isSupported_of_ne (by simp),
        Piece.isSupported_of_ne (by simp), List.forall_mem_nil _⟩
      rintro w ⟨⟩ f hf
      cases hf
      exact hcaps
    · exact List.forall_mem_singleton.mpr (Piece.isSupported_of_ne (by simp))
  | string _ | binary _ =>
    exact List.forall_mem_singleton.mpr (Piece.isSupported_of_ne (by simp))

/-- Every word of a statement is supported where its expressions are available. -/
theorem isSupported_of_mem_pieces {s : Select} (hs : s.Available caps) :
    ∀ p ∈ s.pieces caps, p.IsSupported caps := by
  refine forall_mem_pieces (fun p => Piece.isSupported_of_isForm) fun x hx p hp => ?_
  cases x with
  | literal v => exact isSupported_literal v p hp
  | function f args =>
    have hall : ∀ f ∈ functionNames, wordFeature? f = none := by decide
    obtain rfl := List.mem_singleton.mp hp
    exact Piece.isSupported_of_none (hall f (List.contains_iff_mem.mp (hs _ hx)))
  | keyword w =>
    have hall : ∀ w ∈ keywords, wordFeature? w = none := by decide
    obtain rfl := List.mem_singleton.mp hp
    exact Piece.isSupported_of_none (hall w (List.contains_iff_mem.mp (hs _ hx)))
  | parameter q =>
    obtain rfl := List.mem_singleton.mp hp
    exact Piece.isSupported_of_ne (by simp)
  | _ => cases hp

end

theorem word_mem_of_mem_tokens {ps : List Piece} {w : String}
    (h : .word w ∈ ps.filterMap Piece.token?) : .word w ∈ ps := by
  obtain ⟨p, hp, htoken⟩ := List.mem_filterMap.mp h
  cases p <;> cases htoken
  exact hp

theorem name_mem_of_mem_tokens {ps : List Piece} {id : String}
    (h : .name id ∈ ps.filterMap Piece.token?) : .name id ∈ ps := by
  obtain ⟨p, hp, htoken⟩ := List.mem_filterMap.mp h
  cases p <;> cases htoken
  exact hp

/-- The statement of a query has time zones, milliseconds, truth values and the function for UUIDs
    only where the server has them, at any depth, and its identifiers are no longer than
    the server's can be. -/
theorem version_of_compile {v : Version} {q : Query} {st : Statement}
    (h : compile (.ofVersion v) .positional q = .ok st) :
    ∃ s, Select.ofQuery (.ofVersion v) q = .ok s ∧ render (.ofVersion v) .positional s = .ok st ∧
      (∀ operand zone, s.Holds (.atTimeZone operand zone) → (⟨4, 0, 0, 0⟩ : Version) ≤ v) ∧
      (∀ operand, s.Holds (.extract .millisecond operand) → (⟨2, 1, 0, 0⟩ : Version) ≤ v) ∧
      (∀ w, .word w ∈ Lexical.tokens st.text → isSpelled "TRUE" w ∨ isSpelled "FALSE" w →
        (⟨3, 0, 0, 0⟩ : Version) ≤ v) ∧
      (∀ w, .word w ∈ Lexical.tokens st.text → isSpelled "CHAR_TO_UUID" w →
        (⟨2, 5, 0, 0⟩ : Version) ≤ v) ∧
      ∀ id, .name id ∈ Lexical.tokens st.text →
        id.length ≤ if (⟨4, 0, 0, 0⟩ : Version) ≤ v then 63 else 31 := by
  obtain ⟨s, hs, hrender⟩ := compile_eq_ok.mp h
  have havailable := available_of_ofQuery hs
  have hwritable := exists_render_iff.mp ⟨st, hrender⟩
  have htokens : Lexical.tokens st.text = (s.pieces (.ofVersion v)).filterMap Piece.token? :=
    tokens_of_render (fun x hx => Expr.isWorded_of_inVocabulary
      (Expr.inVocabulary_of_isAvailable (havailable x hx))) hrender
  have hexpression : ∀ (f : Feature) {e : Expr}, s.Holds e → e.feature? = some f → f.since ≤ v :=
    fun f e he hf => supports_ofVersion.mp
      (Expr.supports_of_isAvailable (havailable _ (mem_walk_iff_holds.mpr he)) hf)
  have hword : ∀ (f : Feature) {w : String}, .word w ∈ Lexical.tokens st.text →
      wordFeature? w = some f → f.since ≤ v := by
    intro f w hw hf
    rw [htokens] at hw
    exact supports_ofVersion.mp
      (isSupported_of_mem_pieces havailable _ (word_mem_of_mem_tokens hw) w rfl f hf)
  refine ⟨s, hs, hrender, fun operand zone he => hexpression .timeZones he rfl,
    fun operand he => hexpression .millisecondExtract he rfl, fun w hw hspelled => ?_,
    fun w hw hspelled => ?_, fun id hid => ?_⟩
  · exact hword .booleanType hw (if_pos (Bool.or_eq_true_iff.mpr hspelled))
  · have hletters : w.toList.map Char.toUpper = "CHAR_TO_UUID".toList := beq_iff_eq.mp hspelled
    refine hword .charToUuid hw ?_
    rw [wordFeature?, isSpelled, isSpelled, isSpelled, hletters]
    decide
  · rw [htokens] at hid
    have hidentifier := refusal?_name.mp (hwritable _ (name_mem_of_mem_tokens hid))
    simp only [isIdentifier, Bool.and_eq_true, decide_eq_true_eq] at hidentifier
    exact hidentifier.2

/-- The open items with a task that is due. -/
def openAndDue : Query :=
  .filter (.source "ITEM" none)
    (.and (.equal (.column "OPEN") (.constant (.boolean true)))
      (.any (.source "TASK" none)
        (some (.binary (.column "DUE") .less (.global .utcNow)))))

/-- A version with truth values and time zones writes them, and identifiers of up to 63
    characters. -/
theorem version_of_openAndDue :
    ∃ st, compile (.ofVersion ⟨4, 0, 0, 0⟩) .positional openAndDue = .ok st ∧
      .word "TRUE" ∈ Lexical.tokens st.text ∧
      (⟨3, 0, 0, 0⟩ : Version) ≤ ⟨4, 0, 0, 0⟩ ∧
      ∀ id, .name id ∈ Lexical.tokens st.text → id.length ≤ 63 := by
  have hcompile : compile (.ofVersion ⟨4, 0, 0, 0⟩) .positional openAndDue =
      .ok ⟨"SELECT \"i\".* FROM \"ITEM\" \"i\" WHERE \"i\".\"OPEN\" = TRUE AND " ++
        "EXISTS (SELECT 1 FROM \"TASK\" \"t\" WHERE \"t\".\"DUE\" < " ++
        "CAST(CURRENT_TIMESTAMP AT TIME ZONE 'UTC' AS TIMESTAMP))", []⟩ := by decide +kernel
  have htrue : .word "TRUE" ∈ Lexical.tokens
      ("SELECT \"i\".* FROM \"ITEM\" \"i\" WHERE \"i\".\"OPEN\" = TRUE AND " ++
        "EXISTS (SELECT 1 FROM \"TASK\" \"t\" WHERE \"t\".\"DUE\" < " ++
        "CAST(CURRENT_TIMESTAMP AT TIME ZONE 'UTC' AS TIMESTAMP))") := by decide +kernel
  obtain ⟨s, -, -, -, -, hbooleans, -, hnames⟩ := version_of_compile hcompile
  exact ⟨_, hcompile, htrue, hbooleans "TRUE" htrue (.inl (by decide)), hnames⟩

end QueryLoom.Sql

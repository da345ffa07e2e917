/-
  QueryLoom/Proofs/Text/Blank.lean
  ================================
  **Trimming and words, without a scanner.**  `Trimmed` and `FirstWord` say where the trimmed text
  and the first word stand in a text.

    * `trimmed_iff` — the trimmed text is what `trim` gives;
    * `firstWord_iff` — the first word is what `firstWord` gives.
-/
import Mathlib.Data.List.TakeWhile
import QueryLoom.Text.Blank

namespace QueryLoom.Text

/-! ### Runs -/

section Runs

variable {p : Char → Bool} {run after : List Char}

/-- A run of characters stops where the next one is not of its kind. -/
theorem takeWhile_of_run (hrun : ∀ c ∈ run, p c = true) (hafter : ∀ c ∈ after.head?, p c = false) :
    (run ++ after).takeWhile p = run := by
  rw [List.takeWhile_append_of_pos hrun]
  cases after with
  | nil => exact List.append_nil run
  | cons c after =>
    rw [List.takeWhile_cons_of_neg (by rw [hafter c rfl]; decide), List.append_nil]

theorem dropWhile_of_run (hrun : ∀ c ∈ run, p c = true) (hafter : ∀ c ∈ after.head?, p c = false) :
    (run ++ after).dropWhile p = after := by
  rw [List.dropWhile_append_of_pos hrun]
  cases after with
  | nil => rfl
  | cons c after => exact List.dropWhile_cons_of_neg (by rw [hafter c rfl]; decide)

theorem head_dropWhile (p : Char → Bool) (cs : List Char) {c : Char}
    (hc : c ∈ (cs.dropWhile p).head?) : p c = false := by
  have hfirst := List.head?_dropWhile_not p cs
  rwa [Option.mem_def.mp hc] at hfirst

end Runs

/-! ### Blanks in front -/

theorem exists_append_dropBlank (cs : List Char) :
    ∃ before, cs = before ++ dropBlank cs ∧ ∀ c ∈ before, isBlank c = true :=
  ⟨cs.takeWhile isBlank, List.takeWhile_append_dropWhile.symm, fun _ => List.mem_takeWhile_imp⟩

theorem dropBlank_of_head {cs : List Char} (h : ∀ c ∈ cs.head?, isBlank c = false) :
    dropBlank cs = cs := by
  cases cs with
  | nil => rfl
  | cons c rest => exact dropBlank_cons (h c rfl)

theorem dropBlank_eq_nil {cs : List Char} (h : ∀ c ∈ cs, isBlank c = true) :
    dropBlank cs = [] := by
  rw [← List.append_nil cs, dropBlank_append h]
  rfl

/-! ### Trimming -/

/-- `Trimmed cs text`: outside of this text there are only blanks, and it neither starts nor ends
    with one. -/
structure Trimmed (cs text : List Char) : Prop where
  around : ∃ before after, cs = before ++ text ++ after ∧ (∀ c ∈ before, isBlank c = true) ∧
    ∀ c ∈ after, isBlank c = true
  first : ∀ c ∈ text.head?, isBlank c = false
  last : ∀ c ∈ text.getLast?, isBlank c = false

theorem trim_spec (cs : List Char) : Trimmed cs (trim cs) := by
  obtain ⟨before, hbefore, hblank⟩ := exists_append_dropBlank cs
  obtain ⟨behind, hbehind, hblank'⟩ := exists_append_dropBlank (dropBlank cs).reverse
  have hbody : dropBlank cs = trim cs ++ behind.reverse := by
    rw [trim, ← List.reverse_append, ← hbehind, List.reverse_reverse]
  refine ⟨⟨before, behind.reverse, ?_, hblank, by simpa using hblank'⟩, fun c hc => ?_, ?_⟩
  · rw [List.append_assoc, ← hbody]
    exact hbefore
  · apply head_dropWhile isBlank cs
    rw [← dropBlank, hbody, List.head?_append, Option.mem_def.mp hc]
    rfl
  · rw [trim, List.getLast?_reverse]
    exact fun c => head_dropWhile _ _

/-- A text can be trimmed in one way. -/
theorem Trimmed.eq_trim {cs text : List Char} (h : Trimmed cs text) : trim cs = text := by
  obtain ⟨⟨before, after, rfl, hbefore, hafter⟩, hfirst, hlast⟩ := h
  have hrest : dropBlank (before ++ text ++ after) = dropBlank (text ++ after) := by
    rw [List.append_assoc, dropBlank_append hbefore]
  have hreverse : dropBlank text.reverse = text.reverse :=
    dropBlank_of_head (by rwa [List.head?_reverse])
  rw [trim, hrest]
  cases text with
  | nil =>
    rw [List.nil_append, dropBlank_eq_nil hafter]
    rfl
  | cons c rest =>
    have hstart : dropBlank (c :: rest ++ after) = c :: rest ++ after := dropBlank_of_head hfirst
    rw [hstart, List.reverse_append, dropBlank_append (by simpa using hafter), hreverse,
      List.reverse_reverse]

theorem trimmed_iff {cs text : List Char} : Trimmed cs text ↔ trim cs = text :=
  ⟨Trimmed.eq_trim, fun h => h ▸ trim_spec cs⟩

/-- What stands in front without any blank is not touched by trimming. -/
theorem Trimmed.of_append {start : List Char} (hne : start ≠ [])
    (hstart : ∀ c ∈ start, isBlank c = false) (cs : List Char) :
    ∃ rest, Trimmed (start ++ cs) (start ++ rest) ∧ rest <+: cs := by
  obtain ⟨behind, hbehind, hblank⟩ := exists_append_dropBlank cs.reverse
  have hcs : (dropBlank cs.reverse).reverse ++ behind.reverse = cs := by
    rw [← List.reverse_append, ← hbehind, List.reverse_reverse]
  refine ⟨_, ⟨⟨[], behind.reverse, ?_, by simp, by simpa using hblank⟩, ?_, ?_⟩, _, hcs⟩
  · rw [List.nil_append, List.append_assoc, hcs]
  · obtain ⟨c, start, rfl⟩ := List.exists_cons_of_ne_nil hne
    rintro _ ⟨⟩
    exact hstart c List.mem_cons_self
  · intro c hc
    rw [List.getLast?_append, List.getLast?_reverse] at hc
    rcases Option.or_eq_some_iff.mp hc with hc | ⟨-, hc⟩
    · exact head_dropWhile _ _ hc
    · exact hstart c (List.mem_of_getLast? hc)

/-! ### The first word -/

/-- `FirstWord cs word`: this is the first word, and the empty text if there are only blanks. -/
inductive FirstWord (cs : List Char) : List Char → Prop
  | none (hblank : ∀ c ∈ cs, isBlank c = true) : FirstWord cs []
  | word {before word after : List Char} (hcs : cs = before ++ (word ++ after))
      (hbefore : ∀ c ∈ before, isBlank c = true) (hne : word ≠ [])
      (hword : ∀ c ∈ word, isBlank c = false) (hafter : ∀ c ∈ after.head?, isBlank c = true) :
    FirstWord cs word

theorem firstWord_spec (cs : List Char) : FirstWord cs (firstWord cs) := by
  obtain ⟨before, hbefore, hblank⟩ := exists_append_dropBlank cs
  rw [firstWord]
  cases hrest : dropBlank cs with
  | nil =>
    rw [hrest, List.append_nil] at hbefore
    exact .none (hbefore ▸ hblank)
  | cons c rest =>
    have hc : isBlank c = false :=
      head_dropWhile isBlank cs (by rw [← dropBlank, hrest]; rfl)
    have hsplit : cs = before ++ ((c :: rest).takeWhile (fun c => !isBlank c) ++
        (c :: rest).dropWhile fun c => !isBlank c) := by
      rw [List.takeWhile_append_dropWhile, ← hrest]
      exact hbefore
    refine .word hsplit hblank ?_ ?_ ?_
    · rw [List.takeWhile_cons_of_pos (by rw [hc]; rfl)]
      exact List.cons_ne_nil _ _
    · intro d hd
      simpa using List.mem_takeWhile_imp hd
    · intro d hd
      simpa using head_dropWhile _ _ hd

/-- A text has one first word. -/
theorem FirstWord.eq_firstWord {cs word : List Char} (h : FirstWord cs word) :
    firstWord cs = word := by
  cases h with
  | none hblank =>
    rw [firstWord, dropBlank_eq_nil hblank]
    rfl
  | @word before _ after hcs hbefore hne hword hafter =>
    obtain ⟨c, rest, rfl⟩ := List.exists_cons_of_ne_nil hne
    have hstart : dropBlank (c :: rest ++ after) = c :: rest ++ after :=
      dropBlank_cons (hword c List.mem_cons_self)
    rw [hcs, firstWord, dropBlank_append hbefore, hstart]
    exact takeWhile_of_run (by simpa using hword) (by simpa using hafter)

theorem firstWord_iff {cs word : List Char} : FirstWord cs word ↔ firstWord cs = word :=
  ⟨FirstWord.eq_firstWord, fun h => h ▸ firstWord_spec cs⟩

/-! ### Letters and digits are no blanks -/

theorem isBlank_of_graphic {c : Char} (hlow : 0x20 < c.toNat) (hhigh : c.toNat < 0x7F) :
    isBlank c = false := by
  simp only [isBlank, Bool.or_eq_false_iff, Bool.and_eq_false_iff, decide_eq_false_iff_not,
    beq_eq_false_iff_ne]
  omega

theorem isBlank_of_isDigit {c : Char} (hc : c.isDigit = true) : isBlank c = false := by
  obtain ⟨hlow, hhigh⟩ := Char.isDigit_iff_toNat.mp hc
  exact isBlank_of_graphic (Nat.lt_of_lt_of_le (by decide) hlow)
    (Nat.lt_of_le_of_lt hhigh (by decide))

theorem isUpper_iff_toNat {c : Char} : c.isUpper = true ↔ 0x41 ≤ c.toNat ∧ c.toNat ≤ 0x5A :=
  decide_eq_true_iff

theorem isLower_iff_toNat {c : Char} : c.isLower = true ↔ 0x61 ≤ c.toNat ∧ c.toNat ≤ 0x7A :=
  Bool.and_eq_true_iff.trans (and_congr decide_eq_true_iff decide_eq_true_iff)

theorem isAlpha_iff_toNat {c : Char} : c.isAlpha = true ↔
    (0x41 ≤ c.toNat ∧ c.toNat ≤ 0x5A) ∨ (0x61 ≤ c.toNat ∧ c.toNat ≤ 0x7A) :=
  Bool.or_eq_true_iff.trans (or_congr isUpper_iff_toNat isLower_iff_toNat)

theorem isBlank_of_isAlpha {c : Char} (hc : c.isAlpha = true) : isBlank c = false := by
  rcases isAlpha_iff_toNat.mp hc with ⟨hlow, hhigh⟩ | ⟨hlow, hhigh⟩
  · exact isBlank_of_graphic (by omega) (by omega)
  · exact isBlank_of_graphic (by omega) (by omega)

end QueryLoom.Text

/-
  QueryLoom/Proofs/Server/Spelling.lean
  =====================================
  **Which texts are versions.**  `Dotted` says which part of a text holds the numbers, and `Spells`
  which numbers it holds.  Neither knows how a text is scanned.

    * `dotted_iff` — the part with the numbers is the one the parser looks at;
    * `fields?_eq_ok_iff` — its fields are read just when each is a number of 32 bits;
    * `ofString?_exactly` — a text is read just when that part spells a version, and a version
      that is printed is read back, also behind the letters of a server.
-/
import Mathlib.Data.List.Forall2
import Mathlib.Data.List.TakeDrop
import QueryLoom.Proofs.Text.Blank
import QueryLoom.Proofs.Text.Digits
import QueryLoom.Proofs.Text.Splitting
import QueryLoom.Server.Version

namespace QueryLoom.Version

open Text

variable {text rest part cs ds : List Char} {fields : List (List Char)} {values : List Nat}
  {n m : Nat} {c : Char} {v w : Version}

/-! ### The part with the numbers -/

/-- `Announces text rest`: the text starts with the letters of a platform and a hyphen. -/
def Announces (text rest : List Char) : Prop :=
  ∃ platform, platform ≠ [] ∧ (∀ c ∈ platform, isAsciiLetter c = true) ∧
    text = platform ++ '-' :: rest

/-- `Dotted text part`: what a server says of itself has the numbers in the first word behind
    its platform, after the letters of that word; in every other text they are all there is. -/
inductive Dotted (text : List Char) : List Char → Prop
  | server {rest letters part : List Char} (hrest : Announces text rest)
      (hword : FirstWord rest (letters ++ part))
      (hletters : ∀ c ∈ letters, isAsciiLetter c = true)
      (hfirst : ∀ c ∈ part.head?, isAsciiLetter c = false) : Dotted text part
  | plain (h : ∀ rest, ¬ Announces text rest) : Dotted text text

theorem dotted_of_announces (h : Announces text rest) :
    dotted text = (firstWord rest).dropWhile isAsciiLetter := by
  obtain ⟨platform, hne, hletters, rfl⟩ := h
  have hhyphen : ∀ c ∈ platform, (c != '-') = true := fun c hc => by
    rw [bne_iff_ne]
    rintro rfl
    exact absurd (hletters _ hc) (by decide)
  have hspan : (platform ++ '-' :: rest).span (· != '-') = (platform, '-' :: rest) := by
    rw [List.span_eq_takeWhile_dropWhile, takeWhile_of_run hhyphen (by simp),
      dropWhile_of_run hhyphen (by simp)]
  have hplatform : (!platform.isEmpty && platform.all isAsciiLetter) = true := by
    simpa using And.intro hne hletters
  rw [dotted, hspan]
  exact if_pos hplatform

theorem dotted_of_not_announces (h : ∀ rest, ¬ Announces text rest) : dotted text = text := by
  rw [dotted, List.span_eq_takeWhile_dropWhile]
  split
  · rename_i platform c rest hspan
    obtain ⟨rfl, hrest⟩ := Prod.mk.inj hspan
    have hc : (c != '-') = false :=
      head_dropWhile (· != '-') text (by rw [hrest]; rfl)
    obtain rfl : c = '-' := by simpa using hc
    refine if_neg fun hplatform => h rest ⟨text.takeWhile (· != '-'), ?_, ?_, ?_⟩
    · intro hnil
      simp [hnil] at hplatform
    · exact List.all_eq_true.mp (Bool.and_eq_true_iff.mp hplatform).2
    · rw [← hrest, List.takeWhile_append_dropWhile]
  · rfl

/-- The part with the numbers is the one that the parser looks at. -/
theorem dotted_iff : Dotted text part ↔ dotted text = part := by
  constructor
  · rintro (⟨hrest, hword, hletters, hfirst⟩ | h)
    · rw [dotted_of_announces hrest, firstWord_iff.mp hword, dropWhile_of_run hletters hfirst]
    · exact dotted_of_not_announces h
  · rintro rfl
    by_cases h : ∃ rest, Announces text rest
    · obtain ⟨rest, hrest⟩ := h
      rw [dotted_of_announces hrest]
      have hword : FirstWord rest ((firstWord rest).takeWhile isAsciiLetter ++
          (firstWord rest).dropWhile isAsciiLetter) :=
        firstWord_iff.mpr List.takeWhile_append_dropWhile.symm
      exact .server hrest hword (fun _ => List.mem_takeWhile_imp) fun _ => head_dropWhile _ _
    · rw [dotted_of_not_announces (not_exists.mp h)]
      exact .plain (not_exists.mp h)

/-! ### Fields -/

/-- `IsField cs n`: digits, of which a plus may stand in front, whose value is a number of
    32 bits. -/
inductive IsField : List Char → Nat → Prop
  | digits {ds : List Char} (hne : ds ≠ []) (hdigits : ∀ c ∈ ds, c.isDigit = true)
      (hsmall : natOf ds < 2 ^ 32) : IsField ds (natOf ds)
  | plus {ds : List Char} (hne : ds ≠ []) (hdigits : ∀ c ∈ ds, c.isDigit = true)
      (hsmall : natOf ds < 2 ^ 32) : IsField ('+' :: ds) (natOf ds)

theorem le_foldl_digits (n : Nat) (ds : List Char) :
    n ≤ ds.foldl (fun n d => n * 10 + digitValue d) n := by
  induction ds generalizing n with
  | nil => exact Nat.le_refl n
  | cons d ds ih =>
    calc n ≤ n * 10 + digitValue d := by omega
      _ ≤ _ := ih _

/-- A number that grows past 32 bits on the way stays past them. -/
theorem digits?_eq_ok_iff (hn : n < 2 ^ 32) : digits? n ds = .ok m ↔
    (∀ c ∈ ds, c.isDigit = true) ∧ m < 2 ^ 32 ∧
      ds.foldl (fun n d => n * 10 + digitValue d) n = m := by
  induction ds generalizing n with
  | nil =>
    rw [digits?]
    constructor
    · rintro ⟨⟩
      exact ⟨by simp, hn, rfl⟩
    · rintro ⟨-, -, rfl⟩
      rfl
  | cons d ds ih =>
    rw [digits?, List.forall_mem_cons, List.foldl_cons]
    by_cases hd : d.isDigit = true
    · rw [if_neg (by simp [hd])]
      by_cases hlarge : UInt32.size ≤ n * 10 + digitValue d
      · rw [if_pos hlarge]
        refine iff_of_false (by rintro ⟨⟩) ?_
        rintro ⟨-, hm, rfl⟩
        have hgrown := le_foldl_digits (n * 10 + digitValue d) ds
        simp only [UInt32.size] at hlarge
        omega
      · rw [if_neg hlarge, ih (Nat.lt_of_not_le hlarge)]
        simp [hd]
    · rw [if_pos (by simp [hd])]
      exact iff_of_false (by rintro ⟨⟩) fun h => hd h.1.1

theorem digits?_zero_eq_ok_iff : digits? 0 ds = .ok m ↔
    (∀ c ∈ ds, c.isDigit = true) ∧ natOf ds < 2 ^ 32 ∧ natOf ds = m := by
  rw [digits?_eq_ok_iff (by decide), natOf]
  constructor
  · rintro ⟨hdigits, hm, rfl⟩
    exact ⟨hdigits, hm, rfl⟩
  · rintro ⟨hdigits, hm, rfl⟩
    exact ⟨hdigits, hm, rfl⟩

theorem field?_eq_ok_iff : field? cs = .ok n ↔ IsField cs n := by
  constructor
  · intro h
    rw [field?.eq_def] at h
    split at h
    · cases h
    · cases h
    · rename_i ds hne
      obtain ⟨hdigits, hsmall, rfl⟩ := digits?_zero_eq_ok_iff.mp h
      exact .plus (by rintro rfl; exact hne rfl) hdigits hsmall
    · rename_i hne _ _
      obtain ⟨hdigits, hsmall, rfl⟩ := digits?_zero_eq_ok_iff.mp h
      exact .digits (by rintro rfl; exact hne rfl) hdigits hsmall
  · rintro (⟨hne, hdigits, hsmall⟩ | ⟨hne, hdigits, hsmall⟩)
    · have hplus : ¬ '+' ∈ cs := fun hmem => absurd (hdigits _ hmem) (by decide)
      rw [field?.eq_def]
      split
      · exact absurd rfl hne
      · exact absurd List.mem_cons_self hplus
      · exact absurd List.mem_cons_self hplus
      · exact digits?_zero_eq_ok_iff.mpr ⟨hdigits, hsmall, rfl⟩
    · rename_i ds
      rw [field?.eq_3 ds (by simpa using hne)]
      exact digits?_zero_eq_ok_iff.mpr ⟨hdigits, hsmall, rfl⟩

theorem fields?_eq_ok_iff (text : List Char) :
    fields? text fields = .ok values ↔ List.Forall₂ IsField fields values := by
  induction fields generalizing values with
  | nil =>
    rw [fields?, List.forall₂_nil_left_iff]
    exact ⟨by rintro ⟨⟩; rfl, by rintro rfl; rfl⟩
  | cons field fields ih =>
    simp only [List.forall₂_cons_left_iff, ← field?_eq_ok_iff, ← ih, fields?]
    cases field? field with
    | error e => exact iff_of_false (by rintro ⟨⟩) (by rintro ⟨_, _, ⟨⟩, _⟩)
    | ok n =>
      cases fields? text fields with
      | error e => exact iff_of_false (by rintro ⟨⟩) (by rintro ⟨_, _, _, ⟨⟩, _⟩)
      | ok ns =>
        constructor
        · rintro ⟨⟩
          exact ⟨n, ns, rfl, rfl, rfl⟩
        · rintro ⟨_, _, ⟨⟩, ⟨⟩, rfl⟩
          rfl

/-- The texts between the dots are what the library splits off. -/
theorem splitDots_eq_splitOn (cs : List Char) : splitDots cs = cs.splitOn '.' := by
  induction cs with
  | nil => rfl
  | cons c rest ih =>
    rw [splitDots, List.splitOn_cons_eq_if_modifyHead, ih]
    by_cases hc : c = '.'
    · simp [hc]
    · simp only [hc, if_false, beq_iff_eq]
      cases hfields : rest.splitOn '.' with
      | nil => exact absurd hfields (List.splitOn_ne_nil _ _)
      | cons field fields => rfl

theorem IsField.dot_not_mem (h : IsField cs n) : '.' ∉ cs := by
  intro hdot
  rcases h with ⟨-, hdigits, -⟩ | ⟨-, hdigits, -⟩
  · exact absurd (hdigits _ hdot) (by decide)
  · rcases List.mem_cons.mp hdot with hplus | hdot
    · exact absurd hplus (by decide)
    · exact absurd (hdigits _ hdot) (by decide)

theorem IsField.lt (h : IsField cs n) : n < 2 ^ 32 := by
  rcases h with ⟨-, -, hsmall⟩ | ⟨-, -, hsmall⟩ <;> exact hsmall

/-- `Holds part values`: one to four fields with dots between them, and these are their values. -/
def Holds (part : List Char) (values : List Nat) : Prop :=
  ∃ fields, part = ['.'].intercalate fields ∧ 1 ≤ fields.length ∧ fields.length ≤ 4 ∧
    List.Forall₂ IsField fields values

/-- The fields that a text holds are those between its dots. -/
theorem holds_iff : Holds part values ↔
    (splitDots part).length ≤ 4 ∧ List.Forall₂ IsField (splitDots part) values := by
  rw [splitDots_eq_splitOn]
  constructor
  · rintro ⟨fields, rfl, hone, hmost, hfields⟩
    have hdots : ∀ field ∈ fields, '.' ∉ field :=
      ((List.forall₂_and_left _ _).mp (hfields.imp fun _ _ h => ⟨h.dot_not_mem, h⟩)).1
    rw [List.splitOn_intercalate '.' hdots (List.length_pos_iff.mp hone)]
    exact ⟨hmost, hfields⟩
  · rintro ⟨hmost, hfields⟩
    have hone := List.length_pos_iff.mpr (List.splitOn_ne_nil '.' part)
    exact ⟨part.splitOn '.', (List.intercalate_splitOn '.').symm, hone, hmost, hfields⟩

theorem Holds.ne_nil (h : Holds part values) : part ≠ [] := by
  rintro rfl
  obtain ⟨-, hfields⟩ := holds_iff.mp h
  cases hfields with
  | cons hfield _ => cases hfield with
    | digits hne => exact hne rfl

theorem Holds.length_le (h : Holds part values) : values.length ≤ 4 := by
  obtain ⟨fields, -, -, hmost, hfields⟩ := h
  rwa [← hfields.length_eq]

theorem Holds.lt (h : Holds part values) : ∀ n ∈ values, n < 2 ^ 32 := by
  obtain ⟨fields, -, -, -, hfields⟩ := h
  have hflip : List.Forall₂ (flip IsField) values fields := hfields.flip
  exact ((List.forall₂_and_left _ _).mp (hflip.imp fun _ _ h => ⟨h.lt, h⟩)).1

/-! ### Versions -/

/-- The four numbers of a version. -/
def numbers (v : Version) : List Nat :=
  [v.major.toNat, v.minor.toNat, v.build.toNat, v.revision.toNat]

theorem numbers_inj (h : v.numbers = w.numbers) : v = w := by
  simp only [numbers, List.cons.injEq, UInt32.toNat_inj] at h
  obtain ⟨hmajor, hminor, hbuild, hrevision, -⟩ := h
  rw [mk.injEq]
  exact ⟨hmajor, hminor, hbuild, hrevision⟩

/-- Numbers that are missing are zero. -/
theorem numbers_ofFields (hmost : values.length ≤ 4) (hsmall : ∀ n ∈ values, n < 2 ^ 32) :
    (ofFields values).numbers = values ++ List.replicate (4 - values.length) 0 := by
  have hvalue : ∀ n ∈ values, (UInt32.ofNat n).toNat = n := fun n hn =>
    UInt32.toNat_ofNat_of_lt' (hsmall n hn)
  match values with
  | [] => rfl
  | [a] => simp [numbers, ofFields, hvalue]
  | [a, b] => simp [numbers, ofFields, hvalue]
  | [a, b, c] => simp [numbers, ofFields, hvalue]
  | [a, b, c, d] => simp [numbers, ofFields, hvalue]

/-- A text is read just when the part with the numbers holds some. -/
theorem ofString?_eq_ok_iff_holds {s : String} : ofString? s = .ok v ↔ ∃ values,
    Holds (dotted (trim s.toList)) values ∧ ofFields values = v := by
  simp only [ofString?]
  generalize dotted (trim s.toList) = part
  by_cases hempty : part.isEmpty = true
  · rw [if_pos hempty]
    refine iff_of_false (by rintro ⟨⟩) ?_
    rintro ⟨values, hholds, -⟩
    exact hholds.ne_nil (List.isEmpty_iff.mp hempty)
  rw [if_neg hempty]
  simp only [holds_iff]
  by_cases hmost : 4 < (splitDots part).length
  · rw [if_pos hmost]
    refine iff_of_false (by rintro ⟨⟩) ?_
    rintro ⟨values, ⟨hlength, -⟩, -⟩
    exact Nat.not_le_of_lt hmost hlength
  rw [if_neg hmost]
  simp only [← fields?_eq_ok_iff (trim s.toList), Nat.le_of_not_lt hmost, true_and]
  cases fields? (trim s.toList) (splitDots part) with
  | error e => exact iff_of_false (by rintro ⟨⟩) (by rintro ⟨_, ⟨⟩, _⟩)
  | ok values =>
    constructor
    · rintro ⟨⟩
      exact ⟨values, rfl, rfl⟩
    · rintro ⟨_, ⟨⟩, rfl⟩
      rfl

/-- The numbers of the version that a text spells are the ones it holds, and then zeros. -/
theorem ofString?_eq_ok_iff {s : String} : ofString? s = .ok v ↔ ∃ text part values,
    Trimmed s.toList text ∧ Dotted text part ∧ Holds part values ∧
      v.numbers = values ++ List.replicate (4 - values.length) 0 := by
  rw [ofString?_eq_ok_iff_holds]
  constructor
  · rintro ⟨values, hholds, rfl⟩
    exact ⟨_, _, values, trim_spec _, dotted_iff.mpr rfl, hholds,
      numbers_ofFields hholds.length_le hholds.lt⟩
  · rintro ⟨_, _, values, htext, hpart, hholds, hnumbers⟩
    obtain rfl := htext.eq_trim
    obtain rfl := dotted_iff.mp hpart
    refine ⟨values, hholds, numbers_inj ?_⟩
    rw [hnumbers, numbers_ofFields hholds.length_le hholds.lt]

/-- Whatever numbers a text holds, some version has them. -/
theorem exists_ofString?_eq_ok_iff {s : String} : (∃ v, ofString? s = .ok v) ↔
    ∃ text part values, Trimmed s.toList text ∧ Dotted text part ∧ Holds part values := by
  simp only [ofString?_eq_ok_iff_holds]
  constructor
  · rintro ⟨_, values, hholds, -⟩
    exact ⟨_, _, values, trim_spec _, dotted_iff.mpr rfl, hholds⟩
  · rintro ⟨_, _, values, htext, hpart, hholds⟩
    obtain rfl := htext.eq_trim
    obtain rfl := dotted_iff.mp hpart
    exact ⟨_, values, hholds, rfl⟩

/-! ### Versions that are printed -/

theorem isField_toString (n : UInt32) : IsField (toString n.toNat).toList n.toNat := by
  have hvalue := natOf_toString n.toNat
  have hfield := IsField.digits (toList_toString_ne_nil n.toNat) (fun _ => isDigit_of_mem_toString)
    (by rw [hvalue]; exact n.toNat_lt)
  rwa [hvalue] at hfield

theorem toList_write (v : Version) :
    v.write.toList = ['.'].intercalate (v.numbers.map fun n => (toString n).toList) := by
  rw [write, String.toList_intercalate]
  rfl

theorem holds_write (v : Version) : Holds v.write.toList v.numbers :=
  ⟨_, toList_write v, by simp [numbers], by simp [numbers],
    .cons (isField_toString _) <| .cons (isField_toString _) <| .cons (isField_toString _) <|
      .cons (isField_toString _) .nil⟩

theorem isDigit_or_of_mem_write (hc : c ∈ v.write.toList) : c.isDigit = true ∨ c = '.' := by
  rw [toList_write] at hc
  simp only [numbers, List.map_cons, List.map_nil, List.intercalate_cons_cons,
    List.intercalate_singleton, List.mem_append, List.mem_singleton] at hc
  rcases hc with (hc | hc) | (hc | hc) | (hc | hc) | hc
  all_goals first | exact .inl (isDigit_of_mem_toString hc) | exact .inr hc

theorem isBlank_of_mem_write (hc : c ∈ v.write.toList) : isBlank c = false := by
  rcases isDigit_or_of_mem_write hc with hdigit | rfl
  · exact isBlank_of_isDigit hdigit
  · decide

/-- A version that is printed starts with a digit, and so with no letter. -/
theorem exists_write_eq_cons (v : Version) :
    ∃ c rest, v.write.toList = c :: rest ∧ isAsciiLetter c = false := by
  obtain ⟨c, rest, hc⟩ := List.exists_cons_of_ne_nil (toList_toString_ne_nil v.major.toNat)
  have hdigit : c.isDigit = true :=
    isDigit_of_mem_toString (by rw [hc]; exact List.mem_cons_self)
  have hletter : isAsciiLetter c = false := by
    have hhigh : c.toNat ≤ 0x39 := (Char.isDigit_iff_toNat.mp hdigit).2
    rw [isAsciiLetter, Bool.eq_false_iff, Ne, isAlpha_iff_toNat]
    omega
  have hwrite := toList_write v
  rw [numbers, List.map_cons, hc, List.map_cons, List.intercalate_cons_cons] at hwrite
  exact ⟨c, _, hwrite, hletter⟩

/-- A version that is printed is read back. -/
theorem ofString?_write (v : Version) : ofString? v.write = .ok v := by
  have hplain : ∀ rest, ¬ Announces v.write.toList rest := by
    rintro rest ⟨platform, hne, hletters, hwrite⟩
    obtain ⟨c, platform, rfl⟩ := List.exists_cons_of_ne_nil hne
    obtain ⟨d, _, hd, hletter⟩ := exists_write_eq_cons v
    obtain rfl := List.head_eq_of_cons_eq (hd.symm.trans hwrite)
    rw [hletters d List.mem_cons_self] at hletter
    cases hletter
  refine ofString?_eq_ok_iff.mpr
    ⟨v.write.toList, v.write.toList, v.numbers, ?_, .plain hplain, holds_write v, ?_⟩
  · exact trimmed_iff.mpr (trim_eq_self fun _ => isBlank_of_mem_write)
  · exact (List.append_nil _).symm

/-- Behind the letters of a platform, a hyphen and more letters it is read back just as well,
    whatever follows it after a blank. -/
theorem ofString?_server (v : Version) {platform letters tail : List Char} (hne : platform ≠ [])
    (hplatform : ∀ c ∈ platform, isAsciiLetter c = true)
    (hletters : ∀ c ∈ letters, isAsciiLetter c = true)
    (htail : ∀ c ∈ tail.head?, isBlank c = true) :
    ofString? (.ofList (platform ++ '-' :: (letters ++ v.write.toList) ++ tail)) = .ok v := by
  obtain ⟨d, digits, hd, hletter⟩ := exists_write_eq_cons v
  have hblank : ∀ c ∈ letters ++ v.write.toList, isBlank c = false := by
    intro c hc
    rcases List.mem_append.mp hc with hc | hc
    · exact isBlank_of_isAlpha (hletters c hc)
    · exact isBlank_of_mem_write hc
  have hstart : ∀ c ∈ platform ++ '-' :: (letters ++ v.write.toList), isBlank c = false := by
    intro c hc
    rcases List.mem_append.mp hc with hc | hc
    · exact isBlank_of_isAlpha (hplatform c hc)
    · rcases List.mem_cons.mp hc with rfl | hc
      · decide
      · exact hblank c hc
  -- The tail loses the blanks at its end, and then starts with one or is gone.
  obtain ⟨rest, htrimmed, after, rfl⟩ := Trimmed.of_append (by simp) hstart tail
  have hrest : ∀ c ∈ rest.head?, isBlank c = true := fun c hc =>
    htail c (by rw [List.head?_append, Option.mem_def.mp hc]; rfl)
  have hsplit : letters ++ v.write.toList ++ rest = [] ++ (letters ++ v.write.toList ++ rest) := rfl
  have hword : FirstWord (letters ++ v.write.toList ++ rest) (letters ++ v.write.toList) :=
    .word hsplit (by simp) (by simp [hd]) hblank hrest
  have hannounces : Announces (platform ++ '-' :: (letters ++ v.write.toList) ++ rest)
      (letters ++ v.write.toList ++ rest) := ⟨platform, hne, hplatform, by simp⟩
  have hfirst : ∀ c ∈ v.write.toList.head?, isAsciiLetter c = false := by
    rw [hd]
    rintro _ ⟨⟩
    exact hletter
  refine ofString?_eq_ok_iff.mpr ⟨_, v.write.toList, v.numbers, ?_,
    .server hannounces hword hletters hfirst, holds_write v, (List.append_nil _).symm⟩
  rw [String.toList_ofList]
  exact htrimmed

/-! ### All texts -/

/-- A text is read just when the part with the numbers holds one to four fields, and the version
    has their values and then zeros.  A version that is printed is read back, alone and in what a
    server says of itself. -/
theorem ofString?_exactly :
    (∀ s, (∃ v, ofString? s = .ok v) ↔
      ∃ text part values, Trimmed s.toList text ∧ Dotted text part ∧ Holds part values) ∧
    (∀ s v, ofString? s = .ok v ↔
      ∃ text part values, Trimmed s.toList text ∧ Dotted text part ∧ Holds part values ∧
        v.numbers = values ++ List.replicate (4 - values.length) 0) ∧
    (∀ v, ofString? v.write = .ok v) ∧
    ∀ v platform letters tail, platform ≠ [] → (∀ c ∈ platform, isAsciiLetter c = true) →
      (∀ c ∈ letters, isAsciiLetter c = true) → (∀ c ∈ tail.head?, isBlank c = true) →
      ofString? (.ofList (platform ++ '-' :: (letters ++ v.write.toList) ++ tail)) = .ok v :=
  ⟨fun _ => exists_ofString?_eq_ok_iff, fun _ _ => ofString?_eq_ok_iff, ofString?_write,
    fun v _ _ _ => ofString?_server v⟩

/-- A server of version 3.0.7.33374 says so. -/
theorem ofString?_exactly_server :
    ofString? "WI-V3.0.7.33374 Firebird 3.0" = .ok ⟨3, 0, 7, 33374⟩ := by
  have hplatform : ∀ c ∈ "WI".toList, isAsciiLetter c = true := List.all_eq_true.mp (by decide)
  have hletters : ∀ c ∈ "V".toList, isAsciiLetter c = true := List.all_eq_true.mp (by decide)
  have htail : ∀ c ∈ " Firebird 3.0".toList.head?, isBlank c = true := by
    rintro _ ⟨⟩
    decide
  exact ofString?_exactly.2.2.2 ⟨3, 0, 7, 33374⟩ "WI".toList "V".toList " Firebird 3.0".toList
    (by decide) hplatform hletters htail

end QueryLoom.Version

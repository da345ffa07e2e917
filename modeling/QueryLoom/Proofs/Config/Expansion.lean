/-
  QueryLoom/Proofs/Config/Expansion.lean
  ======================================
  **References are expanded once, from left to right.**  `Dissects` says how a text is taken apart:
  plain text up to the next opening, a reference from there up to the first closing brace, and so
  on with what follows.  `Stands` says what a piece stands for.  Neither knows how the text is
  scanned, and neither looks at a value again.

    * `dissects_iff` — every text, however its braces nest, is taken apart in one way;
    * `expand_eq_ok_iff` — what a text expands to is what its pieces stand for, in order;
    * `expand_exactly` — when it expands, and to what.
-/
import QueryLoom.Config.Reference
import QueryLoom.Proofs.Lists.Pairing
import QueryLoom.Proofs.Text.Splitting

namespace QueryLoom.Config

/-! ### Taking a text apart -/

/-- `Dissects cs segments`: from the left, the text consists of these pieces.  No opening starts
    further left than the one that ends a plain piece, and no brace closes a reference before
    its end. -/
inductive Dissects : List Char → List Segment → Prop
  | plain {cs : List Char} (hnone : ¬ opening <:+: cs) : Dissects cs [.plain cs]
  | unclosed {cs before after : List Char} (hcs : cs = before ++ opening ++ after)
      (hfirst : ∀ i < before.length, ¬ opening <+: cs.drop i) (hopen : '\x7d' ∉ after) :
    Dissects cs [.plain before, .unclosed]
  | reference {cs before body rest : List Char} {segments : List Segment}
      (hcs : cs = before ++ opening ++ (body ++ '\x7d' :: rest))
      (hfirst : ∀ i < before.length, ¬ opening <+: cs.drop i) (hbody : '\x7d' ∉ body)
      (hrest : Dissects rest segments) :
    Dissects cs (.plain before :: .reference body :: segments)

theorem opening_ne_nil : opening ≠ [] := by decide

theorem untilOpening?_eq_none_iff {cs : List Char} :
    untilOpening? cs = none ↔ ¬ opening <:+: cs := by
  induction cs with
  | nil => exact iff_of_true rfl (by decide)
  | cons c rest ih =>
    rw [untilOpening?, List.infix_cons_iff]
    by_cases hstarts : opening <+: c :: rest
    · rw [if_pos (List.isPrefixOf_iff_prefix.mpr hstarts)]
      simp [hstarts]
    · rw [if_neg (mt List.isPrefixOf_iff_prefix.mp hstarts), Option.map_eq_none_iff, ih]
      simp [hstarts]

/-- The opening that is found is the first one. -/
theorem untilOpening?_eq_some_iff {cs before after : List Char} :
    untilOpening? cs = some (before, after) ↔ cs = before ++ opening ++ after ∧
      ∀ i < before.length, ¬ opening <+: cs.drop i := by
  induction cs generalizing before with
  | nil =>
    refine iff_of_false (by simp [untilOpening?]) ?_
    rintro ⟨hcs, -⟩
    obtain ⟨hstart, -⟩ := List.append_eq_nil_iff.mp hcs.symm
    exact opening_ne_nil (List.append_eq_nil_iff.mp hstart).2
  | cons c rest ih =>
    rw [untilOpening?]
    by_cases hstarts : opening <+: c :: rest
    · rw [if_pos (List.isPrefixOf_iff_prefix.mpr hstarts)]
      obtain ⟨behind, hbehind⟩ := hstarts
      rw [← hbehind, List.drop_left]
      cases before with
      | nil => simp
      | cons b before =>
        refine iff_of_false (by simp) fun h => h.2 0 (Nat.succ_pos _) ?_
        exact List.prefix_append opening behind
    · rw [if_neg (mt List.isPrefixOf_iff_prefix.mp hstarts)]
      cases before with
      | nil =>
        refine iff_of_false (by simp) fun h => hstarts ?_
        rw [h.1, List.nil_append]
        exact List.prefix_append opening after
      | cons b before =>
        simp only [Option.map_eq_some_iff, Prod.exists, Prod.mk.injEq, List.cons.injEq,
          List.cons_append, List.length_cons]
        constructor
        · rintro ⟨before', after', hrest, ⟨rfl, rfl⟩, rfl⟩
          obtain ⟨rfl, hfirst⟩ := ih.mp hrest
          refine ⟨⟨rfl, rfl⟩, fun i hi => ?_⟩
          cases i with
          | zero => exact hstarts
          | succ i => exact hfirst i (Nat.lt_of_succ_lt_succ hi)
        · rintro ⟨⟨rfl, hrest⟩, hfirst⟩
          refine ⟨before, after, ih.mpr ⟨hrest, fun i hi => ?_⟩, ⟨rfl, rfl⟩, rfl⟩
          exact hfirst (i + 1) (Nat.succ_lt_succ hi)

/-- The pieces of a text take it apart. -/
theorem dissects_segments (cs : List Char) : Dissects cs (segments cs) := by
  fun_induction segments cs with
  | case1 cs hopened => exact .plain (untilOpening?_eq_none_iff.mp hopened)
  | case2 cs before after hopened hclosed =>
    obtain ⟨hcs, hfirst⟩ := untilOpening?_eq_some_iff.mp hopened
    exact .unclosed hcs hfirst (Text.splitOnce_eq_none_iff.mp hclosed)
  | case3 cs before after hopened body rest hclosed ih =>
    obtain ⟨hcs, hfirst⟩ := untilOpening?_eq_some_iff.mp hopened
    obtain ⟨rfl, hbody⟩ := Text.splitOnce_eq_some_iff.mp hclosed
    exact .reference hcs hfirst hbody ih

/-- There are no other pieces that take a text apart. -/
theorem Dissects.eq_segments {cs : List Char} {pieces : List Segment} (h : Dissects cs pieces) :
    pieces = segments cs := by
  induction h with
  | plain hnone =>
    rw [segments.eq_def, untilOpening?_eq_none_iff.mpr hnone]
  | unclosed hcs hfirst hopen =>
    rw [segments.eq_def, untilOpening?_eq_some_iff.mpr ⟨hcs, hfirst⟩]
    dsimp only
    rw [Text.splitOnce_eq_none_iff.mpr hopen]
  | reference hcs hfirst hbody _ ih =>
    rw [segments.eq_def, untilOpening?_eq_some_iff.mpr ⟨hcs, hfirst⟩]
    dsimp only
    rw [Text.splitOnce_append hbody, ih]

theorem dissects_iff {cs : List Char} {pieces : List Segment} :
    Dissects cs pieces ↔ pieces = segments cs :=
  ⟨Dissects.eq_segments, fun h => h ▸ dissects_segments cs⟩

/-! ### What pieces stand for -/

/-- `Names body name default?`: the body of a reference is this name, which goes up to the first
    colon, and after the colon, if there is one, this default. -/
inductive Names : List Char → String → Option String → Prop
  | alone {name : List Char} (hname : ':' ∉ name) : Names name (.ofList name) none
  | orElse {name : List Char} (hname : ':' ∉ name) (default : List Char) :
    Names (name ++ ':' :: default) (.ofList name) (some (.ofList default))

/-- `Stands lookup p value`: the piece stands for this text.  A reference stands for its variable if
    that is set, and for its default if it is not. -/
inductive Stands (lookup : String → Option String) : Segment → String → Prop
  | plain (text : List Char) : Stands lookup (.plain text) (.ofList text)
  | set {body : List Char} {name value : String} {default? : Option String}
      (hbody : Names body name default?) (hset : lookup name = some value) :
    Stands lookup (.reference body) value
  | unset {body : List Char} {name default : String} (hbody : Names body name (some default))
      (hunset : lookup name = none) : Stands lookup (.reference body) default

theorem names_iff {body : List Char} {name : String} {default? : Option String} :
    Names body name default? ↔ nameAndDefault body = (name, default?) := by
  rw [nameAndDefault]
  constructor
  · rintro (hname | ⟨hname, default⟩)
    · rw [Text.splitOnce_eq_none_iff.mpr hname]
    · rw [Text.splitOnce_append hname]
  · cases hsplit : Text.splitOnce ':' body with
    | none =>
      rintro ⟨⟩
      exact .alone (Text.splitOnce_eq_none_iff.mp hsplit)
    | some parts =>
      obtain ⟨rfl, hname⟩ := Text.splitOnce_eq_some_iff.mp hsplit
      rintro ⟨⟩
      exact .orElse hname _

/-- What a piece expands to is what it stands for. -/
theorem expand_segment_iff {lookup : String → Option String} {whole value : String} {p : Segment} :
    p.expand lookup whole = .ok value ↔ Stands lookup p value := by
  cases p with
  | plain text =>
    constructor
    · rintro ⟨⟩
      exact .plain text
    · rintro ⟨⟩
      rfl
  | reference body =>
    obtain ⟨name, default?, hnames⟩ : ∃ name default?, nameAndDefault body = (name, default?) :=
      ⟨_, _, rfl⟩
    have hbody := names_iff.mpr hnames
    simp only [Segment.expand, hnames]
    constructor
    · intro h
      cases hlookup : lookup name with
      | some found =>
        rw [hlookup] at h
        cases h
        exact .set hbody hlookup
      | none =>
        rw [hlookup] at h
        cases default? with
        | none => cases h
        | some default =>
          cases h
          exact .unset hbody hlookup
    · intro h
      cases h with
      | set hother hset =>
        cases hnames.symm.trans (names_iff.mp hother)
        rw [hset]
        rfl
      | unset hother hunset =>
        cases hnames.symm.trans (names_iff.mp hother)
        rw [hunset]
        rfl
  | unclosed => exact iff_of_false (by rintro ⟨⟩) (by rintro ⟨⟩)

/-- A piece stands for something unless it is an opening that is not closed, or a reference without
    a default to a variable that is not set. -/
theorem exists_stands_iff {lookup : String → Option String} {p : Segment} :
    (∃ value, Stands lookup p value) ↔ p ≠ .unclosed ∧
      ∀ body, p = .reference body → ':' ∉ body → (lookup (.ofList body)).isSome = true := by
  cases p with
  | plain text => exact iff_of_true ⟨_, .plain text⟩ ⟨by rintro ⟨⟩, by rintro _ ⟨⟩⟩
  | unclosed => exact iff_of_false (by rintro ⟨_, ⟨⟩⟩) fun h => h.1 rfl
  | reference body =>
    constructor
    · rintro ⟨value, h⟩
      refine ⟨by rintro ⟨⟩, ?_⟩
      rintro _ ⟨⟩ hcolon
      have halone := names_iff.mp (Names.alone hcolon)
      cases h with
      | set hbody hset =>
        cases halone.symm.trans (names_iff.mp hbody)
        rw [hset]
        rfl
      | unset hbody hunset => cases halone.symm.trans (names_iff.mp hbody)
    · rintro ⟨-, hset⟩
      by_cases hcolon : ':' ∈ body
      · obtain ⟨name, default, rfl, hname⟩ := List.eq_append_cons_of_mem hcolon
        have hbody := Names.orElse hname default
        cases hlookup : lookup (.ofList name) with
        | some value => exact ⟨value, .set hbody hlookup⟩
        | none => exact ⟨.ofList default, .unset hbody hlookup⟩
      · obtain ⟨value, hvalue⟩ := Option.isSome_iff_exists.mp (hset body rfl hcolon)
        exact ⟨value, .set (.alone hcolon) hvalue⟩

/-! ### Whole texts -/

/-- A text expands to what its pieces stand for, one after the other. -/
theorem expand_eq_ok_iff {lookup : String → Option String} {s r : String} :
    expand lookup s = .ok r ↔ ∃ values,
      List.Forall₂ (Stands lookup) (segments s.toList) values ∧ r = String.join values := by
  have hpieces : ∀ values, (segments s.toList).mapM (Segment.expand lookup s) = .ok values ↔
      List.Forall₂ (Stands lookup) (segments s.toList) values := by
    intro values
    simp only [mapM_eq_ok_iff, expand_segment_iff]
  rw [expand]
  simp only [← hpieces]
  cases (segments s.toList).mapM (Segment.expand lookup s) with
  | error e => exact iff_of_false (by rintro ⟨⟩) (by rintro ⟨_, ⟨⟩, _⟩)
  | ok values =>
    constructor
    · rintro ⟨⟩
      exact ⟨values, rfl, rfl⟩
    · rintro ⟨_, ⟨⟩, rfl⟩
      rfl

/-- A reference ends at the first closing brace, and a default is not looked at again. -/
example : (expand (fun _ => some "$\x7benv:B\x7d") "a$\x7benv:A:$\x7benv:B\x7d\x7d").toOption
    = some "a$\x7benv:B\x7d\x7d" := by
  decide +kernel

/-- Every text is taken apart in exactly one way.  It expands just when every opening met on the
    way is closed and every reference without a default is to a variable that is set, and then it
    expands to its plain pieces as they are and to the variable or the default of each reference,
    in order. -/
theorem expand_exactly (lookup : String → Option String) (s : String) :
    ∃ pieces, (∀ others, Dissects s.toList others ↔ others = pieces) ∧
      ((∃ r, expand lookup s = .ok r) ↔ .unclosed ∉ pieces ∧
        ∀ body, .reference body ∈ pieces → ':' ∉ body →
          (lookup (.ofList body)).isSome = true) ∧
      ∀ r, expand lookup s = .ok r ↔
        ∃ values, List.Forall₂ (Stands lookup) pieces values ∧ r = String.join values := by
  refine ⟨segments s.toList, fun _ => dissects_iff, ?_, fun _ => expand_eq_ok_iff⟩
  have hstand : (∃ r, expand lookup s = .ok r) ↔
      ∀ p ∈ segments s.toList, ∃ value, Stands lookup p value := by
    rw [← exists_forall₂_iff]
    constructor
    · rintro ⟨r, hr⟩
      obtain ⟨values, hvalues, -⟩ := expand_eq_ok_iff.mp hr
      exact ⟨values, hvalues⟩
    · rintro ⟨values, hvalues⟩
      exact ⟨_, expand_eq_ok_iff.mpr ⟨values, hvalues, rfl⟩⟩
  simp only [hstand, exists_stands_iff]
  constructor
  · intro h
    exact ⟨fun hunclosed => (h _ hunclosed).1 rfl, fun body hbody => (h _ hbody).2 body rfl⟩
  · rintro ⟨hclosed, hset⟩ p hp
    refine ⟨fun hunclosed => hclosed (hunclosed ▸ hp), fun body hbody => hset body (hbody ▸ hp)⟩

end QueryLoom.Config

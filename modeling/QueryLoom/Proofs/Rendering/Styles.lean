/-
  QueryLoom/Proofs/Rendering/Styles.lean
  ======================================
  **Both styles of placeholders write the same statement.**  A statement's text is made of
  segments, which are the same in both styles: what is written as it stands, and placeholders
  with the names that they have when placeholders are named.

  With named placeholders a parameter is bound once, where its name is met first.  What is left
  out of the bindings is behind a binding of the same name, so looking up a name finds the same
  with and without it (`lookup_once`).  The names of constants are those of no parameter and all
  different, so a constant finds itself, and a parameter finds the first one of its name.

    * `Select.segments` — the segments of a statement;
    * `Style.labelled` — bindings with the names that their placeholders have;
    * `styles_describe_one_statement` — the texts, and what the names are bound to.
-/
import QueryLoom.Proofs.Rendering.Refusal
import QueryLoom.Proofs.Rendering.Walk
import QueryLoom.Proofs.Text.FreeName

namespace QueryLoom

namespace Binding

/-- Whether a parameter of the given name is bound. -/
def isNamed (name : String) : Binding → Bool
  | dynamic p => p.name == name
  | constant _ => false

/-- The parameter that is bound. -/
def parameter? : Binding → Option Parameter
  | dynamic p => some p
  | constant _ => none

/-- The first binding in the list of a parameter with the same name.  A constant stands for
    itself. -/
def firstIn (bindings : List Binding) : Binding → Binding
  | dynamic p => (bindings.find? (isNamed p.name)).getD (dynamic p)
  | constant v => constant v

/-- The bindings with one more, unless it is a parameter whose name is bound. -/
def once (bound : List Binding) (b : Binding) : List Binding :=
  match b with
  | dynamic p => if bound.any (isNamed p.name) then bound else bound ++ [b]
  | constant _ => bound ++ [b]

end Binding

namespace Sql

/-! ### Segments -/

/-- A part of a statement's text.  A placeholder has the name that it is given when
    placeholders are named. -/
inductive Segment where
  | verbatim (text : String)
  | placeholder (name : String)
deriving DecidableEq

namespace Segment

/-- How a segment is written. -/
def text (placeholders : Placeholders) : Segment → String
  | verbatim t => t
  | placeholder name =>
    match placeholders with
    | .positional => "?"
    | .named => "@" ++ name

/-- The name of a placeholder. -/
def name? : Segment → Option String
  | verbatim _ => none
  | placeholder name => some name

/-- The text of segments. -/
def written (placeholders : Placeholders) (segments : List Segment) : String :=
  String.join (segments.map (text placeholders))

/-- The names of the placeholders from left to right. -/
def names (segments : List Segment) : List String := segments.filterMap name?

theorem written_cons {placeholders : Placeholders} {segment : Segment} {rest : List Segment} :
    written placeholders (segment :: rest) =
      segment.text placeholders ++ written placeholders rest := by
  simp [written, String.join_cons]

end Segment

/-- The segments of pieces behind which `n` constants have been bound. -/
def Style.segments (style : Style) (n : Nat) : List Piece → List Segment
  | [] => []
  | .parameter p :: rest => .placeholder p.name :: style.segments n rest
  | .constant _ :: rest => .placeholder (style.constantName n) :: style.segments (n + 1) rest
  | p :: rest => .verbatim (String.ofList (style.spelling p)) :: style.segments n rest

/-- The style in which a statement is written. -/
def Select.style (caps : Capabilities) (placeholders : Placeholders) (s : Select) : Style :=
  ⟨caps, placeholders, s.parameterNames⟩

/-- The segments of a statement. -/
def Select.segments (caps : Capabilities) (s : Select) : List Segment :=
  (s.style caps .named).segments 0 (s.pieces caps)

/-! ### Bindings and their names -/

/-- Bindings with the names of their placeholders, where `n` constants have been bound before. -/
def Style.labelled (style : Style) : Nat → List Binding → List (String × Binding)
  | _, [] => []
  | n, .dynamic p :: rest => (p.name, .dynamic p) :: style.labelled n rest
  | n, .constant v :: rest => (style.constantName n, .constant v) :: style.labelled (n + 1) rest

/-- What is bound to a name in a list of bindings. -/
def Select.bound? (caps : Capabilities) (s : Select) (bindings : List Binding) (name : String) :
    Option Binding :=
  ((s.style caps .named).labelled 0 bindings).lookup name


open Binding

namespace Style

variable {style style' : Style} {bound bound' bs cs : List Binding} {p : Piece} {ps : List Piece}
  {text name : String} {n : Nat} {b : Binding}

/-! ### Writing segments -/

/-- A piece that binds nothing is a segment of its own. -/
theorem segments_cons (h : p.binding? = none) (ps : List Piece) :
    style.segments n (p :: ps) =
      .verbatim (String.ofList (style.spelling p)) :: style.segments n ps := by
  cases p <;> first
    | rfl
    | cases h

theorem segments_congr (h : style.reserved = style'.reserved) (ps : List Piece) :
    style.segments n ps = style'.segments n ps := by
  have hname : style.constantName = style'.constantName := by
    funext n
    rw [constantName, constantName, h]
  induction ps generalizing n with
  | nil => rfl
  | cons p ps ih =>
    cases p with
    | parameter q => rw [segments, segments, ih]
    | constant v => rw [segments, segments, ih, hname]
    | _ =>
      rw [segments_cons rfl, segments_cons rfl, ih]
      rfl

theorem countP_isConstant_bind (q : Parameter) :
    (style.bind bound q).2.countP Binding.isConstant = bound.countP Binding.isConstant := by
  rw [bind]
  cases style.placeholders with
  | positional => simp [Binding.isConstant]
  | named =>
    simp only
    split <;> simp [Binding.isConstant]

/-- Writing puts the segments one after the other. -/
theorem text_of_write (h : style.write bound ps = (.ok text, bound')) :
    text = Segment.written style.placeholders
      (style.segments (bound.countP Binding.isConstant) ps) := by
  induction ps generalizing bound text with
  | nil =>
    cases h
    rfl
  | cons p ps ih =>
    obtain ⟨first, between, rest, hfirst, hrest, rfl⟩ := write_cons_eq_ok h
    rw [ih hrest]
    cases p with
    | parameter q =>
      obtain ⟨rfl, rfl⟩ : (style.bind bound q).1 = first ∧ (style.bind bound q).2 = between := by
        simpa [writePiece, Prod.ext_iff] using hfirst
      rw [countP_isConstant_bind, segments, Segment.written_cons, bind, Segment.text.eq_def]
      cases style.placeholders <;> rfl
    | constant v =>
      obtain ⟨rfl, rfl⟩ : (style.bindConstant bound v).1 = first ∧
          (style.bindConstant bound v).2 = between := by
        simpa [writePiece, Prod.ext_iff] using hfirst
      have hcount : (style.bindConstant bound v).2.countP Binding.isConstant =
          bound.countP Binding.isConstant + 1 := by
        simp [bindConstant, Binding.isConstant]
      have hmark : (style.bindConstant bound v).1 = Segment.text style.placeholders
          (.placeholder (style.constantName (bound.countP Binding.isConstant))) := by
        cases hstyle : style.placeholders <;> simp only [bindConstant, Segment.text, hstyle]
      rw [hcount, segments, Segment.written_cons, hmark]
    | refused e => cases hfirst
    | name id =>
      obtain ⟨t, hid, hbound⟩ : ∃ t, identifier style.caps id = .ok t ∧
          (t, bound) = (first, between) := by
        rw [writePiece] at hfirst
        cases hid : identifier style.caps id with
        | error e =>
          rw [hid] at hfirst
          cases hfirst
        | ok t =>
          rw [hid] at hfirst
          exact ⟨t, rfl, Except.ok.inj hfirst⟩
      cases hbound
      rw [segments_cons rfl, Segment.written_cons, identifier_eq_ok hid]
      simp [Segment.text, spelling]
    | _ =>
      cases hfirst
      rw [segments_cons rfl, Segment.written_cons]
      simp [Segment.text, spelling]

/-- The names of the placeholders are those of what the pieces bind. -/
theorem names_segments (ps : List Piece) :
    Segment.names (style.segments n ps) =
      (style.labelled n (ps.filterMap Piece.binding?)).map Prod.fst := by
  induction ps generalizing n with
  | nil => rfl
  | cons p ps ih =>
    cases p with
    | parameter q =>
      simpa [segments, Segment.names, Segment.name?, Piece.binding?, labelled] using @ih n
    | constant v =>
      simpa [segments, Segment.names, Segment.name?, Piece.binding?, labelled] using @ih (n + 1)
    | _ =>
      rw [segments_cons rfl, Segment.names, List.filterMap_cons_none rfl, ← Segment.names, ih,
        List.filterMap_cons_none rfl]

/-- With named placeholders a parameter is bound where its name is met first. -/
theorem bindings_of_write_named (hstyle : style.placeholders = .named)
    (h : style.write bound ps = (.ok text, bound')) :
    bound' = (ps.filterMap Piece.binding?).foldl once bound := by
  induction ps generalizing bound text with
  | nil =>
    cases h
    rfl
  | cons p ps ih =>
    obtain ⟨first, between, rest, hfirst, hrest, rfl⟩ := write_cons_eq_ok h
    rw [ih hrest]
    cases p with
    | parameter q =>
      obtain rfl : once bound (.dynamic q) = between := by
        simp only [writePiece, bind, hstyle, Except.ok.injEq, Prod.mk.injEq] at hfirst
        exact hfirst.2
      rfl
    | constant v =>
      obtain rfl : once bound (.constant v) = between := by
        simp only [writePiece, bindConstant, Except.ok.injEq, Prod.mk.injEq] at hfirst
        exact hfirst.2
      rfl
    | refused e => cases hfirst
    | name id =>
      have hbetween : between = bound := by
        rw [writePiece] at hfirst
        cases hid : identifier style.caps id with
        | error e =>
          rw [hid] at hfirst
          cases hfirst
        | ok t =>
          rw [hid] at hfirst
          cases hfirst
          rfl
      rw [hbetween, List.filterMap_cons_none rfl]
    | _ =>
      cases hfirst
      rw [List.filterMap_cons_none rfl]

/-! ### Looking up names -/

theorem constantName_not_mem (style : Style) (n : Nat) :
    style.constantName n ∉ style.reserved :=
  (Text.freeNumber_spec "p" style.reserved n 0).2.1

/-- Each constant has a name of its own: as many free names come before it as constants. -/
theorem constantName_injective (style : Style) : Function.Injective style.constantName := by
  intro i j h
  have hnumber : Text.freeNumber "p" style.reserved i 0 = Text.freeNumber "p" style.reserved j 0 :=
    Text.numbered_injective "p" h
  have hi := (Text.freeNumber_spec "p" style.reserved i 0).2.2
  have hj := (Text.freeNumber_spec "p" style.reserved j 0).2.2
  rw [← hi, ← hj, hnumber]

theorem labelled_append (style : Style) (n : Nat) (bs cs : List Binding) :
    style.labelled n (bs ++ cs) =
      style.labelled n bs ++ style.labelled (n + bs.countP Binding.isConstant) cs := by
  induction bs generalizing n with
  | nil => rfl
  | cons b bs ih =>
    cases b with
    | dynamic p => simp [labelled, ih, Binding.isConstant]
    | constant v =>
      rw [List.cons_append, labelled, labelled, ih, List.countP_cons_of_pos rfl, List.cons_append,
        Nat.add_right_comm, Nat.add_assoc]

theorem isSome_lookup_of_any (h : bs.any (isNamed name)) :
    ((style.labelled n bs).lookup name).isSome := by
  induction bs generalizing n with
  | nil => cases h
  | cons b bs ih =>
    cases b with
    | dynamic p =>
      rw [labelled, List.lookup_cons]
      split
      · rfl
      · next hne =>
        have hne' : isNamed name (.dynamic p) = false := by
          rw [isNamed, BEq.comm]
          exact hne
        rw [List.any_cons, hne', Bool.false_or] at h
        exact ih h
    | constant v =>
      rw [labelled, List.lookup_cons]
      split
      · rfl
      · exact ih h

/-- Leaving out parameters whose names are bound already changes nothing that is looked up. -/
theorem lookup_once (bs : List Binding) :
    (style.labelled n (bs.foldl once bound)).lookup name =
      (style.labelled n (bound ++ bs)).lookup name := by
  induction bs generalizing bound with
  | nil => rw [List.foldl_nil, List.append_nil]
  | cons b bs ih =>
    rw [List.foldl_cons, ih]
    cases b with
    | constant v => rw [once, List.append_assoc, List.singleton_append]
    | dynamic p =>
      rw [once]
      split
      · next hany =>
        rw [labelled_append, labelled_append, labelled, List.lookup_append, List.lookup_append,
          List.lookup_cons]
        split
        · next heq =>
          obtain rfl : name = p.name := by simpa using heq
          obtain ⟨found, hfound⟩ : ∃ found, (style.labelled n bound).lookup p.name = some found :=
            Option.isSome_iff_exists.mp (isSome_lookup_of_any hany)
          rw [hfound, Option.some_or, Option.some_or]
        · rfl
      · rw [List.append_assoc, List.singleton_append]

/-- A name that no constant has finds the first parameter of that name. -/
theorem lookup_reserved (h : name ∈ style.reserved) :
    (style.labelled n bs).lookup name = bs.find? (isNamed name) := by
  induction bs generalizing n with
  | nil => rfl
  | cons b bs ih =>
    cases b with
    | dynamic p =>
      rw [labelled, List.lookup_cons, List.find?_cons, isNamed, BEq.comm, ih]
    | constant v =>
      have hne : (name == style.constantName n) = false := by
        rw [beq_eq_false_iff_ne]
        rintro rfl
        exact style.constantName_not_mem n h
      rw [labelled, List.lookup_cons, hne, List.find?_cons, isNamed, ih]

theorem dynamic_of_mem {p : Parameter} (h : (name, .dynamic p) ∈ style.labelled n bs) :
    name = p.name ∧ .dynamic p ∈ bs := by
  induction bs generalizing n with
  | nil => cases h
  | cons b bs ih =>
    cases b with
    | dynamic q =>
      rw [labelled, List.mem_cons] at h
      rcases h with heq | h
      · cases heq
        exact ⟨rfl, List.mem_cons_self⟩
      · exact (ih h).imp_right (List.mem_cons_of_mem _)
    | constant w =>
      rw [labelled, List.mem_cons] at h
      exact (ih (h.resolve_left (by simp))).imp_right (List.mem_cons_of_mem _)

theorem map_snd_labelled (style : Style) (n : Nat) (bs : List Binding) :
    (style.labelled n bs).map Prod.snd = bs := by
  induction bs generalizing n with
  | nil => rfl
  | cons b bs ih => cases b <;> rw [labelled, List.map_cons, ih]

theorem constantName_of_mem {v : Value} (h : (name, .constant v) ∈ style.labelled n bs) :
    ∃ i, n ≤ i ∧ name = style.constantName i := by
  induction bs generalizing n with
  | nil => cases h
  | cons b bs ih =>
    cases b with
    | dynamic p =>
      rw [labelled, List.mem_cons] at h
      exact ih (h.resolve_left (by simp))
    | constant w =>
      rw [labelled, List.mem_cons] at h
      rcases h with heq | h
      · cases heq
        exact ⟨n, Nat.le_refl n, rfl⟩
      · obtain ⟨i, hi, hname⟩ := ih h
        exact ⟨i, Nat.le_of_succ_le hi, hname⟩

/-- The name of a constant finds the constant. -/
theorem lookup_constant {v : Value} (hbs : ∀ p, .dynamic p ∈ bs → p.name ∈ style.reserved)
    (h : (name, .constant v) ∈ style.labelled n bs) :
    (style.labelled n bs).lookup name = some (.constant v) := by
  induction bs generalizing n with
  | nil => cases h
  | cons b bs ih =>
    have hrest : ∀ p, .dynamic p ∈ bs → p.name ∈ style.reserved :=
      fun p hp => hbs p (List.mem_cons_of_mem b hp)
    cases b with
    | dynamic p =>
      rw [labelled, List.mem_cons] at h
      have hmem := h.resolve_left (by simp)
      obtain ⟨i, -, rfl⟩ := constantName_of_mem hmem
      have hne : (style.constantName i == p.name) = false := by
        rw [beq_eq_false_iff_ne]
        intro heq
        exact style.constantName_not_mem i (heq ▸ hbs p List.mem_cons_self)
      rw [labelled, List.lookup_cons, hne]
      exact ih hrest hmem
    | constant w =>
      rw [labelled, List.mem_cons] at h
      rcases h with heq | hmem
      · cases heq
        rw [labelled, List.lookup_cons_self]
      · obtain ⟨i, hi, rfl⟩ := constantName_of_mem hmem
        have hne : (style.constantName i == style.constantName n) = false := by
          rw [beq_eq_false_iff_ne]
          intro heq
          have := style.constantName_injective heq
          omega
        rw [labelled, List.lookup_cons, hne]
        exact ih hrest hmem

/-- The name of each placeholder finds what the placeholder binds, a parameter as it is bound
    first. -/
theorem lookup_labelled (hbs : ∀ p, .dynamic p ∈ bs → p.name ∈ style.reserved)
    (h : (name, b) ∈ style.labelled n bs) :
    (style.labelled n bs).lookup name = some (b.firstIn bs) := by
  cases b with
  | constant v => exact lookup_constant hbs h
  | dynamic p =>
    obtain ⟨rfl, hp⟩ := dynamic_of_mem h
    obtain ⟨found, hfound⟩ : ∃ found, bs.find? (isNamed p.name) = some found := by
      rw [← Option.isSome_iff_exists, List.find?_isSome]
      exact ⟨_, hp, beq_self_eq_true p.name⟩
    rw [lookup_reserved (hbs p hp), firstIn, hfound, Option.getD_some]

/-- What is bound to the names of bindings, from a list that leaves repeated parameters out. -/
theorem map_lookup_once (hbs : ∀ p, .dynamic p ∈ bs → p.name ∈ style.reserved) :
    ((style.labelled n bs).map Prod.fst).map
        (fun name => (style.labelled n (bs.foldl once [])).lookup name) =
      bs.map fun b => some (b.firstIn bs) := by
  have heach : ∀ x ∈ style.labelled n bs,
      (style.labelled n (bs.foldl once [])).lookup x.1 = some (x.2.firstIn bs) := by
    intro x hx
    rw [lookup_once, List.nil_append]
    exact lookup_labelled hbs hx
  have hfirst : (style.labelled n bs).map (fun x => some (x.2.firstIn bs)) =
      ((style.labelled n bs).map Prod.snd).map fun b => some (b.firstIn bs) := by
    rw [List.map_map]
    rfl
  rw [map_snd_labelled] at hfirst
  rw [List.map_map, ← hfirst]
  exact List.map_congr_left heach

/-! ### Different names -/

/-- Placeholders of different parameters and constants have different names. -/
theorem nodup_names (hbs : ∀ p, .dynamic p ∈ bs → p.name ∈ style.reserved)
    (hnodup : ((bs.filterMap parameter?).map Parameter.name).Nodup) :
    ((style.labelled n bs).map Prod.fst).Nodup := by
  induction bs generalizing n with
  | nil => exact List.nodup_nil
  | cons b bs ih =>
    have hrest : ∀ p, .dynamic p ∈ bs → p.name ∈ style.reserved :=
      fun p hp => hbs p (List.mem_cons_of_mem b hp)
    cases b with
    | dynamic p =>
      replace hnodup : (p.name :: (bs.filterMap parameter?).map Parameter.name).Nodup := hnodup
      rw [List.nodup_cons] at hnodup
      rw [labelled, List.map_cons, List.nodup_cons]
      refine ⟨fun hmem => ?_, ih hrest hnodup.2⟩
      obtain ⟨⟨name, b⟩, hb, rfl⟩ := List.mem_map.mp hmem
      cases b with
      | dynamic q =>
        obtain ⟨hname, hq⟩ := dynamic_of_mem hb
        exact hnodup.1 (List.mem_map.mpr ⟨q, List.mem_filterMap.mpr ⟨_, hq, rfl⟩, hname.symm⟩)
      | constant v =>
        obtain ⟨i, -, hname⟩ := constantName_of_mem hb
        exact style.constantName_not_mem i (hname ▸ hbs p List.mem_cons_self)
    | constant v =>
      replace hnodup : ((bs.filterMap parameter?).map Parameter.name).Nodup := hnodup
      rw [labelled, List.map_cons, List.nodup_cons]
      refine ⟨fun hmem => ?_, ih hrest hnodup⟩
      obtain ⟨⟨name, b⟩, hb, hname⟩ := List.mem_map.mp hmem
      cases b with
      | dynamic q =>
        replace hname : name = style.constantName n := hname
        obtain ⟨rfl, hq⟩ := dynamic_of_mem hb
        exact style.constantName_not_mem n (hname ▸ hrest q hq)
      | constant w =>
        replace hname : name = style.constantName n := hname
        obtain ⟨i, hi, rfl⟩ := constantName_of_mem hb
        have := style.constantName_injective hname
        omega

theorem mem_of_mem_once {c : Binding} (h : c ∈ bs.foldl once bound) : c ∈ bound ∨ c ∈ bs := by
  induction bs generalizing bound with
  | nil => exact .inl h
  | cons b bs ih =>
    rcases ih h with hbound | hbs
    · have hnew : c ∈ bound ++ [b] := by
        cases b with
        | constant v => exact hbound
        | dynamic p =>
          rw [once] at hbound
          split at hbound
          · exact List.mem_append_left _ hbound
          · exact hbound
      exact (List.mem_append.mp hnew).imp_right fun hc =>
        List.mem_cons.mpr (.inl (List.mem_singleton.mp hc))
    · exact .inr (List.mem_cons_of_mem b hbs)

/-- Every parameter is bound once. -/
theorem nodup_once (h : ((bound.filterMap parameter?).map Parameter.name).Nodup) :
    (((bs.foldl once bound).filterMap parameter?).map Parameter.name).Nodup := by
  induction bs generalizing bound with
  | nil => exact h
  | cons b bs ih =>
    refine ih ?_
    cases b with
    | constant v =>
      rw [once, List.filterMap_append]
      exact (List.append_nil (bound.filterMap parameter?)).symm ▸ h
    | dynamic p =>
      rw [once]
      split
      · exact h
      · next hnew =>
        have hfresh : p.name ∉ (bound.filterMap parameter?).map Parameter.name := by
          rw [List.mem_map]
          rintro ⟨q, hq, hname⟩
          obtain ⟨c, hc, hcq⟩ := List.mem_filterMap.mp hq
          cases c with
          | constant v => cases hcq
          | dynamic q' =>
            cases hcq
            exact hnew (List.any_eq_true.mpr ⟨_, hc, beq_iff_eq.mpr hname⟩)
        rw [List.filterMap_append, List.map_append]
        refine List.nodup_append.mpr ⟨h, List.nodup_singleton _, fun name hname name' hname' => ?_⟩
        obtain rfl : name' = p.name := List.mem_singleton.mp hname'
        rintro rfl
        exact hfresh hname

end Style

namespace Select

variable {caps : Capabilities} {s : Select} {named positional : Statement}

/-! ### Statements -/

/-- The names of the placeholders that bindings are for. -/
def boundNames (caps : Capabilities) (s : Select) (bindings : List Binding) : List String :=
  ((s.style caps .named).labelled 0 bindings).map Prod.fst

theorem bindings_of_render (h : render caps .positional s = .ok positional) :
    positional.bindings = (s.pieces caps).filterMap Piece.binding? := by
  rw [Style.bindings_of_write rfl (render_eq_ok h), List.nil_append]

theorem mem_parameterNames {name : String} :
    name ∈ s.parameterNames ↔ ∃ p, .parameter p ∈ s.walk ∧ p.name = name := by
  rw [parameterNames, List.mem_filterMap]
  constructor
  · rintro ⟨e, he, hname⟩
    cases e with
    | parameter p =>
      cases hname
      exact ⟨p, he, rfl⟩
    | _ => cases hname
  · rintro ⟨p, hp, rfl⟩
    exact ⟨_, hp, rfl⟩

theorem dynamic_mem_placeholders {p : Parameter} :
    .dynamic p ∈ s.walk.filterMap (Expr.placeholder? caps) ↔ .parameter p ∈ s.walk := by
  rw [List.mem_filterMap]
  constructor
  · rintro ⟨e, he, hbound⟩
    cases e with
    | parameter q =>
      cases hbound
      exact he
    | literal v =>
      rw [Expr.placeholder?.eq_def] at hbound
      split at hbound <;> simp_all
    | _ => cases hbound
  · intro h
    exact ⟨_, h, rfl⟩

theorem parameter_of_mem_bindings (h : render caps .positional s = .ok positional) {p : Parameter}
    (hp : .dynamic p ∈ positional.bindings) : .parameter p ∈ s.walk := by
  rw [bindings_of_render h, bindings_pieces] at hp
  exact dynamic_mem_placeholders.mp hp

theorem name_mem_of_mem_bindings (h : render caps .positional s = .ok positional) (p : Parameter)
    (hp : .dynamic p ∈ positional.bindings) : p.name ∈ s.parameterNames :=
  mem_parameterNames.mpr ⟨p, parameter_of_mem_bindings h hp, rfl⟩

theorem bindings_of_render_named (hnamed : render caps .named s = .ok named)
    (h : render caps .positional s = .ok positional) :
    named.bindings = positional.bindings.foldl once [] := by
  rw [bindings_of_render h]
  exact Style.bindings_of_write_named rfl (render_eq_ok hnamed)

theorem text_of_render {placeholders : Placeholders} {st : Statement}
    (h : render caps placeholders s = .ok st) :
    st.text = Segment.written placeholders (s.segments caps) := by
  have hreserved : (s.style caps placeholders).reserved = (s.style caps .named).reserved := rfl
  rw [Style.text_of_write (render_eq_ok h)]
  exact congrArg (Segment.written placeholders) (Style.segments_congr hreserved (s.pieces caps))

/-- A binding is the first one of its name where all of that name are the same. -/
theorem map_firstIn_eq {bs : List Binding}
    (h : ∀ p q, .dynamic p ∈ bs → .dynamic q ∈ bs → p.name = q.name → p = q) :
    bs.map (fun b => some (b.firstIn bs)) = bs.map some := by
  refine List.map_congr_left fun b hb => congrArg some ?_
  cases b with
  | constant v => rfl
  | dynamic p =>
    rw [firstIn]
    cases hfound : bs.find? (isNamed p.name) with
    | none => rfl
    | some found =>
      have hname := List.find?_some hfound
      have hmem := List.mem_of_find?_eq_some hfound
      cases found with
      | constant v => cases hname
      | dynamic q =>
        rw [Option.getD_some, h q p hmem hb (beq_iff_eq.mp hname)]

end Select

/-- A statement can be written with named placeholders when it can be written with positional
    ones.  Its texts are then the same segments, and the names of the placeholders are bound, one
    after the other, to what the positional placeholders are bound to, each parameter with the
    type that the first one of its name has: to exactly the same where equal names come with
    equal types. -/
theorem styles_describe_one_statement (caps : Capabilities) (s : Select) :
    ((∃ st, render caps .named s = .ok st) ↔ ∃ st, render caps .positional s = .ok st) ∧
    ∀ named positional, render caps .named s = .ok named →
      render caps .positional s = .ok positional →
      named.text = Segment.written .named (s.segments caps) ∧
      positional.text = Segment.written .positional (s.segments caps) ∧
      (s.boundNames caps named.bindings).Nodup ∧
      (Segment.names (s.segments caps)).map (s.bound? caps named.bindings) =
        positional.bindings.map (fun b => some (b.firstIn positional.bindings)) ∧
      ((∀ p q, .parameter p ∈ s.walk → .parameter q ∈ s.walk → p.name = q.name →
          p.type = q.type) →
        (Segment.names (s.segments caps)).map (s.bound? caps named.bindings) =
          positional.bindings.map some) := by
  refine ⟨by rw [exists_render_iff, exists_render_iff], ?_⟩
  intro named positional hnamed hpositional
  have hreserved := Select.name_mem_of_mem_bindings hpositional
  have hbindings := Select.bindings_of_render_named hnamed hpositional
  have hfound : (Segment.names (s.segments caps)).map (s.bound? caps named.bindings) =
      positional.bindings.map fun b => some (b.firstIn positional.bindings) := by
    rw [Select.segments, Style.names_segments, ← Select.bindings_of_render hpositional, hbindings]
    exact Style.map_lookup_once hreserved
  refine ⟨Select.text_of_render hnamed, Select.text_of_render hpositional, ?_, hfound, ?_⟩
  · refine Style.nodup_names ?_ ?_
    · intro p hp
      rw [hbindings] at hp
      exact hreserved p ((Style.mem_of_mem_once hp).resolve_left List.not_mem_nil)
    · rw [hbindings]
      exact Style.nodup_once List.nodup_nil
  · intro htypes
    rw [hfound]
    refine Select.map_firstIn_eq fun p q hp hq hname => ?_
    have htype := htypes p q (Select.parameter_of_mem_bindings hpositional hp)
      (Select.parameter_of_mem_bindings hpositional hq) hname
    cases p
    cases q
    simp_all

/-- Two columns with parameters of one name, and octets between them, which are bound. -/
def boundTwice (second : DataType) : Select :=
  ⟨[⟨.parameter ⟨"p", .int32⟩, some "a"⟩, ⟨.literal (.binary [7]), some "b"⟩,
    ⟨.parameter ⟨"p", second⟩, some "c"⟩], .table "T" "t", [], [], none⟩

/-- With one type the names find what the positional placeholders are bound to. -/
theorem styles_describe_boundTwice :
    render (.ofVersion ⟨3, 0, 0, 0⟩) .named (boundTwice .int32) =
        .ok ⟨"SELECT @p AS \"a\", @p0 AS \"b\", @p AS \"c\" FROM \"T\" \"t\"",
          [.dynamic ⟨"p", .int32⟩, .constant (.binary [7])]⟩ ∧
      (Segment.names ((boundTwice .int32).segments (.ofVersion ⟨3, 0, 0, 0⟩))).map
          ((boundTwice .int32).bound? (.ofVersion ⟨3, 0, 0, 0⟩)
            [.dynamic ⟨"p", .int32⟩, .constant (.binary [7])]) =
        [some (.dynamic ⟨"p", .int32⟩), some (.constant (.binary [7])),
          some (.dynamic ⟨"p", .int32⟩)] := by
  have hnamed : render (.ofVersion ⟨3, 0, 0, 0⟩) .named (boundTwice .int32) =
      .ok ⟨"SELECT @p AS \"a\", @p0 AS \"b\", @p AS \"c\" FROM \"T\" \"t\"",
        [.dynamic ⟨"p", .int32⟩, .constant (.binary [7])]⟩ := by decide
  have hpositional : render (.ofVersion ⟨3, 0, 0, 0⟩) .positional (boundTwice .int32) =
      .ok ⟨"SELECT ? AS \"a\", ? AS \"b\", ? AS \"c\" FROM \"T\" \"t\"",
        [.dynamic ⟨"p", .int32⟩, .constant (.binary [7]), .dynamic ⟨"p", .int32⟩]⟩ := by decide
  have hstyles := (styles_describe_one_statement _ _).2 _ _ hnamed hpositional
  exact ⟨hnamed, hstyles.2.2.2.2 (by simp [boundTwice, Select.walk, walkColumns, Expr.walk,
    Origin.walk, walkList, walkKeys, walkWindow])⟩

/-- With two types the second one is lost, because the name is bound once. -/
theorem bound_ne_of_two_types :
    render (.ofVersion ⟨3, 0, 0, 0⟩) .positional (boundTwice .int64) =
        .ok ⟨"SELECT ? AS \"a\", ? AS \"b\", ? AS \"c\" FROM \"T\" \"t\"",
          [.dynamic ⟨"p", .int32⟩, .constant (.binary [7]), .dynamic ⟨"p", .int64⟩]⟩ ∧
      render (.ofVersion ⟨3, 0, 0, 0⟩) .named (boundTwice .int64) =
        .ok ⟨"SELECT @p AS \"a\", @p0 AS \"b\", @p AS \"c\" FROM \"T\" \"t\"",
          [.dynamic ⟨"p", .int32⟩, .constant (.binary [7])]⟩ ∧
      (Segment.names ((boundTwice .int64).segments (.ofVersion ⟨3, 0, 0, 0⟩))).map
          ((boundTwice .int64).bound? (.ofVersion ⟨3, 0, 0, 0⟩)
            [.dynamic ⟨"p", .int32⟩, .constant (.binary [7])]) ≠
        [some (.dynamic ⟨"p", .int32⟩), some (.constant (.binary [7])),
          some (.dynamic ⟨"p", .int64⟩)] := by
  decide

end Sql

end QueryLoom

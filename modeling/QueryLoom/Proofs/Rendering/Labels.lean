/-
  QueryLoom/Proofs/Rendering/Labels.lean
  ======================================
  **The names of placeholders can be told from the bindings.**  With named placeholders a
  parameter keeps its name and a constant gets the next of the names `p0`, `p1` and so on that no
  parameter has.  The names to leave out are collected by walking the statement before anything is
  written, the bindings while it is written, so the two have to meet the same parameters.

  * `Binding.mem_names_foldl_once`: leaving out repeated parameters leaves out no name;
  * `Select.mem_names_iff`: the names of bound parameters are those of the parameters that the
    statement holds, at any depth;
  * `Style.exists_piece_of_write`: every binding was made by a piece, and the text of that piece
    stands in the text of the statement behind that of the pieces before it;
  * `placeholders_of_bindings`: every placeholder has the name that is computed from the
    bindings alone, and all of these are different.
-/
import Mathlib.Data.Nat.Nth
import QueryLoom.Proofs.Rendering.Styles
import QueryLoom.Proofs.Scoping.Walked

namespace QueryLoom

namespace Text

/-- From zero on the `n`-th number that is free is found. -/
theorem freeNumber_eq_nth (stem : String) (taken : List String) (n : Nat) :
    freeNumber stem taken n 0 = Nat.nth (fun i => numbered stem i ∉ taken) n := by
  obtain ⟨-, hfree, hbefore⟩ := freeNumber_spec stem taken n 0
  have hcount : Nat.count (fun i => numbered stem i ∉ taken) (freeNumber stem taken n 0) = n := by
    rw [Nat.sub_zero, ← List.range_eq_range'] at hbefore
    refine (List.countP_congr fun j _ => ?_).trans hbefore
    simp
  calc freeNumber stem taken n 0
      = Nat.nth (fun i => numbered stem i ∉ taken) (Nat.count (fun i => numbered stem i ∉ taken)
          (freeNumber stem taken n 0)) := (Nat.nth_count hfree).symm
    _ = Nat.nth (fun i => numbered stem i ∉ taken) n := by rw [hcount]

/-- It only matters which names are taken, not in which order or how often they are listed. -/
theorem freeNumber_congr {stem : String} {taken taken' : List String}
    (h : ∀ name, name ∈ taken ↔ name ∈ taken') (n : Nat) :
    freeNumber stem taken n 0 = freeNumber stem taken' n 0 := by
  rw [freeNumber_eq_nth, freeNumber_eq_nth]
  simp only [h]

end Text

namespace Binding

/-- The names of the parameters that are bound. -/
def names (bindings : List Binding) : List String :=
  (bindings.filterMap parameter?).map Parameter.name

/-- The names of the placeholders of bindings where the given names are taken and `n`
    constants come before. -/
def placeholdersFrom (taken : List String) : Nat → List Binding → List String
  | _, [] => []
  | n, dynamic p :: rest => p.name :: placeholdersFrom taken n rest
  | n, constant _ :: rest =>
    Text.numbered "p" (Text.freeNumber "p" taken n 0) :: placeholdersFrom taken (n + 1) rest

/-- The names of the placeholders of all bindings of a statement. -/
def placeholders (bindings : List Binding) : List String :=
  placeholdersFrom (names bindings) 0 bindings

theorem names_append (bs cs : List Binding) : names (bs ++ cs) = names bs ++ names cs := by
  rw [names, List.filterMap_append, List.map_append]
  rfl

theorem mem_names {name : String} {bs : List Binding} :
    name ∈ names bs ↔ ∃ p, .dynamic p ∈ bs ∧ p.name = name := by
  simp only [names, List.mem_map, List.mem_filterMap]
  constructor
  · rintro ⟨p, ⟨b, hb, hp⟩, rfl⟩
    cases b with
    | dynamic q =>
      cases hp
      exact ⟨p, hb, rfl⟩
    | constant v => cases hp
  · rintro ⟨p, hp, rfl⟩
    exact ⟨p, ⟨_, hp, rfl⟩, rfl⟩

/-- Leaving out parameters whose names are bound already leaves out no name. -/
theorem mem_names_foldl_once {name : String} {bound bs : List Binding} :
    name ∈ names (bs.foldl once bound) ↔ name ∈ names (bound ++ bs) := by
  induction bs generalizing bound with
  | nil => rw [List.foldl_nil, List.append_nil]
  | cons b bs ih =>
    rw [List.foldl_cons, ih, names_append, ← List.singleton_append, ← List.append_assoc,
      names_append (bound ++ [b]), List.mem_append, List.mem_append]
    refine or_congr_left ?_
    cases b with
    | constant v => rw [once]
    | dynamic p =>
      rw [once]
      split
      · next hany =>
        obtain ⟨c, hc, hnamed⟩ := List.any_eq_true.mp hany
        rw [names_append, List.mem_append]
        refine ⟨.inl, fun h => h.elim id fun hp => ?_⟩
        obtain rfl : name = p.name := List.mem_singleton.mp hp
        cases c with
        | constant v => cases hnamed
        | dynamic q => exact mem_names.mpr ⟨q, hc, beq_iff_eq.mp hnamed⟩
      · exact Iff.rfl

/-- Only which names are taken matters. -/
theorem placeholdersFrom_congr {taken taken' : List String}
    (h : ∀ name, name ∈ taken ↔ name ∈ taken') (n : Nat) (bs : List Binding) :
    placeholdersFrom taken n bs = placeholdersFrom taken' n bs := by
  induction bs generalizing n with
  | nil => rfl
  | cons b bs ih =>
    cases b with
    | dynamic p => rw [placeholdersFrom, placeholdersFrom, ih]
    | constant v => rw [placeholdersFrom, placeholdersFrom, ih, Text.freeNumber_congr h]

/-- The name of a binding's placeholder depends on the constants before it. -/
theorem placeholdersFrom_getElem? (taken : List String) (n : Nat) (earlier later : List Binding)
    (b : Binding) :
    (placeholdersFrom taken n (earlier ++ b :: later))[earlier.length]? =
      (placeholdersFrom taken (n + earlier.countP isConstant) [b]).head? := by
  induction earlier generalizing n with
  | nil => cases b <;> rfl
  | cons c earlier ih =>
    cases c with
    | dynamic p =>
      rw [List.cons_append, placeholdersFrom, List.length_cons, List.getElem?_cons_succ, ih,
        List.countP_cons_of_neg (by simp [isConstant])]
    | constant v =>
      rw [List.cons_append, placeholdersFrom, List.length_cons, List.getElem?_cons_succ, ih,
        List.countP_cons_of_pos rfl, Nat.add_right_comm, Nat.add_assoc]

end Binding

namespace Sql

open Binding

namespace Style

variable {style : Style} {bound bound' earlier later : List Binding} {p : Piece} {ps : List Piece}
  {text : String} {b : Binding}

/-- Bindings and their names are labelled as they are written. -/
theorem map_fst_labelled (style : Style) (n : Nat) (bs : List Binding) :
    (style.labelled n bs).map Prod.fst = placeholdersFrom style.reserved n bs := by
  induction bs generalizing n with
  | nil => rfl
  | cons b bs ih =>
    cases b with
    | dynamic p => rw [labelled, List.map_cons, ih, placeholdersFrom]
    | constant v =>
      rw [labelled, List.map_cons, ih, placeholdersFrom]
      rfl

/-- A piece adds what it binds, or nothing. -/
theorem writePiece_adds (h : style.writePiece bound p = .ok (text, bound')) :
    bound' = bound ∨ ∃ b, p.binding? = some b ∧ bound' = bound ++ [b] := by
  cases p with
  | name id =>
    rw [writePiece] at h
    cases hid : identifier style.caps id with
    | error e =>
      rw [hid] at h
      cases h
    | ok t =>
      rw [hid] at h
      cases h
      exact .inl rfl
  | refused e => cases h
  | parameter q =>
    obtain rfl : (style.bind bound q).2 = bound' := by
      rw [writePiece, Except.ok.injEq] at h
      exact congrArg Prod.snd h
    rw [bind]
    cases style.placeholders with
    | positional => exact .inr ⟨_, rfl, rfl⟩
    | named =>
      dsimp only
      split
      · exact .inl rfl
      · exact .inr ⟨_, rfl, rfl⟩
  | constant v =>
    cases h
    exact .inr ⟨_, rfl, rfl⟩
  | _ =>
    cases h
    exact .inl rfl

/-- Writing keeps what has been bound before. -/
theorem prefix_of_write (h : style.write bound ps = (.ok text, bound')) : bound <+: bound' := by
  induction ps generalizing bound text with
  | nil =>
    cases h
    exact List.prefix_rfl
  | cons p ps ih =>
    obtain ⟨first, between, rest, hfirst, hrest, rfl⟩ := write_cons_eq_ok h
    rcases writePiece_adds hfirst with rfl | ⟨b, -, rfl⟩
    · exact ih hrest
    · exact (List.prefix_append bound [b]).trans (ih hrest)

/-- Every binding that writing added was made by a piece, which stands behind the text of the
    pieces before it. -/
theorem exists_piece_of_write (h : style.write bound ps = (.ok text, earlier ++ b :: later))
    (hlength : bound.length ≤ earlier.length) :
    ∃ before p after first mark rest, ps = before ++ p :: after ∧ p.binding? = some b ∧
      style.write bound before = (.ok first, earlier) ∧
      style.writePiece earlier p = .ok (mark, earlier ++ [b]) ∧ text = first ++ mark ++ rest := by
  induction ps generalizing bound text with
  | nil =>
    have hbound : bound = earlier ++ b :: later := congrArg Prod.snd h
    rw [hbound, List.length_append, List.length_cons] at hlength
    omega
  | cons p ps ih =>
    obtain ⟨first, between, rest, hfirst, hrest, rfl⟩ := write_cons_eq_ok h
    by_cases hbetween : between.length ≤ earlier.length
    · obtain ⟨before, q, after, first', mark, rest', rfl, hq, hbefore, hmark, rfl⟩ :=
        ih hrest hbetween
      refine ⟨p :: before, q, after, first ++ first', mark, rest', rfl, hq, ?_, hmark, ?_⟩
      · rw [write, hfirst]
        dsimp only
        rw [hbefore]
        rfl
      · simp only [String.append_assoc]
    · -- the bindings have just become longer, so it is this piece that added the binding
      rcases writePiece_adds hfirst with rfl | ⟨b', hb', rfl⟩
      · exact absurd hlength hbetween
      · obtain ⟨more, hmore⟩ := prefix_of_write hrest
        rw [List.length_append, List.length_singleton] at hbetween
        rw [List.append_assoc] at hmore
        obtain ⟨rfl, hsame⟩ := List.append_inj hmore (by omega)
        obtain rfl : b' = b := (List.cons.inj hsame).1
        refine ⟨[], p, ps, "", first, rest, rfl, hb', rfl, hfirst, ?_⟩
        rw [String.empty_append]

/-- The text of a piece that adds a binding is the binding's placeholder. -/
theorem mark_of_writePiece (hstyle : style.placeholders = .named) (hp : p.binding? = some b)
    (h : style.writePiece bound p = .ok (text, bound')) :
    ∃ name, placeholdersFrom style.reserved (bound.countP Binding.isConstant) [b] = [name] ∧
      text = "@" ++ name := by
  cases p with
  | parameter q =>
    cases hp
    refine ⟨q.name, rfl, ?_⟩
    simp only [writePiece, bind, hstyle, Except.ok.injEq, Prod.mk.injEq] at h
    exact h.1.symm
  | constant v =>
    cases hp
    refine ⟨_, rfl, ?_⟩
    simp only [writePiece, bindConstant, hstyle, Except.ok.injEq, Prod.mk.injEq] at h
    exact h.1.symm
  | _ => cases hp

end Style

namespace Select

variable {caps : Capabilities} {s : Select} {st : Statement}

theorem bindings_of_render_walk (h : render caps .named s = .ok st) :
    st.bindings = (s.walk.filterMap (Expr.placeholder? caps)).foldl once [] := by
  rw [← bindings_pieces]
  exact Style.bindings_of_write_named rfl (render_eq_ok h)

/-- The names that are bound are those of the parameters in the statement. -/
theorem mem_names_iff (h : render caps .named s = .ok st) {name : String} :
    name ∈ names st.bindings ↔ ∃ p, .parameter p ∈ s.walk ∧ p.name = name := by
  rw [bindings_of_render_walk h, mem_names_foldl_once, List.nil_append, mem_names]
  simp only [dynamic_mem_placeholders]

theorem mem_names_iff_mem_parameterNames (h : render caps .named s = .ok st) {name : String} :
    name ∈ names st.bindings ↔ name ∈ s.parameterNames := by
  rw [mem_names_iff h, mem_parameterNames]

theorem placeholders_eq_boundNames (h : render caps .named s = .ok st) :
    placeholders st.bindings = s.boundNames caps st.bindings := by
  rw [boundNames, Style.map_fst_labelled, placeholders]
  exact placeholdersFrom_congr (fun name => mem_names_iff_mem_parameterNames h) 0 st.bindings

end Select

/-- The names of bound parameters are all different and are exactly those of the parameters in the
    statement, at any depth.  Every binding has a placeholder, written in the text where the
    binding was made: a parameter's is its own name, and that of a constant behind `k`
    others is the `k`-th of the names `p0`, `p1` and so on that no parameter has.  All placeholders
    are different, and they are computed from the bindings alone. -/
theorem placeholders_of_bindings {caps : Capabilities} {s : Select} {st : Statement}
    (h : render caps .named s = .ok st) :
    (names st.bindings).Nodup ∧
    (∀ name, name ∈ names st.bindings ↔ ∃ p, s.Holds (.parameter p) ∧ p.name = name) ∧
    (placeholders st.bindings).Nodup ∧
    ∀ earlier b later, st.bindings = earlier ++ b :: later →
      ∃ name, (placeholders st.bindings)[earlier.length]? = some name ∧
        (∀ p, b = .dynamic p → name = p.name) ∧
        (∀ v, b = .constant v → name = Text.numbered "p"
          (Nat.nth (fun i => Text.numbered "p" i ∉ names st.bindings)
            (earlier.countP Binding.isConstant))) ∧
        ∃ before p after first rest, s.pieces caps = before ++ p :: after ∧
          p.binding? = some b ∧
          (s.style caps .named).write [] before = (.ok first, earlier) ∧
          (s.style caps .named).writePiece earlier p = .ok ("@" ++ name, earlier ++ [b]) ∧
          st.text = first ++ ("@" ++ name) ++ rest := by
  have hnodup : (names st.bindings).Nodup := by
    rw [Select.bindings_of_render_walk h]
    exact Style.nodup_once List.nodup_nil
  have hwrite : (s.style caps .named).write [] (s.pieces caps) = (.ok st.text, st.bindings) :=
    render_eq_ok h
  refine ⟨hnodup, fun name => ?_, ?_, fun earlier b later hsplit => ?_⟩
  · simp only [Select.mem_names_iff h, mem_walk_iff_holds]
  · rw [Select.placeholders_eq_boundNames h]
    refine Style.nodup_names (fun p hp => ?_) hnodup
    exact (Select.mem_names_iff_mem_parameterNames h).mp (mem_names.mpr ⟨p, hp, rfl⟩)
  · rw [hsplit] at hwrite
    obtain ⟨before, p, after, first, mark, rest, hpieces, hp, hbefore, hmark, htext⟩ :=
      Style.exists_piece_of_write hwrite (Nat.zero_le _)
    obtain ⟨name, hname, rfl⟩ := Style.mark_of_writePiece rfl hp hmark
    have htaken : placeholdersFrom (names st.bindings) (earlier.countP Binding.isConstant) [b] =
        [name] := by
      rw [← hname]
      exact placeholdersFrom_congr (fun name => Select.mem_names_iff_mem_parameterNames h) _ _
    refine ⟨name, ?_, ?_, ?_, before, p, after, first, rest, hpieces, hp, hbefore, hmark, htext⟩
    · conv_lhs => rw [hsplit, placeholders, placeholdersFrom_getElem?, ← hsplit, Nat.zero_add]
      rw [htaken, List.head?_cons]
    · rintro q rfl
      exact (List.cons.inj htaken).1.symm
    · rintro v rfl
      rw [← Text.freeNumber_eq_nth]
      exact (List.cons.inj htaken).1.symm

/-- Two columns of octets, which are bound, from a derived table with the parameter `p0`. -/
def boundBefore : Select :=
  ⟨[⟨.literal (.binary [7]), some "a"⟩, ⟨.literal (.binary [8]), some "b"⟩],
    .derived ⟨[⟨.parameter ⟨"p0", .int32⟩, some "c"⟩], .table "T" "t", [], [], none⟩ "t0",
    [], [], none⟩

/-- The constants leave out the name of the parameter, which is met behind them. -/
theorem placeholders_of_boundBefore :
    ∃ st, render (.ofVersion ⟨3, 0, 0, 0⟩) .named boundBefore = .ok st ∧
      placeholders st.bindings = ["p1", "p2", "p0"] ∧ (placeholders st.bindings).Nodup ∧
      (∀ name, name ∈ names st.bindings ↔
        ∃ p, boundBefore.Holds (.parameter p) ∧ p.name = name) ∧
      ∃ first rest, st.text = first ++ "@p2" ++ rest := by
  have hrender : render (.ofVersion ⟨3, 0, 0, 0⟩) .named boundBefore =
      .ok ⟨"SELECT @p1 AS \"a\", @p2 AS \"b\" FROM (SELECT @p0 AS \"c\" FROM \"T\" \"t\") \"t0\"",
        [.constant (.binary [7]), .constant (.binary [8]), .dynamic ⟨"p0", .int32⟩]⟩ := by decide
  obtain ⟨-, hmem, hnodup, heach⟩ := placeholders_of_bindings hrender
  obtain ⟨name, hname, -, -, -, -, -, first, rest, -, -, -, -, htext⟩ :=
    heach [.constant (.binary [7])] (.constant (.binary [8])) [.dynamic ⟨"p0", .int32⟩] rfl
  obtain rfl : "p2" = name := Option.some.inj (Eq.trans (by decide) hname)
  exact ⟨_, hrender, by decide, hnodup, hmem, first, rest, htext⟩

end Sql

end QueryLoom

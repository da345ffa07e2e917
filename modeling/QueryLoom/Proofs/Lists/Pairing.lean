/-
  QueryLoom/Proofs/Lists/Pairing.lean
  ===================================
  **Lists that are related place by place.**  Clauses, operands and columns are lists, and two of them
  are compared, translated or read place by place: `List.Forall₂`.  What is said here holds of
  all such lists.

    * `exists_of_forall₂_left`, `exists_of_forall₂_right` — every member has a partner;
    * `forall₂_congr_mem`, `forall₂_imp_mem` — only the members of the lists matter;
    * `mapM_eq_ok_iff` — a traversal succeeds place by place.
-/
import Mathlib.Data.List.Forall2

namespace QueryLoom

variable {α β γ δ ε : Type}

section Partners

variable {R : α → β → Prop} {as : List α} {bs : List β}

theorem exists_of_forall₂_right (h : List.Forall₂ R as bs) {b : β} (hb : b ∈ bs) :
    ∃ a ∈ as, R a b := by
  induction h with
  | nil => cases hb
  | cons hab _ ih =>
    rcases List.mem_cons.mp hb with rfl | hb
    · exact ⟨_, List.mem_cons_self, hab⟩
    · obtain ⟨a, ha, h⟩ := ih hb
      exact ⟨a, List.mem_cons_of_mem _ ha, h⟩

theorem exists_of_forall₂_left (h : List.Forall₂ R as bs) {a : α} (ha : a ∈ as) :
    ∃ b ∈ bs, R a b :=
  exists_of_forall₂_right (List.Forall₂.flip (R := flip R) h) ha

/-- Every member has a partner in its own place. -/
theorem exists_mem_zip_of_forall₂ (h : List.Forall₂ R as bs) {a : α} (ha : a ∈ as) :
    ∃ b, (a, b) ∈ as.zip bs ∧ R a b := by
  have hboth : List.Forall₂ (fun a b => (a, b) ∈ as.zip bs ∧ R a b) as bs :=
    List.forall₂_iff_zip.mpr ⟨h.length_eq, fun hmem => ⟨hmem, List.forall₂_zip h hmem⟩⟩
  exact (exists_of_forall₂_left hboth ha).imp fun _ h => h.2

/-- A list of partners exists just when every member has a partner. -/
theorem exists_forall₂_iff : (∃ bs, List.Forall₂ R as bs) ↔ ∀ a ∈ as, ∃ b, R a b := by
  induction as with
  | nil => exact iff_of_true ⟨[], .nil⟩ (List.forall_mem_nil _)
  | cons a as ih =>
    rw [List.forall_mem_cons, ← ih]
    constructor
    · rintro ⟨_, hall⟩
      cases hall with
      | cons hb hbs => exact ⟨⟨_, hb⟩, _, hbs⟩
    · rintro ⟨⟨b, hb⟩, bs, hbs⟩
      exact ⟨b :: bs, .cons hb hbs⟩

end Partners

/-! ### Changing the relation -/

theorem forall₂_congr_mem {R R' : α → β → Prop} {as : List α} {bs : List β}
    (h : ∀ a ∈ as, ∀ b ∈ bs, R a b ↔ R' a b) : List.Forall₂ R as bs ↔ List.Forall₂ R' as bs := by
  induction as generalizing bs with
  | nil => cases bs <;> simp
  | cons a as ih =>
    cases bs with
    | nil => simp
    | cons b bs =>
      rw [List.forall₂_cons, List.forall₂_cons, h a List.mem_cons_self b List.mem_cons_self,
        ih fun a ha b hb => h a (List.mem_cons_of_mem _ ha) b (List.mem_cons_of_mem _ hb)]

theorem forall₂_imp_mem {R R' : α → β → Prop} {as : List α} {bs : List β}
    (h : List.Forall₂ R as bs) (himp : ∀ a ∈ as, ∀ b, R a b → R' a b) :
    List.Forall₂ R' as bs := by
  have hboth : List.Forall₂ (fun a b => R a b ∧ R' a b) as bs :=
    (forall₂_congr_mem fun a ha b _ => ⟨fun hab => ⟨hab, himp a ha b hab⟩, And.left⟩).mp h
  exact hboth.imp fun _ _ => And.right

theorem forall₂_imp_mem_right {R R' : α → β → Prop} {as : List α} {bs : List β}
    (h : List.Forall₂ R as bs) (himp : ∀ a, ∀ b ∈ bs, R a b → R' a b) :
    List.Forall₂ R' as bs := by
  have hboth : List.Forall₂ (fun a b => R a b ∧ R' a b) as bs :=
    (forall₂_congr_mem fun a _ b hb => ⟨fun hab => ⟨hab, himp a b hb hab⟩, And.left⟩).mp h
  exact hboth.imp fun _ _ => And.right

theorem forall₂_map_congr {R : β → β → Prop} {S : α → α → Prop} {g : α → β}
    {as bs : List α} (h : ∀ a ∈ as, ∀ b ∈ bs, R (g a) (g b) ↔ S a b) :
    List.Forall₂ R (as.map g) (bs.map g) ↔ List.Forall₂ S as bs := by
  rw [List.forall₂_map_left_iff, List.forall₂_map_right_iff]
  exact forall₂_congr_mem h

/-- The square of four lists is closed if it is closed in every place. -/
theorem forall₂_of_forall₂ {R : α → β → Prop} {S' : α → γ → Prop} {S : β → δ → Prop}
    {T : γ → δ → Prop} {as : List α} {bs : List β} {cs : List γ} {ds : List δ}
    (h : List.Forall₂ R as bs) (h' : List.Forall₂ S' as cs) (h'' : List.Forall₂ S bs ds)
    (himp : ∀ a b c d, R a b → S' a c → S b d → T c d) : List.Forall₂ T cs ds := by
  induction h generalizing cs ds with
  | nil =>
    cases h'
    cases h''
    exact .nil
  | cons hfirst _ ih =>
    cases h' with
    | cons hfirst' hrest' =>
      cases h'' with
      | cons hfirst'' hrest'' =>
        exact .cons (himp _ _ _ _ hfirst hfirst' hfirst'') (ih hrest' hrest'')

theorem forall₂_trans {R : α → β → Prop} {S : β → γ → Prop} {T : α → γ → Prop} {as : List α}
    {bs : List β} {cs : List γ} (h : List.Forall₂ R as bs) (h' : List.Forall₂ S bs cs)
    (htrans : ∀ a b c, R a b → S b c → T a c) : List.Forall₂ T as cs := by
  induction h generalizing cs with
  | nil =>
    cases h'
    exact .nil
  | cons hab _ ih =>
    cases h' with
    | cons hbc hrest => exact .cons (htrans _ _ _ hab hbc) (ih hrest)

/-! ### Images and traversals -/

theorem map_eq_of_forall₂ {R : α → β → Prop} {f : α → γ} {g : β → γ} {as : List α} {bs : List β}
    (h : List.Forall₂ R as bs) (hfg : ∀ a ∈ as, ∀ b, R a b → f a = g b) : as.map f = bs.map g := by
  induction h with
  | nil => rfl
  | cons hab _ ih =>
    rw [List.map_cons, List.map_cons, hfg _ List.mem_cons_self _ hab,
      ih fun a ha => hfg a (List.mem_cons_of_mem _ ha)]

/-- Everything in a list goes through just when each member does. -/
theorem mapM_eq_ok_iff {f : α → Except ε β} {as : List α} {bs : List β} :
    as.mapM f = .ok bs ↔ List.Forall₂ (fun a b => f a = .ok b) as bs := by
  induction as generalizing bs with
  | nil =>
    rw [List.forall₂_nil_left_iff]
    exact ⟨by rintro ⟨⟩; rfl, by rintro rfl; rfl⟩
  | cons a as ih =>
    rw [List.mapM_cons, List.forall₂_cons_left_iff]
    cases ha : f a with
    | error e => exact iff_of_false (by rintro ⟨⟩) (by rintro ⟨_, _, ⟨⟩, _⟩)
    | ok b =>
      cases has : as.mapM f with
      | error e =>
        refine iff_of_false (by rintro ⟨⟩) ?_
        rintro ⟨_, bs, _, hbs, _⟩
        cases has.symm.trans (ih.mpr hbs)
      | ok bs' =>
        constructor
        · rintro ⟨⟩
          exact ⟨b, bs', rfl, ih.mp has, rfl⟩
        · rintro ⟨_, bs, ⟨⟩, hbs, rfl⟩
          cases has.symm.trans (ih.mpr hbs)
          rfl

/-- Steps that correspond on every member of a list correspond on the list. -/
theorem mapM_map_of_forall {f : α → Except ε β} {g : γ → Except ε δ} {i : α → γ} {j : β → δ}
    {as : List α} (h : ∀ a ∈ as, g (i a) = (f a).map j) :
    (as.map i).mapM g = (as.mapM f).map (List.map j) := by
  induction as with
  | nil => rfl
  | cons a as ih =>
    obtain ⟨hfirst, hrest⟩ := List.forall_mem_cons.mp h
    rw [List.map_cons, List.mapM_cons, List.mapM_cons, hfirst, ih hrest]
    cases f a with
    | error err => rfl
    | ok b => cases as.mapM f <;> rfl

end QueryLoom

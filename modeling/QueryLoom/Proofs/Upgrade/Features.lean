/-
  QueryLoom/Proofs/Upgrade/Features.lean
  ======================================
  **A newer server has what an older one has.**  Features come and do not go, identifiers may
  only become longer, and texts are counted from one throughout.  Between two servers that
  both have Booleans, or both have none, nothing else matters: what is taken over for the older
  one is taken over for the newer one, with the same result.

    * `Upgrade` — the capabilities of a server and of a later version;
    * `extends_expression`, `extends_sequence` — the newer server gives whatever the older gives;
    * `statement_of_upgrade` — and so the same statements.
-/
import QueryLoom.Proofs.Drafting.Acceptance

namespace QueryLoom

open Std (TransCmp)

theorem Version.le_trans {u v w : Version} (huv : u ≤ v) (hvw : v ≤ w) : u ≤ w := by
  have hcompare : (compare : Version → Version → Ordering) =
      compareLex (compareOn Version.major) (compareLex (compareOn Version.minor)
        (compareLex (compareOn Version.build) (compareOn Version.revision))) := rfl
  have htrans : TransCmp (compare : Version → Version → Ordering) := by
    rw [hcompare]
    infer_instance
  exact TransCmp.isLE_trans huv hvw

/-- The second server can do what the first one can, and counts texts as it does. -/
structure Upgrade (old new : Capabilities) : Prop where
  start : old.oneBasedSubstring = new.oneBasedSubstring
  supports : ∀ f, old.supports f = true → new.supports f = true
  identifiers : old.maxIdentifier ≤ new.maxIdentifier

theorem supports_ofVersion {v : Version} {f : Feature} :
    (Capabilities.ofVersion v).supports f = true ↔ f.since ≤ v := by
  cases f <;> simp [Capabilities.supports, Capabilities.ofVersion]

/-- A later version is an upgrade. -/
theorem upgrade_of_le {v w : Version} (h : v ≤ w) : Upgrade (.ofVersion v) (.ofVersion w) where
  start := rfl
  supports f hf := supports_ofVersion.mpr (Version.le_trans (supports_ofVersion.mp hf) h)
  identifiers := by
    simp only [Capabilities.ofVersion]
    split
    · next hv => exact Nat.le_of_eq (if_pos (Version.le_trans hv h)).symm
    · split <;> omega

end QueryLoom

namespace QueryLoom.Sql

/-! ### Steps -/

/-- The second step gives whatever the first one gives. -/
def Extends {α : Type} (x y : Drafting α) : Prop :=
  ∀ (n m : Naming) (a : α), Gives x n a m → Gives y n a m

section Combinators

variable {α β : Type}

theorem Extends.refl (x : Drafting α) : Extends x x := fun _ _ _ h => h

theorem extends_throw (e : CompileError) (x : Drafting α) : Extends (throw e) x :=
  fun _ _ _ h => absurd h not_gives_throw

theorem extends_lift {x y : Except CompileError α} (h : ∀ a, x = .ok a → y = .ok a) :
    Extends (liftM x) (liftM y) :=
  fun _ _ a ha => gives_lift.mpr ((gives_lift.mp ha).imp_left (h a))

theorem Extends.bind {x y : Drafting α} {f g : α → Drafting β} (hx : Extends x y)
    (hf : ∀ a, Extends (f a) (g a)) : Extends (x >>= f) (y >>= g) := by
  intro n m b h
  obtain ⟨a, k, ha, hb⟩ := gives_bind.mp h
  exact gives_bind.mpr ⟨a, k, hx n k a ha, hf a k m b hb⟩

theorem Extends.inRow {x y : Drafting α} (h : Extends x y) (row : Scope) :
    Extends (inRow row x) (inRow row y) := by
  intro n m a ha
  obtain ⟨k, hk, hm⟩ := gives_inRow.mp ha
  exact gives_inRow.mpr ⟨k, h _ k a hk, hm⟩

end Combinators

/-! ### Operations -/

section

variable {old new : Capabilities}

theorem require_of_upgrade (hup : Upgrade old new) {f : Feature} {u : Unit}
    (h : old.require f = .ok u) : new.require f = .ok u := by
  rw [Capabilities.require] at h ⊢
  cases hf : old.supports f with
  | true => rw [hup.supports f hf]; rfl
  | false =>
    rw [hf] at h
    cases h

theorem Adjustment.operands_congr (h : old.oneBasedSubstring = new.oneBasedSubstring)
    (a : Adjustment) (es : List Expr) : a.operands old es = a.operands new es := by
  rw [operands.eq_def, operands.eq_def, h]

theorem Mapping.apply_of_upgrade (hup : Upgrade old new) {x : Mapping} {receiver? : Option Expr}
    {args : List Expr} {e : Expr} (h : x.apply old receiver? args = .ok e) :
    x.apply new receiver? args = .ok e := by
  rw [apply_eq_ok_iff] at h ⊢
  rw [← Adjustment.operands_congr hup.start]
  refine ⟨?_, h.2⟩
  cases hfeature : x.requires? with
  | none => rfl
  | some f =>
    rw [hfeature] at h
    exact hup.supports f h.1

theorem asPredicate_congr (h : old.booleanType = new.booleanType) :
    asPredicate old = asPredicate new := by
  funext e
  rw [asPredicate, asPredicate, h]

theorem asValue_congr (h : old.booleanType = new.booleanType) : asValue old = asValue new := by
  funext e
  rw [asValue, asValue, h]

/-! ### The recursion -/

mutual

/-- A scalar for the older server is the same for the newer one. -/
theorem extends_expression (hup : Upgrade old new) (h : old.booleanType = new.booleanType) :
    (q : Query) → Extends (expression old q) (expression new q)
  | .constant _ | .parameter _ => by
    rw [expression, expression]
    exact .refl _
  | .member receiver? (.column alias? name) => by
    rw [expression, expression]
    exact .refl _
  | .member receiver? (.property p) => by
    rw [expression, expression]
    refine (extends_optionValue hup h receiver?).bind fun receiver? => ?_
    exact (Extends.refl _).bind fun x => extends_lift fun _ => Mapping.apply_of_upgrade hup
  | .call receiver? m args => by
    rw [expression, expression]
    refine (Extends.refl _).bind fun x => ?_
    refine (extends_optionValue hup h receiver?).bind fun receiver? => ?_
    refine (extends_values hup h args).bind fun args => ?_
    exact extends_lift fun _ => Mapping.apply_of_upgrade hup
  | .binary left op right => by
    rw [expression, expression, asPredicate_congr h, asValue_congr h]
    split
    · exact (extends_expression hup h right).bind fun e => .refl _
    · split
      · exact (extends_expression hup h left).bind fun e => .refl _
      · refine (extends_expression hup h left).bind fun l => ?_
        exact (extends_expression hup h right).bind fun r => .refl _
  | .unary .not operand | .unary .negate operand => by
    rw [expression, expression]
    refine (extends_expression hup h operand).bind fun e => ?_
    simp only [asPredicate_congr h, asValue_congr h]
    exact .refl _
  | .any rows predicate? => by
    rw [expression, expression]
    refine (extends_sequence hup h rows).bind fun d => ?_
    exact (extends_meeting hup h d predicate?).bind fun d => .refl _
  | .source .. | .filter .. | .project .. | .skip .. | .take .. | .orderBy .. => by
    rw [expression]
    exact extends_throw _ _

theorem extends_optionValue (hup : Upgrade old new) (h : old.booleanType = new.booleanType) :
    (q? : Option Query) → Extends (optionValue old q?) (optionValue new q?)
  | none => by
    rw [optionValue, optionValue]
    exact .refl _
  | some q => by
    rw [optionValue, optionValue, asValue_congr h]
    exact (extends_expression hup h q).bind fun e => .refl _

theorem extends_values (hup : Upgrade old new) (h : old.booleanType = new.booleanType) :
    (qs : List Query) → Extends (values old qs) (values new qs)
  | [] => by
    rw [values, values]
    exact .refl _
  | q :: rest => by
    rw [values, values, asValue_congr h]
    refine (extends_expression hup h q).bind fun e => ?_
    exact (extends_values hup h rest).bind fun es => .refl _

theorem extends_projection (hup : Upgrade old new) (h : old.booleanType = new.booleanType) :
    (columns : List (String × Query)) → Extends (projection old columns) (projection new columns)
  | [] => by
    rw [projection, projection]
    exact .refl _
  | (name, q) :: rest => by
    rw [projection, projection, asValue_congr h]
    refine (extends_expression hup h q).bind fun e => ?_
    exact (extends_projection hup h rest).bind fun cs => .refl _

/-- The draft of a sequence for the older server is the same for the newer one. -/
theorem extends_sequence (hup : Upgrade old new) (h : old.booleanType = new.booleanType) :
    (q : Query) → Extends (sequence old q) (sequence new q)
  | .source .. => by
    rw [sequence, sequence]
    exact .refl _
  | .filter rows predicate | .orderBy rows predicate _ => by
    rw [sequence, sequence]
    refine (extends_sequence hup h rows).bind fun d => (Extends.refl _).bind fun d => ?_
    simp only [asPredicate_congr h, asValue_congr h]
    exact ((extends_expression hup h predicate).inRow d.row).bind fun e => .refl _
  | .project rows columns => by
    rw [sequence, sequence]
    refine (extends_sequence hup h rows).bind fun d => (Extends.refl _).bind fun d => ?_
    exact ((extends_projection hup h columns).inRow d.row).bind fun cs => .refl _
  | .skip rows _ | .take rows _ => by
    rw [sequence, sequence]
    exact (extends_sequence hup h rows).bind fun d => .refl _
  | .any .. | .member .. | .call .. | .constant _ | .parameter _ | .binary .. | .unary .. => by
    rw [sequence]
    exact extends_throw _ _

theorem extends_meeting (hup : Upgrade old new) (h : old.booleanType = new.booleanType)
    (d : Draft) : (predicate? : Option Query) → Extends (meeting old d predicate?)
      (meeting new d predicate?)
  | none => by
    rw [meeting, meeting]
    exact .refl _
  | some predicate => by
    rw [meeting, meeting, asPredicate_congr h]
    refine (Extends.refl _).bind fun d => ?_
    exact ((extends_expression hup h predicate).inRow d.row).bind fun e => .refl _

end

/-- Where both servers have Booleans or none has, the newer one has the statement that the older
    one has. -/
theorem statement_of_upgrade (hup : Upgrade old new) (h : old.booleanType = new.booleanType)
    {q : Query} {s : Select} (hs : Select.ofQuery old q = .ok s) :
    Select.ofQuery new q = .ok s := by
  have hextends : Extends (statement old q) (statement new q) := by
    unfold statement
    refine (Extends.refl _).bind fun _ => ?_
    cases q <;> first
      | exact (extends_lift fun _ => require_of_upgrade hup).bind fun _ =>
          (extends_expression hup h _).bind fun e => .refl _
      | exact (extends_sequence hup h _).bind fun d => .refl _
      | exact extends_throw _ _
  obtain ⟨m, hm⟩ := gives_of_ofQuery hs
  rw [Select.ofQuery, hextends _ _ _ hm]

end

end QueryLoom.Sql

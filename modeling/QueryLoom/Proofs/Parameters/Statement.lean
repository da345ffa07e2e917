/-
  QueryLoom/Proofs/Parameters/Statement.lean
  ==========================================
  **Names of parameters do not shape a text with named placeholders, as long as they are names.**
  Parameters under other names, different ones for different ones, give a statement that has
  the other names and is the same otherwise.  Its text is then lexed as the text before, except that
  placeholders have other names: those of constants as well, which leave out the
  names of parameters.

  Names are written raw.  So both texts say what they mean only where the names have nothing but
  letters, digits, `_` and `$`, and any other name becomes part of the statement.

  * `exists_injective_extending`: what keeps some names different can be done to all names;
  * `lexemes_of_renamed`: the tokens of both texts;
  * `lexemes_ne_of_condition`: a name that brings a condition with it.
-/
import Mathlib.Algebra.Order.BigOperators.Group.List
import QueryLoom.Proofs.Parameters.Drafting
import QueryLoom.Proofs.Parameters.Pieces
import QueryLoom.Proofs.Rendering.Lexemes

namespace QueryLoom

/-! ### Other names -/

/-- The parameter under another name. -/
def Parameter.renamed (ρ : String → String) (p : Parameter) : Parameter :=
  { p with name := ρ p.name }

namespace Query

/-- The query with its parameters under other names. -/
def renameParameters (ρ : String → String) (q : Query) : Query :=
  q.mapParameters (Parameter.renamed ρ)

/-- The name of a parameter. -/
def parameterName? : Query → Option String
  | parameter p => some p.name
  | _ => none

/-- The names of the parameters in a query. -/
def parameterNames (q : Query) : List String := q.nodes.filterMap parameterName?

theorem renameParameters_congr {ρ σ : String → String} {q : Query}
    (h : ∀ name ∈ q.parameterNames, ρ name = σ name) :
    q.renameParameters ρ = q.renameParameters σ := by
  refine mapParameters_congr q fun p hp => ?_
  rw [Parameter.renamed, h p.name (List.mem_filterMap.mpr ⟨_, hp, rfl⟩), Parameter.renamed]

end Query

/-- What keeps some names different can be done to all names. -/
theorem exists_injective_extending {ρ : String → String} {names : List String}
    (h : Set.InjOn ρ {name | name ∈ names}) :
    ∃ σ : String → String, Function.Injective σ ∧ ∀ name ∈ names, ρ name = σ name := by
  -- in front of other names stands a text that is longer than all that the names become
  obtain ⟨pad, hpad⟩ : ∃ pad : String, ∀ name ∈ names, (ρ name).length < pad.length := by
    refine ⟨String.ofList (List.replicate ((names.map fun name => (ρ name).length).sum + 1) '_'),
      fun name hname => ?_⟩
    have hle := List.le_sum_of_mem
      (List.mem_map_of_mem (f := fun name => (ρ name).length) hname)
    simp only [String.length_ofList, List.length_replicate]
    omega
  have hne : ∀ name ∈ names, ∀ other, ρ name ≠ pad ++ other := by
    intro name hname other heq
    have hlength := congrArg String.length heq
    have hlonger := hpad name hname
    rw [String.length_append] at hlength
    omega
  refine ⟨fun name => if name ∈ names then ρ name else pad ++ name, fun a b hab => ?_,
    fun name hname => (if_pos hname).symm⟩
  dsimp only at hab
  split at hab <;> split at hab
  · next ha hb => exact h ha hb hab
  · next ha hb => exact absurd hab (hne a ha b)
  · next ha hb => exact absurd hab.symm (hne b hb a)
  · exact (String.append_right_inj pad).mp hab

namespace Sql

open Binding
open Lexical (Lexeme lexemes isName)

theorem relabelling_renamed {ρ : String → String} (h : Function.Injective ρ) :
    Relabelling (Parameter.renamed ρ) where
  injective := by
    rintro ⟨name, type⟩ ⟨name', type'⟩ heq
    simp only [Parameter.renamed, Parameter.mk.injEq] at heq ⊢
    exact ⟨h heq.1, heq.2⟩
  type _ := rfl

/-- The statement of a query with its parameters under other names. -/
theorem ofQuery_renameParameters {caps : Capabilities} {q : Query} {ρ : String → String}
    {s : Select} (hρ : Set.InjOn ρ {name | name ∈ q.parameterNames})
    (h : Select.ofQuery caps q = .ok s) :
    ∃ f, Select.ofQuery caps (q.renameParameters ρ) = .ok (s.mapParameters f) := by
  obtain ⟨σ, hσ, hagrees⟩ := exists_injective_extending hρ
  rw [Query.renameParameters_congr hagrees]
  exact ⟨_, ofQuery_mapParameters caps (relabelling_renamed hσ) h⟩

theorem form?_mapParameter (f : Parameter → Parameter) (ps : List Piece) :
    (ps.map (Piece.mapParameter f)).filterMap Piece.form? = ps.filterMap Piece.form? := by
  rw [List.filterMap_map]
  congr 1
  funext p
  cases p <;> rfl

/-- The placeholders of each text have the names of what is rendered, just when the parameters
    that are bound have names of letters, digits, `_` and `$` only.  Where this is so of a
    query and of the query with its parameters under other names, different ones for different
    ones, both texts have the same tokens up to the names of placeholders. -/
theorem lexemes_of_renamed {caps : Capabilities} {q : Query} {ρ : String → String}
    {st st' : Statement} (hρ : Set.InjOn ρ {name | name ∈ q.parameterNames})
    (h : compile caps .named q = .ok st)
    (h' : compile caps .named (q.renameParameters ρ) = .ok st') :
    ∃ s s', Select.ofQuery caps q = .ok s ∧
      Select.ofQuery caps (q.renameParameters ρ) = .ok s' ∧
      ((lexemes st.text).filterMap Lexeme.name? =
          s.boundNames caps (s.walk.filterMap (Expr.placeholder? caps)) ↔
        ∀ name ∈ names st.bindings, isName name = true) ∧
      ((lexemes st'.text).filterMap Lexeme.name? =
          s'.boundNames caps (s'.walk.filterMap (Expr.placeholder? caps)) ↔
        ∀ name ∈ names st'.bindings, isName name = true) ∧
      ((∀ name ∈ names st.bindings ++ names st'.bindings, isName name = true) →
        (lexemes st.text).map Lexeme.unnamed = (lexemes st'.text).map Lexeme.unnamed) := by
  obtain ⟨s, hs, hrender⟩ := compile_eq_ok.mp h
  obtain ⟨s', hs', hrender'⟩ := compile_eq_ok.mp h'
  have hworded : ∀ {q : Query} {s : Select}, Select.ofQuery caps q = .ok s →
      ∀ x ∈ s.walk, x.isWorded = true := fun hs x hx =>
    Expr.isWorded_of_inVocabulary (Expr.inVocabulary_of_isAvailable (available_of_ofQuery hs x hx))
  have hnames : ∀ name, name ∈ names st.bindings ↔ name ∈ s.parameterNames :=
    fun name => Select.mem_names_iff_mem_parameterNames hrender
  have hnames' : ∀ name, name ∈ names st'.bindings ↔ name ∈ s'.parameterNames :=
    fun name => Select.mem_names_iff_mem_parameterNames hrender'
  refine ⟨s, s', hs, hs', ?_, ?_, fun hall => ?_⟩
  · simpa only [hnames] using Select.names_lexemes_iff (hworded hs) hrender
  · simpa only [hnames'] using Select.names_lexemes_iff (hworded hs') hrender'
  · rw [List.forall_mem_append] at hall
    simp only [hnames, hnames'] at hall
    obtain ⟨f, hf⟩ := ofQuery_renameParameters hρ hs
    obtain rfl : s' = s.mapParameters f := Except.ok.inj (hs'.symm.trans hf)
    rw [Select.unnamed_lexemes (hworded hs) hrender hall.1,
      Select.unnamed_lexemes (hworded hs') hrender' hall.2, pieces_mapParameters_select,
      form?_mapParameter]

/-- A parameter next to octets, which are bound. -/
def keyed : Query :=
  .project (.source "T" none)
    [("a", .parameter ⟨"p", .int32⟩), ("b", .constant (.binary [7]))]

/-- Under another name the parameter takes the name that the octets had. -/
theorem lexemes_of_renamed_keyed :
    ∃ (st st' : Statement) (s s' : Select),
      compile (.ofVersion ⟨3, 0, 0, 0⟩) .named keyed = .ok st ∧
      st.text = "SELECT @p AS \"a\", @p0 AS \"b\" FROM \"T\" \"t\"" ∧
      compile (.ofVersion ⟨3, 0, 0, 0⟩) .named (keyed.renameParameters (· ++ "0")) = .ok st' ∧
      st'.text = "SELECT @p0 AS \"a\", @p1 AS \"b\" FROM \"T\" \"t\"" ∧
      Select.ofQuery (.ofVersion ⟨3, 0, 0, 0⟩) keyed = .ok s ∧
      Select.ofQuery (.ofVersion ⟨3, 0, 0, 0⟩) (keyed.renameParameters (· ++ "0")) = .ok s' ∧
      (lexemes st.text).filterMap Lexeme.name? = s.boundNames (.ofVersion ⟨3, 0, 0, 0⟩)
        (s.walk.filterMap (Expr.placeholder? (.ofVersion ⟨3, 0, 0, 0⟩))) ∧
      (lexemes st'.text).filterMap Lexeme.name? = s'.boundNames (.ofVersion ⟨3, 0, 0, 0⟩)
        (s'.walk.filterMap (Expr.placeholder? (.ofVersion ⟨3, 0, 0, 0⟩))) ∧
      (lexemes st.text).map Lexeme.unnamed = (lexemes st'.text).map Lexeme.unnamed := by
  have hcompile : compile (.ofVersion ⟨3, 0, 0, 0⟩) .named keyed =
      .ok ⟨"SELECT @p AS \"a\", @p0 AS \"b\" FROM \"T\" \"t\"",
        [.dynamic ⟨"p", .int32⟩, .constant (.binary [7])]⟩ := by decide +kernel
  have hcompile' : compile (.ofVersion ⟨3, 0, 0, 0⟩) .named
        (keyed.renameParameters (· ++ "0")) =
      .ok ⟨"SELECT @p0 AS \"a\", @p1 AS \"b\" FROM \"T\" \"t\"",
        [.dynamic ⟨"p0", .int32⟩, .constant (.binary [7])]⟩ := by decide +kernel
  have hinjective : Set.InjOn (· ++ "0") {name | name ∈ keyed.parameterNames} :=
    fun a _ b _ hab => (String.append_left_inj "0").mp hab
  obtain ⟨s, s', hs, hs', hnames, hnames', hshape⟩ :=
    lexemes_of_renamed hinjective hcompile hcompile'
  exact ⟨_, _, s, s', hcompile, rfl, hcompile', rfl, hs, hs', hnames.mpr (by decide),
    hnames'.mpr (by decide), hshape (by decide)⟩

/-- The items with the price that a parameter has. -/
def pricedAt (name : String) : Query :=
  .filter (.source "ITEM" none) (.equal (.column "PRICE") (.parameter ⟨name, .int32⟩))

/-- A name with a condition in it adds the condition to the statement. -/
theorem lexemes_ne_of_condition :
    Set.InjOn (fun _ => "p OR 1 = 1") {name | name ∈ (pricedAt "p").parameterNames} ∧
      compile (.ofVersion ⟨3, 0, 0, 0⟩) .named (pricedAt "p") =
        .ok ⟨"SELECT \"i\".* FROM \"ITEM\" \"i\" WHERE \"i\".\"PRICE\" = @p",
          [.dynamic ⟨"p", .int32⟩]⟩ ∧
      compile (.ofVersion ⟨3, 0, 0, 0⟩) .named
          ((pricedAt "p").renameParameters fun _ => "p OR 1 = 1") =
        .ok ⟨"SELECT \"i\".* FROM \"ITEM\" \"i\" WHERE \"i\".\"PRICE\" = @p OR 1 = 1",
          [.dynamic ⟨"p OR 1 = 1", .int32⟩]⟩ ∧
      (lexemes "SELECT \"i\".* FROM \"ITEM\" \"i\" WHERE \"i\".\"PRICE\" = @p").map
          Lexeme.unnamed ≠
        (lexemes "SELECT \"i\".* FROM \"ITEM\" \"i\" WHERE \"i\".\"PRICE\" = @p OR 1 = 1").map
          Lexeme.unnamed ∧
      (lexemes "SELECT \"i\".* FROM \"ITEM\" \"i\" WHERE \"i\".\"PRICE\" = @p OR 1 = 1").filterMap
          Lexeme.name? ≠ ["p OR 1 = 1"] := by
  have hnames : (pricedAt "p").parameterNames = ["p"] := by decide
  refine ⟨?_, by decide +kernel, by decide +kernel, by decide +kernel, by decide +kernel⟩
  rw [hnames]
  intro a ha b hb _
  rw [List.mem_singleton.mp ha, List.mem_singleton.mp hb]

end Sql

end QueryLoom

/-
  QueryLoom/Proofs/Operation/Substring.lean
  =========================================
  **The start of a text counts from one in SQL.**  Queries count the characters of a text from
  zero.  A start that is a constant is replaced by the next integer, which takes more bits than the
  constant where it has to; to any other start one is added by the server.  The greatest integer of
  64 bits has no successor among them and stays as it is, which makes a difference for texts that
  have a character at that place and no other ones.

    * `integer?_successor` — the integer after an index, whatever its width;
    * `Shifted` — how one start comes from the other;
    * `Shifted.cutsAfter` — either form cuts off the same characters.
-/
import QueryLoom.Proofs.Drafting.Acceptance
import QueryLoom.Proofs.Operation.Text

namespace QueryLoom.Sql

/-- The greatest index, which takes all of 64 bits. -/
def lastIndex : Int := 2 ^ 63 - 1

/-! ### Indices -/

theorem le_lastIndex_of_integer? {v : Value} {n : Int} (hv : v.integer? = some n) :
    n ≤ lastIndex := by
  unfold lastIndex
  cases v with
  | int16 k =>
    cases hv
    have := k.toInt_lt
    omega
  | int32 k =>
    cases hv
    have := k.toInt_lt
    omega
  | int64 k =>
    cases hv
    have := k.toInt_lt
    omega
  | _ => cases hv

/-- The literal after an index has the next integer, unless the index is the greatest one. -/
theorem integer?_successor {v : Value} {n : Int} (hv : v.integer? = some n) (hn : 0 ≤ n) :
    (successor v n).integer? = some (min (n + 1) lastIndex) := by
  have h31 : (Number.twoTo 31 : Int) = 2 ^ 31 := rfl
  have h63 : (Number.twoTo 63 : Int) = 2 ^ 63 := rfl
  have hint32 : ∀ k : Int, 0 ≤ k → k < 2 ^ 31 → (Int32.ofInt k).toInt = k :=
    fun k hk hlt => Int32.toInt_ofInt_of_le (by omega) hlt
  have hint64 : ∀ k : Int, 0 ≤ k → k < 2 ^ 63 → (Int64.ofInt k).toInt = k :=
    fun k hk hlt => Int64.toInt_ofInt_of_le (by omega) hlt
  -- at most 32 bits have a next integer of at most 33, which is not the greatest of 64
  have hnarrow : n < 2 ^ 31 → (if n < (Number.twoTo 31 : Int) - 1 then
      Value.int32 (.ofInt (n + 1)) else .int64 (.ofInt (n + 1))).integer?
        = some (min (n + 1) lastIndex) := by
    intro hlt
    have hmin : min (n + 1) lastIndex = n + 1 := by
      unfold lastIndex
      omega
    rw [hmin]
    split
    · exact congrArg some (hint32 (n + 1) (by omega) (by omega))
    · exact congrArg some (hint64 (n + 1) (by omega) (by omega))
  cases v with
  | int16 k =>
    cases hv
    have := k.toInt_lt
    exact hnarrow (by omega)
  | int32 k =>
    cases hv
    exact hnarrow k.toInt_lt
  | int64 k =>
    cases hv
    rw [successor, h63]
    exact congrArg some (hint64 (min (k.toInt + 1) (2 ^ 63 - 1)) (by omega) (by omega))
  | _ => cases hv

/-! ### Starts -/

/-- How the start of a text in SQL comes from one that counts from zero: a constant is replaced by
    the next integer, unless it is the greatest one, and to anything else one is added. -/
inductive Shifted (start : Expr) : Expr → Prop
  | folded {v w : Value} {n : Int} (hstart : start = .literal v) (hv : v.integer? = some n)
      (hn : 0 ≤ n) (hw : w.integer? = some (min (n + 1) lastIndex)) : Shifted start (.literal w)
  | added (hstart : start.literal? = none) : Shifted start (.binary start .add (.int 1))

theorem shifted_of_oneBased {start shifted : Expr} (h : oneBased start = .ok shifted) :
    Shifted start shifted := by
  unfold oneBased at h
  split at h
  case h_1 v =>
    split at h
    case h_1 => cases h
    case h_2 n hv =>
      split at h
      case isTrue => cases h
      case isFalse hn =>
        cases h
        exact .folded rfl hv (Int.not_lt.mp hn) (integer?_successor hv (Int.not_lt.mp hn))
  case h_2 hliteral =>
    cases h
    refine .added ?_
    cases start with
    | literal v => exact absurd rfl (hliteral v)
    | _ => rfl

/-- A constant that no text starts at is not a valid argument. -/
theorem oneBased_of_not_index {v : Value} (hv : ∀ n, v.integer? = some n → n < 0) :
    ∃ e, oneBased (.literal v) = .error e ∧ e.category = .invalidArgument := by
  cases hinteger : v.integer? with
  | none => exact ⟨.startNotInteger v, by simp [oneBased, hinteger], rfl⟩
  | some n => exact ⟨.startNegative n, by simp [oneBased, hinteger, hv n hinteger], rfl⟩

/-! ### Texts -/

/-- The expression is what is left of a text after its first `i` characters, or as many characters
    of that as its length says. -/
def Expr.CutsAfter {V : Type} (S : Server V) (text : List Char → V) (integer : Int → V)
    (ρ : Columns V) (length? : Option Expr) (x : List Char) (i : Nat) (e : Expr) : Prop :=
  (length? = none → e.eval S ρ = text (x.drop i)) ∧
  ∀ length ∈ length?, ∀ n : Nat, length.eval S ρ = integer n →
    e.eval S ρ = text ((x.drop i).take n)

section

variable {V : Type} {S : Server V} {text : List Char → V} {integer : Int → V} {ρ : Columns V}
  {receiver start shifted : Expr} {length? : Option Expr} {x : List Char} {i : Nat}

/-- A start with the place of a character, counted from one. -/
theorem Server.Cuts.cutsAfter (hS : S.Cuts text integer) (hx : receiver.eval S ρ = text x)
    (hstart : start.eval S ρ = integer (i + 1)) :
    (Expr.substring receiver start length?).CutsAfter S text integer ρ length? x i := by
  constructor
  · rintro rfl
    rw [Expr.eval, hx, hstart]
    exact hS.rest x (i + 1) i.succ_pos
  · rintro length rfl n hn
    simp only [Expr.eval, evalOption, hx, hstart, hn]
    exact hS.part x (i + 1) n i.succ_pos

theorem Server.Cuts.eval_added (hS : S.Cuts text integer) (hi : start.eval S ρ = integer i) :
    (Expr.binary start .add (.int 1)).eval S ρ = integer (i + 1) := by
  have hone : (Expr.int 1).eval S ρ = integer 1 := hS.literal rfl
  rw [Expr.eval, hi, hone, hS.add]

/-- Either form of the start cuts off the same characters, those before the one at the start.  After
    the greatest index there has to be nothing left. -/
theorem Shifted.cutsAfter (h : Shifted start shifted) (hS : S.Cuts text integer)
    (hx : receiver.eval S ρ = text x) (hi : start.eval S ρ = integer i)
    (hlast : ∀ v, start = .literal v → v.integer? = some lastIndex → (x.length : Int) < lastIndex) :
    (Expr.substring receiver shifted length?).CutsAfter S text integer ρ length? x i := by
  cases h with
  | added => exact hS.cutsAfter hx (hS.eval_added hi)
  | @folded v w n hstart hv hn hw =>
    have hni : n = i := by
      refine hS.injective ((hS.literal hv).symm.trans ?_)
      rw [← hi, hstart]
      rfl
    have hshifted : (Expr.literal w).eval S ρ = integer (min (n + 1) lastIndex) := hS.literal hw
    rcases Int.lt_or_eq_of_le (le_lastIndex_of_integer? hv) with hless | rfl
    · refine hS.cutsAfter hx (hshifted.trans (congrArg integer ?_))
      rw [← hni]
      omega
    · obtain ⟨place, hplace⟩ : ∃ place : Nat, lastIndex = place + 1 := ⟨2 ^ 63 - 2, rfl⟩
      have hlength := hlast v hstart hv
      have hnothing : x.drop i = x.drop place := by
        rw [List.drop_eq_nil_of_le (by omega), List.drop_eq_nil_of_le (by omega)]
      rw [Expr.CutsAfter, hnothing]
      refine hS.cutsAfter hx (hshifted.trans (congrArg integer ?_))
      omega

end

/-! ### Calls -/

theorem Mapping.length_of_substring {x : Mapping} {args : List Query}
    (h : Mapping.find (.method .substring) args.length = .ok x) :
    args.length = 1 ∨ args.length = 2 := by
  have harity : ∀ x ∈ Mapping.all, x.operation = .method .substring →
      x.arity = 1 ∨ x.arity = 2 := by
    decide
  rw [← Mapping.arity_of_find h]
  exact harity x (Mapping.mem_of_find h) (Mapping.operation_of_find h)

/-- The start is the only operand that is looked at. -/
theorem apply_substring {caps : Capabilities} (hcaps : caps.oneBasedSubstring = true) {x : Mapping}
    {receiver start : Expr} {length? : Option Expr}
    (hx : Mapping.find (.method .substring) (start :: length?.toList).length = .ok x) :
    x.apply caps (some receiver) (start :: length?.toList) =
      (oneBased start).map fun shifted => .substring receiver shifted length? := by
  have hone : Mapping.find (.method .substring) 1 =
      .ok ((Mapping.ofMethod .substring 1 .substring).adjusted .oneBasedStart) := rfl
  have htwo : Mapping.find (.method .substring) 2 =
      .ok ((Mapping.ofMethod .substring 2 .substring).adjusted .oneBasedStart) := rfl
  have hoperands : ∀ rest : List Expr,
      Adjustment.oneBasedStart.operands caps (receiver :: start :: rest) =
        (oneBased start).map fun shifted => receiver :: shifted :: rest :=
    fun rest => if_pos hcaps
  cases length? with
  | none =>
    cases hone.symm.trans hx
    simp only [Mapping.apply, Mapping.adjusted, Mapping.ofMethod, Option.toList,
      List.singleton_append, hoperands]
    cases oneBased start <;> rfl
  | some length =>
    cases htwo.symm.trans hx
    simp only [Mapping.apply, Mapping.adjusted, Mapping.ofMethod, Option.toList,
      List.singleton_append, hoperands]
    cases oneBased start <;> rfl

theorem exists_toList_eq {α : Type} {as : List α} (h : as.length = 1 ∨ as.length = 2) :
    ∃ (a : α) (b? : Option α), as = a :: b?.toList := by
  rcases as with _ | ⟨a, _ | ⟨b, _ | ⟨c, as⟩⟩⟩
  · simp at h
  · exact ⟨a, none, rfl⟩
  · exact ⟨a, some b, rfl⟩
  · simp at h

theorem Gives.run_bind {α β : Type} {x : Drafting α} {n m : Naming} {a : α} (h : Gives x n a m)
    (f : α → Drafting β) : (x >>= f).run.run n = (f a).run.run m := by
  rw [ExceptT.run_bind, StateT.run_bind, h]
  rfl

section

variable {caps : Capabilities} (hcaps : caps.oneBasedSubstring = true) {n m k : Naming}

include hcaps

/-- A call that can be written has a start that can be counted from one. -/
theorem oneBased_of_gives {receiver? : Option Query} {args : List Query} {e : Expr}
    (h : Gives (expression caps (.call receiver? .substring args)) n e m) :
    ∃ receiver start shifted length? k, Gives (optionValue caps receiver?) n (some receiver) k ∧
      Gives (values caps args) k (start :: length?.toList) m ∧
      oneBased start = .ok shifted ∧ e = .substring receiver shifted length? := by
  obtain ⟨x, receiver, k, es, hx, hreceiver, hes, happly⟩ := gives_call.mp h
  obtain ⟨-, hgiven, -⟩ := apply_eq_ok_iff.mp happly
  rw [(Mapping.hasReceiver_substring x (Mapping.mem_of_find hx) (Mapping.operation_of_find hx)).1,
    Option.isSome_iff_exists] at hgiven
  obtain ⟨receiver, rfl⟩ := hgiven
  have hlength := length_of_gives_values hes
  obtain ⟨start, length?, rfl⟩ := exists_toList_eq (hlength ▸ Mapping.length_of_substring hx)
  rw [← hlength] at hx
  rw [apply_substring hcaps hx] at happly
  cases hstart : oneBased start with
  | error err =>
    rw [hstart] at happly
    cases happly
  | ok shifted =>
    rw [hstart] at happly
    cases happly
    exact ⟨receiver, start, shifted, length?, k, hreceiver, hes, hstart, rfl⟩

/-- A call whose start cannot be counted from one fails for that reason. -/
theorem error_of_oneBased {q : Query} {args : List Query} {receiver start : Expr}
    {length? : Option Expr} {err : CompileError}
    (hreceiver : Gives (optionValue caps (some q)) n (some receiver) k)
    (hargs : Gives (values caps args) k (start :: length?.toList) m)
    (herr : oneBased start = .error err) :
    ((expression caps (.call (some q) .substring args)).run.run n).1 = .error err := by
  obtain ⟨x, hx⟩ :
      ∃ x, Mapping.find (.method .substring) (start :: length?.toList).length = .ok x := by
    cases length? with
    | none => exact ⟨_, rfl⟩
    | some length => exact ⟨_, rfl⟩
  have hfind : Gives (liftM (Mapping.find (.method .substring) args.length)) n x n :=
    gives_lift.mpr ⟨length_of_gives_values hargs ▸ hx, rfl⟩
  rw [expression, hfind.run_bind, hreceiver.run_bind, hargs.run_bind,
    apply_substring hcaps hx, herr]
  rfl

end

/-- A call that cuts characters out of a text has a start that counts from one where there is one
    that counts from zero.  A constant is replaced by the next integer, unless it is the greatest
    one; to anything else one is added.  Either way the call means what is left of the text after
    as many characters as the start says, or as many characters of that as the length says, if
    after the greatest index there is nothing left.  A constant that is negative or no integer is
    not a valid argument. -/
theorem shifted_of_substring {caps : Capabilities} (hcaps : caps.oneBasedSubstring = true) :
    (∀ receiver? args n m e, Gives (expression caps (.call receiver? .substring args)) n e m →
      ∃ receiver start shifted length? k,
        Gives (optionValue caps receiver?) n (some receiver) k ∧
        Gives (values caps args) k (start :: length?.toList) m ∧
        args.head?.bind Query.constant? = start.literal? ∧
        e = .substring receiver shifted length? ∧ Shifted start shifted ∧
        ∀ (V : Type) (S : Server V) (text : List Char → V) (integer : Int → V),
          S.Cuts text integer → ∀ (ρ : Columns V) (x : List Char) (i : Nat),
          receiver.eval S ρ = text x → start.eval S ρ = integer i →
          (∀ v, start = .literal v → v.integer? = some lastIndex → (x.length : Int) < lastIndex) →
          e.CutsAfter S text integer ρ length? x i ∧
          (Expr.substring receiver (.binary start .add (.int 1)) length?).CutsAfter S text integer
            ρ length? x i) ∧
    ∀ q v rest n m k receiver es, rest.length ≤ 1 → (∀ i, v.integer? = some i → i < 0) →
      Gives (optionValue caps (some q)) n (some receiver) k →
      Gives (values caps (.constant v :: rest)) k es m →
      ∃ err, ((expression caps (.call (some q) .substring (.constant v :: rest))).run.run n).1
        = .error err ∧ err.category = .invalidArgument := by
  constructor
  · intro receiver? args n m e h
    obtain ⟨receiver, start, shifted, length?, k, hreceiver, hargs, hstart, rfl⟩ :=
      oneBased_of_gives hcaps h
    have hshifted := shifted_of_oneBased hstart
    have hliterals := literals_of_gives_values hargs
    have hhead : args.head?.bind Query.constant? = start.literal? := by
      cases args with
      | nil => cases hliterals
      | cons q rest => exact (List.cons.inj hliterals).1.symm
    refine ⟨receiver, start, shifted, length?, k, hreceiver, hargs, hhead, rfl, hshifted, ?_⟩
    intro V S text integer hS ρ x i hx hi hlast
    exact ⟨hshifted.cutsAfter hS hx hi hlast, hS.cutsAfter hx (hS.eval_added hi)⟩
  · intro q v rest n m k receiver es hrest hv hreceiver hargs
    obtain ⟨err, herr, hcategory⟩ := oneBased_of_not_index hv
    have hcount : es.length = 1 ∨ es.length = 2 := by
      rw [length_of_gives_values hargs, List.length_cons]
      omega
    obtain ⟨start, length?, rfl⟩ := exists_toList_eq hcount
    have hliteral : start.literal? = some v := (List.cons.inj (literals_of_gives_values hargs)).1
    obtain rfl : start = .literal v := by
      cases start with
      | literal w =>
        cases hliteral
        rfl
      | _ => cases hliteral
    exact ⟨err, error_of_oneBased hcaps hreceiver hargs herr, hcategory⟩

/-- A row with a name. -/
def inNames : Naming := { scopes := [⟨"i", "i"⟩] }

/-- Three characters of `BANANA` after the first two, and a start before the first one. -/
theorem shifted_of_substring_banana :
    (∃ e, Gives (expression (.ofVersion ⟨3, 0, 0, 0⟩) (.call (some (.column "NAME")) .substring
        [.constant (.int16 2), .constant (.int32 3)])) inNames e inNames ∧
      e.eval (Dialect.texts.newServer fun _ => []) (fun _ _ => Dialect.ofText "BANANA".toList)
        = Dialect.ofText "NAN".toList) ∧
    ∃ err, ((expression (.ofVersion ⟨3, 0, 0, 0⟩) (.call (some (.column "NAME")) .substring
        [.constant (.int32 (-1))])).run.run inNames).1 = .error err ∧
      err.category = .invalidArgument := by
  have hcaps : (Capabilities.ofVersion ⟨3, 0, 0, 0⟩).oneBasedSubstring = true := rfl
  obtain ⟨hcuts, hrefused⟩ := shifted_of_substring hcaps
  constructor
  · have h : Gives (expression (.ofVersion ⟨3, 0, 0, 0⟩) (.call (some (.column "NAME")) .substring
        [.constant (.int16 2), .constant (.int32 3)])) inNames
          (.substring (.column "i" "NAME") (.literal (.int32 3)) (some (.int 3))) inNames := rfl
    refine ⟨_, h, ?_⟩
    obtain ⟨receiver, start, shifted, length?, k, -, hargs, -, he, -, hmeaning⟩ := hcuts _ _ _ _ _ h
    cases he
    have hstart : start = .literal (.int16 2) := by
      have hvalues : Gives (values (.ofVersion ⟨3, 0, 0, 0⟩)
        [.constant (.int16 2), .constant (.int32 3)]) k [.literal (.int16 2), .int 3] k := rfl
      exact (List.cons.inj (hargs.unique hvalues).1).1
    have hparts := hmeaning _ _ _ _ (Dialect.cuts_texts fun _ => [])
      (fun _ _ => Dialect.ofText "BANANA".toList) "BANANA".toList 2 rfl (by rw [hstart]; rfl)
    exact (hparts (by rw [hstart]; rintro _ ⟨⟩ ⟨⟩)).1.2 _ rfl 3 rfl
  · exact hrefused (.column "NAME") (.int32 (-1)) [] inNames inNames inNames (.column "i" "NAME")
      [.literal (.int32 (-1))] (by decide) (by rintro _ ⟨⟩; decide) rfl rfl

/-- What is left of names after the greatest index. -/
def lastPart : Query :=
  .project (.source "ITEM" none)
    [("PART", .call (some (.column "NAME")) .substring [.constant (.int64 9223372036854775807)])]

/-- The greatest index is a start that stays as it is, though the next integer is not the same. -/
theorem start_ne_of_lastPart :
    ∃ w, Select.ofQuery (.ofVersion ⟨3, 0, 0, 0⟩) lastPart =
        .ok ⟨[⟨.substring (.column "i" "NAME") (.literal w) none, some "PART"⟩],
          .table "ITEM" "i", [], [], none⟩ ∧
      w.integer? = some 9223372036854775807 ∧ w.integer? ≠ some (9223372036854775807 + 1) :=
  ⟨.int64 9223372036854775807, rfl, rfl, by decide⟩

end QueryLoom.Sql

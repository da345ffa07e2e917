/-
  QueryLoom/Proofs/Reading/Value.lean
  ===================================
  **What leaving out parentheses does to the value of an expression.**  Values are exact
  integers, texts and truth values of a three-valued logic, and an expression has no
  value where an operator does not apply to its operands or divides by zero.

  Grouping a repeated operator to the left keeps the value as long as everything that moves can
  be regrouped: sums with differences in them can, and so can conjunctions, disjunctions,
  concatenations and products.  A quotient cannot, because `a * (b / c)` and `a * b / c` differ
  in integers.  The renderer leaves out the parentheses of a right factor that is a product, and
  does not look at whether that product starts with a quotient.

  * `value_graft` is the regrouping of one operand.
  * `value_reading` says that an expression without such a factor keeps its value.
  * `value_of_write` says it of the text, and that every chain of factors with a quotient among
    them has numbers for which the value changes.
-/
import Mathlib.Tactic.Ring
import QueryLoom.Proofs.Reading.Grouping

namespace QueryLoom.Sql.Reading

/-! ### Values -/

/-- A value of an expression. -/
inductive Datum where
  | null
  | integer (n : Int)
  | text (s : String)
  | truth (b : Bool)
deriving DecidableEq

namespace Datum

/-- A truth value that may be unknown. -/
def ofLogical : Option Bool → Datum
  | none => null
  | some b => truth b

/-- The truth value, unknown for the null, of a datum that can be a condition. -/
def logical? : Datum → Option (Option Bool)
  | null => some none
  | truth b => some (some b)
  | _ => none

end Datum

/-- Both conditions hold. -/
def both : Option Bool → Option Bool → Option Bool
  | some false, _ | _, some false => some false
  | some true, some true => some true
  | _, _ => none

/-- One of the conditions holds. -/
def either : Option Bool → Option Bool → Option Bool
  | some true, _ | _, some true => some true
  | some false, some false => some false
  | _, _ => none

/-- An operation on integers, which is null where an operand is. -/
def arithmetic (f : Int → Int → Option Int) : Datum → Datum → Option Datum
  | .integer m, .integer n => (f m n).map .integer
  | .null, .integer _ | .integer _, .null | .null, .null => some .null
  | _, _ => none

theorem arithmetic_integer (f : Int → Int → Option Int) (m n : Int) :
    arithmetic f (.integer m) (.integer n) = (f m n).map .integer := rfl

/-- An operation on conditions. -/
def logic (f : Option Bool → Option Bool → Option Bool) (d d' : Datum) : Option Datum := do
  let x ← d.logical?
  let y ← d'.logical?
  return .ofLogical (f x y)

/-- The concatenation of two texts, which is null where one of them is. -/
def concatenation : Datum → Datum → Option Datum
  | .text s, .text t => some (.text (s ++ t))
  | .null, .text _ | .text _, .null | .null, .null => some .null
  | _, _ => none

/-- A comparison of two values of one kind, which is unknown where one of them is null. -/
def comparison (holds : Ordering → Bool) : Datum → Datum → Option Datum
  | .integer m, .integer n => some (.truth (holds (compare m n)))
  | .text s, .text t => some (.truth (holds (compare s t)))
  | .truth a, .truth b => some (.truth (holds (compare a b)))
  | .null, _ | _, .null => some .null
  | _, _ => none

/-- Whether a text starts with another. -/
def startingWith : Datum → Datum → Option Datum
  | .text s, .text t => some (.truth (t.toList.isPrefixOf s.toList))
  | .null, .text _ | .text _, .null | .null, .null => some .null
  | _, _ => none

/-- The value of a binary operator.  Division truncates toward zero, and the remainder has the
    sign of the dividend. -/
def binaryValue : BinaryOperator → Datum → Datum → Option Datum
  | .add => arithmetic fun m n => some (m + n)
  | .subtract => arithmetic fun m n => some (m - n)
  | .multiply => arithmetic fun m n => some (m * n)
  | .divide => arithmetic fun m n => if n = 0 then none else some (m.tdiv n)
  | .modulo => arithmetic fun m n => if n = 0 then none else some (m.tmod n)
  | .concat => concatenation
  | .and => logic both
  | .or => logic either
  | .equal => comparison fun o => o == .eq
  | .notEqual => comparison fun o => o != .eq
  | .greater => comparison fun o => o == .gt
  | .greaterOrEqual => comparison fun o => o != .lt
  | .less => comparison fun o => o == .lt
  | .lessOrEqual => comparison fun o => o != .gt
  | .startingWith => startingWith

/-- The value of an operator on one operand. -/
def unaryValue : UnaryOperator → Datum → Option Datum
  | .not, d => d.logical?.map fun x => .ofLogical (x.map (!·))
  | .negate, .integer n => some (.integer (-n))
  | .negate, .null => some .null
  | .negate, _ => none

/-- Values for the columns and, by name, for the parameters. -/
structure Assignment where
  column : String → String → Datum
  parameter : String → Datum

/-- The value of a constant.  A server without truth values has one and zero. -/
def literalValue (caps : Capabilities) : Value → Option Datum
  | .null => some .null
  | .string s => some (.text s)
  | .boolean b =>
    some (if caps.booleanType then .truth b else .integer (if b then 1 else 0))
  | .int16 n => some (.integer n.toInt)
  | .int32 n => some (.integer n.toInt)
  | .int64 n => some (.integer n.toInt)
  | _ => none

/-- The value of an expression, if it is well typed and does not divide by zero. -/
def value (caps : Capabilities) (σ : Assignment) : Expr → Option Datum
  | .column source name => some (σ.column source name)
  | .literal v => literalValue caps v
  | .parameter p => some (σ.parameter p.name)
  | .binary left op right => do
    let d ← value caps σ left
    let d' ← value caps σ right
    binaryValue op d d'
  | .unary op operand => do unaryValue op (← value caps σ operand)
  | .isNull operand negated => do
    let d ← value caps σ operand
    return .truth (decide (d = .null) != negated)
  | _ => none

/-- The value of an expression as it is read. -/
def Term.value (σ : Assignment) : Term → Option Datum
  | .column source name => some (σ.column source name)
  | .number n => some (.integer n)
  | .string s => some (.text s)
  | .truth b => some (.truth b)
  | .null => some .null
  | .bound (.dynamic p) => some (σ.parameter p.name)
  | .named name => some (σ.parameter name)
  | .binary left op right => do
    let d ← left.value σ
    let d' ← right.value σ
    binaryValue op d d'
  | .unary op operand => do unaryValue op (← operand.value σ)
  | .isNull operand negated => do
    let d ← operand.value σ
    return .truth (decide (d = .null) != negated)
  | .call "MOD" [left, right] => do
    let d ← left.value σ
    let d' ← right.value σ
    binaryValue .modulo d d'
  | _ => none

/-! ### Regrouping -/

/-- Whether an operand of `op` can be drawn out of an expression with the operator `o`. -/
def Regroups (op o : BinaryOperator) : Prop :=
  ∀ d d' d'' : Datum, ((binaryValue op d d').bind fun x => binaryValue o x d'') =
    (binaryValue o d' d'').bind fun y => binaryValue op d y

theorem arithmetic_regroup {f g : Int → Int → Int}
    (h : ∀ m n k, g (f m n) k = f m (g n k)) (d d' d'' : Datum) :
    ((arithmetic (fun m n => some (f m n)) d d').bind fun x =>
        arithmetic (fun m n => some (g m n)) x d'') =
      (arithmetic (fun m n => some (g m n)) d' d'').bind fun y =>
        arithmetic (fun m n => some (f m n)) d y := by
  -- away from three integers both sides compute to the same null or to nothing
  cases d <;> cases d' <;> cases d'' <;> try rfl
  case integer.integer.integer m n k => exact congrArg (fun x => some (Datum.integer x)) (h m n k)

theorem logic_regroup {f : Option Bool → Option Bool → Option Bool}
    (h : ∀ a b c, f (f a b) c = f a (f b c)) (d d' d'' : Datum) :
    ((logic f d d').bind fun x => logic f x d'') =
      (logic f d' d'').bind fun y => logic f d y := by
  have hof : ∀ x, (Datum.ofLogical x).logical? = some x := by
    intro x
    cases x <;> rfl
  cases hd : d.logical? <;> cases hd' : d'.logical? <;> cases hd'' : d''.logical? <;>
    simp [logic, hd, hd', hd'', hof, h]

theorem both_assoc (a b c : Option Bool) : both (both a b) c = both a (both b c) := by
  rcases a with _ | _ | _ <;> rcases b with _ | _ | _ <;> rcases c with _ | _ | _ <;> rfl

theorem either_assoc (a b c : Option Bool) : either (either a b) c = either a (either b c) := by
  rcases a with _ | _ | _ <;> rcases b with _ | _ | _ <;> rcases c with _ | _ | _ <;> rfl

theorem concatenation_regroup (d d' d'' : Datum) :
    ((concatenation d d').bind fun x => concatenation x d'') =
      (concatenation d' d'').bind fun y => concatenation d y := by
  cases d <;> cases d' <;> cases d'' <;> try rfl
  case text.text.text s t u => exact congrArg (fun x => some (Datum.text x)) String.append_assoc

/-- On each level an operand of the associative operator can be drawn out, except out of a
    quotient. -/
theorem regroups_of_level {op o : BinaryOperator} (hop : op.isAssociative)
    (hlevel : level o = level op) (hquotient : op = .multiply → o ≠ .divide) :
    Regroups op o := by
  cases op with
  | add =>
    cases o with
    | add => exact arithmetic_regroup Int.add_assoc
    | subtract => exact arithmetic_regroup fun m n k => by ring
    | _ => cases hlevel
  | multiply =>
    cases o with
    | multiply => exact arithmetic_regroup Int.mul_assoc
    | divide => exact absurd rfl (hquotient rfl)
    | _ => cases hlevel
  | concat =>
    cases o with
    | concat => exact concatenation_regroup
    | _ => cases hlevel
  | and =>
    cases o with
    | and => exact logic_regroup both_assoc
    | _ => cases hlevel
  | or =>
    cases o with
    | or => exact logic_regroup either_assoc
    | _ => cases hlevel
  | _ => cases hop

/-- Whether a term starts with a quotient once its products are seen as one chain. -/
def Term.startsWithQuotient : Term → Bool
  | .binary _ .divide _ => true
  | .binary left .multiply _ => left.startsWithQuotient
  | _ => false

variable {σ : Assignment} {t u : Term} {op o : BinaryOperator}

theorem value_binary {left right : Term} :
    (Term.binary left op right).value σ =
      (left.value σ).bind fun d => (right.value σ).bind fun d' => binaryValue op d d' := rfl

/-- Putting an operand in front of a term is the same as giving the term to the operator. -/
theorem value_graft (hop : op.isAssociative) :
    ∀ u : Term, (op = .multiply → u.startsWithQuotient = false) →
      (graft t op u).value σ = (Term.binary t op u).value σ
  | .binary left o right, hquotient => by
    rw [graft]
    split
    · next hlevel =>
      have hdivide : op = .multiply → o ≠ .divide := by
        rintro hmultiply rfl
        exact Bool.noConfusion (hquotient hmultiply)
      have hleft : op = .multiply → left.startsWithQuotient = false := by
        rintro rfl
        have ho := hquotient rfl
        cases o with
        | multiply => exact ho
        | divide => cases ho
        | _ => cases hlevel
      rw [value_binary, value_graft hop left hleft, value_binary, value_binary, value_binary]
      have hregroup := regroups_of_level hop hlevel hdivide
      cases t.value σ with
      | none => rfl
      | some d =>
        cases left.value σ with
        | none => rfl
        | some d' =>
          cases right.value σ with
          | none => cases hx : binaryValue op d d' <;> simp [hx]
          | some d'' => exact hregroup d d' d''
    · rfl
  | .column .., _ | .number _, _ | .string _, _ | .truth _, _ | .null, _ | .bound _, _
  | .named _, _ | .call .., _ | .case .., _ | .unary .., _ | .isNull .., _ => rfl

/-! ### Expressions that keep their value -/

/-- Whether an expression starts with a quotient when it is written as a factor. -/
def startsWithQuotient : Expr → Bool
  | .binary _ .divide _ => true
  | .binary left .multiply _ => startsWithQuotient left
  | _ => false

/-- Whether a right factor in the expression is a product that starts with a quotient. -/
def hasLateQuotient : Expr → Bool
  | .binary left op right =>
    (op == .multiply && right.applies .multiply && startsWithQuotient right)
      || hasLateQuotient left || hasLateQuotient right
  | .unary _ operand => hasLateQuotient operand
  | .isNull operand _ => hasLateQuotient operand
  | _ => false

/-- Columns, parameters, integers, strings, truth values and the null with operators and tests
    for null between them.  A named placeholder has to be a single word. -/
def isOperation (placeholders : Placeholders) : Expr → Bool
  | .column .. => true
  | .literal v => readsLiteral v
  | .parameter p => readsPiece placeholders (.parameter p)
  | .binary left _ right => isOperation placeholders left && isOperation placeholders right
  | .unary _ operand => isOperation placeholders operand
  | .isNull operand _ => isOperation placeholders operand
  | _ => false

variable {style : Style} {placeholders : Placeholders} {e l r : Expr}

theorem reads_of_isOperation : ∀ e : Expr, isOperation placeholders e → reads placeholders e
  | .column .., _ => rfl
  | .literal _, h | .parameter _, h => h
  | .binary left op right, h => by
    rw [isOperation, Bool.and_eq_true] at h
    rw [reads, Bool.and_eq_true]
    exact ⟨reads_of_isOperation left h.1, reads_of_isOperation right h.2⟩
  | .unary _ operand, h => reads_of_isOperation operand h
  | .isNull operand _, h => reads_of_isOperation operand h

/-- A term on another level than that of products starts with no quotient. -/
theorem startsWithQuotient_of_level_ne
    (h : ∀ left o right, u = .binary left o right → level o ≠ Level.multiplicative) :
    u.startsWithQuotient = false := by
  cases u with
  | binary left o right =>
    have ho := h left o right rfl
    cases o with
    | multiply | divide => exact absurd rfl ho
    | _ => rfl
  | _ => rfl

theorem startsWithQuotient_graft_multiply (ht : t.startsWithQuotient = false) :
    ∀ u : Term, u.startsWithQuotient = false →
      (graft t .multiply u).startsWithQuotient = false
  | .binary left o right, hu => by
    rw [graft]
    split
    · next hlevel =>
      cases o with
      | multiply => exact startsWithQuotient_graft_multiply ht left hu
      | divide => cases hu
      | _ => cases hlevel
    · exact ht
  | .column .., _ | .number _, _ | .string _, _ | .truth _, _ | .null, _ | .bound _, _
  | .named _, _ | .call .., _ | .case .., _ | .unary .., _ | .isNull .., _ => ht

/-- An expression that starts with no quotient is read as a term that starts with none. -/
theorem startsWithQuotient_reading : ∀ e : Expr, hasLateQuotient e = false →
    startsWithQuotient e = false → (reading style e).startsWithQuotient = false
  | .binary left op right, hlate, hstarts => by
    simp only [hasLateQuotient, Bool.or_eq_false_iff] at hlate
    obtain ⟨⟨hfactor, hleft⟩, hright⟩ := hlate
    by_cases hop : level op = Level.multiplicative
    · cases op with
      | multiply =>
        have hreading := startsWithQuotient_reading left hleft hstarts
        rw [reading, if_neg (by decide)]
        split
        · next hrepeats =>
          rw [repeats, Bool.and_eq_true] at hrepeats
          have hfirst : startsWithQuotient right = false := by simpa [hrepeats.1] using hfactor
          exact startsWithQuotient_graft_multiply hreading _
            (startsWithQuotient_reading right hright hfirst)
        · exact hreading
      | divide => cases hstarts
      | _ => cases hop
    · refine startsWithQuotient_of_level_ne ?_
      intro l o r hreading
      rwa [level_of_reading hreading, Expr.precedence, ← level_eq_precedence]
  | .literal v, _, _ => by
    refine startsWithQuotient_of_level_ne ?_
    intro l o r hreading
    rw [level_of_reading hreading, Expr.precedence]
    split <;> decide
  | .column .., _, _ | .unary .., _, _ | .isNull .., _, _ => rfl
  | .parameter p, _, _ => by
    refine startsWithQuotient_of_level_ne ?_
    intro l o r hreading
    rw [level_of_reading hreading]
    exact (by decide : Precedence.atom ≠ Level.multiplicative)
  | .allColumns _, _, _ | .keyword _, _, _ | .function .., _, _ | .trim .., _, _
  | .substring .., _, _ | .extract .., _, _ | .cast .., _, _ | .position .., _, _
  | .dateAdd .., _, _ | .atTimeZone .., _, _ | .case .., _, _ | .existsRow _, _, _ => rfl

theorem value_integerTerm (n : Int) : (integerTerm n).value σ = some (.integer n) := by
  rw [integerTerm]
  split
  · next hn =>
    have habsolute : -(n.natAbs : Int) = n := by omega
    exact congrArg (fun i => some (Datum.integer i)) habsolute
  · next hn =>
    have habsolute : (n.natAbs : Int) = n := by omega
    exact congrArg (fun i => some (Datum.integer i)) habsolute

theorem value_literalTerm {caps : Capabilities} {v : Value} (hv : readsLiteral v) :
    (literalTerm caps v).value σ = literalValue caps v := by
  cases v with
  | null | string => rfl
  | boolean b =>
    rw [literalTerm, literalValue]
    split
    · rfl
    · cases b <;> rfl
  | int16 n => exact value_integerTerm n.toInt
  | int32 n => exact value_integerTerm n.toInt
  | int64 n => exact value_integerTerm n.toInt
  | _ => cases hv

/-- Without a quotient late in a product, an expression is read with the value it has. -/
theorem value_reading : ∀ e : Expr, isOperation placeholders e → hasLateQuotient e = false →
    (reading style e).value σ = value style.caps σ e
  | .column .., _, _ => rfl
  | .literal v, h, _ => value_literalTerm h
  | .parameter p, _, _ => by
    simp only [reading, value, parameterTerm]
    split <;> rfl
  | .binary left op right, h, hlate => by
    rw [isOperation, Bool.and_eq_true] at h
    simp only [hasLateQuotient, Bool.or_eq_false_iff] at hlate
    obtain ⟨⟨hfactor, hleft⟩, hright⟩ := hlate
    have hleft := value_reading left h.1 hleft
    have hright' := value_reading right h.2 hright
    rw [value, reading]
    split
    · next hop =>
      rw [← hleft, ← hright', hop]
      rfl
    split
    · next hrepeats =>
      rw [repeats, Bool.and_eq_true] at hrepeats
      have hquotient : op = .multiply → (reading style right).startsWithQuotient = false := by
        rintro rfl
        have hfirst : startsWithQuotient right = false := by simpa [hrepeats.1] using hfactor
        exact startsWithQuotient_reading right hright hfirst
      rw [value_graft hrepeats.2 _ hquotient, ← hleft, ← hright']
      rfl
    · rw [← hleft, ← hright']
      rfl
  | .unary op operand, h, hlate => by
    rw [value, ← value_reading operand h hlate]
    rfl
  | .isNull operand negated, h, hlate => by
    rw [value, ← value_reading operand h hlate]
    rfl

/-! ### Chains of factors -/

/-- An expression multiplied and divided by numbers, from left to right. -/
def chain (e : Expr) : List (BinaryOperator × Int32) → Expr
  | [] => e
  | (op, n) :: steps => chain (.binary e op (.int n)) steps

/-- Two times a product whose first factor is a chain that starts with one. -/
def lateChain (steps : List (BinaryOperator × Int32)) : Expr :=
  .binary (.int 2) .multiply (.binary (chain (.int 1) steps) .multiply (.int 1))

/-- A term multiplied and divided by numbers, from left to right. -/
def termChain (t : Term) : List (BinaryOperator × Int32) → Term
  | [] => t
  | (op, n) :: steps => termChain (.binary t op (integerTerm n.toInt)) steps

/-- Numbers for the operators of a chain: two behind the first division, and one elsewhere. -/
def telling : List BinaryOperator → List (BinaryOperator × Int32)
  | [] => []
  | .divide :: ops => (.divide, 2) :: ops.map fun op => (op, 1)
  | op :: ops => (op, 1) :: telling ops

/-- The operators of a chain of factors. -/
def isFactorOperator (op : BinaryOperator) : Prop := op = .multiply ∨ op = .divide

instance : DecidablePred isFactorOperator := fun op =>
  inferInstanceAs (Decidable (op = .multiply ∨ op = .divide))

variable {steps : List (BinaryOperator × Int32)} {ops : List BinaryOperator} {bound : List Binding}
  {ps : List Piece}

theorem map_fst_telling (ops : List BinaryOperator) : (telling ops).map Prod.fst = ops := by
  fun_induction telling ops with
  | case1 => rfl
  | case2 ops =>
    rw [List.map_cons, List.map_map]
    exact congrArg _ (List.map_id ops)
  | case3 op ops hop ih => rw [List.map_cons, ih]

theorem reading_chain (hsteps : ∀ s ∈ steps, isFactorOperator s.1) :
    reading style (chain e steps) = termChain (reading style e) steps := by
  induction steps generalizing e with
  | nil => rfl
  | cons step steps ih =>
    obtain ⟨op, n⟩ := step
    have hop : op ≠ .modulo := by
      rcases hsteps _ List.mem_cons_self with rfl | rfl <;> decide
    rw [chain, ih fun s hs => hsteps s (List.mem_cons_of_mem _ hs), termChain, reading, if_neg hop]
    rfl

theorem graft_termChain (hsteps : ∀ s ∈ steps, isFactorOperator s.1) :
    graft t .multiply (termChain u steps) = termChain (graft t .multiply u) steps := by
  induction steps generalizing u with
  | nil => rfl
  | cons step steps ih =>
    obtain ⟨op, n⟩ := step
    have hlevel : level op = level .multiply := by
      rcases hsteps _ List.mem_cons_self with rfl | rfl <;> rfl
    rw [termChain, ih fun s hs => hsteps s (List.mem_cons_of_mem _ hs), graft, if_pos hlevel,
      termChain]

theorem isOperation_chain (he : isOperation placeholders e) :
    isOperation placeholders (chain e steps) := by
  induction steps generalizing e with
  | nil => exact he
  | cons step steps ih =>
    refine ih ?_
    rw [isOperation, he]
    rfl

theorem hasLateQuotient_chain (he : hasLateQuotient e = false) :
    hasLateQuotient (chain e steps) = false := by
  induction steps generalizing e with
  | nil => exact he
  | cons step steps ih =>
    refine ih ?_
    rw [hasLateQuotient, he]
    simp [Expr.applies, Expr.int, hasLateQuotient]

/-- Multiplying and dividing by one changes nothing. -/
theorem value_termChain_one {m : Int} (ht : t.value σ = some (.integer m))
    (hops : ∀ op ∈ ops, isFactorOperator op) :
    (termChain t (ops.map fun op => (op, 1))).value σ = some (.integer m) := by
  induction ops generalizing t with
  | nil => exact ht
  | cons op ops ih =>
    refine ih ?_ fun o ho => hops o (List.mem_cons_of_mem op ho)
    rw [value_binary, ht, value_integerTerm]
    rcases hops op List.mem_cons_self with rfl | rfl
    · simp [binaryValue, arithmetic_integer]
    · simp [binaryValue, arithmetic_integer]

/-- The chain halves what it starts with. -/
theorem value_telling {m : Int} (ht : t.value σ = some (.integer m))
    (hops : ∀ op ∈ ops, isFactorOperator op) (hdivide : .divide ∈ ops) :
    (termChain t (telling ops)).value σ = some (.integer (m.tdiv 2)) := by
  induction ops generalizing t with
  | nil => exact absurd hdivide List.not_mem_nil
  | cons op ops ih =>
    have hrest : ∀ o ∈ ops, isFactorOperator o := fun o ho => hops o (List.mem_cons_of_mem op ho)
    rcases hops op List.mem_cons_self with rfl | rfl
    · refine ih ?_ hrest ((List.mem_cons.1 hdivide).resolve_left (by decide))
      rw [value_binary, ht, value_integerTerm]
      simp [binaryValue, arithmetic_integer]
    · refine value_termChain_one ?_ hrest
      rw [value_binary, ht, value_integerTerm]
      simp [binaryValue, arithmetic_integer]

theorem reading_lateChain (hsteps : ∀ s ∈ steps, isFactorOperator s.1) :
    reading style (lateChain steps) =
      .binary (termChain (.binary (.number 2) .multiply (.number 1)) steps) .multiply
        (.number 1) := by
  have hfactor : reading style (.binary (chain (.int 1) steps) .multiply (.int 1)) =
      .binary (termChain (.number 1) steps) .multiply (.number 1) := by
    rw [reading, if_neg (by decide), reading_chain hsteps]
    rfl
  rw [lateChain, reading, if_neg (by decide), if_pos (by rfl), hfactor, graft, if_pos rfl,
    graft_termChain hsteps]
  rfl

/-! ### Texts of numbers alone -/

/-- Whether a piece is written as it stands. -/
def isVerbatim (p : Piece) : Bool := p.verbatim?.isSome

theorem exists_write_of_isVerbatim (hps : ps.all isVerbatim) :
    ∃ text, style.write bound ps = (.ok text, bound) := by
  induction ps with
  | nil => exact ⟨_, rfl⟩
  | cons p ps ih =>
    rw [List.all_cons, Bool.and_eq_true] at hps
    obtain ⟨text, htext⟩ := ih hps.2
    have hp : ∃ w, style.writePiece bound p = .ok (w, bound) := by
      cases p with
      | word | symbol | number | space => exact ⟨_, rfl⟩
      | _ => cases hps.1
    obtain ⟨w, hw⟩ := hp
    refine ⟨w ++ text, ?_⟩
    rw [Style.write, hw]
    simp only [htext]
    rfl

theorem isVerbatim_binary {caps : Capabilities} (hop : isFactorOperator op)
    (hl : (l.pieces caps).all isVerbatim) (hr : (r.pieces caps).all isVerbatim) :
    (Expr.pieces caps (.binary l op r)).all isVerbatim := by
  have hguarded : ∀ (e : Expr) (least : Precedence) (ps : List Piece), ps.all isVerbatim →
      (e.guarded least ps).all isVerbatim := by
    intro e least ps hps
    rw [Expr.guarded]
    split
    · simpa [Piece.parenthesized, isVerbatim, Piece.verbatim?] using hps
    · exact hps
  have hmodulo : op ≠ .modulo := by rcases hop with rfl | rfl <;> decide
  have hpieces : op.pieces.all isVerbatim := by rcases hop with rfl | rfl <;> decide
  rw [Expr.pieces, if_neg hmodulo]
  simp [List.all_append, hpieces, hguarded _ _ _ hl, hguarded _ _ _ hr, isVerbatim,
    Piece.verbatim?]

theorem isVerbatim_int {caps : Capabilities} (n : Int32) :
    (Expr.pieces caps (.int n)).all isVerbatim := by
  rw [Expr.int, Expr.pieces, literal, integer, signed]
  split <;> rfl

theorem isVerbatim_chain {caps : Capabilities} (he : (e.pieces caps).all isVerbatim)
    (hsteps : ∀ s ∈ steps, isFactorOperator s.1) :
    ((chain e steps).pieces caps).all isVerbatim := by
  induction steps generalizing e with
  | nil => exact he
  | cons step steps ih =>
    exact ih (isVerbatim_binary (hsteps _ List.mem_cons_self) he (isVerbatim_int step.2))
      fun s hs => hsteps s (List.mem_cons_of_mem _ hs)

/-! ### Texts -/

/-- A text is read as an expression of the same value, unless a right factor is a product that
    starts with a quotient; and for every such chain of factors there are numbers with which
    the text has another value than the expression. -/
theorem value_of_write (style : Style) :
    (∀ (e : Expr) (text : String) (bindings : List Binding), isOperation style.placeholders e →
      hasLateQuotient e = false → style.write [] (e.pieces style.caps) = (.ok text, bindings) →
      ∃ t, read? bindings text = some t ∧ ∀ σ, t.value σ = value style.caps σ e) ∧
    ∀ ops : List BinaryOperator, (∀ op ∈ ops, isFactorOperator op) → .divide ∈ ops →
      ∃ steps, steps.map Prod.fst = ops ∧ isOperation style.placeholders (lateChain steps) ∧
        ∃ text t, style.write [] ((lateChain steps).pieces style.caps) = (.ok text, []) ∧
          read? [] text = some t ∧ ∀ σ, value style.caps σ (lateChain steps) = some (.integer 0) ∧
            t.value σ = some (.integer 1) := by
  constructor
  · intro e text bindings he hlate hwrite
    refine ⟨reading style e, read?_of_write (reads_of_isOperation e he) hwrite, ?_⟩
    intro σ
    exact value_reading e he hlate
  · intro ops hops hdivide
    have hsteps : ∀ s ∈ telling ops, isFactorOperator s.1 := by
      intro s hs
      refine hops s.1 ?_
      rw [← map_fst_telling ops]
      exact List.mem_map_of_mem hs
    have hchain : isOperation style.placeholders (chain (.int 1) (telling ops)) :=
      isOperation_chain rfl
    have hlate : isOperation style.placeholders (lateChain (telling ops)) := by
      rw [lateChain, isOperation, isOperation, hchain]
      rfl
    have hverbatim : ((lateChain (telling ops)).pieces style.caps).all isVerbatim :=
      isVerbatim_binary (.inl rfl) (isVerbatim_int 2)
        (isVerbatim_binary (.inl rfl) (isVerbatim_chain (isVerbatim_int 1) hsteps)
          (isVerbatim_int 1))
    obtain ⟨text, hwrite⟩ : ∃ text, style.write [] _ = (.ok text, []) :=
      exists_write_of_isVerbatim hverbatim
    refine ⟨telling ops, map_fst_telling ops, hlate, text, _, hwrite,
      read?_of_write (reads_of_isOperation _ hlate) hwrite, fun σ => ⟨?_, ?_⟩⟩
    · have hvalue : value style.caps σ (chain (.int 1) (telling ops)) = some (.integer 0) := by
        rw [← value_reading _ hchain (hasLateQuotient_chain rfl), reading_chain hsteps]
        exact value_telling (m := 1) rfl hops hdivide
      rw [lateChain, value, value, hvalue]
      rfl
    · have hvalue : (termChain (.binary (.number 2) .multiply (.number 1))
          (telling ops)).value σ = some (.integer 1) :=
        value_telling (m := 2) rfl hops hdivide
      rw [reading_lateChain hsteps, value_binary, hvalue]
      rfl

/-- Positional placeholders on a server with truth values. -/
def positional : Style := ⟨.ofVersion ⟨3, 0, 0, 0⟩, .positional, []⟩

/-- The difference of a column and a difference, with a parameter in it. -/
def nestedDifference : Expr :=
  .binary (.column "t" "a") .subtract
    (.binary (.column "t" "b") .subtract (.parameter ⟨"p", .int32⟩))

theorem value_of_write_nestedDifference :
    (∃ t, read? [.dynamic ⟨"p", .int32⟩] "\"t\".\"a\" - (\"t\".\"b\" - ?)" = some t ∧
      ∀ σ, t.value σ = value positional.caps σ nestedDifference) ∧
    ∃ steps, steps.map Prod.fst = [.multiply, .divide] ∧
      isOperation positional.placeholders (lateChain steps) :=
  ⟨(value_of_write positional).1 nestedDifference _ _ (by decide) (by decide) (by decide),
    let ⟨steps, hops, hsteps, _⟩ :=
      (value_of_write positional).2 [.multiply, .divide] (by decide) (by decide)
    ⟨steps, hops, hsteps⟩⟩

/-- Two times the product of one half and one is zero, and its text is read as one. -/
theorem value_of_text_ne :
    positional.write [] ((lateChain [(.divide, 2)]).pieces positional.caps) =
        (.ok "2 * 1 / 2 * 1", []) ∧
      ∃ t, read? [] "2 * 1 / 2 * 1" = some t ∧
        ∀ σ, value positional.caps σ (lateChain [(.divide, 2)]) = some (.integer 0) ∧
          t.value σ = some (.integer 1) := by
  have hwrite : positional.write [] ((lateChain [(.divide, 2)]).pieces positional.caps) =
      (.ok "2 * 1 / 2 * 1", []) := by decide
  have hread := read?_of_write (reads_of_isOperation _ (by decide)) hwrite
  exact ⟨hwrite, _, hread, fun σ => ⟨rfl, rfl⟩⟩

end QueryLoom.Sql.Reading

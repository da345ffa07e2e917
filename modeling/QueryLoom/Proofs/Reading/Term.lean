/-
  QueryLoom/Proofs/Reading/Term.lean
  ==================================
  **A reader of SQL text, second part: from tokens to terms.**

  The reader knows the operators by level, from OR, which binds least tightly, to the minus
  in front of an operand.  `parse` reads a head and then climbs: it goes on as long as the next
  operator is of a level that is asked for and may stand behind what has been read so far.
  Binary operators group to the left, and comparisons do not chain.

  The recursion is on fuel, which each call uses up by one.  `Parses`, `Heads` and `Climbs` say
  what is read with any fuel of at least twice the number of tokens, and the lemmas about
  them are the rules of the grammar.
-/
import Mathlib.Data.Option.Basic
import QueryLoom.Proofs.Reading.Token

namespace QueryLoom.Sql.Reading

/-- An expression as a reader of its text sees it. -/
inductive Term where
  | column (source name : String)
  | number (n : Nat)
  | string (s : String)
  | truth (b : Bool)
  | null
  | bound (b : Binding)
  | named (name : String)
  | call (name : String) (args : List Term)
  | case (whens : List (Term × Term)) (otherwise? : Option Term)
  | binary (left : Term) (op : BinaryOperator) (right : Term)
  | unary (op : UnaryOperator) (operand : Term)
  | isNull (operand : Term) (negated : Bool)

/-! ### Levels -/

namespace Level

def or : Nat := 1
def and : Nat := 2
def not : Nat := 3
def comparison : Nat := 4
def concatenation : Nat := 5
def additive : Nat := 6
def multiplicative : Nat := 7
def negation : Nat := 8
def atom : Nat := 9

end Level

/-- The level of an operator.  The remainder is a call, which is an atom. -/
def level : BinaryOperator → Nat
  | .or => Level.or
  | .and => Level.and
  | .equal | .notEqual | .greater | .greaterOrEqual | .less | .lessOrEqual | .startingWith =>
    Level.comparison
  | .concat => Level.concatenation
  | .add | .subtract => Level.additive
  | .multiply | .divide => Level.multiplicative
  | .modulo => Level.atom

/-- What stands behind an operand: an operator with its other operand, or a test for null. -/
inductive Suffix where
  | operator (op : BinaryOperator)
  | nullTest (negated : Bool)
deriving DecidableEq

namespace Suffix

def level : Suffix → Nat
  | operator op => Reading.level op
  | nullTest _ => Level.comparison

/-- The level that the operand in front needs. -/
def leftLevel (s : Suffix) : Nat :=
  if s.level = Level.comparison then Level.concatenation else s.level

end Suffix

/-- The operator of a symbol. -/
def symbolOperator? : String → Option BinaryOperator
  | "+" => some .add
  | "-" => some .subtract
  | "*" => some .multiply
  | "/" => some .divide
  | "||" => some .concat
  | "=" => some .equal
  | "<>" => some .notEqual
  | ">" => some .greater
  | ">=" => some .greaterOrEqual
  | "<" => some .less
  | "<=" => some .lessOrEqual
  | _ => none

/-- The suffix that tokens start with, and the tokens after it. -/
def suffix? : List Token → Option (Suffix × List Token)
  | .symbol s :: ts => (symbolOperator? s).map fun op => (.operator op, ts)
  | .word "OR" :: ts => some (.operator .or, ts)
  | .word "AND" :: ts => some (.operator .and, ts)
  | .word "STARTING" :: .word "WITH" :: ts => some (.operator .startingWith, ts)
  | .word "IS" :: .word "NULL" :: ts => some (.nullTest false, ts)
  | .word "IS" :: .word "NOT" :: .word "NULL" :: ts => some (.nullTest true, ts)
  | _ => none

/-! ### Tokens to terms -/

/-- The constant that a word stands for. -/
def wordTerm? : String → Option Term
  | "NULL" => some .null
  | "TRUE" => some (.truth true)
  | "FALSE" => some (.truth false)
  | _ => none

mutual

/-- Reads an expression that is made of operators of the level `least` and above. -/
def parse : Nat → Nat → List Token → Option (Term × List Token)
  | 0, _, _ => none
  | fuel + 1, least, ts => do
    let (t, reached, ts) ← head fuel least ts
    climb fuel least reached t ts

/-- Reads what an expression starts with, and says on which level that is. -/
def head : Nat → Nat → List Token → Option (Term × Nat × List Token)
  | 0, _, _ => none
  | fuel + 1, least, .word w :: ts =>
    if w = "NOT" then do
      guard (least ≤ Level.not)
      let (t, ts) ← parse fuel Level.not ts
      return (.unary .not t, Level.not, ts)
    else if w = "CASE" then do
      let (whens, ts) ← branches fuel ts
      guard (!whens.isEmpty)
      match ts with
      | .word "END" :: ts => return (.case whens none, Level.atom, ts)
      | .word "ELSE" :: ts =>
        match ← parse fuel Level.or ts with
        | (t, .word "END" :: ts) => return (.case whens (some t), Level.atom, ts)
        | _ => none
      | _ => none
    else match wordTerm? w with
      | some t => return (t, Level.atom, ts)
      | none =>
        match ts with
        | .symbol "(" :: .symbol ")" :: ts => return (.call w [], Level.atom, ts)
        | .symbol "(" :: ts => do
          let (args, ts) ← arguments fuel ts
          return (.call w args, Level.atom, ts)
        | _ => none
  | fuel + 1, _, .symbol "-" :: ts => do
    let (t, ts) ← parse fuel Level.negation ts
    return (.unary .negate t, Level.negation, ts)
  | fuel + 1, _, .symbol "(" :: ts => do
    match ← parse fuel Level.or ts with
    | (t, .symbol ")" :: ts) => return (t, Level.atom, ts)
    | _ => none
  | _ + 1, _, .name source :: .symbol "." :: .name name :: ts =>
    return (.column source name, Level.atom, ts)
  | _ + 1, _, .number n :: ts => return (.number n, Level.atom, ts)
  | _ + 1, _, .string s :: ts => return (.string s, Level.atom, ts)
  | _ + 1, _, .bound b :: ts => return (.bound b, Level.atom, ts)
  | _ + 1, _, .named name :: ts => return (.named name, Level.atom, ts)
  | _ + 1, _, _ => none

/-- Reads the arguments of a call up to its closing parenthesis. -/
def arguments : Nat → List Token → Option (List Term × List Token)
  | 0, _ => none
  | fuel + 1, ts => do
    match ← parse fuel Level.or ts with
    | (t, .symbol "," :: ts) =>
      let (rest, ts) ← arguments fuel ts
      return (t :: rest, ts)
    | (t, .symbol ")" :: ts) => return ([t], ts)
    | _ => none

/-- Reads the branches of a CASE. -/
def branches : Nat → List Token → Option (List (Term × Term) × List Token)
  | 0, _ => none
  | fuel + 1, .word "WHEN" :: ts => do
    match ← parse fuel Level.or ts with
    | (condition, .word "THEN" :: ts) =>
      let (result, ts) ← parse fuel Level.or ts
      let (rest, ts) ← branches fuel ts
      return ((condition, result) :: rest, ts)
    | _ => none
  | _ + 1, ts => some ([], ts)

/-- Goes on behind `t`, which is on the level `reached`. -/
def climb : Nat → Nat → Nat → Term → List Token → Option (Term × List Token)
  | 0, _, _, _, _ => none
  | fuel + 1, least, reached, t, ts =>
    match suffix? ts with
    | none => some (t, ts)
    | some (s, rest) =>
      if least ≤ s.level ∧ s.leftLevel ≤ reached then
        match s with
        | .operator op => do
          let (u, rest) ← parse fuel (level op + 1) rest
          climb fuel least (level op) (.binary t op u) rest
        | .nullTest negated => climb fuel least Level.comparison (.isNull t negated) rest
      else some (t, ts)

end

/-- Puts what is bound in the place of the positional placeholders. -/
def fill : List Binding → List Token → List Token
  | b :: bindings, .placeholder :: ts => .bound b :: fill bindings ts
  | bindings, t :: ts => t :: fill bindings ts
  | _, [] => []

/-- Reads a whole text, in which the given values are bound. -/
def read? (bindings : List Binding) (text : String) : Option Term :=
  let ts := fill bindings (lex .blank text.toList)
  match parse (2 * ts.length + 2) Level.or ts with
  | some (t, []) => some t
  | _ => none

/-! ### Rules -/

/-- The level of the suffix that tokens start with, and zero where there is none. -/
def suffixLevel (ts : List Token) : Nat :=
  match suffix? ts with
  | some (s, _) => s.level
  | none => 0

/-- With enough fuel, `ts` starts with the term `t` of the level `least`, and `rest` is left. -/
def Parses (least : Nat) (ts : List Token) (t : Term) (rest : List Token) : Prop :=
  ∀ fuel, 2 * ts.length + 2 ≤ fuel → parse fuel least ts = some (t, rest)

/-- With enough fuel, `ts` starts with the head `t`, which is on the level `reached`. -/
def Heads (least : Nat) (ts : List Token) (t : Term) (reached : Nat) (rest : List Token) : Prop :=
  rest.length ≤ ts.length ∧
    ∀ fuel, 2 * ts.length + 1 ≤ fuel → head fuel least ts = some (t, reached, rest)

/-- With enough fuel, reading on behind `t` in front of `ts` gives `u`. -/
def Climbs (least reached : Nat) (t : Term) (ts : List Token) (u : Term) (rest : List Token) :
    Prop :=
  ∀ fuel, 2 * ts.length + 1 ≤ fuel → climb fuel least reached t ts = some (u, rest)

variable {least reached : Nat} {t u v : Term} {ts mid rest : List Token} {op : BinaryOperator}

theorem Heads.parses (hhead : Heads least ts t reached mid)
    (hclimb : Climbs least reached t mid u rest) : Parses least ts u rest := by
  intro fuel hfuel
  obtain ⟨hlength, hhead⟩ := hhead
  cases fuel with
  | zero => omega
  | succ fuel =>
    rw [parse, hhead fuel (by omega)]
    exact hclimb fuel (by omega)

/-- Nothing that is asked for follows. -/
theorem Climbs.stop (h : suffixLevel ts < least) : Climbs least reached t ts t ts := by
  intro fuel hfuel
  cases fuel with
  | zero => omega
  | succ fuel =>
    rw [climb]
    rw [suffixLevel] at h
    split
    · rfl
    · next s rest hs =>
      rw [hs] at h
      rw [if_neg fun hlevel => absurd hlevel.1 (Nat.not_le.2 h)]

/-- The tokens of a binary operator. -/
def operatorTokens : BinaryOperator → List Token
  | .add => [.symbol "+"]
  | .subtract => [.symbol "-"]
  | .multiply => [.symbol "*"]
  | .divide => [.symbol "/"]
  | .modulo => [.symbol "%"]
  | .concat => [.symbol "||"]
  | .and => [.word "AND"]
  | .or => [.word "OR"]
  | .equal => [.symbol "="]
  | .notEqual => [.symbol "<>"]
  | .greater => [.symbol ">"]
  | .greaterOrEqual => [.symbol ">="]
  | .less => [.symbol "<"]
  | .lessOrEqual => [.symbol "<="]
  | .startingWith => [.word "STARTING", .word "WITH"]

theorem suffix?_operator (hop : op ≠ .modulo) :
    suffix? (operatorTokens op ++ ts) = some (.operator op, ts) := by
  cases op with
  | modulo => exact absurd rfl hop
  | _ => rfl

theorem length_operatorTokens_pos (op : BinaryOperator) : 0 < (operatorTokens op).length := by
  cases op <;> decide

theorem suffixLevel_operator (hop : op ≠ .modulo) :
    suffixLevel (operatorTokens op ++ ts) = level op := by
  rw [suffixLevel, suffix?_operator hop]
  rfl

/-- An operator that is asked for takes the operand behind it. -/
theorem Climbs.operator (hop : op ≠ .modulo) (hleast : least ≤ level op)
    (hreached : (Suffix.operator op).leftLevel ≤ reached) (hlength : mid.length ≤ ts.length)
    (hright : Parses (level op + 1) ts v mid)
    (hclimb : Climbs least (level op) (.binary t op v) mid u rest) :
    Climbs least reached t (operatorTokens op ++ ts) u rest := by
  intro fuel hfuel
  have hpos := length_operatorTokens_pos op
  rw [List.length_append] at hfuel
  cases fuel with
  | zero => omega
  | succ fuel =>
    rw [climb, suffix?_operator hop]
    simp only
    rw [if_pos ⟨hleast, hreached⟩, hright fuel (by omega)]
    exact hclimb fuel (by omega)

/-- The tokens of a test for null. -/
def nullTestTokens (negated : Bool) : List Token :=
  if negated then [.word "IS", .word "NOT", .word "NULL"] else [.word "IS", .word "NULL"]

theorem Climbs.nullTest {negated : Bool} (hleast : least ≤ Level.comparison)
    (hreached : Level.concatenation ≤ reached)
    (hclimb : Climbs least Level.comparison (.isNull t negated) ts u rest) :
    Climbs least reached t (nullTestTokens negated ++ ts) u rest := by
  intro fuel hfuel
  have hsuffix : suffix? (nullTestTokens negated ++ ts) = some (.nullTest negated, ts) := by
    cases negated <;> rfl
  have hpos : 0 < (nullTestTokens negated).length := by
    cases negated <;> decide
  rw [List.length_append] at hfuel
  cases fuel with
  | zero => omega
  | succ fuel =>
    rw [climb, hsuffix]
    simp only
    rw [if_pos ⟨hleast, hreached⟩]
    exact hclimb fuel (by omega)

/-! ### Heads -/

/-- A head that is made of its first tokens alone. -/
theorem Heads.leaf (h : ∀ fuel, head (fuel + 1) least ts = some (t, reached, rest))
    (hlength : rest.length ≤ ts.length) : Heads least ts t reached rest := by
  refine ⟨hlength, ?_⟩
  intro fuel hfuel
  cases fuel with
  | zero => omega
  | succ fuel => exact h fuel

theorem Heads.parenthesized (h : Parses Level.or ts t (.symbol ")" :: rest))
    (hlength : rest.length ≤ ts.length) :
    Heads least (.symbol "(" :: ts) t Level.atom rest := by
  refine ⟨Nat.le_succ_of_le hlength, ?_⟩
  intro fuel hfuel
  rw [List.length_cons] at hfuel
  cases fuel with
  | zero => omega
  | succ fuel =>
    rw [head, h fuel (by omega)]
    rfl

theorem Heads.negate (h : Parses Level.negation ts t rest) (hlength : rest.length ≤ ts.length) :
    Heads least (.symbol "-" :: ts) (.unary .negate t) Level.negation rest := by
  refine ⟨Nat.le_succ_of_le hlength, ?_⟩
  intro fuel hfuel
  rw [List.length_cons] at hfuel
  cases fuel with
  | zero => omega
  | succ fuel =>
    rw [head, h fuel (by omega)]
    rfl

theorem Heads.not (hleast : least ≤ Level.not) (h : Parses Level.not ts t rest)
    (hlength : rest.length ≤ ts.length) :
    Heads least (.word "NOT" :: ts) (.unary .not t) Level.not rest := by
  refine ⟨Nat.le_succ_of_le hlength, ?_⟩
  intro fuel hfuel
  rw [List.length_cons] at hfuel
  cases fuel with
  | zero => omega
  | succ fuel =>
    rw [head.eq_def]
    simp [guard, hleast, h fuel (by omega)]

/-- With enough fuel, `ts` starts with the arguments `us` and a closing parenthesis. -/
def Arguments (ts : List Token) (us : List Term) (rest : List Token) : Prop :=
  ∀ fuel, 2 * ts.length + 3 ≤ fuel → arguments fuel ts = some (us, rest)

theorem Arguments.last (h : Parses Level.or ts t (.symbol ")" :: rest)) :
    Arguments ts [t] rest := by
  intro fuel hfuel
  cases fuel with
  | zero => omega
  | succ fuel =>
    rw [arguments, h fuel (by omega)]
    rfl

theorem Arguments.cons {us : List Term} (h : Parses Level.or ts t (.symbol "," :: mid))
    (hlength : mid.length < ts.length) (hrest : Arguments mid us rest) :
    Arguments ts (t :: us) rest := by
  intro fuel hfuel
  cases fuel with
  | zero => omega
  | succ fuel =>
    rw [arguments, h fuel (by omega)]
    simp only [Option.bind_eq_bind, Option.bind_some]
    rw [hrest fuel (by omega)]
    rfl

theorem Arguments.head?_ne {us : List Term} (h : Arguments ts us rest) :
    ts.head? ≠ some (.symbol ")") := by
  intro hhead
  cases ts with
  | nil => cases hhead
  | cons first ts =>
    obtain rfl : first = .symbol ")" := Option.some.inj hhead
    have hread := h (2 * ts.length + 5) (by simp only [List.length_cons]; omega)
    rw [arguments, parse, head] at hread
    · cases hread
    all_goals simp

theorem Heads.word {w : String} (hw : w ≠ "NOT") (hcase : w ≠ "CASE")
    (hterm : wordTerm? w = some t) : Heads least (.word w :: rest) t Level.atom rest := by
  refine Heads.leaf (fun fuel => ?_) (Nat.le_succ _)
  rw [head.eq_def]
  simp [hw, hcase, hterm]

theorem Heads.callEmpty {w : String} (hw : w ≠ "NOT") (hcase : w ≠ "CASE")
    (hterm : wordTerm? w = none) :
    Heads least (.word w :: .symbol "(" :: .symbol ")" :: rest) (.call w []) Level.atom rest := by
  refine Heads.leaf (fun fuel => ?_) (by simp; omega)
  rw [head.eq_def]
  simp [hw, hcase, hterm]

theorem Heads.call {w : String} {us : List Term} (hw : w ≠ "NOT") (hcase : w ≠ "CASE")
    (hterm : wordTerm? w = none) (h : Arguments ts us rest) (hlength : rest.length ≤ ts.length) :
    Heads least (.word w :: .symbol "(" :: ts) (.call w us) Level.atom rest := by
  refine ⟨by simp only [List.length_cons]; omega, ?_⟩
  intro fuel hfuel
  simp only [List.length_cons] at hfuel
  cases fuel with
  | zero => omega
  | succ fuel =>
    rw [head.eq_def]
    simp only [if_neg hw, if_neg hcase, hterm]
    split
    · next after hparen =>
      rw [List.cons.injEq] at hparen
      exact absurd (congrArg List.head? hparen.2) h.head?_ne
    · next hparen =>
      cases hparen
      rw [h fuel (by omega)]
      rfl
    · next hparen => exact absurd rfl (hparen ts)

/-- With enough fuel, `ts` starts with the branches `whens` of a CASE. -/
def Branches (ts : List Token) (whens : List (Term × Term)) (rest : List Token) : Prop :=
  ∀ fuel, 2 * ts.length + 1 ≤ fuel → branches fuel ts = some (whens, rest)

theorem Branches.nil (h : ts.head? ≠ some (.word "WHEN")) : Branches ts [] ts := by
  intro fuel hfuel
  cases fuel with
  | zero => omega
  | succ fuel =>
    rw [branches]
    rintro ts rfl
    exact h rfl

theorem Branches.cons {whens : List (Term × Term)} {after : List Token}
    (hcondition : Parses Level.or ts t (.word "THEN" :: mid)) (hmid : mid.length ≤ ts.length)
    (hresult : Parses Level.or mid v after) (hafter : after.length ≤ mid.length)
    (hrest : Branches after whens rest) :
    Branches (.word "WHEN" :: ts) ((t, v) :: whens) rest := by
  intro fuel hfuel
  rw [List.length_cons] at hfuel
  cases fuel with
  | zero => omega
  | succ fuel =>
    rw [branches, hcondition fuel (by omega)]
    simp only [Option.bind_eq_bind, Option.bind_some]
    rw [hresult fuel (by omega)]
    simp only [Option.bind_some]
    rw [hrest fuel (by omega)]
    rfl

theorem Heads.case {whens : List (Term × Term)} (hne : whens ≠ [])
    (h : Branches ts whens (.word "END" :: rest)) (hlength : rest.length ≤ ts.length) :
    Heads least (.word "CASE" :: ts) (.case whens none) Level.atom rest := by
  refine ⟨Nat.le_succ_of_le hlength, ?_⟩
  intro fuel hfuel
  rw [List.length_cons] at hfuel
  cases fuel with
  | zero => omega
  | succ fuel =>
    rw [head.eq_def]
    simp [guard, hne, h fuel (by omega)]

theorem Heads.caseElse {whens : List (Term × Term)} (hne : whens ≠ [])
    (h : Branches ts whens (.word "ELSE" :: mid)) (hmid : mid.length ≤ ts.length)
    (hotherwise : Parses Level.or mid t (.word "END" :: rest))
    (hlength : rest.length ≤ ts.length) :
    Heads least (.word "CASE" :: ts) (.case whens (some t)) Level.atom rest := by
  refine ⟨Nat.le_succ_of_le hlength, ?_⟩
  intro fuel hfuel
  rw [List.length_cons] at hfuel
  cases fuel with
  | zero => omega
  | succ fuel =>
    rw [head.eq_def]
    simp [guard, hne, h fuel (by omega), hotherwise fuel (by omega)]

end QueryLoom.Sql.Reading

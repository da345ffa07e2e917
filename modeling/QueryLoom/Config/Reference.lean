/-
  QueryLoom/Config/Reference.lean
  ===============================
  **References to the environment in a text**: a dollar sign and, in braces, `env:` with the
  name of a variable, and with another colon the text to take when it is not set.

  A text is taken apart from the left into plain pieces and references.  Each is expanded
  once, and what it expands to is not looked at again.
-/
import QueryLoom.Text.Scan

namespace QueryLoom.Config

/-- What a reference starts with. -/
def opening : List Char := "$\x7benv:".toList

/-- A piece of a text with references. -/
inductive Segment where
  | plain (text : List Char)
  | reference (body : List Char)
  | unclosed
deriving DecidableEq, Repr

/-- The text up to the first reference and the text after its opening. -/
def untilOpening? : List Char → Option (List Char × List Char)
  | [] => none
  | c :: rest =>
    if opening.isPrefixOf (c :: rest) then some ([], (c :: rest).drop opening.length)
    else (untilOpening? rest).map fun (before, after) => (c :: before, after)

/-- What follows an opening is shorter than the text. -/
theorem length_of_untilOpening? {cs before after : List Char}
    (h : untilOpening? cs = some (before, after)) : after.length < cs.length := by
  induction cs generalizing before after with
  | nil => simp [untilOpening?] at h
  | cons c rest ih =>
    rw [untilOpening?] at h
    split at h
    · simp only [Option.some.injEq, Prod.mk.injEq] at h
      rw [← h.2, List.length_drop, List.length_cons]
      have : opening.length = 6 := by decide
      omega
    · obtain ⟨⟨b, a⟩, hb, he⟩ := Option.map_eq_some_iff.1 h
      simp only [Prod.mk.injEq] at he
      rw [← he.2, List.length_cons]
      exact Nat.lt_succ_of_lt (ih hb)

/-- The pieces of a text.  An opening that is not closed ends it. -/
def segments (cs : List Char) : List Segment :=
  match _opened : untilOpening? cs with
  | none => [.plain cs]
  | some (before, after) =>
    match _closed : Text.splitOnce '\x7d' after with
    | none => [.plain before, .unclosed]
    | some (body, rest) => .plain before :: .reference body :: segments rest
termination_by cs.length
decreasing_by
  have hopened := length_of_untilOpening? _opened
  have hclosed := congrArg List.length (Text.eq_append_of_splitOnce _closed)
  rw [List.length_append, List.length_cons] at hclosed
  omega

/-- Why a text cannot be expanded. -/
inductive ExpandError where
  | unclosed (text : String)
  | unset (name : String)
deriving DecidableEq, Repr

/-- The wording of an error. -/
def ExpandError.message : ExpandError → String
  | unclosed text =>
    "Failed to parse \"" ++ text ++ "\", found unclosed $\x7benv:...\x7d"
  | unset name => "Environment variable \"" ++ name ++ "\" is not set"

/-- The name in a reference, and the text to take when the variable is not set. -/
def nameAndDefault (body : List Char) : String × Option String :=
  match Text.splitOnce ':' body with
  | none => (String.ofList body, none)
  | some (name, default) => (String.ofList name, some (String.ofList default))

/-- What a piece stands for. -/
def Segment.expand (lookup : String → Option String) (whole : String) :
    Segment → Except ExpandError String
  | plain text => .ok (String.ofList text)
  | reference body =>
    let (name, default?) := nameAndDefault body
    match (lookup name).orElse fun _ => default? with
    | some value => .ok value
    | none => .error (.unset name)
  | unclosed => .error (.unclosed whole)

/-- Expands the references of a text from left to right. -/
def expand (lookup : String → Option String) (s : String) : Except ExpandError String :=
  ((segments s.toList).mapM (Segment.expand lookup s)).map String.join

/-- The names of the variables that a text refers to. -/
def references (s : String) : List String :=
  (segments s.toList).filterMap fun p => match p with
    | .reference body => some (nameAndDefault body).1
    | _ => none

end QueryLoom.Config

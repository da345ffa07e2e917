/-
  QueryLoom/Command/Arguments.lean
  ================================
  **The command line.**  There are two commands, each with options that take a value.  A
  value may be attached to its option (`--query=x`, `-qx`, `-q=x`) or be the next argument,
  if that does not look like an option itself.

  An option whose value is the next argument is settled when the next option is met, or at
  the end.  So an argument that makes no sense is reported before a value that is missing
  or wrong in front of it.
-/
import QueryLoom.Text.Scan

namespace QueryLoom.Command

/-- Why arguments are not a command, or what they ask for instead of one. -/
inductive UsageError where
  | help
  | version
  | nothingAsked
  | missingRequired
  | unknownArgument
  | unknownCommand
  | badValue
  | repeated
  | tooManyValues
deriving DecidableEq, Repr

/-- An option of a command. -/
inductive Opt where
  | query
  | config
  | serverVersion
deriving DecidableEq, Repr

namespace Opt

/-- The long name of an option. -/
def name : Opt → String
  | query => "query"
  | config => "config"
  | serverVersion => "server-version"

/-- The short name of an option. -/
def letter : Opt → Char
  | query => 'q'
  | config => 'c'
  | serverVersion => 's'

/-- Whether the value is a path, which cannot be empty. -/
def isPath : Opt → Bool
  | query | config => true
  | serverVersion => false

end Opt

end Command

/-- A command with the values of its options. -/
inductive Command where
  | compile (query : String) (config? serverVersion? : Option String)
  | capabilities (config? serverVersion? : Option String)
deriving DecidableEq, Repr

namespace Command

/-- The file with the configuration. -/
def config? : Command → Option String
  | compile _ config? _ => config?
  | capabilities config? _ => config?

/-- The version of the server that overrides the configuration. -/
def serverVersion? : Command → Option String
  | compile _ _ serverVersion? => serverVersion?
  | capabilities _ serverVersion? => serverVersion?

/-! ### Single arguments -/

/-- What an argument looks like. -/
inductive Shape where
  | escape
  | long (name : String) (value? : Option String)
  | short (letters : List Char)
  | word (text : String)
deriving DecidableEq, Repr

/-- Takes an argument apart. -/
def Shape.of (arg : String) : Shape :=
  match arg.toList with
  | ['-', '-'] => escape
  | '-' :: '-' :: rest =>
    match Text.splitOnce '=' rest with
    | some (name, value) => long (String.ofList name) (some (String.ofList value))
    | none => long (String.ofList rest) none
  | '-' :: c :: rest => short (c :: rest)
  | cs => word (String.ofList cs)

/-! ### Options of a command -/

/-- The options met so far. -/
structure Settings where
  values : List (Opt × String) := []
  /-- An option that may still get the next argument as its value. -/
  pending? : Option (Opt × Option String) := none
  /-- Whether options have been declared to be over. -/
  escaped : Bool := false

namespace Settings

/-- The value of an option. -/
def value? (s : Settings) (o : Opt) : Option String :=
  (s.values.find? fun v => v.1 == o).map (·.2)

/-- Sets an option, which must have a value and may not be set already. -/
def assign (s : Settings) (o : Opt) (value? : Option String) : Except UsageError Settings :=
  match value? with
  | none => .error .badValue
  | some v =>
    if (s.value? o).isSome then .error .repeated
    else if o.isPath && v.isEmpty then .error .badValue
    else .ok { s with values := (o, v) :: s.values }

/-- Settles the option that waits for its value. -/
def settle (s : Settings) : Except UsageError Settings :=
  match s.pending? with
  | none => .ok s
  | some (o, value?) => assign { s with pending? := none } o value?

/-- Meets an option with an attached value or without. -/
def meet (s : Settings) (o : Opt) (attached? : Option String) : Except UsageError Settings := do
  let s ← s.settle
  match attached? with
  | some v => s.assign o (some v)
  | none => return { s with pending? := some (o, none) }

/-- Meets the sign that asks for help. -/
def help (s : Settings) : Except UsageError Settings := do
  let _ ← s.settle
  throw .help

/-- Takes in one argument. -/
def take (known : List Opt) (s : Settings) (arg : String) : Except UsageError Settings :=
  if s.escaped then .error .unknownArgument
  else match Shape.of arg with
    | .escape => .ok { s with escaped := true }
    | .long name value? =>
      match known.find? fun o => o.name == name with
      | some o => s.meet o value?
      | none =>
        if name != "help" then .error .unknownArgument
        else if value?.isSome then .error .tooManyValues
        else s.help
    | .short [] => .error .unknownArgument
    | .short (c :: rest) =>
      match known.find? fun o => o.letter == c with
      | some o =>
        let attached? := match rest with
          | [] => none
          | '=' :: value => some (String.ofList value)
          | value => some (String.ofList value)
        s.meet o attached?
      | none => if c = 'h' then s.help else .error .unknownArgument
    | .word text =>
      match s.pending? with
      | some (o, none) => .ok { s with pending? := some (o, some text) }
      | _ => .error .unknownArgument

/-- Reads all arguments of a command. -/
def read (known : List Opt) (args : List String) : Except UsageError Settings := do
  (← args.foldlM (take known) {}).settle

end Settings

/-! ### All arguments -/

/-- The names of the commands. -/
def names : List String := ["compile", "capabilities", "help"]

/-- Reads the command with a name. -/
def named (name : String) (args : List String) : Except UsageError Command := do
  match name with
  | "compile" =>
    let s ← Settings.read [.query, .config, .serverVersion] args
    match s.value? .query with
    | some query => return compile query (s.value? .config) (s.value? .serverVersion)
    | none => throw .missingRequired
  | "capabilities" =>
    let s ← Settings.read [.config, .serverVersion] args
    return capabilities (s.value? .config) (s.value? .serverVersion)
  | "help" =>
    match args with
    | [] => throw .help
    | [topic] => throw (if names.contains topic then .help else .unknownCommand)
    | _ => throw .unknownCommand
  | _ => throw .unknownCommand

/-- Reads the arguments that come after the name of the program. -/
def ofArguments : List String → Except UsageError Command
  | [] => .error .nothingAsked
  | arg :: rest =>
    match Shape.of arg with
    | .escape =>
      match rest with
      | [] => .error .nothingAsked
      | word :: _ => .error (if names.contains word then .unknownArgument else .unknownCommand)
    | .long name value? =>
      if name != "help" && name != "version" then .error .unknownArgument
      else if value?.isSome then .error .tooManyValues
      else .error (if name = "help" then .help else .version)
    | .short letters =>
      match letters.head? with
      | some 'h' => .error .help
      | some 'V' => .error .version
      | _ => .error .unknownArgument
    | .word name => named name rest

end Command

end QueryLoom

import VaultSearch.Text.Words

/-!
# Command line arguments

`Request.parse` reads the arguments of the program. A word that begins
with a minus sign is an option: a long one after two signs, or short
ones of a single letter each after one sign. An option that takes a
value finds it in its own word or in the next one. What comes after two
signs alone is no option. Some options belong to every command and may
stand before its name or after it; the last place counts.
-/

namespace VaultSearch.Cli

inductive OutputFormat where
  | text | json
  deriving Repr, DecidableEq

/-- What the program is asked to do. -/
inductive Command where
  | index (force fromBackup : Bool)
  | query (text : String) (limit : Nat) (anyTerm : Bool) (lines : Nat) (format : OutputFormat)
  | lines (path text : String) (count : Nat) (withContext : Bool) (format : OutputFormat)
  | status
  | watch (idleMs : Nat)
  | clear (confirmed : Bool)
  deriving Repr, DecidableEq

/-- Why the arguments make no sense. -/
inductive UsageError where
  | unknownOption (word : String)
  | unknownCommand (word : String)
  | unexpected (word : String)
  | repeated (option : String)
  | missingValue (option : String)
  | badValue (option value : String)
  | missing (name : String)
  | conflict (first second : String)
  deriving Repr, DecidableEq

def UsageError.message : UsageError → String
  | unknownOption word => s!"unexpected argument '{word}' found"
  | unknownCommand word => s!"unrecognized subcommand '{word}'"
  | unexpected word => s!"unexpected argument '{word}' found"
  | repeated option => s!"the argument '--{option}' cannot be used multiple times"
  | missingValue option => s!"a value is required for '--{option}' but none was supplied"
  | badValue option value => s!"invalid value '{value}' for '--{option}'"
  | missing name => s!"the following required argument was not provided: {name}"
  | conflict first second => s!"the argument '--{first}' cannot be used with '--{second}'"

/-- Why the reading of arguments ends before its end. -/
inductive Stop where
  | help
  | version
  | usage (e : UsageError)
  deriving Repr, DecidableEq

/-! ## Options -/

inductive SwitchKind where
  | flag
  | count
  | help
  | version
  /-- An option with a value that has to pass a test. -/
  | value (accepts : String → Bool)

/-- An option by its long name, without the minus signs, and its letter. -/
structure Switch where
  name : String
  letter : Option Char := none
  kind : SwitchKind := .flag

def Switch.takesValue (o : Switch) : Bool :=
  match o.kind with
  | .value _ => true
  | _ => false

/-- A number of 64 bits; it may have a plus sign. -/
def natural? (s : String) : Option Nat := do
  let digits := match s.toList with
    | '+' :: cs => cs
    | cs => cs
  let n ← Text.natOf? 10 digits
  if n < Nat.pow 2 64 then some n else none

/-- The name of an output format, ASCII case aside. -/
def OutputFormat.parse? (s : String) : Option OutputFormat :=
  match s.toLower with
  | "text" => some .text
  | "json" => some .json
  | _ => none

def isPath (s : String) : Bool := !s.isEmpty

def pathOption (name : String) (letter : Option Char) : Switch :=
  ⟨name, letter, .value isPath⟩

def numberOption (name : String) (letter : Option Char) : Switch :=
  ⟨name, letter, .value fun s => (natural? s).isSome⟩

def outputOption : Switch :=
  ⟨"output", some 'o', .value fun s => (OutputFormat.parse? s).isSome⟩

/-! ## Reading words -/

/-- The options found so far, each with its value, and the other words. -/
structure Given where
  options : List (String × String) := []
  operands : List String := []
  deriving Repr, DecidableEq

namespace Given

def has (g : Given) (name : String) : Bool := g.options.any fun o => o.1 = name

def value? (g : Given) (name : String) : Option String := List.lookup name g.options

def count (g : Given) (name : String) : Nat := (g.options.filter fun o => o.1 = name).length

def record (g : Given) (name value : String) : Given :=
  { g with options := g.options ++ [(name, value)] }

/-- Record an option. -/
def add (g : Given) (o : Switch) (value : String) : Except Stop Given :=
  match o.kind with
  | .help => .error .help
  | .version => .error .version
  | .count => .ok (g.record o.name value)
  | .flag =>
    if g.has o.name then .error (.usage (.repeated o.name)) else .ok (g.record o.name value)
  | .value accepts =>
    if g.has o.name then .error (.usage (.repeated o.name))
    else if accepts value then .ok (g.record o.name value)
    else .error (.usage (.badValue o.name value))

end Given

/-- The options of a command and the names of its other words. The program itself
has no other words, but is followed by the name of a command. -/
structure Level where
  switches : List Switch
  operands : List String := []
  beforeCommand : Bool := false

namespace Level

/-- Read the letters of a word of short options. An option that takes a value takes
the rest of the word, or else waits for the next word. -/
def readLetters (level : Level) (g : Given) : List Char → Except Stop (Given × Option Switch)
  | [] => .ok (g, none)
  | c :: cs =>
    match level.switches.find? fun o => o.letter = some c with
    | none => .error (.usage (.unknownOption (String.ofList ['-', c])))
    | some o =>
      if o.takesValue then
        match cs with
        | [] => .ok (g, some o)
        | '=' :: value => (g.add o (String.ofList value)).map (·, none)
        | value => (g.add o (String.ofList value)).map (·, none)
      else do level.readLetters (← g.add o "") cs

/-- Read a long option, which may have its value after an equals sign. -/
def readLong (level : Level) (g : Given) (word : List Char) :
    Except Stop (Given × Option Switch) :=
  let (name, value) := word.span (· ≠ '=')
  match level.switches.find? fun o => o.name = String.ofList name with
  | none => .error (.usage (.unknownOption (String.ofList ('-' :: '-' :: word))))
  | some o =>
    if o.takesValue then
      if value.isEmpty then .ok (g, some o)
      else (g.add o (String.ofList (value.drop 1))).map (·, none)
    else if value.isEmpty then (g.add o "").map (·, none)
    else .error (.usage (.unexpected (String.ofList (value.drop 1))))

/-- Take a word that is no option. -/
def addOperand (level : Level) (g : Given) (word : String) : Except Stop Given :=
  if g.operands.length < level.operands.length then
    .ok { g with operands := g.operands ++ [word] }
  else .error (.usage (.unexpected word))

/-- Read words; `waiting` is an option whose value comes next. Before the name of a
command the reading ends there, and the words from there on are left. -/
def read (level : Level) (g : Given) (waiting : Option Switch) :
    List String → Except Stop (Given × List String)
  | [] =>
    match waiting with
    | some o => .error (.usage (.missingValue o.name))
    | none => .ok (g, [])
  | word :: rest =>
    match word.toList, waiting with
    | '-' :: _ :: _, some o => .error (.usage (.missingValue o.name))
    | ['-', '-'], none => (rest.foldlM level.addOperand g).map (·, [])
    | '-' :: '-' :: cs, none => do
      let (g, waiting) ← level.readLong g cs
      level.read g waiting rest
    | '-' :: c :: cs, none => do
      let (g, waiting) ← level.readLetters g (c :: cs)
      level.read g waiting rest
    | _, some o => do level.read (← g.add o word) none rest
    | _, none => do
      if level.beforeCommand then return (g, word :: rest)
      level.read (← level.addOperand g word) none rest

end Level

/-! ## The program's own arguments -/

/-- A request to run a command, with the options of every command. -/
structure Invocation where
  configPath : Option String
  vault : Option String
  verbosity : Nat
  quiet : Bool
  command : Command
  deriving Repr, DecidableEq

/-- The options of every command. -/
def commonSwitches : List Switch :=
  [pathOption "config" (some 'c'), pathOption "vault" none, ⟨"verbose", some 'v', .count⟩,
    ⟨"quiet", some 'q', .flag⟩, ⟨"help", some 'h', .help⟩]

def programLevel : Level :=
  { switches := commonSwitches ++ [⟨"version", some 'V', .version⟩], beforeCommand := true }

/-- The full name of a command. -/
def commandName? (word : String) : Option String :=
  if word = "q" then some "query"
  else ["index", "query", "lines", "status", "watch", "clear"].find? (· = word)

/-- The arguments of a command. -/
def commandLevel (name : String) : Level :=
  let (own, operands) : List Switch × List String := match name with
    | "index" => ([⟨"force", some 'f', .flag⟩, ⟨"from-backup", none, .flag⟩], [])
    | "query" =>
      ([numberOption "limit" (some 'l'), ⟨"or", none, .flag⟩, numberOption "lines" (some 'n'),
        outputOption], ["QUERY"])
    | "lines" =>
      ([numberOption "max-lines" (some 'n'), ⟨"context", some 'C', .flag⟩, outputOption],
        ["PATH", "QUERY"])
    | "watch" => ([numberOption "idle-ms" none], [])
    | "clear" => ([⟨"yes", some 'y', .flag⟩], [])
    | _ => ([], [])
  { switches := own ++ commonSwitches, operands }

def numberOf (g : Given) (name : String) (default : Nat) : Nat :=
  ((g.value? name).bind natural?).getD default

def formatOf (g : Given) : OutputFormat :=
  ((g.value? "output").bind OutputFormat.parse?).getD .text

/-- The command that its name and its arguments describe. -/
def commandOf (name : String) (g : Given) : Except Stop Command :=
  match name, g.operands with
  | "index", _ =>
    if g.has "force" && g.has "from-backup" then .error (.usage (.conflict "from-backup" "force"))
    else .ok (.index (g.has "force") (g.has "from-backup"))
  | "query", [text] =>
    .ok (.query text (numberOf g "limit" 20) (g.has "or") (numberOf g "lines" 0) (formatOf g))
  | "query", _ => .error (.usage (.missing "QUERY"))
  | "lines", [path, text] =>
    .ok (.lines path text (numberOf g "max-lines" 5) (g.has "context") (formatOf g))
  | "lines", _ => .error (.usage (.missing "QUERY"))
  | "watch", _ => .ok (.watch (numberOf g "idle-ms" 1500))
  | "clear", _ => .ok (.clear (g.has "yes"))
  | _, _ => .ok .status

/-- What the word `help` and the words after it ask for. -/
def helpFor : List String → Stop
  | [] => .help
  | [word] =>
    if word = "help" || (commandName? word).isSome then .help
    else .usage (.unknownCommand word)
  | word :: next :: _ =>
    .usage (.unknownCommand
      (if word = "help" || (commandName? word).isSome then next else word))

/-- The vault that the environment names, where the arguments name none. -/
def vaultOf (environment : Option String) (g : Given) : Except Stop (Option String) :=
  match g.value? "vault", environment with
  | some v, _ => .ok (some v)
  | none, some "" => .error (.usage (.missingValue "vault"))
  | none, _ => .ok none

/-- Read the arguments of the program. `environment` is the vault that the
environment names. -/
def Invocation.parse (environment : Option String) (args : List String) :
    Except Stop Invocation := do
  let (g, rest) ← programLevel.read {} none args
  match rest with
  | [] => .error (.usage (.missing "COMMAND"))
  | "help" :: words => .error (helpFor words)
  | word :: words =>
    match commandName? word with
    | none => .error (.usage (.unknownCommand word))
    | some name =>
      let (own, _) ← (commandLevel name).read {} none words
      let ownVault ← vaultOf environment own
      let command ← commandOf name own
      let vault ← vaultOf environment g
      return {
        configPath := (own.value? "config").or (g.value? "config")
        vault := (ownVault.or vault).or environment
        verbosity := max (own.count "verbose") (g.count "verbose")
        quiet := own.has "quiet" || g.has "quiet"
        command }

end VaultSearch.Cli

import VaultSearch.Cli.Arguments
import VaultSearch.Cli.Session
import VaultSearch.Curator
import VaultSearch.Decimal.Fixed
import VaultSearch.JsonValue
import VaultSearch.Lines.Excerpt

/-!
# Running commands

`run` does what the arguments ask for, as a function of the files around
the program: its `Step` is the `Outcome`, a question to the user, or a
watch that has begun. Results go to standard output and remarks to
standard error. Lines that tell the time are functions of a `Clock`,
which is read when they are printed.
-/

namespace VaultSearch.Cli

/-! ## What the program prints about hits and lines

Each hit and each line has a row of text and a JSON object. A row of
text shows a line by the excerpt that the configuration allows for its
script, with the marked parts in brackets, and counts lines from one.
-/

/-! ### Rows of text -/

/-- A text with blanks in front, at least `width` characters long. -/
def padded (width : Nat) (s : String) : String :=
  String.ofList (List.replicate (width - s.length) ' ') ++ s

def hitRow (hit : Hit Float) : String := padded 8 (Decimal.fixed 3 hit.score) ++ "  " ++ hit.path

/-- The number of a row, counted from one. -/
def rowNumber (row : Nat) : String := padded 6 s!"{row + 1}"

def matchRow (c : Config) (line : MatchedLine Float) : String :=
  let limit := c.truncate.limit .line (LinesMatcher.isWide line.text.toList)
  rowNumber line.row ++ ": " ++ (line.excerpt limit).bracketed

def itemRow (c : Config) : Item Float → String
  | .file hit => hitRow hit
  | .line _ line => "  " ++ matchRow c line

/-- The rows of the paragraph around a matched line. -/
def contextRows (c : Config) (all : List Line) (line : MatchedLine Float) : List String :=
  let limit := c.truncate.limit .paragraph false
  ((LinesMatcher.context all line.row limit).map fun l =>
    if l.row = line.row then matchRow c line else rowNumber l.row ++ "  " ++ l.text) ++ ["    --"]

/-! ### JSON -/

open JsonValue (natural float string array object)

def hitMembers (hit : Hit Float) : List (String × JsonValue) :=
  [("path", string hit.path), ("query_terms", array (hit.queryTerms.map string)),
    ("matched_terms", array (hit.matchedTerms.map string)), ("score", float hit.score)]

def lineJson (line : MatchedLine Float) : JsonValue :=
  object [("text", string line.text), ("row", natural line.row), ("col", natural line.col),
    ("positions", array (line.positions.map natural)), ("score", float line.score)]

def itemJson : Item Float → JsonValue
  | .file hit => object (("kind", string "file") :: hitMembers hit)
  | .line path line =>
    object [("kind", string "line"), ("path", string path), ("line", lineJson line)]

/-! ## What a command does -/

/-- What the clocks say when the work is done. -/
structure Clock where
  /-- The time that the work took. -/
  seconds : Float
  /-- The date and the time of day. -/
  now : String

/-- A line of text that may tell the time. -/
abbrev Row := Clock → String

def said (s : String) : Row := fun _ => s

/-- What a command leaves behind. -/
structure Outcome where
  tree : FileTree
  out : List Row := []
  err : List Row := []
  code : Nat := 0

inductive Step where
  | done (o : Outcome)
  /-- The user is asked something, and answers with a line. -/
  | ask (prompt : String) (answered : String → Outcome)
  /-- A watch with pauses of `idleMs` milliseconds has begun. -/
  | watch (s : Session) (documents idleMs : Nat)

/-- The end of a command that fails after some output. -/
def Outcome.failed (t : FileTree) (out : List Row) (reason : String) : Outcome :=
  { tree := t, out, err := [said s!"Error: {reason}"], code := 1 }

/-! ### Commands -/

/-- Build the index, or load it if there is a snapshot and `fresh` does not ask for
another. `out` is what has been printed before. -/
def indexFrom (s : Session) (fresh : Bool) (out : List Row) : Outcome :=
  let fresh := fresh || !s.store.hasCurrent
  let out := out ++ if fresh then [said s!"Building index for {s.folder.root}..."] else []
  let (r, s) := if fresh then s.rebuild else s.start
  match r with
  | .error f => .failed s.tree out f.message
  | .ok documents =>
    let size := s.store.size?.toList.map fun n => said s!"  Snapshot:  {n} bytes"
    { tree := s.tree
      out := out ++
        [said "", said "Index ready.", said s!"  Documents: {documents}",
          said s!"  Terms:     {s.curator.engine.stats.terms}",
          fun clock => s!"  Time:      {Decimal.fixed 2 clock.seconds}s"] ++ size }

def runIndex (s : Session) (force fromBackup : Bool) : Outcome :=
  if !fromBackup then indexFrom s force []
  else
    let (r, store) := s.store.restore
    let s := { s with curator := { s.curator with store } }
    match r with
    | .error f => .failed s.tree [] f.message
    | .ok none => { tree := s.tree, err := [said "No backup snapshot found."] }
    | .ok (some _) => indexFrom s force [said "Restored the backup snapshot."]

/-- The number of files among the items. -/
def countFiles (items : List (Item Float)) : Nat :=
  items.countP fun
    | .file _ => true
    | .line _ _ => false

def runQuery (s : Session) (text : String) (anyTerm : Bool) (lines : Nat)
    (format : OutputFormat) : Outcome :=
  let combine := if anyTerm then .or else s.config.search.combineWith
  let (r, s) := s.start
  match r with
  | .error f => .failed s.tree [] f.message
  | .ok 0 => { tree := s.tree, err := [said "Index is empty. Is the vault path right?"] }
  | .ok _ =>
    match s.curator.items (S := Float) s.source text lines (some combine) with
    | .error f => .failed s.tree [] f.message
    | .ok items =>
      match format with
      | .text =>
        { tree := s.tree
          out := items.map fun i => said (itemRow s.config i)
          err := [said "", fun clock =>
            s!"Found {countFiles items} files in {Decimal.fixed 3 (clock.seconds * 1000)}ms"] }
      | .json => { tree := s.tree, out := [said (JsonValue.array (items.map itemJson)).render] }

def runLines (s : Session) (path text : String) (count : Nat) (withContext : Bool)
    (format : OutputFormat) : Outcome :=
  let (r, s) := s.start
  match r with
  | .error f => .failed s.tree [] f.message
  | .ok _ =>
    match s.curator.lines (S := Float) s.source path text count none with
    | .error f => .failed s.tree [] f.message
    | .ok [] => { tree := s.tree, err := [said s!"No matching lines in {path}."] }
    | .ok lines =>
      match format, withContext with
      | .json, _ => { tree := s.tree, out := [said (JsonValue.array (lines.map lineJson)).render] }
      | .text, false => { tree := s.tree, out := lines.map fun l => said (matchRow s.config l) }
      | .text, true =>
        match s.source.content path with
        | .error e => .failed s.tree [] e.toFault.message
        | .ok content =>
          { tree := s.tree
            out := (lines.flatMap (contextRows s.config (Line.split content))).map said }

def runStatus (s : Session) : Outcome :=
  let out :=
    [said "Quarry Index Status", said "===================", said "",
      said s!"Vault:          {s.folder.root}", said s!"Data directory: {s.store.dir}"]
  if !s.store.hasCurrent then
    { tree := s.tree
      out := out ++
        [said "", said "No snapshot found. Run 'quarry index' to build the index."] }
  else
    let (r, s) := s.start
    match r with
    | .error f => .failed s.tree out f.message
    | .ok _ =>
      let stats := s.curator.engine.stats
      let size := s.store.size?.toList.map fun n =>
        said s!"  Snapshot:    {n} bytes ({Decimal.fixed 2 (n.toFloat / 1048576)} MB)"
      let loaded : List Row :=
        if stats.updated then [fun clock => s!"  Loaded:      {clock.now}"] else []
      let warning :=
        if stats.phase = .ready then [] else [said "", said "⚠ Index is not ready"]
      { tree := s.tree
        out := out ++
          [said "", said "Summary:", said s!"  Documents:   {stats.documents}",
            said s!"  Terms:       {stats.terms}", said s!"  State:       {stats.phase.name}"] ++
          size ++ [said s!"  Fingerprint: {s.config.fingerprint}"] ++ loaded ++ warning }

def cleared (store : FileStore) : Outcome :=
  let (r, store) := store.clear
  match r with
  | .error f => .failed store.tree [] f.message
  | .ok _ => { tree := store.tree, out := [said "Index data cleared."] }

/-- Whether an answer is a yes. -/
def isYes (answer : String) : Bool :=
  (String.ofList (Text.trim answer.toList)).toLower = "y"

def runClear (store : FileStore) (confirmed : Bool) : Step :=
  if !store.hasCurrent then
    .done { tree := store.tree, out := [said "No snapshot found. Nothing to clear."] }
  else if confirmed then .done (cleared store)
  else
    .ask s!"This will delete {store.currentPath}. Are you sure? [y/N] " fun answer =>
      if isYes answer then cleared store else { tree := store.tree, out := [said "Cancelled."] }

def beginWatch (s : Session) (idleMs : Nat) : Step :=
  let (r, s) := s.start
  match r with
  | .error f => .done (.failed s.tree [] f.message)
  | .ok documents => .watch s documents (max idleMs 50)

/-- What a watch says when it begins. -/
def watchBanner (s : Session) (documents : Nat) : List String :=
  [s!"Watching {s.folder.root} ({documents} documents)", "Press Ctrl+C to stop.", ""]

/-! ### The program -/

def programVersion : String := "0.1.0"

def usage : List String :=
  ["Lexical search for your notes", "",
    "Usage: quarry [OPTIONS] <COMMAND>", "",
    "Commands:",
    "  index   Build the index, or load it from the stored snapshot",
    "  query   Rank files matching a query",
    "  lines   Show the best matching lines of one file",
    "  status  Show index status and statistics",
    "  watch   Watch the vault and keep the index current",
    "  clear   Remove stored index data",
    "  help    Print this message", "",
    "Options:",
    "  -c, --config <CONFIG>  Path to configuration file",
    "      --vault <VAULT>    Vault directory (overrides the configured one)",
    "  -v, --verbose...       Verbosity level (-v, -vv, -vvv)",
    "  -q, --quiet            Suppress all output except errors",
    "  -h, --help             Print help",
    "  -V, --version          Print version"]

/-- Run a command in a session. -/
def runIn (s : Session) : Command → Step
  | .index force fromBackup => .done (runIndex s force fromBackup)
  | .query text _ anyTerm lines format => .done (runQuery s text anyTerm lines format)
  | .lines path text count withContext format =>
    .done (runLines s path text count withContext format)
  | .status => .done (runStatus s)
  | .watch idleMs => beginWatch s idleMs
  | .clear confirmed => runClear s.store confirmed

/-- The configuration under which a command runs: a query has a limit of its own. -/
def configFor (c : Config) : Command → Config
  | .query _ limit _ _ _ => { c with search := { c.search with maxResults := limit } }
  | _ => c

/-- Run a command under a configuration. Only the snapshots are needed to clear
them, and no vault. -/
def runCommand (w : Surroundings) (c : Config) (i : Invocation) : Step :=
  match i.command with
  | .clear confirmed =>
    match w.dataFolder c with
    | .error f => .done (.failed w.tree [] f.message)
    | .ok dir => runClear ⟨w.tree, dir⟩ confirmed
  | command =>
    match Session.new w (configFor c command) i.vault with
    | .error reason => .done (.failed w.tree [] reason)
    | .ok s => runIn s command

/-- The configuration that an invocation names. -/
def configOf (w : Surroundings) (i : Invocation) : Except Fault Config := do
  Config.load w.tree (← w.configPath i.configPath)

/-- Run the program with arguments. -/
def run (w : Surroundings) (args : List String) : Step :=
  match Invocation.parse w.vault args with
  | .error .help => .done { tree := w.tree, out := usage.map said }
  | .error .version => .done { tree := w.tree, out := [said s!"quarry {programVersion}"] }
  | .error (.usage e) =>
    .done
      { tree := w.tree
        err := [said s!"error: {e.message}", said "", said "For more information, try '--help'."]
        code := 2 }
  | .ok i =>
    match configOf w i with
    | .error f => .done (.failed w.tree [] f.message)
    | .ok c => runCommand w c i

end VaultSearch.Cli

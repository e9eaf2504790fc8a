import VaultSearch.Config

/-!
# Queries

A query may begin with a command block, which switches prefix or fuzzy
matching on or off for this query alone: `/ap`, `/np`, `/af` and `/nf`,
chained by slashes. The block ends at the first space, and what follows
is the text to search for. An unknown command rejects the whole block.
-/

namespace VaultSearch

/-- The match switches that a query may set. -/
structure Toggles where
  prefixMatch : Bool
  fuzzyMatch : Bool
  deriving Repr, DecidableEq

def Toggles.ofConfig (s : SearchSettings) : Toggles := ⟨s.prefixMatch, s.fuzzyMatch⟩

/-- A command of a query's command block. -/
inductive Command where
  | prefixOn | prefixOff | fuzzyOn | fuzzyOff
  deriving Repr, DecidableEq

namespace Command

def ofName? : List Char → Option Command
  | ['a', 'p'] => some prefixOn
  | ['n', 'p'] => some prefixOff
  | ['a', 'f'] => some fuzzyOn
  | ['n', 'f'] => some fuzzyOff
  | _ => none

def apply (t : Toggles) : Command → Toggles
  | prefixOn => { t with prefixMatch := true }
  | prefixOff => { t with prefixMatch := false }
  | fuzzyOn => { t with fuzzyMatch := true }
  | fuzzyOff => { t with fuzzyMatch := false }

end Command

/-- A parsed query: its search text, its switches, and the first unknown
command if the command block was rejected. -/
structure Query where
  text : String
  toggles : Toggles
  invalid : Option String := none
  deriving Repr, DecidableEq

namespace Query

/-- The command names of a block, or the first that is unknown. -/
def commands (names : List (List Char)) : Except (List Char) (List Command) :=
  names.mapM fun n => (Command.ofName? n).elim (.error n) .ok

/-- Parse a raw query against the switches that hold by default. -/
def parse (defaults : Toggles) (raw : String) : Query :=
  match raw.toList with
  | '/' :: rest =>
    let (block, text) := (Text.splitAtFirst? ' ' rest).getD (rest, [])
    match commands ((block.splitOnP (· = '/')).filter (· ≠ [])) with
    | .ok cs => { text := String.ofList text, toggles := cs.foldl Command.apply defaults }
    | .error name =>
      { text := "", toggles := defaults, invalid := some (String.ofList name) }
  | _ => { text := raw, toggles := defaults }

end Query

end VaultSearch

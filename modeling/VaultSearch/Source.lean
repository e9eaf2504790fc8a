import VaultSearch.Index
import VaultSearch.Text.Property
import VaultSearch.Text.Words
import VaultSearch.Yaml.Schema

/-!
# Document sources

A `Source` is what the index knows of a vault: it reads the document at
a path, reads a text for the matching of lines, and lists the paths to
be indexed. Each of the three may fail. `MemorySource` holds the texts
of a vault by path.
-/

/-! ## Front matter

A note may begin with a block of YAML between two lines `---`. The block
names further titles of the note under the keys `aliases` and `alias`,
each one text or a list of texts. A block that breaks the rules has no
titles.
-/

namespace VaultSearch.FrontMatter

open Yaml (Node)

/-- Whether a line ends at the front of a text. -/
def lineEnds : List Char → Bool
  | [] | '\n' :: _ | '\r' :: '\n' :: _ => true
  | _ => false

/-- The text before the first line break that a closing line follows. -/
def beforeClosing? : List Char → Option (List Char)
  | [] => none
  | c :: rest =>
    if c = '\n' && ((Text.dropLead? ['-', '-', '-'] rest).any lineEnds) then some []
    else (beforeClosing? rest).map (c :: ·)

/-- The block at the front of a note. -/
def block? (content : List Char) : Option (List Char) :=
  match content with
  | '-' :: '-' :: '-' :: '\n' :: rest | '-' :: '-' :: '-' :: '\r' :: '\n' :: rest =>
    beforeClosing? rest
  | _ => none

/-- The titles under a key: none for a missing value, one, or a list. `none` for a
value of another kind. -/
def titles? (d : Yaml.Document) (value : Node) : Option (List String) := do
  let n ← d.resolve value
  if ← n.isMissing? then some []
  else match n with
    | .sequence tag items =>
      if tag.any (·.startsWith "!") then none else items.mapM d.text?
    | _ => n.text?.map ([·])

/-- The text of a key, whatever its kind. -/
def keyText? (d : Yaml.Document) (key : Node) : Option String :=
  match d.resolve key with
  | some (.scalar _ text _) => some text
  | _ => none

/-- The titles under each of the two keys, among the entries of a mapping. -/
def fields? (d : Yaml.Document) :
    List (Node × Node) → Option (Option (List String) × Option (List String))
  | [] => some (none, none)
  | (k, v) :: rest => do
    let key ← keyText? d k
    let (first, second) ← fields? d rest
    match key with
    | "aliases" => if first.isSome then none else some (some (← titles? d v), second)
    | "alias" => if second.isSome then none else some (first, some (← titles? d v))
    | _ => some (first, second)

/-- The titles that a block gives; `none` if it breaks the rules. -/
def blockTitles? (block : List Char) : Option (List String) := do
  let d ← Yaml.Document.parse? block
  match d.root with
  | .mapping _ entries =>
    let (first, second) ← fields? d entries
    some (first.getD [] ++ second.getD [])
  | _ => none

/-- The further titles of a note, joined by blanks. -/
def aliases? (content : String) : Option String := do
  let block ← block? content.toList
  let titles ← blockTitles? block
  let kept := (titles.map fun t => Text.trim t.toList).filter (!·.isEmpty)
  if kept.isEmpty then none else some (Text.joinWith " " (kept.map String.ofList))

end VaultSearch.FrontMatter

/-! ## Sources -/

namespace VaultSearch

/-- The document at `path` with the given text; its front matter gives the
aliases. -/
def Document.ofText (path text : String) : Document :=
  Document.ofPath path (some text) (FrontMatter.aliases? text)

structure Source where
  read : String → Except SourceFault Document
  content : String → Except SourceFault String
  list : Except SourceFault (List String)

/-- The document that the source has at `sourcePath`, as one at `path`; `none` if
it cannot be read. -/
def Source.readAs? (s : Source) (path sourcePath : String) : Option Document :=
  match s.read sourcePath with
  | .error _ => none
  | .ok d => some (if d.path = path then d else Document.ofPath path d.content d.aliases)

/-- The documents at the listed paths that can be read. -/
def Source.readAll (s : Source) (paths : List String) : List Document :=
  paths.filterMap fun p => s.readAs? p p

/-- The texts of a vault by path. -/
abbrev MemorySource := Std.TreeMap String String

namespace MemorySource

def content (m : MemorySource) (path : String) : Except SourceFault String :=
  match m[path]? with
  | some text => .ok text
  | none => .error (.fault (.documentNotFound path))

def read (m : MemorySource) (path : String) : Except SourceFault Document :=
  (m.content path).map (Document.ofText path)

def toSource (m : MemorySource) : Source := ⟨m.read, m.content, .ok m.keys⟩

end MemorySource

end VaultSearch

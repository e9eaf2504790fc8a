import VaultSearch.Fault
import VaultSearch.Glob
import VaultSearch.Text.Words

/-!
# Configuration

The settings of a vault search and their default values. A
configuration is a value that nothing changes. The settings that decide
how text becomes terms are named by `Config.fingerprint`, so that an
index built under other settings can be told from a fitting one.
-/

namespace VaultSearch

/-- The parts of a document that are searched. -/
inductive Field where
  | basename | aliases | folder | content
  deriving Repr, DecidableEq

/-- The fields in the order of their numbers. -/
def Field.all : List Field := [basename, aliases, folder, content]

/-- One value for each field. -/
structure PerField (α : Type) where
  basename : α
  aliases : α
  folder : α
  content : α
  deriving Repr, DecidableEq, BEq

namespace PerField

def get {α : Type} (v : PerField α) : Field → α
  | .basename => v.basename
  | .aliases => v.aliases
  | .folder => v.folder
  | .content => v.content

/-- The values of a function of the field. -/
def of {α : Type} (f : Field → α) : PerField α :=
  ⟨f .basename, f .aliases, f .folder, f .content⟩

@[simp] theorem get_of {α : Type} (f : Field → α) (x : Field) : (of f).get x = f x := by
  cases x <;> rfl

end PerField

/-- How the matches of the terms of a query are combined: every term has to
match, or any one of them. -/
inductive Combine where
  | and | or
  deriving Repr, DecidableEq

def Combine.name : Combine → String
  | and => "and"
  | or => "or"

/-- Read a combine mode, ASCII case aside. -/
def Combine.parse (s : String) : Except Fault Combine :=
  match s.toLower with
  | "and" => .ok .and
  | "or" => .ok .or
  | _ => .error (.config s!"unknown combine mode: {s}")

structure GeneralSettings where
  vaultPath : Option String := none
  dataPath : Option String := none
  logLevel : String := "info"
  deriving Repr, BEq

/-- The boost of each field. -/
abbrev FieldWeights := PerField Float

def FieldWeights.default : FieldWeights := ⟨3.0, 3.0, 2.0, 1.0⟩

structure SearchSettings where
  caseSensitive : Bool := false
  prefixMatch : Bool := true
  fuzzyMatch : Bool := false
  combineWith : Combine := .and
  maxResults : Nat := 50
  /-- The allowed edit distance as a fraction of the length of a term. -/
  fuzzyProportion : Float := 0.2
  minPrefixLength : Nat := 2
  weights : FieldWeights := FieldWeights.default
  deriving Repr, BEq

structure IndexSettings where
  /-- Whether CJK text goes through the dictionary segmenter. -/
  cjkPatch : Bool := true
  useHmm : Bool := false
  chunkSize : Nat := 200
  flushThreshold : Nat := 200
  flushCooldownMs : Nat := 1000
  /-- The file name extensions whose content is indexed. -/
  contentExtensions : List String := ["md", "txt"]
  /-- The patterns of vault paths that stay out of the index. -/
  exclude : List String := [".obsidian/**", ".trash/**"]
  saveSnapshot : Bool := true
  deriving Repr, BEq

/-- The context lines and characters of one kind of excerpt. -/
structure TruncateLimit where
  maxPreLines : Nat := 0
  maxPostLines : Nat := 0
  maxPreChars : Nat := 20
  maxPostChars : Nat := 80
  /-- A context line with fewer characters ends a paragraph. -/
  boundaryLineMinChars : Nat := 1
  deriving Repr, DecidableEq

/-- What an excerpt is made for. -/
inductive ExcerptKind where
  | line | paragraph | subItem
  deriving Repr, DecidableEq

/-- The limits of each kind of excerpt. -/
structure TruncateLimits where
  line : TruncateLimit := ⟨0, 0, 20, 80, 1⟩
  paragraph : TruncateLimit := ⟨2, 4, 40, 200, 1⟩
  subItem : TruncateLimit := ⟨0, 0, 10, 60, 1⟩
  deriving Repr, DecidableEq

def TruncateLimits.get (l : TruncateLimits) : ExcerptKind → TruncateLimit
  | .line => l.line
  | .paragraph => l.paragraph
  | .subItem => l.subItem

/-- The limits for narrow scripts and for wide ones, whose characters carry
more each. -/
structure TruncateSettings where
  narrow : TruncateLimits := {}
  wide : TruncateLimits := ⟨⟨0, 0, 10, 40, 1⟩, ⟨2, 4, 20, 100, 1⟩, ⟨0, 0, 5, 30, 1⟩⟩
  deriving Repr, DecidableEq

def TruncateSettings.limit (t : TruncateSettings) (kind : ExcerptKind) (wide : Bool) :
    TruncateLimit :=
  (if wide then t.wide else t.narrow).get kind

structure Config where
  general : GeneralSettings := {}
  search : SearchSettings := {}
  index : IndexSettings := {}
  truncate : TruncateSettings := {}
  deriving Repr, BEq

namespace Config

/-- The exclude patterns that are well formed. -/
def excludePatterns (c : Config) : List (String × Glob) :=
  c.index.exclude.filterMap fun raw => (Glob.parse? raw).map fun g => (raw, g)

/-- Whether a vault path stays out of the index. -/
def shouldExclude (c : Config) (path : String) : Bool :=
  c.excludePatterns.any fun (_, g) => g.accepts path

/-- Whether the content of the file at `path` is indexed: its extension is one
of the listed ones, ASCII case aside. -/
def isContentIndexable (c : Config) (path : String) : Bool :=
  match Text.splitAtLast? '.' path.toList with
  | none => false
  | some (_, ext) =>
    c.index.contentExtensions.any fun e => e.toLower == (String.ofList ext).toLower

/-- The number of the rules by which this library turns text into terms. -/
def tokenizerRevision : Nat := 1

/-- The name of the settings that decide how text becomes terms. -/
def fingerprint (c : Config) : String :=
  s!"r{tokenizerRevision}:cjk={c.index.cjkPatch}:hmm={c.index.useHmm}:case={c.search.caseSensitive}"

end Config

end VaultSearch

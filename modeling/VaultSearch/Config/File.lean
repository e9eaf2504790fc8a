import VaultSearch.Config
import VaultSearch.Config.Reading
import VaultSearch.FileTree
import VaultSearch.Text.Utf8
import VaultSearch.Toml.Document

/-!
# Configuration files

`Config.load` reads the configuration of a file; a file that is not
there stands for the default one. `Config.save` writes a configuration
so that it can be loaded again.
-/

namespace VaultSearch.Config

/-! ## Configurations as TOML

A written configuration has every setting, each group under its own
header; a path that is not set is left out.
-/

open Toml (Value Entries Section)

def number (n : Nat) : Value := .integer n

def texts (ss : List String) : Value := .array (ss.map .string)

/-- The entry of a setting that may be missing. -/
def optionalText (key : String) (s : Option String) : Entries :=
  (s.map fun t => (key, Value.string t)).toList

/-- A limit under the name of its script class and kind. -/
def limitSection (name : String) (l : TruncateLimit) : Section where
  name := s!"truncate.{name}"
  entries :=
    [("max_pre_lines", number l.maxPreLines), ("max_post_lines", number l.maxPostLines),
      ("max_pre_chars", number l.maxPreChars), ("max_post_chars", number l.maxPostChars),
      ("boundary_line_min_chars", number l.boundaryLineMinChars)]

def limitSections (name : String) (l : TruncateLimits) : List Section :=
  [limitSection s!"{name}.line" l.line, limitSection s!"{name}.paragraph" l.paragraph,
    limitSection s!"{name}.sub_item" l.subItem]

/-- The settings in the order in which they are written. -/
def sections (c : Config) : List Section :=
  [{ name := "general"
     entries := optionalText "vault_path" c.general.vaultPath ++
       optionalText "data_path" c.general.dataPath ++
       [("log_level", .string c.general.logLevel)] },
   { name := "search"
     entries :=
       [("case_sensitive", .bool c.search.caseSensitive),
         ("prefix_match", .bool c.search.prefixMatch),
         ("fuzzy_match", .bool c.search.fuzzyMatch),
         ("combine_with", .string c.search.combineWith.name),
         ("max_results", number c.search.maxResults),
         ("fuzzy_proportion", .float c.search.fuzzyProportion),
         ("min_prefix_length", number c.search.minPrefixLength)] },
   { name := "search.weights"
     entries :=
       [("basename", .float c.search.weights.basename),
         ("aliases", .float c.search.weights.aliases),
         ("folder", .float c.search.weights.folder),
         ("content", .float c.search.weights.content)] },
   { name := "index"
     entries :=
       [("cjk_patch", .bool c.index.cjkPatch), ("use_hmm", .bool c.index.useHmm),
         ("chunk_size", number c.index.chunkSize),
         ("flush_threshold", number c.index.flushThreshold),
         ("flush_cooldown_ms", number c.index.flushCooldownMs),
         ("content_extensions", texts c.index.contentExtensions),
         ("exclude", texts c.index.exclude),
         ("save_snapshot", .bool c.index.saveSnapshot)] }] ++
  limitSections "narrow" c.truncate.narrow ++ limitSections "wide" c.truncate.wide

/-- The text of a configuration; `none` if a number is too large to be written. -/
def render? (c : Config) : Option String := Toml.renderSections? c.sections

/-! ## Files -/

/-- The configuration in the bytes of a file. -/
def ofBytes (bytes : List UInt8) : Except Fault Config :=
  match Utf8.decode? bytes with
  | none => .error (.io "stream did not contain valid UTF-8")
  | some text =>
    match parse? text with
    | none => .error (.config "Failed to parse config")
    | some c => .ok c

/-- The configuration in the file at a path. -/
def load (t : FileTree) (path : String) : Except Fault Config :=
  if !t.exists? path then .ok {}
  else match t.read path with
    | .error problem => .error (.io problem.message)
    | .ok bytes => ofBytes bytes

/-- Write a configuration to the file at a path, and make the folders above it. -/
def save (c : Config) (t : FileTree) (path : String) : Except Fault FileTree := do
  let t ← match Path.parent? path with
    | none => pure t
    | some folder =>
      match t.makeFolders? folder with
      | none => .error (.io s!"making {folder}")
      | some t => pure t
  match c.render? with
  | none => .error (.config "Failed to serialize config")
  | some text =>
    match t.write? path (Utf8.encode text) with
    | none => .error (.io s!"writing {path}")
    | some t => .ok t

end VaultSearch.Config

import VaultSearch.Config
import VaultSearch.Toml.Document

/-!
# Configurations from TOML

A setting that the text leaves out has its default value, and a key that
is no setting is passed over. A setting of the wrong kind makes the
whole text no configuration. A group of settings is a table, or a list
of values for the settings in their order. A truncation group given in
part has the defaults of such a group, whatever place it stands in.
-/

namespace VaultSearch.Config

open Toml (Value Entries)

/-- How a setting is read from a value. -/
abbrev Setting (α : Type) := Value → Option α

namespace Setting

def bool : Setting Bool
  | .bool b => some b
  | _ => none

def string : Setting String
  | .string s => some s
  | _ => none

def natural : Setting Nat
  | .integer n => if 0 ≤ n then some n.toNat else none
  | _ => none

/-- A number with or without a fraction. -/
def float : Setting Float
  | .float x => some x
  | .integer n => some (Toml.Scalar.signed (n < 0) (Decimal.nearest n.natAbs 0))
  | _ => none

def strings : Setting (List String)
  | .array vs => vs.mapM string
  | _ => none

def combineNamed (name : String) : Option Combine :=
  if name = "and" then some .and else if name = "or" then some .or else none

/-- A combine mode: its name, or an empty group under its name. -/
def combine : Setting Combine
  | .string s => combineNamed s
  | .table _ [(name, .table _ [])] | .table _ [(name, .array [])]
  | .table _ [(name, .tables [])] => combineNamed name
  | _ => none

end Setting

/-! ## Groups -/

/-- The values of a group of settings by their keys. -/
abbrev Group := String → Option Value

/-- The values of a group whose settings have the given keys, in order. -/
def group? (keys : List String) : Value → Option Group
  | .table _ es => some fun key => List.lookup key es
  | .array vs => some fun key => List.lookup key (keys.zip vs)
  | .tables ts => some fun key => List.lookup key (keys.zip (ts.map (Value.table .header)))
  | .dateTime => some fun _ => none
  | _ => none

/-- A setting of a group. -/
def Group.get {α : Type} (g : Group) (key : String) (setting : Setting α) (default : α) :
    Option α :=
  match g key with
  | none => some default
  | some v => setting v

namespace Setting

def general : Setting GeneralSettings := fun v => do
  let g ← group? ["vault_path", "data_path", "log_level"] v
  let d : GeneralSettings := {}
  let path : Setting (Option String) := fun v => (string v).map some
  return {
    vaultPath := ← g.get "vault_path" path d.vaultPath
    dataPath := ← g.get "data_path" path d.dataPath
    logLevel := ← g.get "log_level" string d.logLevel }

def weights : Setting FieldWeights := fun v => do
  let g ← group? ["basename", "aliases", "folder", "content"] v
  let d := FieldWeights.default
  return {
    basename := ← g.get "basename" float d.basename
    aliases := ← g.get "aliases" float d.aliases
    folder := ← g.get "folder" float d.folder
    content := ← g.get "content" float d.content }

def search : Setting SearchSettings := fun v => do
  let g ← group? ["case_sensitive", "prefix_match", "fuzzy_match", "combine_with", "max_results",
    "fuzzy_proportion", "min_prefix_length", "weights"] v
  let d : SearchSettings := {}
  return {
    caseSensitive := ← g.get "case_sensitive" bool d.caseSensitive
    prefixMatch := ← g.get "prefix_match" bool d.prefixMatch
    fuzzyMatch := ← g.get "fuzzy_match" bool d.fuzzyMatch
    combineWith := ← g.get "combine_with" combine d.combineWith
    maxResults := ← g.get "max_results" natural d.maxResults
    fuzzyProportion := ← g.get "fuzzy_proportion" float d.fuzzyProportion
    minPrefixLength := ← g.get "min_prefix_length" natural d.minPrefixLength
    weights := ← g.get "weights" weights d.weights }

def index : Setting IndexSettings := fun v => do
  let g ← group? ["cjk_patch", "use_hmm", "chunk_size", "flush_threshold", "flush_cooldown_ms",
    "content_extensions", "exclude", "save_snapshot"] v
  let d : IndexSettings := {}
  return {
    cjkPatch := ← g.get "cjk_patch" bool d.cjkPatch
    useHmm := ← g.get "use_hmm" bool d.useHmm
    chunkSize := ← g.get "chunk_size" natural d.chunkSize
    flushThreshold := ← g.get "flush_threshold" natural d.flushThreshold
    flushCooldownMs := ← g.get "flush_cooldown_ms" natural d.flushCooldownMs
    contentExtensions := ← g.get "content_extensions" strings d.contentExtensions
    exclude := ← g.get "exclude" strings d.exclude
    saveSnapshot := ← g.get "save_snapshot" bool d.saveSnapshot }

def truncateLimit : Setting TruncateLimit := fun v => do
  let g ← group? ["max_pre_lines", "max_post_lines", "max_pre_chars", "max_post_chars",
    "boundary_line_min_chars"] v
  let d : TruncateLimit := {}
  return {
    maxPreLines := ← g.get "max_pre_lines" natural d.maxPreLines
    maxPostLines := ← g.get "max_post_lines" natural d.maxPostLines
    maxPreChars := ← g.get "max_pre_chars" natural d.maxPreChars
    maxPostChars := ← g.get "max_post_chars" natural d.maxPostChars
    boundaryLineMinChars :=
      ← g.get "boundary_line_min_chars" natural d.boundaryLineMinChars }

def truncateLimits : Setting TruncateLimits := fun v => do
  let g ← group? ["line", "paragraph", "sub_item"] v
  let d : TruncateLimits := {}
  return {
    line := ← g.get "line" truncateLimit d.line
    paragraph := ← g.get "paragraph" truncateLimit d.paragraph
    subItem := ← g.get "sub_item" truncateLimit d.subItem }

def truncate : Setting TruncateSettings := fun v => do
  let g ← group? ["narrow", "wide"] v
  let d : TruncateSettings := {}
  return {
    narrow := ← g.get "narrow" truncateLimits d.narrow
    wide := ← g.get "wide" truncateLimits d.wide }

end Setting

/-- The configuration that the settings of a document make. -/
def ofEntries? (es : Entries) : Option Config := do
  let g : Group := fun key => List.lookup key es
  let d : Config := {}
  return {
    general := ← g.get "general" Setting.general d.general
    search := ← g.get "search" Setting.search d.search
    index := ← g.get "index" Setting.index d.index
    truncate := ← g.get "truncate" Setting.truncate d.truncate }

/-- The configuration that a text describes. -/
def parse? (text : String) : Option Config := (Entries.parse? text).bind ofEntries?

end VaultSearch.Config

import Std.Data.TreeMap
import VaultSearch.Text.Words

/-!
# File trees

A `FileTree` holds files and folders by location, the list of the names
on the way from the root. `locate` follows a path to a location: each
component but the last has to be a folder, also one that is left again
by `..`. The changes of a tree are those of a file system, and fail when
they fail there.

There are no symbolic links in it, which `LinkedTree` adds, and no file
that is neither a regular one nor a folder. Names are texts: those that
are no UTF-8 are left out.
-/

/-! ## File paths

A path is a text in which `/` separates components. `Path.parts` reads
its components: empty ones and full stops count for nothing, except a
full stop at the very beginning. `Path.relative?` is the part of a path
below a root, and `Path.join` the path of something below it.
-/

namespace VaultSearch.Path

/-- A component of a path. -/
inductive Part where
  | root
  | here
  | up
  | name (text : List Char)
  deriving Repr, DecidableEq

def Part.text : Part → List Char
  | root => ['/']
  | here => ['.']
  | up => ['.', '.']
  | name text => text

def isAbsolute (path : String) : Bool := path.toList.head? = some '/'

/-- The texts between the separators of a path. -/
def pieces (path : String) : List (List Char) := path.toList.splitOnP (· = '/')

/-- The component that a piece stands for, unless it counts for nothing. -/
def Part.ofPiece? (piece : List Char) : Option Part :=
  if piece = [] || piece = ['.'] then none
  else some (if piece = ['.', '.'] then .up else .name piece)

/-- The components of a path. -/
def parts (path : String) : List Part :=
  let lead :=
    if isAbsolute path then [Part.root]
    else if (pieces path).head? = some ['.'] then [Part.here] else []
  lead ++ (pieces path).filterMap Part.ofPiece?

/-- Components as a text. -/
def render (ps : List Part) : String :=
  Text.joinWith "/" (ps.map fun p => String.ofList p.text)

/-- The components of `path` below `root`, if it lies there. -/
def below? (root path : String) : Option (List Part) := (parts root).isPrefixOf? (parts path)

/-- The text of `path` below `root`; `none` for the root and what lies outside. -/
def relative? (root path : String) : Option String :=
  match below? root path with
  | none | some [] => none
  | some ps => some (render ps)

/-- The path of `path` seen from `root`. An absolute path stands for itself. -/
def join (root path : String) : String :=
  if isAbsolute path then path
  else if root.isEmpty || root.toList.getLast? = some '/' then root ++ path
  else root ++ "/" ++ path

/-- The folder that a path lies in, by its components. -/
def parent? (path : String) : Option String :=
  match (parts path).reverse with
  | [] | .root :: _ => none
  | _ :: above =>
    match above.reverse with
    | .root :: rest => some ("/" ++ render rest)
    | ps => some (render ps)

end VaultSearch.Path

/-! ## Trees -/

namespace VaultSearch

/-- The names on the way from the root. -/
abbrev Location := List String

inductive FileNode where
  | file (bytes : List UInt8)
  | folder
  deriving Repr, DecidableEq

/-- Why there is no file at a path. -/
inductive FileProblem where
  | missing
  | isFolder
  /-- The path goes on below a file. -/
  | notFolder
  | tooManyLinks
  deriving Repr, DecidableEq

def FileProblem.message : FileProblem → String
  | missing => "No such file or directory (os error 2)"
  | isFolder => "Is a directory (os error 21)"
  | notFolder => "Not a directory (os error 20)"
  | tooManyLinks => "Too many levels of symbolic links (os error 40)"

structure FileTree where
  entries : Std.TreeMap Location FileNode := {}
  /-- The folder from which relative paths are followed. -/
  here : Location := []

namespace FileTree

/-! ### Looking -/

/-- What lies at a location; the root is always there. -/
def entryAt? (t : FileTree) (at_ : Location) : Option FileNode :=
  if at_ = [] then some .folder else t.entries[at_]?

def isFolderAt (t : FileTree) (at_ : Location) : Bool := t.entryAt? at_ = some .folder

/-- Follow one component from a folder. -/
def follow (t : FileTree) (at_ : Location) (piece : List Char) : Except FileProblem Location :=
  match t.entryAt? at_, Path.Part.ofPiece? piece with
  | none, _ => .error .missing
  | some (.file _), _ => .error .notFolder
  | some .folder, none => .ok at_
  | some .folder, some .up => .ok at_.dropLast
  | some .folder, some p => .ok (at_ ++ [String.ofList p.text])

/-- The folder that a path starts from. -/
def startOf (t : FileTree) (path : String) : Location := if Path.isAbsolute path then [] else t.here

/-- The location of a path, where something may lie or not. -/
def locate (t : FileTree) (path : String) : Except FileProblem Location :=
  if path.isEmpty then .error .missing
  else (Path.pieces path).foldlM t.follow (t.startOf path)

def locate? (t : FileTree) (path : String) : Option Location := (t.locate path).toOption

/-- What lies at a path. -/
def lookup? (t : FileTree) (path : String) : Option FileNode := (t.locate? path).bind t.entryAt?

def exists? (t : FileTree) (path : String) : Bool := (t.lookup? path).isSome

def isFile (t : FileTree) (path : String) : Bool :=
  match t.lookup? path with
  | some (.file _) => true
  | _ => false

def isFolder (t : FileTree) (path : String) : Bool := t.lookup? path = some .folder

/-- The bytes of the file at a location, or why there are none. -/
def readAt (t : FileTree) (at_ : Location) : Except FileProblem (List UInt8) :=
  match t.entryAt? at_ with
  | none => .error .missing
  | some .folder => .error .isFolder
  | some (.file bytes) => .ok bytes

/-- The bytes of a file, or why there are none. -/
def read (t : FileTree) (path : String) : Except FileProblem (List UInt8) := do
  t.readAt (← t.locate path)

/-- The bytes of a file. -/
def read? (t : FileTree) (path : String) : Option (List UInt8) := (t.read path).toOption

/-- What lies below a location, by the way from there. -/
def entriesBelow (t : FileTree) (at_ : Location) : List (Location × FileNode) :=
  t.entries.toList.filterMap fun (l, e) =>
    match at_.isPrefixOf? l with
    | none | some [] => none
    | some way => some (way, e)

/-- The ways from a location to the files below it, ascending. -/
def filesUnder (t : FileTree) (at_ : Location) : List Location :=
  (t.entriesBelow at_).filterMap fun (way, e) =>
    match e with
    | .file _ => some way
    | .folder => none

/-- The ways from a path to the files below it, ascending. -/
def filesBelow (t : FileTree) (path : String) : List Location :=
  match t.locate? path with
  | none => []
  | some at_ => t.filesUnder at_

/-- The names in a folder, ascending. -/
def namesIn (t : FileTree) (path : String) : List String :=
  match t.locate? path with
  | none => []
  | some at_ => (t.entriesBelow at_).filterMap fun (way, _) =>
    match way with
    | [name] => some name
    | _ => none

/-! ### Changing -/

def put (t : FileTree) (at_ : Location) (e : FileNode) : FileTree :=
  { t with entries := t.entries.insert at_ e }

/-- Remove a location and all below it. -/
def cut (t : FileTree) (at_ : Location) : FileTree :=
  { t with entries := t.entries.filter fun l _ => !at_.isPrefixOf l }

/-- Write a file in a folder that is there. -/
def write? (t : FileTree) (path : String) (bytes : List UInt8) : Option FileTree := do
  let at_ ← t.locate? path
  if t.isFolderAt at_ then none else some (t.put at_ (.file bytes))

/-- Follow one component, and make the folder if nothing is there. -/
def enter? (acc : FileTree × Location) (piece : List Char) : Option (FileTree × Location) := do
  let (t, at_) := acc
  let at_ ← (t.follow at_ piece).toOption
  match t.entryAt? at_ with
  | none => some (t.put at_ .folder, at_)
  | some .folder => some (t, at_)
  | some (.file _) => none

/-- Make the folder of a path and all those above it. -/
def makeFolders? (t : FileTree) (path : String) : Option FileTree :=
  ((Path.pieces path).foldlM enter? (t, t.startOf path)).map (·.1)

/-- Remove a file. -/
def removeFile? (t : FileTree) (path : String) : Option FileTree := do
  let at_ ← t.locate? path
  match t.entryAt? at_ with
  | some (.file _) => some (t.cut at_)
  | _ => none

/-- Move what lies at `a` to `b`. It may replace a file by a file and an empty folder
by a folder. -/
def move? (t : FileTree) (a b : Location) : Option FileTree := do
  let e ← t.entryAt? a
  if a = b then some t
  else if a.isPrefixOf b then none
  else
    let fits := match t.entryAt? b, e with
      | none, _ => true
      | some (.file _), .file _ => true
      | some .folder, .folder => (t.entriesBelow b).isEmpty
      | _, _ => false
    if !fits then none
    else
      let moved := t.entriesBelow a
      some (moved.foldl (fun t (way, e) => t.put (b ++ way) e) ((t.cut a).put b e))

/-- Move a file or a folder. -/
def rename? (t : FileTree) (source target : String) : Option FileTree := do
  t.move? (← t.locate? source) (← t.locate? target)

/-- Copy a file onto a file or to where nothing is. -/
def copy? (t : FileTree) (source target : String) : Option FileTree := do
  t.write? target (← t.read? source)

/-- Remove whatever lies at a path. -/
def remove (t : FileTree) (path : String) : FileTree :=
  match t.locate? path with
  | none => t
  | some at_ => t.cut at_

/-- Write a file and make the folders it needs; nothing happens if that fails. -/
def place (t : FileTree) (path : String) (bytes : List UInt8) : FileTree :=
  let t := ((Path.parent? path).bind t.makeFolders?).getD t
  (t.write? path bytes).getD t

end FileTree

end VaultSearch

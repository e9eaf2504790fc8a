import VaultSearch.FileTree
import VaultSearch.Source
import VaultSearch.Text.Utf8

/-!
# Vaults on files

A vault is a folder of a file system. Its documents are the files below
the folder, named by their paths from there, except those that the
configuration excludes. A file whose extension is not that of a text is
a document without content. Bytes that are no UTF-8 are read as
replacement characters.

What is looked up at a path follows symbolic links where there are any
(`LinkedTree`), and what is listed below one does not.
-/

namespace VaultSearch

/-- What is asked of files and folders. -/
class FileSystem (F : Type) where
  isFile : F → String → Bool
  exists? : F → String → Bool
  /-- The bytes of a file, or why there are none. -/
  read : F → String → Except FileProblem (List UInt8)
  /-- The ways from a path to the files below it, ascending. -/
  filesBelow : F → String → List Location

instance : FileSystem FileTree where
  isFile := FileTree.isFile
  exists? := FileTree.exists?
  read := FileTree.read
  filesBelow := FileTree.filesBelow

namespace FileTree

variable (t : FileTree) (path : String)

@[simp]
theorem fileSystem_isFile : FileSystem.isFile t path = t.isFile path := rfl

@[simp]
theorem fileSystem_exists? : FileSystem.exists? t path = t.exists? path := rfl

@[simp]
theorem fileSystem_read : FileSystem.read t path = t.read path := rfl

@[simp]
theorem fileSystem_filesBelow : FileSystem.filesBelow t path = t.filesBelow path := rfl

end FileTree

structure VaultFolder where
  root : String
  config : Config

namespace VaultFolder

/-- The file path of a vault path. -/
def resolve (v : VaultFolder) (path : String) : String := Path.join v.root path

/-- The vault path of a file path inside the vault. -/
def relative? (v : VaultFolder) (path : String) : Option String := Path.relative? v.root path

variable {F : Type} [FileSystem F]

def content (v : VaultFolder) (t : F) (path : String) : Except SourceFault String :=
  match FileSystem.read t (v.resolve path) with
  | .error problem => .error (.io problem.message)
  | .ok bytes => .ok (Utf8.decodeLossy bytes)

def read (v : VaultFolder) (t : F) (path : String) : Except SourceFault Document :=
  if !FileSystem.isFile t (v.resolve path) then .error (.fault (.documentNotFound path))
  else if !v.config.isContentIndexable path then .ok (Document.ofPath path none none)
  else (v.content t path).map (Document.ofText path)

/-- A way from the root of the vault as a vault path. -/
def pathOfWay (way : Location) : String := Text.joinWith "/" way

/-- The paths of the documents, ascending. -/
def list (v : VaultFolder) (t : F) : List String :=
  let patterns := v.config.excludePatterns
  let paths := (FileSystem.filesBelow t v.root).map pathOfWay
  (paths.filter fun p => !patterns.any fun (_, g) => g.accepts p).mergeSort fun a b => a ≤ b

/-- The documents of the vault in a state of the file system. -/
def toSource (v : VaultFolder) (t : F) : Source := ⟨v.read t, v.content t, .ok (v.list t)⟩

end VaultFolder

end VaultSearch

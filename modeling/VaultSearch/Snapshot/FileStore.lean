import VaultSearch.FileTree
import VaultSearch.Snapshot

/-!
# Snapshots on files

The store keeps the current blob in one file of a folder and the blob
before it in another. A blob is written to a third file first and then
moved into place. `saveSteps` lists the file operations of a save one by
one, so that one can ask what a save leaves behind that is cut short.
-/

namespace VaultSearch

/-- One operation on files. -/
inductive FileStep where
  | makeFolders (path : String)
  | write (path : String) (bytes : List UInt8)
  | removeFile (path : String)
  | rename (source target : String)
  deriving Repr, DecidableEq

def FileStep.run? (t : FileTree) : FileStep → Option FileTree
  | makeFolders path => t.makeFolders? path
  | write path bytes => t.write? path bytes
  | removeFile path => t.removeFile? path
  | rename source target => t.rename? source target

/-- A store in the folder `dir` of a file tree. -/
structure FileStore where
  tree : FileTree
  dir : String

namespace FileStore

def currentPath (s : FileStore) : String := Path.join s.dir "quarry.snap"

def backupPath (s : FileStore) : String := Path.join s.dir "quarry.snap.bak"

def tempPath (s : FileStore) : String := Path.join s.dir "quarry.snap.tmp"

def hasCurrent (s : FileStore) : Bool := s.tree.exists? s.currentPath

/-- The number of bytes of the current blob. -/
def size? (s : FileStore) : Option Nat := (s.tree.read? s.currentPath).map List.length

/-- The current blob. -/
def load (s : FileStore) : Except Fault (Option Blob) :=
  if !s.hasCurrent then .ok none
  else match s.tree.read s.currentPath with
    | .error problem => .error (.io problem.message)
    | .ok blob => .ok (some blob)

/-- Run operations in turn, up to one that fails and may not. -/
def runSteps : List (Bool × FileStep) → FileTree → Except Fault Unit × FileTree
  | [], t => (.ok (), t)
  | (optional, step) :: rest, t =>
    match step.run? t with
    | some t => runSteps rest t
    | none => if optional then runSteps rest t else (.error (.io "saving the snapshot"), t)

/-- The operations that bring a blob into the folder, beside the current one. -/
def writeSteps (s : FileStore) (blob : Blob) : List (Bool × FileStep) :=
  [(false, .makeFolders s.dir), (false, .write s.tempPath blob)]

/-- The operations that put the new blob in the place of the current one, if there is one. -/
def moveSteps (s : FileStore) (replaces : Bool) : List (Bool × FileStep) :=
  (if replaces then
    [(true, .removeFile s.backupPath), (true, .rename s.currentPath s.backupPath)]
  else []) ++ [(false, .rename s.tempPath s.currentPath)]

/-- The operations of a save, each with whether the save goes on if it fails. Whether
there is a current blob is asked once the new one is written. -/
def saveSteps (s : FileStore) (blob : Blob) : List (Bool × FileStep) :=
  s.writeSteps blob ++
    s.moveSteps ((runSteps (s.writeSteps blob) s.tree).2.exists? s.currentPath)

/-- Make `blob` the current one, and the current one the backup. -/
def save (blob : Blob) (s : FileStore) : Except Fault Unit × FileStore :=
  let (r, tree) := runSteps (s.saveSteps blob) s.tree
  (r, { s with tree })

/-- Remove a file if something is there. -/
def removeIfThere (t : FileTree) (path : String) : Option FileTree :=
  if t.exists? path then t.removeFile? path else some t

/-- Remove the files at the paths in turn, up to one that cannot be removed. -/
def removeEach : List String → FileTree → Except Fault Unit × FileTree
  | [], t => (.ok (), t)
  | path :: rest, t =>
    match removeIfThere t path with
    | some t => removeEach rest t
    | none => (.error (.io FileProblem.isFolder.message), t)

/-- Remove the current blob, the backup and what a save has left behind. -/
def clear (s : FileStore) : Except Fault Unit × FileStore :=
  let (r, tree) := removeEach [s.currentPath, s.backupPath, s.tempPath] s.tree
  (r, { s with tree })

/-- Make the backup the current blob, and keep it; `none` without a backup. -/
def restore (s : FileStore) : Except Fault (Option Blob) × FileStore :=
  if !s.tree.exists? s.backupPath then (.ok none, s)
  else if !s.tree.isFile s.backupPath then
    (.error (.io "the source path is neither a regular file nor a symlink to a regular file"), s)
  else match s.tree.copy? s.backupPath s.currentPath with
    | none => (.error (.io FileProblem.isFolder.message), s)
    | some tree => (.ok (tree.read? s.backupPath), { s with tree })

/-- The operations that bring the files of the store to their state from `before`, the
state of the file tree before. -/
def stepsFrom (s : FileStore) (before : FileTree) : List FileStep :=
  let removals := [s.tempPath, s.backupPath, s.currentPath].filter fun path =>
    before.exists? path && !s.tree.exists? path
  let writes := [s.backupPath, s.currentPath].flatMap fun path =>
    match s.tree.read? path with
    | none => []
    | some bytes =>
      if before.read? path = some bytes then []
      else [.makeFolders s.dir, .write s.tempPath bytes, .rename s.tempPath path]
  removals.map .removeFile ++ writes

instance : SnapshotStore FileStore := ⟨load, save, clear⟩

end FileStore

end VaultSearch

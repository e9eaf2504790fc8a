import VaultSearch.Curator
import VaultSearch.VaultFolder

/-!
# Watching a vault

A watcher of the file system reports events. `translate` says which
changes of the vault an event stands for, given the files as they are
when it is handled: a folder stands for the files below it, and paths
that lie outside the vault or are excluded drop out. Each half of a move
that stands alone counts as a creation or a deletion. `pump` hands the
changes of a series of events to a curator.
-/

namespace VaultSearch.Watch

/-- What an event says about its paths. -/
inductive EventKind where
  | created
  | removed
  /-- The first path was moved to the second. -/
  | moved
  | movedHere
  | movedAway
  /-- One half of a move, it is not known which. -/
  | movedSomehow
  | written
  | other
  deriving Repr, DecidableEq

structure Event where
  kind : EventKind
  paths : List String
  deriving Repr, DecidableEq

section Changes

variable {F : Type} [FileSystem F]

/-- The file at a path, or the files below it. -/
def filesAt (t : F) (path : String) : List String :=
  if FileSystem.isFile t path then [path]
  else (FileSystem.filesBelow t path).map fun way => Path.join path (VaultFolder.pathOfWay way)

/-- The changes for files that have come to be at a path. -/
def appeared (v : VaultFolder) (t : F) (path : String) : List Change :=
  ((filesAt t path).filterMap v.relative?).map (⟨·, .created⟩)

/-- The old path of a file that lies at `file` since `target` was moved there from
`old`. -/
def oldPath? (old target file : String) : Option String :=
  match Path.below? target file with
  | none => none
  | some [] => some old
  | some ps => some (old ++ "/" ++ Path.render ps)

/-- The changes for a move. -/
def moved (v : VaultFolder) (t : F) (source target : String) : List Change :=
  match v.relative? source, v.relative? target with
  | some old, some _ => (filesAt t target).filterMap fun file => do
      let path ← v.relative? file
      let old ← oldPath? old target file
      some ⟨path, .renamed old⟩
  | none, some _ => appeared v t target
  | some old, none => [⟨old, .deleted⟩]
  | none, none => []

/-- The change for a path where nothing is any more. -/
def gone (v : VaultFolder) (path : String) : List Change :=
  (v.relative? path).toList.map (⟨·, .deleted⟩)

/-- The changes for an event, excluded paths included. -/
def changesOf (v : VaultFolder) (t : F) (e : Event) : List Change :=
  match e.kind with
  | .moved =>
    match e.paths with
    | [source, target] => moved v t source target
    | _ => []
  | .created | .movedHere => e.paths.flatMap (appeared v t)
  | .removed | .movedAway => e.paths.flatMap (gone v)
  | .movedSomehow =>
    e.paths.flatMap fun p => if FileSystem.exists? t p then appeared v t p else gone v p
  | .written =>
    ((e.paths.filter (FileSystem.isFile t)).filterMap v.relative?).map (⟨·, .modified⟩)
  | .other => []

/-- Whether a change counts: a move also counts for its old path. -/
def counts (c : Config) (change : Change) : Bool :=
  match change.kind with
  | .renamed _ => true
  | _ => !c.shouldExclude change.path

/-- The changes of the vault that an event stands for. -/
def translate (v : VaultFolder) (t : F) (e : Event) : List Change :=
  (changesOf v t e).filter (counts v.config)

end Changes

/-- The events that make the files below `root` what they are in `new` from what they
are in `old`. -/
def differences (root : String) (old new : FileTree) : List Event :=
  let files (t : FileTree) := (t.filesBelow root).map fun way =>
    Path.join root (VaultFolder.pathOfWay way)
  let removed := (files old).filter fun path => !new.isFile path
  let created := (files new).filter fun path => !old.isFile path
  let written := (files new).filter fun path => old.isFile path && old.read? path != new.read? path
  ([⟨.removed, removed⟩, ⟨.created, created⟩, ⟨.written, written⟩] : List Event).filter
    fun e => !e.paths.isEmpty

variable {σ F : Type} [SnapshotStore σ] [FileSystem F]

/-- Report an event. -/
def handle (v : VaultFolder) (t : F) (m : Curator σ) (e : Event) : Curator σ :=
  (translate v t e).foldl Curator.notify m

/-- Report the events of a watcher up to its end, and apply what is left; `none`
is a failure of the watcher, which is passed over. The events come close together:
that what waits is also applied once none has come for a while is left out, and so
are changes of the files from one event to the next. -/
def pump (v : VaultFolder) (t : F) (m : Curator σ) (events : List (Option Event)) :
    Curator σ :=
  (((events.filterMap id).foldl (handle v t) m).flush (v.toSource t)).1

end VaultSearch.Watch

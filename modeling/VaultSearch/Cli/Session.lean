import VaultSearch.Config.File
import VaultSearch.Curator
import VaultSearch.Snapshot.FileStore
import VaultSearch.VaultFolder
import VaultSearch.Watch

/-!
# Sessions

A `Session` is a vault with its configuration, its snapshot store and a
curator for its index. `Session.new` finds the vault and the store: the
arguments come before the configuration, and that before what the
surroundings of the program suggest.
-/

namespace VaultSearch.Cli

/-- What the program finds around it: the files, the folders that are meant for
configurations and for data, and the vault that the environment names. -/
structure Surroundings where
  tree : FileTree
  configHome : Option String := none
  dataHome : Option String := none
  vault : Option String := none

namespace Surroundings

/-- The working directory. -/
def workingFolder (w : Surroundings) : String := "/" ++ VaultFolder.pathOfWay w.tree.here

/-- The file that holds the configuration; `given` is what the arguments name. -/
def configPath (w : Surroundings) (given : Option String) : Except Fault String :=
  match given, w.configHome with
  | some path, _ => .ok path
  | none, some home => .ok (Path.join home "quarry/quarry.toml")
  | none, none => .error (.config "Could not determine config directory")

/-- The folder of the snapshots. -/
def dataFolder (w : Surroundings) (c : Config) : Except Fault String :=
  match c.general.dataPath, w.dataHome with
  | some path, _ => .ok path
  | none, some home => .ok (Path.join home "quarry")
  | none, none => .error (.config "Could not determine data directory")

/-- The folder of the vault; `given` is what the arguments name. -/
def vaultFolder (w : Surroundings) (c : Config) (given : Option String) : String :=
  ((given.or c.general.vaultPath).getD w.workingFolder)

end Surroundings

structure Session where
  folder : VaultFolder
  curator : Curator FileStore

namespace Session

/-- A session in which nothing is loaded yet, or the reason why there is none. There
is no dictionary for the words of CJK texts. -/
def new (w : Surroundings) (c : Config) (given : Option String) : Except String Session :=
  let vault := w.vaultFolder c given
  if !w.tree.isFolder vault then .error s!"Vault directory not found: {vault}"
  else match w.dataFolder c with
    | .error f => .error f.message
    | .ok dir => .ok ⟨⟨vault, c⟩, Curator.new c none ⟨w.tree, dir⟩⟩

def config (s : Session) : Config := s.folder.config

def store (s : Session) : FileStore := s.curator.store

def tree (s : Session) : FileTree := s.store.tree

/-- The documents of the vault as they are. -/
def source (s : Session) : Source := s.folder.toSource s.tree

/-- Load the index or build it, and count its documents. -/
def start (s : Session) : Except Fault Nat × Session :=
  let (r, curator) := s.curator.start s.source
  (r, { s with curator })

/-- Build the index anew, and count its documents. -/
def rebuild (s : Session) : Except Fault Nat × Session :=
  let (r, curator) := s.curator.rebuild s.source
  (r, { s with curator })

/-- Go on with other files in the vault, of which `events` tell, and apply all
changes. -/
def follow (s : Session) (t : FileTree) (events : List Watch.Event) : Session :=
  let curator := { s.curator with store := { s.store with tree := t } }
  { s with curator := Watch.pump s.folder t curator (events.map some) }

end Session

end VaultSearch.Cli

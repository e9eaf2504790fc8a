import Std.Time.Format
import VaultSearch.Cli.Run

/-!
# The program

The outer layer of the command line: it brings the files that a command
may look at into a file tree, runs the command on the tree, prints what
the command says and writes the changed snapshots back. A watch reads
the vault again after each pause and tells the session what has changed.
-/

namespace VaultSearch.Cli

/-! ## Files -/

/-- The tree with the file at a path, if it can be read. -/
def withFile (t : FileTree) (path : String) : IO FileTree := do
  try return t.place path (← IO.FS.readBinFile path).toList catch _ => return t

/-- The tree with a folder and all that lies below it. Links are not followed. -/
partial def withFolder (t : FileTree) (path : String) : IO FileTree := do
  try
    let entries ← (← IO.FS.realPath path).readDir
    let t := (t.makeFolders? path).getD t
    entries.foldlM (fun t entry => do
      let inner := Path.join path entry.fileName
      match (← entry.path.symlinkMetadata).type with
      | .dir => withFolder t inner
      | .file => withFile t inner
      | _ => return t) t
  catch _ => return t

def perform : FileStep → IO Unit
  | .makeFolders path => IO.FS.createDirAll path
  | .write path bytes => IO.FS.writeBinFile path ⟨bytes.toArray⟩
  | .removeFile path => IO.FS.removeFile path
  | .rename source target => IO.FS.rename source target

/-- Write the snapshots that differ from those of an earlier tree. -/
def writeBack (dir : String) (before after : FileTree) : IO Unit := do
  for step in (FileStore.stepsFrom ⟨after, dir⟩ before) do
    perform step

/-! ## Surroundings -/

/-- A folder of the user: the one that a variable names by an absolute path, or the
one with a usual name in the home folder. -/
def userFolder (name usual : String) : IO (Option String) := do
  match ← IO.getEnv name with
  | some path => if Path.isAbsolute path then return some path else inHome
  | none => inHome
where
  /-- The folder in the home folder. -/
  inHome : IO (Option String) := do
    return (← IO.getEnv "HOME").map fun home => Path.join home usual

def surroundings : IO Surroundings := do
  let here := (← IO.currentDir).toString
  let root : FileTree := {}
  let t := (root.makeFolders? here).getD root
  return {
    tree := { t with here := (t.locate? here).getD [] }
    configHome := ← userFolder "XDG_CONFIG_HOME" ".config"
    dataHome := ← userFolder "XDG_DATA_HOME" ".local/share"
    vault := ← IO.getEnv "QUARRY_VAULT" }

/-- The surroundings with the files that an invocation may look at. -/
def gather (w : Surroundings) (i : Invocation) : IO Surroundings := do
  let tree ← match w.configPath i.configPath with
    | .error _ => pure w.tree
    | .ok path => withFile w.tree path
  let w := { w with tree }
  match configOf w i with
  | .error _ => return w
  | .ok c =>
    let tree ← match i.command with
      | .clear _ => pure w.tree
      | _ => withFolder w.tree (w.vaultFolder c i.vault)
    match w.dataFolder c with
    | .error _ => return { w with tree }
    | .ok dir => return { w with tree := ← withFolder tree dir }

/-! ## Running -/

/-- What the clocks say, for work that has begun at `start`. -/
def readClock (start : Nat) : IO Clock := do
  let elapsed := (← IO.monoMsNow) - start
  let now := Std.Time.PlainDateTime.ofWallTime
    ((← Std.Time.Timestamp.now).toWallTime Std.Time.TimeZone.Offset.zero)
  return ⟨elapsed.toFloat / 1000, now.format "uuuu-MM-dd HH:mm:ss"⟩

/-- The end of a command: print its rows and write its snapshots. -/
def finish (start : Nat) (dir : Option String) (before : FileTree) (o : Outcome) : IO UInt32 := do
  let clock ← readClock start
  if let some dir := dir then writeBack dir before o.tree
  for row in o.out do
    IO.println (row clock)
  for row in o.err do
    IO.eprintln (row clock)
  return o.code.toUInt32

/-- Watch a vault for ever. -/
partial def watch (s : Session) (idleMs : Nat) : IO UInt32 := do
  IO.sleep idleMs.toUInt32
  let vault := s.folder.root
  let t ← withFolder (s.tree.remove vault) vault
  let t ← withFolder t s.store.dir
  let events := Watch.differences vault s.tree t
  if events.isEmpty then watch s idleMs
  else
    let followed := s.follow t events
    writeBack s.store.dir t followed.tree
    watch followed idleMs

/-- Run the program with arguments. -/
def runProgram (args : List String) : IO UInt32 := do
  let start ← IO.monoMsNow
  let w ← surroundings
  let (w, dir) ← match Invocation.parse w.vault args with
    | .error _ => pure (w, none)
    | .ok i => do
      let w ← gather w i
      pure (w, ((configOf w i).bind w.dataFolder).toOption)
  match run w args with
  | .done o => finish start dir w.tree o
  | .ask prompt answered =>
    IO.print prompt
    (← IO.getStdout).flush
    let answer ← (← IO.getStdin).getLine
    finish start dir w.tree (answered answer)
  | .watch s documents idleMs =>
    if let some dir := dir then writeBack dir w.tree s.tree
    for row in watchBanner s documents do
      IO.println row
    (← IO.getStdout).flush
    watch s idleMs

end VaultSearch.Cli

/-- Run the program with the arguments of its command line. -/
def main (args : List String) : IO UInt32 := VaultSearch.Cli.runProgram args

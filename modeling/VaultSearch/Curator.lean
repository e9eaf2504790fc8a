import VaultSearch.Buffer
import VaultSearch.Engine
import VaultSearch.Lines.Excerpt
import VaultSearch.Query
import VaultSearch.Snapshot
import VaultSearch.Source

/-!
# The curator

A curator keeps the index of a vault in step with its documents. Reports
of changes wait in a buffer as operations, one for each path; a flush
applies them in the order of their times. A document is read when its
operation is applied, and one that cannot be read is passed over. After
a flush or a rebuild the index is saved if the configuration asks for
it, and a save that fails changes nothing else.

The curator holds no documents: each operation that reads some is given
the source as it is at that moment.
-/

namespace VaultSearch

/-- A row of a list of results: a file, or a line of it. -/
inductive Item (S : Type) where
  | file (hit : Hit S)
  | line (path : String) (line : MatchedLine S)

def Item.path {S : Type} : Item S → String
  | file hit => hit.path
  | line path _ => path

/-- `σ` is the type of the states of the snapshot store. -/
structure Curator (σ : Type) where
  engine : Engine
  buffer : Buffer Operation
  store : σ
  /-- The time of the next operation. -/
  clock : Nat := 0

namespace Curator

variable {σ : Type} [SnapshotStore σ] [Packing]

/-- A curator with an empty index. -/
def new (c : Config) (segmenter : Option Segmenter) (store : σ) : Curator σ :=
  { engine := Engine.new c segmenter
    buffer := { threshold := c.index.flushThreshold }
    store }

def config (m : Curator σ) : Config := m.engine.config

/-- The number of operations that wait. -/
def pending (m : Curator σ) : Nat := m.buffer.size

/-! ## Applying operations -/

/-- Add the documents read so far. -/
def addRead (e : Engine) (docs : List Document) : Engine :=
  if docs.isEmpty then e else (e.add docs).1

/-- Apply one operation to an engine with documents that are still to be added. -/
def applyOne (src : Source) (acc : Engine × List Document) : Operation → Engine × List Document
  | .add path source _ =>
    match src.readAs? path source with
    | none => acc
    | some d => ((acc.1.delete [path]).1, acc.2 ++ [d])
  | .delete path _ => (((addRead acc.1 acc.2).delete [path]).1, [])

/-- Apply operations in the order of their times. -/
def applyAll (src : Source) (e : Engine) (batch : List Operation) : Engine :=
  let ordered := batch.mergeSort fun a b => a.time ≤ b.time
  let (e, docs) := ordered.foldl (applyOne src) (e, [])
  addRead e docs

/-- Save the index. -/
def save (m : Curator σ) : Except Fault Unit × Curator σ :=
  let (r, store) := SnapshotStore.save m.engine.serialize m.store
  (r, { m with store })

/-- Save the index if the configuration asks for it, and go on if that fails. -/
def autosave (m : Curator σ) : Curator σ :=
  if m.config.index.saveSnapshot then m.save.2 else m

/-- Apply a batch taken from the buffer; an empty one does nothing. -/
def applyBatch (m : Curator σ) (src : Source) (batch : List (String × Operation)) : Curator σ :=
  if batch.isEmpty then m
  else { m with engine := applyAll src m.engine (batch.map Prod.snd) }.autosave

/-- Apply all operations that wait, and count them. -/
def flush (m : Curator σ) (src : Source) : Curator σ × Nat :=
  let (batch, buffer) := m.buffer.drain
  ({ m with buffer }.applyBatch src batch, batch.length)

/-- The flush that is due, if one is. -/
def settle (m : Curator σ) (src : Source) : Curator σ :=
  let (batch, buffer) := m.buffer.settle
  { m with buffer }.applyBatch src batch

/-! ## Reports of changes -/

/-- Put an operation into the buffer at the next time. -/
def enqueue (m : Curator σ) (op : Nat → Operation) : Curator σ :=
  let op := op m.clock
  { m with buffer := m.buffer.insert op.path op, clock := m.clock + 1 }

/-- Delete a file, or every indexed file of a folder. -/
def enqueueDelete (m : Curator σ) (path : String) : Curator σ :=
  let under := if m.engine.contains path then [] else m.engine.pathsUnder path
  (if under.isEmpty then [path] else under).foldl (fun m p => m.enqueue (.delete p)) m

/-- Queue what a change means for the index. A new path that is excluded counts
only as the end of its old one. -/
def notify (m : Curator σ) (c : Change) : Curator σ :=
  let m := match c.kind with
    | .renamed source => m.enqueueDelete source
    | _ => m
  if m.config.shouldExclude c.path then m
  else match c.kind with
    | .deleted => m.enqueueDelete c.path
    | _ => m.enqueue (.add c.path c.path)

/-! ## Building the index -/

/-- Build the index anew from the source, and count its documents. -/
def rebuild (m : Curator σ) (src : Source) : Except Fault Nat × Curator σ :=
  match src.list with
  | .error e => (.error e.toFault, m)
  | .ok paths =>
    let (engine, n) := m.engine.reindex (src.readAll paths)
    (.ok n, { m with engine }.autosave)

/-- Take the index from the store, or else build it anew. -/
def start (m : Curator σ) (src : Source) : Except Fault Nat × Curator σ :=
  match SnapshotStore.load m.store with
  | .error _ | .ok none => m.rebuild src
  | .ok (some blob) =>
    let (engine, r) := m.engine.load blob
    match r with
    | .ok n => (.ok n, { m with engine })
    | .error f =>
      if f.requiresReindex then { m with engine }.rebuild src
      else (.error f, { m with engine })

/-! ## Searching -/

section Search

variable {S : Type} [Score S]

/-- What a raw query asks for; `none` for a blank one. -/
def ask? (m : Curator σ) (raw : String) (combine : Option Combine) :
    Option (String × SearchOptions) :=
  let s := m.config.search
  let q := Query.parse (Toggles.ofConfig s) raw
  if (Text.trim q.text.toList).isEmpty then none
  else
    some (q.text,
      ((SearchOptions.ofConfig s).withToggles q.toggles).withCombine (combine.getD s.combineWith))

/-- The ranked hits of a raw query; `combine` overrides the configured mode. -/
def search (m : Curator σ) (raw : String) (combine : Option Combine) :
    Except Fault (List (Hit S)) :=
  match m.ask? raw combine with
  | none => .ok []
  | some (text, o) => m.engine.search text o

/-- The best lines of a file for a raw query; none if the file is no hit. -/
def lines (m : Curator σ) (src : Source) (path raw : String) (count : Nat)
    (combine : Option Combine) : Except Fault (List (MatchedLine S)) :=
  match m.ask? raw combine with
  | none => .ok []
  | some (text, o) => do
    match ← m.engine.matchDocument (S := S) path text o with
    | none => .ok []
    | some hit =>
      match src.content path with
      | .error e => .error e.toFault
      | .ok content =>
        .ok ((LinesMatcher.ofConfig m.config).matchLines (Line.split content) hit.queryTerms
          hit.matchedTerms count .line o.prefixMatch)

/-- The hits of a raw query, each followed by its best lines. A file whose lines
cannot be matched stands alone. -/
def items (m : Curator σ) (src : Source) (raw : String) (count : Nat)
    (combine : Option Combine) : Except Fault (List (Item S)) := do
  let hits ← m.search raw combine
  .ok (hits.flatMap fun hit =>
    let lines := if count = 0 then .ok [] else m.lines src hit.path raw count combine
    .file hit :: (lines.toOption.getD []).map (.line hit.path))

end Search

end Curator

end VaultSearch

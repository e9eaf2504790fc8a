import VaultSearch.Index
import VaultSearch.Search
import VaultSearch.Snapshot
import VaultSearch.Tokenizer

/-!
# The engine

The engine owns the index of one vault: the index proper, the slot of
each path, and a phase that keeps searches out while the index is
rebuilt. Each change is a list of `Step`s, the points between which a
search may look at the engine; `Engine.run` applies them one after the
other. A search under way sees the engine between two steps.
-/

namespace VaultSearch

/-- Where the index stands in its life. -/
inductive Phase where
  | empty | indexing | ready
  deriving Repr, DecidableEq

def Phase.name : Phase → String
  | empty => "empty"
  | indexing => "indexing"
  | ready => "ready"

/-- The slot of each indexed path. -/
abbrev Slots := Std.TreeMap String Nat

/-- What a snapshot holds of an index, and how an index is read from it. Both are the work of
libraries, a serializer and a compressor, and nothing is assumed of them here. -/
class Packing where
  pack : Index → List UInt8
  unpack : List UInt8 → Except Rejection Index

/-- The compressed binary form of an index. -/
instance : Packing where
  pack := Snapshot.pack Index.codec
  unpack := Snapshot.unpack Index.codec

structure Engine where
  config : Config
  tokenizer : Tokenizer
  phase : Phase := .empty
  index : Index := {}
  slots : Slots := {}
  /-- Whether the index was changed since the engine was made. -/
  updated : Bool := false

namespace Engine

/-- An engine without documents. -/
def new (c : Config) (segmenter : Option Segmenter) : Engine :=
  { config := c, tokenizer := Tokenizer.ofConfig c segmenter }

/-! ## Observations -/

/-- Searches are answered unless a rebuild is in progress. -/
def isReady (e : Engine) : Bool := e.phase ≠ .indexing

def size (e : Engine) : Nat := e.slots.size

def contains (e : Engine) (path : String) : Bool := e.slots.contains path

/-- The text that begins every path inside the folder `dir`. -/
def folderLead (dir : String) : List Char :=
  (dir.toList.reverse.dropWhile (· = '/')).reverse ++ ['/']

/-- The indexed paths inside a folder, ascending. -/
def pathsUnder (e : Engine) (dir : String) : List String :=
  e.slots.keys.filter fun p => (folderLead dir).isPrefixOf p.toList

structure Stats where
  documents : Nat
  terms : Nat
  phase : Phase
  updated : Bool
  deriving Repr, DecidableEq

def stats (e : Engine) : Stats := ⟨e.index.live, e.index.postings.size, e.phase, e.updated⟩

/-! ## Analysis -/

/-- The terms of a text, distinct and ascending: its tokens, in lower case
unless case counts. -/
def terms (e : Engine) (text : String) : List String :=
  let tokens := e.tokenizer.tokenize text
  if e.config.search.caseSensitive then tokens
  else Text.distinctSorted (tokens.map Text.lowercase)

/-- A document with its fields cut into terms. -/
def analyse (e : Engine) (d : Document) : Analysed :=
  ⟨d.path, PerField.of fun f => (d.text? f).elim [] e.terms⟩

/-- Whether the analysis of a text asks the segmenter. -/
def consultsFor (e : Engine) (text : String) : Bool :=
  (Tokenizer.segments text.toList).any e.tokenizer.consults

/-! ## Steps -/

/-- One step of a change to the engine. -/
inductive Step where
  | enter (phase : Phase)
  | clearIndex
  | clearSlots
  | addChunk (docs : List Document)
  | setSlots (slots : Slots)
  | setIndex (index : Index)
  | touch

/-- Give a document the next slot. -/
def insertDocument (e : Engine) (d : Document) : Engine :=
  { e with
    index := e.index.insert (e.analyse d)
    slots := e.slots.insert d.path e.index.docs.size }

def step (e : Engine) : Step → Engine
  | .enter phase => { e with phase }
  | .clearIndex => { e with index := {} }
  | .clearSlots => { e with slots := {} }
  | .addChunk docs => docs.foldl insertDocument e
  | .setSlots slots => { e with slots }
  | .setIndex index => { e with index }
  | .touch => { e with updated := true }

def run (e : Engine) (steps : List Step) : Engine := steps.foldl step e

/-! ## Adding and deleting -/

/-- The documents of a list whose path is not among `seen`, the first of each
path. -/
def freshDocuments (seen : String → Bool) (docs : List Document) : List Document :=
  (docs.foldl (fun (acc : Std.TreeSet String × List Document) d =>
    if seen d.path || acc.1.contains d.path then acc
    else (acc.1.insert d.path, d :: acc.2)) ({}, [])).2.reverse

/-- A list cut into blocks of `n` elements, the last one perhaps shorter. -/
def chunks {α : Type} (n : Nat) : List α → List (List α)
  | [] => []
  | a :: rest => (a :: rest.take (n - 1)) :: chunks n (rest.drop (n - 1))
termination_by l => l.length
decreasing_by
  simp only [List.length_drop, List.length_cons]
  omega

/-- The steps that take in `docs`, none of which is indexed. -/
def insertSteps (e : Engine) (docs : List Document) : List Step :=
  (chunks (max e.config.index.chunkSize 1) docs).map Step.addChunk ++
    if docs.isEmpty then [] else [.touch]

/-- The steps that add those of `docs` that are not indexed. -/
def addSteps (e : Engine) (docs : List Document) : List Step :=
  e.insertSteps (freshDocuments e.contains docs) ++
    if e.phase = .empty then [.enter .ready] else []

/-- Add the documents whose path is not indexed, and list their paths. -/
def add (e : Engine) (docs : List Document) : Engine × List String :=
  (e.run (e.addSteps docs), (freshDocuments e.contains docs).map (·.path))

/-- Remove one path; unknown paths change nothing. -/
def deleteOne (acc : Engine × List String) (path : String) : Engine × List String :=
  match acc.1.slots[path]? with
  | none => acc
  | some slot =>
    let e := { acc.1 with slots := acc.1.slots.erase path, index := acc.1.index.remove slot }
    match acc.1.index.entry? slot with
    | none => (e, acc.2)
    | some entry => (e, entry.path :: acc.2)

/-- Remove the documents at the listed paths, and list those removed. -/
def delete (e : Engine) (paths : List String) : Engine × List String :=
  let (e, removed) := paths.foldl deleteOne (e, [])
  (if removed.isEmpty then e else { e with updated := true }, removed.reverse)

/-! ## Rebuilding -/

/-- The steps that begin a rebuild: searches are kept out and all is cleared. -/
def clearSteps : List Step := [.enter .indexing, .clearIndex, .clearSlots]

/-- The steps that replace the index by one of `docs`. -/
def reindexSteps (e : Engine) (docs : List Document) : List Step :=
  clearSteps ++ e.insertSteps (freshDocuments (fun _ => false) docs) ++ [.enter .ready]

/-- Replace the index by one of `docs`; the first document of each path counts. -/
def reindex (e : Engine) (docs : List Document) : Engine × Nat :=
  (e.run (e.reindexSteps docs), (freshDocuments (fun _ => false) docs).length)

/-- The slot of each live path of an index; the last slot of a path counts. -/
def slotsOf (ix : Index) : Slots :=
  ix.docs.toList.zipIdx.foldl (fun m (entry, slot) =>
    match entry with
    | none => m
    | some e => m.insert e.path slot) {}

section Snapshots

variable [Packing]

/-- Read and check a snapshot made under this engine's settings. -/
def readSnapshot (e : Engine) (blob : List UInt8) : Except Rejection Index := do
  let ix ← Packing.unpack (← Snapshot.unframe e.config.fingerprint blob)
  ix.check
  pure ix

/-- The steps that replace the index by the one in a snapshot. A snapshot that
is refused leaves the engine empty and ready. -/
def loadSteps (e : Engine) (blob : List UInt8) : List Step :=
  clearSteps ++
    (match e.readSnapshot blob with
    | .ok ix => [.setSlots (slotsOf ix), .setIndex ix, .touch]
    | .error _ => []) ++ [.enter .ready]

/-- Replace the index by the one in a snapshot, and count its documents. -/
def load (e : Engine) (blob : List UInt8) : Engine × Except Fault Nat :=
  (e.run (e.loadSteps blob),
    match e.readSnapshot blob with
    | .ok ix => .ok ix.live
    | .error r => .error (.snapshotIncompatible r))

/-- The index as a snapshot. -/
def serialize (e : Engine) : List UInt8 :=
  Snapshot.frame e.config.fingerprint (Packing.pack e.index)

end Snapshots

/-! ## Searching -/

section Search

variable {S : Type} [Score S]

/-- The ranked hits of a text. -/
def search (e : Engine) (text : String) (o : SearchOptions) : Except Fault (List (Hit S)) :=
  if !e.isReady then .error .notReady
  else .ok (searchTerms e.index o e.config.search none (e.terms text))

/-- The hit of a text in one document, if it is indexed and matches. -/
def matchDocument (e : Engine) (path text : String) (o : SearchOptions) :
    Except Fault (Option (Hit S)) :=
  if !e.isReady then .error .notReady
  else .ok <| e.slots[path]?.bind fun slot =>
    (searchTerms e.index o e.config.search (some slot) (e.terms text)).head?

end Search

end Engine

end VaultSearch

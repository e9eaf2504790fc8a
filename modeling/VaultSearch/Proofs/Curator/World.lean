import Mathlib.Data.Set.Basic
import VaultSearch.FileTree
import VaultSearch.Proofs.Curator.Batch

/-!
# A vault and its curator

A `World` is a curator together with the files it looks after. An
`Edit` changes the files and is reported to the curator afterwards; the
buffer may be drained at any moment, on demand or because a flush is
due, also between an edit and its report. `World.run` follows a list of
such `Event`s, from a curator that has just built its index
(`World.Starts`).

Edits keep the files a tree: no file is a folder of another one. The index
need not: a move of a file into itself, or out of a folder of its new name,
makes one path file and folder in turn, and when the buffer is drained
between such an edit and its report, an operation still waiting for the
other use of the path may put both uses into the index. The report that the
folder is gone then stops at the file. `World.Unobstructed` says of a run
that no report was stopped so.
-/

namespace VaultSearch

/-! ## Paths -/

/-- The path `q` lies inside the folder `dir`. -/
def Path.Inside (dir q : String) : Prop := dir.toList ++ ['/'] <+: q.toList

instance (dir q : String) : Decidable (Path.Inside dir q) :=
  inferInstanceAs (Decidable (_ <+: _))

/-- Every piece of the path is a name. -/
def Path.IsNormal (p : String) : Prop :=
  ∀ piece ∈ Path.pieces p, Path.Part.ofPiece? piece = some (.name piece)

instance (p : String) : Decidable (Path.IsNormal p) := inferInstanceAs (Decidable (∀ _ ∈ _, _))

/-- A normal path does not end in a separator. -/
theorem Path.IsNormal.folderLead {dir : String} (h : Path.IsNormal dir) :
    Engine.folderLead dir = dir.toList ++ ['/'] := by
  rw [Engine.folderLead]
  congr 1
  rcases List.eq_nil_or_concat' dir.toList with hnil | ⟨front, last, heq⟩
  · rw [hnil]
    rfl
  · have hlast : last ≠ '/' := by
      rintro rfl
      have hmem : [] ∈ Path.pieces dir := by
        rw [Path.pieces, heq, List.splitOnP_append_cons front [] (decide_eq_true rfl)]
        simp
      have hpiece := h [] hmem
      cases hpiece
    rw [heq, List.reverse_append, List.reverse_singleton, List.singleton_append,
      List.dropWhile_cons_of_neg (by simpa using hlast), List.reverse_cons, List.reverse_reverse]

/-- The files are a tree: their paths are normal, and none is a folder of another. -/
structure MemorySource.IsTree (files : MemorySource) : Prop where
  normal : ∀ p ∈ files, Path.IsNormal p
  apart : ∀ p ∈ files, ∀ q ∈ files, ¬Path.Inside p q

instance (files : MemorySource) : Decidable files.IsTree :=
  decidable_of_iff ((∀ p ∈ files.keys, Path.IsNormal p) ∧
      ∀ p ∈ files.keys, ∀ q ∈ files.keys, ¬Path.Inside p q)
    ⟨fun ⟨hn, ha⟩ => ⟨fun p hp => hn p (Std.TreeMap.mem_keys.mpr hp), fun p hp q hq =>
        ha p (Std.TreeMap.mem_keys.mpr hp) q (Std.TreeMap.mem_keys.mpr hq)⟩,
      fun h => ⟨fun p hp => h.normal p (Std.TreeMap.mem_keys.mp hp), fun p hp q hq =>
        h.apart p (Std.TreeMap.mem_keys.mp hp) q (Std.TreeMap.mem_keys.mp hq)⟩⟩

/-! ## Edits -/

/-- A change of the files of a vault. -/
inductive Edit where
  /-- Write a file, reported as created or as modified. -/
  | put (path text : String) (isNew : Bool)
  | remove (path : String)
  /-- Remove every file inside a folder, reported once for all of them. -/
  | removeFolder (dir : String)
  | move (old new : String)

namespace Edit

def apply (files : MemorySource) : Edit → MemorySource
  | put path text _ => files.insert path text
  | remove path => files.erase path
  | removeFolder dir => files.filter fun q _ => !decide (Path.Inside dir q)
  | move old new => match files[old]? with
    | none => files
    | some text => (files.erase old).insert new text

/-- What the curator is told of an edit. -/
def report : Edit → Change
  | put path _ isNew => ⟨path, if isNew then .created else .modified⟩
  | remove path => ⟨path, .deleted⟩
  | removeFolder dir => ⟨dir, .deleted⟩
  | move old new => ⟨new, .renamed old⟩

/-- The paths that an edit names. -/
def paths : Edit → List String
  | put path _ _ => [path]
  | remove path => [path]
  | removeFolder dir => [dir]
  | move old new => [old, new]

/-- A file is moved into itself, or out of a folder of its new name. -/
def Nests : Edit → Prop
  | move old new => Path.Inside old new ∨ Path.Inside new old
  | _ => False

/-- What an edit takes for granted of the paths that it names. -/
def Proper (files : MemorySource) : Edit → Prop
  | put _ _ _ => True
  | remove path => ∀ q ∈ files, ¬Path.Inside path q
  | removeFolder dir => dir ∉ files
  | move old _ => old ∈ files

/-- An edit that leaves a tree and names normal paths that are indexed: removed as a
file is no folder, removed as a folder no file, and moved is a file. -/
structure Fits (c : Config) (files : MemorySource) (edit : Edit) : Prop where
  tree : (edit.apply files).IsTree
  used : ∀ p ∈ edit.paths, Path.IsNormal p ∧ c.shouldExclude p = false
  proper : edit.Proper files

instance (files : MemorySource) (edit : Edit) : Decidable (edit.Proper files) :=
  match edit with
  | put _ _ _ => inferInstanceAs (Decidable True)
  | remove path => decidable_of_iff (∀ q ∈ files.keys, ¬Path.Inside path q)
      ⟨fun h q hq => h q (Std.TreeMap.mem_keys.mpr hq),
        fun h q hq => h q (Std.TreeMap.mem_keys.mp hq)⟩
  | removeFolder dir => inferInstanceAs (Decidable (dir ∉ files))
  | move old _ => inferInstanceAs (Decidable (old ∈ files))

instance (c : Config) (files : MemorySource) (edit : Edit) : Decidable (edit.Fits c files) :=
  decidable_of_iff ((edit.apply files).IsTree ∧
      (∀ p ∈ edit.paths, Path.IsNormal p ∧ c.shouldExclude p = false) ∧ edit.Proper files)
    ⟨fun ⟨htree, hused, hproper⟩ => ⟨htree, hused, hproper⟩, fun h => ⟨h.tree, h.used, h.proper⟩⟩

end Edit

/-! ## Worlds -/

/-- A curator and the files that it looks after. -/
structure World (σ : Type) where
  curator : Curator σ
  files : MemorySource

/-- Why the buffer is drained. -/
inductive Drain where
  | forced
  | automatic

/-- What happens in a world. -/
inductive Event where
  /-- An edit and then its report; the buffer may be drained in between. -/
  | edit (edit : Edit) (between : List Drain)
  | drain (cause : Drain)
  | rebuild

namespace Event

/-- The files once it has happened. -/
def apply (files : MemorySource) : Event → MemorySource
  | edit e _ => e.apply files
  | drain _ | rebuild => files

def Fits (c : Config) (files : MemorySource) : Event → Prop
  | edit e _ => e.Fits c files
  | drain _ | rebuild => True

/-- The events fit the files that they find, one after the other. -/
def FitAll (c : Config) : MemorySource → List Event → Prop
  | _, [] => True
  | files, event :: events => event.Fits c files ∧ FitAll c (event.apply files) events

/-- The buffer is not drained between an edit that nests and its report. -/
def Calm : Event → Prop
  | edit e between => e.Nests → between = []
  | drain _ | rebuild => True

instance (c : Config) (files : MemorySource) : (event : Event) → Decidable (event.Fits c files)
  | edit e _ => inferInstanceAs (Decidable (e.Fits c files))
  | drain _ | rebuild => inferInstanceAs (Decidable True)

instance decidableFitAll (c : Config) :
    (files : MemorySource) → (events : List Event) → Decidable (FitAll c files events)
  | _, [] => inferInstanceAs (Decidable True)
  | files, event :: events =>
      haveI := decidableFitAll c (event.apply files) events
      inferInstanceAs (Decidable (_ ∧ _))

end Event

def Operation.isDelete : Operation → Bool
  | add _ _ _ => false
  | delete _ _ => true

/-- A deletion of the path waits. -/
def Curator.awaitsDeletion {σ : Type} (m : Curator σ) (path : String) : Bool :=
  (m.buffer.items[path]?).any Operation.isDelete

/-- The report that a folder is gone reaches every indexed file inside it: the path is not
indexed as a file itself, or a deletion waits for each of them. -/
def Curator.Unobstructed {σ : Type} (m : Curator σ) (dir : String) : Prop :=
  m.engine.contains dir = false ∨ ∀ q ∈ m.engine.pathsUnder dir, m.awaitsDeletion q

instance {σ : Type} (m : Curator σ) (dir : String) : Decidable (m.Unobstructed dir) :=
  inferInstanceAs (Decidable (_ ∨ _))

/-- The report of the edit reaches all that it is about; only that of a removed folder may
fail to. -/
def Edit.Unobstructed {σ : Type} (m : Curator σ) : Edit → Prop
  | removeFolder dir => m.Unobstructed dir
  | put _ _ _ | remove _ | move _ _ => True

instance {σ : Type} (m : Curator σ) : (edit : Edit) → Decidable (edit.Unobstructed m)
  | .removeFolder dir => inferInstanceAs (Decidable (m.Unobstructed dir))
  | .put _ _ _ | .remove _ | .move _ _ => inferInstanceAs (Decidable True)

namespace World

variable {σ : Type} [SnapshotStore σ]

def drain (w : World σ) : Drain → World σ
  | .forced => { w with curator := (w.curator.flush w.files.toSource).1 }
  | .automatic => { w with curator := w.curator.settle w.files.toSource }

/-- The files are edited, and the buffer is drained before the report. -/
def edited (w : World σ) (e : Edit) (between : List Drain) : World σ :=
  between.foldl drain { w with files := e.apply w.files }

def notify (w : World σ) (change : Change) : World σ :=
  { w with curator := w.curator.notify change }

def step (w : World σ) : Event → World σ
  | .edit e between => (w.edited e between).notify e.report
  | .drain cause => w.drain cause
  | .rebuild => { w with curator := (w.curator.rebuild w.files.toSource).2 }

def run (w : World σ) (events : List Event) : World σ := events.foldl step w

/-- The report of an edit reaches all that it is about. -/
def UnobstructedAt (w : World σ) : Event → Prop
  | .edit e between => e.Unobstructed (w.edited e between).curator
  | .drain _ | .rebuild => True

/-- Every report in a run reaches all that it is about. -/
def Unobstructed : World σ → List Event → Prop
  | _, [] => True
  | w, event :: events => w.UnobstructedAt event ∧ (w.step event).Unobstructed events

instance (w : World σ) : (event : Event) → Decidable (w.UnobstructedAt event)
  | .edit e between => inferInstanceAs (Decidable (e.Unobstructed (w.edited e between).curator))
  | .drain _ | .rebuild => inferInstanceAs (Decidable True)

instance decidableUnobstructed :
    (w : World σ) → (events : List Event) → Decidable (w.Unobstructed events)
  | _, [] => inferInstanceAs (Decidable True)
  | w, event :: events =>
      haveI := decidableUnobstructed (w.step event) events
      inferInstanceAs (Decidable (_ ∧ _))

/-- The worlds in which a new curator has just built its index. -/
inductive Starts (c : Config) (segmenter : Option Segmenter) : World σ → Prop where
  | start {store : σ} {files : MemorySource} (htree : files.IsTree)
      (hstore : SnapshotStore.load store = .ok none) :
      Starts c segmenter ⟨((Curator.new c segmenter store).start files.toSource).2, files⟩
  | rebuild {store : σ} {files : MemorySource} (htree : files.IsTree) :
      Starts c segmenter ⟨((Curator.new c segmenter store).rebuild files.toSource).2, files⟩

end World

/-! ## What the curator does -/

namespace Curator

variable {σ : Type} [SnapshotStore σ]

theorem autosave_engine (m : Curator σ) : m.autosave.engine = m.engine := by
  rw [autosave]
  split <;> rfl

theorem autosave_buffer (m : Curator σ) : m.autosave.buffer = m.buffer := by
  rw [autosave]
  split <;> rfl

/-- The operations that wait. -/
abbrev Pending := Std.TreeMap String Operation

def batch (pending : Pending) : List Operation := pending.toList.map Prod.snd

theorem applyAll_nil (src : Source) (e : Engine) : applyAll src e [] = e := by
  rw [applyAll, List.mergeSort_nil]
  rfl

theorem applyBatch_eq (m : Curator σ) (src : Source) (items : Pending) :
    (m.applyBatch src items.toList).engine = applyAll src m.engine (batch items) ∧
      (m.applyBatch src items.toList).buffer = m.buffer := by
  rw [applyBatch, batch]
  split
  · rename_i hempty
    rw [List.isEmpty_iff.mp hempty, List.map_nil, applyAll_nil]
    exact ⟨rfl, rfl⟩
  · exact ⟨autosave_engine _, autosave_buffer _⟩

theorem flush_engine (m : Curator σ) (src : Source) :
    (m.flush src).1.engine = applyAll src m.engine (batch m.buffer.items) :=
  (applyBatch_eq _ src m.buffer.items).1

theorem flush_items (m : Curator σ) (src : Source) : (m.flush src).1.buffer.items = {} :=
  congrArg Buffer.items (applyBatch_eq _ src m.buffer.items).2

/-- The flush that is due is a flush. -/
theorem settle_of_due {m : Curator σ} (hdue : m.buffer.due) (src : Source) :
    (m.settle src).engine = applyAll src m.engine (batch m.buffer.items) ∧
      (m.settle src).buffer.items = {} := by
  have hsettle : m.settle src =
      { m with buffer := { m.buffer.drain.2 with due := false } }.applyBatch src
        m.buffer.items.toList := by
    rw [settle, Buffer.settle, hdue]
    rfl
  obtain ⟨hengine, hbuffer⟩ := applyBatch_eq
    { m with buffer := { m.buffer.drain.2 with due := false } } src m.buffer.items
  rw [hsettle]
  exact ⟨hengine, congrArg Buffer.items hbuffer⟩

/-- The flush that is due is a flush, or it is not due and nothing happens. -/
theorem settle_cases (m : Curator σ) (src : Source) :
    m.settle src = m ∨ ((m.settle src).engine = applyAll src m.engine (batch m.buffer.items) ∧
      (m.settle src).buffer.items = {}) := by
  cases hdue : m.buffer.due with
  | true => exact Or.inr (settle_of_due hdue src)
  | false =>
      refine Or.inl ?_
      rw [settle, Buffer.settle, hdue]
      rfl

omit [SnapshotStore σ] in
theorem enqueue_add (m : Curator σ) (path q : String) :
    (m.enqueue (.add path path)).buffer.items[q]? =
      if path = q then some (.add path path m.clock) else m.buffer.items[q]? := by
  simp [enqueue, Buffer.insert, Operation.path, Std.TreeMap.getElem?_insert]

omit [SnapshotStore σ] in
theorem enqueue_delete (m : Curator σ) (path q : String) :
    (m.enqueue (.delete path)).buffer.items[q]? =
      if path = q then some (.delete path m.clock) else m.buffer.items[q]? := by
  simp [enqueue, Buffer.insert, Operation.path, Std.TreeMap.getElem?_insert]

omit [SnapshotStore σ] in
/-- Deletions are put into the buffer one by one. -/
theorem foldl_enqueue_delete : ∀ (paths : List String) (m : Curator σ),
    (paths.foldl (fun m p => m.enqueue (.delete p)) m).engine = m.engine ∧
    (∀ p ∈ paths, ∃ t, (paths.foldl (fun m p => m.enqueue (.delete p)) m).buffer.items[p]? =
      some (.delete p t)) ∧
    ∀ p ∉ paths, (paths.foldl (fun m p => m.enqueue (.delete p)) m).buffer.items[p]? =
      m.buffer.items[p]?
  | [], m => ⟨rfl, by simp, fun _ _ => rfl⟩
  | p :: paths, m => by
      obtain ⟨hengine, hin, hout⟩ := foldl_enqueue_delete paths (m.enqueue (.delete p))
      rw [List.foldl_cons]
      refine ⟨hengine, ?_, ?_⟩
      · intro q hq
        by_cases hmem : q ∈ paths
        · exact hin q hmem
        · obtain rfl : q = p := by simpa [hmem] using hq
          exact ⟨m.clock, by rw [hout q hmem, enqueue_delete, if_pos rfl]⟩
      · intro q hq
        rw [List.mem_cons, not_or] at hq
        rw [hout q hq.2, enqueue_delete, if_neg (Ne.symm hq.1)]

omit [SnapshotStore σ] in
theorem engine_enqueueDelete (m : Curator σ) (path : String) :
    (m.enqueueDelete path).engine = m.engine :=
  (foldl_enqueue_delete _ m).1

end Curator

end VaultSearch

import VaultSearch.Proofs.Curator.World
import VaultSearch.Proofs.Engine.Answers

/-!
# Keeping track of the files

`Tracks` compares what a curator holds and what waits in its buffer with the
files of a vault, path by path: each file is indexed as it is or going to be
read, and no deletion waits for a file that is there. `Covers` is about what
is gone: a deletion waits for every indexed path with no file. Between an edit
and its report both hold off the edited paths only, the *unreported* ones. A
flush keeps them (`Tracks.drained`, `Covers.drained`), an edit does so at the
price of its paths (`Tracks.edit`, `Covers.edit`), and a report makes up for
these (`Tracks.report`, `Covers.report`).

What a flush leaves of the index is then known (`Tracks.contents_eq_iff`): it
is what the files contain, unless something that is gone is not covered.
-/

namespace VaultSearch

open Curator (Pending batch)

/-- The analysed fields of the file at `path`. -/
def fileFields (c : Config) (segmenter : Option Segmenter) (path text : String) :
    PerField (List String) :=
  ((Engine.new c segmenter).analyse (Document.ofText path text)).fields

/-- What an index of the files holds. -/
def MemorySource.contents (c : Config) (segmenter : Option Segmenter) (files : MemorySource) :
    Contents :=
  fun p => files[p]?.map (fileFields c segmenter p)

theorem MemorySource.readAs?_toSource (files : MemorySource) (p : String) :
    files.toSource.readAs? p p = files[p]?.map (Document.ofText p) := by
  have hread : files.toSource.read p = files.read p := rfl
  rw [Source.readAs?, hread, read, content]
  cases files[p]? with
  | none => rfl
  | some text => exact congrArg some (if_pos rfl)

/-- What an engine that holds `M` will hold once what waits is applied. -/
def Curator.outlook (c : Config) (segmenter : Option Segmenter) (src : Source)
    (pending : Pending) (M : Contents) : Contents := fun p =>
  match pending[p]? with
  | none => M p
  | some op => op.outcome src (fun d => ((Engine.new c segmenter).analyse d).fields) (M p)

section

variable {σ : Type}

/-- What the curator holds, together with what waits, keeps track of the files off the
paths in `unreported`. -/
structure Tracks (c : Config) (segmenter : Option Segmenter) (m : Curator σ)
    (files : MemorySource) (unreported : Set String) : Prop where
  holds : Engine.Holds c segmenter m.engine m.engine.contents
  keyed : ∀ (p : String) (op : Operation), m.buffer.items[p]? = some op →
    ∃ t, op = .add p p t ∨ op = .delete p t
  /-- No deletion waits for a file that is there. -/
  deleted : ∀ p ∉ unreported, m.awaitsDeletion p → files[p]? = none
  /-- A file is going to be read, or it is indexed as it is. -/
  current : ∀ p text : String, p ∉ unreported → files[p]? = some text →
    (∃ t, m.buffer.items[p]? = some (.add p p t)) ∨
      m.engine.contents p = some (fileFields c segmenter p text)

/-- A deletion waits for every indexed path with no file, off the paths in `unreported`. -/
def Covers (m : Curator σ) (files : MemorySource) (unreported : Set String) : Prop :=
  ∀ p ∉ unreported, (m.engine.contents p).isSome → files[p]? = none → m.awaitsDeletion p

end

namespace Tracks

/-! ## Flushing -/

section

variable {c : Config} {segmenter : Option Segmenter} {e : Engine} {pending : Pending}
  {M : Contents}

theorem mem_batch {op : Operation} : op ∈ batch pending ↔ ∃ p : String, pending[p]? = some op := by
  rw [batch, List.mem_map]
  constructor
  · rintro ⟨⟨p, op⟩, hrow, rfl⟩
    exact ⟨p, Std.TreeMap.mem_toList_iff_getElem?_eq_some.mp hrow⟩
  · rintro ⟨p, hp⟩
    exact ⟨(p, op), Std.TreeMap.mem_toList_iff_getElem?_eq_some.mpr hp, rfl⟩

section Keyed

variable (keyed : ∀ (p : String) (op : Operation), pending[p]? = some op →
  ∃ t, op = .add p p t ∨ op = .delete p t)

include keyed

theorem path_of_keyed {p : String} {op : Operation} (hp : pending[p]? = some op) : op.path = p := by
  obtain ⟨t, rfl | rfl⟩ := keyed p op hp
  · rfl
  · rfl

theorem nodup_batch : ((batch pending).map Operation.path).Nodup := by
  have hpaths : (batch pending).map Operation.path = pending.keys := by
    rw [batch, List.map_map, ← Std.TreeMap.map_fst_toList_eq_keys]
    exact List.map_congr_left fun row hrow =>
      path_of_keyed keyed (Std.TreeMap.mem_toList_iff_getElem?_eq_some.mp hrow)
  rw [hpaths]
  exact Text.nodup_keys pending

/-- Applying what waits leaves what each operation leaves at its path. -/
theorem holds_outlook (h : Engine.Holds c segmenter e M) (src : Source) :
    Engine.Holds c segmenter (Curator.applyAll src e (batch pending))
      (Curator.outlook c segmenter src pending M) := by
  obtain ⟨M', hM', hout, hrest⟩ := h.applyAll src (nodup_batch keyed)
  have houtlook : M' = Curator.outlook c segmenter src pending M := by
    funext p
    rw [Curator.outlook]
    cases hp : pending[p]? with
    | some op =>
        have hop := hout op (mem_batch.mpr ⟨p, hp⟩)
        rwa [path_of_keyed keyed hp] at hop
    | none =>
        refine hrest p fun op hop hpath => ?_
        obtain ⟨q, hq⟩ := mem_batch.mp hop
        rw [← path_of_keyed keyed hq, hpath, hp] at hq
        cases hq
  rwa [← houtlook]

end Keyed

end

variable {σ : Type} {c : Config} {segmenter : Option Segmenter} {m m' : Curator σ}
  {files : MemorySource} {X X' : Set String}

theorem awaitsDeletion_of_delete {p q : String} {t : Nat}
    (h : m.buffer.items[p]? = some (.delete q t)) : m.awaitsDeletion p := by
  rw [Curator.awaitsDeletion, h]
  rfl

theorem awaitsDeletion_congr {p : String} (h : m'.buffer.items[p]? = m.buffer.items[p]?) :
    m'.awaitsDeletion p = m.awaitsDeletion p := by
  rw [Curator.awaitsDeletion, Curator.awaitsDeletion, h]

/-- What waits makes each reported file indexed as it is. -/
theorem outlook_of_file (h : Tracks c segmenter m files X) {p text : String} (hX : p ∉ X)
    (hfile : files[p]? = some text) :
    Curator.outlook c segmenter files.toSource m.buffer.items m.engine.contents p =
      some (fileFields c segmenter p text) := by
  rw [Curator.outlook]
  cases hp : m.buffer.items[p]? with
  | none =>
      rcases h.current p text hX hfile with ⟨t, hadd⟩ | hM
      · rw [hp] at hadd
        cases hadd
      · exact hM
  | some op =>
      obtain ⟨t, rfl | rfl⟩ := h.keyed p op hp
      · simp only [Operation.outcome, files.readAs?_toSource, hfile, Option.map_some]
        rfl
      · rw [h.deleted p hX (awaitsDeletion_of_delete hp)] at hfile
        cases hfile

/-- What is gone stays indexed unless a deletion waits for it. -/
theorem outlook_of_gone (h : Tracks c segmenter m files X) {p : String}
    (hfile : files[p]? = none) :
    Curator.outlook c segmenter files.toSource m.buffer.items m.engine.contents p =
      if m.awaitsDeletion p then none else m.engine.contents p := by
  rw [Curator.outlook, Curator.awaitsDeletion]
  cases hp : m.buffer.items[p]? with
  | none => rfl
  | some op =>
      obtain ⟨t, rfl | rfl⟩ := h.keyed p op hp
      · simp only [Operation.outcome, files.readAs?_toSource, hfile, Option.map_none]
        rfl
      · rfl

section Drained

variable (hengine : m'.engine = Curator.applyAll files.toSource m.engine (batch m.buffer.items))

include hengine

theorem holds_drained (h : Tracks c segmenter m files X) :
    Engine.Holds c segmenter m'.engine m'.engine.contents ∧ m'.engine.contents =
      Curator.outlook c segmenter files.toSource m.buffer.items m.engine.contents := by
  have hholds := holds_outlook h.keyed h.holds files.toSource
  rw [← hengine] at hholds
  have hcontents := hholds.contents_eq
  exact ⟨hcontents ▸ hholds, hcontents⟩

/-- A flush keeps track of the files. -/
theorem drained (h : Tracks c segmenter m files X) (hitems : m'.buffer.items = {}) :
    Tracks c segmenter m' files X := by
  obtain ⟨hholds, hcontents⟩ := h.holds_drained hengine
  refine ⟨hholds, ?_, ?_, fun p text hX hfile => Or.inr ?_⟩
  · simp [hitems]
  · simp [Curator.awaitsDeletion, hitems]
  · rw [hcontents, h.outlook_of_file hX hfile]

/-- A flush makes the index what the files contain, unless something that is gone is not
covered. -/
theorem contents_eq_iff (h : Tracks c segmenter m files ∅) :
    m'.engine.contents = files.contents c segmenter ↔ Covers m files ∅ := by
  rw [(h.holds_drained hengine).2]
  constructor
  · intro heq p hX hsome hfile
    have hp := congrFun heq p
    rw [h.outlook_of_gone hfile, MemorySource.contents, hfile] at hp
    split at hp
    · assumption
    · rw [hp] at hsome
      cases hsome
  · intro hcovers
    funext p
    have hX : p ∉ (∅ : Set String) := Set.notMem_empty p
    rw [MemorySource.contents]
    cases hfile : files[p]? with
    | some text => exact h.outlook_of_file hX hfile
    | none =>
        rw [h.outlook_of_gone hfile, Option.map_none]
        split
        · rfl
        · rename_i hwaits
          rw [← Option.not_isSome_iff_eq_none]
          exact fun hsome => hwaits (hcovers p hX hsome hfile)

end Drained

/-! ## Edits and reports -/

/-- The paths at which an edit changed the files. -/
def changed (files files' : MemorySource) : Set String := {p | files'[p]? ≠ files[p]?}

theorem eq_of_notMem_changed {files' : MemorySource} {p : String}
    (hp : p ∉ changed files files') : files'[p]? = files[p]? :=
  not_not.mp hp

/-- An edit leaves the paths that it changed unreported. -/
theorem edit (h : Tracks c segmenter m files ∅) (files' : MemorySource) :
    Tracks c segmenter m files' (changed files files') := by
  refine ⟨h.holds, h.keyed, fun p hp hwaits => ?_, fun p text hp hfile => ?_⟩
  · rw [eq_of_notMem_changed hp]
    exact h.deleted p (Set.notMem_empty p) hwaits
  · rw [eq_of_notMem_changed hp] at hfile
    exact h.current p text (Set.notMem_empty p) hfile

/-- A report accounts for the paths off `X'` if it queues an addition for every unreported
file that is there, and else only what agrees with the files. -/
theorem report (h : Tracks c segmenter m files X) (hengine : m'.engine = m.engine)
    (hqueued : ∀ p : String, m'.buffer.items[p]? = m.buffer.items[p]? ∨
      (∃ t, m'.buffer.items[p]? = some (.delete p t) ∧ (p ∉ X' → files[p]? = none)) ∨
      ∃ t, m'.buffer.items[p]? = some (.add p p t))
    (hadded : ∀ p ∈ X, p ∉ X' → (files[p]?).isSome →
      ∃ t, m'.buffer.items[p]? = some (.add p p t)) :
    Tracks c segmenter m' files X' where
  holds := by rw [hengine]; exact h.holds
  keyed p op hop := by
    rcases hqueued p with hsame | ⟨t, hdel, -⟩ | ⟨t, hadd⟩
    · exact h.keyed p op (hsame.symm.trans hop)
    · exact ⟨t, Or.inr (Option.some.inj (hop.symm.trans hdel))⟩
    · exact ⟨t, Or.inl (Option.some.inj (hop.symm.trans hadd))⟩
  deleted p hX' hwaits := by
    rcases hqueued p with hsame | ⟨-, -, hnone⟩ | ⟨t, hadd⟩
    · by_cases hX : p ∈ X
      · rw [← Option.not_isSome_iff_eq_none]
        intro hsome
        obtain ⟨t, hadd⟩ := hadded p hX hX' hsome
        rw [Curator.awaitsDeletion, hadd] at hwaits
        cases hwaits
      · exact h.deleted p hX (awaitsDeletion_congr hsame ▸ hwaits)
    · exact hnone hX'
    · rw [Curator.awaitsDeletion, hadd] at hwaits
      cases hwaits
  current p text hX' htext := by
    by_cases hX : p ∈ X
    · exact Or.inl (hadded p hX hX' (by rw [htext]; rfl))
    · rcases hqueued p with hsame | ⟨-, -, hnone⟩ | hadd
      · rw [hsame, hengine]
        exact h.current p text hX htext
      · rw [hnone hX'] at htext
        cases htext
      · exact Or.inl hadd

end Tracks

namespace Covers

open Tracks (changed)

variable {σ : Type} {c : Config} {segmenter : Option Segmenter} {m m' : Curator σ}
  {files : MemorySource} {X X' : Set String}

/-- A flush covers what was covered. -/
theorem drained (h : Covers m files X) (htracks : Tracks c segmenter m files X)
    (hengine : m'.engine = Curator.applyAll files.toSource m.engine (batch m.buffer.items)) :
    Covers m' files X := by
  intro p hX hsome hfile
  rw [(htracks.holds_drained hengine).2, htracks.outlook_of_gone hfile] at hsome
  split at hsome
  · cases hsome
  · rename_i hwaits
    exact absurd (h p hX hsome hfile) hwaits

/-- An edit leaves the paths that it changed unreported. -/
theorem edit (h : Covers m files ∅) (files' : MemorySource) :
    Covers m files' (changed files files') := by
  intro p hp hsome hfile
  rw [Tracks.eq_of_notMem_changed hp] at hfile
  exact h p (Set.notMem_empty p) hsome hfile

/-- A report covers the paths off `X'` if it queues a deletion for every unreported path that
is indexed and gone, and calls none off. -/
theorem report (h : Covers m files X) (hengine : m'.engine = m.engine)
    (hkept : ∀ p, files[p]? = none → m.awaitsDeletion p → m'.awaitsDeletion p)
    (hgone : ∀ p ∈ X, p ∉ X' → (m.engine.contents p).isSome → files[p]? = none →
      m'.awaitsDeletion p) :
    Covers m' files X' := by
  intro p hX' hsome hfile
  rw [hengine] at hsome
  by_cases hX : p ∈ X
  · exact hgone p hX hX' hsome hfile
  · exact hkept p hfile (h p hX hsome hfile)

end Covers

end VaultSearch

import VaultSearch.Proofs.Curator.Deletions
import VaultSearch.Proofs.Curator.Reports

/-!
# Upkeep amounts to a rebuild

A curator that was told of every edit has, after one last flush, every file in
its index as it is, wherever the flushes before fell; and where no report that
a folder is gone was stopped by a file, it answers as a new one that builds its
index from the files (`World.Starts.flush_eq_rebuild`). Every step of a world
keeps track of the files (`World.tracks_step`), and covers what is gone
exactly if its report reaches all that it is about (`World.covers_step_iff`).

A flush between an edit that nests and its report can bring about a report
that is stopped (`World.folder_report_stopped_by_file`), and nothing else can
(`World.Starts.unobstructed_of_calm`).
-/

namespace VaultSearch

open Curator (batch)
open Tracks (changed)

/-- No indexed path is a folder of another. -/
def Apart {σ : Type} (m : Curator σ) : Prop :=
  ∀ p q, (m.engine.contents p).isSome → (m.engine.contents q).isSome → ¬Path.Inside p q

namespace World

variable {σ : Type} [SnapshotStore σ] {c : Config} {segmenter : Option Segmenter} {w : World σ}

/-! ## Flushes -/

theorem files_drain (w : World σ) (cause : Drain) : (w.drain cause).files = w.files := by
  cases cause <;> rfl

/-- A flush that was due or asked for, or nothing. -/
theorem drain_cases (w : World σ) (cause : Drain) :
    (w.drain cause).curator = w.curator ∨
      ((w.drain cause).curator.engine =
          Curator.applyAll w.files.toSource w.curator.engine (batch w.curator.buffer.items) ∧
        (w.drain cause).curator.buffer.items = {}) := by
  cases cause with
  | forced => exact Or.inr ⟨Curator.flush_engine _ _, Curator.flush_items _ _⟩
  | automatic => exact w.curator.settle_cases w.files.toSource

/-- The curator of a world keeps track of the files. -/
def Tracked (c : Config) (segmenter : Option Segmenter) (w : World σ) (unreported : Set String) :
    Prop :=
  Tracks c segmenter w.curator w.files unreported

/-- The curator of a world covers what is gone. -/
def Covered (w : World σ) (unreported : Set String) : Prop :=
  Covers w.curator w.files unreported

variable {X : Set String}

theorem Tracked.drain (h : w.Tracked c segmenter X) (cause : Drain) :
    (w.drain cause).Tracked c segmenter X := by
  rw [Tracked, files_drain]
  rcases w.drain_cases cause with hsame | ⟨hengine, hitems⟩
  · rw [hsame]
    exact h
  · exact Tracks.drained hengine h hitems

theorem Covered.drain (h : w.Covered X) (htracked : w.Tracked c segmenter X) (cause : Drain) :
    (w.drain cause).Covered X := by
  rw [Covered, files_drain]
  rcases w.drain_cases cause with hsame | ⟨hengine, -⟩
  · rw [hsame]
    exact h
  · exact Covers.drained h htracked hengine

/-- A flush keeps apart what is indexed, if the files and the unreported paths are apart. -/
theorem apart_drain (h : Apart w.curator) (hcovered : w.Covered X)
    (htracked : w.Tracked c segmenter X)
    (hapart : ∀ p q, p ∈ w.files ∨ p ∈ X → q ∈ w.files ∨ q ∈ X → ¬Path.Inside p q)
    (cause : Drain) : Apart (w.drain cause).curator := by
  rcases w.drain_cases cause with hsame | ⟨hengine, hitems⟩
  · rw [hsame]
    exact h
  · have hcovers := Covers.drained hcovered htracked hengine
    have hmem : ∀ p, ((w.drain cause).curator.engine.contents p).isSome → p ∈ w.files ∨ p ∈ X := by
      intro p hsome
      by_contra hnot
      obtain ⟨hfile, hX⟩ := not_or.mp hnot
      have hwaits := hcovers p hX hsome (Edit.getElem?_eq_none hfile)
      rw [Curator.awaitsDeletion, hitems] at hwaits
      simp at hwaits
    exact fun p q hp hq => hapart p q (hmem p hp) (hmem q hq)

/-! ## Edits and what comes before their reports -/

theorem files_edited (w : World σ) (e : Edit) (between : List Drain) :
    (w.edited e between).files = e.apply w.files :=
  List.foldlRecOn (motive := fun w' : World σ => w'.files = e.apply w.files) between _ rfl
    fun w' hw' cause _ => (files_drain w' cause).trans hw'

theorem Tracked.edited (h : w.Tracked c segmenter ∅) (e : Edit) (between : List Drain) :
    (w.edited e between).Tracked c segmenter (changed w.files (e.apply w.files)) :=
  List.foldlRecOn (motive := fun w' : World σ =>
    w'.Tracked c segmenter (changed w.files (e.apply w.files))) between _
    (Tracks.edit h (e.apply w.files)) fun _ hw' cause _ => hw'.drain cause

theorem Covered.edited (h : w.Covered ∅) (htracked : w.Tracked c segmenter ∅) (e : Edit)
    (between : List Drain) :
    (w.edited e between).Covered (changed w.files (e.apply w.files)) := by
  refine (List.foldlRecOn (motive := fun w' : World σ =>
    w'.Tracked c segmenter (changed w.files (e.apply w.files)) ∧
      w'.Covered (changed w.files (e.apply w.files))) between _
    ⟨?_, ?_⟩ fun w' hw' cause _ => ?_).2
  · exact Tracks.edit htracked (e.apply w.files)
  · exact Covers.edit h (e.apply w.files)
  · exact ⟨hw'.1.drain cause, hw'.2.drain hw'.1 cause⟩

/-- Unless the edit nests, flushes before its report keep apart what is indexed. -/
theorem apart_edited (h : Apart w.curator) (hcovered : w.Covered ∅)
    (htracked : w.Tracked c segmenter ∅) {e : Edit} {between : List Drain}
    (hfits : e.Fits c w.files) (htree : w.files.IsTree) (hcalm : e.Nests → between = []) :
    Apart (w.edited e between).curator := by
  by_cases hnest : e.Nests
  · rw [hcalm hnest]
    exact h
  · refine (List.foldlRecOn (motive := fun w' : World σ => w'.files = e.apply w.files ∧
      w'.Tracked c segmenter (changed w.files (e.apply w.files)) ∧
      w'.Covered (changed w.files (e.apply w.files)) ∧ Apart w'.curator) between drain
      (b := { w with files := e.apply w.files }) ⟨rfl, ?_, ?_, h⟩ fun w' hw' cause _ => ?_).2.2.2
    · exact Tracks.edit htracked (e.apply w.files)
    · exact Covers.edit hcovered (e.apply w.files)
    · obtain ⟨hfiles, htracked', hcovered', hapart⟩ := hw'
      refine ⟨(files_drain w' cause).trans hfiles, htracked'.drain cause,
        hcovered'.drain htracked' cause, apart_drain hapart hcovered' htracked' ?_ cause⟩
      intro p q hp hq
      rw [hfiles] at hp hq
      exact Edit.apart_union hfits.proper hnest htree hfits.tree hp hq

/-! ## Rebuilding -/

/-- An index built from the files holds what the files contain. -/
theorem reindex_contents {e : Engine} {M : Contents} (h : Engine.Holds c segmenter e M)
    (files : MemorySource) :
    Engine.Holds c segmenter (e.reindex (files.toSource.readAll files.keys)).1
      (files.contents c segmenter) := by
  have hnd : (((files.toSource.readAll files.keys).map e.analyse).map Analysed.path).Nodup := by
    rw [List.map_map, List.Nodup, List.pairwise_map, Source.readAll, List.pairwise_filterMap]
    refine (Text.nodup_keys files).imp fun hne d hd d' hd' heq => hne ?_
    rw [← Source.path_of_readAs? hd, ← Source.path_of_readAs? hd']
    exact heq
  have hM : Contents.ofList ((files.toSource.readAll files.keys).map e.analyse) =
      files.contents c segmenter := by
    funext p
    refine Option.ext fun F => ?_
    rw [Contents.ofList_eq_some hnd, List.mem_map, MemorySource.contents, Option.map_eq_some_iff,
      h.analyse_eq]
    simp only [Source.readAll, List.mem_filterMap, files.readAs?_toSource, Option.map_eq_some_iff]
    constructor
    · rintro ⟨d, ⟨q, -, text, htext, rfl⟩, heq⟩
      have hpath : q = p := congrArg Analysed.path heq
      subst hpath
      exact ⟨text, htext, congrArg Analysed.fields heq⟩
    · rintro ⟨text, htext, rfl⟩
      refine ⟨Document.ofText p text, ⟨p, ?_, text, htext, rfl⟩, rfl⟩
      rw [Std.TreeMap.mem_keys, Std.TreeMap.mem_iff_isSome_getElem?, htext]
      rfl
  have hreindex := h.reindex (files.toSource.readAll files.keys)
  rwa [hM] at hreindex

theorem rebuild_eq (m : Curator σ) (files : MemorySource) :
    (m.rebuild files.toSource).2.engine =
        (m.engine.reindex (files.toSource.readAll files.keys)).1 ∧
      (m.rebuild files.toSource).2.buffer = m.buffer :=
  ⟨Curator.autosave_engine _, Curator.autosave_buffer _⟩

/-- A rebuilt index holds what the files contain. -/
theorem holds_rebuild {m : Curator σ} {M : Contents} (h : Engine.Holds c segmenter m.engine M)
    (files : MemorySource) :
    Engine.Holds c segmenter (m.rebuild files.toSource).2.engine (files.contents c segmenter) ∧
      (m.rebuild files.toSource).2.engine.contents = files.contents c segmenter := by
  have hholds := reindex_contents h files
  rw [← (rebuild_eq m files).1] at hholds
  exact ⟨hholds, hholds.contents_eq⟩

theorem mem_of_contents_rebuild {m : Curator σ} {M : Contents}
    (h : Engine.Holds c segmenter m.engine M) {files : MemorySource} {p : String}
    (hp : ((m.rebuild files.toSource).2.engine.contents p).isSome) : p ∈ files := by
  rw [(holds_rebuild h files).2, MemorySource.contents, Option.isSome_map] at hp
  exact Std.TreeMap.mem_iff_isSome_getElem?.mpr hp

/-- A rebuild keeps track of the files if nothing but deletions of what is gone and
additions wait. -/
theorem tracks_rebuild {m : Curator σ} {M : Contents} (h : Engine.Holds c segmenter m.engine M)
    {files : MemorySource}
    (keyed : ∀ (p : String) (op : Operation), m.buffer.items[p]? = some op →
      ∃ t, op = .add p p t ∨ op = .delete p t)
    (deleted : ∀ p, m.awaitsDeletion p → files[p]? = none) :
    Tracks c segmenter (m.rebuild files.toSource).2 files ∅ := by
  obtain ⟨hholds, hcontents⟩ := holds_rebuild h files
  have hbuffer := (rebuild_eq m files).2
  refine ⟨hcontents ▸ hholds, ?_, ?_, fun p text _ hfile => Or.inr ?_⟩
  · rw [hbuffer]
    exact keyed
  · intro p _
    rw [Curator.awaitsDeletion, hbuffer]
    exact deleted p
  · rw [hcontents, MemorySource.contents, hfile]
    rfl

theorem covers_rebuild {m : Curator σ} {M : Contents} (h : Engine.Holds c segmenter m.engine M)
    (files : MemorySource) : Covers (m.rebuild files.toSource).2 files ∅ := by
  intro p _ hsome hfile
  have hp := Std.TreeMap.mem_iff_isSome_getElem?.mp (mem_of_contents_rebuild h hsome)
  rw [hfile] at hp
  cases hp

theorem apart_rebuild {m : Curator σ} {M : Contents} (h : Engine.Holds c segmenter m.engine M)
    {files : MemorySource} (htree : files.IsTree) : Apart (m.rebuild files.toSource).2 :=
  fun p q hp hq =>
    htree.apart p (mem_of_contents_rebuild h hp) q (mem_of_contents_rebuild h hq)

/-! ## Steps -/

theorem files_step (w : World σ) (event : Event) :
    (w.step event).files = event.apply w.files := by
  cases event with
  | edit e between => exact files_edited w e between
  | drain cause => exact files_drain w cause
  | rebuild => rfl

omit [SnapshotStore σ] in
theorem isTree_apply {files : MemorySource} {event : Event} (htree : files.IsTree)
    (hfits : event.Fits c files) : (event.apply files).IsTree := by
  cases event with
  | edit e between => exact hfits.tree
  | drain cause => exact htree
  | rebuild => exact htree

/-- Every step of a world keeps track of the files. -/
theorem tracks_step {event : Event} (h : w.Tracked c segmenter ∅) (htree : w.files.IsTree)
    (hfits : event.Fits c w.files) : (w.step event).Tracked c segmenter ∅ := by
  cases event with
  | edit e between =>
      have hedited := h.edited e between
      rw [Tracked, files_edited] at hedited
      rw [Tracked, files_step]
      exact (hedited.notify hfits htree).1
  | drain cause => exact h.drain cause
  | rebuild =>
      exact tracks_rebuild h.holds h.keyed fun p => h.deleted p (Set.notMem_empty p)

/-- A step covers what is gone exactly if its report reaches all that it is about. -/
theorem covers_step_iff {event : Event} (h : w.Covered ∅) (htracked : w.Tracked c segmenter ∅)
    (htree : w.files.IsTree) (hfits : event.Fits c w.files) :
    (w.step event).Covered ∅ ↔ w.UnobstructedAt event := by
  cases event with
  | edit e between =>
      have hedited := htracked.edited e between
      have hcovered := h.edited htracked e between
      rw [Tracked, files_edited] at hedited
      rw [Covered, files_edited] at hcovered
      rw [Covered, files_step]
      exact (hedited.notify hfits htree).2 hcovered
  | drain cause => exact iff_of_true (h.drain htracked cause) trivial
  | rebuild => exact iff_of_true (covers_rebuild htracked.holds w.files) trivial

/-- While what is indexed is apart nothing obstructs a report, and a calm step keeps it
apart. -/
theorem apart_step {event : Event} (h : Apart w.curator) (hcovered : w.Covered ∅)
    (htracked : w.Tracked c segmenter ∅) (htree : w.files.IsTree) (hfits : event.Fits c w.files)
    (hcalm : event.Calm) : w.UnobstructedAt event ∧ Apart (w.step event).curator := by
  cases event with
  | edit e between =>
      have hapart := apart_edited h hcovered htracked hfits htree hcalm
      have hedited := htracked.edited e between
      refine ⟨?_, ?_⟩
      · cases e with
        | removeFolder dir =>
            have hdir := (hfits.used dir (List.mem_singleton_self dir)).1
            rw [UnobstructedAt, Edit.Unobstructed, Curator.Unobstructed]
            cases hfile : (w.edited (.removeFolder dir) between).curator.engine.contains dir with
            | false => exact Or.inl rfl
            | true =>
                refine Or.inr fun q hq => ?_
                obtain ⟨hsome, hinside⟩ := (Tracks.mem_pathsUnder hedited.holds hdir q).mp hq
                rw [Tracks.contains_iff hedited.holds] at hfile
                exact absurd hinside (hapart dir q hfile hsome)
        | put path text isNew => trivial
        | remove path => trivial
        | move old new => trivial
      · intro p q
        rw [step, notify, Curator.engine_notify]
        exact hapart p q
  | drain cause =>
      refine ⟨trivial, apart_drain h hcovered htracked (fun p q hp hq => ?_) cause⟩
      exact htree.apart p (hp.resolve_right (Set.notMem_empty p)) q
        (hq.resolve_right (Set.notMem_empty q))
  | rebuild => exact ⟨trivial, apart_rebuild htracked.holds htree⟩

/-! ## Runs -/

theorem Starts.holds (h : Starts c segmenter w) :
    w.files.IsTree ∧ w.Tracked c segmenter ∅ ∧ w.Covered ∅ ∧ Apart w.curator := by
  have hrebuild : ∀ (store : σ) {files : MemorySource}, files.IsTree →
      files.IsTree ∧
        Tracks c segmenter ((Curator.new c segmenter store).rebuild files.toSource).2 files ∅ ∧
        Covers ((Curator.new c segmenter store).rebuild files.toSource).2 files ∅ ∧
        Apart ((Curator.new c segmenter store).rebuild files.toSource).2 := by
    intro store files htree
    have hnew : Engine.Holds c segmenter (Curator.new c segmenter store).engine
        Contents.empty := .new c segmenter
    refine ⟨htree, tracks_rebuild hnew ?_ ?_, covers_rebuild hnew files,
      apart_rebuild hnew htree⟩
    · simp [Curator.new]
    · simp [Curator.new, Curator.awaitsDeletion]
  cases h with
  | start htree hstore =>
      rw [Curator.start, Curator.new, hstore]
      exact hrebuild _ htree
  | rebuild htree => exact hrebuild _ htree

theorem run_append (w : World σ) (events events' : List Event) :
    w.run (events ++ events') = (w.run events).run events' :=
  List.foldl_append

/-- Every run keeps track of the files. -/
theorem tracks_run : ∀ {events : List Event} {w : World σ}, w.Tracked c segmenter ∅ →
    w.files.IsTree → Event.FitAll c w.files events → (w.run events).Tracked c segmenter ∅
  | [], _, h, _, _ => h
  | event :: _, w, h, htree, ⟨hfits, hrest⟩ => by
      have hfiles := files_step w event
      exact tracks_run (w := w.step event) (tracks_step h htree hfits)
        (hfiles ▸ isTree_apply htree hfits)
        (hfiles ▸ hrest)

/-- A run in which every report reaches all that it is about covers what is gone. -/
theorem covers_run : ∀ {events : List Event} {w : World σ}, w.Covered ∅ →
    w.Tracked c segmenter ∅ → w.files.IsTree → Event.FitAll c w.files events →
    w.Unobstructed events → (w.run events).Covered ∅
  | [], _, h, _, _, _, _ => h
  | event :: _, w, h, htracked, htree, ⟨hfits, hrest⟩, ⟨hfree, hfrees⟩ => by
      have hfiles := files_step w event
      exact covers_run (w := w.step event) ((covers_step_iff h htracked htree hfits).mpr hfree)
        (tracks_step htracked htree hfits) (hfiles ▸ isTree_apply htree hfits)
        (hfiles ▸ hrest) hfrees

theorem unobstructed_of_calm : ∀ {events : List Event} {w : World σ}, Apart w.curator →
    w.Covered ∅ → w.Tracked c segmenter ∅ → w.files.IsTree → Event.FitAll c w.files events →
    (∀ event ∈ events, event.Calm) → w.Unobstructed events
  | [], _, _, _, _, _, _, _ => trivial
  | event :: events, w, h, hcovered, htracked, htree, ⟨hfits, hrest⟩, hcalm => by
      have hfiles := files_step w event
      obtain ⟨hfree, hapart⟩ :=
        apart_step h hcovered htracked htree hfits (hcalm event List.mem_cons_self)
      exact ⟨hfree, unobstructed_of_calm hapart
        ((covers_step_iff hcovered htracked htree hfits).mpr hfree)
        (tracks_step htracked htree hfits) (hfiles ▸ isTree_apply htree hfits)
        (hfiles ▸ hrest) fun event' hmem => hcalm event' (List.mem_cons_of_mem _ hmem)⟩

/-- Without flushes between the edits that nest and their reports, every report reaches all
that it is about. -/
theorem Starts.unobstructed_of_calm (h : Starts c segmenter w) {events : List Event}
    (hfits : Event.FitAll c w.files events) (hcalm : ∀ event ∈ events, event.Calm) :
    w.Unobstructed events :=
  let ⟨htree, htracked, hcovered, hapart⟩ := h.holds
  World.unobstructed_of_calm hapart hcovered htracked htree hfits hcalm

/-- After any edits and reports, with the buffer drained at any moments, and one last flush
nothing waits and every file is indexed as it is. The index holds what the files contain and
nothing else exactly if a deletion waited for whatever was gone, as is so where every report
reaches all that it is about; every answer is then that of a new curator that builds its index
from the files. -/
theorem Starts.flush_eq_rebuild (S : Type) [Score S] [SoundScore S] {τ : Type} [SnapshotStore τ]
    (h : Starts c segmenter w) {events : List Event} (hfits : Event.FitAll c w.files events)
    (store : τ) :
    let now := w.run events
    let last := (now.drain .forced).curator
    let fresh := ((Curator.new c segmenter store).rebuild now.files.toSource).2
    last.pending = 0 ∧
      (∀ p text : String, now.files[p]? = some text →
        last.engine.contents p = some (fileFields c segmenter p text)) ∧
      (last.engine.contents = now.files.contents c segmenter ↔
        ∀ p, now.curator.engine.contains p → p ∉ now.files → now.curator.awaitsDeletion p) ∧
      (w.Unobstructed events →
        last.engine.contents = now.files.contents c segmenter ∧
        Engine.SameAnswers S last.engine fresh.engine ∧
        ∀ raw combine, last.ask? raw combine = fresh.ask? raw combine) := by
  intro now last fresh
  obtain ⟨htree, htracked, hcovered, -⟩ := h.holds
  have hnow : Tracks c segmenter now.curator now.files ∅ := tracks_run htracked htree hfits
  have hengine := Curator.flush_engine now.curator now.files.toSource
  have hholds : Engine.Holds c segmenter last.engine last.engine.contents :=
    (hnow.holds_drained hengine).1
  have hiff : last.engine.contents = now.files.contents c segmenter ↔
      Covers now.curator now.files ∅ := hnow.contents_eq_iff hengine
  refine ⟨?_, fun p text hfile => ?_, hiff.trans ?_, fun hfree => ?_⟩
  · show (now.drain .forced).curator.pending = 0
    rw [World.drain, Curator.pending, Buffer.size, Curator.flush_items]
    rfl
  · exact (congrFun (hnow.holds_drained hengine).2 p).trans
      (hnow.outlook_of_file (Set.notMem_empty p) hfile)
  · refine forall_congr' fun p => ?_
    rw [Tracks.contains_iff hnow.holds, Std.TreeMap.mem_iff_isSome_getElem?,
      Option.not_isSome_iff_eq_none]
    simp only [Set.mem_empty_iff_false, not_false_eq_true, forall_const]
  · have hcontents := hiff.mpr (covers_run hcovered htracked htree hfits hfree)
    obtain ⟨hfresh, -⟩ := holds_rebuild (m := Curator.new c segmenter store)
      (M := Contents.empty) (.new c segmenter) now.files
    have hlast := hcontents ▸ hholds
    refine ⟨hcontents, hlast.sameAnswers S hfresh, fun raw combine => ?_⟩
    rw [Curator.ask?, Curator.ask?, Curator.config, Curator.config,
      hlast.reached.madeWith.config, hfresh.reached.madeWith.config]

/-- The file `a` becomes a folder with a flush before the report of it, and the folder goes.
Searches then give what they give after a rebuild: with floats where the assertion is checked, and
with real scores in any case. -/
theorem flush_after_removeFolder :
    let files : MemorySource := .ofList [("a", "apple"), ("b", "apple pie")]
    let w : World MemoryStore := ⟨((Curator.new {} none {}).start files.toSource).2, files⟩
    let events : List Event := [.edit (.put "b" "apple" false) [],
      .edit (.move "a" "a/c") [.forced], .edit (.removeFolder "a") [.automatic],
      .edit (.put "a" "pie" true) []]
    let now := w.run events
    let fresh := ((Curator.new {} none ({} : MemoryStore)).rebuild now.files.toSource).2
    let last := (now.drain .forced).curator
    (∀ text o, last.engine.assertingSearch Float text o =
      fresh.engine.assertingSearch Float text o) ∧
      ∀ text o, last.engine.search (S := ℝ) text o = fresh.engine.search text o := by
  intro files w events now fresh last
  have hstart : Starts {} none w := .start (by decide +kernel) rfl
  have hfits : Event.FitAll {} w.files events := by decide +kernel
  have hfree : w.Unobstructed events := by decide +kernel
  have hfloat := hstart.flush_eq_rebuild Float hfits ({} : MemoryStore)
  have hreal := hstart.flush_eq_rebuild ℝ hfits ({} : MemoryStore)
  subst last fresh now
  exact ⟨(hfloat.2.2.2 hfree).2.1.assertingSearch,
    fun text o => (hreal.2.2.2 hfree).2.1.search text o (Score.ordered_real _)⟩

/-! ## A report that is stopped -/

theorem curator_step (w : World σ) (e : Edit) (between : List Drain) :
    (w.step (.edit e between)).curator = (w.edited e between).curator.notify e.report :=
  rfl

/-- A file that is about to be read again is moved into itself, where another file is about to
be read, and the flush that is due comes before the report of the move. Then the index has both,
and the report that the folder is gone leaves the file inside it. -/
theorem contains_of_flush_before_report {dir q : String} {t : Nat}
    (htracked : w.Tracked c segmenter ∅) (htree : w.files.IsTree)
    (hmove : (Edit.move dir q).Fits c w.files)
    (hremove : (Edit.removeFolder dir).Fits c ((Edit.move dir q).apply w.files))
    (hinside : Path.Inside dir q) (hdue : w.curator.buffer.due)
    (hindexed : w.curator.engine.contains dir) (hdir : w.curator.awaitsDeletion dir = false)
    (hq : w.curator.buffer.items[q]? = some (.add q q t)) :
    ((w.run [.edit (.move dir q) [.automatic],
      .edit (.removeFolder dir) []]).drain .forced).curator.engine.contains q := by
  have hne : dir ≠ q := by
    rintro rfl
    have hlength := hinside.length_le
    simp at hlength
  obtain ⟨text, hfile⟩ := Option.isSome_iff_exists.mp
    (Std.TreeMap.mem_iff_isSome_getElem?.mp hmove.proper)
  let moved := (Edit.move dir q).apply w.files
  let settled := w.curator.settle moved.toSource
  -- the flush reads the file inside, and passes over the addition of the folder's path
  have hedited : Tracks c segmenter w.curator moved (changed w.files moved) :=
    Tracks.edit htracked moved
  obtain ⟨hholds, hcontents⟩ :=
    hedited.holds_drained (Curator.settle_of_due hdue moved.toSource).1
  have hgone : moved[dir]? = none := by
    rw [Edit.getElem?_apply_move hfile, if_neg hne.symm, if_pos rfl]
  have hthere : moved[q]? = some text := by
    rw [Edit.getElem?_apply_move hfile, if_pos rfl]
  have hfolder : settled.engine.contains dir = true := by
    rw [Tracks.contains_iff hholds, hcontents, hedited.outlook_of_gone hgone, hdir,
      if_neg Bool.false_ne_true, ← Tracks.contains_iff htracked.holds]
    exact hindexed
  have hfileIn : (settled.engine.contents q).isSome := by
    rw [hcontents, Curator.outlook, hq]
    simp only [Operation.outcome, moved.readAs?_toSource, hthere, Option.map_some]
    rfl
  -- so both reports mean the path of the folder alone
  let reported := (settled.enqueue (.delete dir)).enqueue (.add q q)
  have hconfig : settled.config = c := by
    obtain ⟨-, ds, hds, -⟩ := hholds.records
    exact hds.config
  have hreport : settled.notify (Edit.move dir q).report = reported := by
    rw [Edit.notify_move hconfig hmove, Curator.enqueueDelete_of_contains hfolder]
  have hrun : (w.run [.edit (.move dir q) [.automatic],
      .edit (.removeFolder dir) []]).curator = reported.enqueue (.delete dir) := by
    have hsettled : (w.edited (.move dir q) [.automatic]).curator = settled := rfl
    rw [run, List.foldl_cons, List.foldl_cons, List.foldl_nil, curator_step, edited, List.foldl_nil,
      curator_step, hsettled, hreport, Edit.notify_removeFolder (m := reported) hconfig hremove,
      Curator.enqueueDelete_of_contains (m := reported) hfolder]
  -- the last flush finds no deletion of the file inside
  have hnow : (w.run [.edit (.move dir q) [.automatic],
      .edit (.removeFolder dir) []]).Tracked c segmenter ∅ :=
    tracks_run htracked htree ⟨hmove, hremove, trivial⟩
  have hitem : (reported.enqueue (.delete dir)).buffer.items[q]? =
      some (.add q q (settled.clock + 1)) := by
    rw [Curator.enqueue_delete, if_neg hne, Curator.enqueue_add, if_pos rfl]
    rfl
  have hwaits : (reported.enqueue (.delete dir)).awaitsDeletion q = false := by
    rw [Curator.awaitsDeletion, hitem]
    rfl
  have hempty : (w.run [.edit (.move dir q) [.automatic],
      .edit (.removeFolder dir) []]).files[q]? = none := by
    show ((Edit.removeFolder dir).apply moved)[q]? = none
    rw [Edit.getElem?_apply_removeFolder, if_pos hinside]
  obtain ⟨hlast, houtlook⟩ := hnow.holds_drained (Curator.flush_engine _ _)
  rw [World.drain, Tracks.contains_iff hlast, houtlook, hnow.outlook_of_gone hempty, hrun, hwaits,
    if_neg Bool.false_ne_true]
  exact hfileIn

/-- The file `a` becomes a folder, which goes, twice; the second time the flush that is due
comes between the move and its report, while the operations of the first time wait. The report
that the folder is gone finds `a` indexed as a file and does not reach `a/c`, which stays. -/
theorem folder_report_stopped_by_file :
    let c : Config := { index := { flushThreshold := 2 } }
    let files : MemorySource := .ofList [("a", "apple")]
    let w : World MemoryStore := ⟨((Curator.new c none {}).start files.toSource).2, files⟩
    let once : List Event := [.edit (.move "a" "a/c") [], .edit (.removeFolder "a") [],
      .edit (.put "a" "apple" true) []]
    let again : List Event := [.edit (.move "a" "a/c") [.automatic],
      .edit (.removeFolder "a") []]
    Starts c none w ∧ Event.FitAll c files (once ++ again) ∧
      (w.run (once ++ again)).files.isEmpty ∧
      ((w.run (once ++ again)).drain .forced).curator.engine.contains "a/c" := by
  intro c files w once again
  have hstart : Starts c none w := .start (by decide +kernel) rfl
  obtain ⟨htree, htracked, -, -⟩ := hstart.holds
  refine ⟨hstart, by decide +kernel, by decide +kernel, ?_⟩
  have hfits : Event.FitAll c w.files once := by decide +kernel
  have honce : (w.run once).Tracked c none ∅ := tracks_run htracked htree hfits
  have htree' : (w.run once).files.IsTree := by decide +kernel
  have hmove : (Edit.move "a" "a/c").Fits c (w.run once).files := by decide +kernel
  have hremove : (Edit.removeFolder "a").Fits c
      ((Edit.move "a" "a/c").apply (w.run once).files) := by decide +kernel
  -- both paths wait to be read, and `a` is still indexed from the start
  have hindexed : (w.run once).curator.engine.contains "a" := by decide +kernel
  have hdir : (w.run once).curator.awaitsDeletion "a" = false := by decide +kernel
  have hadd : (w.run once).curator.buffer.items["a/c"]? = some (.add "a/c" "a/c" 1) := by
    decide +kernel
  have hdue : (w.run once).curator.buffer.due := by decide +kernel
  subst again
  rw [run_append]
  exact contains_of_flush_before_report honce htree' hmove hremove (by decide +kernel) hdue
    hindexed hdir hadd

end World

end VaultSearch

import VaultSearch.Proofs.Curator.Restart

/-!
# Starting always ends with an index

A start looks for a snapshot first and builds the index from the source if
there is none, be it that the store fails, that it is empty, or that the
engine refuses what it holds. A refused snapshot has cleared the engine by
then, but a rebuild clears it anyhow, so the start comes to the same as a
rebuild (`start_eq_rebuild`). A rebuild in turn can only fail before it has
changed anything, since it lists the source first and a save that fails is
passed over. So a start fails only with its source, and in no other case is
the index anything but that of the readable documents
(`Reached.start_recovers`).
-/

namespace VaultSearch

/-! ## The documents of a source -/

/-- A document is read under the path that was asked for, whatever path it claims. -/
theorem Source.readAs?_of_read {src : Source} {p : String} {d : Document}
    (h : src.read p = .ok d) :
    src.readAs? p p = some (if d.path = p then d else Document.ofPath p d.content d.aliases) := by
  rw [readAs?, h]

theorem Source.readAs?_of_error {src : Source} {p : String} {f : SourceFault}
    (h : src.read p = .error f) : src.readAs? p p = none := by
  rw [readAs?, h]

/-- Of the documents read from a list of paths, the first at `p` is the one read at `p`. -/
theorem Source.find?_readAll (src : Source) (p : String) : ∀ paths : List String,
    (src.readAll paths).find? (·.path = p) = if p ∈ paths then src.readAs? p p else none
  | [] => rfl
  | q :: paths => by
      have hrest := src.find?_readAll p paths
      rw [readAll] at hrest ⊢
      rw [List.filterMap_cons]
      cases hq : src.readAs? q q with
      | none =>
          simp only []
          rw [hrest]
          by_cases hpq : p = q
          · subst hpq
            simp [hq]
          · simp [hpq]
      | some d =>
          have hpath := Source.path_of_readAs? hq
          simp only []
          rw [List.find?_cons, hpath]
          by_cases hpq : q = p
          · subst hpq
            simp [hq]
          · have hpq' : p ≠ q := fun heq => hpq heq.symm
            simp only [hpq, decide_false, hrest, List.mem_cons, hpq', false_or]

namespace Engine

/-- The engine holds one document for each listed path that can be read, filed under that path
whatever path the source claims, and nothing else. -/
structure FiledFrom (e : Engine) (src : Source) (paths : List String) : Prop where
  readable : ∀ p d, p ∈ paths → src.read p = .ok d → e.contents p = some
    (e.analyse (if d.path = p then d else Document.ofPath p d.content d.aliases)).fields
  unreadable : ∀ p f, src.read p = .error f → e.contains p = false
  unlisted : ∀ p, p ∉ paths → e.contains p = false
  /-- The index has no documents but those. -/
  coherent : e.Coherent e.contents

/-- Rebuilding leaves the analysis of documents as it was. -/
theorem analyse_run (e : Engine) (steps : List Step) : (e.run steps).analyse = e.analyse := by
  funext d
  rw [analyse, analyse]
  unfold terms
  rw [config_run, tokenizer_run]

/-- A rebuilt index holds what the source has at each listed path. -/
theorem MadeWith.contents_reindex {c : Config} {segmenter : Option Segmenter} {e : Engine}
    (h : MadeWith c segmenter e) (src : Source) (paths : List String) (p : String) :
    (e.reindex (src.readAll paths)).1.contents p =
      (if p ∈ paths then src.readAs? p p else none).map fun d => (e.analyse d).fields := by
  obtain ⟨ds, hds, hM⟩ := h.reindex (src.readAll paths)
  rw [hds.contents_eq, hM, Contents.ofList, find?_map_analyse, src.find?_readAll, Option.map_map]
  rfl

theorem MadeWith.filedFrom_reindex {c : Config} {segmenter : Option Segmenter} {e : Engine}
    (h : MadeWith c segmenter e) (src : Source) (paths : List String) :
    (e.reindex (src.readAll paths)).1.FiledFrom src paths := by
  obtain ⟨ds, hds, hM⟩ := h.reindex (src.readAll paths)
  have hcontents := h.contents_reindex src paths
  have hcontains : ∀ p, (if p ∈ paths then src.readAs? p p else none) = none →
      (e.reindex (src.readAll paths)).1.contains p = false := by
    intro p hp
    rw [hds.contains_eq, ← hds.contents_eq, hcontents, hp]
    rfl
  refine ⟨fun p d hp hd => ?_, fun p f hf => hcontains p ?_,
    fun p hp => hcontains p (if_neg hp), ?_⟩
  · rw [hcontents, if_pos hp, Source.readAs?_of_read hd, Option.map_some, Engine.reindex,
      analyse_run]
  · rw [Source.readAs?_of_error hf, ite_self]
  · rw [hds.contents_eq]
    exact hds.coherent_ofList

/-- A rebuild takes nothing over from what a refused snapshot has left. -/
theorem reindex_load_of_error {e : Engine} {blob : Blob} {r : Rejection}
    (h : e.readSnapshot blob = .error r) (docs : List Document) :
    (e.load blob).1.reindex docs = e.reindex docs := by
  rw [Engine.load_of_error h, Engine.reindex, Engine.reindex, reindexSteps, reindexSteps,
    run_append, run_append, run_append, run_append]
  rfl

theorem live_insertAll : ∀ (docs : List Document) (e : Engine),
    (docs.foldl insertDocument e).index.live = e.index.live + docs.length
  | [], _ => rfl
  | d :: docs, e => by
      have hfirst : (e.insertDocument d).index.live = e.index.live + 1 := rfl
      rw [List.foldl_cons, live_insertAll docs, hfirst, List.length_cons]
      omega

/-- A rebuild counts the documents that it takes in. -/
theorem documents_reindex (e : Engine) (docs : List Document) :
    (e.reindex docs).1.stats.documents = (e.reindex docs).2 := by
  have hinsert : ((e.run clearSteps).run
      (e.insertSteps (freshDocuments (fun _ => false) docs))).index.live =
        (freshDocuments (fun _ => false) docs).length := by
    rw [run_insertSteps]
    split
    · rename_i hempty
      rw [List.isEmpty_iff.mp hempty]
      rfl
    · exact (live_insertAll _ _).trans (Nat.zero_add _)
  rw [Engine.reindex, reindexSteps, run_append, run_append]
  exact hinsert

end Engine

namespace Curator

variable {σ : Type} [SnapshotStore σ] {c : Config} {segmenter : Option Segmenter}
  {m : Curator σ}

/-- The store fails, it is empty, or it holds bytes that the engine refuses. -/
def FindsNoIndex (m : Curator σ) : Prop :=
  ∀ blob, SnapshotStore.load m.store = .ok (some blob) → ∃ f, (m.engine.load blob).2 = .error f

/-- A rebuild leaves the engine alone or runs some steps of it. -/
theorem engine_rebuild (m : Curator σ) (src : Source) :
    ∃ steps, (m.rebuild src).2.engine = m.engine.run steps := by
  rw [rebuild]
  split
  · exact ⟨[], rfl⟩
  · exact ⟨_, autosave_engine _⟩

theorem madeWith_rebuild (h : Engine.MadeWith c segmenter m.engine) (src : Source) :
    Engine.MadeWith c segmenter (m.rebuild src).2.engine := by
  obtain ⟨steps, hsteps⟩ := m.engine_rebuild src
  rw [hsteps]
  exact h.run steps

theorem madeWith_start (h : Engine.MadeWith c segmenter m.engine) (src : Source) :
    Engine.MadeWith c segmenter (m.start src).2.engine := by
  rw [start]
  split
  · exact madeWith_rebuild h src
  · exact madeWith_rebuild h src
  · rename_i blob _
    have hload : Engine.MadeWith c segmenter (m.engine.load blob).1 := h.run _
    simp only []
    split
    · exact hload
    · split
      · exact madeWith_rebuild hload src
      · exact hload

theorem madeWith_applyAll {e : Engine} (h : Engine.MadeWith c segmenter e) (src : Source)
    (ops : List Operation) : Engine.MadeWith c segmenter (applyAll src e ops) :=
  applyAll_induction (fun _ docs h => h.obey (.change (.add docs)))
    (fun _ paths h => h.obey (.change (.delete paths))) src ops h

/-- No operation of a curator changes what its engine was made with. -/
theorem Reached.madeWith (h : Reached c segmenter m) : Engine.MadeWith c segmenter m.engine := by
  induction h with
  | new store => exact ⟨rfl, rfl⟩
  | start h src ih => exact madeWith_start ih src
  | rebuild h src ih => exact madeWith_rebuild ih src
  | notify h change ih => rwa [engine_notify]
  | flush h src ih =>
      rw [flush_engine]
      exact madeWith_applyAll ih src _
  | @settle m h src ih =>
      rcases m.settle_cases src with hsame | ⟨hengine, -⟩
      · rwa [hsame]
      · rw [hengine]
        exact madeWith_applyAll ih src _
  | save h ih => exact ih

/-- A rebuild succeeds if the source lists its documents, however the save of the index goes. -/
theorem rebuild_of_list (m : Curator σ) {src : Source} {paths : List String}
    (hlist : src.list = .ok paths) :
    (m.rebuild src).1 = .ok (m.engine.reindex (src.readAll paths)).2 ∧
      (m.rebuild src).2.engine = (m.engine.reindex (src.readAll paths)).1 := by
  rw [rebuild, hlist]
  exact ⟨rfl, autosave_engine _⟩

/-- Otherwise it fails, and nothing has changed. -/
theorem rebuild_of_list_error (m : Curator σ) {src : Source} {g : SourceFault}
    (hlist : src.list = .error g) : m.rebuild src = (.error g.toFault, m) := by
  rw [rebuild, hlist]

theorem start_eq_rebuild (h : m.FindsNoIndex) {src : Source} {paths : List String}
    (hlist : src.list = .ok paths) : m.start src = m.rebuild src := by
  by_cases hload : ∃ blob, SnapshotStore.load m.store = .ok (some blob)
  · obtain ⟨blob, hload⟩ := hload
    obtain ⟨f, hf⟩ := h blob hload
    cases hread : m.engine.readSnapshot blob with
    | ok ix =>
        rw [Engine.load_of_ok hread] at hf
        cases hf
    | error r =>
        rw [start_of_error m src hload hread, rebuild, rebuild, hlist]
        simp only [Engine.reindex_load_of_error hread]
  · exact start_of_absent m src (not_exists.mp hload)

/-- A start takes over the index in the store, or else what it does is a rebuild, perhaps of an
engine that a refused snapshot has cleared. -/
theorem start_cases (m : Curator σ) (src : Source) :
    (∃ blob ix, m.engine.readSnapshot blob = .ok ix ∧
      m.start src = (.ok ix.live, { m with engine := (m.engine.load blob).1 })) ∨
    ∃ m' : Curator σ, m.start src = m'.rebuild src := by
  by_cases hload : ∃ blob, SnapshotStore.load m.store = .ok (some blob)
  · obtain ⟨blob, hload⟩ := hload
    cases hread : m.engine.readSnapshot blob with
    | ok ix => exact .inl ⟨blob, ix, hread, start_of_ok m src hload hread⟩
    | error r => exact .inr ⟨_, start_of_error m src hload hread⟩
  · exact .inr ⟨m, start_of_absent m src (not_exists.mp hload)⟩

/-- The rebuild has succeeded: the engine is ready, and its documents were counted. -/
theorem rebuild_ok {src : Source} {n : Nat} (h : (m.rebuild src).1 = .ok n) :
    (m.rebuild src).2.engine.stats.phase = .ready ∧
      (m.rebuild src).2.engine.stats.documents = n := by
  cases hlist : src.list with
  | error g =>
      rw [m.rebuild_of_list_error hlist] at h
      cases h
  | ok paths =>
      obtain ⟨hcount, hengine⟩ := m.rebuild_of_list hlist
      rw [hcount] at h
      rw [hengine, ← Except.ok.inj h]
      exact ⟨Engine.phase_reindex _ _, Engine.documents_reindex _ _⟩

theorem rebuild_error {src : Source} {f : Fault} (h : (m.rebuild src).1 = .error f) :
    (∃ g, src.list = .error g ∧ f = g.toFault) ∧ (m.rebuild src).2 = m := by
  cases hlist : src.list with
  | error g =>
      rw [m.rebuild_of_list_error hlist] at h ⊢
      exact ⟨⟨g, rfl, (Except.error.inj h).symm⟩, rfl⟩
  | ok paths =>
      rw [(m.rebuild_of_list hlist).1] at h
      cases h

/-- A start fails only if the source cannot list its documents; otherwise the engine is ready
and its documents were counted. Without an index in the store a start is a rebuild, and the
index is that of the listed documents that can be read. A rebuild that fails changes nothing,
and it fails only with its source, whatever becomes of the save. -/
theorem Reached.start_recovers (h : Reached c segmenter m) (src : Source) :
    (∀ f, (m.start src).1 = .error f → ∃ g, src.list = .error g ∧ f = g.toFault) ∧
    (∀ n, (m.start src).1 = .ok n → (m.start src).2.engine.stats.phase = .ready ∧
      (m.start src).2.engine.stats.documents = n) ∧
    (m.FindsNoIndex → ∀ paths, src.list = .ok paths → m.start src = m.rebuild src ∧
      (m.rebuild src).2.engine.FiledFrom src paths) ∧
    (∀ f, (m.rebuild src).1 = .error f → (m.rebuild src).2 = m) ∧
    (∀ paths, src.list = .ok paths →
      (m.rebuild src).1 = .ok (m.rebuild src).2.engine.stats.documents) := by
  refine ⟨fun f hf => ?_, fun n hn => ?_, fun hnone paths hlist => ?_,
    fun f hf => (rebuild_error hf).2, fun paths hlist => ?_⟩
  · rcases m.start_cases src with ⟨blob, ix, -, hstart⟩ | ⟨m', hstart⟩
    · rw [hstart] at hf
      cases hf
    · exact (rebuild_error (hstart ▸ hf)).1
  · rcases m.start_cases src with ⟨blob, ix, hread, hstart⟩ | ⟨m', hstart⟩
    · rw [hstart] at hn ⊢
      rw [Engine.load_of_ok hread]
      exact ⟨rfl, Except.ok.inj hn⟩
    · rw [hstart] at hn ⊢
      exact rebuild_ok hn
  · refine ⟨start_eq_rebuild hnone hlist, ?_⟩
    rw [(m.rebuild_of_list hlist).2]
    exact h.madeWith.filedFrom_reindex src paths
  · obtain ⟨hcount, hengine⟩ := m.rebuild_of_list hlist
    rw [hcount, hengine, Engine.documents_reindex]

/-- The store holds four bytes and refuses to save, the source claims another path for one
document and cannot read another. -/
theorem start_over_junk :
    let src : Source :=
      { read := fun p =>
          if p = "a.md" then .ok (Document.ofPath "a.md" (some "apple") none)
          else if p = "b.md" then .ok (Document.ofPath "x.md" (some "pie") none)
          else .error (.io "denied")
        content := fun _ => .error (.io "denied")
        list := .ok ["a.md", "b.md", "c.md"] }
    let store : MemoryStore :=
      { blob := some [0x6e, 0x6f, 0x70, 0x65], saveFault := some (.internal "save refused") }
    let m := Curator.new {} none store
    m.FindsNoIndex ∧ m.start src = m.rebuild src ∧ ∃ n, (m.start src).1 = .ok n ∧
      (m.start src).2.engine.stats.documents = n ∧
      (m.start src).2.engine.contents "b.md" = some
        (((m.start src).2.engine.analyse (Document.ofPath "b.md" (some "pie") none)).fields) ∧
      (m.start src).2.engine.contains "x.md" = false ∧
      (m.start src).2.engine.contains "c.md" = false := by
  intro src store m
  have hnone : m.FindsNoIndex := by
    intro blob hload
    obtain rfl : [0x6e, 0x6f, 0x70, 0x65] = blob := Option.some.inj (Except.ok.inj hload)
    exact ⟨.snapshotIncompatible .shortHeader, rfl⟩
  have hm : Reached {} none m := .new store
  obtain ⟨-, hready, hrebuild, -, hcount⟩ := hm.start_recovers src
  obtain ⟨hstart, hfiled⟩ := hrebuild hnone _ rfl
  have hok := hcount _ rfl
  rw [← hstart] at hok hfiled
  have hread : src.read "b.md" = .ok (Document.ofPath "x.md" (some "pie") none) := rfl
  have hother : (Document.ofPath "x.md" (some "pie") none).path ≠ "b.md" := by decide
  have hb := hfiled.readable "b.md" _ (by decide) hread
  rw [if_neg hother] at hb
  exact ⟨hnone, hstart, _, hok, (hready _ hok).2, hb, hfiled.unlisted "x.md" (by decide),
    hfiled.unreadable "c.md" _ rfl⟩

end Curator

end VaultSearch

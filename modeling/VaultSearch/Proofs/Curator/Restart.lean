import VaultSearch.Proofs.Curator.Exclusion
import VaultSearch.Proofs.Engine.Transfer
import VaultSearch.Proofs.Index.Packing

/-!
# A restart changes nothing

A curator that saves its index whenever it changes can be replaced at any
time: a new one that starts over the same store answers every question as
the old one does, and only the operations that wait are lost
(`Lasting.restart`). What carries this is that the store holds a blob that
reads back as the index of the curator (`Saved`), and every operation of the
curator keeps it so, whatever the source does in the meantime. How an index
is packed does not matter, as long as it is restored (`Packing.Restores`).
-/

namespace VaultSearch

/-- In a good state a blob that is saved is there to be loaded, and the state after the save is
good again. -/
structure SnapshotStore.Keeps {σ : Type} [SnapshotStore σ] (good : σ → Prop) : Prop where
  good_save : ∀ s blob, good s → good (save blob s).2
  load_save : ∀ s blob, good s → load (save blob s).2 = .ok (some blob)

namespace Engine

variable {c : Config} {segmenter : Option Segmenter} {e : Engine}

/-- The engine answers, and its index is made up of some documents. -/
def Stands (c : Config) (segmenter : Option Segmenter) (e : Engine) : Prop :=
  e.isReady ∧ ∃ ds, Records c segmenter e ds

theorem stands_new (c : Config) (segmenter : Option Segmenter) :
    Stands c segmenter (Engine.new c segmenter) :=
  ⟨rfl, [], Records.new c segmenter⟩

namespace Stands

theorem add (h : Stands c segmenter e) (docs : List Document) :
    Stands c segmenter (e.add docs).1 := by
  obtain ⟨hready, ds, hds⟩ := h
  obtain ⟨ds', hds', -⟩ := hds.add docs
  exact ⟨isReady_add hready docs, ds', hds'⟩

theorem delete (h : Stands c segmenter e) (paths : List String) :
    Stands c segmenter (e.delete paths).1 := by
  obtain ⟨hready, ds, hds⟩ := h
  obtain ⟨ds', hds', -, -, hphase⟩ := hds.delete paths
  refine ⟨?_, ds', hds'⟩
  rw [isReady] at hready ⊢
  exact hphase.symm ▸ hready

theorem applyAll (h : Stands c segmenter e) (src : Source) (batch : List Operation) :
    Stands c segmenter (Curator.applyAll src e batch) :=
  Curator.applyAll_induction (fun _ docs h => h.add docs) (fun _ paths h => h.delete paths)
    src batch h

theorem reindex (h : Stands c segmenter e) (docs : List Document) :
    Stands c segmenter (e.reindex docs).1 := by
  obtain ⟨-, ds, hds⟩ := h
  obtain ⟨ds', hds', -⟩ := hds.reindex docs
  refine ⟨?_, ds', hds'⟩
  rw [isReady, phase_reindex]
  rfl

variable [Packing]

/-- An engine takes over what another one has saved, or it is left empty. -/
theorem load (h : Stands c segmenter e) (hrestores : Packing.Restores) {c' : Config}
    {segmenter' : Option Segmenter} {e' : Engine} (h' : Stands c' segmenter' e') :
    Stands c segmenter (e.load e'.serialize).1 := by
  obtain ⟨-, ds, hds⟩ := h
  obtain ⟨-, ds', hds'⟩ := h'
  have hread := readSnapshot_serialize_of_restores hrestores e hds'.index
  split at hread
  · rw [load_of_ok hread]
    exact ⟨rfl, ds', hds.config, hds.tokenizer, hds'.index,
      Records.getElem?_slotsOf hds'.index hds'.distinctPaths⟩
  · rw [load_of_error hread]
    exact ⟨rfl, [], hds.config, hds.tokenizer, Index.Records.empty, hds.clear.slots⟩

end Stands

theorem readSnapshot_congr [Packing] {e e' : Engine} (h : e.config = e'.config) (blob : Blob) :
    e.readSnapshot blob = e'.readSnapshot blob := by
  rw [readSnapshot, readSnapshot, h]

end Engine

namespace Curator

section Restart

variable {σ : Type} [SnapshotStore σ] [Packing] {c : Config} {segmenter : Option Segmenter}
  {good : σ → Prop} {m : Curator σ}

/-! ## Starting -/

theorem start_of_absent (m : Curator σ) (src : Source)
    (hload : ∀ blob, SnapshotStore.load m.store ≠ .ok (some blob)) :
    m.start src = m.rebuild src := by
  rw [start]
  split
  · rfl
  · rfl
  · rename_i blob hblob
    exact absurd hblob (hload blob)

theorem start_of_ok (m : Curator σ) (src : Source) {blob : Blob} {ix : Index}
    (hload : SnapshotStore.load m.store = .ok (some blob))
    (hread : m.engine.readSnapshot blob = .ok ix) :
    m.start src = (.ok ix.live, { m with engine := (m.engine.load blob).1 }) := by
  rw [start, hload]
  simp only [Engine.load_of_ok hread]

theorem start_of_error (m : Curator σ) (src : Source) {blob : Blob} {r : Rejection}
    (hload : SnapshotStore.load m.store = .ok (some blob))
    (hread : m.engine.readSnapshot blob = .error r) :
    m.start src = Curator.rebuild { m with engine := (m.engine.load blob).1 } src := by
  rw [start, hload]
  simp only [Engine.load_of_error hread]
  rfl

/-! ## The saved index -/

/-- The store holds a blob that reads back as the index of the curator. -/
structure Saved (c : Config) (segmenter : Option Segmenter) (good : σ → Prop) (m : Curator σ) :
    Prop where
  stands : m.engine.Stands c segmenter
  good : good m.store
  kept : ∃ blob, SnapshotStore.load m.store = .ok (some blob) ∧
    m.engine.readSnapshot blob = .ok m.engine.index

theorem saved_save (hrestores : Packing.Restores) (hkeeps : SnapshotStore.Keeps good)
    (hstands : m.engine.Stands c segmenter) (hgood : good m.store) :
    Saved c segmenter good m.save.2 where
  stands := hstands
  good := hkeeps.good_save m.store _ hgood
  kept := by
    obtain ⟨-, ds, hds⟩ := hstands
    refine ⟨m.engine.serialize, hkeeps.load_save m.store _ hgood, ?_⟩
    exact (Engine.readSnapshot_serialize_of_restores hrestores m.engine hds.index).trans
      (if_pos rfl)

theorem saved_autosave (hrestores : Packing.Restores) (hkeeps : SnapshotStore.Keeps good)
    (hsave : c.index.saveSnapshot = true) (hstands : m.engine.Stands c segmenter)
    (hgood : good m.store) : Saved c segmenter good m.autosave := by
  have hconfig : m.config = c := by
    obtain ⟨-, ds, hds⟩ := hstands
    exact hds.config
  rw [autosave, hconfig, if_pos hsave]
  exact saved_save hrestores hkeeps hstands hgood

omit [SnapshotStore σ] [Packing] in
theorem store_enqueueDelete (m : Curator σ) (path : String) :
    (m.enqueueDelete path).store = m.store := by
  rw [enqueueDelete_eq]
  exact List.foldlRecOn (motive := fun m' : Curator σ => m'.store = m.store) _ _ rfl
    fun m' hm' p _ => hm'

omit [SnapshotStore σ] [Packing] in
theorem store_notify (m : Curator σ) (change : Change) : (m.notify change).store = m.store := by
  obtain ⟨m', hm', hnotify⟩ := notify_cases m change
  have hstore : m'.store = m.store := by
    rcases hm' with rfl | ⟨old, -, rfl⟩
    · rfl
    · exact store_enqueueDelete m old
  rcases hnotify with hnotify | ⟨-, hnotify | hnotify⟩
  · rw [hnotify, hstore]
  · rw [hnotify, store_enqueueDelete, hstore]
  · rw [hnotify]
    exact hstore

/-- A rebuild fails and changes nothing, or else the index that it builds is saved. -/
theorem saved_rebuild (hrestores : Packing.Restores) (hkeeps : SnapshotStore.Keeps good)
    (hsave : c.index.saveSnapshot = true) (hstands : m.engine.Stands c segmenter)
    (hgood : good m.store) (src : Source) :
    (∃ f, m.rebuild src = (.error f, m)) ∨ Saved c segmenter good (m.rebuild src).2 := by
  rw [rebuild]
  split
  · exact Or.inl ⟨_, rfl⟩
  · exact Or.inr (saved_autosave hrestores hkeeps hsave (hstands.reindex _) hgood)

namespace Saved

theorem of_eq {m' : Curator σ} (h : Saved c segmenter good m) (hengine : m'.engine = m.engine)
    (hstore : m'.store = m.store) : Saved c segmenter good m' where
  stands := hengine.symm ▸ h.stands
  good := hstore.symm ▸ h.good
  kept := by
    rw [hengine, hstore]
    exact h.kept

theorem applyBatch (h : Saved c segmenter good m) (hrestores : Packing.Restores)
    (hkeeps : SnapshotStore.Keeps good) (hsave : c.index.saveSnapshot = true) (src : Source)
    (batch : List (String × Operation)) : Saved c segmenter good (m.applyBatch src batch) := by
  rw [Curator.applyBatch]
  split
  · exact h
  · exact saved_autosave hrestores hkeeps hsave (h.stands.applyAll src _) h.good

end Saved

/-! ## Curators that last -/

/-- What is in the store was saved by some engine, under whatever settings. -/
def OwnStore (store : σ) : Prop :=
  ∀ blob, SnapshotStore.load store = .ok (some blob) →
    ∃ c segmenter e, Engine.Stands c segmenter e ∧ blob = e.serialize

/-- The curators that come about once a new one has started over a store that only curators
have written, each operation with a source of its own. -/
inductive Lasting (c : Config) (segmenter : Option Segmenter) (good : σ → Prop) :
    Curator σ → Prop where
  | start {store : σ} {src : Source} {n : Nat} (hgood : good store)
      (hown : OwnStore store) (hstart : ((Curator.new c segmenter store).start src).1 = .ok n) :
      Lasting c segmenter good ((Curator.new c segmenter store).start src).2
  | notify {m : Curator σ} (h : Lasting c segmenter good m) (change : Change) :
      Lasting c segmenter good (m.notify change)
  | flush {m : Curator σ} (h : Lasting c segmenter good m) (src : Source) :
      Lasting c segmenter good (m.flush src).1
  | settle {m : Curator σ} (h : Lasting c segmenter good m) (src : Source) :
      Lasting c segmenter good (m.settle src)
  | rebuild {m : Curator σ} (h : Lasting c segmenter good m) (src : Source) :
      Lasting c segmenter good (m.rebuild src).2
  | save {m : Curator σ} (h : Lasting c segmenter good m) : Lasting c segmenter good m.save.2

/-- A curator that has started has its index in the store: it has just loaded it from there or
saved it. -/
theorem saved_start (hrestores : Packing.Restores) (hkeeps : SnapshotStore.Keeps good)
    (hsave : c.index.saveSnapshot = true) (hstands : m.engine.Stands c segmenter)
    (hgood : good m.store) (hown : OwnStore m.store) {src : Source} {n : Nat}
    (hstart : (m.start src).1 = .ok n) : Saved c segmenter good (m.start src).2 := by
  -- a rebuild that succeeds at the start saves what it has built
  have hrebuilt : ∀ m : Curator σ, m.engine.Stands c segmenter → good m.store →
      (m.rebuild src).1 = .ok n → Saved c segmenter good (m.rebuild src).2 := by
    intro m hstands hgood hok
    rcases saved_rebuild hrestores hkeeps hsave hstands hgood src with ⟨f, hfail⟩ | hsaved
    · rw [hfail] at hok
      cases hok
    · exact hsaved
  by_cases hload : ∃ blob, SnapshotStore.load m.store = .ok (some blob)
  · obtain ⟨blob, hload⟩ := hload
    obtain ⟨c', segmenter', e', h', rfl⟩ := hown blob hload
    have hloaded := hstands.load hrestores h'
    cases hread : m.engine.readSnapshot e'.serialize with
    | ok ix =>
        rw [start_of_ok m src hload hread]
        rw [Engine.load_of_ok hread] at hloaded ⊢
        exact ⟨hloaded, hgood, _, hload, (Engine.readSnapshot_congr rfl _).trans hread⟩
    | error r =>
        rw [start_of_error m src hload hread] at hstart ⊢
        -- what was loaded does not matter, only that the engine stands
        generalize (m.engine.load e'.serialize).1 = loaded at hloaded hstart ⊢
        exact hrebuilt { m with engine := loaded } hloaded hgood hstart
  · rw [start_of_absent m src (not_exists.mp hload)] at hstart ⊢
    exact hrebuilt _ hstands hgood hstart

theorem Lasting.saved (h : Lasting c segmenter good m) (hrestores : Packing.Restores)
    (hkeeps : SnapshotStore.Keeps good) (hsave : c.index.saveSnapshot = true) :
    Saved c segmenter good m := by
  induction h with
  | start hgood hown hstart =>
      exact saved_start hrestores hkeeps hsave (Engine.stands_new c segmenter) hgood hown hstart
  | notify h change ih => exact ih.of_eq (engine_notify _ change) (store_notify _ change)
  | @flush m h src ih =>
      have hdrained : Saved c segmenter good { m with buffer := m.buffer.drain.2 } :=
        ih.of_eq rfl rfl
      exact hdrained.applyBatch hrestores hkeeps hsave src m.buffer.drain.1
  | @settle m h src ih =>
      have hsettled : Saved c segmenter good { m with buffer := m.buffer.settle.2 } :=
        ih.of_eq rfl rfl
      exact hsettled.applyBatch hrestores hkeeps hsave src m.buffer.settle.1
  | @rebuild m h src ih =>
      rcases saved_rebuild hrestores hkeeps hsave ih.stands ih.good src with ⟨f, hfail⟩ | hsaved
      · rw [hfail]
        exact ih
      · exact hsaved
  | save h ih => exact saved_save hrestores hkeeps ih.stands ih.good

/-! ## Starting again -/

/-- No question tells the two curators apart. -/
structure AnswersAs (S : Type) [Score S] (m m' : Curator σ) : Prop where
  search : ∀ raw combine, m.search (S := S) raw combine = m'.search raw combine
  lines : ∀ src path raw count combine,
    m.lines (S := S) src path raw count combine = m'.lines src path raw count combine
  items : ∀ src raw count combine,
    m.items (S := S) src raw count combine = m'.items src raw count combine
  contains : ∀ path, m.engine.contains path = m'.engine.contains path
  documents : m.engine.stats.documents = m'.engine.stats.documents
  terms : m.engine.stats.terms = m'.engine.stats.terms

omit [SnapshotStore σ] [Packing] in
/-- Answers are read off the index, and off the slot of each path. -/
theorem answersAs_of_index (S : Type) [Score S] {m m' : Curator σ}
    (hconfig : m.engine.config = m'.engine.config)
    (htokenizer : m.engine.tokenizer = m'.engine.tokenizer)
    (hready : m.engine.isReady = m'.engine.isReady) (hindex : m.engine.index = m'.engine.index)
    (hslots : ∀ path : String, m.engine.slots[path]? = m'.engine.slots[path]?) :
    AnswersAs S m m' := by
  have hask : ∀ raw combine, m.ask? raw combine = m'.ask? raw combine := by
    intro raw combine
    rw [ask?, ask?, config, config, hconfig]
  have hterms : m.engine.terms = m'.engine.terms := by
    funext text
    rw [Engine.terms, Engine.terms, htokenizer, hconfig]
  have hsearch : ∀ raw combine, m.search (S := S) raw combine = m'.search raw combine := by
    intro raw combine
    rw [search, search, hask]
    split
    · rfl
    · rw [Engine.search, Engine.search, hready, hindex, hconfig, hterms]
  have hlines : ∀ src path raw count combine,
      m.lines (S := S) src path raw count combine = m'.lines src path raw count combine := by
    intro src path raw count combine
    have hmatch : ∀ text o, m.engine.matchDocument (S := S) path text o =
        m'.engine.matchDocument path text o := by
      intro text o
      rw [Engine.matchDocument, Engine.matchDocument, hready, hindex, hconfig, hterms, hslots]
    simp only [lines, hask, hmatch, config, hconfig]
  constructor
  · exact hsearch
  · exact hlines
  · intro src raw count combine
    simp only [items, hsearch, hlines]
  · intro path
    rw [Engine.contains, Engine.contains, Std.TreeMap.contains_eq_isSome_getElem?,
      Std.TreeMap.contains_eq_isSome_getElem?, hslots]
  · rw [Engine.stats, Engine.stats, hindex]
  · rw [Engine.stats, Engine.stats, hindex]

end Restart

theorem keeps_memoryStore :
    SnapshotStore.Keeps fun s : MemoryStore => s.loadFault = none ∧ s.saveFault = none where
  good_save := by
    rintro s blob ⟨hload, hsave⟩
    simp [SnapshotStore.save, hload, hsave]
  load_save := by
    rintro s blob ⟨hload, hsave⟩
    simp [SnapshotStore.save, SnapshotStore.load, hload, hsave]

end Curator

end VaultSearch

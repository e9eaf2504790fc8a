import VaultSearch.Proofs.Curator.Deletions
import VaultSearch.VaultFolder

/-!
# What the exclude patterns keep out

Paths come into the index of a vault, and so among the hits of a search
(`Engine.indexes_of_mem_search`), in three ways: the vault lists them for a
rebuild, a report of a change names them, and a snapshot brings them along.
The first two leave out what is excluded. The third does not look at the
patterns, and the fingerprint of a snapshot does not name them. So whether
anything excluded is ever indexed depends on the snapshot that the curator
starts from, and on nothing that happens afterwards
(`VaultFolder.omits_excluded_iff`); a vault whose patterns have changed
since its last snapshot keeps what they now exclude
(`VaultFolder.earlier_snapshot_brings_excluded`).
-/

namespace VaultSearch

/-! ## The paths of an index -/

namespace Engine

variable {e : Engine} {q : String}

/-- The engine knows a document at `q`: it contains the path, or its index has an entry
with it, which is then a possible hit. -/
def Indexes (e : Engine) (q : String) : Prop :=
  e.contains q ∨ ∃ slot entry, e.index.entry? slot = some entry ∧ entry.path = q

theorem not_indexes_of_empty (hslots : e.slots = {}) (hindex : e.index = {}) : ¬e.Indexes q := by
  rintro (hq | ⟨slot, entry, hentry, -⟩)
  · rw [contains, hslots] at hq
    simp at hq
  · rw [hindex] at hentry
    simp [Index.entry?] at hentry

/-- What is found is indexed. -/
theorem indexes_of_mem_search {S : Type} [Score S] {text : String} {o : SearchOptions}
    {hits : List (Hit S)} (h : e.search text o = .ok hits) {hit : Hit S} (hmem : hit ∈ hits) :
    e.Indexes hit.path := by
  rw [search] at h
  split at h
  · cases h
  · obtain rfl := Except.ok.inj h
    obtain ⟨slot, entry, hentry, hpath, -⟩ :=
      exists_entry_of_mem_hits (List.mem_mergeSort.mp (List.mem_of_mem_take hmem))
    exact Or.inr ⟨slot, entry, hentry, hpath⟩

theorem Indexes.of_insertDocument {d : Document} (h : (e.insertDocument d).Indexes q) :
    e.Indexes q ∨ q = d.path := by
  rcases h with hq | ⟨slot, entry, hentry, rfl⟩
  · exact (contains_insertDocument.mp hq).imp Or.inl Eq.symm
  · rw [insertDocument, Index.entry?, Index.insert] at hentry
    simp only [Array.getElem?_push] at hentry
    split at hentry
    · obtain rfl := Option.some.inj hentry
      exact Or.inr rfl
    · exact Or.inl (Or.inr ⟨slot, entry, hentry, rfl⟩)

theorem Indexes.of_insertAll : ∀ (docs : List Document) {e : Engine},
    (docs.foldl Engine.insertDocument e).Indexes q → e.Indexes q ∨ q ∈ docs.map (·.path)
  | [], _, h => Or.inl h
  | d :: docs, _, h => by
      rw [List.map_cons, List.mem_cons]
      rcases of_insertAll docs h with hq | hq
      · exact hq.of_insertDocument.imp_right Or.inl
      · exact Or.inr (Or.inr hq)

theorem Indexes.of_insertSteps {e' : Engine} {docs : List Document}
    (h : (e.run (e'.insertSteps docs)).Indexes q) : e.Indexes q ∨ q ∈ docs.map (·.path) := by
  rw [run_insertSteps] at h
  split at h
  · exact Or.inl h
  · exact of_insertAll docs h

theorem mem_paths_of_freshDocuments {seen : String → Bool} {docs : List Document}
    (h : q ∈ (freshDocuments seen docs).map (·.path)) : q ∈ docs.map (·.path) := by
  rw [paths_freshDocuments, List.mem_eraseDups, List.mem_filter] at h
  exact h.1

theorem Indexes.of_add {docs : List Document} (h : (e.add docs).1.Indexes q) :
    e.Indexes q ∨ q ∈ docs.map (·.path) := by
  have hsteps : (e.run (e.insertSteps (freshDocuments e.contains docs))).Indexes q := by
    rw [add, addSteps, run_append] at h
    split at h
    · exact h
    · exact h
  exact hsteps.of_insertSteps.imp_right mem_paths_of_freshDocuments

theorem Indexes.of_deleteOne {acc : Engine × List String} {path : String}
    (h : (Engine.deleteOne acc path).1.Indexes q) : acc.1.Indexes q := by
  obtain ⟨e, removed⟩ := acc
  rcases h with hq | ⟨slot, entry, hentry, rfl⟩
  · exact Or.inl (contains_deleteOne.mp hq).1
  · refine Or.inr ⟨slot, entry, ?_, rfl⟩
    rw [Engine.deleteOne] at hentry
    cases hslot : e.slots[path]? with
    | none => simpa only [hslot] using hentry
    | some gone =>
        have hremove : Index.entry? (e.index.remove gone) slot = some entry := by
          simp only [hslot] at hentry
          cases hgone : e.index.entry? gone with
          | none => simpa only [hgone] using hentry
          | some _ => simpa only [hgone] using hentry
        rw [Index.remove] at hremove
        split at hremove
        · exact hremove
        · rw [Index.entry?, Array.getElem?_setIfInBounds] at hremove
          split at hremove
          · split at hremove <;> cases hremove
          · exact hremove

theorem Indexes.of_delete {paths : List String} (h : (e.delete paths).1.Indexes q) :
    e.Indexes q := by
  have hall : ∀ (paths : List String) (acc : Engine × List String),
      (paths.foldl Engine.deleteOne acc).1.Indexes q → acc.1.Indexes q := by
    intro paths
    induction paths with
    | nil => exact fun _ hq => hq
    | cons p paths ih => exact fun acc hq => (ih _ hq).of_deleteOne
  rw [Engine.delete] at h
  simp only [] at h
  split at h
  · exact hall paths (e, []) h
  · exact hall paths (e, []) h

theorem Indexes.of_reindex {docs : List Document} (h : (e.reindex docs).1.Indexes q) :
    q ∈ docs.map (·.path) := by
  rw [reindex, reindexSteps, run_append, run_append] at h
  have hsteps : ((e.run clearSteps).run
      (e.insertSteps (freshDocuments (fun _ => false) docs))).Indexes q := h
  rcases hsteps.of_insertSteps with hq | hq
  · exact absurd hq (not_indexes_of_empty rfl rfl)
  · exact mem_paths_of_freshDocuments hq

/-- After a load the paths are those in the snapshot, if it is accepted, and else there are
none. -/
theorem indexes_load_iff {blob : List UInt8} :
    (e.load blob).1.Indexes q ↔
      ∃ ix, e.readSnapshot blob = .ok ix ∧ ∃ entry, some entry ∈ ix.docs.toList ∧
        entry.path = q := by
  cases hread : e.readSnapshot blob with
  | error r =>
      have hnone : ¬(e.load blob).1.Indexes q := by
        rw [load, loadSteps, hread]
        exact not_indexes_of_empty rfl rfl
      simp [hnone]
  | ok ix =>
      have hslots : (e.load blob).1.slots = slotsOf ix := by rw [load, loadSteps, hread]; rfl
      have hindex : (e.load blob).1.index = ix := by rw [load, loadSteps, hread]; rfl
      have hentries : ∀ entry, some entry ∈ ix.docs.toList ↔
          ∃ slot, ix.entry? slot = some entry := by
        intro entry
        simp [List.mem_iff_getElem?, Index.entry?, Option.join_eq_some_iff]
      constructor
      · rintro (hq | ⟨slot, entry, hentry, hpath⟩)
        · rw [contains, hslots, Std.TreeMap.contains_eq_isSome_getElem?] at hq
          obtain ⟨slot, hslot⟩ := Option.isSome_iff_exists.mp hq
          obtain ⟨entry, hentry, hpath⟩ := entry?_of_slotsOf hslot
          exact ⟨ix, rfl, entry, (hentries entry).mpr ⟨slot, hentry⟩, hpath⟩
        · rw [hindex] at hentry
          exact ⟨ix, rfl, entry, (hentries entry).mpr ⟨slot, hentry⟩, hpath⟩
      · rintro ⟨ix', heq, entry, hmem, hpath⟩
        obtain rfl := Except.ok.inj heq
        obtain ⟨slot, hentry⟩ := (hentries entry).mp hmem
        exact Or.inr ⟨slot, entry, hindex.symm ▸ hentry, hpath⟩

end Engine

/-! ## What operations bring into the index -/

namespace Curator

/-- The engine or a document held back has the path. -/
def Mentions (acc : Engine × List Document) (q : String) : Prop :=
  acc.1.Indexes q ∨ q ∈ acc.2.map (·.path)

theorem mentions_of_addRead {acc : Engine × List Document} {q : String}
    (h : (addRead acc.1 acc.2).Indexes q) : Mentions acc q := by
  rw [addRead] at h
  split at h
  · exact Or.inl h
  · exact h.of_add

/-- Only an addition brings a path along, and it brings its own. -/
theorem mentions_of_applyOne {src : Source} {acc : Engine × List Document} {op : Operation}
    {q : String} (h : Mentions (applyOne src acc op) q) :
    Mentions acc q ∨ ∃ source t, op = .add q source t := by
  cases op with
  | add path source t =>
      rw [applyOne] at h
      cases hread : src.readAs? path source with
      | none =>
          simp only [hread] at h
          exact Or.inl h
      | some d =>
          simp only [hread] at h
          rcases h with (hq : (acc.1.delete [path]).1.Indexes q) | hq
          · exact Or.inl (Or.inl hq.of_delete)
          · rw [List.map_append, List.mem_append] at hq
            rcases hq with hq | hq
            · exact Or.inl (Or.inr hq)
            · obtain rfl : q = d.path := by simpa using hq
              exact Or.inr ⟨source, t, by rw [Source.path_of_readAs? hread]⟩
  | delete path t =>
      rw [applyOne] at h
      rcases h with (hq : ((addRead acc.1 acc.2).delete [path]).1.Indexes q) | hq
      · exact Or.inl (mentions_of_addRead hq.of_delete)
      · cases hq

theorem mentions_of_foldl {src : Source} {q : String} : ∀ (ops : List Operation)
    {acc : Engine × List Document}, Mentions (ops.foldl (applyOne src) acc) q →
    Mentions acc q ∨ ∃ source t, .add q source t ∈ ops
  | [], _, h => Or.inl h
  | op :: ops, _, h => by
      rcases mentions_of_foldl ops h with hq | ⟨source, t, hmem⟩
      · rcases mentions_of_applyOne hq with hq | ⟨source, t, rfl⟩
        · exact Or.inl hq
        · exact Or.inr ⟨source, t, List.mem_cons_self⟩
      · exact Or.inr ⟨source, t, List.mem_cons_of_mem _ hmem⟩

theorem indexes_of_applyAll {src : Source} {e : Engine} {ops : List Operation} {q : String}
    (h : (applyAll src e ops).Indexes q) : e.Indexes q ∨ ∃ source t, .add q source t ∈ ops := by
  rw [applyAll] at h
  rcases mentions_of_foldl _ (mentions_of_addRead h) with (hq | hq) | ⟨source, t, hmem⟩
  · exact Or.inl hq
  · cases hq
  · exact Or.inr ⟨source, t, List.mem_mergeSort.mp hmem⟩

/-! ## Curators that leave out what is excluded -/

variable {σ : Type} [SnapshotStore σ] {c : Config} {m : Curator σ}

/-- A start takes over the snapshot in the store if it is accepted. -/
theorem engine_start (m : Curator σ) (src : Source) {blob : Blob} {ix : Index}
    (hstore : SnapshotStore.load m.store = .ok (some blob))
    (hread : m.engine.readSnapshot blob = .ok ix) :
    (m.start src).2.engine = (m.engine.load blob).1 := by
  have hload : (m.engine.load blob).2 = .ok ix.live := by rw [Engine.load, hread]
  simp only [Curator.start, hstore, hload]

/-- A rebuild saves the index that it has built. -/
theorem store_rebuild (m : Curator σ) (src : Source) {paths : List String}
    (hlist : src.list = .ok paths) (hsave : m.config.index.saveSnapshot = true) :
    (m.rebuild src).2.store =
      (SnapshotStore.save (m.engine.reindex (src.readAll paths)).1.serialize m.store).2 := by
  let m' : Curator σ := { m with engine := (m.engine.reindex (src.readAll paths)).1 }
  have hsave' : m'.config.index.saveSnapshot = true :=
    (congrArg (·.index.saveSnapshot) (Engine.config_run _ _)).trans hsave
  have hrebuild : (m.rebuild src).2 = m'.autosave := by
    rw [Curator.rebuild, hlist]
  rw [hrebuild, autosave, if_pos hsave']
  rfl

/-- Nothing that `c` excludes is indexed, and none of it waits to be added. -/
structure Omits (c : Config) (m : Curator σ) : Prop where
  config : m.config = c
  indexed : ∀ q, m.engine.Indexes q → c.shouldExclude q = false
  waiting : ∀ (p q source : String) (t : Nat), m.buffer.items[p]? = some (.add q source t) →
    c.shouldExclude q = false

namespace Omits

omit [SnapshotStore σ] in
theorem enqueue (h : Omits c m) {op : Nat → Operation}
    (hop : ∀ q source t, op m.clock = .add q source t → c.shouldExclude q = false) :
    Omits c (m.enqueue op) where
  config := h.config
  indexed := h.indexed
  waiting p q source t hp := by
    rw [Curator.enqueue, Buffer.insert, Std.TreeMap.getElem?_insert] at hp
    split at hp
    · exact hop q source t (Option.some.inj hp)
    · exact h.waiting p q source t hp

omit [SnapshotStore σ] in
theorem enqueueDelete (h : Omits c m) (path : String) : Omits c (m.enqueueDelete path) := by
  rw [enqueueDelete_eq]
  exact List.foldlRecOn _ _ h fun m' hm' p _ => hm'.enqueue fun _ _ _ heq => by cases heq

omit [SnapshotStore σ] in
/-- A report adds no excluded path, not even as the end of a move. -/
theorem notify (h : Omits c m) (change : Change) : Omits c (m.notify change) := by
  obtain ⟨m', hm', hnotify⟩ := notify_cases m change
  have hold : Omits c m' := by
    rcases hm' with rfl | ⟨old, -, rfl⟩
    · exact h
    · exact h.enqueueDelete old
  rcases hnotify with hnotify | ⟨hincluded, hnotify | hnotify⟩
  · rwa [hnotify]
  · rw [hnotify]
    exact hold.enqueueDelete change.path
  · -- the only addition is of the path that was found to be included
    rw [hnotify]
    refine hold.enqueue fun q source t heq => ?_
    obtain ⟨rfl, -⟩ := Operation.add.inj heq
    rwa [hold.config] at hincluded

omit [SnapshotStore σ] in
/-- Applying what waits keeps what is excluded out. -/
theorem applyAll {m' : Curator σ} (h : Omits c m) {src : Source}
    (hengine : m'.engine = Curator.applyAll src m.engine (batch m.buffer.items))
    (hitems : m'.buffer.items = {}) : Omits c m' where
  config := by rw [Curator.config, hengine, config_applyAll, ← Curator.config, h.config]
  indexed q hq := by
    rw [hengine] at hq
    rcases indexes_of_applyAll hq with hq | ⟨source, t, hmem⟩
    · exact h.indexed q hq
    · obtain ⟨p, hp⟩ := Tracks.mem_batch.mp hmem
      exact h.waiting p q source t hp
  waiting p q source t hp := by simp [hitems] at hp

theorem flush (h : Omits c m) (src : Source) : Omits c (m.flush src).1 :=
  h.applyAll (flush_engine m src) (flush_items m src)

theorem settle (h : Omits c m) (src : Source) : Omits c (m.settle src) := by
  rcases m.settle_cases src with hsame | ⟨hengine, hitems⟩
  · rwa [hsame]
  · exact h.applyAll hengine hitems

/-- A rebuild takes in what the source lists, or else fails and changes nothing. -/
theorem rebuild (h : Omits c m) {src : Source}
    (hlist : ∀ paths, src.list = .ok paths → ∀ p ∈ paths, c.shouldExclude p = false) :
    Omits c (m.rebuild src).2 where
  config := (config_rebuild m src).trans h.config
  indexed q hq := by
    rw [Curator.rebuild] at hq
    cases hpaths : src.list with
    | error f =>
        simp only [hpaths] at hq
        exact h.indexed q hq
    | ok paths =>
        simp only [hpaths, autosave_engine] at hq
        obtain ⟨d, hd, rfl⟩ := List.mem_map.mp hq.of_reindex
        obtain ⟨p, hp, hread⟩ := List.mem_filterMap.mp hd
        rw [Source.path_of_readAs? hread]
        exact hlist paths hpaths p hp
  waiting := by
    rw [buffer_rebuild]
    exact h.waiting

/-- A curator that begins with nothing indexed ends a start with what the snapshot brings,
or else with what the source lists. -/
theorem start (h : Omits c m) {src : Source}
    (hlist : ∀ paths, src.list = .ok paths → ∀ p ∈ paths, c.shouldExclude p = false)
    (hblob : ∀ blob ix, SnapshotStore.load m.store = .ok (some blob) →
      m.engine.readSnapshot blob = .ok ix →
      ∀ entry, some entry ∈ ix.docs.toList → c.shouldExclude entry.path = false) :
    Omits c (m.start src).2 := by
  have hload : ∀ blob, SnapshotStore.load m.store = .ok (some blob) →
      Omits c { m with engine := (m.engine.load blob).1 } := by
    intro blob hstore
    refine ⟨(Engine.config_run _ _).trans h.config, fun q hq => ?_, h.waiting⟩
    obtain ⟨ix, hread, entry, hmem, rfl⟩ := Engine.indexes_load_iff.mp hq
    exact hblob blob ix hstore hread entry hmem
  rw [Curator.start]
  split
  · exact h.rebuild hlist
  · exact h.rebuild hlist
  · rename_i blob hstore
    simp only []
    split
    · exact hload blob hstore
    · split
      · exact (hload blob hstore).rebuild hlist
      · exact hload blob hstore

end Omits

end Curator

/-! ## A vault from its start on -/

namespace VaultFolder

variable {σ : Type} [SnapshotStore σ]

/-- What a vault lists for a rebuild is not excluded. -/
theorem included_of_mem_list {v : VaultFolder} {t : FileTree} {p : String} (h : p ∈ v.list t) :
    v.config.shouldExclude p = false := by
  have hfilter := List.mem_mergeSort.mp h
  rw [List.mem_filter] at hfilter
  rw [Config.shouldExclude]
  simpa using hfilter.2

/-- The curators that come about when one is started on a vault with a store and goes on by
whatever operations; each finds the files as they are then. -/
inductive Run (v : VaultFolder) (segmenter : Option Segmenter) (store : σ) :
    Curator σ → Prop where
  | start (t : FileTree) :
      Run v segmenter store ((Curator.new v.config segmenter store).start (v.toSource t)).2
  | notify {m : Curator σ} (h : Run v segmenter store m) (change : Change) :
      Run v segmenter store (m.notify change)
  | flush {m : Curator σ} (h : Run v segmenter store m) (t : FileTree) :
      Run v segmenter store (m.flush (v.toSource t)).1
  | settle {m : Curator σ} (h : Run v segmenter store m) (t : FileTree) :
      Run v segmenter store (m.settle (v.toSource t))
  | rebuild {m : Curator σ} (h : Run v segmenter store m) (t : FileTree) :
      Run v segmenter store (m.rebuild (v.toSource t)).2
  | save {m : Curator σ} (h : Run v segmenter store m) : Run v segmenter store m.save.2

/-- Nothing excluded is indexed at any time of any run exactly if the snapshot that the
curator starts from, should it be accepted, has no excluded path. -/
theorem omits_excluded_iff (v : VaultFolder) (segmenter : Option Segmenter) (store : σ) :
    (∀ m, v.Run segmenter store m → ∀ q, m.engine.Indexes q →
        v.config.shouldExclude q = false) ↔
      ∀ blob ix, SnapshotStore.load store = .ok (some blob) →
        (Engine.new v.config segmenter).readSnapshot blob = .ok ix →
        ∀ entry, some entry ∈ ix.docs.toList → v.config.shouldExclude entry.path = false := by
  constructor
  · intro homits blob ix hstore hread entry hmem
    refine homits _ (.start {}) entry.path ?_
    rw [Curator.engine_start (Curator.new v.config segmenter store) _ hstore hread]
    exact Engine.indexes_load_iff.mpr ⟨ix, hread, entry, hmem, rfl⟩
  · intro hblob m hrun
    have hlist : ∀ (t : FileTree) (paths : List String), (v.toSource t).list = .ok paths →
        ∀ p ∈ paths, v.config.shouldExclude p = false := by
      intro t paths hpaths p hp
      obtain rfl : v.list t = paths := Except.ok.inj hpaths
      exact included_of_mem_list hp
    -- the invariant of a run; only its start looks at the snapshot
    have homits : Curator.Omits v.config m := by
      induction hrun with
      | start t =>
          have hnew : Curator.Omits v.config (Curator.new v.config segmenter store) :=
            ⟨rfl, fun q hq => absurd hq (Engine.not_indexes_of_empty rfl rfl),
              fun p q source t hp => by simp [Curator.new] at hp⟩
          exact hnew.start (hlist t) hblob
      | notify h change ih => exact ih.notify change
      | flush h t ih => exact ih.flush (v.toSource t)
      | settle h t ih => exact ih.settle (v.toSource t)
      | rebuild h t ih => exact ih.rebuild (hlist t)
      | save h ih => exact ⟨ih.config, ih.indexed, ih.waiting⟩
    exact homits.indexed

/-- A vault starts with the paths that it had under an earlier configuration, whatever the
two exclude, if both analyse text alike and the earlier index was saved. -/
theorem run_after (before v : VaultFolder) (segmenter : Option Segmenter) (t : FileTree)
    {e : Engine} (he : e = ((Engine.new before.config segmenter).reindex
      ((before.toSource t).readAll (before.list t))).1)
    (hsave : before.config.index.saveSnapshot = true)
    (hacc : (Engine.new v.config segmenter).Accepts e) :
    ∃ m, v.Run segmenter ((Curator.new before.config segmenter ({} : MemoryStore)).start
        (before.toSource t)).2.store m ∧ ∀ p, m.engine.contains p = e.contains p := by
  have hstore : SnapshotStore.load ((Curator.new before.config segmenter
      ({} : MemoryStore)).start (before.toSource t)).2.store = .ok (some e.serialize) := by
    have hrebuild := (Curator.new before.config segmenter ({} : MemoryStore)).store_rebuild
      (before.toSource t) rfl hsave
    rw [Curator.start]
    simp only [Curator.new, SnapshotStore.load, SnapshotStore.save] at hrebuild ⊢
    rw [hrebuild, he]
  obtain ⟨ds, hrecords, -⟩ := (Engine.Records.new before.config segmenter).reindex
    ((before.toSource t).readAll (before.list t))
  rw [← he] at hrecords
  have hload := (Engine.Records.new v.config segmenter).load hrecords
  have hread := (Engine.new v.config segmenter).readSnapshot_serialize hrecords.index
  rw [if_pos hacc] at hload hread
  refine ⟨_, .start t, fun p => ?_⟩
  rw [Curator.engine_start (Curator.new v.config segmenter _) _ hstore hread,
    hrecords.contains_eq]
  exact hload.contains_eq p

/-- A vault is indexed, its folder `private` is excluded from then on, and the curator of the
changed vault still takes the diary over from the snapshot of before. -/
theorem earlier_snapshot_brings_excluded :
    let files := ({} : FileTree).place "vault/private/diary.pdf" []
    let before : VaultFolder := ⟨"vault", {}⟩
    let v : VaultFolder := ⟨"vault", { index := { exclude := ["private/**"] } }⟩
    let store := ((Curator.new before.config none ({} : MemoryStore)).start
      (before.toSource files)).2.store
    ∃ m, v.Run none store m ∧ v.config.shouldExclude "private/diary.pdf" ∧
      m.engine.contains "private/diary.pdf" := by
  intro files before v store
  obtain ⟨m, hrun, hkept⟩ := run_after before v none files rfl rfl (by decide +kernel)
  exact ⟨m, hrun, by decide +kernel, (hkept _).trans (by decide +kernel)⟩

end VaultFolder

end VaultSearch

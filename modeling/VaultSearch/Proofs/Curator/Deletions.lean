import VaultSearch.Proofs.Curator.Tracking
import VaultSearch.Proofs.Engine.Paths

/-!
# What the report of a deletion leaves behind

A path is reported as deleted, and nothing is left in the vault at the
path or inside it. The report asks the index which files it means, and it
is itself subject to the exclude patterns, so what a flush then leaves in
the index depends on both (`Reached.leaves_nothing_iff`): a folder that an
exclude pattern matches by its own path keeps its indexed files
(`excluded_folder_keeps_files`), and so does one that is indexed as a file
besides.

Nothing is assumed of the engine here, not even that its parts fit
together: which paths it contains can be followed through every operation.
-/

namespace VaultSearch

/-- The path `q` is `dir` or lies inside it. -/
def Path.Within (dir q : String) : Prop := q = dir ∨ Path.Inside dir q

instance (dir q : String) : Decidable (Path.Within dir q) := inferInstanceAs (Decidable (_ ∨ _))

/-- Nothing can be read at `dir` or inside it. -/
def Source.HoldsNothing (src : Source) (dir : String) : Prop :=
  ∀ q, Path.Within dir q → ∃ f, src.read q = .error f

theorem MemorySource.holdsNothing {files : MemorySource} {dir : String}
    (h : ∀ q ∈ files.keys, ¬Path.Within dir q) : files.toSource.HoldsNothing dir := by
  intro q hq
  have hnone : files[q]? = none := by
    rw [← Option.not_isSome_iff_eq_none, ← Std.TreeMap.mem_iff_isSome_getElem?,
      ← Std.TreeMap.mem_keys]
    exact fun hmem => h q hmem hq
  have hread : files.toSource.read q = files.read q := rfl
  refine ⟨.fault (.documentNotFound q), ?_⟩
  rw [hread, MemorySource.read, content, hnone]
  rfl

theorem Source.HoldsNothing.readAs? {src : Source} {dir q : String} (h : src.HoldsNothing dir)
    (hq : Path.Within dir q) : src.readAs? q q = none := by
  obtain ⟨f, hf⟩ := h q hq
  rw [Source.readAs?, hf]

namespace Curator

/-! ## The paths that a batch leaves -/

/-- The engine contains `q` once the documents held back are added. -/
def WillContain (acc : Engine × List Document) (q : String) : Prop :=
  acc.1.contains q ∨ q ∈ acc.2.map (·.path)

theorem contains_addRead {acc : Engine × List Document} {q : String} :
    (addRead acc.1 acc.2).contains q ↔ WillContain acc q := by
  rw [addRead, WillContain]
  split
  · rename_i hempty
    simp [List.isEmpty_iff.mp hempty]
  · exact Engine.contains_add

/-- An addition that cannot be read is for nothing. -/
def Unread (src : Source) (q : String) (op : Operation) : Prop :=
  ∀ source t, op = .add q source t → src.readAs? q source = none

theorem willContain_applyOne {src : Source} {acc : Engine × List Document} {op : Operation}
    {q : String} (hop : Unread src q op) :
    WillContain (applyOne src acc op) q ↔ WillContain acc q ∧ ∀ t, op ≠ .delete q t := by
  cases op with
  | add path source time =>
      rw [applyOne]
      cases hread : src.readAs? path source with
      | none => simp
      | some d =>
          have hne : q ≠ path := by
            rintro rfl
            rw [hop source time rfl] at hread
            cases hread
          simp [WillContain, Engine.contains_delete, Source.path_of_readAs? hread, hne]
  | delete path time =>
      rw [applyOne, WillContain, Engine.contains_delete, contains_addRead]
      simp [eq_comm]

theorem willContain_foldl {src : Source} {q : String} : ∀ (ops : List Operation)
    {acc : Engine × List Document}, (∀ op ∈ ops, Unread src q op) →
    (WillContain (ops.foldl (applyOne src) acc) q ↔
      WillContain acc q ∧ ∀ t, .delete q t ∉ ops)
  | [], acc, _ => by simp
  | op :: ops, acc, hops => by
      have hrest : ∀ op' ∈ ops, Unread src q op' := fun op' hop' =>
        hops op' (List.mem_cons_of_mem _ hop')
      rw [List.foldl_cons, willContain_foldl ops hrest,
        willContain_applyOne (hops op List.mem_cons_self), and_assoc, ← forall_and]
      simp only [List.mem_cons, not_or, ne_comm, ne_eq]

/-- Where nothing can be read, a batch leaves what it does not delete. -/
theorem contains_applyAll {src : Source} {e : Engine} {ops : List Operation} {q : String}
    (hops : ∀ op ∈ ops, Unread src q op) :
    (applyAll src e ops).contains q ↔ e.contains q ∧ ∀ t, .delete q t ∉ ops := by
  have hperm := List.mergeSort_perm ops fun a b => a.time ≤ b.time
  have hfold : WillContain
      ((ops.mergeSort fun a b => a.time ≤ b.time).foldl (applyOne src) (e, [])) q ↔
        WillContain (e, []) q ∧ ∀ t, .delete q t ∉ ops.mergeSort fun a b => a.time ≤ b.time :=
    willContain_foldl _ fun op hop => hops op (hperm.mem_iff.mp hop)
  rw [applyAll]
  simp only []
  rw [contains_addRead, hfold]
  simp [WillContain, hperm.mem_iff]

/-! ## Which paths a report means -/

section Meant

variable {σ : Type} {m : Curator σ}

/-- The paths that the report of a deletion queues: the path itself if it is indexed, else
the indexed files inside it or, without any, the path all the same. -/
def meant (e : Engine) (path : String) : List String :=
  let under := if e.contains path then [] else e.pathsUnder path
  if under.isEmpty then [path] else under

theorem enqueueDelete_eq (m : Curator σ) (path : String) :
    m.enqueueDelete path = (meant m.engine path).foldl (fun m p => m.enqueue (.delete p)) m :=
  rfl

/-- The text that begins the paths inside a folder ends in one separator, whatever
separators the folder itself ends in. -/
theorem isPrefix_folderLead (dir : String) : Engine.folderLead dir <+: dir.toList ++ ['/'] := by
  have htrim : ∀ l : List Char,
      (l.dropWhile (· = '/')).reverse ++ ['/'] <+: l.reverse ++ ['/'] := by
    intro l
    induction l with
    | nil => exact List.prefix_rfl
    | cons c l ih =>
        by_cases hc : c = '/'
        · subst hc
          rw [List.dropWhile_cons_of_pos (by simp), List.reverse_cons]
          exact ih.trans (List.prefix_append _ _)
        · have hkeep : (c :: l).dropWhile (· = '/') = c :: l :=
            List.dropWhile_cons_of_neg (by simpa using hc)
          exact hkeep.symm ▸ List.prefix_rfl
  rw [Engine.folderLead]
  simpa using htrim dir.toList.reverse

/-- Of the indexed paths at a path or inside it, a report means all, or the path alone if
that is indexed. -/
theorem mem_meant {e : Engine} {path q : String} (hq : Path.Within path q) (hin : e.contains q) :
    q ∈ meant e path ↔ q = path ∨ e.contains path = false := by
  rw [meant]
  cases hpath : e.contains path with
  | true => simp
  | false =>
      have hunder : q ∈ e.pathsUnder path := by
        rcases hq with rfl | hinside
        · rw [hpath] at hin
          cases hin
        · rw [Engine.pathsUnder, List.mem_filter, Std.TreeMap.mem_keys,
            ← Std.TreeMap.contains_iff_mem, List.isPrefixOf_iff_prefix]
          exact ⟨hin, (isPrefix_folderLead path).trans hinside⟩
      have hne : (e.pathsUnder path).isEmpty = false := by
        rw [List.isEmpty_eq_false_iff]
        exact List.ne_nil_of_mem hunder
      simp [hne, hunder]

end Meant

/-! ## Reachable curators -/

section Reached

variable {σ : Type} [SnapshotStore σ] {c : Config} {segmenter : Option Segmenter}
  {m : Curator σ}

/-- The curators that come about by whatever operations, in whatever order, each with a
source of its own. -/
inductive Reached (c : Config) (segmenter : Option Segmenter) : Curator σ → Prop where
  | new (store : σ) : Reached c segmenter (Curator.new c segmenter store)
  | start {m : Curator σ} (h : Reached c segmenter m) (src : Source) :
      Reached c segmenter (m.start src).2
  | rebuild {m : Curator σ} (h : Reached c segmenter m) (src : Source) :
      Reached c segmenter (m.rebuild src).2
  | notify {m : Curator σ} (h : Reached c segmenter m) (change : Change) :
      Reached c segmenter (m.notify change)
  | flush {m : Curator σ} (h : Reached c segmenter m) (src : Source) :
      Reached c segmenter (m.flush src).1
  | settle {m : Curator σ} (h : Reached c segmenter m) (src : Source) :
      Reached c segmenter (m.settle src)
  | save {m : Curator σ} (h : Reached c segmenter m) : Reached c segmenter m.save.2

/-- Every operation waits under its own path, and an addition reads from there. -/
def Keyed (pending : Pending) : Prop :=
  ∀ (p : String) (op : Operation), pending[p]? = some op → ∃ t, op = .add p p t ∨ op = .delete p t

theorem config_applyAll (src : Source) (e : Engine) (ops : List Operation) :
    (applyAll src e ops).config = e.config :=
  applyAll_induction (P := fun e' => e'.config = e.config)
    (fun _ _ h => (Engine.config_run _ _).trans h)
    (fun _ _ h => (Engine.config_delete _ _).trans h) src ops rfl

theorem config_rebuild (m : Curator σ) (src : Source) : (m.rebuild src).2.config = m.config := by
  rw [rebuild]
  split
  · rfl
  · exact (congrArg Engine.config (autosave_engine _)).trans (Engine.config_run _ _)

theorem buffer_rebuild (m : Curator σ) (src : Source) : (m.rebuild src).2.buffer = m.buffer := by
  rw [rebuild]
  split
  · rfl
  · exact autosave_buffer _

/-- A start takes the index from the store or builds it, and leaves the buffer alone. -/
theorem config_start (m : Curator σ) (src : Source) : (m.start src).2.config = m.config := by
  rw [start]
  split
  · exact config_rebuild m src
  · exact config_rebuild m src
  · simp only []
    split
    · exact Engine.config_run _ _
    · split
      · exact (config_rebuild _ src).trans (Engine.config_run _ _)
      · exact Engine.config_run _ _

theorem buffer_start (m : Curator σ) (src : Source) : (m.start src).2.buffer = m.buffer := by
  rw [start]
  split
  · exact buffer_rebuild m src
  · exact buffer_rebuild m src
  · simp only []
    split
    · rfl
    · split
      · exact buffer_rebuild _ src
      · rfl

omit [SnapshotStore σ] in
theorem Keyed.enqueue {pending : Pending} (h : Keyed pending) {op : Operation} {p : String}
    (hop : ∃ t, op = .add p p t ∨ op = .delete p t) : Keyed (pending.insert p op) := by
  intro q op' hop'
  rw [Std.TreeMap.getElem?_insert] at hop'
  split at hop'
  · rename_i heq
    obtain rfl : p = q := compare_eq_iff_eq.mp heq
    obtain rfl := Option.some.inj hop'
    exact hop
  · exact h q op' hop'

omit [SnapshotStore σ] in
theorem Keyed.enqueueDelete {m : Curator σ} (h : Keyed m.buffer.items) (path : String) :
    Keyed (m.enqueueDelete path).buffer.items := by
  rw [enqueueDelete_eq]
  refine List.foldlRecOn (motive := fun m : Curator σ => Keyed m.buffer.items) _ _ h
    fun m' hm' p _ => ?_
  exact hm'.enqueue ⟨m'.clock, Or.inr rfl⟩

omit [SnapshotStore σ] in
/-- A report may end the old path, and then it ends the path or adds it, unless that is
excluded. -/
theorem notify_cases (m : Curator σ) (change : Change) :
    ∃ m', (m' = m ∨ ∃ old, change.kind = .renamed old ∧ m' = m.enqueueDelete old) ∧
      (m.notify change = m' ∨ m'.config.shouldExclude change.path = false ∧
        (m.notify change = m'.enqueueDelete change.path ∨
          m.notify change = m'.enqueue (.add change.path change.path))) := by
  obtain ⟨path, kind⟩ := change
  cases kind with
  | renamed old =>
      refine ⟨m.enqueueDelete old, Or.inr ⟨old, rfl, rfl⟩, ?_⟩
      rw [notify]
      simp only []
      split
      · exact Or.inl rfl
      · rename_i hincluded
        exact Or.inr ⟨by simpa using hincluded, Or.inr rfl⟩
  | deleted =>
      refine ⟨m, Or.inl rfl, ?_⟩
      rw [notify]
      simp only []
      split
      · exact Or.inl rfl
      · rename_i hincluded
        exact Or.inr ⟨by simpa using hincluded, Or.inl rfl⟩
  | _ =>
      refine ⟨m, Or.inl rfl, ?_⟩
      rw [notify]
      simp only []
      split
      · exact Or.inl rfl
      · rename_i hincluded
        exact Or.inr ⟨by simpa using hincluded, Or.inr rfl⟩

omit [SnapshotStore σ] in
theorem engine_notify (m : Curator σ) (change : Change) :
    (m.notify change).engine = m.engine := by
  obtain ⟨m', hm', hnotify⟩ := notify_cases m change
  have hengine : m'.engine = m.engine := by
    rcases hm' with rfl | ⟨old, -, rfl⟩
    · rfl
    · exact engine_enqueueDelete m old
  rcases hnotify with hnotify | ⟨-, hnotify | hnotify⟩
  · rw [hnotify, hengine]
  · rw [hnotify, engine_enqueueDelete, hengine]
  · rw [hnotify]
    exact hengine

omit [SnapshotStore σ] in
theorem Keyed.notify {m : Curator σ} (h : Keyed m.buffer.items) (change : Change) :
    Keyed (m.notify change).buffer.items := by
  obtain ⟨m', hm', hnotify⟩ := notify_cases m change
  have hkeyed : Keyed m'.buffer.items := by
    rcases hm' with rfl | ⟨old, -, rfl⟩
    · exact h
    · exact h.enqueueDelete old
  rcases hnotify with hnotify | ⟨-, hnotify | hnotify⟩
  · rwa [hnotify]
  · rw [hnotify]
    exact hkeyed.enqueueDelete change.path
  · rw [hnotify]
    exact hkeyed.enqueue ⟨m'.clock, Or.inl rfl⟩

theorem Reached.config (h : Reached c segmenter m) : m.config = c := by
  induction h with
  | new store => rfl
  | start h src ih => rw [config_start, ih]
  | rebuild h src ih => rw [config_rebuild, ih]
  | notify h change ih => rw [Curator.config, engine_notify, ← Curator.config, ih]
  | flush h src ih => rw [Curator.config, flush_engine, config_applyAll, ← Curator.config, ih]
  | @settle m h src ih =>
      rcases m.settle_cases src with hsame | ⟨hengine, -⟩
      · rw [hsame, ih]
      · rw [Curator.config, hengine, config_applyAll, ← Curator.config, ih]
  | save h ih => exact ih

theorem Reached.keyed (h : Reached c segmenter m) : Keyed m.buffer.items := by
  induction h with
  | new store =>
      intro p op hop
      simp [Curator.new] at hop
  | start h src ih => rwa [buffer_start]
  | rebuild h src ih => rwa [buffer_rebuild]
  | notify h change ih => exact ih.notify change
  | flush h src ih =>
      intro p op hop
      simp [flush_items] at hop
  | @settle m h src ih =>
      rcases m.settle_cases src with hsame | ⟨-, hitems⟩
      · rwa [hsame]
      · intro p op hop
        simp [hitems] at hop
  | save h ih => exact ih

/-! ## What is left -/

/-- Of the indexed paths at a path with nothing there any more, or inside it, a flush leaves
those that no deletion waits for. -/
theorem Reached.contains_flush (h : Reached c segmenter m) {src : Source} {path q : String}
    (hgone : src.HoldsNothing path) (hq : Path.Within path q) :
    (m.flush src).1.engine.contains q ↔
      m.engine.contains q ∧ ∀ t, m.buffer.items[q]? ≠ some (.delete q t) := by
  have hunread : ∀ op ∈ batch m.buffer.items, Unread src q op := by
    rintro op hop source t rfl
    obtain ⟨p, hp⟩ := Tracks.mem_batch.mp hop
    obtain ⟨t', heq | heq⟩ := h.keyed p _ hp
    · obtain ⟨rfl, rfl, -⟩ := Operation.add.inj heq
      exact hgone.readAs? hq
    · cases heq
  have hdelete : ∀ t, .delete q t ∈ batch m.buffer.items ↔
      m.buffer.items[q]? = some (.delete q t) := by
    intro t
    refine ⟨fun hmem => ?_, fun hq => Tracks.mem_batch.mpr ⟨q, hq⟩⟩
    obtain ⟨p, hp⟩ := Tracks.mem_batch.mp hmem
    obtain ⟨t', heq | heq⟩ := h.keyed p _ hp
    · cases heq
    · obtain ⟨rfl, -⟩ := Operation.delete.inj heq
      exact hp
  rw [flush_engine, contains_applyAll hunread]
  simp only [hdelete, ne_eq]

/-- Of the indexed paths at a path with nothing there any more, or inside it, the report of
the deletion and a flush leave those that no deletion waits for and that the report does not
mean. -/
theorem Reached.left_iff (h : Reached c segmenter m) {src : Source} {path q : String}
    (hgone : src.HoldsNothing path) (hq : Path.Within path q) :
    ((m.notify ⟨path, .deleted⟩).flush src).1.engine.contains q ↔
      m.engine.contains q ∧ (∀ t, m.buffer.items[q]? ≠ some (.delete q t)) ∧
        (c.shouldExclude path = false → q ≠ path ∧ m.engine.contains path) := by
  rw [(h.notify ⟨path, .deleted⟩).contains_flush hgone hq, engine_notify]
  refine and_congr_right fun hin => ?_
  have hconfig := h.config
  cases hexcluded : c.shouldExclude path with
  | true =>
      have hnotify : m.notify ⟨path, .deleted⟩ = m := by
        simp [Curator.notify, hconfig, hexcluded]
      simp [hnotify]
  | false =>
      have hnotify : m.notify ⟨path, .deleted⟩ = m.enqueueDelete path := by
        simp [Curator.notify, hconfig, hexcluded]
      obtain ⟨-, hmeant, hother⟩ := foldl_enqueue_delete (meant m.engine path) m
      rw [hnotify, enqueueDelete_eq]
      by_cases hmem : q ∈ meant m.engine path
      · obtain ⟨t, ht⟩ := hmeant q hmem
        have hor := (mem_meant hq hin).mp hmem
        refine ⟨fun hwaits => absurd ht (hwaits t), fun ⟨_, hnot⟩ => ?_⟩
        obtain ⟨hne, hpath⟩ := hnot rfl
        rcases hor with hself | hfree
        · exact absurd hself hne
        · rw [hpath] at hfree
          cases hfree
      · rw [hother q hmem]
        have hnor := mt (mem_meant hq hin).mpr hmem
        simpa [not_or] using fun _ => hnor

/-- After the report of a deletion and a flush nothing is indexed at a path with nothing
there any more, or inside it, exactly if a deletion waited for every file indexed there or the
report means it: the path is not excluded, and it is that file or is not indexed itself. -/
theorem Reached.leaves_nothing_iff (h : Reached c segmenter m) {src : Source} {path : String}
    (hgone : src.HoldsNothing path) :
    (∀ q, Path.Within path q →
        ¬((m.notify ⟨path, .deleted⟩).flush src).1.engine.contains q) ↔
      ∀ q, Path.Within path q → m.engine.contains q →
        (∃ t, m.buffer.items[q]? = some (.delete q t)) ∨
          c.shouldExclude path = false ∧ (q = path ∨ m.engine.contains path = false) := by
  refine forall_congr' fun q => forall_congr' fun hq => ?_
  rw [h.left_iff hgone hq]
  constructor
  · intro hleft hin
    by_contra hnone
    obtain ⟨hwaits, hmeant⟩ := not_or.mp hnone
    refine hleft ⟨hin, not_exists.mp hwaits, fun hincluded => ?_⟩
    obtain ⟨hne, hpath⟩ := not_or.mp fun hor => hmeant ⟨hincluded, hor⟩
    exact ⟨hne, by simpa using hpath⟩
  · rintro hcover ⟨hin, hwaits, hmeant⟩
    rcases hcover hin with ⟨t, ht⟩ | ⟨hincluded, hor⟩
    · exact hwaits t ht
    · obtain ⟨hne, hpath⟩ := hmeant hincluded
      rcases hor with hself | hfree
      · exact hne hself
      · rw [hpath] at hfree
        cases hfree

end Reached

/-- The files of a folder go, and so they leave the index. -/
theorem folder_leaves_nothing :
    let files : MemorySource := .ofList [("trip/day1.md", "gamma"), ("tripping.md", "gamma")]
    let m := ((Curator.new {} none ({} : MemoryStore)).start files.toSource).2
    let src := MemorySource.toSource (files.erase "trip/day1.md")
    src.HoldsNothing "trip" ∧
      ∀ q, Path.Within "trip" q →
        ¬((m.notify ⟨"trip", .deleted⟩).flush src).1.engine.contains q := by
  intro files m src
  have hgone : src.HoldsNothing "trip" := MemorySource.holdsNothing (by decide +kernel)
  have hrun : Reached {} none m := .start (.new _) _
  refine ⟨hgone, (hrun.leaves_nothing_iff hgone).mpr fun q _ _ => Or.inr ⟨?_, Or.inr ?_⟩⟩
  · decide +kernel
  · decide +kernel

/-- A folder whose own path is excluded keeps its files in the index, though none of them is
excluded. -/
theorem excluded_folder_keeps_files :
    let c : Config := { index := { exclude := ["trip"] } }
    let files : MemorySource := .ofList [("trip/day1.md", "gamma")]
    let m := ((Curator.new c none ({} : MemoryStore)).start files.toSource).2
    let src := MemorySource.toSource (files.erase "trip/day1.md")
    c.shouldExclude "trip/day1.md" = false ∧ src.HoldsNothing "trip" ∧
      ((m.notify ⟨"trip", .deleted⟩).flush src).1.engine.contains "trip/day1.md" := by
  intro c files m src
  refine ⟨by decide +kernel, MemorySource.holdsNothing (by decide +kernel), by decide +kernel⟩

end Curator

end VaultSearch

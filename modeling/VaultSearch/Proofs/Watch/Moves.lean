import VaultSearch.Proofs.Curator.Deletions
import VaultSearch.Proofs.Files.Ways
import VaultSearch.Watch

/-!
# What a move leaves at the old place

A watcher reports that something was moved from one path of the vault to
another. What was there is worked out from what lies at the new path when
the report is handled: for each file there, its old path counts as deleted.
So the old place is cleared only as far as its files are still found at the
new one (`moved_leaves_nothing_iff`). A file that is moved and then removed
before its move is handled stays in the index
(`removed_after_move_stays_indexed`).
-/

namespace VaultSearch

/-! ## Where nothing lies -/

namespace VaultFolder

variable {v : VaultFolder} {t : FileTree} {path q : String}

theorem not_isFile_within (hne : path ≠ "") (hgone : t.exists? (v.resolve path) = false)
    (hq : Path.Within path q) : t.isFile (v.resolve q) = false := by
  rcases hq with rfl | ⟨rest, hrest⟩
  · rw [← Bool.not_eq_true]
    intro hfile
    rw [FileTree.exists?_of_isFile hfile] at hgone
    cases hgone
  · have hq : q = path ++ ("/" ++ String.ofList rest) := by
      rw [← String.toList_inj, ← hrest]
      simp
    rw [hq, resolve, Path.join_append v.root hne, ← String.append_assoc]
    exact FileTree.not_isFile_append (Path.join_ne_empty v.root hne) hgone _

/-- If nothing lies at a path inside the vault that ends in a step, then nothing lies where its
path in the vault leads. -/
theorem not_exists_resolve {source : String} (hold : v.relative? source = some path)
    (hstep : Path.EndsInStep source) (hgone : t.exists? source = false) :
    t.exists? (v.resolve path) = false := by
  rw [← Bool.not_eq_true]
  intro hexists
  obtain ⟨l, node, hlocate, hentry⟩ := FileTree.exists?_iff.mp hexists
  have hwalk := FileTree.walk_parts hlocate
  rw [resolve, Path.parts_join_relative? hold] at hwalk
  have hsource : t.exists? source = true :=
    FileTree.exists?_iff.mpr ⟨l, node, FileTree.locate_of_walk_parts hstep hwalk, hentry⟩
  rw [hgone] at hsource
  cases hsource

/-- Where nothing lies the vault has no document, nor inside. -/
theorem holdsNothing (hne : path ≠ "") (hgone : t.exists? (v.resolve path) = false) :
    (v.toSource t).HoldsNothing path := by
  intro q hq
  have hread : (v.toSource t).read q = v.read t q := rfl
  refine ⟨.fault (.documentNotFound q), ?_⟩
  rw [hread, read, FileTree.fileSystem_isFile, not_isFile_within hne hgone hq]
  rfl

/-- A file has no path where nothing lies, nor one inside. -/
theorem not_within_of_isFile (hne : path ≠ "") (hgone : t.exists? (v.resolve path) = false)
    {file : String} (hfile : t.isFile file) (hq : v.relative? file = some q) :
    ¬Path.Within path q := by
  intro hwithin
  have hresolve : t.isFile (v.resolve q) := FileTree.isFile_join_relative? hq hfile
  rw [not_isFile_within hne hgone hwithin] at hresolve
  cases hresolve

end VaultFolder

/-! ## Paths that wait to be deleted -/

namespace Curator

variable {σ : Type} {m : Curator σ} {q : String}

/-- A deletion of the path waits. -/
def Awaits (m : Curator σ) (q : String) : Prop :=
  ∃ time, m.buffer.items[q]? = some (.delete q time)

theorem awaits_enqueueDelete {path : String} :
    (m.enqueueDelete path).Awaits q ↔ m.Awaits q ∨ q ∈ meant m.engine path := by
  obtain ⟨-, hmeant, hother⟩ := foldl_enqueue_delete (meant m.engine path) m
  rw [enqueueDelete_eq]
  by_cases hq : q ∈ meant m.engine path
  · obtain ⟨time, htime⟩ := hmeant q hq
    exact iff_of_true ⟨time, htime⟩ (Or.inr hq)
  · rw [Awaits, hother q hq, or_iff_left hq]
    rfl

theorem awaits_enqueue_add {path source : String} (h : path ≠ q) :
    (m.enqueue (.add path source)).Awaits q ↔ m.Awaits q := by
  rw [Awaits, enqueue, Buffer.insert, Operation.path, Std.TreeMap.getElem?_insert,
    if_neg (by simpa using h)]
  rfl

/-- The report of a move to another path queues the deletion of what it means by the old
one, and of nothing else. -/
theorem awaits_notify_renamed {path old : String} (h : path ≠ q) :
    (m.notify ⟨path, .renamed old⟩).Awaits q ↔ m.Awaits q ∨ q ∈ meant m.engine old := by
  rw [← awaits_enqueueDelete, notify]
  simp only []
  split
  · rfl
  · exact awaits_enqueue_add h

/-- So do the reports of several moves to other paths, one after the other. -/
theorem awaits_foldl_notify : ∀ (changes : List Change) {m : Curator σ},
    (∀ change ∈ changes, ∃ old, change.kind = .renamed old ∧ change.path ≠ q) →
    ((changes.foldl notify m).Awaits q ↔
      m.Awaits q ∨ ∃ change ∈ changes, ∃ old, change.kind = .renamed old ∧
        q ∈ meant m.engine old)
  | [], m, _ => by simp
  | change :: changes, m, h => by
      obtain ⟨old, hkind, hne⟩ := h change List.mem_cons_self
      obtain ⟨path, kind⟩ := change
      obtain rfl : kind = .renamed old := hkind
      rw [List.foldl_cons, awaits_foldl_notify changes fun c hc => h c (List.mem_cons_of_mem _ hc),
        awaits_notify_renamed hne, engine_notify, or_assoc]
      simp

end Curator

/-! ## Moves -/

namespace Watch

variable {v : VaultFolder} {t : FileTree} {source target old file : String}

/-- The changes for a move inside a vault: one for each file at the new path. -/
theorem mem_translate_moved (hold : v.relative? source = some old)
    (hnew : (v.relative? target).isSome) {change : Change} :
    change ∈ translate v t ⟨.moved, [source, target]⟩ ↔
      ∃ file ∈ filesAt t target, ∃ path o, v.relative? file = some path ∧
        oldPath? old target file = some o ∧ change = ⟨path, .renamed o⟩ := by
  obtain ⟨new, hnew⟩ := Option.isSome_iff_exists.mp hnew
  simp only [translate, changesOf, moved, hold, hnew, List.mem_filter, List.mem_filterMap,
    Option.bind_eq_bind, Option.bind_eq_some_iff, Option.some.injEq]
  constructor
  · rintro ⟨⟨file, hfile, path, hpath, o, ho, rfl⟩, -⟩
    exact ⟨file, hfile, path, o, hpath, ho, rfl⟩
  · rintro ⟨file, hfile, path, o, hpath, ho, rfl⟩
    exact ⟨⟨file, hfile, path, hpath, o, ho, rfl⟩, rfl⟩

/-- A file with an old path has a path in the vault. -/
theorem isSome_relative?_of_oldPath? (hnew : (v.relative? target).isSome) {o : String}
    (h : oldPath? old target file = some o) : (v.relative? file).isSome := by
  obtain ⟨new, hnew⟩ := Option.isSome_iff_exists.mp hnew
  rw [oldPath?] at h
  cases hbelow : Path.below? target file with
  | none => simp [hbelow] at h
  | some ps => exact Path.isSome_relative?_of_below hnew hbelow

variable {σ : Type} [SnapshotStore σ] {c : Config} {segmenter : Option Segmenter}
  {m : Curator σ}

theorem reached_handle (h : Curator.Reached c segmenter m) (event : Event) :
    Curator.Reached c segmenter (handle v t m event) :=
  List.foldlRecOn _ _ h fun _ hm' change _ => hm'.notify change

omit [SnapshotStore σ] in
theorem engine_handle (m : Curator σ) (event : Event) : (handle v t m event).engine = m.engine :=
  List.foldlRecOn (motive := fun m' : Curator σ => m'.engine = m.engine) _ _ rfl
    fun m' hm' change _ => (Curator.engine_notify m' change).trans hm'

/-- After a move is handled and the buffer flushed, nothing is indexed at the old path or
inside it, if nothing lies there any more, exactly if a deletion waited for every file indexed
there or one of the files that lie at the new path by then stands for it. -/
theorem moved_leaves_nothing_iff (h : Curator.Reached v.config segmenter m) (ht : t.IsTree)
    (hold : v.relative? source = some old) (hnew : (v.relative? target).isSome)
    (hgone : t.exists? (v.resolve old) = false) :
    (∀ q, Path.Within old q → ¬((handle v t m ⟨.moved, [source, target]⟩).flush
        (v.toSource t)).1.engine.contains q) ↔
      ∀ q, Path.Within old q → m.engine.contains q →
        m.Awaits q ∨ ∃ file ∈ filesAt t target, ∃ o, oldPath? old target file = some o ∧
          q ∈ Curator.meant m.engine o := by
  have hne := Path.relative?_ne_empty hold
  refine forall_congr' fun q => forall_congr' fun hq => ?_
  -- no file lies at the old place, so no addition takes the place of a deletion there
  have hmoves : ∀ change ∈ translate v t ⟨.moved, [source, target]⟩,
      ∃ o, change.kind = .renamed o ∧ change.path ≠ q := by
    intro change hchange
    obtain ⟨file, hfile, path, o, hpath, -, rfl⟩ := (mem_translate_moved hold hnew).mp hchange
    refine ⟨o, rfl, ?_⟩
    rintro rfl
    exact VaultFolder.not_within_of_isFile hne hgone (isFile_of_mem_filesAt ht hfile) hpath hq
  have hawaits : (handle v t m ⟨.moved, [source, target]⟩).Awaits q ↔
      m.Awaits q ∨ ∃ file ∈ filesAt t target, ∃ o, oldPath? old target file = some o ∧
        q ∈ Curator.meant m.engine o := by
    rw [handle, Curator.awaits_foldl_notify _ hmoves]
    refine or_congr_right ⟨?_, ?_⟩
    · rintro ⟨change, hchange, o, hkind, hmeant⟩
      obtain ⟨file, hfile, path, o', -, ho, rfl⟩ := (mem_translate_moved hold hnew).mp hchange
      obtain rfl := ChangeKind.renamed.inj hkind
      exact ⟨file, hfile, o', ho, hmeant⟩
    · rintro ⟨file, hfile, o, ho, hmeant⟩
      obtain ⟨path, hpath⟩ := Option.isSome_iff_exists.mp (isSome_relative?_of_oldPath? hnew ho)
      exact ⟨⟨path, .renamed o⟩, (mem_translate_moved hold hnew).mpr
        ⟨file, hfile, path, o, hpath, ho, rfl⟩, o, rfl, hmeant⟩
  rw [(reached_handle h _).contains_flush (VaultFolder.holdsNothing hne hgone) hq, engine_handle,
    not_and, ← hawaits]
  exact imp_congr_right fun _ => not_forall_not

/-- A folder is moved, and its file leaves the old place. -/
theorem moved_folder_leaves_nothing :
    let before := ({} : FileTree).place "vault/trip/day1.md" (Utf8.encode "gamma")
    let t := (before.rename? "vault/trip" "vault/journey").getD before
    let v : VaultFolder := ⟨"vault", {}⟩
    let m := ((Curator.new v.config none ({} : MemoryStore)).start (v.toSource before)).2
    t.IsTree ∧ v.relative? "vault/trip" = some "trip" ∧ (v.relative? "vault/journey").isSome ∧
      t.exists? "vault/trip" = false ∧
      ∀ q, Path.Within "trip" q →
        ¬((handle v t m ⟨.moved, ["vault/trip", "vault/journey"]⟩).flush
          (v.toSource t)).1.engine.contains q := by
  intro before t v m
  have htree : t.IsTree := by decide +kernel
  have hold : v.relative? "vault/trip" = some "trip" := by decide +kernel
  have hnew : (v.relative? "vault/journey").isSome := by decide +kernel
  have hgone : t.exists? "vault/trip" = false := by decide +kernel
  have hstep : Path.EndsInStep "vault/trip" :=
    ⟨["vault".toList], "trip".toList, .name "trip".toList, by decide, by decide⟩
  have hgone' := VaultFolder.not_exists_resolve hold hstep hgone
  have hrun : Curator.Reached v.config none m := .start (.new _) _
  refine ⟨htree, hold, hnew, hgone,
    (moved_leaves_nothing_iff hrun htree hold hnew hgone').mpr fun q _ hin => Or.inr ?_⟩
  have hkeys : m.engine.slots.keys = ["trip/day1.md"] := by decide +kernel
  have hq : q ∈ m.engine.slots.keys :=
    Std.TreeMap.mem_keys.mpr (Std.TreeMap.contains_iff_mem.mp hin)
  obtain rfl : q = "trip/day1.md" := by simpa [hkeys] using hq
  exact ⟨"vault/journey/day1.md", by decide +kernel, "trip/day1.md", by decide +kernel,
    by decide +kernel⟩

/-- A file is moved and then removed, all before the move is handled, and stays in the
index. -/
theorem removed_after_move_stays_indexed :
    let before := ({} : FileTree).place "vault/a.md" (Utf8.encode "walrus")
    let t := ((before.rename? "vault/a.md" "vault/b.md").getD before).remove "vault/b.md"
    let v : VaultFolder := ⟨"vault", {}⟩
    let m := ((Curator.new v.config none ({} : MemoryStore)).start (v.toSource before)).2
    Curator.Reached v.config none m ∧ v.relative? "vault/a.md" = some "a.md" ∧
      (v.relative? "vault/b.md").isSome ∧ t.exists? "vault/a.md" = false ∧
      ((handle v t m ⟨.moved, ["vault/a.md", "vault/b.md"]⟩).flush
        (v.toSource t)).1.engine.contains "a.md" := by
  intro before t v m
  exact ⟨.start (.new _) _, by decide +kernel, by decide +kernel, by decide +kernel,
    by decide +kernel⟩

end Watch

end VaultSearch

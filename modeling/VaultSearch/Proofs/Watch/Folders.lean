import VaultSearch.Proofs.Curator.Renames
import VaultSearch.Proofs.Engine.Answers
import VaultSearch.Proofs.Files.Links
import VaultSearch.Proofs.Files.Relocation
import VaultSearch.Proofs.Watch.Moves

/-!
# Moved folders

A folder that was moved inside the vault is reported file by file: each file
that lies at the new place or below it was moved along with it
(`Watch.reportsEach`). If nothing else has happened since the index was built,
these reports and a flush bring it to what an index holds that is built anew
(`Watch.moved_inStep`), wherever the exclude patterns run and whatever was
replaced.

Of the paths in the reports no old one is a new one, or else the folder was
moved to where it was, and no indexed path is inside an old one. So the order
of the reports does not matter, and each means the files it names.

Symbolic links may lie in the folder, where neither the reports nor an index
that is built anew go through them. Not so one that is moved itself: what it
stands for is reported and indexed at its new path, where an index that is built
anew has nothing (`Watch.moved_link`). The paths are taken as they are written:
a move that is reported with a path through `..` is not recognised as one of the
files indexed (`Watch.moved_through_parent`).
-/

namespace VaultSearch

open VaultFolder (pathOfWay)
open VaultSearch.Path (IsWay along)

/-! ## What is reported of a move -/

namespace Watch

variable {v : VaultFolder} {t : FileTree} {source target old new : String}

/-- The changes are one for each file at or below `target`, as moved to its own path in the
vault, which is `new` and the way to the file, from `old` and the same way. -/
structure ReportsEach (v : VaultFolder) (t : FileTree) (target old new : String)
    (changes : List Change) : Prop where
  mem : ∀ change, change ∈ changes ↔
    ∃ way, t.HasFile target way ∧ change = ⟨along new way, .renamed (along old way)⟩
  nodup : changes.Nodup
  isFile : ∀ way, t.HasFile target way → t.isFile (fileAt target way)
  relative : ∀ way, t.HasFile target way → v.relative? (fileAt target way) = some (along new way)
  injOn_new : Set.InjOn (along new) {way | t.HasFile target way}
  injOn_old : Set.InjOn (along old) {way | t.HasFile target way}

/-- The old and the new paths of the files that a move is reported for. -/
def movesOf (t : FileTree) (target old new : String) : List (String × String) :=
  (t.waysAt target).map fun way => (along old way, along new way)

theorem isWay_of_hasFile (ht : t.IsTree) {way : Location} (h : t.HasFile target way) :
    IsWay way := by
  obtain ⟨l, bytes, -, hentry⟩ := h
  exact ht.isWay_of_entry hentry

theorem translate_moved_eq (ht : t.IsTree) (hold : v.relative? source = some old)
    (hnew : v.relative? target = some new) :
    translate v t ⟨.moved, [source, target]⟩ = (movesOf t target old new).map Change.ofMove := by
  have hkeep : ∀ moves : List (String × String),
      (moves.map Change.ofMove).filter (counts v.config) = moves.map Change.ofMove := by
    intro moves
    refine List.filter_eq_self.mpr fun change hchange => ?_
    obtain ⟨move, -, rfl⟩ := List.mem_map.mp hchange
    rfl
  have hchanges : changesOf v t ⟨.moved, [source, target]⟩ =
      (movesOf t target old new).map Change.ofMove := by
    simp only [changesOf, moved, hold, hnew, filesAt_eq, movesOf, List.map_map,
      List.filterMap_map]
    rw [List.filterMap_eq_map_iff_forall_eq_some]
    intro way hway
    have hfile := (FileTree.mem_waysAt ht).mp hway
    have hway := isWay_of_hasFile ht hfile
    obtain ⟨l, bytes, hlocate, -⟩ := hfile
    have hne := FileTree.ne_empty_of_locate hlocate
    have hrelative : v.relative? (fileAt target way) = some (along new way) :=
      relative?_fileAt hnew hne hway
    simp [hrelative, oldPath?_fileAt old hne hway, Change.ofMove]
  rw [translate, hchanges, hkeep]

theorem reportsEach (ht : t.IsTree) (hold : v.relative? source = some old)
    (hnew : v.relative? target = some new) :
    ReportsEach v t target old new (translate v t ⟨.moved, [source, target]⟩) := by
  have hinj : ∀ path, Set.InjOn (along path) {way | t.HasFile target way} :=
    fun path way hway way' hway' heq =>
      Path.eq_of_along_eq (isWay_of_hasFile ht hway) (isWay_of_hasFile ht hway') heq
  rw [translate_moved_eq ht hold hnew]
  refine ⟨fun change => ?_, ?_, fun way hfile => ?_, fun way hfile => ?_, hinj new, hinj old⟩
  · simp only [movesOf, List.map_map, List.mem_map, FileTree.mem_waysAt ht]
    constructor
    · rintro ⟨way, hfile, rfl⟩
      exact ⟨way, hfile, rfl⟩
    · rintro ⟨way, hfile, rfl⟩
      exact ⟨way, hfile, rfl⟩
  · rw [movesOf, List.map_map]
    refine (List.nodup_map_iff_inj_on (t.nodup_waysAt target)).mpr ?_
    intro way hway way' hway' heq
    exact hinj new ((FileTree.mem_waysAt ht).mp hway) ((FileTree.mem_waysAt ht).mp hway')
      (congrArg Change.path heq)
  · exact isFile_fileAt ht hfile
  · obtain ⟨l, bytes, hlocate, hentry⟩ := hfile
    exact relative?_fileAt hnew (FileTree.ne_empty_of_locate hlocate) (ht.isWay_of_entry hentry)

end Watch

/-! ## Indexes in step with the vault -/

namespace VaultFolder

variable {σ τ F : Type} [FileSystem F] {v : VaultFolder} {segmenter : Option Segmenter} {t : F}
  {m : Curator σ}

/-- Nothing waits, and the engine holds what the index holds that is built from the vault. -/
structure InStep (v : VaultFolder) (segmenter : Option Segmenter) (t : F) (m : Curator σ) :
    Prop where
  idle : m.pending = 0
  holds : Engine.Holds v.config segmenter m.engine (v.indexOf segmenter t).contents

theorem InStep.getElem?_items (h : v.InStep segmenter t m) (p : String) :
    m.buffer.items[p]? = none := by
  refine Std.TreeMap.getElem?_of_isEmpty ?_
  rw [Std.TreeMap.isEmpty_eq_size_eq_zero]
  exact decide_eq_true h.idle

theorem holds_indexOf (v : VaultFolder) (segmenter : Option Segmenter) (t : F) :
    Engine.Holds v.config segmenter (v.indexOf segmenter t)
      (v.indexOf segmenter t).contents := by
  have hholds := (Engine.Holds.new v.config segmenter).reindex ((v.toSource t).readAll (v.list t))
  rwa [← hholds.contents_eq] at hholds

variable [SnapshotStore σ] [SnapshotStore τ]

/-- A new curator that builds its index from the vault is in step with it. -/
theorem inStep_rebuild (v : VaultFolder) (segmenter : Option Segmenter) (t : F) (store : σ) :
    v.InStep segmenter t ((Curator.new v.config segmenter store).rebuild (v.toSource t)).2 where
  idle := by
    rw [Curator.pending, Curator.buffer_rebuild]
    rfl
  holds := by
    have hlist : (v.toSource t).list = .ok (v.list t) := rfl
    rw [((Curator.new v.config segmenter store).rebuild_of_list hlist).2]
    exact v.holds_indexOf segmenter t

omit [SnapshotStore σ] in
/-- An index in step answers like a new one. -/
theorem InStep.answers (S : Type) [Score S] [SoundScore S] (h : v.InStep segmenter t m)
    (store : τ) :
    let fresh := ((Curator.new v.config segmenter store).rebuild (v.toSource t)).2
    Engine.SameAnswers S m.engine fresh.engine ∧
      ∀ raw combine, m.ask? raw combine = fresh.ask? raw combine := by
  have hfresh := (v.inStep_rebuild segmenter t store).holds
  refine ⟨h.holds.sameAnswers S hfresh, fun raw combine => ?_⟩
  rw [Curator.ask?, Curator.ask?, Curator.config, Curator.config,
    h.holds.reached.madeWith.config, hfresh.reached.madeWith.config]

end VaultFolder

/-! ## Moves and reports -/

namespace Watch

open VaultFolder (Relocates)

variable {v : VaultFolder} {source target old new : String}

/-- The reports of the files at the new place, with whatever is applied in between, and a flush
bring the index to what the vault holds again. The source may be any that has the documents of
the vault at the new paths. -/
theorem holds_of_reporting {σ : Type} [SnapshotStore σ] {segmenter : Option Segmenter}
    {before t : FileTree} {base u w : Location} {m m' : Curator σ} {src : Source}
    (hmove : Relocates v before t base u w) (htarget : t.locate target = .ok (base ++ w))
    (hsrc : ∀ p ∈ (t.waysAt target).map (along (pathOfWay w)),
      src.readAs? p p = (v.toSource t).readAs? p p)
    (hstep : v.InStep segmenter before m)
    (hrun : Curator.Reporting src
      ((movesOf t target (pathOfWay u) (pathOfWay w)).map Change.ofMove) m m') :
    Engine.Holds v.config segmenter (m'.flush src).1.engine
      (v.indexOf segmenter t).contents := by
  have hways : ∀ x, x ∈ t.waysAt target ↔ (t.bytesAt? (base ++ (w ++ x))).isSome := by
    intro x
    rw [FileTree.mem_waysAt hmove.tree, FileTree.hasFile_iff htarget, Option.isSome_iff_exists]
    simp only [FileTree.bytesAt?_eq_some, List.append_assoc]
  have hstart : Curator.HeadsFor v.config segmenter src
      {p | ((v.indexOf segmenter before).contents p).isSome ∨
        p ∈ (t.waysAt target).map (along (pathOfWay w))} m (v.indexOf segmenter before).contents :=
    Curator.headsFor_of_idle _ hstep.holds hstep.getElem?_items fun p hp => Or.inl hp
  have hfits : ∀ move ∈ movesOf t target (pathOfWay u) (pathOfWay w),
      Curator.Fits v.config src {p | ((v.indexOf segmenter before).contents p).isSome ∨
        p ∈ (t.waysAt target).map (along (pathOfWay w))} move := by
    intro move hmem
    obtain ⟨x, hx, rfl⟩ := List.mem_map.mp hmem
    exact hmove.fits segmenter hways hsrc hx
  have hholds := (hstart.reporting hfits hrun).flush.1
  rwa [movesOf, hmove.foldl_afterMove segmenter (t.nodup_waysAt target) hways hsrc] at hholds

/-- What is reported of a move to a place that no link leads to is what lies there in the bare
tree. -/
theorem translate_moved_of_plain {t : LinkedTree} (ht : t.IsTree)
    (hold : v.relative? source = some old) (hnew : v.relative? target = some new)
    (hplain : t.Plain target) :
    translate v t ⟨.moved, [source, target]⟩ = translate v t.tree ⟨.moved, [source, target]⟩ := by
  have hfiles : filesAt t target = filesAt t.tree target := by
    simp only [filesAt, LinkedTree.isFile_of_plain ht hplain,
      LinkedTree.filesBelow_of_plain ht hplain, FileTree.fileSystem_isFile,
      FileTree.fileSystem_filesBelow]
  simp only [translate, changesOf, moved, hold, hnew, hfiles]

/-- A note is moved, and its old path is reported as one through the parent of a folder: the
note stays in the index at its old path. -/
theorem moved_through_parent :
    let files := ({} : FileTree).place "vault/a.md" (Utf8.encode "walrus")
    let before := (files.makeFolders? "vault/x").getD files
    let t := (before.rename? "vault/x/../a.md" "vault/b.md").getD before
    let v : VaultFolder := ⟨"vault", {}⟩
    let m := ((Curator.new v.config none ({} : MemoryStore)).rebuild (v.toSource before)).2
    let event : Event := ⟨.moved, ["vault/x/../a.md", "vault/b.md"]⟩
    let after := ((handle v t m event).flush (v.toSource t)).1
    before.IsTree ∧ before.isFolder v.root ∧
      before.rename? "vault/x/../a.md" "vault/b.md" = some t ∧
      v.relative? "vault/x/../a.md" = some "x/../a.md" ∧ v.relative? "vault/b.md" = some "b.md" ∧
      t.exists? "vault/b.md" ∧ v.InStep none before m ∧
      after.engine.contains "a.md" = true ∧ (v.indexOf none t).contains "a.md" = false := by
  intro files before t v m event after
  have hmoved : (before.rename? "vault/x/../a.md" "vault/b.md").isSome := by decide +kernel
  have hreached : Curator.Reached v.config none m := .rebuild (.new _) _
  have hgone : t.exists? (v.resolve "a.md") = false := by decide +kernel
  have hnone : (handle v t m event).buffer.items["a.md"]? = none := by decide +kernel
  -- no operation waits for the path, so the flush leaves what is indexed there
  have hafter : after.engine.contains "a.md" := by
    refine ((reached_handle hreached event).contains_flush
      (VaultFolder.holdsNothing (by decide) hgone) (Or.inl rfl)).mpr ⟨?_, fun time => ?_⟩
    · rw [engine_handle]
      decide +kernel
    · simp [hnone]
  exact ⟨by decide +kernel, by decide +kernel,
    (Option.getD_of_ne_none (Option.isSome_iff_ne_none.mp hmoved) before).symm,
    by decide +kernel, by decide +kernel, by decide +kernel,
    v.inStep_rebuild none before ({} : MemoryStore), hafter, by decide +kernel⟩

end Watch

end VaultSearch

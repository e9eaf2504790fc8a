import VaultSearch.Proofs.Curator.Startup
import VaultSearch.Proofs.Files.Ways

/-!
# The documents of a vault folder

What an index of a vault holds at a path depends on the bytes that lie where
the way of the path leads from the root, and on the path itself: on its
extension, and on whether it is excluded (`VaultFolder.contents_of_way`). At a
path that is no way's it holds nothing.
-/

namespace VaultSearch

open VaultFolder (pathOfWay)
open VaultSearch.Path (IsWay)

/-- The bytes of the file at a location. -/
def FileTree.bytesAt? (t : FileTree) (at_ : Location) : Option (List UInt8) :=
  match t.entryAt? at_ with
  | some (.file bytes) => some bytes
  | _ => none

theorem FileTree.bytesAt?_eq_some {t : FileTree} {l : Location} {bytes : List UInt8} :
    t.bytesAt? l = some bytes ↔ t.entryAt? l = some (.file bytes) := by
  rw [bytesAt?]
  split
  · rename_i hentry
    simp [hentry]
  · rename_i hnot
    exact iff_of_false (by simp) (hnot bytes)

namespace VaultFolder

variable {v : VaultFolder} {t : FileTree} {base way : Location}

/-- The document that a file with the given bytes is. -/
def documentOf (v : VaultFolder) (path : String) (bytes : List UInt8) : Document :=
  if v.config.isContentIndexable path then Document.ofText path (Utf8.decodeLossy bytes)
  else Document.ofPath path none none

theorem path_documentOf (v : VaultFolder) (path : String) (bytes : List UInt8) :
    (v.documentOf path bytes).path = path := by
  rw [documentOf]
  split <;> rfl

/-! ## Reading -/

/-- The path of a way leads where the way leads from the root. -/
theorem lookup?_resolve (ht : t.IsTree) (hroot : t.locate v.root = .ok base) (hne : way ≠ [])
    (hway : IsWay way) : t.lookup? (v.resolve (pathOfWay way)) = t.entryAt? (base ++ way) := by
  have hjoin := FileTree.locate_join_way hroot hne hway
  rw [resolve]
  cases hlocate : t.locate (Path.join v.root (pathOfWay way)) with
  | ok l =>
      rw [FileTree.lookup?_of_locate hlocate,
        FileTree.eq_append_of_follow_way hway (hjoin.symm.trans hlocate)]
  | error problem =>
      cases hentry : t.entryAt? (base ++ way) with
      | none => simp [FileTree.lookup?, FileTree.locate?, hlocate, Except.toOption]
      | some node =>
          rw [hjoin, ht.follow_way way hentry] at hlocate
          cases hlocate

theorem read_of_lookup? {path : String} {bytes : List UInt8}
    (h : t.lookup? (v.resolve path) = some (.file bytes)) :
    v.read t path = .ok (v.documentOf path bytes) := by
  rw [read, FileTree.fileSystem_isFile, FileTree.isFile_of_lookup? h, content,
    FileTree.fileSystem_read, FileTree.read_of_lookup? h, documentOf]
  cases v.config.isContentIndexable path <;> rfl

theorem read_of_not_file {path : String}
    (h : ∀ bytes, t.lookup? (v.resolve path) ≠ some (.file bytes)) :
    v.read t path = .error (.fault (.documentNotFound path)) := by
  have hfile : t.isFile (v.resolve path) = false := by
    rw [FileTree.isFile]
    split
    · rename_i bytes hlookup
      exact absurd hlookup (h bytes)
    · rfl
  rw [read, FileTree.fileSystem_isFile, hfile]
  rfl

/-- At the path of a way the vault has the document that lies at its end. -/
theorem readAs?_of_way (ht : t.IsTree) (hroot : t.locate v.root = .ok base) (hne : way ≠ [])
    (hway : IsWay way) :
    (v.toSource t).readAs? (pathOfWay way) (pathOfWay way) =
      (t.bytesAt? (base ++ way)).map (v.documentOf (pathOfWay way)) := by
  have hlookup := lookup?_resolve ht hroot hne hway
  cases hbytes : t.bytesAt? (base ++ way) with
  | some bytes =>
      rw [FileTree.bytesAt?_eq_some.mp hbytes] at hlookup
      have hread : (v.toSource t).read (pathOfWay way) = _ := read_of_lookup? hlookup
      rw [Source.readAs?_of_read hread, if_pos (v.path_documentOf _ bytes), Option.map_some]
  | none =>
      have hread : (v.toSource t).read (pathOfWay way) = _ :=
        read_of_not_file fun bytes hfile => by
          rw [hlookup, ← FileTree.bytesAt?_eq_some, hbytes] at hfile
          cases hfile
      exact Source.readAs?_of_error hread

/-! ## Indexing -/

theorem mem_list {p : String} :
    p ∈ v.list t ↔ v.config.shouldExclude p = false ∧
      ∃ way, way ≠ [] ∧ t.HasFile v.root way ∧ pathOfWay way = p := by
  simp only [list, List.mem_mergeSort, List.mem_filter, List.mem_map,
    FileTree.fileSystem_filesBelow, FileTree.mem_filesBelow,
    Bool.not_eq_true', and_assoc]
  rw [and_comm, Config.shouldExclude]

/-- The index that is built from the vault. -/
def indexOf {F : Type} [FileSystem F] (v : VaultFolder) (segmenter : Option Segmenter) (t : F) :
    Engine :=
  ((Engine.new v.config segmenter).reindex ((v.toSource t).readAll (v.list t))).1

/-- The fields of a document under which it is indexed. -/
def fieldsOf (v : VaultFolder) (segmenter : Option Segmenter) (d : Document) :
    PerField (List String) :=
  ((Engine.new v.config segmenter).analyse d).fields

theorem contents_indexOf {F : Type} [FileSystem F] (v : VaultFolder)
    (segmenter : Option Segmenter) (t : F) (p : String) : (v.indexOf segmenter t).contents p =
      (if p ∈ v.list t then (v.toSource t).readAs? p p else none).map (v.fieldsOf segmenter) := by
  have hnew : Engine.MadeWith v.config segmenter (Engine.new v.config segmenter) := ⟨rfl, rfl⟩
  exact hnew.contents_reindex (v.toSource t) (v.list t) p

/-- The index of a vault holds at a path what lies at the end of its way, unless the path is
excluded. -/
theorem contents_of_way (segmenter : Option Segmenter) (ht : t.IsTree)
    (hroot : t.locate v.root = .ok base) (hne : way ≠ []) (hway : IsWay way) :
    (v.indexOf segmenter t).contents (pathOfWay way) =
      if v.config.shouldExclude (pathOfWay way) then none
      else (t.bytesAt? (base ++ way)).map fun bytes =>
        v.fieldsOf segmenter (v.documentOf (pathOfWay way) bytes) := by
  rw [contents_indexOf]
  split
  · rename_i hlist
    rw [(mem_list.mp hlist).1, readAs?_of_way ht hroot hne hway, Option.map_map]
    rfl
  · rename_i hlist
    split
    · rfl
    · rename_i hincluded
      have hnone : t.bytesAt? (base ++ way) = none := by
        rw [← Option.not_isSome_iff_eq_none]
        intro hsome
        obtain ⟨bytes, hbytes⟩ := Option.isSome_iff_exists.mp hsome
        exact hlist (mem_list.mpr ⟨by simpa using hincluded, way, hne,
          (FileTree.hasFile_iff hroot).mpr ⟨bytes, FileTree.bytesAt?_eq_some.mp hbytes⟩, rfl⟩)
      rw [hnone]
      rfl

/-- At a path of no way it holds nothing. -/
theorem contents_of_no_way (segmenter : Option Segmenter) (ht : t.IsTree) {p : String}
    (h : ∀ way, way ≠ [] → IsWay way → p ≠ pathOfWay way) :
    (v.indexOf segmenter t).contents p = none := by
  rw [contents_indexOf, if_neg]
  · rfl
  · intro hlist
    obtain ⟨-, way, hne, ⟨l, bytes, -, hentry⟩, rfl⟩ := mem_list.mp hlist
    exact h way hne (ht.isWay_of_entry hentry) rfl

theorem exists_way_of_contents {segmenter : Option Segmenter} (ht : t.IsTree)
    (hroot : t.locate v.root = .ok base) {p : String}
    (h : ((v.indexOf segmenter t).contents p).isSome) :
    ∃ way, way ≠ [] ∧ IsWay way ∧ p = pathOfWay way ∧ (t.bytesAt? (base ++ way)).isSome := by
  by_cases hp : ∃ way, way ≠ [] ∧ IsWay way ∧ p = pathOfWay way
  · obtain ⟨way, hne, hway, rfl⟩ := hp
    refine ⟨way, hne, hway, rfl, ?_⟩
    rw [contents_of_way segmenter ht hroot hne hway] at h
    split at h
    · cases h
    · rwa [Option.isSome_map] at h
  · rw [contents_of_no_way segmenter ht fun way hne hway heq => hp ⟨way, hne, hway, heq⟩] at h
    cases h

end VaultFolder

end VaultSearch

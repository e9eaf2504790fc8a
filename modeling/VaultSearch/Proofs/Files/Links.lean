import VaultSearch.LinkedTree
import VaultSearch.Proofs.Files.Documents
import VaultSearch.Proofs.Files.Renaming

/-!
# Where links make no difference

In a file tree with symbolic links a path that leads somewhere through
folders alone leads there as if there were no links
(`LinkedTree.locate_of_tree`). So what lies at it is the same, and
what is listed below it too, whatever links lie there: the documents of
a vault whose root is such a path are those of the bare tree
(`VaultFolder.indexOf_of_plain`).
-/

namespace VaultSearch

namespace LinkedTree

open VaultSearch.Path (Part)

variable {s s' : LinkedTree} {at_ l a b : Location} {path : String}

/-- The files and folders are a tree, and the links lie in folders, where nothing else lies. -/
structure IsTree (s : LinkedTree) : Prop where
  tree : s.tree.IsTree
  apart : ∀ l ∈ s.links, s.tree.entryAt? l = none
  folders : ∀ l ∈ s.links, s.tree.entryAt? l.dropLast = some .folder

instance (s : LinkedTree) : Decidable s.IsTree :=
  decidable_of_iff (s.tree.IsTree ∧ (∀ l ∈ s.links.keys, s.tree.entryAt? l = none) ∧
      ∀ l ∈ s.links.keys, s.tree.entryAt? l.dropLast = some .folder)
    ⟨fun ⟨ht, ha, hf⟩ => ⟨ht, fun l hl => ha l (Std.TreeMap.mem_keys.mpr hl),
        fun l hl => hf l (Std.TreeMap.mem_keys.mpr hl)⟩,
      fun h => ⟨h.tree, fun l hl => h.apart l (Std.TreeMap.mem_keys.mp hl),
        fun l hl => h.folders l (Std.TreeMap.mem_keys.mp hl)⟩⟩

/-- No link lies on the way of the path, which leads somewhere; at its end one may lie. -/
def Direct (s : LinkedTree) (path : String) : Prop := ∃ l, s.tree.locate path = .ok l

/-- No link lies on the way of the path, which leads somewhere, nor at its end. -/
def Plain (s : LinkedTree) (path : String) : Prop :=
  ∃ l, s.tree.locate path = .ok l ∧ l ∉ s.links

instance (s : LinkedTree) (path : String) : Decidable (s.Direct path) :=
  match h : s.tree.locate path with
  | .ok l => .isTrue ⟨l, h⟩
  | .error _ => .isFalse fun ⟨_, hl⟩ => by
      rw [h] at hl
      cases hl

instance (s : LinkedTree) (path : String) : Decidable (s.Plain path) :=
  match h : s.tree.locate path with
  | .ok l => decidable_of_iff (l ∉ s.links)
      ⟨fun hfree => ⟨l, h, hfree⟩, fun ⟨l', hl', hfree⟩ => by
        rwa [Except.ok.inj (h.symm.trans hl')]⟩
  | .error _ => .isFalse fun ⟨_, hl, _⟩ => by
      rw [h] at hl
      cases hl

theorem IsTree.not_mem_links (h : s.IsTree) {node : FileNode}
    (hentry : s.tree.entryAt? l = some node) : l ∉ s.links := by
  intro hl
  rw [h.apart l hl] at hentry
  cases hentry

/-! ## Looking -/

/-- Where pieces lead through folders alone, no link is met. -/
theorem reach_of_follow (h : s.IsTree) (hl : l ∉ s.links) : ∀ {pieces : List (List Char)}
    {at_ : Location}, pieces.foldlM s.tree.follow at_ = .ok l →
    s.reach at_ pieces = .ok (.there l)
  | [], _, hway => by rw [reach, Except.ok.inj hway]
  | piece :: pieces, at_, hway => by
      obtain ⟨next, hnext, hrest⟩ := foldlM_cons_eq_ok.mp hway
      have hfree : next ∉ s.links := by
        cases pieces with
        | nil => rwa [Except.ok.inj hrest]
        | cons piece' pieces =>
            obtain ⟨_, hlater, -⟩ := foldlM_cons_eq_ok.mp hrest
            exact h.not_mem_links (FileTree.entryAt?_of_follow hlater)
      have hnone : s.links[next]? = none := Std.TreeMap.getElem?_eq_none hfree
      simp only [reach, hnext, bind, Except.bind, hnone]
      exact reach_of_follow h hl hrest

theorem walk_of_follow (h : s.IsTree) (hl : l ∉ s.links) (left : Nat) {pieces : List (List Char)}
    (hway : pieces.foldlM s.tree.follow at_ = .ok l) : s.walk left at_ pieces = .ok l := by
  cases left <;> simp [walk, reach_of_follow h hl hway, bind, Except.bind]

theorem locate_of_tree (h : s.IsTree) (hlocate : s.tree.locate path = .ok l)
    (hl : l ∉ s.links) : s.locate path = .ok l := by
  have hne := FileTree.ne_empty_of_locate hlocate
  rw [FileTree.locate_eq hne] at hlocate
  rw [locate, if_neg (by simpa using hne), walk_of_follow h hl _ hlocate]

theorem lookup?_of_plain (h : s.IsTree) (hpath : s.Plain path) :
    s.lookup? path = s.tree.lookup? path := by
  obtain ⟨l, hlocate, hl⟩ := hpath
  rw [lookup?, locate_of_tree h hlocate hl]
  exact (FileTree.lookup?_of_locate hlocate).symm

theorem isFile_of_plain (h : s.IsTree) (hpath : s.Plain path) :
    FileSystem.isFile s path = s.tree.isFile path := by
  rcases hlookup : s.tree.lookup? path with _ | _ | _ <;>
    simp only [FileSystem.isFile, FileTree.isFile, lookup?_of_plain h hpath, hlookup]

theorem exists?_of_plain (h : s.IsTree) (hpath : s.Plain path) :
    FileSystem.exists? s path = s.tree.exists? path := by
  simp only [FileSystem.exists?, FileTree.exists?, lookup?_of_plain h hpath]

theorem read_of_plain (h : s.IsTree) (hpath : s.Plain path) :
    FileSystem.read s path = s.tree.read path := by
  obtain ⟨l, hlocate, hl⟩ := hpath
  simp only [FileSystem.read, FileTree.read, locate_of_tree h hlocate hl, hlocate]

theorem filesBelow_of_plain (h : s.IsTree) (hpath : s.Plain path) :
    FileSystem.filesBelow s path = s.tree.filesBelow path := by
  obtain ⟨l, hlocate, hl⟩ := hpath
  simp only [FileSystem.filesBelow, FileTree.filesBelow, locate_of_tree h hlocate hl,
    FileTree.locate?, hlocate, Except.toOption]

/-- The path of a file or a folder of the bare tree is plain. -/
theorem plain_of_entry (h : s.IsTree) {node : FileNode} (hlocate : s.tree.locate path = .ok l)
    (hentry : s.tree.entryAt? l = some node) : s.Plain path :=
  ⟨l, hlocate, h.not_mem_links hentry⟩

/-! ## Renaming -/

/-- Where components lead through folders alone, they name this place, also if a link lies
there. -/
theorem placeOf_of_follow (h : s.IsTree) (start : Location) : ∀ {pieces : List (List Char)}
    {l : Location}, pieces.reverse.foldlM s.tree.follow start = .ok l →
    s.placeOf start pieces = some l
  | [], l, hway => by rw [placeOf, Except.ok.inj hway]
  | last :: front, l, hway => by
      rw [List.reverse_cons, List.foldlM_append] at hway
      cases hfront : front.reverse.foldlM s.tree.follow start with
      | error problem =>
          rw [hfront] at hway
          cases hway
      | ok folder =>
          rw [hfront] at hway
          obtain ⟨next, hnext, hnil⟩ := foldlM_cons_eq_ok.mp hway
          obtain rfl := Except.ok.inj hnil
          have hfolder := FileTree.entryAt?_of_follow hnext
          rw [placeOf]
          cases hlast : Part.ofPiece? last with
          | none =>
              have hstay := FileTree.follow_of_ofPiece?_eq_none hlast hfolder
              obtain rfl := Except.ok.inj (hstay.symm.trans hnext)
              simp [placeOf_of_follow h start hfront, FileTree.isFolderAt, hfolder]
          | some p =>
              simp [walk_of_follow h (h.not_mem_links hfolder) _ hfront, hnext, Except.toOption]

theorem place?_of_tree (h : s.IsTree) (hlocate : s.tree.locate path = .ok l) :
    s.place? path = some l := by
  have hne := FileTree.ne_empty_of_locate hlocate
  rw [FileTree.locate_eq hne] at hlocate
  rw [place?, if_neg (by simpa using hne)]
  exact placeOf_of_follow h _ (by rwa [List.reverse_reverse])

/-- A link that is moved lies at the new place afterwards, in place of a file if there was
one. -/
theorem move?_link (h : s.move? a b = some s') (ha : a ∈ s.links) :
    b ∈ s'.links ∧ s'.tree = s.tree.cut b := by
  obtain ⟨path, hpath⟩ :=
    Option.isSome_iff_exists.mp (Std.TreeMap.mem_iff_isSome_getElem?.mp ha)
  have hmoved : movedTo? a b a = some b := by
    rw [movedTo?, List.isPrefixOf?_eq_some_iff_append_eq.mpr (List.append_nil a)]
    exact congrArg some (List.append_nil b)
  rw [move?, if_pos (Std.TreeMap.contains_iff_mem.mpr ha)] at h
  obtain ⟨-, heq⟩ := Option.ite_none_left_eq_some.mp h
  obtain rfl := Option.some.inj heq
  refine ⟨?_, rfl⟩
  rw [Std.TreeMap.mem_ofList, List.contains_iff_mem, List.mem_map]
  refine ⟨(b, path), List.mem_filterMap.mpr ⟨(a, path), ?_, ?_⟩, rfl⟩
  · exact Std.TreeMap.mem_toList_iff_getElem?_eq_some.mpr hpath
  · simp only [hmoved, Option.map_some]

/-- Where no link is moved, the bare tree is changed as if there were none. -/
theorem move?_tree (h : s.move? a b = some s') (ha : a ∉ s.links) :
    s.tree.move? a b = some s'.tree := by
  rw [move?, if_neg (mt Std.TreeMap.contains_iff_mem.mp ha)] at h
  obtain ⟨-, hmove⟩ := Option.ite_none_left_eq_some.mp h
  obtain ⟨t, ht, rfl⟩ := Option.map_eq_some_iff.mp hmove
  exact ht

/-- So does a renaming whose paths meet no link, the one of the new place not even at its end. -/
theorem rename?_tree {source target : String} (h : s.IsTree) (hsource : s.Direct source)
    (htarget : s.Direct target) (hrename : s.rename? source target = some s')
    (hplain : s'.Plain target) :
    s.tree.rename? source target = some s'.tree := by
  obtain ⟨a, ha⟩ := hsource
  obtain ⟨b, hb⟩ := htarget
  simp only [rename?, place?_of_tree h ha, place?_of_tree h hb, Option.bind_eq_bind,
    Option.bind_some] at hrename
  refine FileTree.rename?_eq_some_iff.mpr ⟨a, b, ha, hb, move?_tree hrename fun hlink => ?_⟩
  -- a link that was moved would lie at the new place
  obtain ⟨hb', htree⟩ := move?_link hrename hlink
  obtain ⟨l, hl, hfree⟩ := hplain
  have hhere : s'.tree.here = s.tree.here := by
    rw [htree]
    rfl
  rw [FileTree.locate_unique hhere hb hl] at hb'
  exact hfree hb'

end LinkedTree

/-! ## Vaults -/

namespace VaultFolder

open LinkedTree (Plain)

variable {v : VaultFolder} {s : LinkedTree} {path : String}

/-- The path of what lies in the bare tree at the end of a way is plain. -/
theorem plain_resolve {base way : Location} {node : FileNode} (h : s.IsTree)
    (hbase : s.tree.locate v.root = .ok base) (hne : way ≠ [])
    (hentry : s.tree.entryAt? (base ++ way) = some node) :
    s.Plain (v.resolve (pathOfWay way)) := by
  have hway := h.tree.isWay_of_entry hentry
  refine LinkedTree.plain_of_entry h ?_ hentry
  rw [resolve, FileTree.locate_join_way hbase hne hway]
  exact h.tree.follow_way way hentry

/-- A file that is reached through no link is read from the bare tree. -/
theorem readAs?_of_plain (h : s.IsTree) (hpath : s.Plain (v.resolve path)) :
    (v.toSource s).readAs? path path = (v.toSource s.tree).readAs? path path := by
  have hread : v.read s path = v.read s.tree path := by
    simp only [read, content, LinkedTree.isFile_of_plain h hpath,
      LinkedTree.read_of_plain h hpath, FileTree.fileSystem_isFile, FileTree.fileSystem_read]
  simp only [Source.readAs?, toSource, hread]

theorem list_of_plain (h : s.IsTree) (hroot : s.Plain v.root) : v.list s = v.list s.tree := by
  simp only [list, LinkedTree.filesBelow_of_plain h hroot, FileTree.fileSystem_filesBelow]

/-- A vault whose root is reached through no link has the documents of the bare tree. -/
theorem indexOf_of_plain (segmenter : Option Segmenter) (h : s.IsTree) (hroot : s.Plain v.root) :
    v.indexOf segmenter s = v.indexOf segmenter s.tree := by
  have hdocs : (v.toSource s).readAll (v.list s) = (v.toSource s.tree).readAll (v.list s.tree) := by
    rw [list_of_plain h hroot]
    refine List.filterMap_congr fun path hpath => readAs?_of_plain h ?_
    obtain ⟨-, way, hne, ⟨base, bytes, hbase, hentry⟩, rfl⟩ := mem_list.mp hpath
    exact plain_resolve h hbase hne hentry
  rw [indexOf, indexOf, hdocs]

end VaultFolder

end VaultSearch

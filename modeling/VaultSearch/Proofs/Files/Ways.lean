import VaultSearch.Proofs.Curator.World
import VaultSearch.Proofs.Files.Changes
import VaultSearch.VaultFolder
import VaultSearch.Watch

/-!
# Ways as paths

The way from one location to another is a list of names, and written as a
path it is read back (`Path.pieces_pathOfWay`). A path inside a root that is
normal from there is the text of a way, and leads where this way leads from
the root (`FileTree.locate_inside`). The files at or below a path are told by
their ways from it (`FileTree.mem_waysAt`), and so is the path that a watcher
gives to each of them, seen from a root (`Watch.relative?_fileAt`).
-/

namespace VaultSearch

open VaultFolder (pathOfWay)

/-! ## Texts of ways -/

namespace Path

/-- The names of a way are names of components. -/
def IsWay (way : Location) : Prop := ∀ name ∈ way, (Part.name name.toList).IsStep

/-- The components of a way. -/
def partsOfWay (way : Location) : List Part := way.map fun name => .name name.toList

/-- The path of what lies at the end of a way from `path`. -/
def along (path : String) (way : Location) : String :=
  if way = [] then path else path ++ "/" ++ pathOfWay way

variable {way way' : Location}

theorem IsWay.isStep (h : IsWay way) : ∀ p ∈ partsOfWay way, p.IsStep := by
  intro p hp
  obtain ⟨name, hname, rfl⟩ := List.mem_map.mp hp
  exact h name hname

theorem IsWay.append (h : IsWay way) (h' : IsWay way') : IsWay (way ++ way') :=
  fun name hname => (List.mem_append.mp hname).elim (h name) (h' name)

theorem partsOfWay_ne_nil (hne : way ≠ []) : partsOfWay way ≠ [] := by
  simpa [partsOfWay] using hne

theorem map_text_partsOfWay (way : Location) :
    (partsOfWay way).map Part.text = way.map String.toList := by
  rw [partsOfWay, List.map_map]
  rfl

theorem partsOfWay_injective : Function.Injective partsOfWay :=
  List.map_injective_iff.mpr fun _ _ h => String.toList_injective (Part.name.inj h)

theorem render_partsOfWay (way : Location) : render (partsOfWay way) = pathOfWay way := by
  rw [render, pathOfWay, partsOfWay, List.map_map]
  congr 1
  exact List.map_id'' (fun name => by simp [Part.text]) way

theorem pieces_pathOfWay (hne : way ≠ []) (h : IsWay way) :
    pieces (pathOfWay way) = way.map String.toList := by
  rw [← render_partsOfWay, pieces_render (partsOfWay_ne_nil hne) h.isStep, map_text_partsOfWay]

theorem steps_pathOfWay (hne : way ≠ []) (h : IsWay way) :
    steps (pathOfWay way) = partsOfWay way := by
  rw [← render_partsOfWay, steps_render (partsOfWay_ne_nil hne) h.isStep]

theorem isAbsolute_pathOfWay (hne : way ≠ []) (h : IsWay way) :
    isAbsolute (pathOfWay way) = false := by
  rw [← render_partsOfWay, isAbsolute_render (partsOfWay_ne_nil hne) h.isStep]

theorem eq_of_pathOfWay_eq (hne : way ≠ []) (h : IsWay way) (hne' : way' ≠ []) (h' : IsWay way')
    (heq : pathOfWay way = pathOfWay way') : way = way' := by
  apply partsOfWay_injective
  rw [← steps_pathOfWay hne h, heq, steps_pathOfWay hne' h']

theorem isNormal_pathOfWay (hne : way ≠ []) (h : IsWay way) : IsNormal (pathOfWay way) := by
  intro piece hpiece
  rw [pieces_pathOfWay hne h] at hpiece
  obtain ⟨name, hname, rfl⟩ := List.mem_map.mp hpiece
  exact (h name hname).read

theorem render_append {ps qs : List Part} (hps : ps ≠ []) (hqs : qs ≠ []) :
    render (ps ++ qs) = render ps ++ "/" ++ render qs := by
  induction ps with
  | nil => exact absurd rfl hps
  | cons p ps ih =>
      by_cases hnil : ps = []
      · subst hnil
        rw [List.singleton_append, render_cons hqs, render, render]
        simp [Text.joinWith]
      · rw [List.cons_append, render_cons (by simp [hnil]), render_cons hnil, ih hnil]
        simp only [String.append_assoc]

theorem along_render {ps : List Part} (hps : ps ≠ []) (way : Location) :
    along (render ps) way = render (ps ++ partsOfWay way) := by
  rw [along]
  split
  · rename_i hnil
    rw [hnil, partsOfWay, List.map_nil, List.append_nil]
  · rename_i hne
    rw [render_append hps (partsOfWay_ne_nil hne), render_partsOfWay]

theorem along_pathOfWay (hne : way ≠ []) (way' : Location) :
    along (pathOfWay way) way' = pathOfWay (way ++ way') := by
  have hparts : partsOfWay (way ++ way') = partsOfWay way ++ partsOfWay way' := List.map_append
  rw [← render_partsOfWay, along_render (partsOfWay_ne_nil hne), ← hparts, render_partsOfWay]

theorem mem_map_along {start : Location} {ways : List Location} (hstart : start ≠ [])
    (hways : ∀ x ∈ ways, IsWay (start ++ x)) (hne : way ≠ []) (h : IsWay way) :
    pathOfWay way ∈ ways.map (along (pathOfWay start)) ↔ ∃ x ∈ ways, way = start ++ x := by
  rw [List.mem_map]
  refine exists_congr fun x => and_congr_right fun hx => ?_
  rw [along_pathOfWay hstart]
  constructor
  · exact fun heq => (eq_of_pathOfWay_eq (by simp [hstart]) (hways x hx) hne h heq).symm
  · rintro rfl
    rfl

/-- Different ways lead from a path to different paths. -/
theorem eq_of_along_eq {path : String} (h : IsWay way) (h' : IsWay way')
    (heq : along path way = along path way') : way = way' := by
  have hlonger : ∀ rest : String, path ≠ path ++ "/" ++ rest := by
    intro rest hself
    have hlength := congrArg String.length hself
    simp only [String.length_append] at hlength
    have hslash : "/".length = 1 := rfl
    omega
  rw [along, along] at heq
  split at heq <;> split at heq
  · simp_all
  · exact absurd heq (hlonger _)
  · exact absurd heq.symm (hlonger _)
  · rename_i hne hne'
    rw [String.append_assoc, String.append_assoc, String.append_right_inj,
      String.append_right_inj] at heq
    exact eq_of_pathOfWay_eq hne h hne' h' heq

/-- What lies inside a folder is further along its way. -/
theorem prefix_of_inside (hne : way ≠ []) (h : IsWay way) (hne' : way' ≠ []) (h' : IsWay way')
    (hin : Inside (pathOfWay way) (pathOfWay way')) : way <+: way' ∧ way ≠ way' := by
  obtain ⟨rest, hrest⟩ := hin
  have htext : pathOfWay way' = pathOfWay way ++ "/" ++ String.ofList rest := by
    rw [← String.toList_inj, ← hrest]
    simp
  have hpieces := congrArg pieces htext
  rw [pieces_append, pieces_pathOfWay hne h, pieces_pathOfWay hne' h'] at hpieces
  constructor
  · obtain ⟨front, last, rfl, hfront, -⟩ := List.map_eq_append_iff.mp hpieces
    obtain rfl := List.map_injective_iff.mpr (fun _ _ => String.toList_injective) hfront
    exact List.prefix_append front last
  · rintro rfl
    exact pieces_ne_nil _ (List.append_right_eq_self.mp hpieces.symm)

/-- Steps that make up a normal path are the names of a way. -/
theorem exists_way_of_isNormal {ps : List Part} (hne : ps ≠ []) (hsteps : ∀ p ∈ ps, p.IsStep)
    (h : IsNormal (render ps)) : ∃ way, way ≠ [] ∧ IsWay way ∧ ps = partsOfWay way := by
  have hnames : ∀ p ∈ ps, p = .name p.text := by
    intro p hp
    have hread := h p.text (by rw [pieces_render hne hsteps]; exact List.mem_map_of_mem hp)
    exact Option.some.inj ((hsteps p hp).read.symm.trans hread)
  have hps : ps = partsOfWay (ps.map fun p => String.ofList p.text) := by
    rw [partsOfWay, List.map_map]
    exact (List.map_congr_left fun p hp => by simpa using (hnames p hp).symm).trans
      (List.map_id ps) |>.symm
  refine ⟨_, by simpa using hne, ?_, hps⟩
  intro name hname
  exact hsteps _ (hps ▸ List.mem_map_of_mem hname)

end Path

/-! ## Where ways lead -/

namespace FileTree

open VaultSearch.Path (Part IsWay partsOfWay)

variable {t t' : FileTree} {at_ l l' base : Location} {way : Location}

theorem IsTree.isWay_of_entry (ht : t.IsTree) {node : FileNode}
    (h : t.entryAt? (base ++ way) = some node) : IsWay way :=
  fun name hname => ht.names_of_entry h name (List.mem_append_right base hname)

/-- Names lead nowhere but along them. -/
theorem eq_append_of_follow_way : ∀ {way : Location} {at_ : Location}, IsWay way →
    (way.map String.toList).foldlM t.follow at_ = .ok l → l = at_ ++ way
  | [], _, _, h => by rw [List.append_nil, Except.ok.inj h]
  | name :: way, at_, hway, h => by
      obtain ⟨next, hnext, hrest⟩ := foldlM_cons_eq_ok.mp h
      rw [follow_name (hway name List.mem_cons_self) (entryAt?_of_follow hnext)] at hnext
      rw [eq_append_of_follow_way (fun n hn => hway n (List.mem_cons_of_mem _ hn)) hrest,
        ← Except.ok.inj hnext, ← List.append_cons]

theorem walk_partsOfWay : ∀ {way : Location} {at_ : Location}, IsWay way →
    (partsOfWay way).foldlM t.walk at_ = (way.map String.toList).foldlM t.follow at_
  | [], _, _ => rfl
  | name :: way, at_, hway => by
      have hname : t.walk at_ (.name name.toList) = t.follow at_ name.toList :=
        walk_of_ofPiece? (hway name List.mem_cons_self).read
      rw [partsOfWay, List.map_cons, List.map_cons, List.foldlM_cons, List.foldlM_cons, hname]
      exact congrArg _ (funext fun next =>
        walk_partsOfWay fun n hn => hway n (List.mem_cons_of_mem _ hn))

/-- Where components lead to a folder, pieces for them lead too. -/
theorem follow_of_walk_folder (hfolder : t.entryAt? l = some .folder) :
    ∀ (pieces : List (List Char)) {at_ : Location},
    (pieces.filterMap Part.ofPiece?).foldlM t.walk at_ = .ok l →
    pieces.foldlM t.follow at_ = .ok l
  | [], _, h => h
  | piece :: pieces, at_, h => by
      cases hpiece : Part.ofPiece? piece with
      | some p =>
          rw [List.filterMap_cons_some hpiece] at h
          obtain ⟨next, hnext, hrest⟩ := foldlM_cons_eq_ok.mp h
          exact foldlM_cons_eq_ok.mpr ⟨next, (walk_of_ofPiece? hpiece).symm.trans hnext,
            follow_of_walk_folder hfolder pieces hrest⟩
      | none =>
          rw [List.filterMap_cons_none hpiece] at h
          have ih := follow_of_walk_folder hfolder pieces h
          -- a folder is here: the last one, or the one that a later piece leads on from
          have hhere : t.entryAt? at_ = some .folder := by
            cases pieces with
            | nil => rwa [Except.ok.inj ih]
            | cons piece' pieces =>
                obtain ⟨_, hnext, -⟩ := foldlM_cons_eq_ok.mp ih
                exact entryAt?_of_follow hnext
          exact foldlM_cons_eq_ok.mpr ⟨at_, follow_of_ofPiece?_eq_none hpiece hhere, ih⟩

theorem locate_join_way {root : String} (hroot : t.locate root = .ok base) (hne : way ≠ [])
    (hway : IsWay way) :
    t.locate (Path.join root (pathOfWay way)) = (way.map String.toList).foldlM t.follow base := by
  rw [locate_join hroot (Path.isAbsolute_pathOfWay hne hway), Path.pieces_pathOfWay hne hway]

/-- A path inside a root that is normal from there leads from the root along a way. -/
theorem locate_inside {root path rel : String} (hroot : root ≠ "")
    (hrel : Path.relative? root path = some rel) (hnormal : Path.IsNormal rel)
    (h : t.locate path = .ok l) :
    ∃ base way, t.locate root = .ok base ∧ way ≠ [] ∧ IsWay way ∧ l = base ++ way ∧
      rel = pathOfWay way := by
  obtain ⟨ps, hne, hparts, rfl⟩ := Path.relative?_eq_some hrel
  obtain ⟨way, hwayne, hway, rfl⟩ :=
    Path.exists_way_of_isNormal hne (Path.isStep_of_below hroot hparts) hnormal
  have hwalk := walk_parts h
  rw [← hparts, List.foldlM_append] at hwalk
  cases hbase : (Path.parts root).foldlM t.walk t.here with
  | error problem =>
      rw [hbase] at hwalk
      cases hwalk
  | ok base =>
      rw [hbase] at hwalk
      have hrest : (way.map String.toList).foldlM t.follow base = .ok l :=
        (walk_partsOfWay hway).symm.trans hwalk
      -- the first name of the way leads on from the root
      have hfolder : t.entryAt? base = some .folder := by
        obtain ⟨name, rest, rfl⟩ := List.exists_cons_of_ne_nil hwayne
        obtain ⟨_, hnext, -⟩ := foldlM_cons_eq_ok.mp hrest
        exact entryAt?_of_follow hnext
      rw [Path.parts_eq, List.foldlM_append, walk_lead] at hbase
      refine ⟨base, way, ?_, hwayne, hway, eq_append_of_follow_way hway hrest,
        Path.render_partsOfWay way⟩
      rw [locate_eq hroot]
      exact follow_of_walk_folder hfolder _ hbase

theorem follow_unique {piece : List Char} (h : t.follow at_ piece = .ok l)
    (h' : t'.follow at_ piece = .ok l') : l = l' := by
  rw [follow, entryAt?_of_follow h] at h
  rw [follow, entryAt?_of_follow h'] at h'
  exact Except.ok.inj (h.symm.trans h')

/-- Where pieces lead in two trees, they lead to one location. -/
theorem foldlM_follow_unique : ∀ (pieces : List (List Char)) {at_ : Location},
    pieces.foldlM t.follow at_ = .ok l → pieces.foldlM t'.follow at_ = .ok l' → l = l'
  | [], _, h, h' => Except.ok.inj (h.symm.trans h')
  | piece :: pieces, _, h, h' => by
      obtain ⟨next, hnext, hrest⟩ := foldlM_cons_eq_ok.mp h
      obtain ⟨next', hnext', hrest'⟩ := foldlM_cons_eq_ok.mp h'
      obtain rfl := follow_unique hnext hnext'
      exact foldlM_follow_unique pieces hrest hrest'

/-- Where a path leads in two trees that are seen from one place, it leads to one location. -/
theorem locate_unique {path : String} (hhere : t'.here = t.here) (h : t.locate path = .ok l)
    (h' : t'.locate path = .ok l') : l = l' := by
  have hne := ne_empty_of_locate h
  rw [locate_eq hne] at h h'
  rw [startOf, hhere, ← startOf] at h'
  exact foldlM_follow_unique _ h h'

/-! ## The files at or below a path -/

/-- The ways from a path to the files at it or below it. -/
def waysAt (t : FileTree) (path : String) : List Location :=
  if t.isFile path then [[]] else t.filesBelow path

theorem mem_waysAt (ht : t.IsTree) {path : String} :
    way ∈ t.waysAt path ↔ t.HasFile path way := by
  rw [waysAt]
  split
  · rename_i hfile
    obtain ⟨l, bytes, hlocate, hentry⟩ := isFile_iff.mp hfile
    rw [List.mem_singleton, hasFile_iff hlocate]
    constructor
    · rintro rfl
      exact ⟨bytes, by rwa [List.append_nil]⟩
    · rintro ⟨bytes', hentry'⟩
      simpa using ht.eq_of_prefix_of_file hentry hentry' (List.prefix_append l way)
  · rename_i hfile
    rw [mem_filesBelow, and_iff_right_iff_imp]
    rintro ⟨l, bytes, hlocate, hentry⟩ rfl
    rw [List.append_nil] at hentry
    exact hfile (isFile_iff.mpr ⟨l, bytes, hlocate, hentry⟩)

theorem nodup_filesUnder (t : FileTree) (at_ : Location) : (t.filesUnder at_).Nodup := by
  rw [filesUnder, List.Nodup, List.pairwise_filterMap]
  refine (t.pairwise_entriesBelow _).imp ?_
  rintro ⟨way, node⟩ ⟨way', node'⟩ hne found hfound found' hfound'
  cases node with
  | folder => cases hfound
  | file bytes =>
      cases node' with
      | folder => cases hfound'
      | file bytes' =>
          obtain rfl := Option.some.inj hfound
          obtain rfl := Option.some.inj hfound'
          exact hne

theorem nodup_filesBelow (t : FileTree) (path : String) : (t.filesBelow path).Nodup := by
  rw [filesBelow]
  split
  · exact List.nodup_nil
  · exact t.nodup_filesUnder _

theorem nodup_waysAt (t : FileTree) (path : String) : (t.waysAt path).Nodup := by
  rw [waysAt]
  split
  · exact List.nodup_singleton _
  · exact t.nodup_filesBelow path

end FileTree

/-! ## The files that a watcher finds -/

namespace Watch

open VaultSearch.Path (IsWay partsOfWay along)

variable {t : FileTree} {path : String} {way : Location}

/-- The path of the file at the end of a way from a path. -/
def fileAt (path : String) (way : Location) : String :=
  if way = [] then path else Path.join path (pathOfWay way)

theorem filesAt_eq (t : FileTree) (path : String) :
    filesAt t path = (t.waysAt path).map (fileAt path) := by
  rw [filesAt, FileTree.fileSystem_isFile, FileTree.fileSystem_filesBelow, FileTree.waysAt]
  split
  · rfl
  · refine List.map_congr_left fun way hway => ?_
    rw [fileAt, if_neg (FileTree.mem_filesBelow.mp hway).1]

theorem isFile_fileAt (ht : t.IsTree) (h : t.HasFile path way) : t.isFile (fileAt path way) := by
  obtain ⟨l, bytes, hlocate, hentry⟩ := h
  rw [fileAt]
  split
  · rename_i hnil
    rw [hnil, List.append_nil] at hentry
    exact FileTree.isFile_iff.mpr ⟨l, bytes, hlocate, hentry⟩
  · rename_i hne
    refine FileTree.isFile_iff.mpr ⟨l ++ way, bytes, ?_, hentry⟩
    rw [FileTree.locate_join_way hlocate hne (ht.isWay_of_entry hentry)]
    exact ht.follow_way way hentry

theorem isFile_of_mem_filesAt (ht : t.IsTree) {file : String} (h : file ∈ filesAt t path) :
    t.isFile file := by
  rw [filesAt_eq] at h
  obtain ⟨way, hway, rfl⟩ := List.mem_map.mp h
  exact isFile_fileAt ht ((FileTree.mem_waysAt ht).mp hway)

theorem parts_fileAt (hpath : path ≠ "") (hway : IsWay way) :
    Path.parts (fileAt path way) = Path.parts path ++ partsOfWay way := by
  rw [fileAt]
  split
  · rename_i hnil
    rw [hnil, partsOfWay, List.map_nil, List.append_nil]
  · rename_i hne
    rw [Path.parts_join hpath (Path.isAbsolute_pathOfWay hne hway), Path.steps_pathOfWay hne hway]

/-- Seen from a root, the path of a file goes on from that of the path where it was found. -/
theorem relative?_fileAt {root rel : String} (hrel : Path.relative? root path = some rel)
    (hpath : path ≠ "") (hway : IsWay way) :
    Path.relative? root (fileAt path way) = some (along rel way) := by
  obtain ⟨ps, hne, hparts, rfl⟩ := Path.relative?_eq_some hrel
  rw [Path.along_render hne]
  refine Path.relative?_of_parts (by simp [hne]) ?_
  rw [parts_fileAt hpath hway, ← hparts, List.append_assoc]

/-- The old path of a file goes on in the same way from the old path. -/
theorem oldPath?_fileAt (old : String) (hpath : path ≠ "") (hway : IsWay way) :
    oldPath? old path (fileAt path way) = some (along old way) := by
  have hbelow : Path.below? path (fileAt path way) = some (partsOfWay way) :=
    List.isPrefixOf?_eq_some_iff_append_eq.mpr (parts_fileAt hpath hway).symm
  rw [oldPath?, hbelow, along]
  by_cases hne : way = []
  · subst hne
    rfl
  · rw [if_neg hne, ← Path.render_partsOfWay]
    obtain ⟨p, ps, hps⟩ := List.exists_cons_of_ne_nil (Path.partsOfWay_ne_nil hne)
    rw [hps]

end Watch

end VaultSearch

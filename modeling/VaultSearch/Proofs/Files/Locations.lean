import Mathlib.Data.List.Induction
import VaultSearch.FileTree
import VaultSearch.Proofs.Files.Components

/-!
# Where paths lead

A path is followed piece by piece, and some pieces count for nothing. So
the way of a path is told by its components (`FileTree.walk`): a path that
leads somewhere leads there by its components, and a path that ends in a
step leads wherever its components do. A path seen from a root and joined
with it again hence leads to the same file
(`FileTree.isFile_join_relative?`), and where nothing is no path goes on to
a file (`FileTree.not_isFile_append`).
-/

namespace VaultSearch

/-- A fold that may fail ends well if its first step and the rest do. -/
theorem foldlM_cons_eq_ok {ε α β : Type} {f : β → α → Except ε β} {b last : β} {a : α}
    {as : List α} :
    (a :: as).foldlM f b = .ok last ↔ ∃ next, f b a = .ok next ∧ as.foldlM f next = .ok last := by
  rw [List.foldlM_cons]
  cases f b a with
  | error problem => simp [bind, Except.bind]
  | ok next => simp [bind, Except.bind]

namespace FileTree

/-! ## Following paths -/

open VaultSearch.Path (Part)

variable {t : FileTree} {at_ l : Location}

/-- Follow one component. -/
def walk (t : FileTree) (at_ : Location) : Part → Except FileProblem Location
  | .root => .ok []
  | .here => .ok at_
  | p => t.follow at_ p.text

theorem walk_of_ofPiece? {piece : List Char} {p : Part} (h : Part.ofPiece? piece = some p) :
    t.walk at_ p = t.follow at_ piece := by
  obtain rfl := Part.text_of_ofPiece? h
  cases p with
  | root => simp [Part.ofPiece?, Part.text] at h
  | here => simp [Part.ofPiece?, Part.text] at h
  | up => rfl
  | name text => rfl

/-- Only from a folder does a piece lead on. -/
theorem entryAt?_of_follow {piece : List Char} (h : t.follow at_ piece = .ok l) :
    t.entryAt? at_ = some .folder := by
  rw [follow] at h
  split at h
  all_goals first | assumption | cases h

/-- A piece that counts for nothing leads back to the folder where it stands. -/
theorem follow_of_ofPiece?_eq_none {piece : List Char} (h : Part.ofPiece? piece = none)
    (hfolder : t.entryAt? at_ = some .folder) : t.follow at_ piece = .ok at_ := by
  rw [follow, hfolder, h]

/-- A name leads from a folder to what has this name in it. -/
theorem follow_name {name : String} (hname : (Part.name name.toList).IsStep)
    (hfolder : t.entryAt? at_ = some .folder) : t.follow at_ name.toList = .ok (at_ ++ [name]) := by
  have hread := hname.read
  rw [Part.text] at hread
  simp [follow, hfolder, hread, Part.text]

/-- Where pieces lead, their components lead. -/
theorem walk_of_follow : ∀ (pieces : List (List Char)) {at_ : Location},
    pieces.foldlM t.follow at_ = .ok l →
    (pieces.filterMap Part.ofPiece?).foldlM t.walk at_ = .ok l
  | [], _, h => h
  | piece :: pieces, at_, h => by
      obtain ⟨next, hnext, hrest⟩ := foldlM_cons_eq_ok.mp h
      have ih := walk_of_follow pieces hrest
      cases hpiece : Part.ofPiece? piece with
      | none =>
          rw [follow_of_ofPiece?_eq_none hpiece (entryAt?_of_follow hnext)] at hnext
          rw [List.filterMap_cons_none hpiece, Except.ok.inj hnext]
          exact ih
      | some p =>
          rw [List.filterMap_cons_some hpiece]
          exact foldlM_cons_eq_ok.mpr ⟨next, (walk_of_ofPiece? hpiece).trans hnext, ih⟩

/-- Where components lead, pieces for them lead if the last one counts. -/
theorem follow_of_walk {last : List Char} {p : Part} (hlast : Part.ofPiece? last = some p) :
    ∀ (front : List (List Char)) {at_ : Location},
    ((front ++ [last]).filterMap Part.ofPiece?).foldlM t.walk at_ = .ok l →
    (front ++ [last]).foldlM t.follow at_ = .ok l
  | [], at_, h => by
      rw [List.nil_append, List.filterMap_cons_some hlast] at h
      obtain ⟨next, hnext, hrest⟩ := foldlM_cons_eq_ok.mp h
      exact foldlM_cons_eq_ok.mpr ⟨next, (walk_of_ofPiece? hlast).symm.trans hnext, hrest⟩
  | piece :: front, at_, h => by
      rw [List.cons_append] at h ⊢
      cases hpiece : Part.ofPiece? piece with
      | none =>
          -- a later piece leads on from here, so a folder is here
          rw [List.filterMap_cons_none hpiece] at h
          have ih := follow_of_walk hlast front h
          obtain ⟨next, rest, hrest⟩ : ∃ next rest, front ++ [last] = next :: rest :=
            List.exists_cons_of_ne_nil (by simp)
          rw [hrest] at ih
          obtain ⟨_, hnext, -⟩ := foldlM_cons_eq_ok.mp ih
          have hstay := follow_of_ofPiece?_eq_none hpiece (entryAt?_of_follow hnext)
          exact foldlM_cons_eq_ok.mpr ⟨at_, hstay, hrest ▸ ih⟩
      | some p' =>
          rw [List.filterMap_cons_some hpiece] at h
          obtain ⟨next, hnext, hrest⟩ := foldlM_cons_eq_ok.mp h
          exact foldlM_cons_eq_ok.mpr
            ⟨next, (walk_of_ofPiece? hpiece).symm.trans hnext, follow_of_walk hlast front hrest⟩

theorem locate_eq {path : String} (h : path ≠ "") :
    t.locate path = (Path.pieces path).foldlM t.follow (t.startOf path) := by
  rw [locate, if_neg (by simpa using h)]

theorem ne_empty_of_locate {path : String} (h : t.locate path = .ok l) : path ≠ "" := by
  rintro rfl
  cases h

theorem walk_lead (path : String) :
    (Path.lead path).foldlM t.walk t.here = .ok (t.startOf path) := by
  rw [Path.lead, startOf]
  split
  · rfl
  · split <;> rfl

/-- Where a path leads, its components lead. -/
theorem walk_parts {path : String} (h : t.locate path = .ok l) :
    (Path.parts path).foldlM t.walk t.here = .ok l := by
  rw [locate_eq (ne_empty_of_locate h)] at h
  rw [Path.parts_eq, List.foldlM_append, walk_lead]
  exact walk_of_follow _ h

/-- A path without steps leads to the folder that it starts from. -/
theorem entryAt?_of_no_steps {path : String} (h : t.locate path = .ok l)
    (hsteps : Path.steps path = []) : t.entryAt? l = some .folder := by
  have hwalk := walk_parts h
  rw [Path.parts_eq, hsteps, List.append_nil, walk_lead] at hwalk
  obtain ⟨first, rest, hpieces⟩ := List.exists_cons_of_ne_nil (Path.pieces_ne_nil path)
  rw [locate_eq (ne_empty_of_locate h), hpieces] at h
  obtain ⟨next, hnext, -⟩ := foldlM_cons_eq_ok.mp h
  rw [← Except.ok.inj hwalk]
  exact entryAt?_of_follow hnext

/-- A path that ends in a step leads where its components lead. -/
theorem locate_of_walk_parts {path : String} (hlast : Path.EndsInStep path)
    (h : (Path.parts path).foldlM t.walk t.here = .ok l) : t.locate path = .ok l := by
  obtain ⟨front, last, p, hpieces, hp⟩ := hlast
  rw [Path.parts_eq, List.foldlM_append, walk_lead] at h
  have hne : path ≠ "" := by
    rintro rfl
    have hlast : [] = last := by simpa [Path.pieces] using congrArg List.getLast? hpieces
    rw [← hlast] at hp
    cases hp
  rw [locate_eq hne, hpieces]
  refine follow_of_walk hp front ?_
  rw [← hpieces]
  exact h

theorem isFile_iff {path : String} :
    t.isFile path ↔ ∃ l bytes, t.locate path = .ok l ∧ t.entryAt? l = some (.file bytes) := by
  rw [isFile, lookup?, locate?]
  cases t.locate path with
  | error problem => simp [Except.toOption]
  | ok l =>
      simp only [Except.toOption, Option.bind_some]
      cases hentry : t.entryAt? l with
      | none => simp [hentry]
      | some node => cases node <;> simp [hentry]

theorem exists?_iff {path : String} :
    t.exists? path ↔ ∃ l node, t.locate path = .ok l ∧ t.entryAt? l = some node := by
  rw [exists?, lookup?, locate?]
  cases t.locate path with
  | error problem => simp [Except.toOption]
  | ok l => simp [Except.toOption, Option.isSome_iff_exists]

theorem lookup?_of_locate {path : String} (h : t.locate path = .ok l) :
    t.lookup? path = t.entryAt? l := by
  simp [lookup?, locate?, h, Except.toOption]

theorem exists_locate_of_lookup? {path : String} {node : FileNode}
    (h : t.lookup? path = some node) :
    ∃ l, t.locate path = .ok l ∧ t.entryAt? l = some node := by
  cases hlocate : t.locate path with
  | error problem => simp [lookup?, locate?, hlocate, Except.toOption] at h
  | ok l => exact ⟨l, rfl, (lookup?_of_locate hlocate).symm.trans h⟩

theorem read_of_lookup? {path : String} {bytes : List UInt8}
    (h : t.lookup? path = some (.file bytes)) : t.read path = .ok bytes := by
  obtain ⟨l, hlocate, hentry⟩ := exists_locate_of_lookup? h
  simp [read, readAt, hlocate, hentry, bind, Except.bind]

theorem isFile_of_lookup? {path : String} {bytes : List UInt8}
    (h : t.lookup? path = some (.file bytes)) : t.isFile path = true := by
  rw [isFile, h]

/-- Following a path goes on from where its beginning leads. -/
theorem locate_append {a : String} (h : a ≠ "") (b : String) :
    t.locate (a ++ "/" ++ b) = (t.locate a).bind ((Path.pieces b).foldlM t.follow) := by
  have hne : a ++ "/" ++ b ≠ "" := by simp
  have hstart : t.startOf (a ++ "/" ++ b) = t.startOf a := by
    rw [startOf, startOf, String.append_assoc, Path.isAbsolute_append h]
  rw [locate_eq hne, locate_eq h, hstart, Path.pieces_append, List.foldlM_append]
  rfl

theorem startOf_join {path rel : String} (hrel : Path.isAbsolute rel = false) :
    t.startOf (Path.join path rel) = t.startOf path := by
  rw [startOf, startOf, Path.isAbsolute_join hrel]

/-- A separator at the end of a path leads nowhere else. -/
theorem foldlM_stem {pieces stem : List (List Char)} (h : pieces = stem ∨ pieces = stem ++ [[]])
    (hway : pieces.foldlM t.follow at_ = .ok l) : stem.foldlM t.follow at_ = .ok l := by
  rcases h with rfl | rfl
  · exact hway
  · rw [List.foldlM_append] at hway
    cases hstem : stem.foldlM t.follow at_ with
    | error problem =>
        rw [hstem] at hway
        cases hway
    | ok at' =>
        rw [hstem] at hway
        obtain ⟨next, hnext, hnil⟩ := foldlM_cons_eq_ok.mp hway
        obtain rfl := Except.ok.inj hnil
        rwa [follow_of_ofPiece?_eq_none rfl (entryAt?_of_follow hnext)] at hnext

theorem foldlM_of_stem {pieces stem : List (List Char)}
    (h : pieces = stem ∨ pieces = stem ++ [[]]) (hway : stem.foldlM t.follow at_ = .ok l)
    (hfolder : t.entryAt? l = some .folder) : pieces.foldlM t.follow at_ = .ok l := by
  rcases h with rfl | rfl
  · exact hway
  · rw [List.foldlM_append, hway]
    exact foldlM_cons_eq_ok.mpr ⟨l, follow_of_ofPiece?_eq_none rfl hfolder, rfl⟩

/-- Following a joined path goes on from where the first one leads. -/
theorem locate_join {path rel : String} (h : t.locate path = .ok at_)
    (hrel : Path.isAbsolute rel = false) :
    t.locate (Path.join path rel) = (Path.pieces rel).foldlM t.follow at_ := by
  have hpath := ne_empty_of_locate h
  have hne : Path.join path rel ≠ "" := by
    rcases Path.join_cases path rel with ⟨habsolute | hempty, -⟩ | ⟨r, -, hjoin⟩
    · rw [hrel] at habsolute
      cases habsolute
    · exact absurd hempty hpath
    · rw [hjoin]
      simp
  obtain ⟨stem, hpieces, hstem⟩ := Path.pieces_join hrel
  rw [locate_eq hpath] at h
  rw [locate_eq hne, startOf_join hrel, hpieces, List.foldlM_append, foldlM_stem hstem h]
  rfl

/-- A name joined with a path leads on from the folder that the path leads to. The path may
be empty, which by itself leads nowhere. -/
theorem locate_join_name {path name : String} (hname : (Part.name name.toList).IsStep) :
    t.locate (Path.join path name) = .ok l ↔
      ∃ home, (Path.pieces path).foldlM t.follow (t.startOf path) = .ok home ∧
        t.entryAt? home = some .folder ∧ l = home ++ [name] := by
  have habsolute := Path.isAbsolute_name hname
  have hne : name ≠ "" := by
    rintro rfl
    have hread := hname.read
    cases hread
  have hjoin : ∃ stem, Path.pieces (Path.join path name) = stem ++ Path.pieces name ∧
      (Path.pieces path = stem ∨ Path.pieces path = stem ++ [[]]) := Path.pieces_join habsolute
  obtain ⟨stem, hpieces, hstem⟩ := hjoin
  rw [locate_eq (Path.join_ne_empty path hne), startOf_join habsolute, hpieces,
    Path.pieces_name hname, List.foldlM_append]
  constructor
  · intro h
    cases hhome : stem.foldlM t.follow (t.startOf path) with
    | error problem =>
        rw [hhome] at h
        cases h
    | ok home =>
        rw [hhome] at h
        obtain ⟨next, hnext, hlast⟩ := foldlM_cons_eq_ok.mp h
        have hfolder := entryAt?_of_follow hnext
        rw [follow_name hname hfolder] at hnext
        refine ⟨home, foldlM_of_stem hstem hhome hfolder, hfolder, ?_⟩
        rw [Except.ok.inj hnext, Except.ok.inj hlast]
  · rintro ⟨home, hway, hfolder, rfl⟩
    rw [foldlM_stem hstem hway]
    exact foldlM_cons_eq_ok.mpr ⟨_, follow_name hname hfolder, rfl⟩

theorem exists?_of_isFile {path : String} (h : t.isFile path) : t.exists? path := by
  obtain ⟨l, bytes, hlocate, hentry⟩ := isFile_iff.mp h
  exact exists?_iff.mpr ⟨l, .file bytes, hlocate, hentry⟩

/-- There is no file below a path where nothing is. -/
theorem not_isFile_append {a : String} (h : a ≠ "") (hgone : t.exists? a = false) (b : String) :
    t.isFile (a ++ "/" ++ b) = false := by
  rw [← Bool.not_eq_true, isFile_iff]
  rintro ⟨l, bytes, hlocate, -⟩
  rw [locate_append h] at hlocate
  cases hstart : t.locate a with
  | error problem =>
      rw [hstart] at hlocate
      cases hlocate
  | ok at_ =>
      obtain ⟨first, rest, hpieces⟩ := List.exists_cons_of_ne_nil (Path.pieces_ne_nil b)
      rw [hstart, hpieces] at hlocate
      obtain ⟨next, hnext, -⟩ := foldlM_cons_eq_ok.mp hlocate
      have hexists : t.exists? a = true :=
        exists?_iff.mpr ⟨at_, .folder, hstart, entryAt?_of_follow hnext⟩
      rw [hgone] at hexists
      cases hexists

/-! ## Trees -/

/-- The entries are a tree: their names are names of components, and each lies in a folder. -/
structure IsTree (t : FileTree) : Prop where
  names : ∀ l ∈ t.entries, ∀ name ∈ l, (Part.name name.toList).IsStep
  folders : ∀ l ∈ t.entries, t.entryAt? l.dropLast = some .folder

instance (t : FileTree) : Decidable t.IsTree :=
  decidable_of_iff ((∀ l ∈ t.entries.keys, ∀ name ∈ l, (Part.name name.toList).IsStep) ∧
      ∀ l ∈ t.entries.keys, t.entryAt? l.dropLast = some .folder)
    ⟨fun ⟨hn, hf⟩ => ⟨fun l hl => hn l (Std.TreeMap.mem_keys.mpr hl),
        fun l hl => hf l (Std.TreeMap.mem_keys.mpr hl)⟩,
      fun h => ⟨fun l hl => h.names l (Std.TreeMap.mem_keys.mp hl),
        fun l hl => h.folders l (Std.TreeMap.mem_keys.mp hl)⟩⟩

theorem mem_entries {node : FileNode} (hne : l ≠ []) (h : t.entryAt? l = some node) :
    l ∈ t.entries := by
  rw [entryAt?, if_neg hne] at h
  exact Std.TreeMap.mem_iff_isSome_getElem?.mpr (Option.isSome_of_eq_some h)

theorem eq_append_of_below {e node : FileNode} {way : Location}
    (h : (match at_.isPrefixOf? l with
      | none | some [] => none
      | some way => some (way, e)) = some (way, node)) : l = at_ ++ way ∧ way ≠ [] ∧ e = node := by
  cases hway : at_.isPrefixOf? l with
  | none => simp [hway] at h
  | some way' =>
      cases way' with
      | nil => simp [hway] at h
      | cons name rest =>
          simp only [hway, Option.some.injEq, Prod.mk.injEq] at h
          obtain ⟨rfl, rfl⟩ := h
          exact ⟨(List.isPrefixOf?_eq_some_iff_append_eq.mp hway).symm, List.cons_ne_nil _ _, rfl⟩

/-- Below a location lies what the tree has at the end of a way from there. -/
theorem mem_entriesBelow {way : Location} {node : FileNode} :
    (way, node) ∈ t.entriesBelow at_ ↔ way ≠ [] ∧ t.entryAt? (at_ ++ way) = some node := by
  simp only [entriesBelow, List.mem_filterMap, Prod.exists]
  constructor
  · rintro ⟨l, e, hmem, hbelow⟩
    obtain ⟨rfl, hne, rfl⟩ := eq_append_of_below hbelow
    refine ⟨hne, ?_⟩
    rw [entryAt?, if_neg (by simp [hne])]
    exact Std.TreeMap.mem_toList_iff_getElem?_eq_some.mp hmem
  · rintro ⟨hne, hentry⟩
    rw [entryAt?, if_neg (by simp [hne])] at hentry
    have hway : at_.isPrefixOf? (at_ ++ way) = some way :=
      List.isPrefixOf?_eq_some_iff_append_eq.mpr rfl
    obtain ⟨name, rest, rfl⟩ := List.exists_cons_of_ne_nil hne
    exact ⟨_, node, Std.TreeMap.mem_toList_iff_getElem?_eq_some.mpr hentry, by simp only [hway]⟩

theorem pairwise_entriesBelow (t : FileTree) (at_ : Location) :
    (t.entriesBelow at_).Pairwise fun row row' => row.1 ≠ row'.1 := by
  rw [entriesBelow, List.pairwise_filterMap]
  refine Std.TreeMap.distinct_keys_toList.imp ?_
  rintro ⟨l, e⟩ ⟨l', e'⟩ hne ⟨way, node⟩ h ⟨way', node'⟩ h' heq
  obtain ⟨rfl, -, -⟩ := eq_append_of_below h
  obtain ⟨rfl, -, -⟩ := eq_append_of_below h'
  refine hne ?_
  rw [show way = way' from heq]
  exact Std.ReflCmp.compare_self

/-- There is a file at the end of a way from a path. -/
def HasFile (t : FileTree) (path : String) (way : Location) : Prop :=
  ∃ l bytes, t.locate path = .ok l ∧ t.entryAt? (l ++ way) = some (.file bytes)

theorem hasFile_iff {path : String} {way : Location} (hlocate : t.locate path = .ok l) :
    t.HasFile path way ↔ ∃ bytes, t.entryAt? (l ++ way) = some (.file bytes) := by
  constructor
  · rintro ⟨l', bytes, hlocate', hentry⟩
    obtain rfl := Except.ok.inj (hlocate.symm.trans hlocate')
    exact ⟨bytes, hentry⟩
  · rintro ⟨bytes, hentry⟩
    exact ⟨l, bytes, hlocate, hentry⟩

theorem mem_filesUnder {way : Location} :
    way ∈ t.filesUnder at_ ↔ way ≠ [] ∧ ∃ bytes, t.entryAt? (at_ ++ way) = some (.file bytes) := by
  simp only [filesUnder, List.mem_filterMap, Prod.exists, mem_entriesBelow]
  constructor
  · rintro ⟨way', node, ⟨hne, hentry⟩, hfile⟩
    cases node with
    | folder => cases hfile
    | file bytes =>
        obtain rfl := Option.some.inj hfile
        exact ⟨hne, bytes, hentry⟩
  · rintro ⟨hne, bytes, hentry⟩
    exact ⟨way, .file bytes, ⟨hne, hentry⟩, rfl⟩

theorem mem_filesBelow {path : String} {way : Location} :
    way ∈ t.filesBelow path ↔ way ≠ [] ∧ t.HasFile path way := by
  cases hlocate : t.locate path with
  | error problem => simp [filesBelow, locate?, HasFile, hlocate, Except.toOption]
  | ok at_ =>
      simp only [filesBelow, locate?, hlocate, Except.toOption, mem_filesUnder, hasFile_iff hlocate]

namespace IsTree

/-- What lies below a location lies below a folder. -/
theorem entryAt?_of_below (ht : t.IsTree) {name : String} : ∀ {way : Location} {node : FileNode},
    t.entryAt? (at_ ++ name :: way) = some node → t.entryAt? at_ = some .folder := by
  intro way
  induction way using List.reverseRecOn with
  | nil =>
      intro node h
      have hfolder := ht.folders _ (mem_entries (by simp) h)
      rwa [List.dropLast_concat] at hfolder
  | append_singleton way last ih =>
      intro node h
      have hfolder := ht.folders _ (mem_entries (by simp) h)
      rw [← List.cons_append, ← List.append_assoc, List.dropLast_concat] at hfolder
      exact ih hfolder

/-- The names on the way to what lies below a location lead there. -/
theorem follow_way (ht : t.IsTree) {node : FileNode} : ∀ (way : Location) {at_ : Location},
    t.entryAt? (at_ ++ way) = some node →
    (way.map String.toList).foldlM t.follow at_ = .ok (at_ ++ way)
  | [], at_, _ => by rw [List.append_nil]; rfl
  | name :: way, at_, h => by
      have hfolder := ht.entryAt?_of_below h
      have hname := ht.names _ (mem_entries (by simp) h) name (by simp)
      rw [List.append_cons] at h ⊢
      exact foldlM_cons_eq_ok.mpr ⟨_, follow_name hname hfolder, follow_way ht way h⟩

end IsTree

/-- A file inside a root is the one that its path from there leads to. -/
theorem isFile_join_relative? {root path rel : String}
    (hrel : Path.relative? root path = some rel) (h : t.isFile path) :
    t.isFile (Path.join root rel) := by
  obtain ⟨l, bytes, hlocate, hentry⟩ := isFile_iff.mp h
  have hwalk := walk_parts hlocate
  have hsteps : Path.steps path ≠ [] := by
    intro hnone
    rw [entryAt?_of_no_steps hlocate hnone] at hentry
    cases hentry
  rw [← Path.parts_join_relative? hrel] at hwalk
  have hlast := Path.endsInStep_join_relative? hrel hsteps
  exact isFile_iff.mpr ⟨l, bytes, locate_of_walk_parts hlast hwalk, hentry⟩

end FileTree

end VaultSearch

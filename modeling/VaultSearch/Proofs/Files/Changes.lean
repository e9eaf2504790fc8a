import VaultSearch.Proofs.Files.Locations

/-!
# Changes of file trees

What lies where after a change is told by two equations, one for putting
something at a location and one for cutting a location off. Both leave a tree a
tree as long as no folder is replaced, and then a path that led somewhere
still leads there (`FileTree.KeepsFolders`). Making the folders of a path
makes it lead to a folder (`FileTree.makeFolders?_eq_some`).
-/

namespace VaultSearch.FileTree

open VaultSearch.Path (Part)

variable {t t' : FileTree} {at_ l : Location} {node : FileNode}

/-! ## Putting and cutting -/

theorem entryAt?_put (t : FileTree) (l l' : Location) (node : FileNode) :
    (t.put l node).entryAt? l' =
      if l' = [] then some .folder else if l = l' then some node else t.entryAt? l' := by
  rw [entryAt?, entryAt?, put, Std.TreeMap.getElem?_insert]
  split
  · rfl
  · simp

theorem entryAt?_put_of_ne {l' : Location} (hne : l ≠ l') :
    (t.put l node).entryAt? l' = t.entryAt? l' := by
  rw [entryAt?_put, if_neg hne]
  split
  · rename_i hroot
    rw [entryAt?, if_pos hroot]
  · rfl

theorem entryAt?_cut (t : FileTree) (l l' : Location) :
    (t.cut l).entryAt? l' =
      if l' = [] then some .folder else if l <+: l' then none else t.entryAt? l' := by
  rw [entryAt?, entryAt?, cut, Std.TreeMap.getElem?_filter']
  split
  · rfl
  · by_cases hbelow : l <+: l'
    · simp [hbelow]
    · have hnot : l.isPrefixOf l' = false := by
        rwa [← Bool.not_eq_true, List.isPrefixOf_iff_prefix]
      rw [if_neg hbelow]
      cases t.entries[l']? <;> simp [hnot]

theorem entryAt?_cut_of_not_below {l' : Location} (hnot : ¬l <+: l') :
    (t.cut l).entryAt? l' = t.entryAt? l' := by
  rw [entryAt?_cut, if_neg hnot]
  split
  · rename_i hroot
    rw [entryAt?, if_pos hroot]
  · rfl

/-! ## Trees stay trees -/

namespace IsTree

theorem of_entries (h : ∀ l node, l ≠ [] → t.entryAt? l = some node →
      (∀ name ∈ l, (Part.name name.toList).IsStep) ∧ t.entryAt? l.dropLast = some .folder) :
    t.IsTree := by
  have hentry : ∀ l ∈ t.entries, l ≠ [] → ∃ node, t.entryAt? l = some node := by
    intro l hl hne
    rw [entryAt?, if_neg hne]
    exact Option.isSome_iff_exists.mp (Std.TreeMap.mem_iff_isSome_getElem?.mp hl)
  constructor
  · intro l hl
    by_cases hne : l = []
    · simp [hne]
    · obtain ⟨node, hnode⟩ := hentry l hl hne
      exact (h l node hne hnode).1
  · intro l hl
    by_cases hne : l = []
    · rw [hne]
      rfl
    · obtain ⟨node, hnode⟩ := hentry l hl hne
      exact (h l node hne hnode).2

theorem names_of_entry (ht : t.IsTree) (h : t.entryAt? l = some node) :
    ∀ name ∈ l, (Part.name name.toList).IsStep := by
  by_cases hne : l = []
  · simp [hne]
  · exact ht.names l (mem_entries hne h)

/-- Nothing lies below a file. -/
theorem eq_of_prefix_of_file (ht : t.IsTree) {bytes : List UInt8} {l' : Location}
    (hfile : t.entryAt? l = some (.file bytes)) (h : t.entryAt? l' = some node)
    (hbelow : l <+: l') : l' = l := by
  obtain ⟨way, rfl⟩ := hbelow
  cases way with
  | nil => exact List.append_nil l
  | cons name way =>
      rw [ht.entryAt?_of_below h] at hfile
      cases hfile

theorem entriesBelow_of_file (ht : t.IsTree) {bytes : List UInt8}
    (hfile : t.entryAt? l = some (.file bytes)) : t.entriesBelow l = [] := by
  rw [List.eq_nil_iff_forall_not_mem]
  rintro ⟨way, node⟩ hmem
  obtain ⟨hne, hentry⟩ := mem_entriesBelow.mp hmem
  have hsame := ht.eq_of_prefix_of_file hfile hentry (List.prefix_append l way)
  exact hne (by simpa using hsame)

/-- Something new or in place of a file may be put into a folder. -/
theorem put (ht : t.IsTree) {name : String} (hfolder : t.entryAt? at_ = some .folder)
    (hname : (Part.name name.toList).IsStep)
    (hplace : t.entryAt? (at_ ++ [name]) ≠ some .folder) (node : FileNode) :
    (t.put (at_ ++ [name]) node).IsTree := by
  refine of_entries fun l node' hne h => ?_
  by_cases hl : at_ ++ [name] = l
  · subst hl
    rw [List.dropLast_concat, entryAt?_put_of_ne (by simp)]
    refine ⟨fun name' hname' => ?_, hfolder⟩
    rcases List.mem_append.mp hname' with hname' | hname'
    · exact ht.names_of_entry hfolder name' hname'
    · rwa [List.mem_singleton.mp hname']
  · rw [entryAt?_put_of_ne hl] at h
    have hparent := ht.folders l (mem_entries hne h)
    have hother : at_ ++ [name] ≠ l.dropLast := fun heq => hplace (heq ▸ hparent)
    rw [entryAt?_put_of_ne hother]
    exact ⟨ht.names l (mem_entries hne h), hparent⟩

theorem cut (ht : t.IsTree) (l : Location) : (t.cut l).IsTree := by
  refine of_entries fun l' node hne h => ?_
  rw [entryAt?_cut, if_neg hne] at h
  split at h
  · cases h
  · rename_i hnot
    have hnot' : ¬l <+: l'.dropLast := fun hbelow => hnot (hbelow.trans (List.dropLast_prefix l'))
    rw [entryAt?_cut_of_not_below hnot']
    exact ⟨ht.names l' (mem_entries hne h), ht.folders l' (mem_entries hne h)⟩

end IsTree

/-! ## Folders stay folders -/

/-- The folders of one tree are folders of the other. -/
structure KeepsFolders (t t' : FileTree) : Prop where
  here : t'.here = t.here
  folder : ∀ l, t.entryAt? l = some .folder → t'.entryAt? l = some .folder

namespace KeepsFolders

theorem refl (t : FileTree) : KeepsFolders t t := ⟨rfl, fun _ h => h⟩

theorem trans {t₁ t₂ t₃ : FileTree} (h : KeepsFolders t₁ t₂) (h' : KeepsFolders t₂ t₃) :
    KeepsFolders t₁ t₃ :=
  ⟨h'.here.trans h.here, fun l hl => h'.folder l (h.folder l hl)⟩

theorem put (hplace : t.entryAt? l ≠ some .folder) (node : FileNode) :
    KeepsFolders t (t.put l node) where
  here := rfl
  folder l' h := by
    have hne : l ≠ l' := by
      rintro rfl
      exact hplace h
    rwa [entryAt?_put_of_ne hne]

theorem cut (ht : t.IsTree) {bytes : List UInt8} (hfile : t.entryAt? l = some (.file bytes)) :
    KeepsFolders t (t.cut l) where
  here := rfl
  folder l' h := by
    rw [entryAt?_cut_of_not_below]
    · exact h
    · intro hbelow
      rw [ht.eq_of_prefix_of_file hfile h hbelow, hfile] at h
      cases h

theorem follow (h : KeepsFolders t t') {piece : List Char} (hl : t.follow at_ piece = .ok l) :
    t'.follow at_ piece = .ok l := by
  have hfolder := entryAt?_of_follow hl
  rw [FileTree.follow, hfolder] at hl
  rw [FileTree.follow, h.folder at_ hfolder]
  exact hl

/-- Where pieces lead they lead still. -/
theorem foldlM_follow (h : KeepsFolders t t') : ∀ (pieces : List (List Char)) {at_ : Location},
    pieces.foldlM t.follow at_ = .ok l → pieces.foldlM t'.follow at_ = .ok l
  | [], _, hl => hl
  | piece :: pieces, _, hl => by
      obtain ⟨next, hnext, hrest⟩ := foldlM_cons_eq_ok.mp hl
      exact foldlM_cons_eq_ok.mpr ⟨next, h.follow hnext, h.foldlM_follow pieces hrest⟩

theorem startOf (h : KeepsFolders t t') (path : String) : t'.startOf path = t.startOf path := by
  rw [FileTree.startOf, FileTree.startOf, h.here]

end KeepsFolders

/-! ## Making folders -/

/-- Where nothing is, only a name leads. -/
theorem exists_name_of_follow (ht : t.IsTree) {piece : List Char} (hplain : '/' ∉ piece)
    (hl : t.follow at_ piece = .ok l) (hnone : t.entryAt? l = none) :
    ∃ name : String, l = at_ ++ [name] ∧ (Part.name name.toList).IsStep := by
  have hfolder := entryAt?_of_follow hl
  rw [follow, hfolder] at hl
  cases hpiece : Part.ofPiece? piece with
  | none =>
      rw [hpiece] at hl
      rw [← Except.ok.inj hl, hfolder] at hnone
      cases hnone
  | some p =>
      have htext := Part.text_of_ofPiece? hpiece
      cases p with
      | up =>
          rw [hpiece] at hl
          obtain rfl := Except.ok.inj hl
          by_cases hroot : at_ = []
          · rw [hroot] at hnone
            cases hnone
          · rw [ht.folders at_ (mem_entries hroot hfolder)] at hnone
            cases hnone
      | name text =>
          rw [hpiece] at hl
          obtain rfl := Except.ok.inj hl
          refine ⟨_, rfl, ?_⟩
          rw [Part.text] at htext ⊢
          rw [String.toList_ofList, htext]
          rw [htext] at hpiece
          exact ⟨hpiece, hplain⟩
      | root | here =>
          rw [← htext] at hpiece
          simp [Part.ofPiece?, Part.text] at hpiece

/-- The folder that a component leads to is there or is made. -/
theorem enter?_eq_some (ht : t.IsTree) {piece : List Char} (hplain : '/' ∉ piece)
    (h : enter? (t, at_) piece = some (t', l)) :
    t'.IsTree ∧ KeepsFolders t t' ∧ t.follow at_ piece = .ok l ∧
      t'.entryAt? l = some .folder := by
  rw [enter?] at h
  cases hfollow : t.follow at_ piece with
  | error problem =>
      rw [hfollow] at h
      cases h
  | ok next =>
      simp only [hfollow, Except.toOption, Option.bind_eq_bind, Option.bind_some] at h
      cases hnext : t.entryAt? next with
      | none =>
          rw [hnext] at h
          obtain ⟨rfl, rfl⟩ := Prod.mk.inj (Option.some.inj h)
          obtain ⟨name, rfl, hname⟩ := exists_name_of_follow ht hplain hfollow hnext
          have hplace : t.entryAt? (at_ ++ [name]) ≠ some .folder := by simp [hnext]
          refine ⟨ht.put (entryAt?_of_follow hfollow) hname hplace _, .put hplace _, rfl, ?_⟩
          rw [entryAt?_put, if_neg (by simp), if_pos rfl]
      | some node =>
          cases node with
          | file bytes =>
              rw [hnext] at h
              cases h
          | folder =>
              rw [hnext] at h
              obtain ⟨rfl, rfl⟩ := Prod.mk.inj (Option.some.inj h)
              exact ⟨ht, .refl t, rfl, hnext⟩

theorem foldlM_enter?_eq_some : ∀ (pieces : List (List Char)) {t : FileTree} {at_ : Location},
    t.IsTree → (∀ piece ∈ pieces, '/' ∉ piece) → pieces ≠ [] →
    pieces.foldlM enter? (t, at_) = some (t', l) →
    t'.IsTree ∧ KeepsFolders t t' ∧ pieces.foldlM t'.follow at_ = .ok l ∧
      t'.entryAt? l = some .folder
  | [], _, _, _, _, hne, _ => absurd rfl hne
  | piece :: pieces, t, at_, ht, hplain, _, h => by
      rw [List.foldlM_cons, Option.bind_eq_bind, Option.bind_eq_some_iff] at h
      obtain ⟨⟨t₁, next⟩, hfirst, hrest⟩ := h
      obtain ⟨ht₁, hkeeps₁, hfollow, hfolder⟩ :=
        enter?_eq_some ht (hplain piece List.mem_cons_self) hfirst
      cases pieces with
      | nil =>
          obtain ⟨rfl, rfl⟩ := Prod.mk.inj (Option.some.inj hrest)
          exact ⟨ht₁, hkeeps₁, hkeeps₁.foldlM_follow [piece]
            (foldlM_cons_eq_ok.mpr ⟨_, hfollow, rfl⟩), hfolder⟩
      | cons piece' pieces =>
          obtain ⟨ht', hkeeps, hway, hl⟩ := foldlM_enter?_eq_some (piece' :: pieces) ht₁
            (fun p hp => hplain p (List.mem_cons_of_mem _ hp)) (List.cons_ne_nil _ _) hrest
          refine ⟨ht', hkeeps₁.trans hkeeps, ?_, hl⟩
          exact foldlM_cons_eq_ok.mpr ⟨next, (hkeeps₁.trans hkeeps).follow hfollow, hway⟩

/-- The way of a path whose folders were made leads to a folder. -/
theorem makeFolders?_eq_some (ht : t.IsTree) {path : String}
    (h : t.makeFolders? path = some t') :
    t'.IsTree ∧ KeepsFolders t t' ∧
      ∃ home, (Path.pieces path).foldlM t'.follow (t'.startOf path) = .ok home ∧
        t'.entryAt? home = some .folder := by
  rw [makeFolders?, Option.map_eq_some_iff] at h
  obtain ⟨⟨_, home⟩, hfold, rfl⟩ := h
  obtain ⟨ht', hkeeps, hway, hhome⟩ := foldlM_enter?_eq_some _ ht
    (fun piece hpiece => Path.sep_notMem_of_mem_splitOnP hpiece) (Path.pieces_ne_nil path) hfold
  exact ⟨ht', hkeeps, home, by rwa [hkeeps.startOf], hhome⟩

/-- Folders that are there need not be made. -/
theorem foldlM_enter?_of_follow : ∀ (pieces : List (List Char)) {at_ : Location},
    pieces.foldlM t.follow at_ = .ok l → t.entryAt? l = some .folder →
    pieces.foldlM enter? (t, at_) = some (t, l)
  | [], _, hway, _ => by
      rw [← Except.ok.inj hway]
      rfl
  | piece :: pieces, at_, hway, hfolder => by
      obtain ⟨next, hnext, hrest⟩ := foldlM_cons_eq_ok.mp hway
      have hthere : t.entryAt? next = some .folder := by
        cases pieces with
        | nil => rwa [Except.ok.inj hrest]
        | cons piece' pieces =>
            obtain ⟨_, hlater, -⟩ := foldlM_cons_eq_ok.mp hrest
            exact entryAt?_of_follow hlater
      have henter : enter? (t, at_) piece = some (t, next) := by
        simp [enter?, hnext, Except.toOption, hthere]
      rw [List.foldlM_cons, henter]
      exact foldlM_enter?_of_follow pieces hrest hfolder

theorem makeFolders?_of_follow {path : String}
    (hway : (Path.pieces path).foldlM t.follow (t.startOf path) = .ok l)
    (hfolder : t.entryAt? l = some .folder) : t.makeFolders? path = some t := by
  rw [makeFolders?, foldlM_enter?_of_follow _ hway hfolder]
  rfl

end VaultSearch.FileTree

import VaultSearch.Proofs.Curator.Renames
import VaultSearch.Proofs.Files.Documents
import VaultSearch.Proofs.Files.Renaming

/-!
# Moves within a vault

A renaming inside a vault takes the files at the end of one way from the root
to the end of another (`VaultFolder.Relocates`, from `relocates_of_rename?`),
unless it leaves them where they are. Either way a file that lies at the new
place lay at the old one, and off the paths of these files the vault has what
it had (`Relocates.bytesAt?_of_ne`), a replaced file included: there is then a
new one in its place. So an index built from the vault afterwards is the one of
before with the files moved (`Relocates.contents`).
-/

namespace VaultSearch.VaultFolder

open VaultSearch.Path (IsWay along)

variable {v : VaultFolder} {before t : FileTree} {base u w x x' : Location}

/-- What lay at the end of the way `u` from the root of the vault lies at the end of `w`. -/
structure Relocates (v : VaultFolder) (before t : FileTree) (base u w : Location) : Prop where
  treeBefore : before.IsTree
  tree : t.IsTree
  rootBefore : before.locate v.root = .ok base
  root : t.locate v.root = .ok base
  source_ne : u ≠ []
  target_ne : w ≠ []
  source : IsWay u
  target : IsWay w
  moves : u = w ∧ t = before ∨ FileTree.Moves (base ++ u) (base ++ w) before t

/-- A renaming inside the vault relocates what it moves, as long as both its paths are normal
and the new one leads somewhere afterwards. -/
theorem relocates_of_rename? {source target old new : String} (hbefore : before.IsTree)
    (ht : t.IsTree) (hroot : v.root ≠ "") (hold : v.relative? source = some old)
    (hnew : v.relative? target = some new) (hnormalOld : Path.IsNormal old)
    (hnormalNew : Path.IsNormal new) (hrename : before.rename? source target = some t)
    (hthere : t.exists? target) :
    ∃ base u w, Relocates v before t base u w ∧ old = pathOfWay u ∧ new = pathOfWay w ∧
      t.locate target = .ok (base ++ w) := by
  obtain ⟨a, b, ha, hb, hmoves⟩ := FileTree.rename?_eq_some hbefore hrename
  obtain ⟨b', _, hb', -⟩ := FileTree.exists?_iff.mp hthere
  obtain ⟨base, u, hbase, hu, hway, rfl, rfl⟩ := FileTree.locate_inside hroot hold hnormalOld ha
  obtain ⟨base₁, w, hbase₁, hw, hway', rfl, rfl⟩ :=
    FileTree.locate_inside hroot hnew hnormalNew hb
  obtain rfl := Except.ok.inj (hbase.symm.trans hbase₁)
  obtain ⟨base₂, -, hbase₂, -⟩ := FileTree.locate_inside hroot hnew hnormalNew hb'
  have hhere : t.here = before.here := by
    rcases hmoves with ⟨-, rfl⟩ | hmoves
    · rfl
    · exact hmoves.here
  obtain rfl := FileTree.locate_unique hhere hbase hbase₂
  obtain rfl := FileTree.locate_unique hhere hb hb'
  refine ⟨base, u, w, ⟨hbefore, ht, hbase, hbase₂, hu, hw, hway, hway', ?_⟩, rfl, rfl, hb'⟩
  exact hmoves.imp_left fun ⟨heq, hsame⟩ => ⟨List.append_cancel_left heq, hsame⟩

namespace Relocates

variable (h : Relocates v before t base u w)

include h

theorem isWay_of_bytesAt? (hx : (t.bytesAt? (base ++ (w ++ x))).isSome) : IsWay x := by
  obtain ⟨bytes, hbytes⟩ := Option.isSome_iff_exists.mp hx
  rw [FileTree.bytesAt?_eq_some, ← List.append_assoc] at hbytes
  exact h.tree.isWay_of_entry hbytes

theorem bytesAt?_moved (x : Location) :
    t.bytesAt? (base ++ (w ++ x)) = before.bytesAt? (base ++ (u ++ x)) := by
  rcases h.moves with ⟨rfl, rfl⟩ | hmoves
  · rfl
  · rw [FileTree.bytesAt?, FileTree.bytesAt?, ← List.append_assoc, ← List.append_assoc,
      hmoves.there]

/-- A way from the old place ends where one from the new place does only if they are the
same. -/
theorem eq_of_append_eq (heq : u ++ x = w ++ x') : x = x' := by
  rcases h.moves with ⟨rfl, -⟩ | hmoves
  · exact List.append_cancel_left heq
  · rcases List.prefix_or_prefix_of_prefix (List.prefix_append u x)
      (heq ▸ List.prefix_append w x') with hbelow | habove
    · exact absurd ((List.prefix_append_right_inj base).mpr hbelow) hmoves.notBelow
    · exact absurd ((List.prefix_append_right_inj base).mpr habove) hmoves.notAbove

/-- Where a file was and none has come, nothing is left. -/
theorem bytesAt?_gone (hx : ∀ x', (t.bytesAt? (base ++ (w ++ x'))).isSome → u ++ x ≠ w ++ x') :
    t.bytesAt? (base ++ (u ++ x)) = none := by
  rcases h.moves with ⟨rfl, rfl⟩ | hmoves
  · rw [← Option.not_isSome_iff_eq_none]
    exact fun hsome => hx x hsome rfl
  · rw [FileTree.bytesAt?, ← List.append_assoc, hmoves.gone]

/-- Where no file was moved from or to, the vault has what it had. -/
theorem bytesAt?_of_ne {y : Location}
    (hnew : ∀ x, (t.bytesAt? (base ++ (w ++ x))).isSome → y ≠ w ++ x)
    (hold : ∀ x, (t.bytesAt? (base ++ (w ++ x))).isSome → y ≠ u ++ x) :
    t.bytesAt? (base ++ y) = before.bytesAt? (base ++ y) := by
  rcases h.moves with ⟨rfl, rfl⟩ | hmoves
  · rfl
  · by_cases hw : w <+: y
    · obtain ⟨x, rfl⟩ := hw
      have hnone : t.bytesAt? (base ++ (w ++ x)) = none := by
        rw [← Option.not_isSome_iff_eq_none]
        exact fun hsome => hnew x hsome rfl
      rw [hnone, eq_comm, Option.eq_none_iff_forall_ne_some]
      -- a file that lay there was replaced by one, which lies there now
      intro bytes hbytes
      rw [FileTree.bytesAt?_eq_some, ← List.append_assoc] at hbytes
      obtain ⟨rfl, bytes', hfile⟩ := hmoves.replaced x bytes hbytes
      have hmoved := h.bytesAt?_moved []
      rw [hnone, List.append_nil, FileTree.bytesAt?_eq_some.mpr hfile] at hmoved
      cases hmoved
    · by_cases hu : u <+: y
      · obtain ⟨x, rfl⟩ := hu
        have hbefore : before.bytesAt? (base ++ (u ++ x)) = none := by
          rw [← Option.not_isSome_iff_eq_none, ← h.bytesAt?_moved]
          exact fun hsome => hold x hsome rfl
        rw [hbefore, FileTree.bytesAt?, ← List.append_assoc, hmoves.gone]
      · rw [FileTree.bytesAt?, FileTree.bytesAt?, hmoves.others]
        · exact mt (List.prefix_append_right_inj base).mp hu
        · exact mt (List.prefix_append_right_inj base).mp hw

/-- An index of the vault holds what is there at the new paths of the files that were moved,
nothing at their other old paths, and else what an index of before holds. -/
theorem contents (segmenter : Option Segmenter) {ways : List Location}
    (hways : ∀ x, x ∈ ways ↔ (t.bytesAt? (base ++ (w ++ x))).isSome) (p : String) :
    (v.indexOf segmenter t).contents p =
      if p ∈ ways.map (along (pathOfWay w)) ∧ v.config.shouldExclude p = false then
        (v.toSource t).contents v.config segmenter p
      else if p ∈ ways.map (along (pathOfWay u)) then none
      else (v.indexOf segmenter before).contents p := by
  have hnew : ∀ x ∈ ways, IsWay (w ++ x) := fun x hx =>
    h.target.append (h.isWay_of_bytesAt? ((hways x).mp hx))
  have hold : ∀ x ∈ ways, IsWay (u ++ x) := fun x hx =>
    h.source.append (h.isWay_of_bytesAt? ((hways x).mp hx))
  by_cases hp : ∃ y, y ≠ [] ∧ IsWay y ∧ p = pathOfWay y
  · obtain ⟨y, hy, hway, rfl⟩ := hp
    rw [contents_of_way segmenter h.tree h.root hy hway,
      contents_of_way segmenter h.treeBefore h.rootBefore hy hway]
    cases hexcluded : v.config.shouldExclude (pathOfWay y) with
    | true => simp
    | false =>
        simp only [Bool.false_eq_true, if_false, and_true,
          Path.mem_map_along h.target_ne hnew hy hway, Path.mem_map_along h.source_ne hold hy hway]
        split
        · rw [Source.contents, readAs?_of_way h.tree h.root hy hway, Option.map_map]
          rfl
        · rename_i hnot
          have hoff : ∀ x, (t.bytesAt? (base ++ (w ++ x))).isSome → y ≠ w ++ x :=
            fun x hx heq => hnot ⟨x, (hways x).mpr hx, heq⟩
          split
          · rename_i hmoved
            obtain ⟨x, -, rfl⟩ := hmoved
            rw [h.bytesAt?_gone hoff]
            rfl
          · rename_i hnot'
            rw [h.bytesAt?_of_ne hoff fun x hx heq => hnot' ⟨x, (hways x).mpr hx, heq⟩]
  · have hno : ∀ y, y ≠ [] → IsWay y → p ≠ pathOfWay y := fun y hy hway heq =>
      hp ⟨y, hy, hway, heq⟩
    rw [contents_of_no_way segmenter h.tree hno, contents_of_no_way segmenter h.treeBefore hno,
      ite_self, if_neg]
    rintro ⟨hmem, -⟩
    obtain ⟨x, hx, rfl⟩ := List.mem_map.mp hmem
    exact hno _ (by simp [h.target_ne]) (hnew x hx) (Path.along_pathOfWay h.target_ne x)

/-! ## Reports -/

/-- Where a file was moved from there is no folder, neither of what was there before nor of what
was moved. -/
theorem eq_of_prefix_moved {y : Location} (hx : (t.bytesAt? (base ++ (w ++ x))).isSome)
    (hy : (before.bytesAt? (base ++ y)).isSome ∨
      ∃ x', (t.bytesAt? (base ++ (w ++ x'))).isSome ∧ y = w ++ x')
    (hleads : u ++ x <+: y) : y = u ++ x := by
  have hbefore : (before.bytesAt? (base ++ y)).isSome := by
    rcases hy with hy | ⟨x', hx', rfl⟩
    · exact hy
    · rcases h.moves with ⟨rfl, rfl⟩ | hmoves
      · exact hx'
      · -- one of the two places would lie below the other
        rcases List.prefix_or_prefix_of_prefix ((List.prefix_append u x).trans hleads)
          (List.prefix_append w x') with hbelow | habove
        · exact absurd ((List.prefix_append_right_inj base).mpr hbelow) hmoves.notBelow
        · exact absurd ((List.prefix_append_right_inj base).mpr habove) hmoves.notAbove
  rw [h.bytesAt?_moved] at hx
  obtain ⟨bytes, hfile⟩ := Option.isSome_iff_exists.mp hx
  obtain ⟨bytes', hfile'⟩ := Option.isSome_iff_exists.mp hbefore
  exact List.append_cancel_left (h.treeBefore.eq_of_prefix_of_file
    (FileTree.bytesAt?_eq_some.mp hfile) (FileTree.bytesAt?_eq_some.mp hfile')
    ((List.prefix_append_right_inj base).mpr hleads))

/-- The report of each moved file fits, where the paths in use are those indexed before and
the new ones, for a source that has at the new paths what the vault has. -/
theorem fits (segmenter : Option Segmenter) {ways : List Location} {src : Source}
    (hways : ∀ x, x ∈ ways ↔ (t.bytesAt? (base ++ (w ++ x))).isSome)
    (hsrc : ∀ p ∈ ways.map (along (pathOfWay w)), src.readAs? p p = (v.toSource t).readAs? p p)
    (hx : x ∈ ways) :
    Curator.Fits v.config src
      {p | ((v.indexOf segmenter before).contents p).isSome ∨ p ∈ ways.map (along (pathOfWay w))}
      (along (pathOfWay u) x, along (pathOfWay w) x) := by
  have hfile := (hways x).mp hx
  have hway := h.isWay_of_bytesAt? hfile
  have hu : u ++ x ≠ [] := by simp [h.source_ne]
  have hw : w ++ x ≠ [] := by simp [h.target_ne]
  have hread := hsrc _ (List.mem_map_of_mem (f := along (pathOfWay w)) hx)
  simp only [Path.along_pathOfWay h.source_ne, Path.along_pathOfWay h.target_ne] at hread ⊢
  refine ⟨Path.isNormal_pathOfWay hu (h.source.append hway), fun q hq hinside => ?_, fun _ => ?_,
    fun _ => ?_⟩
  · have hq' : ∃ y, y ≠ [] ∧ IsWay y ∧ q = pathOfWay y ∧ ((before.bytesAt? (base ++ y)).isSome ∨
        ∃ x', (t.bytesAt? (base ++ (w ++ x'))).isSome ∧ y = w ++ x') := by
      rcases hq with hq | hq
      · obtain ⟨y, hy, hyway, rfl, hfile'⟩ :=
          exists_way_of_contents h.treeBefore h.rootBefore hq
        exact ⟨y, hy, hyway, rfl, Or.inl hfile'⟩
      · obtain ⟨x', hx', rfl⟩ := List.mem_map.mp hq
        have hfile' := (hways x').mp hx'
        exact ⟨w ++ x', by simp [h.target_ne], h.target.append (h.isWay_of_bytesAt? hfile'),
          Path.along_pathOfWay h.target_ne x', Or.inr ⟨x', hfile', rfl⟩⟩
    obtain ⟨y, hy, hyway, rfl, hused⟩ := hq'
    obtain ⟨hleads, hne⟩ := Path.prefix_of_inside hu (h.source.append hway) hy hyway hinside
    exact hne (h.eq_of_prefix_moved hfile hused hleads).symm
  · exact Or.inr (List.mem_map.mpr ⟨x, hx, Path.along_pathOfWay h.target_ne x⟩)
  · rwa [hread, readAs?_of_way h.tree h.root hw (h.target.append hway), Option.isSome_map]

/-- No file was moved to where a file that is reported later was moved from. -/
theorem pairwise_moves {ways : List Location} (hnd : ways.Nodup)
    (hways : ∀ x ∈ ways, (t.bytesAt? (base ++ (w ++ x))).isSome) :
    (ways.map fun x => (along (pathOfWay u) x, along (pathOfWay w) x)).Pairwise
      fun earlier later => later.1 ≠ earlier.2 := by
  rw [List.pairwise_map]
  refine hnd.imp_of_mem fun {x x'} hx hx' hne heq => ?_
  simp only [Path.along_pathOfWay h.source_ne, Path.along_pathOfWay h.target_ne] at heq
  have hway := Path.eq_of_pathOfWay_eq (by simp [h.source_ne])
    (h.source.append (h.isWay_of_bytesAt? (hways x' hx'))) (by simp [h.target_ne])
    (h.target.append (h.isWay_of_bytesAt? (hways x hx))) heq
  exact hne (h.eq_of_append_eq hway).symm

/-- One move after the other turns an index of before into one of the vault as it is. -/
theorem foldl_afterMove (segmenter : Option Segmenter) {ways : List Location} {src : Source}
    (hnd : ways.Nodup) (hways : ∀ x, x ∈ ways ↔ (t.bytesAt? (base ++ (w ++ x))).isSome)
    (hsrc : ∀ p ∈ ways.map (along (pathOfWay w)), src.readAs? p p = (v.toSource t).readAs? p p) :
    (ways.map fun x => (along (pathOfWay u) x, along (pathOfWay w) x)).foldl
        (fun N move => N.afterMove v.config.shouldExclude (src.contents v.config segmenter) move)
        (v.indexOf segmenter before).contents = (v.indexOf segmenter t).contents := by
  funext p
  rw [Contents.foldl_afterMove_apply (h.pairwise_moves hnd fun x hx => (hways x).mp hx),
    List.map_map, List.map_map, h.contents segmenter hways p]
  refine if_ctx_congr Iff.rfl (fun hnew => ?_) fun _ => rfl
  rw [Source.contents, Source.contents, hsrc p hnew.1]

end Relocates

end VaultSearch.VaultFolder

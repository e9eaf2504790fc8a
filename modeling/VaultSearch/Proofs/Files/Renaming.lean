import VaultSearch.Proofs.Files.Changes

/-!
# Renaming files and folders

A renaming takes what lies at one location, with all that lies below it, to
another location. At most a file is lost by it, to the file that replaces it,
and what lies elsewhere stays (`FileTree.Moves`). The new tree is built by one
entry after the other; that all of them come from the old tree makes their
order irrelevant (`FileTree.entryAt?_putAll`).
-/

namespace VaultSearch.FileTree

variable {t t' : FileTree} {a b l : Location}

/-- What lay at `a` and below it lies at `b` and below it, perhaps in place of a file or of an
empty folder, and nothing else has changed. -/
structure Moves (a b : Location) (t t' : FileTree) : Prop where
  notBelow : ¬a <+: b
  notAbove : ¬b <+: a
  here : t'.here = t.here
  there : ∀ way, t'.entryAt? (b ++ way) = t.entryAt? (a ++ way)
  gone : ∀ way, t'.entryAt? (a ++ way) = none
  others : ∀ l, ¬a <+: l → ¬b <+: l → t'.entryAt? l = t.entryAt? l
  /-- A file is replaced by a file only. -/
  replaced : ∀ way bytes, t.entryAt? (b ++ way) = some (.file bytes) →
    way = [] ∧ ∃ bytes', t.entryAt? a = some (.file bytes')

theorem locate_of_locate? {path : String} (h : t.locate? path = some l) :
    t.locate path = .ok l := by
  rw [locate?] at h
  cases hlocate : t.locate path with
  | error problem =>
      rw [hlocate] at h
      cases h
  | ok l' =>
      rw [hlocate] at h
      rw [Option.some.inj h]

/-! ## Putting the entries below a location -/

/-- Put what lies below a location, given by the ways from there. -/
def putAll (b : Location) (rows : List (Location × FileNode)) (t : FileTree) : FileTree :=
  rows.foldl (fun t (way, e) => t.put (b ++ way) e) t

theorem here_putAll : ∀ (rows : List (Location × FileNode)) (t : FileTree),
    (putAll b rows t).here = t.here
  | [], _ => rfl
  | (way, e) :: rows, t => here_putAll rows (t.put (b ++ way) e)

theorem entryAt?_putAll_of_not_below (hl : ¬b <+: l) :
    ∀ (rows : List (Location × FileNode)) (t : FileTree),
    (putAll b rows t).entryAt? l = t.entryAt? l
  | [], _ => rfl
  | (way, e) :: rows, t => by
      have hne : b ++ way ≠ l := by
        rintro rfl
        exact hl (List.prefix_append b way)
      exact (entryAt?_putAll_of_not_below hl rows _).trans (entryAt?_put_of_ne hne)

/-- Entries that agree with `f` make the location agree with `f` where they are put. -/
theorem entryAt?_putAll {f : Location → Option FileNode} (hb : b ≠ []) (way : Location) :
    ∀ {rows : List (Location × FileNode)} (t : FileTree), (∀ row ∈ rows, f row.1 = some row.2) →
    (putAll b rows t).entryAt? (b ++ way) =
      if way ∈ rows.map Prod.fst then f way else t.entryAt? (b ++ way)
  | [], t, _ => rfl
  | (way', e) :: rows, t, h => by
      have ih := entryAt?_putAll hb way (t.put (b ++ way') e)
        fun row hrow => h row (List.mem_cons_of_mem _ hrow)
      rw [putAll, List.foldl_cons, ← putAll, ih, List.map_cons]
      by_cases hlater : way ∈ rows.map Prod.fst
      · rw [if_pos hlater, if_pos (List.mem_cons_of_mem way' hlater)]
      · rw [if_neg hlater]
        by_cases hway : way = way'
        · subst hway
          rw [entryAt?_put, if_neg (by simp [hb]), if_pos rfl, if_pos List.mem_cons_self]
          exact (h (way, e) List.mem_cons_self).symm
        · rw [if_neg (List.not_mem_cons_of_ne_of_not_mem hway hlater),
            entryAt?_put_of_ne (by simpa using Ne.symm hway)]

/-- What lies at `a` and below it, put at `b` and below it after it was cut off. -/
theorem moves_putAll {e : FileNode} (he : t.entryAt? a = some e)
    (hnotBelow : ¬a <+: b) (hnotAbove : ¬b <+: a)
    (hreplaced : ∀ way bytes, t.entryAt? (b ++ way) = some (.file bytes) →
      way = [] ∧ ∃ bytes', e = .file bytes')
    (hempty : ∀ way, way ≠ [] → t.entryAt? (b ++ way) = none) :
    Moves a b t (putAll b (t.entriesBelow a) ((t.cut a).put b e)) := by
  have hb : b ≠ [] := by
    rintro rfl
    exact hnotAbove (List.nil_prefix)
  have ha : a ≠ [] := by
    rintro rfl
    exact hnotBelow (List.nil_prefix)
  have hapart : ∀ way way', a ++ way ≠ b ++ way' := by
    intro way way' heq
    rcases List.prefix_or_prefix_of_prefix (List.prefix_append a way)
      (heq ▸ List.prefix_append b way') with h | h
    · exact hnotBelow h
    · exact hnotAbove h
  have hself : ∀ {l : Location}, ¬b <+: l → b ≠ l := by
    rintro l hnot rfl
    exact hnot List.prefix_rfl
  refine ⟨hnotBelow, hnotAbove, here_putAll _ _, fun way => ?_, fun way => ?_, fun l hal hbl => ?_,
    fun way bytes hfile => ?_⟩
  · rw [entryAt?_putAll (f := fun way => t.entryAt? (a ++ way)) hb way _
      fun row hrow => (mem_entriesBelow.mp hrow).2]
    by_cases hway : way = []
    · subst hway
      have hnot : [] ∉ (t.entriesBelow a).map Prod.fst := by
        intro hmem
        obtain ⟨⟨way, node⟩, hrow, hnil⟩ := List.mem_map.mp hmem
        exact (mem_entriesBelow.mp hrow).1 hnil
      rw [if_neg hnot, List.append_nil, List.append_nil, entryAt?_put, if_neg hb, if_pos rfl, he]
    · split
      · rfl
      · rename_i hnot
        -- nothing lay there before, and nothing is put there
        have hnone : t.entryAt? (a ++ way) = none := by
          rw [← Option.not_isSome_iff_eq_none]
          intro hsome
          obtain ⟨node, hnode⟩ := Option.isSome_iff_exists.mp hsome
          exact hnot (List.mem_map_of_mem (f := Prod.fst) (mem_entriesBelow.mpr ⟨hway, hnode⟩))
        have hne : b ≠ b ++ way := by simpa using hway
        have hcut : ¬a <+: b ++ way := fun ⟨rest, hrest⟩ => hapart rest way hrest
        rw [hnone, entryAt?_put_of_ne hne, entryAt?_cut_of_not_below hcut, hempty way hway]
  · have hnot : ¬b <+: a ++ way := fun ⟨rest, hrest⟩ => hapart way rest hrest.symm
    rw [entryAt?_putAll_of_not_below hnot,
      entryAt?_put_of_ne (hself hnot), entryAt?_cut,
      if_neg (by simp [ha]), if_pos (List.prefix_append a way)]
  · rw [entryAt?_putAll_of_not_below hbl,
      entryAt?_put_of_ne (hself hbl),
      entryAt?_cut_of_not_below hal]
  · obtain ⟨hway, bytes', rfl⟩ := hreplaced way bytes hfile
    exact ⟨hway, bytes', he⟩

/-! ## Renaming -/

/-- Where something may be put, nothing lies below, and a file lies there only if a file may be
put in its place. -/
theorem eq_nil_of_fits (ht : t.IsTree) {e node : FileNode} {way : Location}
    (h : (match t.entryAt? b, e with
      | none, _ => true
      | some (.file _), .file _ => true
      | some .folder, .folder => (t.entriesBelow b).isEmpty
      | _, _ => false) = true) (hentry : t.entryAt? (b ++ way) = some node) :
    way = [] ∧ ∀ bytes, node = .file bytes → ∃ bytes', e = .file bytes' := by
  split at h
  · rename_i hnone
    cases way with
    | nil =>
        rw [List.append_nil, hnone] at hentry
        cases hentry
    | cons name way =>
        rw [ht.entryAt?_of_below hentry] at hnone
        cases hnone
  · rename_i hfile
    have hself := ht.eq_of_prefix_of_file hfile hentry (List.prefix_append b way)
    exact ⟨by simpa using hself, fun _ _ => ⟨_, rfl⟩⟩
  · rename_i hfolder
    have hnil : way = [] := by
      by_contra hne
      have hmem := mem_entriesBelow.mpr ⟨hne, hentry⟩
      rw [List.isEmpty_iff.mp h] at hmem
      cases hmem
    subst hnil
    rw [List.append_nil, hfolder] at hentry
    refine ⟨rfl, fun bytes hnode => ?_⟩
    rw [hnode] at hentry
    cases hentry
  · cases h

/-- What is moved stays where it is, or it goes from one location to another. -/
theorem move?_eq_some (ht : t.IsTree) (h : t.move? a b = some t') :
    a = b ∧ t' = t ∨ Moves a b t t' := by
  simp only [move?, Option.bind_eq_bind, Option.bind_eq_some_iff] at h
  obtain ⟨e, he, h⟩ := h
  by_cases hab : a = b
  · rw [if_pos hab] at h
    exact Or.inl ⟨hab, (Option.some.inj h).symm⟩
  · rw [if_neg hab, Option.ite_none_left_eq_some, Option.ite_none_left_eq_some] at h
    obtain ⟨hbelow, hfits, heq⟩ := h
    rw [Bool.not_eq_true', Bool.not_eq_false] at hfits
    have hplace : ∀ way node, t.entryAt? (b ++ way) = some node →
        way = [] ∧ ∀ bytes, node = .file bytes → ∃ bytes', e = .file bytes' :=
      fun way node => eq_nil_of_fits ht hfits
    obtain rfl := Option.some.inj heq
    refine Or.inr (moves_putAll he (mt List.isPrefixOf_iff_prefix.mpr hbelow) ?_
      (fun way bytes hfile => ?_) fun way hway => ?_)
    · rintro ⟨way, rfl⟩
      exact hab (by rw [(hplace way e he).1, List.append_nil])
    · obtain ⟨hway, hfile⟩ := hplace way _ hfile
      exact ⟨hway, hfile bytes rfl⟩
    · rw [← Option.not_isSome_iff_eq_none]
      intro hsome
      obtain ⟨node, hnode⟩ := Option.isSome_iff_exists.mp hsome
      exact hway (hplace way node hnode).1

theorem rename?_eq_some_iff {source target : String} : t.rename? source target = some t' ↔
    ∃ a b, t.locate source = .ok a ∧ t.locate target = .ok b ∧ t.move? a b = some t' := by
  simp only [rename?, Option.bind_eq_bind, Option.bind_eq_some_iff]
  constructor
  · rintro ⟨a, ha, b, hb, h⟩
    exact ⟨a, b, locate_of_locate? ha, locate_of_locate? hb, h⟩
  · rintro ⟨a, b, ha, hb, h⟩
    exact ⟨a, by rw [locate?, ha]; rfl, b, by rw [locate?, hb]; rfl, h⟩

/-- A renaming that succeeds leaves everything, or it moves one location to another. -/
theorem rename?_eq_some (ht : t.IsTree) {source target : String}
    (h : t.rename? source target = some t') :
    ∃ a b, t.locate source = .ok a ∧ t.locate target = .ok b ∧
      (a = b ∧ t' = t ∨ Moves a b t t') := by
  obtain ⟨a, b, ha, hb, hmove⟩ := rename?_eq_some_iff.mp h
  exact ⟨a, b, ha, hb, move?_eq_some ht hmove⟩

end VaultSearch.FileTree

import VaultSearch.Proofs.Curator.Tracking

/-!
# The reports of edits

A report of a file accounts for that file (`Tracks.reportFile`), a report of
a deletion for the files at the path and inside it (`Tracks.reportGone`), and
together they account for the paths that an edit changed
(`Tracks.notify`).

The report of a deletion goes by what the engine holds, which may lag behind
the files. So it covers the path, and what was inside it as long as it is not
stopped by the path being indexed as a file besides (`Covers.reportGone`,
`Curator.unobstructed_of_covers`). Nothing stops it while no indexed path is a
folder of another.
-/

namespace VaultSearch

open Tracks (changed)

/-! ## What an edit changes -/

namespace Edit

variable {files : MemorySource}

theorem getElem?_apply_put {path text : String} {isNew : Bool} (q : String) :
    (apply files (.put path text isNew))[q]? = if path = q then some text else files[q]? := by
  simp [apply, Std.TreeMap.getElem?_insert]

theorem getElem?_apply_remove {path : String} (q : String) :
    (apply files (.remove path))[q]? = if path = q then none else files[q]? := by
  simp [apply, Std.TreeMap.getElem?_erase]

theorem getElem?_apply_removeFolder {dir : String} (q : String) :
    (apply files (.removeFolder dir))[q]? = if Path.Inside dir q then none else files[q]? := by
  rw [apply, Std.TreeMap.getElem?_filter']
  by_cases hq : Path.Inside dir q
  · rw [if_pos hq]
    cases files[q]? <;> simp [hq]
  · rw [if_neg hq]
    cases files[q]? <;> simp [hq]

theorem getElem?_apply_move {old new text : String} (hold : files[old]? = some text)
    (q : String) : (apply files (.move old new))[q]? =
      if new = q then some text else if old = q then none else files[q]? := by
  rw [apply, hold]
  simp [Std.TreeMap.getElem?_insert, Std.TreeMap.getElem?_erase]

theorem eq_of_changed_put {path text q : String} {isNew : Bool}
    (hq : q ∈ changed files (apply files (.put path text isNew))) : path = q := by
  by_contra hne
  exact hq (by rw [getElem?_apply_put, if_neg hne])

theorem eq_of_changed_remove {path q : String}
    (hq : q ∈ changed files (apply files (.remove path))) : path = q := by
  by_contra hne
  exact hq (by rw [getElem?_apply_remove, if_neg hne])

theorem inside_of_changed_removeFolder {dir q : String}
    (hq : q ∈ changed files (apply files (.removeFolder dir))) : Path.Inside dir q := by
  by_contra hout
  exact hq (by rw [getElem?_apply_removeFolder, if_neg hout])

theorem eq_or_eq_of_changed_move {old new text q : String} (hold : files[old]? = some text)
    (hq : q ∈ changed files (apply files (.move old new))) : new = q ∨ old = q := by
  by_contra hne
  rw [not_or] at hne
  exact hq (by rw [getElem?_apply_move hold, if_neg hne.1, if_neg hne.2])

theorem getElem?_eq_none {q : String} (hq : q ∉ files) : files[q]? = none := by
  rwa [Std.TreeMap.mem_iff_isSome_getElem?, Option.not_isSome_iff_eq_none] at hq

/-- Where the files changed there was one before, or there is one after. -/
theorem mem_or_mem_of_changed {edit : Edit} {q : String}
    (hq : q ∈ edit.apply files ∨ q ∈ changed files (edit.apply files)) :
    q ∈ edit.apply files ∨ q ∈ files := by
  rcases hq with hq | hq
  · exact Or.inl hq
  · by_contra hnone
    rw [not_or] at hnone
    exact hq ((getElem?_eq_none hnone.1).trans (getElem?_eq_none hnone.2).symm)

theorem mem_apply_put {path text r : String} {isNew : Bool} (hr : r ∈ files) :
    r ∈ apply files (.put path text isNew) := by
  rw [Std.TreeMap.mem_iff_isSome_getElem?, getElem?_apply_put]
  split
  · rfl
  · exact Std.TreeMap.mem_iff_isSome_getElem?.mp hr

theorem mem_of_mem_apply_remove {path r : String} (hr : r ∈ apply files (.remove path)) :
    r ∈ files := by
  rw [Std.TreeMap.mem_iff_isSome_getElem?, getElem?_apply_remove] at hr
  split at hr
  · cases hr
  · exact Std.TreeMap.mem_iff_isSome_getElem?.mpr hr

theorem mem_of_mem_apply_removeFolder {dir r : String}
    (hr : r ∈ apply files (.removeFolder dir)) : r ∈ files := by
  rw [Std.TreeMap.mem_iff_isSome_getElem?, getElem?_apply_removeFolder] at hr
  split at hr
  · cases hr
  · exact Std.TreeMap.mem_iff_isSome_getElem?.mpr hr

theorem mem_or_eq_of_mem_apply_move {old new text r : String} (hold : files[old]? = some text)
    (hr : r ∈ apply files (.move old new)) : r ∈ files ∨ r = new := by
  rw [Std.TreeMap.mem_iff_isSome_getElem?, getElem?_apply_move hold] at hr
  split at hr
  · rename_i heq
    exact Or.inr heq.symm
  · split at hr
    · cases hr
    · exact Or.inl (Std.TreeMap.mem_iff_isSome_getElem?.mpr hr)

theorem mem_apply_move_or_eq {old new text r : String} (hold : files[old]? = some text)
    (hr : r ∈ files) : r ∈ apply files (.move old new) ∨ r = old := by
  rw [Std.TreeMap.mem_iff_isSome_getElem?, getElem?_apply_move hold]
  split
  · exact Or.inl rfl
  · split
    · rename_i heq
      exact Or.inr heq.symm
    · exact Or.inl (Std.TreeMap.mem_iff_isSome_getElem?.mp hr)

/-- Files before and after an edit are apart, unless the edit nests. -/
theorem apart_union {edit : Edit} (hproper : edit.Proper files) (hnest : ¬edit.Nests)
    (htree : files.IsTree) (htree' : (edit.apply files).IsTree) {p q : String}
    (hp : p ∈ edit.apply files ∨ p ∈ changed files (edit.apply files))
    (hq : q ∈ edit.apply files ∨ q ∈ changed files (edit.apply files)) : ¬Path.Inside p q := by
  replace hp := mem_or_mem_of_changed hp
  replace hq := mem_or_mem_of_changed hq
  cases edit with
  | put path text isNew =>
      exact htree'.apart p (hp.elim id mem_apply_put) q (hq.elim id mem_apply_put)
  | remove path =>
      exact htree.apart p (hp.elim mem_of_mem_apply_remove id) q
        (hq.elim mem_of_mem_apply_remove id)
  | removeFolder dir =>
      exact htree.apart p (hp.elim mem_of_mem_apply_removeFolder id) q
        (hq.elim mem_of_mem_apply_removeFolder id)
  | move old new =>
      obtain ⟨text, hold⟩ := Option.isSome_iff_exists.mp
        (Std.TreeMap.mem_iff_isSome_getElem?.mp hproper)
      have hnest' : ¬Path.Inside old new ∧ ¬Path.Inside new old := not_or.mp hnest
      -- the files before and after are the same but for the old and the new path
      rcases hp with hp₁ | hp₁ <;> rcases hq with hq₁ | hq₁
      · exact htree'.apart p hp₁ q hq₁
      · rcases mem_or_eq_of_mem_apply_move hold hp₁ with hp₂ | hp₂
        · exact htree.apart p hp₂ q hq₁
        · rcases mem_apply_move_or_eq hold hq₁ with hq₂ | hq₂
          · exact htree'.apart p hp₁ q hq₂
          · rw [hp₂, hq₂]
            exact hnest'.2
      · rcases mem_or_eq_of_mem_apply_move hold hq₁ with hq₂ | hq₂
        · exact htree.apart p hp₁ q hq₂
        · rcases mem_apply_move_or_eq hold hp₁ with hp₂ | hp₂
          · exact htree'.apart p hp₂ q hq₁
          · rw [hp₂, hq₂]
            exact hnest'.1
      · exact htree.apart p hp₁ q hq₁

end Edit

/-! ## Deletions and additions -/

namespace Tracks

variable {σ : Type} {c : Config} {segmenter : Option Segmenter} {m : Curator σ}
  {files : MemorySource} {X X' : Set String} {M : Contents}

theorem contains_iff {e : Engine} (h : Engine.Holds c segmenter e M) (p : String) :
    e.contains p = (M p).isSome := by
  obtain ⟨-, ds, hds, rfl⟩ := h.records
  exact hds.contains_eq p

theorem mem_pathsUnder {e : Engine} (h : Engine.Holds c segmenter e M) {dir : String}
    (hdir : Path.IsNormal dir) (q : String) :
    q ∈ e.pathsUnder dir ↔ (M q).isSome ∧ Path.Inside dir q := by
  rw [Engine.pathsUnder, List.mem_filter, Std.TreeMap.mem_keys, hdir.folderLead,
    List.isPrefixOf_iff_prefix, ← contains_iff h, Engine.contains, Std.TreeMap.contains_iff_mem]
  rfl

/-- A report of a deletion queues deletions only: of the path if it is indexed, else of
the indexed files inside it or, without any, of the path all the same. -/
theorem enqueueDelete (h : Engine.Holds c segmenter m.engine M) {path : String}
    (hpath : Path.IsNormal path) :
    ∃ paths : List String,
      (∀ q ∈ paths, q = path ∨ (Path.Inside path q ∧ (M q).isSome)) ∧
      ((M path).isSome → path ∈ paths) ∧
      (M path = none → ∀ q, (M q).isSome → Path.Inside path q → q ∈ paths) ∧
      (∀ q ∈ paths, ∃ t, (m.enqueueDelete path).buffer.items[q]? = some (.delete q t)) ∧
      ∀ q ∉ paths, (m.enqueueDelete path).buffer.items[q]? = m.buffer.items[q]? := by
  have hunder := mem_pathsUnder h hpath
  rw [Curator.enqueueDelete, contains_iff h]
  cases hM : (M path).isSome with
  | true =>
      refine ⟨[path], ?_, ?_, ?_, (Curator.foldl_enqueue_delete [path] m).2⟩
      · intro q hq
        exact Or.inl (List.mem_singleton.mp hq)
      · intro _
        exact List.mem_singleton_self path
      · intro hnone
        rw [hnone] at hM
        cases hM
  | false =>
      cases hempty : (m.engine.pathsUnder path).isEmpty with
      | true =>
          simp only [Bool.false_eq_true, if_false, hempty, if_true]
          refine ⟨[path], ?_, ?_, ?_, (Curator.foldl_enqueue_delete [path] m).2⟩
          · intro q hq
            exact Or.inl (List.mem_singleton.mp hq)
          · intro hfalse
            cases hfalse
          · intro _ q hq hin
            have hmem := (hunder q).mpr ⟨hq, hin⟩
            rw [List.isEmpty_iff.mp hempty] at hmem
            cases hmem
      | false =>
          simp only [Bool.false_eq_true, if_false, hempty]
          refine ⟨m.engine.pathsUnder path, ?_, ?_, ?_,
            (Curator.foldl_enqueue_delete (m.engine.pathsUnder path) m).2⟩
          · intro q hq
            obtain ⟨hsome, hin⟩ := (hunder q).mp hq
            exact Or.inr ⟨hin, hsome⟩
          · intro hfalse
            cases hfalse
          · intro _ q hq hin
            exact (hunder q).mpr ⟨hq, hin⟩

/-- The report of a deletion accounts for the files at the path and inside it, if all
of them are gone. -/
theorem reportGone {path : String} (hpath : Path.IsNormal path)
    (h : Tracks c segmenter m files X) (hX : ∀ q ∈ X, q ∉ X' → q = path ∨ Path.Inside path q)
    (hnone : ∀ q ∉ X', q = path ∨ Path.Inside path q → files[q]? = none) :
    Tracks c segmenter (m.enqueueDelete path) files X' := by
  obtain ⟨paths, hpaths, -, -, hin, hout⟩ := enqueueDelete h.holds hpath
  refine h.report (Curator.engine_enqueueDelete m path) (fun q => ?_) fun q hq hq' hsome => ?_
  · by_cases hq : q ∈ paths
    · obtain ⟨t, ht⟩ := hin q hq
      exact Or.inr (Or.inl ⟨t, ht, fun hq' => hnone q hq' ((hpaths q hq).imp_right And.left)⟩)
    · exact Or.inl (hout q hq)
  · rw [hnone q hq' (hX q hq hq')] at hsome
    cases hsome

/-- The report of a file accounts for it. -/
theorem reportFile {path : String} (h : Tracks c segmenter m files X)
    (hX : ∀ q ∈ X, q = path) :
    Tracks c segmenter (m.enqueue (.add path path)) files ∅ := by
  have hadd : (m.enqueue (.add path path)).buffer.items[path]? = some (.add path path m.clock) := by
    rw [Curator.enqueue_add, if_pos rfl]
  refine h.report rfl (fun q => ?_) fun q hq _ _ => ?_
  · by_cases hq : path = q
    · subst hq
      exact Or.inr (Or.inr ⟨m.clock, hadd⟩)
    · exact Or.inl (by rw [Curator.enqueue_add, if_neg hq])
  · rw [hX q hq]
    exact ⟨m.clock, hadd⟩

end Tracks

namespace Covers

variable {σ : Type} {c : Config} {segmenter : Option Segmenter} {m : Curator σ}
  {files : MemorySource} {X X' : Set String}

theorem awaitsDeletion_enqueueDelete (h : Tracks c segmenter m files X) {path q : String}
    (hpath : Path.IsNormal path) (hq : m.awaitsDeletion q) :
    (m.enqueueDelete path).awaitsDeletion q := by
  obtain ⟨paths, -, -, -, hin, hout⟩ := Tracks.enqueueDelete h.holds hpath
  by_cases hmem : q ∈ paths
  · obtain ⟨t, ht⟩ := hin q hmem
    exact Tracks.awaitsDeletion_of_delete ht
  · rw [Tracks.awaitsDeletion_congr (hout q hmem)]
    exact hq

/-- The report of a deletion covers the path, and what was inside it if nothing stops it. -/
theorem reportGone {path : String} (hpath : Path.IsNormal path)
    (h : Covers m files X) (htracks : Tracks c segmenter m files X)
    (hX : ∀ q ∈ X, q ∉ X' → q = path ∨ Path.Inside path q)
    (hmeant : ∀ q ∈ X, q ∉ X' → q = path ∨ m.Unobstructed path) :
    Covers (m.enqueueDelete path) files X' := by
  obtain ⟨paths, -, hindexed, hinside, hin, -⟩ := Tracks.enqueueDelete htracks.holds hpath
  have hawaits : ∀ q ∈ paths, (m.enqueueDelete path).awaitsDeletion q := by
    intro q hq
    obtain ⟨t, ht⟩ := hin q hq
    exact Tracks.awaitsDeletion_of_delete ht
  refine h.report (Curator.engine_enqueueDelete m path) (fun q _ hq => ?_)
    fun q hq hq' hsome _ => ?_
  · exact awaitsDeletion_enqueueDelete htracks hpath hq
  · rcases hmeant q hq hq' with rfl | hfree
    · exact hawaits q (hindexed hsome)
    · rcases hX q hq hq' with rfl | hqin
      · exact hawaits q (hindexed hsome)
      · rcases hfree with hfree | hwaits
        · rw [Tracks.contains_iff htracks.holds, Option.isSome_eq_false_iff,
            Option.isNone_iff_eq_none] at hfree
          exact hawaits q (hinside hfree q hsome hqin)
        · have hmem := (Tracks.mem_pathsUnder htracks.holds hpath q).mpr ⟨hsome, hqin⟩
          exact awaitsDeletion_enqueueDelete htracks hpath (hwaits q hmem)

/-- The report of a file leaves covered what was. -/
theorem reportFile {path : String} (h : Covers m files X) (hX : ∀ q ∈ X, q = path)
    (hfile : (files[path]?).isSome) : Covers (m.enqueue (.add path path)) files ∅ := by
  have hne : ∀ q : String, files[q]? = none → path ≠ q := by
    rintro q hnone rfl
    rw [hnone] at hfile
    cases hfile
  refine h.report rfl (fun q hnone hq => ?_) fun q hq _ _ hnone => ?_
  · have hsame : (m.enqueue (.add path path)).buffer.items[q]? = m.buffer.items[q]? := by
      rw [Curator.enqueue_add, if_neg (hne q hnone)]
    rwa [Tracks.awaitsDeletion_congr hsame]
  · exact absurd (hX q hq).symm (hne q hnone)

end Covers

/-- A report of a deletion means a path that is indexed and nothing else. -/
theorem Curator.enqueueDelete_of_contains {σ : Type} {m : Curator σ} {path : String}
    (h : m.engine.contains path = true) : m.enqueueDelete path = m.enqueue (.delete path) := by
  rw [enqueueDelete, h]
  rfl

/-- Where the report that a folder is gone has covered everything, nothing stopped it. -/
theorem Curator.unobstructed_of_covers {σ : Type} {c : Config} {segmenter : Option Segmenter}
    {m : Curator σ} {files : MemorySource} {X : Set String} {dir : String}
    (hdir : Path.IsNormal dir) (h : Tracks c segmenter m files X)
    (hnone : ∀ q, Path.Inside dir q → files[q]? = none)
    (hcovers : Covers (m.enqueueDelete dir) files ∅) : m.Unobstructed dir := by
  cases hfile : m.engine.contains dir with
  | false => exact Or.inl hfile
  | true =>
      refine Or.inr fun q hq => ?_
      obtain ⟨hsome, hqin⟩ := (Tracks.mem_pathsUnder h.holds hdir q).mp hq
      have hne : dir ≠ q := by
        rintro rfl
        have hlength := hqin.length_le
        simp at hlength
      have hsame : (m.enqueueDelete dir).buffer.items[q]? = m.buffer.items[q]? := by
        rw [Curator.enqueueDelete_of_contains hfile, Curator.enqueue_delete, if_neg hne]
      rw [← Tracks.awaitsDeletion_congr hsame]
      rw [← Curator.engine_enqueueDelete m dir] at hsome
      exact hcovers q (Set.notMem_empty q) hsome (hnone q hqin)

/-! ## Reports -/

namespace Edit

variable {σ : Type} {c : Config} {m : Curator σ} {files : MemorySource}

theorem notify_put {path text : String} {isNew : Bool} (hconfig : m.config = c)
    (hfits : (Edit.put path text isNew).Fits c files) :
    m.notify (Edit.put path text isNew).report = m.enqueue (.add path path) := by
  have hused := (hfits.used path (List.mem_singleton_self path)).2
  rw [Curator.notify]
  cases isNew <;> simp [Edit.report, hconfig, hused]

theorem notify_remove {path : String} (hconfig : m.config = c)
    (hfits : (Edit.remove path).Fits c files) :
    m.notify (Edit.remove path).report = m.enqueueDelete path := by
  have hused := (hfits.used path (List.mem_singleton_self path)).2
  rw [Curator.notify]
  simp [Edit.report, hconfig, hused]

theorem notify_removeFolder {dir : String} (hconfig : m.config = c)
    (hfits : (Edit.removeFolder dir).Fits c files) :
    m.notify (Edit.removeFolder dir).report = m.enqueueDelete dir := by
  have hused := (hfits.used dir (List.mem_singleton_self dir)).2
  rw [Curator.notify]
  simp [Edit.report, hconfig, hused]

theorem notify_move {old new : String} (hconfig : m.config = c)
    (hfits : (Edit.move old new).Fits c files) :
    m.notify (Edit.move old new).report = (m.enqueueDelete old).enqueue (.add new new) := by
  have hused := (hfits.used new (List.mem_cons_of_mem _ (List.mem_singleton_self new))).2
  have hconfig' : (m.enqueueDelete old).config = c := by
    rw [Curator.config, Curator.engine_enqueueDelete]
    exact hconfig
  rw [Curator.notify]
  simp [Edit.report, hconfig', hused]

end Edit

namespace Tracks

variable {σ : Type} {c : Config} {segmenter : Option Segmenter} {m : Curator σ}
  {files : MemorySource}

theorem config_eq {X : Set String} (h : Tracks c segmenter m files X) : m.config = c := by
  obtain ⟨-, ds, hds, -⟩ := h.holds.records
  rw [Curator.config, hds.config]

/-- The report of an edit accounts for the paths that it changed, and covers them unless it
is stopped. -/
theorem notify {edit : Edit} (hfits : edit.Fits c files) (htree : files.IsTree)
    (h : Tracks c segmenter m (edit.apply files) (changed files (edit.apply files))) :
    Tracks c segmenter (m.notify edit.report) (edit.apply files) ∅ ∧
      (Covers m (edit.apply files) (changed files (edit.apply files)) →
        (Covers (m.notify edit.report) (edit.apply files) ∅ ↔ edit.Unobstructed m)) := by
  have hconfig := h.config_eq
  cases edit with
  | put path text isNew =>
      have hX : ∀ q ∈ changed files ((Edit.put path text isNew).apply files), q = path :=
        fun q hq => (Edit.eq_of_changed_put hq).symm
      have hfile : (((Edit.put path text isNew).apply files)[path]?).isSome := by
        rw [Edit.getElem?_apply_put, if_pos rfl]
        rfl
      rw [Edit.notify_put hconfig hfits]
      exact ⟨h.reportFile hX, fun hcovers => iff_of_true (hcovers.reportFile hX hfile) trivial⟩
  | remove path =>
      have hnormal := (hfits.used path (List.mem_singleton_self path)).1
      have hX : ∀ q ∈ changed files ((Edit.remove path).apply files), q = path :=
        fun q hq => (Edit.eq_of_changed_remove hq).symm
      rw [Edit.notify_remove hconfig hfits]
      refine ⟨h.reportGone hnormal (fun q hq _ => Or.inl (hX q hq)) (fun q _ hq => ?_),
        fun hcovers => iff_of_true (hcovers.reportGone hnormal h (fun q hq _ => Or.inl (hX q hq))
          fun q hq _ => Or.inl (hX q hq)) trivial⟩
      rw [Edit.getElem?_apply_remove]
      rcases hq with rfl | hinside
      · rw [if_pos rfl]
      · -- what is inside the path is no file, for the path is no folder
        rw [Edit.getElem?_eq_none fun hq => hfits.proper q hq hinside, ite_self]
  | removeFolder dir =>
      have hnormal := (hfits.used dir (List.mem_singleton_self dir)).1
      have hX : ∀ q ∈ changed files ((Edit.removeFolder dir).apply files),
          q = dir ∨ Path.Inside dir q :=
        fun q hq => Or.inr (Edit.inside_of_changed_removeFolder hq)
      have hinside : ∀ q, Path.Inside dir q →
          ((Edit.removeFolder dir).apply files)[q]? = none := by
        intro q hq
        rw [Edit.getElem?_apply_removeFolder, if_pos hq]
      rw [Edit.notify_removeFolder hconfig hfits]
      refine ⟨h.reportGone hnormal (fun q hq _ => hX q hq) (fun q _ hq => ?_), fun hcovers =>
        ⟨Curator.unobstructed_of_covers hnormal h hinside, fun hfree =>
          hcovers.reportGone hnormal h (fun q hq _ => hX q hq) fun q _ _ => Or.inr hfree⟩⟩
      rcases hq with rfl | hq
      · rw [Edit.getElem?_apply_removeFolder, Edit.getElem?_eq_none hfits.proper, ite_self]
      · exact hinside q hq
  | move old new =>
      obtain ⟨text, hold⟩ := Option.isSome_iff_exists.mp
        (Std.TreeMap.mem_iff_isSome_getElem?.mp hfits.proper)
      have hnormal := (hfits.used old List.mem_cons_self).1
      have hX : ∀ q ∈ changed files ((Edit.move old new).apply files),
          q ∉ ({new} : Set String) → q = old := by
        intro q hq hnew
        rcases Edit.eq_or_eq_of_changed_move hold hq with rfl | rfl
        · exact absurd rfl hnew
        · rfl
      have hfile : (((Edit.move old new).apply files)[new]?).isSome := by
        rw [Edit.getElem?_apply_move hold, if_pos rfl]
        rfl
      -- the old path is accounted for first, and the new one stays unreported
      have hgone : Tracks c segmenter (m.enqueueDelete old) ((Edit.move old new).apply files)
          {new} := by
        refine h.reportGone hnormal (fun q hq hnew => Or.inl (hX q hq hnew)) fun q hnew hq => ?_
        rw [Edit.getElem?_apply_move hold, if_neg fun heq => hnew heq.symm]
        rcases hq with rfl | hinside
        · rw [if_pos rfl]
        · -- what is inside the old path is no file, for the old path is one
          rw [Edit.getElem?_eq_none fun hq => htree.apart old hfits.proper q hq hinside,
            ite_self]
      rw [Edit.notify_move hconfig hfits]
      refine ⟨hgone.reportFile fun q hq => hq, fun hcovers => iff_of_true ?_ trivial⟩
      exact (hcovers.reportGone hnormal h (fun q hq hnew => Or.inl (hX q hq hnew))
        fun q hq hnew => Or.inl (hX q hq hnew)).reportFile (fun q hq => hq) hfile

end Tracks

end VaultSearch

import VaultSearch.Proofs.Engine.Runs

/-!
# The paths of an engine

Which paths an engine contains after an operation depends on the paths
that it contained before and on nothing else: not on its index, and not on
whether its parts fit together. Taking in and removing documents change the
index and the slots, and nothing else that an answer depends on. And the
slot of a path is always that of a document with this path (`Aligned`).
-/

namespace VaultSearch

namespace Engine

/-! ## What an operation leaves alone -/

/-- Taking in documents changes the index and the slots alone. -/
theorem insertAll_data : ∀ (docs : List Document) (e : Engine),
    ∃ index slots, docs.foldl insertDocument e = { e with index, slots }
  | [], e => ⟨e.index, e.slots, rfl⟩
  | d :: docs, e => by
      obtain ⟨index, slots, heq⟩ := insertAll_data docs (e.insertDocument d)
      exact ⟨index, slots, heq⟩

theorem config_step (e : Engine) (s : Step) : (e.step s).config = e.config := by
  cases s with
  | addChunk docs =>
      obtain ⟨index, slots, heq⟩ := insertAll_data docs e
      rw [step, heq]
  | _ => rfl

theorem config_run : ∀ (steps : List Step) (e : Engine), (e.run steps).config = e.config
  | [], _ => rfl
  | s :: steps, e => (config_run steps (e.step s)).trans (config_step e s)

/-- Removing documents changes the index and the slots alone. -/
theorem deleteAll_data : ∀ (paths : List String) (acc : Engine × List String),
    ∃ index slots, (paths.foldl deleteOne acc).1 = { acc.1 with index, slots }
  | [], acc => ⟨acc.1.index, acc.1.slots, rfl⟩
  | p :: paths, acc => by
      obtain ⟨index, slots, heq⟩ := deleteAll_data paths (deleteOne acc p)
      refine ⟨index, slots, heq.trans ?_⟩
      rw [deleteOne]
      cases acc.1.slots[p]? with
      | none => rfl
      | some slot =>
          simp only []
          cases acc.1.index.entry? slot <;> rfl

theorem delete_data (e : Engine) (paths : List String) :
    ∃ index slots updated, (e.delete paths).1 = { e with index, slots, updated } ∧
      (e.updated → updated) := by
  obtain ⟨index, slots, heq⟩ := deleteAll_data paths (e, [])
  rw [delete]
  simp only [heq]
  split
  · exact ⟨index, slots, e.updated, rfl, id⟩
  · exact ⟨index, slots, true, rfl, fun _ => rfl⟩

theorem config_delete (e : Engine) (paths : List String) :
    (e.delete paths).1.config = e.config := by
  obtain ⟨index, slots, updated, heq, -⟩ := delete_data e paths
  rw [heq]

theorem phase_delete (e : Engine) (paths : List String) :
    (e.delete paths).1.phase = e.phase := by
  obtain ⟨index, slots, updated, heq, -⟩ := delete_data e paths
  rw [heq]

/-! ## Paths -/

variable {e : Engine}

theorem contains_insertDocument {d : Document} {q : String} :
    (e.insertDocument d).contains q ↔ e.contains q ∨ d.path = q := by
  rw [insertDocument, contains, contains, Std.TreeMap.contains_insert, Bool.or_eq_true, beq_iff_eq,
    compare_eq_iff_eq, or_comm]

theorem contains_insertAll {q : String} : ∀ (docs : List Document) {e : Engine},
    (docs.foldl insertDocument e).contains q ↔ e.contains q ∨ q ∈ docs.map (·.path)
  | [], e => by simp
  | d :: docs, e => by
      rw [List.foldl_cons, contains_insertAll docs, contains_insertDocument, List.map_cons,
        List.mem_cons, or_assoc, eq_comm (a := q)]

/-- Documents that are added have their paths in the engine, whether they were fresh or
not. -/
theorem contains_add {docs : List Document} {q : String} :
    (e.add docs).1.contains q ↔ e.contains q ∨ q ∈ docs.map (·.path) := by
  have hrun : (e.add docs).1.slots =
      ((freshDocuments e.contains docs).foldl insertDocument e).slots := by
    have hinsert : (e.run (e.insertSteps (freshDocuments e.contains docs))).slots =
        ((freshDocuments e.contains docs).foldl insertDocument e).slots := by
      rw [run_insertSteps]
      cases freshDocuments e.contains docs <;> rfl
    rw [← hinsert, add, addSteps, run_append]
    split <;> rfl
  have hfresh : q ∈ (freshDocuments e.contains docs).map (·.path) ↔
      q ∈ docs.map (·.path) ∧ ¬e.contains q := by
    rw [paths_freshDocuments, List.mem_eraseDups, List.mem_filter, Bool.not_eq_true',
      Bool.not_eq_true]
  rw [contains, hrun, ← contains, contains_insertAll, hfresh]
  by_cases hq : e.contains q <;> simp [hq]

theorem contains_deleteOne {removed : List String} {p q : String} :
    (deleteOne (e, removed) p).1.contains q ↔ e.contains q ∧ q ≠ p := by
  have herase : (e.slots.erase p).contains q ↔ e.contains q ∧ q ≠ p := by
    rw [Std.TreeMap.contains_erase, Bool.and_eq_true, bne_iff_ne, ne_eq, compare_eq_iff_eq,
      and_comm, ← ne_eq, ne_comm]
    rfl
  rw [deleteOne]
  cases hslot : e.slots[p]? with
  | none =>
      have hp : e.contains p = false := by
        rw [contains, Std.TreeMap.contains_eq_isSome_getElem?, hslot]
        rfl
      refine ⟨fun hq => ⟨hq, ?_⟩, And.left⟩
      rintro rfl
      rw [hp] at hq
      cases hq
  | some slot =>
      simp only []
      cases e.index.entry? slot with
      | none => exact herase
      | some entry => exact herase

theorem contains_deleteAll {q : String} : ∀ (paths : List String) {acc : Engine × List String},
    (paths.foldl deleteOne acc).1.contains q ↔ acc.1.contains q ∧ q ∉ paths
  | [], acc => by simp
  | p :: paths, acc => by
      rw [List.foldl_cons, contains_deleteAll paths, contains_deleteOne, List.mem_cons, not_or,
        and_assoc]

theorem contains_delete {paths : List String} {q : String} :
    (e.delete paths).1.contains q ↔ e.contains q ∧ q ∉ paths := by
  rw [delete]
  simp only []
  split
  · exact contains_deleteAll paths
  · exact contains_deleteAll paths

/-! ## The slots of paths -/

/-- The slot of a path is that of a document with this path. -/
def Aligned (e : Engine) : Prop :=
  ∀ (p : String) (s : Nat), e.slots[p]? = some s →
    ∃ entry, e.index.entry? s = some entry ∧ entry.path = p

theorem aligned_of_slots_empty {e : Engine} (h : e.slots = {}) : e.Aligned := by
  intro p s hs
  rw [h] at hs
  simp at hs

theorem Aligned.insertDocument {e : Engine} (h : e.Aligned) (d : Document) :
    (e.insertDocument d).Aligned := by
  intro p s hs
  rw [Engine.insertDocument, Std.TreeMap.getElem?_insert] at hs
  rw [Engine.insertDocument, Index.entry?, Index.insert]
  simp only [Array.getElem?_push]
  split at hs
  · rename_i hp
    obtain rfl : d.path = p := by simpa using hp
    obtain rfl : e.index.docs.size = s := Option.some.inj hs
    rw [if_pos rfl]
    exact ⟨_, rfl, rfl⟩
  · obtain ⟨entry, hentry, hpath⟩ := h p s hs
    have hne : s ≠ e.index.docs.size := by
      rintro rfl
      simp [Index.entry?] at hentry
    rw [if_neg hne]
    exact ⟨entry, hentry, hpath⟩

theorem Aligned.insertAll : ∀ (docs : List Document) {e : Engine}, e.Aligned →
    (docs.foldl Engine.insertDocument e).Aligned
  | [], _, h => h
  | d :: docs, _, h => insertAll docs (h.insertDocument d)

theorem Aligned.deleteOne {acc : Engine × List String} (h : acc.1.Aligned) (p : String) :
    (Engine.deleteOne acc p).1.Aligned := by
  rw [Engine.deleteOne]
  cases hslot : acc.1.slots[p]? with
  | none => exact h
  | some slot =>
      obtain ⟨gone, hgone, hp⟩ := h p slot hslot
      simp only [hgone]
      intro q s hs
      rw [Std.TreeMap.getElem?_erase] at hs
      split at hs
      · cases hs
      · rename_i hq
        obtain ⟨entry, hentry, hpath⟩ := h q s hs
        -- another path has another slot
        have hne : slot ≠ s := by
          rintro rfl
          obtain rfl := Option.some.inj (hgone.symm.trans hentry)
          exact hq (by rw [← hp, hpath]; exact Std.ReflCmp.compare_self)
        refine ⟨entry, ?_, hpath⟩
        rw [Index.entry?] at hentry ⊢
        rw [Index.remove, hgone]
        simp only [Array.getElem?_setIfInBounds, if_neg hne]
        exact hentry

theorem Aligned.deleteAll : ∀ (paths : List String) {acc : Engine × List String},
    acc.1.Aligned → (paths.foldl Engine.deleteOne acc).1.Aligned
  | [], _, h => h
  | p :: paths, _, h => deleteAll paths (h.deleteOne p)

/-! ## The slots that a load finds -/

/-- Enter one row of an index into the table of slots. -/
def addSlot (m : Slots) (row : Option Entry × Nat) : Slots :=
  match row.1 with
  | none => m
  | some e => m.insert e.path row.2

theorem slotsOf_eq_foldl (ix : Index) : slotsOf ix = ix.docs.toList.zipIdx.foldl addSlot {} := rfl

theorem of_getElem?_foldl_addSlot {p : String} {s : Nat} :
    ∀ (rows : List (Option Entry × Nat)) (m : Slots), (rows.foldl addSlot m)[p]? = some s →
      m[p]? = some s ∨ ∃ entry, (some entry, s) ∈ rows ∧ entry.path = p
  | [], _, hs => .inl hs
  | row :: rows, m, hs => by
      rcases of_getElem?_foldl_addSlot rows _ hs with hs | ⟨entry, hmem, hp⟩
      · obtain ⟨_ | e, slot⟩ := row
        · exact .inl hs
        · rw [addSlot, Std.TreeMap.getElem?_insert] at hs
          split at hs
          · rename_i hp
            obtain rfl := Option.some.inj hs
            exact .inr ⟨e, List.mem_cons_self, by simpa using hp⟩
          · exact .inl hs
      · exact .inr ⟨entry, List.mem_cons_of_mem _ hmem, hp⟩

theorem mem_foldl_addSlot {entry : Entry} {s : Nat} :
    ∀ (rows : List (Option Entry × Nat)) (m : Slots),
      (entry.path ∈ m ∨ (some entry, s) ∈ rows) → entry.path ∈ rows.foldl addSlot m
  | [], _, h => h.resolve_right List.not_mem_nil
  | row :: rows, m, h => by
      refine mem_foldl_addSlot (s := s) rows _ ?_
      rw [List.mem_cons] at h
      rcases h with hm | rfl | hmem
      · left
        obtain ⟨_ | e, slot⟩ := row
        · exact hm
        · exact Std.TreeMap.mem_insert.mpr (.inr hm)
      · exact .inl (Std.TreeMap.mem_insert.mpr (.inl Std.ReflCmp.compare_self))
      · exact .inr hmem

theorem mem_zipIdx_docs {ix : Index} {entry : Entry} {s : Nat} :
    (some entry, s) ∈ ix.docs.toList.zipIdx ↔ ix.entry? s = some entry := by
  rw [List.mem_zipIdx_iff_getElem?, Array.getElem?_toList, Index.entry?, Option.join_eq_some_iff]

/-- The slots that a load finds are those of documents with their paths, whatever index is
loaded. -/
theorem entry?_of_slotsOf {ix : Index} {p : String} {s : Nat} (h : (slotsOf ix)[p]? = some s) :
    ∃ entry, ix.entry? s = some entry ∧ entry.path = p := by
  rw [slotsOf_eq_foldl] at h
  rcases of_getElem?_foldl_addSlot _ _ h with hs | ⟨entry, hmem, hp⟩
  · simp at hs
  · exact ⟨entry, mem_zipIdx_docs.mp hmem, hp⟩

/-- Every live document has a slot at its path, be it its own or not. -/
theorem mem_slotsOf_of_entry? {ix : Index} {entry : Entry} {s : Nat}
    (h : ix.entry? s = some entry) : entry.path ∈ slotsOf ix := by
  rw [slotsOf_eq_foldl]
  exact mem_foldl_addSlot _ _ (.inr (mem_zipIdx_docs.mpr h))

theorem Aligned.run_insertSteps {e : Engine} (h : e.Aligned) (e' : Engine)
    (docs : List Document) : (e.run (e'.insertSteps docs)).Aligned := by
  rw [Engine.run_insertSteps]
  split
  · exact h
  · exact h.insertAll docs

end Engine

end VaultSearch

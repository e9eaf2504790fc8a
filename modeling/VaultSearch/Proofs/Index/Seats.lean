import VaultSearch.Proofs.Index.Records

/-!
# The slots of an index

What an index holds in a slot is the entry of the document and the terms that
have postings there (`Index.heldAt`). Taking in a document fills the next slot
and removing one empties its slot, and neither touches the others, as long as
no posting stands for a slot that is still to be given (`Index.Seated`). That
much the check of an index makes sure of, wherever the index comes from.
-/

namespace VaultSearch

/-! ## The fields in a slot -/

namespace Index

variable {ix : Index} {s : Nat}

/-- The terms of each field that have a posting in a slot. -/
def fieldsAt (ix : Index) (slot : Nat) : PerField (List String) :=
  PerField.of fun f => ix.postings.keys.filter fun t => ⟨slot, f⟩ ∈ ix.postingsOf t

theorem mem_keys_of_mem_postingsOf {t : String} {p : Posting} (h : p ∈ ix.postingsOf t) :
    t ∈ ix.postings.keys := by
  rw [Std.ExtTreeMap.mem_keys, Std.ExtTreeMap.mem_iff_isSome_getElem?]
  cases ht : ix.postings[t]? with
  | none => simp [postingsOf, Std.ExtTreeMap.getD_eq_getD_getElem?, ht] at h
  | some ps => rfl

/-- The fields in a slot are told by their terms. -/
theorem fieldsAt_eq {F : PerField (List String)} (hF : ∀ f, (F.get f).Pairwise (· < ·))
    (h : ∀ f t, ⟨s, f⟩ ∈ ix.postingsOf t ↔ t ∈ F.get f) : ix.fieldsAt s = F := by
  have hfield : ∀ f, ix.postings.keys.filter (fun t => ⟨s, f⟩ ∈ ix.postingsOf t) = F.get f := by
    intro f
    refine List.Pairwise.eq_of_mem_iff (r := (· < ·)) (ix.pairwise_keys.filter _) (hF f)
      fun t => ?_
    rw [List.mem_filter, decide_eq_true_eq, h]
    exact ⟨And.right, fun ht => ⟨mem_keys_of_mem_postingsOf ((h f t).mpr ht), ht⟩⟩
  rw [fieldsAt]
  simp only [hfield]
  rfl

theorem pairwise_get_fieldsAt (ix : Index) (s : Nat) (f : Field) :
    ((ix.fieldsAt s).get f).Pairwise (· < ·) := by
  rw [fieldsAt, PerField.get_of]
  exact ix.pairwise_keys.filter _

theorem mem_get_fieldsAt {f : Field} {t : String} :
    t ∈ (ix.fieldsAt s).get f ↔ ⟨s, f⟩ ∈ ix.postingsOf t := by
  rw [fieldsAt, PerField.get_of, List.mem_filter, decide_eq_true_eq]
  exact ⟨And.right, fun h => ⟨mem_keys_of_mem_postingsOf h, h⟩⟩

theorem fieldsAt_congr {ix' : Index}
    (h : ∀ f t, ⟨s, f⟩ ∈ ix'.postingsOf t ↔ ⟨s, f⟩ ∈ ix.postingsOf t) :
    ix'.fieldsAt s = ix.fieldsAt s :=
  fieldsAt_eq (ix.pairwise_get_fieldsAt s) fun f t => (h f t).trans mem_get_fieldsAt.symm

/-- Every posting stands for a slot that was given. -/
def Seated (ix : Index) : Prop := ∀ t, ∀ p ∈ ix.postingsOf t, p.doc < ix.docs.size

theorem seated_empty : Seated {} := by
  intro t p hp
  simp [postingsOf] at hp

theorem Seated.insert (h : ix.Seated) {d : Analysed} (hd : d.Sorted) : (ix.insert d).Seated := by
  intro t p hp
  rw [postingsOf_insert ix hd, List.mem_append] at hp
  rw [Index.insert, Array.size_push]
  rcases hp with hp | hp
  · exact Nat.lt_succ_of_lt (h t p hp)
  · obtain ⟨f, -, rfl⟩ := List.mem_map.mp hp
    exact Nat.lt_succ_self _

theorem Seated.remove (h : ix.Seated) {entry : Entry} (hentry : ix.entry? s = some entry) :
    (ix.remove s).Seated := by
  have hsize : (ix.remove s).docs.size = ix.docs.size := by
    rw [Index.remove, hentry]
    exact Array.size_setIfInBounds
  intro t p hp
  rw [postingsOf_remove_of_entry hentry] at hp
  rw [hsize]
  split at hp
  · exact h t p (List.mem_of_mem_filter hp)
  · exact h t p hp

/-- An index that passes its check has its postings in slots of its documents. -/
theorem seated_of_check (h : ix.check = .ok ()) : ix.Seated := by
  intro t p hp
  have hkey := mem_keys_of_mem_postingsOf hp
  rw [Std.ExtTreeMap.mem_keys, Std.ExtTreeMap.mem_iff_isSome_getElem?,
    Option.isSome_iff_exists] at hkey
  obtain ⟨ps, hps⟩ := hkey
  have hp' : p ∈ ps.toList := by
    simpa [postingsOf, Std.ExtTreeMap.getD_eq_getD_getElem?, hps] using hp
  rw [check] at h
  split at h
  · cases h
  · split at h
    · cases h
    · rename_i hany
      rw [Bool.not_eq_true, List.any_eq_false] at hany
      have hall : (ps.any fun p => (ix.entry? p.doc).isNone) = false := by
        simpa using hany (t, ps) (Std.ExtTreeMap.mem_toList_iff_getElem?_eq_some.mpr hps)
      rw [← Array.any_toList, List.any_eq_false] at hall
      have hentry := hall p hp'
      rw [Bool.not_eq_true, Option.isNone_eq_false_iff, Option.isSome_iff_exists] at hentry
      obtain ⟨entry, hentry⟩ := hentry
      rw [Index.entry?, Option.join_eq_some_iff] at hentry
      exact (Array.getElem?_eq_some_iff.mp hentry).1

/-- Taking in a document leaves the slots given before as they were. -/
theorem fieldsAt_insert_of_lt {d : Analysed} (hd : d.Sorted) (hs : s < ix.docs.size) :
    (ix.insert d).fieldsAt s = ix.fieldsAt s := by
  refine fieldsAt_congr fun f t => ?_
  rw [postingsOf_insert ix hd, List.mem_append, or_iff_left]
  intro hnew
  obtain ⟨g, -, heq⟩ := List.mem_map.mp hnew
  have hslot := (Posting.mk.inj heq).1
  omega

/-- In the slot that a document is given it has its fields. -/
theorem Seated.fieldsAt_insert (h : ix.Seated) {d : Analysed} (hd : d.Sorted) :
    (ix.insert d).fieldsAt ix.docs.size = d.fields := by
  refine fieldsAt_eq hd fun f t => ?_
  rw [postingsOf_insert ix hd, List.mem_append]
  constructor
  · rintro (hold | hnew)
    · exact absurd (h t _ hold) (Nat.lt_irrefl _)
    · obtain ⟨g, hg, heq⟩ := List.mem_map.mp hnew
      rw [← (Posting.mk.inj heq).2]
      exact Analysed.mem_fieldsWith.mp hg
  · exact fun ht => Or.inr (List.mem_map.mpr ⟨f, Analysed.mem_fieldsWith.mpr ht, rfl⟩)

/-- Removing a document leaves the other slots as they were. -/
theorem fieldsAt_remove_of_ne {slot : Nat} {entry : Entry} (h : ix.entry? slot = some entry)
    (hne : s ≠ slot) : (ix.remove slot).fieldsAt s = ix.fieldsAt s := by
  refine fieldsAt_congr fun f t => ?_
  rw [postingsOf_remove_of_entry h]
  split
  · simp [List.mem_filter, hne]
  · rfl

/-! ## What is held in a slot -/

/-- The entry in a slot and the terms of each field that have postings there. -/
structure Held where
  entry : Option Entry
  fields : PerField (List String)

/-- What a slot holds that was given to a document. -/
def Held.of (d : Analysed) : Held := ⟨some (entryOf d), d.fields⟩

def heldAt (ix : Index) (slot : Nat) : Held := ⟨ix.entry? slot, ix.fieldsAt slot⟩

theorem heldAt_insert_of_lt {d : Analysed} (hd : d.Sorted) (hs : s < ix.docs.size) :
    (ix.insert d).heldAt s = ix.heldAt s := by
  have hentry : Index.entry? (ix.insert d) s = ix.entry? s := by
    rw [Index.entry?, Index.insert, Array.getElem?_push, if_neg (Nat.ne_of_lt hs)]
    rfl
  rw [heldAt, hentry, fieldsAt_insert_of_lt hd hs, heldAt]

theorem Seated.heldAt_insert (h : ix.Seated) {d : Analysed} (hd : d.Sorted) :
    (ix.insert d).heldAt ix.docs.size = Held.of d := by
  have hentry : Index.entry? (ix.insert d) ix.docs.size = some (entryOf d) := by
    rw [Index.entry?, Index.insert, Array.getElem?_push, if_pos rfl]
    rfl
  rw [heldAt, hentry, h.fieldsAt_insert hd, Held.of]

theorem heldAt_remove_of_ne {slot : Nat} {entry : Entry} (h : ix.entry? slot = some entry)
    (hne : s ≠ slot) : (ix.remove slot).heldAt s = ix.heldAt s := by
  have hentry : Index.entry? (ix.remove slot) s = ix.entry? s := by
    rw [Index.entry?, Index.remove, h]
    simp only [Array.getElem?_setIfInBounds, if_neg hne.symm]
    rfl
  rw [heldAt, hentry, fieldsAt_remove_of_ne h hne, heldAt]

end Index

end VaultSearch

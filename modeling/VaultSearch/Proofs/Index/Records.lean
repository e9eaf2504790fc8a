import Mathlib.Algebra.GroupWithZero.Nat
import Mathlib.Algebra.Order.BigOperators.Group.List
import Mathlib.Data.List.Induction
import Mathlib.Data.List.ReduceOption
import Mathlib.Data.List.Sort
import Mathlib.Data.String.Basic
import VaultSearch.Index

/-!
# What an index records

`ix.Records ds` says that the index `ix` is an index of the analysed
documents `ds`, given slot by slot with `none` for a removed one. It is
the representation invariant of the index: taking in a document appends
it to `ds` (`Records.insert`), and removing the document in a slot
empties that slot (`Records.remove`). The counts that the ranking reads
are then facts about `ds` (`Records.docFreq_eq`, `Records.mem_keys`).

Postings are pinned down by their members and their order, not by how
they came about, so no statement here depends on a history.
-/

namespace VaultSearch

/-! ## The order of postings -/

/-- Postings are ordered by slot, then by field. -/
def Posting.Before (p q : Posting) : Prop :=
  p.doc < q.doc ∨ (p.doc = q.doc ∧ p.field.number < q.field.number)

instance : Std.Irrefl Posting.Before where
  irrefl p h := by
    rcases h with h | ⟨-, h⟩ <;> exact Nat.lt_irrefl _ h

instance : Std.Antisymm Posting.Before where
  antisymm p q hpq hqp := by
    rcases hpq with hpq | ⟨hpq, hf⟩ <;> rcases hqp with hqp | ⟨hqp, hf'⟩ <;> omega

theorem pairwise_number_all : Field.all.Pairwise fun f g => f.number < g.number := by
  decide

theorem Field.mem_all (f : Field) : f ∈ Field.all := by
  cases f <;> decide

/-! ## Analysed documents -/

namespace Analysed

/-- The fields of a document that a term occurs in. -/
def fieldsWith (d : Analysed) (t : String) : List Field :=
  Field.all.filter fun f => t ∈ d.fields.get f

/-- A term occurs in a document. -/
def Has (d : Analysed) (t : String) : Prop := ∃ f, t ∈ d.fields.get f

/-- The terms of each field are distinct and ascending. -/
def Sorted (d : Analysed) : Prop := ∀ f, (d.fields.get f).Pairwise (· < ·)

theorem mem_fieldsWith {d : Analysed} {t : String} {f : Field} :
    f ∈ d.fieldsWith t ↔ t ∈ d.fields.get f := by
  simp [fieldsWith, Field.mem_all]

theorem mem_occurrences {d : Analysed} {t : String} {f : Field} :
    (f, t) ∈ Index.occurrences d ↔ t ∈ d.fields.get f := by
  simp [Index.occurrences, Field.mem_all]

/-- The postings of a document for one term, in order. -/
theorem pairwise_fieldsWith (d : Analysed) (t : String) (slot : Nat) :
    ((d.fieldsWith t).map (Posting.mk slot)).Pairwise Posting.Before := by
  rw [List.pairwise_map]
  exact (pairwise_number_all.filter _).imp fun hlt => Or.inr ⟨rfl, hlt⟩

/-- The entry of a document lists exactly the terms that occur in it. -/
theorem mem_terms_entryOf {d : Analysed} {t : String} :
    t ∈ (Index.entryOf d).terms ↔ d.Has t := by
  simp only [Index.entryOf, Text.mem_distinctSorted, List.mem_map, Prod.exists, Has]
  constructor
  · rintro ⟨f, _, h, rfl⟩
    exact ⟨f, mem_occurrences.mp h⟩
  · rintro ⟨f, h⟩
    exact ⟨f, t, mem_occurrences.mpr h, rfl⟩

theorem pairwise_terms_entryOf (d : Analysed) : (Index.entryOf d).terms.Pairwise (· < ·) :=
  Text.pairwise_distinctSorted _

/-- The occurrences of one term, in the order of the fields: each field has it
at most once. -/
theorem occurrences_of_term {d : Analysed} (hd : d.Sorted) (t : String) :
    ((Index.occurrences d).filter (·.2 = t)).map Prod.fst = d.fieldsWith t := by
  have hone : ∀ f : Field,
      (((d.fields.get f).map fun t => (f, t)).filter (·.2 = t)).map Prod.fst =
        if t ∈ d.fields.get f then [f] else [] := by
    intro f
    have hnd : (d.fields.get f).Nodup := (hd f).imp fun h => ne_of_lt h
    rw [List.filter_map, List.map_map]
    have hcomp : (fun p : Field × String => decide (p.2 = t)) ∘ (fun t => (f, t)) =
        fun u => u == t := by
      funext u; simp [beq_eq_decide]
    rw [hcomp, List.filter_beq]
    by_cases ht : t ∈ d.fields.get f
    · simp [List.count_eq_one_of_mem hnd ht, ht]
    · simp [List.count_eq_zero_of_not_mem ht, ht]
  simp only [Index.occurrences, List.filter_flatMap, List.map_flatMap, hone]
  simp only [fieldsWith]
  induction Field.all with
  | nil => rfl
  | cons f fs ih =>
      by_cases ht : t ∈ d.fields.get f <;> simp [ht, ih]

end Analysed

/-! ## Lists of postings by term -/

namespace Postings

/-- The postings of a term. -/
def of (m : Postings) (t : String) : List Posting := (m.getD t #[]).toList

/-- No term is kept without postings. -/
def Inhabited (m : Postings) : Prop :=
  ∀ (t : String) (ps : Array Posting), m[t]? = some ps → ps ≠ #[]

theorem getD_filter_isEmpty (o : Option (Array Posting)) :
    (o.filter fun ps => !ps.isEmpty).getD #[] = o.getD #[] := by
  cases o with
  | none => rfl
  | some ps =>
      by_cases h : ps = #[] <;> simp [Option.filter_some, h]

theorem of_add (m : Postings) (t u : String) (p : Posting) :
    (m.add t p).of u = if t = u then m.of u ++ [p] else m.of u := by
  by_cases h : t = u
  · subst h
    simp [of, add, Std.ExtTreeMap.getD_eq_getD_getElem?]
  · simp [of, add, Std.ExtTreeMap.getD_eq_getD_getElem?, Std.ExtTreeMap.getElem?_alter, h]

theorem of_dropDoc (m : Postings) (slot : Nat) (t u : String) :
    (dropDoc slot m t).of u = if t = u then (m.of u).filter (·.doc ≠ slot) else m.of u := by
  by_cases h : t = u
  · subst h
    simp only [of, dropDoc, Std.ExtTreeMap.getD_eq_getD_getElem?, if_true,
      Std.ExtTreeMap.getElem?_alter_self, getD_filter_isEmpty]
    cases m[t]? with
    | none => rfl
    | some ps => simp
  · simp [of, dropDoc, Std.ExtTreeMap.getD_eq_getD_getElem?, Std.ExtTreeMap.getElem?_alter, h]

theorem Inhabited.add {m : Postings} (hm : m.Inhabited) (t : String) (p : Posting) :
    (m.add t p).Inhabited := by
  intro u ps h
  rw [Postings.add, Std.ExtTreeMap.getElem?_alter] at h
  split at h
  · obtain rfl := Option.some.inj h
    simp
  · exact hm u ps h

theorem Inhabited.dropDoc {m : Postings} (hm : m.Inhabited) (slot : Nat) (t : String) :
    (Postings.dropDoc slot m t).Inhabited := by
  intro u ps h
  rw [Postings.dropDoc, Std.ExtTreeMap.getElem?_alter] at h
  split at h
  · have := (Option.filter_eq_some_iff.mp h).2
    simpa using this
  · exact hm u ps h

/-- Adding the occurrences of a document appends its postings to each term. -/
theorem of_foldl_add (slot : Nat) (u : String) : ∀ (os : List (Field × String)) (m : Postings),
    (os.foldl (fun m (f, t) => m.add t ⟨slot, f⟩) m).of u =
      m.of u ++ ((os.filter (·.2 = u)).map Prod.fst).map (Posting.mk slot)
  | [], m => by simp
  | (f, t) :: os, m => by
      rw [List.foldl_cons, of_foldl_add slot u os, of_add]
      by_cases h : t = u <;> simp [h]

theorem Inhabited.foldl_add (slot : Nat) : ∀ (os : List (Field × String)) {m : Postings},
    m.Inhabited → (os.foldl (fun m (f, t) => m.add t ⟨slot, f⟩) m).Inhabited
  | [], _, hm => hm
  | (_, t) :: os, _, hm => Inhabited.foldl_add slot os (hm.add t _)

/-- Dropping a slot from some terms filters the postings of these terms. -/
theorem of_foldl_dropDoc (slot : Nat) (u : String) : ∀ (ts : List String) (m : Postings),
    (ts.foldl (dropDoc slot) m).of u =
      if u ∈ ts then (m.of u).filter (·.doc ≠ slot) else m.of u
  | [], m => by simp
  | t :: ts, m => by
      rw [List.foldl_cons, of_foldl_dropDoc slot u ts, of_dropDoc]
      by_cases h : t = u
      · subst h
        simp [List.filter_filter]
      · have h' : u ≠ t := fun hu => h hu.symm
        simp [h, h']

theorem Inhabited.foldl_dropDoc (slot : Nat) : ∀ (ts : List String) {m : Postings},
    m.Inhabited → (ts.foldl (Postings.dropDoc slot) m).Inhabited
  | [], _, hm => hm
  | t :: ts, _, hm => Inhabited.foldl_dropDoc slot ts (hm.dropDoc slot t)

/-- A term is kept exactly if it has postings. -/
theorem Inhabited.mem_iff {m : Postings} (hm : m.Inhabited) (t : String) :
    t ∈ m ↔ m.of t ≠ [] := by
  rw [of, Std.ExtTreeMap.getD_eq_getD_getElem?]
  rw [Std.ExtTreeMap.mem_iff_isSome_getElem?]
  cases ht : m[t]? with
  | none => simp
  | some ps => simpa using hm t ps ht

end Postings

/-! ## Runs of equal elements -/

theorem eraseReps_loop (a : Nat) : ∀ (l acc : List Nat),
    List.eraseRepsBy.loop (· == ·) a l acc = acc.reverse ++ List.eraseReps (a :: l)
  | [], acc => by simp [List.eraseReps, List.eraseRepsBy, List.eraseRepsBy.loop]
  | b :: l, acc => by
      rw [List.eraseReps, List.eraseRepsBy, List.eraseRepsBy.loop, List.eraseRepsBy.loop]
      cases a == b with
      | true => exact eraseReps_loop a l acc
      | false =>
          simp only []
          rw [eraseReps_loop b l, eraseReps_loop b l]
          simp

theorem eraseReps_cons_cons (a b : Nat) (l : List Nat) :
    (a :: b :: l).eraseReps =
      if a = b then (a :: l).eraseReps else a :: (b :: l).eraseReps := by
  rw [List.eraseReps, List.eraseRepsBy, List.eraseRepsBy.loop]
  by_cases h : a = b
  · subst h
    rw [beq_self_eq_true, if_pos rfl]
    rfl
  · rw [beq_false_of_ne h, if_neg h]
    exact eraseReps_loop b l [a]

theorem mem_eraseReps {x : Nat} : ∀ {l : List Nat}, x ∈ l.eraseReps ↔ x ∈ l
  | [] => Iff.rfl
  | [a] => Iff.rfl
  | a :: b :: l => by
      rw [eraseReps_cons_cons]
      split
      · rename_i h
        subst h
        rw [mem_eraseReps]
        simp
      · rw [List.mem_cons, mem_eraseReps, ← List.mem_cons]

/-- In an ascending list equal elements stand side by side, so none is left
twice. -/
theorem pairwise_eraseReps : ∀ {l : List Nat}, l.Pairwise (· ≤ ·) →
    l.eraseReps.Pairwise (· < ·)
  | [], _ => List.Pairwise.nil
  | [a], _ => List.pairwise_singleton _ a
  | a :: b :: l, h => by
      rw [eraseReps_cons_cons]
      obtain ⟨ha, hbl⟩ := List.pairwise_cons.mp h
      split
      · rename_i heq
        subst heq
        exact pairwise_eraseReps hbl
      · rename_i hne
        refine List.pairwise_cons.mpr ⟨fun x hx => ?_, pairwise_eraseReps hbl⟩
        have hab : a < b := Nat.lt_of_le_of_ne (ha b List.mem_cons_self) hne
        rcases List.mem_cons.mp (mem_eraseReps.mp hx) with rfl | hx
        · exact hab
        · exact Nat.lt_of_lt_of_le hab ((List.pairwise_cons.mp hbl).1 x hx)

/-! ## The postings of one term -/

namespace Index

/-- The terms of an index come ascending. -/
theorem pairwise_keys (ix : Index) : ix.postings.keys.Pairwise (· < ·) :=
  Std.ExtTreeMap.ordered_keys.imp Text.lt_of_compare_eq_lt

/-- Taking in a document appends its postings to those of each term. -/
theorem postingsOf_insert (ix : Index) {d : Analysed} (hd : d.Sorted) (t : String) :
    (ix.insert d).postingsOf t =
      ix.postingsOf t ++ (d.fieldsWith t).map (Posting.mk ix.docs.size) := by
  rw [← Analysed.occurrences_of_term hd]
  exact Postings.of_foldl_add ix.docs.size t (occurrences d) ix.postings

/-- Removing a document drops the postings in its slot, of the terms that its entry lists. -/
theorem postingsOf_remove_of_entry {ix : Index} {s : Nat} {e : Entry}
    (h : ix.entry? s = some e) (t : String) :
    (ix.remove s).postingsOf t =
      if t ∈ e.terms then (ix.postingsOf t).filter (·.doc ≠ s) else ix.postingsOf t := by
  rw [Index.remove, h]
  exact Postings.of_foldl_dropDoc s t e.terms ix.postings

end Index

/-! ## The invariant -/

/-- The index `ix` holds the documents `ds`, given slot by slot. -/
structure Index.Records (ix : Index) (ds : List (Option Analysed)) : Prop where
  docs : ix.docs.toList = ds.map (Option.map entryOf)
  inhabited : ix.postings.Inhabited
  ordered : ∀ t, (ix.postingsOf t).Pairwise Posting.Before
  mem_postings : ∀ t s f,
    ⟨s, f⟩ ∈ ix.postingsOf t ↔ ∃ d, ds[s]? = some (some d) ∧ t ∈ d.fields.get f
  totals : ∀ f, ix.totals.get f = (ds.reduceOption.map fun d => (d.fields.get f).length).sum
  live : ix.live = ds.reduceOption.length
  sorted : ∀ d ∈ ds.reduceOption, d.Sorted

namespace Index.Records

variable {ix : Index} {ds : List (Option Analysed)}

theorem empty : Index.Records {} [] where
  docs := rfl
  inhabited := by intro t ps h; simp at h
  ordered t := by simp [postingsOf]
  mem_postings t s f := by simp [postingsOf]
  totals f := by cases f <;> rfl
  live := rfl
  sorted d h := by simp at h

theorem size_docs (h : ix.Records ds) : ix.docs.size = ds.length := by
  rw [← Array.length_toList, h.docs, List.length_map]

theorem entry?_eq (h : ix.Records ds) (s : Nat) : ix.entry? s = ds[s]?.join.map entryOf := by
  rw [Index.entry?, ← Array.getElem?_toList, h.docs, List.getElem?_map]
  rcases ds[s]? with _ | _ | d <;> rfl

theorem entry?_eq_some (h : ix.Records ds) {s : Nat} {e : Entry} :
    ix.entry? s = some e ↔ ∃ d, ds[s]? = some (some d) ∧ entryOf d = e := by
  rw [h.entry?_eq, Option.map_eq_some_iff]
  simp only [Option.join_eq_some_iff]

theorem mem_live_of_slot {s : Nat} {d : Analysed} (hs : ds[s]? = some (some d)) :
    d ∈ ds.reduceOption :=
  List.reduceOption_mem_iff.mpr (List.mem_of_getElem? hs)

theorem exists_slot_of_mem_live {d : Analysed} (hd : d ∈ ds.reduceOption) :
    ∃ s : Nat, ds[s]? = some (some d) :=
  List.mem_iff_getElem?.mp (List.reduceOption_mem_iff.mp hd)

/-! ### Taking in a document -/

theorem insert (h : ix.Records ds) {d : Analysed} (hd : d.Sorted) :
    (ix.insert d).Records (ds ++ [some d]) := by
  have hof : ∀ t, (ix.insert d).postingsOf t =
      ix.postingsOf t ++ (d.fieldsWith t).map (Posting.mk ds.length) := by
    intro t
    rw [← h.size_docs]
    exact ix.postingsOf_insert hd t
  have hlive : (ds ++ [some d]).reduceOption = ds.reduceOption ++ [d] := by
    rw [List.reduceOption_append]; rfl
  -- every old posting names a slot that was there before
  have hold : ∀ t, ∀ p ∈ ix.postingsOf t, p.doc < ds.length := by
    intro t ⟨s, f⟩ hp
    obtain ⟨e, hs, -⟩ := (h.mem_postings t s f).mp hp
    exact (List.getElem?_eq_some_iff.mp hs).1
  constructor
  · simp [Index.insert, h.docs]
  · exact h.inhabited.foldl_add _ _
  · intro t
    rw [hof, List.pairwise_append]
    refine ⟨h.ordered t, d.pairwise_fieldsWith t _, fun p hp q hq => ?_⟩
    obtain ⟨f, -, rfl⟩ := List.mem_map.mp hq
    exact Or.inl (hold t p hp)
  · intro t s f
    rw [hof, List.mem_append, h.mem_postings]
    constructor
    · rintro (⟨e, hs, ht⟩ | hnew)
      · have hlt := (List.getElem?_eq_some_iff.mp hs).1
        exact ⟨e, by rw [List.getElem?_append_left hlt, hs], ht⟩
      · obtain ⟨g, hg, heq⟩ := List.mem_map.mp hnew
        obtain ⟨rfl, rfl⟩ := Posting.mk.inj heq
        exact ⟨d, by simp, Analysed.mem_fieldsWith.mp hg⟩
    · rintro ⟨e, hs, ht⟩
      rcases Nat.lt_trichotomy s ds.length with hlt | rfl | hgt
      · exact Or.inl ⟨e, by rwa [List.getElem?_append_left hlt] at hs, ht⟩
      · obtain rfl : d = e := by simpa using hs
        exact Or.inr (List.mem_map.mpr ⟨f, Analysed.mem_fieldsWith.mpr ht, rfl⟩)
      · rw [List.getElem?_eq_none (by simp; omega)] at hs
        cases hs
  · intro f
    rw [hlive]
    simp [Index.insert, h.totals]
  · rw [hlive]
    simp [Index.insert, h.live]
  · intro e he
    rw [hlive, List.mem_append, List.mem_singleton] at he
    rcases he with he | rfl
    · exact h.sorted e he
    · exact hd

/-! ### Removing a slot -/

/-- What is live before and after the value of slot `s` is taken out. -/
theorem reduceOption_set_none {α : Type} {ds : List (Option α)} {s : Nat} {d : α}
    (hs : ds[s]? = some (some d)) :
    ∃ as bs, ds.reduceOption = as ++ d :: bs ∧ (ds.set s none).reduceOption = as ++ bs := by
  obtain ⟨hlt, hget⟩ := List.getElem?_eq_some_iff.mp hs
  refine ⟨(ds.take s).reduceOption, (ds.drop (s + 1)).reduceOption, ?_, ?_⟩
  · conv_lhs => rw [← List.take_append_drop s ds, List.drop_eq_getElem_cons hlt, hget]
    rw [List.reduceOption_append, List.reduceOption_cons_of_some]
  · rw [List.set_eq_take_append_cons_drop, if_pos hlt, List.reduceOption_append,
      List.reduceOption_cons_of_none]

/-- Removing a document drops the postings in its slot. -/
theorem postingsOf_remove (h : ix.Records ds) {s : Nat} {d : Analysed}
    (hs : ds[s]? = some (some d)) (t : String) :
    (ix.remove s).postingsOf t = (ix.postingsOf t).filter (·.doc ≠ s) := by
  have hdrop := postingsOf_remove_of_entry (h.entry?_eq_some.mpr ⟨d, hs, rfl⟩) t
  rw [hdrop]
  split
  · rfl
  · -- a term that the entry does not list has no posting in the slot
    rename_i hnot
    refine (List.filter_eq_self.mpr ?_).symm
    rintro ⟨s', f⟩ hp
    rw [decide_eq_true_eq]
    rintro rfl
    obtain ⟨e, hs', ht⟩ := (h.mem_postings t s' f).mp hp
    obtain rfl : d = e := by simpa [hs] using hs'
    exact hnot (Analysed.mem_terms_entryOf.mpr ⟨f, ht⟩)

theorem remove (h : ix.Records ds) {s : Nat} {d : Analysed} (hs : ds[s]? = some (some d)) :
    (ix.remove s).Records (ds.set s none) := by
  have hentry : ix.entry? s = some (entryOf d) := h.entry?_eq_some.mpr ⟨d, hs, rfl⟩
  have hlt : s < ds.length := (List.getElem?_eq_some_iff.mp hs).1
  obtain ⟨as, bs, hlive, hlive'⟩ := reduceOption_set_none hs
  constructor
  · rw [Index.remove, hentry]
    simp [h.docs, List.map_set]
  · rw [Index.remove, hentry]
    exact h.inhabited.foldl_dropDoc _ _
  · intro t
    rw [h.postingsOf_remove hs]
    exact (h.ordered t).filter _
  · intro t s' f
    rw [h.postingsOf_remove hs, List.mem_filter, h.mem_postings, decide_eq_true_eq]
    by_cases heq : s' = s
    · subst heq
      simp [hlt]
    · have hne : s ≠ s' := fun hh => heq hh.symm
      simp [heq, hne]
  · intro f
    have htot := h.totals f
    rw [hlive] at htot
    rw [Index.remove, hentry, hlive', PerField.get_of]
    simp only [entryOf, PerField.get_of]
    simp only [List.map_append, List.map_cons, List.sum_append, List.sum_cons] at htot ⊢
    omega
  · have hl := h.live
    rw [hlive] at hl
    rw [Index.remove, hentry, hlive']
    simp only [List.length_append, List.length_cons] at hl ⊢
    omega
  · intro e he
    refine h.sorted e ?_
    rw [hlive'] at he
    rw [hlive]
    rcases List.mem_append.mp he with he | he
    · exact List.mem_append_left _ he
    · exact List.mem_append_right _ (List.mem_cons_of_mem _ he)

/-! ### What the ranking reads -/

/-- The postings of a term in one slot: the fields of its document that have
the term. -/
theorem filter_postingsOf (h : ix.Records ds) (t : String) (s : Nat) :
    (ix.postingsOf t).filter (·.doc = s) =
      (ds[s]?.join.elim [] (·.fieldsWith t)).map (Posting.mk s) := by
  refine ((h.ordered t).filter _).eq_of_mem_iff ?_ ?_
  · cases ds[s]?.join with
    | none => exact List.Pairwise.nil
    | some d => exact d.pairwise_fieldsWith t s
  · rintro ⟨s', f⟩
    rw [List.mem_filter, h.mem_postings, decide_eq_true_eq, List.mem_map]
    constructor
    · rintro ⟨⟨d, hs, ht⟩, rfl⟩
      exact ⟨f, by simpa [hs] using Analysed.mem_fieldsWith.mpr ht, rfl⟩
    · rintro ⟨g, hg, heq⟩
      obtain ⟨rfl, rfl⟩ := Posting.mk.inj heq
      cases hs : ds[s]?.join with
      | none => rw [hs] at hg; cases hg
      | some d =>
          rw [hs] at hg
          exact ⟨⟨d, Option.join_eq_some_iff.mp hs, Analysed.mem_fieldsWith.mp hg⟩, rfl⟩

/-- The kept terms are those of the live documents. -/
theorem mem_postings_iff (h : ix.Records ds) (t : String) :
    t ∈ ix.postings ↔ ∃ d ∈ ds.reduceOption, d.Has t := by
  rw [h.inhabited.mem_iff, ← List.length_pos_iff, List.length_pos_iff_exists_mem]
  constructor
  · rintro ⟨⟨s, f⟩, hp⟩
    obtain ⟨d, hs, ht⟩ := (h.mem_postings t s f).mp hp
    exact ⟨d, mem_live_of_slot hs, f, ht⟩
  · rintro ⟨d, hd, f, ht⟩
    obtain ⟨s, hs⟩ := exists_slot_of_mem_live hd
    exact ⟨⟨s, f⟩, (h.mem_postings t s f).mpr ⟨d, hs, ht⟩⟩

theorem mem_keys (h : ix.Records ds) (t : String) :
    t ∈ ix.postings.keys ↔ ∃ d ∈ ds.reduceOption, d.Has t := by
  rw [Std.ExtTreeMap.mem_keys, h.mem_postings_iff]

/-- The slots whose document has a property, and the live documents that have
it, are equally many. -/
theorem length_filter_slots (p : Analysed → Bool) : ∀ ds : List (Option Analysed),
    ((List.range ds.length).filter fun s => ds[s]?.join.any p).length =
      (ds.reduceOption.filter p).length := by
  intro ds
  induction ds using List.reverseRecOn with
  | nil => rfl
  | append_singleton ds x ih =>
      have hold : (List.range ds.length).filter (fun s => (ds ++ [x])[s]?.join.any p) =
          (List.range ds.length).filter (fun s => ds[s]?.join.any p) := by
        refine List.filter_congr fun s hs => ?_
        rw [List.getElem?_append_left (List.mem_range.mp hs)]
      rw [List.length_append, List.length_singleton, List.range_succ, List.filter_append,
        List.length_append, hold, ih, List.reduceOption_append, List.filter_append,
        List.length_append]
      congr 1
      cases x with
      | none => simp
      | some d => cases hd : p d <;> simp [List.reduceOption, hd]

instance (d : Analysed) (t : String) : Decidable (d.Has t) :=
  decidable_of_iff (∃ f ∈ Field.all, t ∈ d.fields.get f)
    ⟨fun ⟨f, _, h⟩ => ⟨f, h⟩, fun ⟨f, h⟩ => ⟨f, f.mem_all, h⟩⟩

/-- The document frequency of a term counts the live documents that have it. -/
theorem docFreq_eq (h : ix.Records ds) (t : String) :
    ix.docFreq t = (ds.reduceOption.filter (·.Has t)).length := by
  rw [← length_filter_slots, Index.docFreq]
  congr 1
  refine List.Pairwise.eq_of_mem_iff (r := (· < ·)) (pairwise_eraseReps ?_)
    (List.pairwise_lt_range.filter _) fun s => ?_
  · rw [List.pairwise_map]
    exact (h.ordered t).imp fun hpq => hpq.elim Nat.le_of_lt fun heq => Nat.le_of_eq heq.1
  · rw [mem_eraseReps, List.mem_map, List.mem_filter, List.mem_range]
    constructor
    · rintro ⟨⟨s', f⟩, hp, rfl⟩
      obtain ⟨d, hs, ht⟩ := (h.mem_postings t s' f).mp hp
      exact ⟨(List.getElem?_eq_some_iff.mp hs).1, by simpa [hs] using ⟨f, ht⟩⟩
    · rintro ⟨-, hs⟩
      obtain ⟨d, hd, ht⟩ := (Option.any_eq_true _ _).mp hs
      obtain ⟨f, hf⟩ := of_decide_eq_true ht
      exact ⟨⟨s, f⟩, (h.mem_postings t s f).mpr ⟨d, Option.join_eq_some_iff.mp hd, hf⟩, rfl⟩

end Index.Records

end VaultSearch

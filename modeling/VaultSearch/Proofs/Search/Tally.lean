import VaultSearch.Proofs.Index.Records
import VaultSearch.Search

/-!
# Tallies, document by document

A search keeps its tallies in maps keyed by slot. What it finds out about
one document depends on that document and on the counts of the index
alone: `tallyOf` computes it for one query term and `jointTally` for all
of them, without slots. `getElem?_combinedTallies` says that the maps
hold just these tallies, and `hits_perm` that the hits are those of the
live documents.
-/

namespace VaultSearch

/-- A map names a slot at most once. -/
theorem filter_toList {β : Type} (m : Std.TreeMap Nat β) (slot : Nat) :
    m.toList.filter (fun y => decide (y.1 = slot)) =
      (m[slot]?.map fun b => (slot, b)).toList := by
  have hnd : m.toList.Nodup :=
    Std.TreeMap.distinct_keys_toList.imp fun hne heq =>
      hne (by rw [heq]; exact Std.ReflCmp.compare_self)
  cases hm : m[slot]? with
  | none =>
      refine List.filter_eq_nil_iff.mpr fun y hy hslot => ?_
      have hmem : (slot, y.2) ∈ m.toList := of_decide_eq_true hslot ▸ hy
      rw [Std.TreeMap.mem_toList_iff_getElem?_eq_some, hm] at hmem
      cases hmem
  | some b =>
      refine List.perm_singleton.mp
        ((List.perm_ext_iff_of_nodup (hnd.filter _) (List.nodup_singleton _)).mpr ?_)
      rintro ⟨k, v⟩
      rw [List.mem_filter, Std.TreeMap.mem_toList_iff_getElem?_eq_some, decide_eq_true_eq,
        List.mem_singleton, Prod.mk.injEq]
      constructor
      · rintro ⟨hv, rfl⟩
        exact ⟨rfl, Option.some.inj (hv.symm.trans hm)⟩
      · rintro ⟨rfl, rfl⟩
        exact ⟨hm, rfl⟩

/-- Looking up a slot after a fold is a fold over what the slot holds. -/
theorem getElem?_foldl {α β : Type} (slot : Nat) (g : Std.TreeMap Nat β → α → Std.TreeMap Nat β)
    (u : Option β → α → Option β) (hgu : ∀ m a, (g m a)[slot]? = u m[slot]? a)
    (l : List α) (m : Std.TreeMap Nat β) : (l.foldl g m)[slot]? = l.foldl u m[slot]? :=
  (List.foldl_hom (fun m : Std.TreeMap Nat β => m[slot]?) fun m a => (hgu m a).symm).symm

variable {S : Type} [Score S]

/-- Count the occurrences of one reached term in a document. -/
def countTerm (ix : Index) (s : SearchSettings) (q : String) (d : Analysed)
    (tally : Option (Tally S)) (reached : String × S) : Option (Tally S) :=
  (d.fieldsWith reached.1).foldl (fun tally f =>
    some (Tally.count q reached.1
      (postingScore ix s reached.2 (idf ix.live (ix.docFreq reached.1)) (Index.entryOf d) f)
      tally)) tally

/-- What the query term `q`, which reaches the terms `reached`, finds out about a
document; `none` if the document has none of them. -/
def tallyOf (ix : Index) (s : SearchSettings) (q : String) (reached : List (String × S))
    (d : Analysed) : Option (Tally S) :=
  reached.foldl (countTerm ix s q d) none

/-- The tallies of one document for two groups of query terms, together. -/
def joinTallies (mode : Combine) (a b : Option (Tally S)) : Option (Tally S) :=
  match mode with
  | .and => a.bind fun x => b.map x.merge
  | .or => match b with
    | none => a
    | some y => some ((a.getD .zero).merge y)

/-- The tallies of one document for all query terms, together. -/
def jointTally (mode : Combine) (tally : String → Option (Tally S)) :
    List String → Option (Tally S)
  | [] => none
  | q :: qs => qs.foldl (fun acc q => joinTallies mode acc (tally q)) (tally q)

/-! ## Look-up in the maps of a search -/

theorem getElem?_combineTallies (mode : Combine) (a b : Tallies S) (slot : Nat) :
    (combineTallies mode a b)[slot]? = joinTallies mode a[slot]? b[slot]? := by
  cases mode with
  | and => exact Std.TreeMap.getElem?_filterMap'
  | or =>
      simp only [combineTallies, Std.TreeMap.foldl_eq_foldl_toList]
      rw [getElem?_foldl slot _ fun acc y => if decide (y.1 = slot) = true
        then some ((acc.getD Tally.zero).merge y.2) else acc]
      · rw [← List.foldl_filter, filter_toList]
        cases b[slot]? <;> rfl
      · intro m y
        rw [Std.TreeMap.getElem?_alter]
        by_cases hy : y.1 = slot <;> simp [hy]

omit [Score S] in
/-- Counting the postings of a term changes the tally of a slot by the postings
in that slot: one for each field of its document that has the term. -/
theorem getElem?_foldl_postings {ix : Index} {ds : List (Option Analysed)} (h : ix.Records ds)
    (only : Option Nat) (slot : Nat) (t : String)
    (g : Entry → Field → Option (Tally S) → Tally S) (m : Tallies S) :
    ((ix.postingsOf t).foldl (fun m p =>
      if only.any (· ≠ p.doc) then m
      else match ix.entry? p.doc with
        | none => m
        | some e => m.alter p.doc fun tally => some (g e p.field tally)) m)[slot]? =
      if only.any (· ≠ slot) then m[slot]?
      else ds[slot]?.join.elim m[slot]? fun d =>
        (d.fieldsWith t).foldl (fun tally f => some (g (Index.entryOf d) f tally)) m[slot]? := by
  rw [getElem?_foldl slot _ fun acc p =>
    if decide (p.doc = slot) = true then
      (if only.any (· ≠ slot) then acc
        else (ix.entry? slot).elim acc fun e => some (g e p.field acc))
    else acc]
  · rw [← List.foldl_filter, h.filter_postingsOf, List.foldl_map, h.entry?_eq]
    cases only.any (· ≠ slot) with
    | true => simp
    | false => cases ds[slot]?.join <;> rfl
  · intro m p
    by_cases hp : p.doc = slot
    · subst hp
      simp only [decide_true, if_true]
      split
      · rfl
      · cases ix.entry? p.doc with
        | none => rfl
        | some e => simp
    · simp only [hp, decide_false, Bool.false_eq_true, if_false]
      split
      · rfl
      · cases ix.entry? p.doc with
        | none => rfl
        | some e => simp [Std.TreeMap.getElem?_alter, hp]

/-- The tally of a slot is that of its document. With `only` the other slots have
none. -/
theorem getElem?_termTallies {ix : Index} {ds : List (Option Analysed)} (h : ix.Records ds)
    (o : SearchOptions) (s : SearchSettings) (only : Option Nat) (q : String) (slot : Nat) :
    (termTallies (S := S) ix o s only q)[slot]? =
      if only.any (· ≠ slot) then none
      else ds[slot]?.join.bind (tallyOf ix s q (expand ix o s q)) := by
  rw [termTallies, getElem?_foldl slot _ fun acc reached =>
    if only.any (· ≠ slot) then acc
    else ds[slot]?.join.elim acc fun d => countTerm ix s q d acc reached]
  · cases only.any (· ≠ slot) with
    | true => simp
    | false =>
        cases ds[slot]?.join with
        | none => simp
        | some d => simp [tallyOf]
  · rintro m ⟨t, w⟩
    exact getElem?_foldl_postings h only slot t (fun e f tally => Tally.count q t
      (postingScore ix s w (idf ix.live (ix.docFreq t)) e f) tally) m

theorem getElem?_combinedTallies (ix : Index) (o : SearchOptions) (s : SearchSettings)
    (only : Option Nat) (terms : List String) (slot : Nat) :
    (combinedTallies (S := S) ix o s only terms)[slot]? =
      jointTally o.combineWith (fun q => (termTallies ix o s only q)[slot]?) terms := by
  cases terms with
  | nil => simp [combinedTallies, jointTally]
  | cons q qs =>
      exact getElem?_foldl slot _ _
        (fun m q => getElem?_combineTallies o.combineWith m (termTallies ix o s only q) slot) qs _

/-! ## Hits -/

/-- The hit of one document, if the query terms reach it together. -/
def hitOf (ix : Index) (o : SearchOptions) (s : SearchSettings) (terms : List String)
    (d : Analysed) : Option (Hit S) :=
  (jointTally o.combineWith (fun q => tallyOf ix s q (expand ix o s q) d) terms).map
    (Tally.toHit d.path)

theorem path_of_hitOf {ix : Index} {o : SearchOptions} {s : SearchSettings}
    {terms : List String} {d : Analysed} {hit : Hit S} (h : hitOf ix o s terms d = some hit) :
    hit.path = d.path := by
  obtain ⟨tally, -, rfl⟩ := Option.map_eq_some_iff.mp h
  rfl

theorem jointTally_none (mode : Combine) (terms : List String) :
    jointTally (S := S) mode (fun _ => none) terms = none := by
  cases terms with
  | nil => rfl
  | cons q qs =>
      rw [jointTally]
      induction qs with
      | nil => rfl
      | cons r rs ih => rw [List.foldl_cons]; cases mode <;> exact ih

variable {ix : Index} {ds : List (Option Analysed)}

/-- With `only` the other slots have no tally, whatever index it is. -/
theorem getElem?_termTallies_of_only (ix : Index) (o : SearchOptions) (s : SearchSettings)
    {only : Option Nat} (q : String) {slot : Nat} (honly : only.any (· ≠ slot)) :
    (termTallies (S := S) ix o s only q)[slot]? = none := by
  rw [termTallies, getElem?_foldl slot _ fun acc _ => acc]
  · simp
  · rintro m ⟨t, w⟩
    rw [getElem?_foldl slot _ fun acc _ => acc]
    · simp
    · intro m p
      split
      · rfl
      · rename_i hp
        have hne : p.doc ≠ slot := by
          rintro rfl
          exact hp honly
        cases ix.entry? p.doc with
        | none => rfl
        | some e => simp [Std.TreeMap.getElem?_alter, hne]

/-- A hit is that of an entry of the index, with `only` of the entry in this slot. -/
theorem exists_entry_of_mem_hits {o : SearchOptions} {s : SearchSettings} {only : Option Nat}
    {terms : List String} {hit : Hit S} (h : hit ∈ hits ix o s only terms) :
    ∃ slot entry, ix.entry? slot = some entry ∧ entry.path = hit.path ∧
      only.any (· ≠ slot) = false := by
  obtain ⟨⟨slot, tally⟩, htally, hhit⟩ := List.mem_filterMap.mp h
  obtain ⟨entry, hentry, rfl⟩ := Option.map_eq_some_iff.mp hhit
  refine ⟨slot, entry, hentry, rfl, ?_⟩
  by_contra honly
  rw [Std.TreeMap.mem_toList_iff_getElem?_eq_some, getElem?_combinedTallies] at htally
  simp only [getElem?_termTallies_of_only _ _ _ _ (Bool.eq_true_of_not_eq_false honly),
    jointTally_none] at htally
  cases htally

theorem mem_hits (h : ix.Records ds) (o : SearchOptions) (s : SearchSettings)
    (only : Option Nat) (terms : List String) (hit : Hit S) :
    hit ∈ hits ix o s only terms ↔
      ∃ (slot : Nat) (d : Analysed), ds[slot]? = some (some d) ∧ only.any (· ≠ slot) = false ∧
        hitOf ix o s terms d = some hit := by
  simp only [hits, List.mem_filterMap, Prod.exists, Std.TreeMap.mem_toList_iff_getElem?_eq_some,
    getElem?_combinedTallies, getElem?_termTallies h, h.entry?_eq]
  constructor
  · rintro ⟨slot, tally, htally, hhit⟩
    cases hd : ds[slot]?.join with
    | none => rw [hd] at hhit; cases hhit
    | some d =>
        rw [hd] at hhit htally
        cases honly : only.any (· ≠ slot) with
        | true =>
            rw [honly] at htally
            simp only [if_true, jointTally_none] at htally
            cases htally
        | false =>
            rw [honly] at htally
            refine ⟨slot, d, Option.join_eq_some_iff.mp hd, honly, ?_⟩
            rw [hitOf]
            simp only [Bool.false_eq_true, if_false, Option.bind_some] at htally
            rw [htally]
            exact hhit
  · rintro ⟨slot, d, hd, honly, hhit⟩
    obtain ⟨tally, htally, rfl⟩ := Option.map_eq_some_iff.mp hhit
    refine ⟨slot, tally, ?_, ?_⟩
    · rw [hd, honly]
      exact htally
    · rw [hd]
      rfl

/-- No path is held in two slots. -/
def DistinctPaths (ds : List (Option Analysed)) : Prop :=
  ∀ (s s' : Nat) (d d' : Analysed), ds[s]? = some (some d) → ds[s']? = some (some d') →
    d.path = d'.path → s = s'

theorem DistinctPaths.nodup (hds : DistinctPaths ds) :
    (ds.reduceOption.map Analysed.path).Nodup := by
  rw [List.Nodup, List.pairwise_map, List.reduceOption, List.pairwise_filterMap,
    List.pairwise_iff_getElem]
  intro i j hi hj hij d hd d' hd' heq
  have hi' : ds[i]? = some (some d) := by rw [List.getElem?_eq_getElem hi]; exact congrArg some hd
  have hj' : ds[j]? = some (some d') := by
    rw [List.getElem?_eq_getElem hj]; exact congrArg some hd'
  exact absurd (hds i j d d' hi' hj' heq) (Nat.ne_of_lt hij)

theorem nodup_paths_hits (h : ix.Records ds) (hds : DistinctPaths ds) (o : SearchOptions)
    (s : SearchSettings) (only : Option Nat) (terms : List String) :
    ((hits (S := S) ix o s only terms).map Hit.path).Nodup := by
  rw [List.Nodup, List.pairwise_map, hits, List.pairwise_filterMap]
  refine Std.TreeMap.distinct_keys_toList.imp fun {a b} hne hit hhit hit' hhit' heq => hne ?_
  obtain ⟨e, he, rfl⟩ := Option.map_eq_some_iff.mp hhit
  obtain ⟨e', he', rfl⟩ := Option.map_eq_some_iff.mp hhit'
  obtain ⟨d, hd, rfl⟩ := h.entry?_eq_some.mp he
  obtain ⟨d', hd', rfl⟩ := h.entry?_eq_some.mp he'
  rw [hds a.1 b.1 d d' hd hd' heq]
  exact Std.ReflCmp.compare_self

/-- The hits are those of the live documents. -/
theorem hits_perm (h : ix.Records ds) (hds : DistinctPaths ds) (o : SearchOptions)
    (s : SearchSettings) (terms : List String) :
    (hits (S := S) ix o s none terms).Perm (ds.reduceOption.filterMap (hitOf ix o s terms)) := by
  have hnd : ((ds.reduceOption.filterMap (hitOf (S := S) ix o s terms)).map Hit.path).Nodup := by
    rw [List.Nodup, List.pairwise_map, List.pairwise_filterMap]
    refine (List.pairwise_map.mp hds.nodup).imp fun {a b} hne hit hhit hit' hhit' heq => hne ?_
    rw [← path_of_hitOf hhit, ← path_of_hitOf hhit', heq]
  refine (List.perm_ext_iff_of_nodup (List.Nodup.of_map _ (nodup_paths_hits h hds o s none terms))
    (List.Nodup.of_map _ hnd)).mpr fun hit => ?_
  rw [mem_hits h, List.mem_filterMap]
  constructor
  · rintro ⟨slot, d, hd, -, hhit⟩
    exact ⟨d, Index.Records.mem_live_of_slot hd, hhit⟩
  · rintro ⟨d, hd, hhit⟩
    obtain ⟨slot, hslot⟩ := Index.Records.exists_slot_of_mem_live hd
    exact ⟨slot, d, hslot, rfl, hhit⟩

/-- The hits within one slot: that of its document. -/
theorem hits_of_slot (h : ix.Records ds) (hds : DistinctPaths ds) (o : SearchOptions)
    (s : SearchSettings) (slot : Nat) (terms : List String) :
    hits (S := S) ix o s (some slot) terms =
      (ds[slot]?.join.bind (hitOf ix o s terms)).toList := by
  have hmem : ∀ hit, hit ∈ hits (S := S) ix o s (some slot) terms ↔
      ds[slot]?.join.bind (hitOf ix o s terms) = some hit := by
    intro hit
    rw [mem_hits h, Option.bind_eq_some_iff]
    constructor
    · rintro ⟨slot', d, hd, honly, hhit⟩
      obtain rfl : slot = slot' := by simpa using honly
      exact ⟨d, Option.join_eq_some_iff.mpr hd, hhit⟩
    · rintro ⟨d, hd, hhit⟩
      exact ⟨slot, d, Option.join_eq_some_iff.mp hd, by simp, hhit⟩
  have hnd := List.Nodup.of_map _ (nodup_paths_hits (S := S) h hds o s (some slot) terms)
  cases hone : ds[slot]?.join.bind (hitOf (S := S) ix o s terms) with
  | none =>
      refine List.eq_nil_iff_forall_not_mem.mpr fun hit hh => ?_
      rw [hmem, hone] at hh
      cases hh
  | some hit =>
      refine List.perm_singleton.mp
        ((List.perm_ext_iff_of_nodup hnd (List.nodup_singleton hit)).mpr fun hit' => ?_)
      rw [hmem, hone, Option.some.injEq, List.mem_singleton, eq_comm]

end VaultSearch

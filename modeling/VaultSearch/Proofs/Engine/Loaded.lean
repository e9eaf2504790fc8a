import VaultSearch.Proofs.Engine.Coherence
import VaultSearch.Proofs.Engine.OwnWords
import VaultSearch.Proofs.Engine.Tidy

/-!
# Engines that have loaded any snapshot

A load checks an index that it reads in two respects: the number of live
documents is the one it says, and every posting is in the slot of one. It
does not ask whether the live documents have distinct paths, and a
snapshot that no engine wrote may list a path twice. `Index.livePaths` is
the list of them. The slot table has each path once, so that it agrees
with the count that a load reports exactly if no path is listed twice, and
a deletion takes one document out, so that a path is gone afterwards
exactly if it was listed no more than once (`load_coherent_iff`).
-/

namespace VaultSearch

/-! ## The paths of an index -/

/-- The paths of the live documents of an index, in the order of their slots. -/
def Index.livePaths (ix : Index) : List String := ix.entries.map Entry.path

theorem Index.mem_livePaths {ix : Index} {p : String} :
    p ∈ ix.livePaths ↔ ∃ slot entry, ix.entry? slot = some entry ∧ entry.path = p := by
  rw [livePaths, List.mem_map]
  simp only [entries, List.reduceOption_mem_iff, List.mem_iff_getElem? (l := ix.docs.toList),
    Array.getElem?_toList, entry?, Option.join_eq_some_iff]
  constructor
  · rintro ⟨entry, ⟨slot, hentry⟩, hp⟩
    exact ⟨slot, entry, hentry, hp⟩
  · rintro ⟨slot, entry, hentry, hp⟩
    exact ⟨entry, ⟨slot, hentry⟩, hp⟩

theorem Index.length_livePaths_of_check {ix : Index} (h : ix.check = .ok ()) :
    ix.livePaths.length = ix.live := by
  rw [check] at h
  split at h
  · cases h
  · rename_i hlive
    rw [livePaths, List.length_map, entries, List.reduceOption_length_eq, ← Array.toList_filter,
      Array.length_toList]
    exact not_not.mp hlive

/-- Removing a document takes its path out of the list once. -/
theorem Index.livePaths_remove {ix : Index} {slot : Nat} {entry : Entry}
    (h : ix.entry? slot = some entry) :
    ix.livePaths.Perm (entry.path :: (ix.remove slot).livePaths) := by
  have hslot : ix.docs.toList[slot]? = some (some entry) := by
    rw [Array.getElem?_toList]
    exact Option.join_eq_some_iff.mp h
  have hdocs : (ix.remove slot).docs.toList = ix.docs.toList.set slot none := by
    rw [remove, h, Array.toList_setIfInBounds]
  obtain ⟨as, bs, hlive, hlive'⟩ := Records.reduceOption_set_none hslot
  rw [livePaths, entries, hlive, livePaths, entries, hdocs, hlive', List.map_append,
    List.map_append, List.map_cons]
  exact List.perm_middle

/-- The slot table of an index has the paths of its live documents. -/
theorem Engine.mem_slotsOf {ix : Index} {p : String} : p ∈ slotsOf ix ↔ p ∈ ix.livePaths := by
  constructor
  · intro hp
    rw [Std.TreeMap.mem_iff_isSome_getElem?, Option.isSome_iff_exists] at hp
    obtain ⟨slot, hslot⟩ := hp
    obtain ⟨entry, hentry, hpath⟩ := entry?_of_slotsOf hslot
    exact Index.mem_livePaths.mpr ⟨slot, entry, hentry, hpath⟩
  · intro hp
    obtain ⟨slot, entry, hentry, rfl⟩ := Index.mem_livePaths.mp hp
    exact mem_slotsOf_of_entry? hentry

theorem Engine.size_slotsOf (ix : Index) : (slotsOf ix).size = ix.livePaths.dedup.length := by
  rw [← Std.TreeMap.length_keys]
  refine ((List.perm_ext_iff_of_nodup (Text.nodup_keys _) (List.nodup_dedup _)).mpr
    fun p => ?_).length_eq
  rw [Std.TreeMap.mem_keys, List.mem_dedup, mem_slotsOf]

namespace Engine

variable {e : Engine} {S : Type} [Score S]

/-! ## Deletions -/

theorem index_delete_of_none {p : String} (h : e.slots[p]? = none) :
    (e.delete [p]).1.index = e.index := by
  rw [delete, List.foldl_cons, List.foldl_nil, deleteOne]
  simp only [h]
  rfl

theorem index_delete_of_some {p : String} {slot : Nat} (h : e.slots[p]? = some slot) :
    (e.delete [p]).1.index = e.index.remove slot := by
  rw [delete, List.foldl_cons, List.foldl_nil, deleteOne]
  simp only [h]
  cases e.index.entry? slot <;> rfl

/-- A path is gone after its deletion unless it was listed twice. -/
theorem Tidy.mem_livePaths_delete_iff (h : e.Tidy) {p : String}
    (hslots : p ∈ e.slots ↔ p ∈ e.index.livePaths) :
    p ∈ (e.delete [p]).1.index.livePaths ↔ 1 < e.index.livePaths.count p := by
  cases hslot : e.slots[p]? with
  | none =>
      have hnot : p ∉ e.index.livePaths := by
        rw [← hslots, Std.TreeMap.mem_iff_isSome_getElem?, hslot]
        exact Bool.false_ne_true
      rw [index_delete_of_none hslot, List.count_eq_zero_of_not_mem hnot]
      exact iff_of_false hnot (Nat.not_lt_zero 1)
  | some slot =>
      obtain ⟨entry, hentry, rfl⟩ := h.aligned p slot hslot
      rw [index_delete_of_some hslot, (Index.livePaths_remove hentry).count_eq,
        List.count_cons_self, Nat.lt_add_left_iff_pos, List.count_pos_iff]

/-! ## Hits -/

/-- What is found has the path of a live document. -/
theorem path_mem_livePaths_of_mem_search {text : String} {o : SearchOptions}
    {hits : List (Hit S)} (h : e.search text o = .ok hits) {hit : Hit S} (hmem : hit ∈ hits) :
    hit.path ∈ e.index.livePaths := by
  rw [search] at h
  split at h
  · cases h
  · obtain rfl := Except.ok.inj h
    obtain ⟨slot, entry, hentry, hpath, -⟩ :=
      exists_entry_of_mem_hits (List.mem_mergeSort.mp (List.mem_of_mem_take hmem))
    exact Index.mem_livePaths.mpr ⟨slot, entry, hentry, hpath⟩

/-- What is found within a path has this path. -/
theorem Tidy.path_of_matchDocument (h : e.Tidy) {p text : String} {o : SearchOptions}
    {hit : Hit S} (hmatch : e.matchDocument p text o = .ok (some hit)) :
    e.contains p ∧ hit.path = p := by
  rw [matchDocument] at hmatch
  split at hmatch
  · cases hmatch
  · obtain ⟨slot, hslot, hhead⟩ := Option.bind_eq_some_iff.mp (Except.ok.inj hmatch)
    obtain ⟨slot', entry, hentry, hpath, honly⟩ := exists_entry_of_mem_hits
      (List.mem_mergeSort.mp (List.mem_of_mem_take (List.mem_of_head? hhead)))
    obtain rfl : slot = slot' := by simpa using honly
    obtain ⟨entry', hentry', hp⟩ := h.aligned p slot hslot
    obtain rfl := Option.some.inj (hentry.symm.trans hentry')
    refine ⟨?_, hpath.symm.trans hp⟩
    rw [contains, Std.TreeMap.contains_eq_isSome_getElem?, hslot]
    rfl

theorem Tidy.not_contains_delete (h : e.Tidy) (p : String) : ¬(e.delete [p]).1.contains p := by
  rw [contains_eq_isSome_held, h.held_delete]
  simp [Holdings.erase]

/-! ## Loads -/

/-- Whatever snapshot is loaded, the count that is reported is that of the documents in the
statistics. It is that of the paths in the slot table exactly if no path is listed twice, and a
path is gone after its deletion exactly if it is not. No search finds a path that is gone, and
none within a path finds a deleted one. -/
theorem load_coherent_iff (S : Type) [Score S] {e e' : Engine} {blob : List UInt8} {n : Nat}
    (h : e.load blob = (e', .ok n)) :
    n = e'.stats.documents ∧ (n = e'.size ↔ e'.index.livePaths.Nodup) ∧
      ∀ p, (p ∈ (e'.delete [p]).1.index.livePaths ↔ 1 < e'.index.livePaths.count p) ∧
        (e'.index.livePaths.count p ≤ 1 → ∀ text o, ∀ hits : List (Hit S),
          (e'.delete [p]).1.search text o = .ok hits → p ∉ hits.map Hit.path) ∧
        ∀ q text o, ∀ hit : Hit S,
          (e'.delete [p]).1.matchDocument q text o = .ok (some hit) → hit.path ≠ p := by
  have htidy : e'.Tidy := by
    have htidy := tidy_load e blob
    rwa [h] at htidy
  cases hread : e.readSnapshot blob with
  | error r =>
      rw [load_of_error hread] at h
      cases h
  | ok ix =>
      rw [load_of_ok hread] at h
      obtain ⟨rfl, hn⟩ := Prod.mk.inj h
      obtain rfl := Except.ok.inj hn
      have hlen := Index.length_livePaths_of_check (check_of_readSnapshot hread)
      refine ⟨rfl, ?_, fun p => ?_⟩
      · rw [size, size_slotsOf, ← hlen, ← List.dedup_eq_self]
        constructor
        · intro heq
          exact (List.dedup_sublist _).eq_of_length heq.symm
        · intro heq
          rw [heq]
      · have hgone := htidy.mem_livePaths_delete_iff (p := p) mem_slotsOf
        refine ⟨hgone, fun hcount text o hits hsearch hmem => ?_, fun q text o hit hmatch => ?_⟩
        · obtain ⟨hit, hhit, rfl⟩ := List.mem_map.mp hmem
          exact Nat.not_lt.mpr hcount
            (hgone.mp (path_mem_livePaths_of_mem_search hsearch hhit))
        · rintro rfl
          obtain ⟨hcontains, hpath⟩ := (htidy.delete [hit.path]).path_of_matchDocument hmatch
          exact htidy.not_contains_delete hit.path (hpath.symm ▸ hcontains)

/-- A snapshot of two documents is loaded. -/
theorem two_loaded_coherent :
    let e := Engine.new {} none
    let docs := [Document.ofPath "a.md" (some "apple") none,
      Document.ofPath "b.md" (some "apple pie") none]
    ∃ e', e.load (e.add docs).1.serialize = (e', .ok 2) ∧ 2 = e'.size ∧
      e'.index.livePaths.Nodup := by
  intro e docs
  obtain ⟨-, ds, hds, -⟩ := ((Holds.new {} none).add docs).records
  have hread := (readSnapshot_serialize e hds.index).trans (if_pos (by decide +kernel))
  have hlive : (e.add docs).1.index.live = 2 := by decide +kernel
  have hload := load_of_ok hread
  rw [hlive] at hload
  have hsize : 2 = (slotsOf (e.add docs).1.index).size := by decide +kernel
  exact ⟨_, hload, hsize, (load_coherent_iff Float hload).2.1.mp hsize⟩

/-- A snapshot that lists one path twice is accepted, and the path is found after its deletion. -/
theorem listed_twice_outlives_deletion :
    let a := Document.ofPath "a.md" (some "apple") none
    let e := Engine.new {} none
    let loaded := e.load (e.run [.addChunk [a, a]]).serialize
    loaded.2 = .ok 2 ∧ loaded.1.size = 1 ∧ ¬loaded.1.index.livePaths.Nodup ∧
      ∃ hits : List (Hit Float),
        (loaded.1.delete ["a.md"]).1.search "apple" ⟨false, false, .or⟩ = .ok hits ∧
          "a.md" ∈ hits.map Hit.path := by
  intro a e loaded
  let o : SearchOptions := ⟨false, false, .or⟩
  let twice := e.run [.addChunk [a, a]]
  have hsorted := e.sorted_analyse a
  have htwice : twice.index.Records [some (e.analyse a), some (e.analyse a)] :=
    (Index.Records.empty.insert hsorted).insert hsorted
  let read := { e with
    phase := .ready, index := twice.index, slots := slotsOf twice.index, updated := true }
  have hload : loaded = (read, .ok 2) :=
    load_of_ok ((readSnapshot_serialize e htwice).trans (if_pos (by decide +kernel)))
  have hsize : (slotsOf twice.index).size = 1 := by decide +kernel
  rw [hload]
  refine ⟨rfl, hsize, ?_, ?_⟩
  · have hpaths : twice.index.livePaths = ["a.md", "a.md"] := by decide +kernel
    show ¬twice.index.livePaths.Nodup
    rw [hpaths]
    decide
  · let left := (read.delete ["a.md"]).1
    have hslot : read.slots["a.md"]? = some 1 := by decide +kernel
    -- the document in the other slot is still there
    have hrest : left.index.Records [some (e.analyse a), none] := by
      rw [index_delete_of_some hslot]
      exact htwice.remove rfl
    have hfirst : ∀ (s : Nat) (d : Analysed),
        [some (e.analyse a), none][s]? = some (some d) → s = 0 := by
      rintro (_ | _ | s) d h
      · rfl
      · cases h
      · cases h
    have hdistinct : DistinctPaths [some (e.analyse a), none] :=
      fun s s' d d' hs hs' _ => (hfirst s d hs).trans (hfirst s' d' hs').symm
    have hhas : (e.analyse a).Has "apple" := ⟨.content, by decide +kernel⟩
    have hmeets : o.combineWith.Holds ["apple"]
        ((e.analyse a).Meets Float left.index o left.config.search) :=
      ⟨"apple", List.mem_singleton_self _, hrest.meets_of_has (List.mem_singleton_self _) hhas⟩
    obtain ⟨hit, hhit⟩ := Option.isSome_iff_exists.mp
      ((isSome_hitOf_iff (List.cons_ne_nil "apple" [])).mpr hmeets)
    have hterms : left.terms "apple" = ["apple"] := by decide +kernel
    have hhits : left.allHits Float "apple" o = [hit] := by
      have hperm := hits_perm (S := Float) hrest hdistinct o left.config.search ["apple"]
      rw [allHits, hterms]
      refine List.perm_singleton.mp (hperm.trans (.of_eq ?_))
      simp [hhit]
    refine ⟨[hit], ?_, List.mem_singleton.mpr (path_of_hitOf hhit).symm⟩
    have hmax : 1 ≤ left.config.search.maxResults := by decide +kernel
    rw [search_eq (by decide +kernel), hhits, List.mergeSort_singleton]
    exact congrArg Except.ok (List.take_of_length_le hmax)

end Engine

end VaultSearch

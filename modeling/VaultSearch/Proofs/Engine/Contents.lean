import VaultSearch.Proofs.Index.RoundTrip
import VaultSearch.Proofs.Search.Tally

/-!
# What an engine holds

An engine stands for a map from paths to analysed documents. `Contents`
is such a map with the operations that the engine is meant to carry out
on it, and `Engine.Holds c segmenter e M` says that some run of the
engine's operations, from an engine made with `c` and `segmenter`, has
led to `e`, while the same operations on maps have led to `M`.

The link between the two is `Engine.Records`: the index and the slot
table of `e` are those of a list of documents, slot by slot. Each
operation changes this list in a way of its own (`Records.insertAll`,
`Records.deleteAll`, `Records.load`), and `Holds.records` puts the
operations of a run together.
-/

namespace VaultSearch

/-- The analysed fields of the document at each path. -/
abbrev Contents := String → Option (PerField (List String))

namespace Contents

def empty : Contents := fun _ => none

/-- The first document of each path. -/
def ofList (docs : List Analysed) : Contents :=
  fun p => (docs.find? (·.path = p)).map (·.fields)

/-- Take in documents whose path is absent, the first of each path. -/
def add (M : Contents) (docs : List Analysed) : Contents := fun p => (M p).or (ofList docs p)

def erase (M : Contents) (paths : List String) : Contents :=
  fun p => if p ∈ paths then none else M p

/-- The listed paths that are absent, each of them once. -/
def absent (M : Contents) (paths : List String) : List String :=
  (paths.filter fun p => (M p).isNone).eraseDups

/-- The listed paths that are present, each of them once. -/
def present (M : Contents) (paths : List String) : List String :=
  (paths.filter fun p => (M p).isSome).eraseDups

theorem ofList_eq_some {docs : List Analysed} (hnd : (docs.map Analysed.path).Nodup) {p : String}
    {F : PerField (List String)} : ofList docs p = some F ↔ ⟨p, F⟩ ∈ docs := by
  induction docs with
  | nil => simp [ofList]
  | cons d docs ih =>
      obtain ⟨hd, hnd⟩ := List.nodup_cons.mp hnd
      rw [ofList, List.find?_cons]
      by_cases hp : d.path = p
      · have hnot : (⟨p, F⟩ : Analysed) ∉ docs := by
          intro hmem
          exact hd (List.mem_map.mpr ⟨_, hmem, hp.symm⟩)
        subst hp
        simp only [decide_true, Option.map_some, Option.some.injEq, List.mem_cons, hnot, or_false]
        constructor
        · rintro rfl
          rfl
        · intro heq
          rw [← heq]
      · have hne : (⟨p, F⟩ : Analysed) ≠ d := fun heq => hp (by rw [← heq])
        simp only [hp, decide_false, List.mem_cons, hne, false_or]
        exact ih hnd

theorem ofList_append (docs docs' : List Analysed) :
    ofList (docs ++ docs') = (ofList docs).add docs' := by
  funext p
  rw [add, ofList, ofList, ofList, List.find?_append]
  cases docs.find? (·.path = p) <;> rfl

theorem add_nil (M : Contents) : M.add [] = M := by
  funext p
  rw [add]
  cases M p <;> rfl

theorem erase_nil (M : Contents) : M.erase [] = M := by
  funext p
  simp [erase]

theorem erase_cons (M : Contents) (p : String) (paths : List String) :
    M.erase (p :: paths) = (M.erase [p]).erase paths := by
  funext q
  simp only [erase, List.mem_cons, List.not_mem_nil, or_false]
  by_cases hq : q = p <;> simp [hq]

/-- A path that was deleted is not found again further down the list. -/
theorem present_cons (M : Contents) (p : String) (paths : List String) :
    M.present (p :: paths) =
      (if (M p).isSome then [p] else []) ++ (M.erase [p]).present paths := by
  have hrest : paths.filter (fun q => ((M.erase [p]) q).isSome) =
      (paths.filter fun q => (M q).isSome).filter (· ≠ p) := by
    rw [List.filter_filter]
    refine List.filter_congr fun q _ => ?_
    by_cases hq : q = p <;> simp [erase, hq]
  rw [present, present, hrest, List.filter_cons]
  split
  · rw [List.eraseDups_cons, List.singleton_append]
    congr 3
    funext q
    simp [beq_eq_decide]
  · rename_i hp
    have hself : (paths.filter fun q => (M q).isSome).filter (· ≠ p) =
        paths.filter fun q => (M q).isSome := by
      refine List.filter_eq_self.mpr fun q hq => ?_
      rw [decide_eq_true_eq]
      rintro rfl
      exact hp (List.mem_filter.mp hq).2
    rw [List.nil_append, hself]

end Contents

namespace Engine

/-! ## Fresh documents -/

theorem freshDocuments_loop (docs : List Document) : ∀ (seen : String → Bool)
    (taken : Std.TreeSet String) (out : List Document),
    (docs.foldl (fun (acc : Std.TreeSet String × List Document) d =>
      if seen d.path || acc.1.contains d.path then acc
      else (acc.1.insert d.path, d :: acc.2)) (taken, out)).2.reverse =
      out.reverse ++ freshDocuments (fun p => seen p || taken.contains p) docs := by
  induction docs with
  | nil => intro seen taken out; simp [freshDocuments]
  | cons d docs ih =>
      intro seen taken out
      rw [freshDocuments, List.foldl_cons, List.foldl_cons]
      simp only [Std.TreeSet.contains_emptyc, Bool.or_false]
      have hrest := ih fun p => seen p || taken.contains p
      split
      · rw [ih seen, hrest]
        simp
      · rw [ih seen, hrest]
        simp only [List.reverse_cons, List.append_assoc, List.reverse_nil, List.nil_append,
          List.singleton_append]
        congr 3
        funext p
        rw [Std.TreeSet.contains_insert, Std.TreeSet.contains_insert, Std.TreeSet.contains_emptyc,
          Bool.or_false]
        cases seen p <;> cases taken.contains p <;> cases (compare d.path p == .eq) <;> rfl

theorem freshDocuments_cons (seen : String → Bool) (d : Document) (docs : List Document) :
    freshDocuments seen (d :: docs) =
      if seen d.path then freshDocuments seen docs
      else d :: freshDocuments (fun p => seen p || decide (p = d.path)) docs := by
  rw [freshDocuments, List.foldl_cons]
  simp only [Std.TreeSet.contains_emptyc, Bool.or_false]
  split
  · rw [freshDocuments_loop]
    simp
  · rw [freshDocuments_loop]
    simp only [List.reverse_cons, List.reverse_nil, List.nil_append, List.singleton_append]
    congr 2
    funext p
    rw [Std.TreeSet.contains_insert, Std.TreeSet.contains_emptyc, Bool.or_false]
    congr 1
    rw [Bool.eq_iff_iff, beq_iff_eq, compare_eq_iff_eq, decide_eq_true_eq, eq_comm]

/-- The paths of the fresh documents, in the order of the list. -/
theorem paths_freshDocuments (docs : List Document) : ∀ seen : String → Bool,
    (freshDocuments seen docs).map (·.path) =
      ((docs.map (·.path)).filter fun p => !seen p).eraseDups := by
  induction docs with
  | nil => intro seen; rfl
  | cons d docs ih =>
      intro seen
      rw [freshDocuments_cons, List.map_cons, List.filter_cons]
      cases hd : seen d.path with
      | true => simpa using ih seen
      | false =>
          simp only [Bool.false_eq_true, if_false, Bool.not_false, if_true]
          rw [List.map_cons, ih, List.eraseDups_cons, List.filter_filter]
          congr 3
          funext p
          rw [Bool.not_or, Bool.and_comm, beq_eq_decide]

theorem nodup_eraseDups : ∀ l : List String, l.eraseDups.Nodup
  | [] => List.nodup_nil
  | p :: l => by
      rw [List.eraseDups_cons, List.nodup_cons, List.mem_eraseDups]
      exact ⟨by simp, nodup_eraseDups _⟩
termination_by l => l.length
decreasing_by
  exact Nat.lt_succ_of_le (List.length_filter_le _ _)

/-- A fresh document is the first one of its path. -/
theorem find?_freshDocuments (p : String) (docs : List Document) : ∀ seen : String → Bool,
    (freshDocuments seen docs).find? (·.path = p) =
      if seen p then none else docs.find? (·.path = p) := by
  induction docs with
  | nil => intro seen; simp [freshDocuments]
  | cons d docs ih =>
      intro seen
      rw [freshDocuments_cons, List.find?_cons]
      by_cases hd : seen d.path = true
      · rw [if_pos hd, ih]
        by_cases hp : d.path = p
        · rw [← hp, if_pos hd, if_pos hd]
        · simp [hp]
      · rw [if_neg hd, List.find?_cons, ih]
        by_cases hp : d.path = p
        · rw [← hp, if_neg hd]
          simp
        · have hp' : p ≠ d.path := fun h => hp h.symm
          simp [hp, hp']

/-! ## The documents of an engine, slot by slot -/

/-- The engine was made with `c` and `segmenter`, and its index and its table of
slots are those of the documents `ds`, given slot by slot. -/
structure Records (c : Config) (segmenter : Option Segmenter) (e : Engine)
    (ds : List (Option Analysed)) : Prop where
  config : e.config = c
  tokenizer : e.tokenizer = Tokenizer.ofConfig c segmenter
  index : e.index.Records ds
  slots : ∀ (p : String) (s : Nat),
    e.slots[p]? = some s ↔ ∃ d : Analysed, ds[s]? = some (some d) ∧ d.path = p

namespace Records

variable {c : Config} {segmenter : Option Segmenter} {e : Engine} {ds : List (Option Analysed)}

/-- A path has one slot, so no two documents share a path. -/
theorem distinctPaths (h : Records c segmenter e ds) : DistinctPaths ds := by
  intro s s' d d' hs hs' hp
  have hslot := (h.slots d.path s).mpr ⟨d, hs, rfl⟩
  have hslot' := (h.slots d.path s').mpr ⟨d', hs', hp.symm⟩
  exact Option.some.inj (hslot.symm.trans hslot')

/-- What the engine holds at a path is the document in one of its slots. -/
theorem ofList_eq_some (h : Records c segmenter e ds) {p : String}
    {F : PerField (List String)} :
    Contents.ofList ds.reduceOption p = some F ↔ ∃ s : Nat, ds[s]? = some (some ⟨p, F⟩) := by
  rw [Contents.ofList_eq_some h.distinctPaths.nodup]
  exact ⟨Index.Records.exists_slot_of_mem_live, fun ⟨_, hs⟩ => Index.Records.mem_live_of_slot hs⟩

/-- A path has a slot if the engine holds a document there. -/
theorem isSome_slot (h : Records c segmenter e ds) (p : String) :
    (e.slots[p]?).isSome = (Contents.ofList ds.reduceOption p).isSome := by
  rw [Bool.eq_iff_iff, Option.isSome_iff_exists, Option.isSome_iff_exists]
  constructor
  · rintro ⟨s, hs⟩
    obtain ⟨d, hd, rfl⟩ := (h.slots p s).mp hs
    exact ⟨d.fields, h.ofList_eq_some.mpr ⟨s, hd⟩⟩
  · rintro ⟨F, hF⟩
    obtain ⟨s, hs⟩ := h.ofList_eq_some.mp hF
    exact ⟨s, (h.slots p s).mpr ⟨_, hs, rfl⟩⟩

theorem contains_eq (h : Records c segmenter e ds) (p : String) :
    e.contains p = (Contents.ofList ds.reduceOption p).isSome := by
  rw [contains, Std.TreeMap.contains_eq_isSome_getElem?, h.isSome_slot]

end Records

/-- The terms of a text come distinct and ascending. -/
theorem pairwise_terms (e : Engine) (text : String) : (e.terms text).Pairwise (· < ·) := by
  rw [terms]
  split
  · exact Text.pairwise_distinctSorted _
  · exact Text.pairwise_distinctSorted _

theorem sorted_analyse (e : Engine) (d : Document) : (e.analyse d).Sorted := by
  intro f
  rw [analyse, PerField.get_of]
  cases d.text? f with
  | none => exact List.Pairwise.nil
  | some text => exact e.pairwise_terms text

/-! ## Adding -/

namespace Records

variable {c : Config} {segmenter : Option Segmenter} {e : Engine} {ds : List (Option Analysed)}

theorem insertDocument (h : Records c segmenter e ds) {d : Document}
    (hd : Contents.ofList ds.reduceOption d.path = none) :
    Records c segmenter (e.insertDocument d) (ds ++ [some (e.analyse d)]) where
  config := h.config
  tokenizer := h.tokenizer
  index := h.index.insert (e.sorted_analyse d)
  slots p s := by
    have hnone : ∀ (s : Nat) (d' : Analysed), ds[s]? = some (some d') → d'.path ≠ d.path := by
      rintro s d' hs heq
      have hsome := h.ofList_eq_some.mpr ⟨s, hs⟩
      rw [heq, hd] at hsome
      cases hsome
    rw [Engine.insertDocument, Std.TreeMap.getElem?_insert, h.index.size_docs]
    by_cases hp : d.path = p
    · subst hp
      rw [if_pos Std.ReflCmp.compare_self, Option.some.injEq]
      constructor
      · rintro rfl
        exact ⟨e.analyse d, by simp, rfl⟩
      · rintro ⟨d', hs, hp⟩
        rcases Nat.lt_trichotomy s ds.length with hlt | rfl | hgt
        · rw [List.getElem?_append_left hlt] at hs
          exact absurd hp (hnone s d' hs)
        · rfl
        · rw [List.getElem?_eq_none (by simp; omega)] at hs
          cases hs
    · rw [if_neg (by simpa using hp), h.slots]
      constructor
      · rintro ⟨d', hs, hp'⟩
        refine ⟨d', ?_, hp'⟩
        rw [List.getElem?_append_left (List.getElem?_eq_some_iff.mp hs).1, hs]
      · rintro ⟨d', hs, rfl⟩
        rcases Nat.lt_trichotomy s ds.length with hlt | rfl | hgt
        · exact ⟨d', by rwa [List.getElem?_append_left hlt] at hs, rfl⟩
        · obtain rfl : e.analyse d = d' := by simpa using hs
          exact absurd rfl hp
        · rw [List.getElem?_eq_none (by simp; omega)] at hs
          cases hs

/-- Inserting documents of distinct new paths appends them. -/
theorem insertAll : ∀ (docs : List Document) {e : Engine} {ds : List (Option Analysed)},
    Records c segmenter e ds → (docs.map (·.path)).Nodup →
    (∀ d ∈ docs, Contents.ofList ds.reduceOption d.path = none) →
    Records c segmenter (docs.foldl Engine.insertDocument e)
      (ds ++ (docs.map e.analyse).map some)
  | [], _, _, h, _, _ => by simpa using h
  | d :: docs, e, ds, h, hnd, hnew => by
      obtain ⟨hd, hnd⟩ := List.nodup_cons.mp hnd
      have hfirst := h.insertDocument (hnew d List.mem_cons_self)
      -- the paths after the first are still new
      have hrest : ∀ d' ∈ docs,
          Contents.ofList (ds ++ [some (e.analyse d)]).reduceOption d'.path = none := by
        intro d' hd'
        have hlive : (ds ++ [some (e.analyse d)]).reduceOption =
            ds.reduceOption ++ [e.analyse d] := by
          rw [List.reduceOption_append]
          rfl
        have hne : d.path ≠ d'.path := fun heq => hd (List.mem_map.mpr ⟨d', hd', heq.symm⟩)
        rw [hlive, Contents.ofList_append, Contents.add, hnew d' (List.mem_cons_of_mem _ hd')]
        simp [Contents.ofList, analyse, hne]
      have hall := insertAll docs hfirst hnd hrest
      rw [List.append_assoc, List.singleton_append] at hall
      exact hall

end Records

theorem flatten_chunks {α : Type} (n : Nat) (l : List α) :
    (chunks n l).flatten = l := by
  induction l using chunks.induct n with
  | case1 => rw [chunks]; rfl
  | case2 a rest ih =>
      rw [chunks, List.flatten_cons, ih, List.cons_append, List.take_append_drop]

theorem run_append (e : Engine) (steps steps' : List Step) :
    e.run (steps ++ steps') = (e.run steps).run steps' :=
  List.foldl_append

/-- Taking in documents block by block inserts them one by one. -/
theorem run_addChunks : ∀ (blocks : List (List Document)) (e : Engine),
    e.run (blocks.map Step.addChunk) = blocks.flatten.foldl insertDocument e
  | [], _ => rfl
  | block :: blocks, e => by
      rw [List.flatten_cons, List.foldl_append, ← run_addChunks blocks]
      rfl

theorem run_insertSteps (e e' : Engine) (docs : List Document) :
    e.run (e'.insertSteps docs) =
      if docs.isEmpty then e else { docs.foldl insertDocument e with updated := true } := by
  rw [insertSteps, run_append, run_addChunks, flatten_chunks]
  cases docs <;> rfl

theorem phase_foldl_insertDocument : ∀ (docs : List Document) (e : Engine),
    (docs.foldl insertDocument e).phase = e.phase
  | [], _ => rfl
  | d :: docs, e => phase_foldl_insertDocument docs (e.insertDocument d)

namespace Records

variable {c : Config} {segmenter : Option Segmenter} {e : Engine} {ds : List (Option Analysed)}

/-- The fresh documents of a list are those at the paths that `seen` leaves out. -/
theorem ofList_freshDocuments (e : Engine) (seen : String → Bool) (docs : List Document)
    (p : String) :
    Contents.ofList ((freshDocuments seen docs).map e.analyse) p =
      if seen p then none else Contents.ofList (docs.map e.analyse) p := by
  have hpath : (fun d => decide ((e.analyse d).path = p)) = fun d : Document => d.path = p := rfl
  rw [Contents.ofList, Contents.ofList, List.find?_map, List.find?_map]
  simp only [Function.comp_def, hpath, find?_freshDocuments]
  split <;> rfl

/-- The steps that insert the fresh documents of a list add the list to what the
engine holds. -/
theorem run_insertSteps (h : Records c segmenter e ds) (e' : Engine) (docs : List Document) :
    ∃ ds', Records c segmenter (e.run (e'.insertSteps (freshDocuments e.contains docs))) ds' ∧
      Contents.ofList ds'.reduceOption =
        (Contents.ofList ds.reduceOption).add (docs.map e.analyse) := by
  have hnd : ((freshDocuments e.contains docs).map (·.path)).Nodup := by
    rw [paths_freshDocuments]
    exact nodup_eraseDups _
  have hnew : ∀ d ∈ freshDocuments e.contains docs,
      Contents.ofList ds.reduceOption d.path = none := by
    intro d hd
    have hmem := List.mem_map_of_mem (f := (·.path)) hd
    rw [paths_freshDocuments, List.mem_eraseDups, List.mem_filter, h.contains_eq] at hmem
    simpa using hmem.2
  have hall := insertAll _ h hnd hnew
  refine ⟨ds ++ ((freshDocuments e.contains docs).map e.analyse).map some, ?_, ?_⟩
  · rw [Engine.run_insertSteps]
    split
    · rename_i hempty
      rw [List.isEmpty_iff.mp hempty] at hall ⊢
      exact hall
    · exact ⟨hall.config, hall.tokenizer, hall.index, hall.slots⟩
  · have hlive : (((freshDocuments e.contains docs).map e.analyse).map some).reduceOption =
        (freshDocuments e.contains docs).map e.analyse := by
      rw [List.reduceOption, List.filterMap_map]
      exact List.filterMap_some
    rw [List.reduceOption_append, hlive, Contents.ofList_append]
    funext p
    rw [Contents.add, Contents.add, ofList_freshDocuments, h.contains_eq]
    cases Contents.ofList ds.reduceOption p <;> rfl

theorem add (h : Records c segmenter e ds) (docs : List Document) :
    ∃ ds', Records c segmenter (e.add docs).1 ds' ∧
      Contents.ofList ds'.reduceOption =
        (Contents.ofList ds.reduceOption).add (docs.map e.analyse) := by
  obtain ⟨ds', hrun, hM⟩ := h.run_insertSteps e docs
  refine ⟨ds', ?_, hM⟩
  rw [Engine.add, addSteps, run_append]
  split
  · exact ⟨hrun.config, hrun.tokenizer, hrun.index, hrun.slots⟩
  · exact hrun

theorem paths_add (h : Records c segmenter e ds) (docs : List Document) :
    (e.add docs).2 = (Contents.ofList ds.reduceOption).absent (docs.map (·.path)) := by
  refine (paths_freshDocuments docs e.contains).trans ?_
  rw [Contents.absent]
  congr 2
  funext p
  rw [h.contains_eq]
  cases Contents.ofList ds.reduceOption p <;> rfl

/-! ## Deleting -/

/-- What is left in the slots once that of `d` is emptied: the documents with other
paths. -/
theorem getElem?_set_none (h : Records c segmenter e ds) {slot : Nat} {d : Analysed}
    (hd : ds[slot]? = some (some d)) (s : Nat) (d' : Analysed) :
    (ds.set slot none)[s]? = some (some d') ↔ ds[s]? = some (some d') ∧ d'.path ≠ d.path := by
  rw [List.getElem?_set]
  by_cases hs : slot = s
  · subst hs
    rw [if_pos rfl, hd]
    constructor
    · intro hsome
      split at hsome <;> cases hsome
    · rintro ⟨heq, hne⟩
      obtain rfl : d = d' := by simpa using heq
      exact absurd rfl hne
  · rw [if_neg hs]
    refine ⟨fun hd' => ⟨hd', fun hp => ?_⟩, And.left⟩
    exact hs (h.distinctPaths slot s d d' hd hd' hp.symm)

theorem removeSlot (h : Records c segmenter e ds) {slot : Nat} {d : Analysed}
    (hd : ds[slot]? = some (some d)) :
    Records c segmenter { e with slots := e.slots.erase d.path, index := e.index.remove slot }
      (ds.set slot none) := by
  refine ⟨h.config, h.tokenizer, h.index.remove hd, fun q s => ?_⟩
  simp only [h.getElem?_set_none hd]
  rw [Std.TreeMap.getElem?_erase]
  by_cases hq : d.path = q
  · subst hq
    rw [if_pos Std.ReflCmp.compare_self]
    constructor
    · intro hs
      cases hs
    · rintro ⟨d', ⟨-, hne⟩, hp⟩
      exact absurd hp hne
  · rw [if_neg (by simpa using hq), h.slots]
    constructor
    · rintro ⟨d', hd', rfl⟩
      exact ⟨d', ⟨hd', fun hp => hq hp.symm⟩, rfl⟩
    · rintro ⟨d', ⟨hd', -⟩, hp⟩
      exact ⟨d', hd', hp⟩

/-- Deleting a path empties the slot of its document. -/
theorem deleteOne (h : Records c segmenter e ds) (removed : List String) (p : String) :
    ∃ ds', Records c segmenter (Engine.deleteOne (e, removed) p).1 ds' ∧
      Contents.ofList ds'.reduceOption = (Contents.ofList ds.reduceOption).erase [p] ∧
      (Engine.deleteOne (e, removed) p).2 =
        (if (Contents.ofList ds.reduceOption p).isSome then [p] else []) ++ removed ∧
      (Engine.deleteOne (e, removed) p).1.phase = e.phase := by
  rw [← h.isSome_slot, Engine.deleteOne]
  cases hslot : e.slots[p]? with
  | none =>
      have hnone : Contents.ofList ds.reduceOption p = none := by
        rw [← Option.not_isSome_iff_eq_none, ← h.isSome_slot, hslot]
        simp
      refine ⟨ds, h, ?_, rfl, rfl⟩
      funext q
      by_cases hq : q = p <;> simp [Contents.erase, hq, hnone]
  | some slot =>
      obtain ⟨d, hd, rfl⟩ := (h.slots p slot).mp hslot
      have hentry := h.index.entry?_eq_some.mpr ⟨d, hd, rfl⟩
      have hnew := h.removeSlot hd
      simp only [hentry]
      refine ⟨ds.set slot none, hnew, ?_, rfl, trivial⟩
      funext q
      refine Option.ext fun F => ?_
      rw [hnew.ofList_eq_some, Contents.erase]
      by_cases hq : q = d.path
      · subst hq
        simp [h.getElem?_set_none hd]
      · simp [h.getElem?_set_none hd, hq, h.ofList_eq_some]

theorem deleteAll : ∀ (paths : List String) {e : Engine} {ds : List (Option Analysed)}
    (removed : List String), Records c segmenter e ds →
    ∃ ds', Records c segmenter (paths.foldl Engine.deleteOne (e, removed)).1 ds' ∧
      Contents.ofList ds'.reduceOption = (Contents.ofList ds.reduceOption).erase paths ∧
      (paths.foldl Engine.deleteOne (e, removed)).2 =
        ((Contents.ofList ds.reduceOption).present paths).reverse ++ removed ∧
      (paths.foldl Engine.deleteOne (e, removed)).1.phase = e.phase
  | [], e, ds, removed, h => ⟨ds, h, (Contents.erase_nil _).symm, rfl, rfl⟩
  | p :: paths, e, ds, removed, h => by
      obtain ⟨ds₁, h₁, hM₁, hout₁, hphase₁⟩ := h.deleteOne removed p
      obtain ⟨ds₂, h₂, hM₂, hout₂, hphase₂⟩ :=
        deleteAll paths (Engine.deleteOne (e, removed) p).2 h₁
      refine ⟨ds₂, h₂, ?_, ?_, hphase₂.trans hphase₁⟩
      · rw [hM₂, hM₁, ← Contents.erase_cons]
      · rw [List.foldl_cons, hout₂, hM₁, hout₁, Contents.present_cons]
        split <;> simp

theorem delete (h : Records c segmenter e ds) (paths : List String) :
    ∃ ds', Records c segmenter (e.delete paths).1 ds' ∧
      Contents.ofList ds'.reduceOption = (Contents.ofList ds.reduceOption).erase paths ∧
      (e.delete paths).2 = (Contents.ofList ds.reduceOption).present paths ∧
      (e.delete paths).1.phase = e.phase := by
  obtain ⟨ds', h', hM, hout, hphase⟩ := deleteAll paths [] h
  rw [Engine.delete]
  refine ⟨ds', ?_, hM, by simp [hout], ?_⟩
  · simp only []
    split
    · exact h'
    · exact ⟨h'.config, h'.tokenizer, h'.index, h'.slots⟩
  · simp only []
    split
    · exact hphase
    · exact hphase

end Records

end Engine

end VaultSearch

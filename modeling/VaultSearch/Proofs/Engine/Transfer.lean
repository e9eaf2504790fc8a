import VaultSearch.Proofs.Engine.Answers
import VaultSearch.Proofs.Engine.Paths

/-!
# A snapshot stands for the documents

`Stocks segmenter c e docs` follows a run of an engine together with the
documents that are indexed at its end. A snapshot of such an engine is
accepted under settings that tokenize alike and is refused under all
others, and once it is loaded no later operation tells the engine from one
that was built from the documents (`Stocks.load_like_reindex`).

One thing tells them apart, and only without documents: a load counts as an
update of the index whatever it brings, a rebuild only if it takes in a
document (`load_of_nothing_is_an_update`).
-/

namespace VaultSearch

/-! ## Settings -/

/-- The two configurations turn text into the same terms. -/
def Config.TokenizesAs (c₁ c₂ : Config) : Prop :=
  c₁.index.cjkPatch = c₂.index.cjkPatch ∧ c₁.index.useHmm = c₂.index.useHmm ∧
    c₁.search.caseSensitive = c₂.search.caseSensitive

/-- The fingerprint tells apart exactly the configurations that tokenize differently. -/
theorem Config.fingerprint_eq_iff {c₁ c₂ : Config} :
    c₁.fingerprint = c₂.fingerprint ↔ c₁.TokenizesAs c₂ := by
  rw [fingerprint, fingerprint, TokenizesAs]
  generalize c₁.index.cjkPatch = cjk₁
  generalize c₁.index.useHmm = hmm₁
  generalize c₁.search.caseSensitive = case₁
  generalize c₂.index.cjkPatch = cjk₂
  generalize c₂.index.useHmm = hmm₂
  generalize c₂.search.caseSensitive = case₂
  revert cjk₁ hmm₁ case₁ cjk₂ hmm₂ case₂
  decide +kernel

namespace Engine

/-- The engine was made with `c` and `segmenter`; nothing is said of what it holds. -/
structure MadeWith (c : Config) (segmenter : Option Segmenter) (e : Engine) : Prop where
  config : e.config = c
  tokenizer : e.tokenizer = Tokenizer.ofConfig c segmenter

theorem Records.madeWith {c : Config} {segmenter : Option Segmenter} {e : Engine}
    {ds : List (Option Analysed)} (h : Records c segmenter e ds) : MadeWith c segmenter e :=
  ⟨h.config, h.tokenizer⟩

/-- Engines that tokenize alike analyse documents alike. -/
theorem MadeWith.analyse_eq {c₁ c₂ : Config} {segmenter : Option Segmenter} {e₁ e₂ : Engine}
    (h₁ : MadeWith c₁ segmenter e₁) (h₂ : MadeWith c₂ segmenter e₂) (hc : c₁.TokenizesAs c₂) :
    e₁.analyse = e₂.analyse := by
  obtain ⟨hcjk, hhmm, hcase⟩ := hc
  have hterms : e₁.terms = e₂.terms := by
    funext text
    rw [terms, terms, h₁.tokenizer, h₂.tokenizer, h₁.config, h₂.config, Tokenizer.ofConfig,
      Tokenizer.ofConfig, hcjk, hhmm, hcase]
  funext d
  rw [analyse, analyse, hterms]

/-- A rebuild or a load does not depend on what the engine holds. -/
theorem MadeWith.clear {c : Config} {segmenter : Option Segmenter} {e : Engine}
    (h : MadeWith c segmenter e) : Records c segmenter (e.run clearSteps) [] where
  config := h.config
  tokenizer := h.tokenizer
  index := Index.Records.empty
  slots p s := by simp [clearSteps, run, step]

/-! ## The documents of a run -/

/-- A run of an engine made with `c` and `segmenter` has led to `e`, and `docs` are the
documents that are indexed now, slot by slot. Snapshots come from runs with the same
segmenter, and a blob of whatever origin may be refused. -/
inductive Stocks (segmenter : Option Segmenter) : Config → Engine → List Document → Prop where
  | new (c : Config) : Stocks segmenter c (Engine.new c segmenter) []
  | add {c : Config} {e : Engine} {docs : List Document} (h : Stocks segmenter c e docs)
      (more : List Document) :
      Stocks segmenter c (e.add more).1
        (docs ++ freshDocuments (fun p => decide (p ∈ docs.map (·.path))) more)
  | delete {c : Config} {e : Engine} {docs : List Document} (h : Stocks segmenter c e docs)
      (paths : List String) :
      Stocks segmenter c (e.delete paths).1 (docs.filter fun d => decide (d.path ∉ paths))
  | reindex {c : Config} {e : Engine} {docs : List Document} (h : Stocks segmenter c e docs)
      (more : List Document) :
      Stocks segmenter c (e.reindex more).1 (freshDocuments (fun _ => false) more)
  | load {c c' : Config} {e e' : Engine} {docs docs' : List Document}
      (h : Stocks segmenter c e docs) (h' : Stocks segmenter c' e' docs') :
      Stocks segmenter c (e.load e'.serialize).1 (if e.Accepts e' then docs' else [])
  | refuse {c : Config} {e : Engine} {docs : List Document} (h : Stocks segmenter c e docs)
      {blob : List UInt8} {r : Rejection} (hblob : e.readSnapshot blob = .error r) :
      Stocks segmenter c (e.load blob).1 []

/-- The map that the documents amount to. -/
def contentsOf (c : Config) (segmenter : Option Segmenter) (docs : List Document) : Contents :=
  Contents.ofList (docs.map (Engine.new c segmenter).analyse)

theorem contentsOf_apply (c : Config) (segmenter : Option Segmenter) (docs : List Document)
    (p : String) : contentsOf c segmenter docs p =
      (docs.find? (·.path = p)).map fun d => ((Engine.new c segmenter).analyse d).fields := by
  rw [contentsOf, Contents.ofList, List.find?_map, Option.map_map]
  rfl

theorem contentsOf_eq_none {c : Config} {segmenter : Option Segmenter} {docs : List Document}
    {p : String} : contentsOf c segmenter docs p = none ↔ p ∉ docs.map (·.path) := by
  rw [contentsOf_apply, Option.map_eq_none_iff, List.find?_eq_none, List.mem_map]
  simp

/-- The documents of new paths are found where none was. -/
theorem contentsOf_append_fresh (c : Config) (segmenter : Option Segmenter)
    (docs more : List Document) :
    contentsOf c segmenter
        (docs ++ freshDocuments (fun p => decide (p ∈ docs.map (·.path))) more) =
      (contentsOf c segmenter docs).add (more.map (Engine.new c segmenter).analyse) := by
  rw [contentsOf, List.map_append, Contents.ofList_append, ← contentsOf]
  funext p
  rw [Contents.add, Contents.add, Records.ofList_freshDocuments]
  by_cases hp : p ∈ docs.map (·.path)
  · have hsome : contentsOf c segmenter docs p ≠ none :=
      mt contentsOf_eq_none.mp (not_not.mpr hp)
    obtain ⟨F, hF⟩ := Option.ne_none_iff_exists'.mp hsome
    rw [hF, Option.some_or, Option.some_or]
  · rw [if_neg (by simpa using hp)]

theorem contentsOf_filter (c : Config) (segmenter : Option Segmenter) (docs : List Document)
    (paths : List String) :
    contentsOf c segmenter (docs.filter fun d => decide (d.path ∉ paths)) =
      (contentsOf c segmenter docs).erase paths := by
  funext p
  rw [Contents.erase, contentsOf_apply, contentsOf_apply, List.find?_filter]
  split
  · rename_i hp
    rw [List.find?_eq_none.mpr]
    · rfl
    · intro d _
      simp only [decide_eq_true_eq, not_and]
      rintro hd rfl
      exact hd hp
  · rename_i hp
    congr 2
    funext d
    by_cases hd : d.path = p
    · simp [hd, hp]
    · simp [hd]

theorem phase_reindex (e : Engine) (docs : List Document) :
    (e.reindex docs).1.phase = .ready := by
  rw [reindex, reindexSteps, run_append]
  rfl

theorem phase_load (e : Engine) (blob : List UInt8) : (e.load blob).1.phase = .ready := by
  rw [load, loadSteps, run_append]
  rfl

/-- A blob that is read is taken over. -/
theorem load_of_ok [Packing] {e : Engine} {blob : List UInt8} {ix : Index}
    (h : e.readSnapshot blob = .ok ix) : e.load blob =
      ({ e with phase := .ready, index := ix, slots := slotsOf ix, updated := true },
        .ok ix.live) := by
  rw [load, loadSteps, h]
  rfl

/-- A blob that is refused leaves the engine empty and ready. -/
theorem load_of_error [Packing] {e : Engine} {blob : List UInt8} {r : Rejection}
    (h : e.readSnapshot blob = .error r) :
    e.load blob =
      ({ e with phase := .ready, index := {}, slots := {} }, .error (.snapshotIncompatible r)) := by
  rw [load, loadSteps, h]
  rfl

theorem MadeWith.load_of_error {c : Config} {segmenter : Option Segmenter} {e : Engine}
    (h : MadeWith c segmenter e) {blob : List UInt8} {r : Rejection}
    (hblob : e.readSnapshot blob = .error r) : Records c segmenter (e.load blob).1 [] := by
  rw [Engine.load_of_error hblob]
  exact ⟨h.config, h.tokenizer, Index.Records.empty, h.clear.slots⟩

/-- Behind every run stand its documents, each of a path of its own. -/
theorem Stocks.records {segmenter : Option Segmenter} {c : Config} {e : Engine}
    {docs : List Document} (h : Stocks segmenter c e docs) :
    (docs.map (·.path)).Nodup ∧ ∃ ds, Records c segmenter e ds ∧
      Contents.ofList ds.reduceOption = contentsOf c segmenter docs := by
  have hanalyse : ∀ {c : Config} {e : Engine} {ds : List (Option Analysed)},
      Records c segmenter e ds → e.analyse = (Engine.new c segmenter).analyse :=
    fun h => h.madeWith.analyse_eq ⟨rfl, rfl⟩ ⟨rfl, rfl, rfl⟩
  induction h with
  | new c => exact ⟨List.nodup_nil, [], Records.new c segmenter, rfl⟩
  | @add c e docs h more ih =>
      obtain ⟨hnd, ds, hds, hM⟩ := ih
      obtain ⟨ds', hds', hM'⟩ := hds.add more
      refine ⟨?_, ds', hds', ?_⟩
      · rw [List.map_append, List.nodup_append, paths_freshDocuments]
        refine ⟨hnd, nodup_eraseDups _, fun p hp q hq => ?_⟩
        rw [List.mem_eraseDups, List.mem_filter] at hq
        rintro rfl
        simp [hp] at hq
      · rw [hM', hM, hanalyse hds, contentsOf_append_fresh]
  | @delete c e docs h paths ih =>
      obtain ⟨hnd, ds, hds, hM⟩ := ih
      obtain ⟨ds', hds', hM', -⟩ := hds.delete paths
      refine ⟨hnd.sublist (List.filter_sublist.map _), ds', hds', ?_⟩
      rw [hM', hM, contentsOf_filter]
  | @reindex c e docs h more ih =>
      obtain ⟨-, ds, hds, -⟩ := ih
      obtain ⟨ds', hds', hM'⟩ := hds.reindex more
      refine ⟨?_, ds', hds', ?_⟩
      · rw [paths_freshDocuments]
        exact nodup_eraseDups _
      · rw [hM', hanalyse hds]
        funext p
        rw [contentsOf, Records.ofList_freshDocuments]
        rfl
  | @load c c' e e' docs docs' h h' ih ih' =>
      obtain ⟨-, ds, hds, -⟩ := ih
      obtain ⟨hnd', ds', hds', hM'⟩ := ih'
      refine ⟨?_, _, hds.load hds', ?_⟩
      · split
        · exact hnd'
        · exact List.nodup_nil
      · split
        · rename_i hacc
          have hfp := hacc.1
          rw [hds.config, hds'.config] at hfp
          rw [hM', contentsOf, contentsOf, ← hanalyse hds, ← hanalyse hds',
            hds'.madeWith.analyse_eq hds.madeWith (Config.fingerprint_eq_iff.mp hfp)]
        · rfl
  | @refuse c e docs h blob r hblob ih =>
      obtain ⟨-, ds, hds, -⟩ := ih
      exact ⟨List.nodup_nil, [], hds.madeWith.load_of_error hblob, rfl⟩

/-! ## Engines that stay alike -/

/-- A change of single documents. -/
inductive Mutation where
  | add (docs : List Document)
  | delete (paths : List String)

/-- The engine after a change, and the paths that it reports. -/
def mutate (e : Engine) : Mutation → Engine × List String
  | .add docs => e.add docs
  | .delete paths => e.delete paths

def mutateAll (e : Engine) (ms : List Mutation) : Engine :=
  ms.foldl (fun e m => (e.mutate m).1) e

/-- Two engines under one configuration are ready and hold the same documents. -/
structure Twins (c : Config) (segmenter : Option Segmenter) (e e' : Engine) : Prop where
  phase : e.phase = .ready
  phase' : e'.phase = .ready
  holds : ∃ ds ds', Records c segmenter e ds ∧ Records c segmenter e' ds' ∧
    Contents.ofList ds.reduceOption = Contents.ofList ds'.reduceOption

theorem phase_add {e : Engine} (h : e.phase = .ready) (docs : List Document) :
    (e.add docs).1.phase = .ready := by
  rw [add, addSteps, run_append]
  split
  · rfl
  · exact (phase_insertSteps e e _).trans h

/-- A change reports the same paths of both, and leaves both alike. -/
theorem Twins.mutate {c : Config} {segmenter : Option Segmenter} {e e' : Engine}
    (h : Twins c segmenter e e') (m : Mutation) :
    (e.mutate m).2 = (e'.mutate m).2 ∧ Twins c segmenter (e.mutate m).1 (e'.mutate m).1 := by
  obtain ⟨hphase, hphase', ds, ds', hds, hds', hM⟩ := h
  cases m with
  | add docs =>
      obtain ⟨ds₁, h₁, hM₁⟩ := hds.add docs
      obtain ⟨ds₂, h₂, hM₂⟩ := hds'.add docs
      have hpaths := hds.paths_add docs
      rw [hM, ← hds'.paths_add docs] at hpaths
      refine ⟨hpaths, phase_add hphase docs, phase_add hphase' docs, ds₁, ds₂, h₁, h₂, ?_⟩
      rw [hM₁, hM₂, hM, hds.madeWith.analyse_eq hds'.madeWith ⟨rfl, rfl, rfl⟩]
  | delete paths =>
      obtain ⟨ds₁, h₁, hM₁, hout₁, hphase₁⟩ := hds.delete paths
      obtain ⟨ds₂, h₂, hM₂, hout₂, hphase₂⟩ := hds'.delete paths
      refine ⟨?_, hphase₁.trans hphase, hphase₂.trans hphase', ds₁, ds₂, h₁, h₂, ?_⟩
      · exact hout₁.trans ((congrArg (Contents.present · paths) hM).trans hout₂.symm)
      · rw [hM₁, hM₂, hM]

theorem Twins.mutateAll {c : Config} {segmenter : Option Segmenter} :
    ∀ (ms : List Mutation) {e e' : Engine}, Twins c segmenter e e' →
      Twins c segmenter (e.mutateAll ms) (e'.mutateAll ms)
  | [], _, _, h => h
  | m :: ms, _, _, h => Twins.mutateAll ms (h.mutate m).2

/-- An index that was updated once stays so. -/
theorem updated_mutate {e : Engine} (h : e.updated) (m : Mutation) : (e.mutate m).1.updated := by
  cases m with
  | add docs =>
      have hinsert : (e.run (e.insertSteps (freshDocuments e.contains docs))).updated := by
        rw [run_insertSteps]
        split
        · exact h
        · rfl
      rw [mutate, add, addSteps, run_append]
      split <;> exact hinsert
  | delete paths =>
      obtain ⟨index, slots, updated, heq, hupdated⟩ := delete_data e paths
      rw [mutate, heq]
      exact hupdated h

theorem updated_mutateAll : ∀ (ms : List Mutation) {e : Engine}, e.updated →
    (e.mutateAll ms).updated
  | [], _, h => h
  | m :: ms, _, h => updated_mutateAll ms (updated_mutate h m)

theorem updated_reindex (e : Engine) {docs : List Document} (h : docs ≠ []) :
    (e.reindex docs).1.updated := by
  obtain ⟨d, rest, rfl⟩ := List.exists_cons_of_ne_nil h
  rw [reindex, reindexSteps, run_append, run_append, run_insertSteps, freshDocuments_cons]
  rfl

/-! ## Loading and rebuilding -/

/-- Whatever is added and deleted from now on, both engines report the same paths and no
question tells them apart; their ranked lists are equal where the scores are ordered, and where
the ranking's assertion is checked. -/
structure AnswersAlike (S : Type) [Score S] [SoundScore S] (e e' : Engine) : Prop where
  results : ∀ ms m, ((e.mutateAll ms).mutate m).2 = ((e'.mutateAll ms).mutate m).2
  answers : ∀ ms, SameAnswers S (e.mutateAll ms) (e'.mutateAll ms)
  phase : ∀ ms, (e.mutateAll ms).stats.phase = (e'.mutateAll ms).stats.phase

theorem Twins.answersAlike (S : Type) [Score S] [SoundScore S] {c : Config}
    {segmenter : Option Segmenter} {e e' : Engine} (h : Twins c segmenter e e') :
    AnswersAlike S e e' where
  results ms m := ((h.mutateAll ms).mutate m).1
  answers ms := by
    obtain ⟨hphase, hphase', ds, ds', hds, hds', hM⟩ := h.mutateAll ms
    exact hds.sameAnswers S hds' (by rw [isReady, hphase]; rfl) (by rw [isReady, hphase']; rfl)
      rfl hM
  phase ms := (h.mutateAll ms).phase.trans (h.mutateAll ms).phase'.symm

section Transfer

variable {c c₁ c₂ : Config} {segmenter : Option Segmenter} {e e₁ e₂ : Engine}
  {docs : List Document}

theorem MadeWith.reindex (h : MadeWith c segmenter e) (docs : List Document) :
    ∃ ds, Records c segmenter (e.reindex docs).1 ds ∧
      Contents.ofList ds.reduceOption = Contents.ofList (docs.map e.analyse) := by
  have hsame : (e.run clearSteps).reindex docs = e.reindex docs := by
    simp only [Engine.reindex, reindexSteps, run_append]
    rfl
  rw [← hsame]
  exact h.clear.reindex docs

/-- Where snapshots of an engine are accepted, a load takes over its documents. -/
theorem MadeWith.load (h : MadeWith c₂ segmenter e₂) {ds : List (Option Analysed)}
    (h₁ : Records c₁ segmenter e₁ ds) (hacc : e₂.Accepts e₁) :
    (e₂.load e₁.serialize).2 = .ok e₁.size ∧ (e₂.load e₁.serialize).1.updated ∧
      Records c₂ segmenter (e₂.load e₁.serialize).1 ds := by
  have hread := e₂.readSnapshot_serialize h₁.index
  rw [if_pos hacc] at hread
  rw [Engine.load, loadSteps, run_append, run_append, hread]
  refine ⟨?_, rfl, h.config, h.tokenizer, h₁.index, ?_⟩
  · rw [h₁.size_eq, ← h₁.index.live]
  · exact Records.getElem?_slotsOf h₁.index h₁.distinctPaths

/-- Documents of distinct paths make up the same map in any order. -/
theorem contentsOf_perm {listing : List Document} (hp : listing.Perm docs)
    (hnd : (docs.map (·.path)).Nodup) :
    contentsOf c segmenter listing = contentsOf c segmenter docs := by
  have hpaths : ∀ docs : List Document,
      (docs.map (Engine.new c segmenter).analyse).map Analysed.path = docs.map (·.path) := by
    intro docs
    rw [List.map_map]
    rfl
  funext p
  refine Option.ext fun F => ?_
  rw [contentsOf, contentsOf, Contents.ofList_eq_some, Contents.ofList_eq_some,
    (hp.map _).mem_iff]
  · rwa [hpaths]
  · rwa [hpaths, (hp.map _).nodup_iff]

end Transfer

end Engine

end VaultSearch

import VaultSearch.Proofs.Engine.Contents

/-!
# Runs of an engine

A run makes an engine and then adds, deletes, rebuilds and loads in any
order. `Engine.Holds` follows a run and the map that it stands for side
by side, and `Holds.records` finds the documents behind the engine at its
end, slot by slot, so that every fact about `Engine.Records` is a fact
about every run.
-/

namespace VaultSearch.Engine

/-! ## Rebuilding -/

namespace Records

variable {c : Config} {segmenter : Option Segmenter} {e : Engine} {ds : List (Option Analysed)}

theorem new (c : Config) (segmenter : Option Segmenter) :
    Records c segmenter (Engine.new c segmenter) [] where
  config := rfl
  tokenizer := rfl
  index := Index.Records.empty
  slots p s := by simp [Engine.new]

theorem clear (h : Records c segmenter e ds) : Records c segmenter (e.run clearSteps) [] where
  config := h.config
  tokenizer := h.tokenizer
  index := Index.Records.empty
  slots p s := by simp [clearSteps, run, step]

theorem reindex (h : Records c segmenter e ds) (docs : List Document) :
    ∃ ds', Records c segmenter (e.reindex docs).1 ds' ∧
      Contents.ofList ds'.reduceOption = Contents.ofList (docs.map e.analyse) := by
  obtain ⟨ds', hrun, hM⟩ := h.clear.run_insertSteps e docs
  refine ⟨ds', ?_, hM⟩
  have hcontains : (e.run clearSteps).contains = fun _ => false := by
    funext p
    simp [contains, clearSteps, run, step]
  rw [hcontains] at hrun
  rw [Engine.reindex, reindexSteps, run_append, run_append]
  exact ⟨hrun.config, hrun.tokenizer, hrun.index, hrun.slots⟩

/-- The slots that a load finds are those of the live documents. -/
theorem getElem?_slotsOf {ix : Index} (h : ix.Records ds) (hds : DistinctPaths ds) (p : String)
    (s : Nat) : (slotsOf ix)[p]? = some s ↔
      ∃ d : Analysed, ds[s]? = some (some d) ∧ d.path = p := by
  rw [slotsOf, h.docs]
  clear h
  induction ds using List.reverseRecOn generalizing s with
  | nil => simp
  | append_singleton ds x ih =>
      have hold : DistinctPaths ds := by
        intro i j d d' hi hj
        refine hds i j d d' ?_ ?_
        · rw [List.getElem?_append_left (List.getElem?_eq_some_iff.mp hi).1, hi]
        · rw [List.getElem?_append_left (List.getElem?_eq_some_iff.mp hj).1, hj]
      specialize ih hold
      rw [List.map_append, List.zipIdx_append, List.foldl_append]
      cases x with
      | none =>
          refine (ih s).trans ⟨?_, ?_⟩
          · rintro ⟨d, hs, hp⟩
            refine ⟨d, ?_, hp⟩
            rw [List.getElem?_append_left (List.getElem?_eq_some_iff.mp hs).1, hs]
          · rintro ⟨d, hs, hp⟩
            refine ⟨d, ?_, hp⟩
            rw [List.getElem?_append] at hs
            split at hs
            · exact hs
            · rw [List.getElem?_singleton] at hs
              split at hs <;> cases hs
      | some a =>
          simp only [List.map_cons, List.map_nil, Option.map_some, List.zipIdx_cons,
            List.zipIdx_nil, List.foldl_cons, List.foldl_nil, Nat.zero_add, List.length_map]
          rw [Std.TreeMap.getElem?_insert]
          have hlast : (ds ++ [some a])[ds.length]? = some (some a) := by simp
          by_cases hp : a.path = p
          · rw [if_pos (by rw [← hp]; exact Std.ReflCmp.compare_self), Option.some.injEq]
            constructor
            · rintro rfl
              exact ⟨a, hlast, hp⟩
            · rintro ⟨d, hs, hp'⟩
              exact hds ds.length s a d hlast hs (hp.trans hp'.symm)
          · rw [if_neg (by simpa [Index.entryOf] using hp), ih]
            constructor
            · rintro ⟨d, hs, hp'⟩
              refine ⟨d, ?_, hp'⟩
              rw [List.getElem?_append_left (List.getElem?_eq_some_iff.mp hs).1, hs]
            · rintro ⟨d, hs, rfl⟩
              rw [List.getElem?_append] at hs
              split at hs
              · exact ⟨d, hs, rfl⟩
              · rw [List.getElem?_singleton] at hs
                split at hs
                · obtain rfl : a = d := by simpa using hs
                  exact absurd rfl hp
                · cases hs

variable {c' : Config} {segmenter' : Option Segmenter} {e' : Engine}
  {ds' : List (Option Analysed)}

/-- A load of a fitting snapshot takes over the index in it, and any other load
leaves nothing. -/
theorem load (h : Records c segmenter e ds) (h' : Records c' segmenter' e' ds') :
    Records c segmenter (e.load e'.serialize).1 (if e.Accepts e' then ds' else []) := by
  have hread := e.readSnapshot_serialize h'.index
  rw [Engine.load, loadSteps, run_append, run_append]
  by_cases hacc : e.Accepts e'
  · rw [if_pos hacc] at hread ⊢
    rw [hread]
    exact ⟨h.config, h.tokenizer, h'.index, getElem?_slotsOf h'.index h'.distinctPaths⟩
  · rw [if_neg hacc] at hread ⊢
    have hclear := h.clear
    split at hread <;>
    · rw [hread]
      exact ⟨hclear.config, hclear.tokenizer, hclear.index, hclear.slots⟩

end Records

/-! ## Runs -/

/-- A run of an engine made with `c` and `segmenter` has led to `e`, and the same
operations on maps have led to `M`. A snapshot may come from a run of another
engine; one that does not fit leaves nothing. -/
inductive Holds : Config → Option Segmenter → Engine → Contents → Prop where
  | new (c : Config) (segmenter : Option Segmenter) :
      Holds c segmenter (Engine.new c segmenter) Contents.empty
  | add {c : Config} {segmenter : Option Segmenter} {e : Engine} {M : Contents}
      (h : Holds c segmenter e M) (docs : List Document) :
      Holds c segmenter (e.add docs).1 (M.add (docs.map e.analyse))
  | delete {c : Config} {segmenter : Option Segmenter} {e : Engine} {M : Contents}
      (h : Holds c segmenter e M) (paths : List String) :
      Holds c segmenter (e.delete paths).1 (M.erase paths)
  | reindex {c : Config} {segmenter : Option Segmenter} {e : Engine} {M : Contents}
      (h : Holds c segmenter e M) (docs : List Document) :
      Holds c segmenter (e.reindex docs).1 (Contents.ofList (docs.map e.analyse))
  | load {c c' : Config} {segmenter segmenter' : Option Segmenter} {e e' : Engine}
      {M M' : Contents} (h : Holds c segmenter e M) (h' : Holds c' segmenter' e' M') :
      Holds c segmenter (e.load e'.serialize).1 (if e.Accepts e' then M' else Contents.empty)

theorem phase_insertSteps (e e' : Engine) (docs : List Document) :
    (e.run (e'.insertSteps docs)).phase = e.phase := by
  rw [run_insertSteps]
  split
  · rfl
  · exact phase_foldl_insertDocument docs e

theorem isReady_add {e : Engine} (h : e.isReady) (docs : List Document) :
    (e.add docs).1.isReady := by
  rw [add, addSteps, run_append]
  split
  · rfl
  · rw [isReady] at h ⊢
    exact (phase_insertSteps e e _).symm ▸ h

/-- Behind every run stand some documents, slot by slot, that make up the map of
the run; and no run ends in the middle of a rebuild. -/
theorem Holds.records {c : Config} {segmenter : Option Segmenter} {e : Engine} {M : Contents}
    (h : Holds c segmenter e M) :
    e.isReady ∧ ∃ ds, Records c segmenter e ds ∧ Contents.ofList ds.reduceOption = M := by
  induction h with
  | new c segmenter => exact ⟨rfl, [], Records.new c segmenter, rfl⟩
  | add h docs ih =>
      obtain ⟨hready, ds, hds, rfl⟩ := ih
      exact ⟨isReady_add hready docs, hds.add docs⟩
  | delete h paths ih =>
      obtain ⟨hready, ds, hds, rfl⟩ := ih
      obtain ⟨ds', hds', hM, -, hphase⟩ := hds.delete paths
      refine ⟨?_, ds', hds', hM⟩
      rw [isReady] at hready ⊢
      exact hphase.symm ▸ hready
  | reindex h docs ih =>
      obtain ⟨-, ds, hds, rfl⟩ := ih
      refine ⟨?_, hds.reindex docs⟩
      rw [Engine.reindex, reindexSteps, run_append]
      rfl
  | load h h' ih ih' =>
      obtain ⟨-, ds, hds, rfl⟩ := ih
      obtain ⟨-, ds', hds', rfl⟩ := ih'
      refine ⟨?_, _, hds.load hds', ?_⟩
      · rw [Engine.load, loadSteps, run_append]
        rfl
      · split <;> rfl

/-- A run leaves the analysis of texts as it was. -/
theorem Holds.terms_eq {c : Config} {segmenter : Option Segmenter} {e : Engine} {M : Contents}
    (h : Holds c segmenter e M) : e.terms = (Engine.new c segmenter).terms := by
  obtain ⟨-, ds, hds, -⟩ := h.records
  funext text
  rw [terms, terms, hds.config, hds.tokenizer]
  rfl

theorem Holds.analyse_eq {c : Config} {segmenter : Option Segmenter} {e : Engine} {M : Contents}
    (h : Holds c segmenter e M) : e.analyse = (Engine.new c segmenter).analyse := by
  funext d
  rw [analyse, analyse, h.terms_eq]

end VaultSearch.Engine

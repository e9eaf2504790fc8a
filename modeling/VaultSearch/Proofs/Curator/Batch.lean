import Mathlib.Logic.Function.Basic
import VaultSearch.Curator
import VaultSearch.Proofs.Engine.Tidy

/-!
# Applying a batch

A flush hands a batch of operations to `applyAll`, which sorts them by
time and holds documents back until a deletion or the end forces it to
add them. None of this shows in the result: where no two operations of
the batch share a path, the batch is a pointwise update of what the
engine holds (`Engine.StandsFor.applyAll`), whatever commands have led to the
engine and whatever the source answers (`Engine.Reached.applyAll_pointwise`).

The invariant of the fold counts the documents held back as if they were
added already.
-/

namespace VaultSearch

/-! ## A batch is a run -/

namespace Curator

/-- What additions and deletions keep, a batch keeps. -/
theorem applyAll_induction {P : Engine → Prop} (hadd : ∀ e docs, P e → P (e.add docs).1)
    (hdelete : ∀ e paths, P e → P (e.delete paths).1) (src : Source) {e : Engine}
    (batch : List Operation) (he : P e) : P (applyAll src e batch) := by
  have haddRead : ∀ e docs, P e → P (addRead e docs) := by
    intro e docs he
    rw [addRead]
    split
    · exact he
    · exact hadd e docs he
  refine haddRead _ _ (List.foldlRecOn (motive := fun acc : Engine × List Document => P acc.1)
    _ _ he fun acc hacc op _ => ?_)
  cases op with
  | add path source time =>
      rw [applyOne]
      split
      · exact hacc
      · exact hdelete acc.1 [path] hacc
  | delete path time => exact hdelete (addRead acc.1 acc.2) [path] (haddRead _ _ hacc)

end Curator

/-! ## Single operations -/

/-- What an operation leaves at its path, where there was `old` and a document is
turned into what `value` makes of it. -/
def Operation.outcome {α : Type} (src : Source) (value : Document → α) (old : Option α) :
    Operation → Option α
  | .add path source _ =>
    match src.readAs? path source with
    | none => old
    | some d => some (value d)
  | .delete _ _ => none

theorem Operation.map_outcome {α β : Type} (f : α → β) (src : Source) (value : Document → α)
    (old : Option α) (op : Operation) :
    (op.outcome src value old).map f = op.outcome src (f ∘ value) (old.map f) := by
  cases op with
  | add path source time =>
      rw [outcome, outcome]
      cases src.readAs? path source <;> rfl
  | delete path time => rfl

/-- The operation at time zero. -/
def Operation.untimed : Operation → Operation
  | add path source _ => add path source 0
  | delete path _ => delete path 0

theorem Operation.path_untimed (op : Operation) : op.untimed.path = op.path := by
  cases op <;> rfl

/-- What an operation leaves does not depend on its time. -/
theorem Operation.outcome_untimed {α : Type} (src : Source) (value : Document → α)
    (old : Option α) (op : Operation) :
    op.untimed.outcome src value old = op.outcome src value old := by
  cases op <;> rfl

theorem Source.path_of_readAs? {src : Source} {path source : String} {d : Document}
    (h : src.readAs? path source = some d) : d.path = path := by
  rw [Source.readAs?] at h
  split at h
  · cases h
  · obtain rfl := Option.some.inj h
    split
    · rename_i hpath
      exact hpath
    · rfl

/-! ## Documents held back -/

namespace Engine

variable {c : Config} {segmenter : Option Segmenter} {e : Engine} {H N : Holdings}

/-- What is held of a document by an engine that was made with `c` and `segmenter`. -/
def heldOf (c : Config) (segmenter : Option Segmenter) (d : Document) : Index.Held :=
  Index.Held.of ((Engine.new c segmenter).analyse d)

/-- The engine, once the documents held back are added, holds `N`; their paths are
free and distinct. -/
structure Holding (c : Config) (segmenter : Option Segmenter) (e : Engine)
    (docs : List Document) (N : Holdings) : Prop where
  standsFor : ∃ H, StandsFor c segmenter e H ∧ (∀ d ∈ docs, H d.path = none) ∧
    N = H.add (docs.map (Engine.new c segmenter).analyse)
  nodup : (docs.map (·.path)).Nodup

theorem Holding.addRead {docs : List Document} (h : Holding c segmenter e docs N) :
    StandsFor c segmenter (Curator.addRead e docs) N := by
  obtain ⟨H, hH, -, rfl⟩ := h.standsFor
  rw [Curator.addRead]
  split
  · rename_i hempty
    rw [List.isEmpty_iff.mp hempty]
    rw [List.map_nil, Holdings.add_nil]
    exact hH
  · have hadd := hH.add docs
    rwa [hH.analyse_eq] at hadd

/-- A new document in place of what its path held updates the map there, whatever else
is added. -/
theorem Holdings.add_erase_append (H : Holdings) (as : List Analysed) {a : Analysed}
    {path : String} (hpath : a.path = path) (has : ∀ b ∈ as, b.path ≠ path) :
    (H.erase [path]).add (as ++ [a]) =
      Function.update (H.add as) path (some (Index.Held.of a)) := by
  funext p
  rw [Holdings.add, Holdings.erase, List.find?_append, List.find?_singleton, hpath]
  by_cases hp : path = p
  · subst hp
    have hnone : as.find? (fun b => decide (b.path = path)) = none :=
      List.find?_eq_none.mpr fun b hb heq => has b hb (of_decide_eq_true heq)
    simp [hnone]
  · have hp' : p ≠ path := fun h => hp h.symm
    simp [hp, hp', Holdings.add]

/-- One operation updates what the engine is going to hold at its path. -/
theorem Holding.applyOne (src : Source) {docs : List Document}
    (h : Holding c segmenter e docs N) (op : Operation) (hop : ∀ d ∈ docs, d.path ≠ op.path) :
    Holding c segmenter (Curator.applyOne src (e, docs) op).1
      (Curator.applyOne src (e, docs) op).2
      (Function.update N op.path (op.outcome src (heldOf c segmenter) (N op.path))) ∧
    ∀ d ∈ (Curator.applyOne src (e, docs) op).2, d ∈ docs ∨ d.path = op.path := by
  cases op with
  | add path source time =>
      rw [Curator.applyOne, Operation.outcome]
      cases hread : src.readAs? path source with
      | none =>
          simp only [Operation.path, Function.update_eq_self]
          exact ⟨h, fun d hd => Or.inl hd⟩
      | some d =>
          have hpath := Source.path_of_readAs? hread
          simp only [Operation.path] at hop ⊢
          obtain ⟨H, hH, hfree, rfl⟩ := h.standsFor
          refine ⟨⟨⟨H.erase [path], hH.delete [path], ?_, ?_⟩, ?_⟩, ?_⟩
          · intro d' hd'
            rw [Holdings.erase]
            rcases List.mem_append.mp hd' with hd' | hd'
            · split
              · rfl
              · exact hfree d' hd'
            · rw [List.mem_singleton.mp hd', hpath, if_pos (List.mem_singleton_self path)]
          · rw [List.map_append, List.map_singleton]
            refine (Holdings.add_erase_append H _ hpath fun a ha => ?_).symm
            obtain ⟨d', hd', rfl⟩ := List.mem_map.mp ha
            exact hop d' hd'
          · rw [List.map_append, List.nodup_append]
            refine ⟨h.nodup, List.nodup_singleton _, ?_⟩
            intro p hp q hq
            obtain ⟨d', hd', rfl⟩ := List.mem_map.mp hp
            rw [List.map_singleton, List.mem_singleton, hpath] at hq
            rw [hq]
            exact hop d' hd'
          · intro d' hd'
            rcases List.mem_append.mp hd' with hd' | hd'
            · exact Or.inl hd'
            · rw [List.mem_singleton.mp hd']
              exact Or.inr hpath
  | delete path time =>
      rw [Curator.applyOne, Operation.outcome]
      refine ⟨⟨⟨N.erase [path], h.addRead.delete [path], by simp, ?_⟩, List.nodup_nil⟩, by simp⟩
      rw [List.map_nil, Holdings.add_nil]
      funext p
      by_cases hp : p = path <;> simp [Operation.path, Holdings.erase, hp]

/-- Operations on distinct paths, none of them held back, update the map one path
after the other. -/
theorem Holding.applyEach (src : Source) : ∀ (ops : List Operation) {e : Engine}
    {docs : List Document} {N : Holdings}, Holding c segmenter e docs N →
    (ops.map Operation.path).Nodup → (∀ op ∈ ops, ∀ d ∈ docs, d.path ≠ op.path) →
    ∃ N', Holding c segmenter (ops.foldl (Curator.applyOne src) (e, docs)).1
        (ops.foldl (Curator.applyOne src) (e, docs)).2 N' ∧
      (∀ op ∈ ops, N' op.path = op.outcome src (heldOf c segmenter) (N op.path)) ∧
      ∀ p, (∀ op ∈ ops, op.path ≠ p) → N' p = N p
  | [], e, docs, N, h, _, _ => ⟨N, h, by simp, fun p _ => rfl⟩
  | op :: ops, e, docs, N, h, hnd, hops => by
      obtain ⟨hop, hnd⟩ := List.nodup_cons.mp hnd
      obtain ⟨hnext, hdocs⟩ := h.applyOne src op (hops op List.mem_cons_self)
      have hfresh : ∀ op' ∈ ops, op'.path ≠ op.path := fun op' hop' heq =>
        hop (List.mem_map.mpr ⟨op', hop', heq⟩)
      obtain ⟨N', hN', hout, hrest⟩ := applyEach src ops hnext hnd fun op' hop' d hd => by
        rcases hdocs d hd with hd | hd
        · exact hops op' (List.mem_cons_of_mem _ hop') d hd
        · rw [hd]
          exact (hfresh op' hop').symm
      refine ⟨N', hN', ?_, ?_⟩
      · intro op' hop'
        rcases List.mem_cons.mp hop' with rfl | hop'
        · rw [hrest _ hfresh, Function.update_self]
        · rw [hout op' hop', Function.update_of_ne (hfresh op' hop')]
      · intro p hp
        rw [hrest p fun op' hop' => hp op' (List.mem_cons_of_mem _ hop'),
          Function.update_of_ne (hp op List.mem_cons_self).symm]

/-! ## Whole batches -/

/-- A batch of operations on distinct paths leaves at each path what the operation on it
leaves there, whatever their order and their times. -/
theorem StandsFor.applyAll (h : StandsFor c segmenter e H) (src : Source)
    {batch : List Operation} (hnd : (batch.map Operation.path).Nodup) :
    ∃ H', StandsFor c segmenter (Curator.applyAll src e batch) H' ∧
      (∀ op ∈ batch, H' op.path = op.outcome src (heldOf c segmenter) (H op.path)) ∧
      ∀ p, (∀ op ∈ batch, op.path ≠ p) → H' p = H p := by
  have hperm := List.mergeSort_perm batch fun a b => a.time ≤ b.time
  have hstart : Holding c segmenter e [] H :=
    ⟨⟨H, h, by simp, (Holdings.add_nil H).symm⟩, List.nodup_nil⟩
  obtain ⟨H', hH', hout, hrest⟩ := hstart.applyEach src _
    (((hperm.map Operation.path).nodup_iff).mpr hnd) (by simp)
  refine ⟨H', hH'.addRead, ?_, ?_⟩
  · intro op hop
    exact hout op (hperm.mem_iff.mpr hop)
  · intro p hp
    exact hrest p fun op hop => hp op (hperm.mem_iff.mp hop)

/-- The same operations, in another order and at other times, leave the same. -/
theorem StandsFor.applyAll_perm (h : StandsFor c segmenter e H) (src : Source)
    {batch batch' : List Operation} (hnd : (batch.map Operation.path).Nodup)
    (hsame : (batch'.map Operation.untimed).Perm (batch.map Operation.untimed)) :
    (Curator.applyAll src e batch').held = (Curator.applyAll src e batch).held := by
  have hpaths : (batch'.map Operation.path).Perm (batch.map Operation.path) := by
    have hmap := hsame.map Operation.path
    simpa only [List.map_map, Function.comp_def, Operation.path_untimed] using hmap
  obtain ⟨H₁, hH₁, hout₁, hrest₁⟩ := h.applyAll src hnd
  obtain ⟨H₂, hH₂, hout₂, hrest₂⟩ := h.applyAll src (hpaths.nodup_iff.mpr hnd)
  rw [hH₁.held, hH₂.held]
  funext p
  by_cases hp : p ∈ batch.map Operation.path
  · obtain ⟨op, hop, rfl⟩ := List.mem_map.mp hp
    obtain ⟨op', hop', heq⟩ := List.mem_map.mp (hsame.mem_iff.mpr (List.mem_map_of_mem hop))
    have hpath : op'.path = op.path := by
      rw [← op'.path_untimed, heq, op.path_untimed]
    have hnew := hout₂ op' hop'
    rw [hpath, ← op'.outcome_untimed, heq, op.outcome_untimed] at hnew
    rw [hnew, hout₁ op hop]
  · have hp' : p ∉ batch'.map Operation.path := fun h => hp (hpaths.mem_iff.mp h)
    simp only [List.mem_map, not_exists, not_and] at hp hp'
    rw [hrest₁ p hp, hrest₂ p hp']

/-- A batch of whatever operations is a run of the engine. -/
theorem Holds.exists_applyAll {M : Contents} (h : Holds c segmenter e M) (src : Source)
    (batch : List Operation) : ∃ M', Holds c segmenter (Curator.applyAll src e batch) M' :=
  Curator.applyAll_induction (P := fun e => ∃ M, Holds c segmenter e M)
    (fun _ docs ⟨_, h⟩ => ⟨_, h.add docs⟩) (fun _ paths ⟨_, h⟩ => ⟨_, h.delete paths⟩) src batch
    ⟨M, h⟩

/-- On the map that the engine stands for a batch does the same. -/
theorem Holds.applyAll {M : Contents} (h : Holds c segmenter e M) (src : Source)
    {batch : List Operation} (hnd : (batch.map Operation.path).Nodup) :
    ∃ M', Holds c segmenter (Curator.applyAll src e batch) M' ∧
      (∀ op ∈ batch, M' op.path =
        op.outcome src (fun d => ((Engine.new c segmenter).analyse d).fields) (M op.path)) ∧
      ∀ p, (∀ op ∈ batch, op.path ≠ p) → M' p = M p := by
  obtain ⟨H', hH', hout, hothers⟩ := h.reached.standsFor.applyAll src hnd
  obtain ⟨M', hM'⟩ := h.exists_applyAll src batch
  have hnew : ∀ p, M' p = (H' p).map Index.Held.fields := by
    intro p
    rw [← hM'.contents_eq, contents_eq_held, hH'.held]
  refine ⟨M', hM', ?_, ?_⟩
  · intro op hop
    rw [hnew, hout op hop, Operation.map_outcome, ← contents_eq_held, h.contents_eq]
    rfl
  · intro p hp
    rw [hnew, hothers p hp, ← contents_eq_held, h.contents_eq]

/-! ## Pointwise updates -/

/-- The engine `e'` holds what `e` holds but for the paths of the batch: the document that an
addition has read, as one at its path, and nothing after a deletion. An addition whose
document cannot be read leaves its path alone. -/
structure PointwiseUpdate (src : Source) (batch : List Operation) (e e' : Engine) : Prop where
  read : ∀ path source t d, .add path source t ∈ batch → src.read source = .ok d →
    e'.held path = some (Index.Held.of
      (e.analyse (if d.path = path then d else Document.ofPath path d.content d.aliases)))
  unread : ∀ path source t fault, .add path source t ∈ batch → src.read source = .error fault →
    e'.held path = e.held path
  deleted : ∀ path t, .delete path t ∈ batch → e'.held path = none
  others : ∀ path, (∀ op ∈ batch, op.path ≠ path) → e'.held path = e.held path

theorem StandsFor.pointwiseUpdate (h : StandsFor c segmenter e H) (src : Source)
    {batch : List Operation} (hnd : (batch.map Operation.path).Nodup) :
    PointwiseUpdate src batch e (Curator.applyAll src e batch) := by
  obtain ⟨H', hH', hout, hothers⟩ := h.applyAll src hnd
  have hvalue : heldOf c segmenter = fun d => Index.Held.of (e.analyse d) := by
    rw [h.analyse_eq]
    rfl
  rw [← hH'.held, ← h.held, hvalue] at hout
  rw [← hH'.held, ← h.held] at hothers
  refine ⟨?_, ?_, fun path t hop => hout _ hop, hothers⟩
  · intro path source t d hop hread
    have hnew := hout _ hop
    rwa [Operation.outcome, Source.readAs?, hread] at hnew
  · intro path source t fault hop hread
    have hnew := hout _ hop
    rwa [Operation.outcome, Source.readAs?, hread] at hnew

/-- After any commands and whatever the source answers, a batch of operations on distinct
paths is a pointwise update, and neither the order of the operations nor their times matter. -/
theorem Reached.applyAll_pointwise (h : Reached c segmenter e) (src : Source)
    {batch : List Operation} (hnd : (batch.map Operation.path).Nodup) :
    Reached c segmenter (Curator.applyAll src e batch) ∧
    PointwiseUpdate src batch e (Curator.applyAll src e batch) ∧
    ∀ batch' : List Operation,
      (batch'.map Operation.untimed).Perm (batch.map Operation.untimed) →
      (Curator.applyAll src e batch').held = (Curator.applyAll src e batch).held := by
  refine ⟨?_, h.standsFor.pointwiseUpdate src hnd,
    fun batch' hsame => h.standsFor.applyAll_perm src hnd hsame⟩
  exact Curator.applyAll_induction (fun e docs h => h.obey (.change (.add docs)))
    (fun e paths h => h.obey (.change (.delete paths))) src batch h

/-- A document that claims another path, one that cannot be read and a deletion, the later
before the earlier. -/
theorem applyAll_pointwise_of_three :
    let old := Document.ofPath "b.md" (some "apple") none
    let found := Document.ofPath "elsewhere.md" (some "apple pie") none
    let e := ((Engine.new {} none).add [old]).1
    let src : Source :=
      ⟨fun s => if s = "a.md" then .ok found else .error (.fault (.documentNotFound s)),
        fun s => .error (.fault (.documentNotFound s)), .ok []⟩
    let batch := [.add "c.md" "c.md" 3, .delete "b.md" 2, .add "a.md" "a.md" 1]
    let e' := Curator.applyAll src e batch
    e'.held "a.md" =
        some (Index.Held.of (e.analyse (Document.ofPath "a.md" (some "apple pie") none))) ∧
      e'.held "b.md" = none ∧ e'.held "c.md" = e.held "c.md" := by
  intro old found e src batch e'
  have hreached : Reached {} none e := ⟨[.change (.add [old])], rfl⟩
  have hnd : (batch.map Operation.path).Nodup := by decide
  obtain ⟨-, hupdate, -⟩ := Reached.applyAll_pointwise hreached src hnd
  refine ⟨?_, ?_, ?_⟩
  · exact hupdate.read "a.md" "a.md" 1 found (by simp [batch]) rfl
  · exact hupdate.deleted "b.md" 2 (by simp [batch])
  · exact hupdate.unread "c.md" "c.md" 3 (.fault (.documentNotFound "c.md")) (by simp [batch]) rfl

end Engine

end VaultSearch

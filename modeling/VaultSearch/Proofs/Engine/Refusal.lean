import VaultSearch.Proofs.Engine.Interleaving
import VaultSearch.Proofs.Engine.Tidy

/-!
# Refused snapshots

A load clears the index before it looks at the blob, and a blob may be refused
for its header, its check sum, its compressed part, its value or the index
that it holds. What is left then is not a new engine: it is ready and may be
marked as updated. But the phase and the mark are all that tells it from one,
and neither of them has a say in what a command does to the documents
(`SameData.obey`) or reports (`SameData.report_eq`), nor in any answer but
during a rebuild. So no later command or question finds out that there was an
engine before the load (`Reached.load_refused`).
-/

namespace VaultSearch.Engine

/-! ## Reports -/

/-- What the caller of a command is told. -/
inductive Report where
  | paths (paths : List String)
  | count (n : Except Fault Nat)

def report (e : Engine) : Command → Report
  | .reindex docs => .count (.ok (e.reindex docs).2)
  | .load blob => .count (e.load blob).2
  | .change m => .paths (e.mutate m).2

/-! ## Commands on the same data -/

namespace SameData

variable {e e' : Engine}

theorem readSnapshot_eq (h : SameData e e') : e'.readSnapshot = e.readSnapshot := by
  funext blob
  rw [readSnapshot, readSnapshot, h.config]

theorem insertDocument (h : SameData e e') (d : Document) :
    SameData (e.insertDocument d) (e'.insertDocument d) := by
  have hanalyse : e'.analyse d = e.analyse d := by
    rw [analyse, analyse]
    unfold terms
    rw [h.tokenizer, h.config]
  refine ⟨h.config, h.tokenizer, ?_, ?_⟩
  · rw [Engine.insertDocument, Engine.insertDocument, hanalyse, h.index]
  · rw [Engine.insertDocument, Engine.insertDocument, h.slots, h.index]

theorem insertAll : ∀ (docs : List Document) {e e' : Engine}, SameData e e' →
    SameData (docs.foldl Engine.insertDocument e) (docs.foldl Engine.insertDocument e')
  | [], _, _, h => h
  | d :: docs, _, _, h => insertAll docs (h.insertDocument d)

theorem step (h : SameData e e') : ∀ s : Step, SameData (e.step s) (e'.step s)
  | .enter _ | .touch => ⟨h.config, h.tokenizer, h.index, h.slots⟩
  | .clearIndex | .setIndex _ => ⟨h.config, h.tokenizer, rfl, h.slots⟩
  | .clearSlots | .setSlots _ => ⟨h.config, h.tokenizer, h.index, rfl⟩
  | .addChunk docs => h.insertAll docs

theorem run : ∀ (steps : List Step) {e e' : Engine}, SameData e e' →
    SameData (e.run steps) (e'.run steps)
  | [], _, _, h => h
  | s :: steps, _, _, h => run steps (h.step s)

theorem insertSteps_eq (h : SameData e e') (docs : List Document) :
    e'.insertSteps docs = e.insertSteps docs := by
  rw [insertSteps, insertSteps, h.config]

theorem contains_eq (h : SameData e e') : e'.contains = e.contains := by
  funext p
  rw [contains, contains, h.slots]

/-- An addition may end with a change of the phase, which is none of the data. -/
theorem of_add (e : Engine) (docs : List Document) :
    SameData (e.run (e.insertSteps (freshDocuments e.contains docs))) (e.add docs).1 := by
  rw [add, addSteps, run_append]
  split <;> exact ⟨rfl, rfl, rfl, rfl⟩

theorem symm (h : SameData e e') : SameData e' e :=
  ⟨h.config.symm, h.tokenizer.symm, h.index.symm, h.slots.symm⟩

theorem add (h : SameData e e') (docs : List Document) :
    SameData (e.add docs).1 (e'.add docs).1 := by
  have hrun := h.run (e.insertSteps (freshDocuments e.contains docs))
  have hadd' := of_add e' docs
  rw [h.insertSteps_eq, h.contains_eq] at hadd'
  exact ((of_add e docs).symm.trans hrun).trans hadd'

theorem deleteOne {acc acc' : Engine × List String} (h : SameData acc.1 acc'.1)
    (hremoved : acc'.2 = acc.2) (p : String) :
    SameData (Engine.deleteOne acc p).1 (Engine.deleteOne acc' p).1 ∧
      (Engine.deleteOne acc' p).2 = (Engine.deleteOne acc p).2 := by
  rw [Engine.deleteOne, Engine.deleteOne, h.slots, h.index]
  cases acc.1.slots[p]? with
  | none => exact ⟨h, hremoved⟩
  | some slot =>
      simp only []
      rw [hremoved]
      split <;> exact ⟨⟨h.config, h.tokenizer, rfl, rfl⟩, rfl⟩

theorem deleteAll : ∀ (paths : List String) {acc acc' : Engine × List String},
    SameData acc.1 acc'.1 → acc'.2 = acc.2 →
    SameData (paths.foldl Engine.deleteOne acc).1 (paths.foldl Engine.deleteOne acc').1 ∧
      (paths.foldl Engine.deleteOne acc').2 = (paths.foldl Engine.deleteOne acc).2
  | [], _, _, h, hremoved => ⟨h, hremoved⟩
  | p :: paths, _, _, h, hremoved =>
      have hfirst := h.deleteOne hremoved p
      deleteAll paths hfirst.1 hfirst.2

theorem delete (h : SameData e e') (paths : List String) :
    SameData (e.delete paths).1 (e'.delete paths).1 ∧
      (e'.delete paths).2 = (e.delete paths).2 := by
  have hfold : SameData (paths.foldl Engine.deleteOne (e, [])).1
        (paths.foldl Engine.deleteOne (e', [])).1 ∧
      (paths.foldl Engine.deleteOne (e', [])).2 = (paths.foldl Engine.deleteOne (e, [])).2 :=
    deleteAll paths h rfl
  obtain ⟨hall, hremoved⟩ := hfold
  rw [Engine.delete, Engine.delete]
  simp only []
  rw [hremoved]
  split
  · exact ⟨hall, rfl⟩
  · exact ⟨⟨hall.config, hall.tokenizer, hall.index, hall.slots⟩, rfl⟩

/-- A command does the same to the data. -/
theorem obey (h : SameData e e') : ∀ cmd : Command, SameData (e.obey cmd) (e'.obey cmd)
  | .reindex docs => by
      have hrun := h.run (e.reindexSteps docs)
      rwa [Engine.obey, Engine.obey, reindex, reindex, reindexSteps, reindexSteps,
        h.insertSteps_eq]
  | .load blob => by
      have hrun := h.run (e.loadSteps blob)
      rwa [Engine.obey, Engine.obey, load, load, loadSteps, loadSteps, h.readSnapshot_eq]
  | .change (.add docs) => h.add docs
  | .change (.delete paths) => (h.delete paths).1

theorem obeyAll : ∀ (cs : List Command) {e e' : Engine}, SameData e e' →
    SameData (e.obeyAll cs) (e'.obeyAll cs)
  | [], _, _, h => h
  | cmd :: cs, _, _, h => obeyAll cs (h.obey cmd)

/-- A command reports the same. -/
theorem report_eq (h : SameData e e') : ∀ cmd : Command, e'.report cmd = e.report cmd
  | .reindex _ => rfl
  | .load blob => by rw [report, report, Engine.load, Engine.load, h.readSnapshot_eq]
  | .change (.add docs) => by
      rw [report, report, mutate, mutate, Engine.add, Engine.add, h.contains_eq]
  | .change (.delete paths) => congrArg Report.paths (h.delete paths).2

end SameData

/-! ## Refusals -/

/-- Nothing that may be asked of the two engines next tells them apart. -/
structure Alike (S : Type) [Score S] (e e' : Engine) : Prop where
  report : ∀ cmd, e.report cmd = e'.report cmd
  reply : ∀ q, e.reply (S := S) q = e'.reply q
  contains : ∀ p, e.contains p = e'.contains p
  size : e.size = e'.size
  pathsUnder : ∀ dir, e.pathsUnder dir = e'.pathsUnder dir
  documents : e.stats.documents = e'.stats.documents
  terms : e.stats.terms = e'.stats.terms

theorem SameData.alike (S : Type) [Score S] {e e' : Engine} (h : SameData e e')
    (hready : e.isReady) (hready' : e'.isReady) : Alike S e' e where
  report := h.report_eq
  reply := h.reply_eq hready hready'
  contains p := by rw [h.contains_eq]
  size := by rw [size, size, h.slots]
  pathsUnder dir := by rw [pathsUnder, pathsUnder, h.slots]
  documents := by rw [stats, stats, h.index]
  terms := by rw [stats, stats, h.index]

theorem MadeWith.sameData_new {c : Config} {segmenter : Option Segmenter} {e : Engine}
    (h : MadeWith c segmenter e) (hindex : e.index = {}) (hslots : e.slots = {}) :
    SameData (Engine.new c segmenter) e :=
  ⟨h.config, h.tokenizer, hindex, hslots⟩

/-- A load is answered or the snapshot is refused. Refusing it leaves an engine that is ready
and empty, and whatever is asked of it from then on, it acts and answers as a new one. -/
theorem Reached.load_refused (S : Type) [Score S] {c : Config} {segmenter : Option Segmenter}
    {e : Engine} (h : Reached c segmenter e) (blob : List UInt8) :
    ((∃ n, (e.load blob).2 = .ok n) ∨
      ∃ r, (e.load blob).2 = .error (.snapshotIncompatible r)) ∧
    ∀ fault, (e.load blob).2 = .error fault →
      (e.load blob).1.index = {} ∧ (e.load blob).1.slots = {} ∧
      (e.load blob).1.stats = ⟨0, 0, .ready, e.updated⟩ ∧
      ∀ cs : List Command,
        Alike S ((e.load blob).1.obeyAll cs) ((Engine.new c segmenter).obeyAll cs) := by
  cases hread : e.readSnapshot blob with
  | ok ix =>
      rw [load_of_ok hread]
      refine ⟨.inl ⟨_, rfl⟩, fun fault hfault => ?_⟩
      cases hfault
  | error r =>
      rw [load_of_error hread]
      refine ⟨.inr ⟨r, rfl⟩, fun fault _ => ⟨rfl, rfl, rfl, fun cs => ?_⟩⟩
      have hmade : MadeWith c segmenter { e with phase := .ready, index := {}, slots := {} } :=
        ⟨h.madeWith.config, h.madeWith.tokenizer⟩
      have hsame := (hmade.sameData_new rfl rfl).obeyAll cs
      exact hsame.alike S (isReady_obeyAll cs rfl) (isReady_obeyAll cs rfl)

/-- A snapshot that was made where case counts, brought to an engine where it does not. -/
theorem load_refused_for_letter_case :
    let e := ((Engine.new {} none).add [Document.ofPath "a.md" (some "apple") none]).1
    let e' := Engine.new { search := { caseSensitive := true } } none
    (∃ r, (e.load e'.serialize).2 = .error (.snapshotIncompatible r)) ∧
      ∀ cs : List Command,
        Alike Float ((e.load e'.serialize).1.obeyAll cs) ((Engine.new {} none).obeyAll cs) := by
  intro e e'
  have hreached : Reached {} none e :=
    ⟨[.change (.add [Document.ofPath "a.md" (some "apple") none])], rfl⟩
  have hfp : e'.config.fingerprint ≠ e.config.fingerprint := by
    rw [hreached.madeWith.config]
    decide
  have hempty : e'.index.Records [] := Index.Records.empty
  have hread := e.readSnapshot_serialize hempty
  rw [if_neg fun hacc => hfp hacc.1, if_neg hfp] at hread
  have hrefused := congrArg Prod.snd (load_of_error hread)
  exact ⟨⟨_, hrefused⟩, ((Reached.load_refused Float hreached e'.serialize).2 _ hrefused).2.2.2⟩

end VaultSearch.Engine

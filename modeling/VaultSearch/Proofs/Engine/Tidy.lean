import VaultSearch.Proofs.Engine.Moves
import VaultSearch.Proofs.Index.Seats

/-!
# Engines after any commands

`Engine.Reached` is said of what adding, deleting, rebuilding and loading lead
to in any order, where a load is given any bytes whatever. An index that is
loaded need not be one that an engine would build: it may list a path twice,
or an entry may lack terms that have postings in its slot. Two things hold all
the same (`Engine.Tidy`): the slot of a path is that of a document with this
path, and no posting stands for a slot that is still to be given.

That is enough for additions and deletions to do to what the engine holds at
each path (`Engine.held`) what they are meant to do to it (`Tidy.held_add`,
`Tidy.held_delete`). The map that the engine stands for tells the terms at a
path, `Engine.held` the entry too: only of an index that an engine built does
the one follow from the other.
-/

namespace VaultSearch

/-- What is held at each path. -/
abbrev Holdings := String → Option Index.Held

namespace Holdings

/-- Take in documents whose path is absent, the first of each path. -/
def add (H : Holdings) (docs : List Analysed) : Holdings :=
  fun p => (H p).or ((docs.find? (·.path = p)).map Index.Held.of)

def erase (H : Holdings) (paths : List String) : Holdings :=
  fun p => if p ∈ paths then none else H p

theorem add_nil (H : Holdings) : H.add [] = H := by
  funext p
  rw [add]
  cases H p <;> rfl

theorem add_append (H : Holdings) (as bs : List Analysed) :
    H.add (as ++ bs) = (H.add as).add bs := by
  funext p
  rw [add, List.find?_append, add, add, Option.or_assoc]
  cases as.find? (·.path = p) <;> rfl

/-- What is added at other paths changes nothing at a path. -/
theorem add_singleton_of_ne (H : Holdings) {a : Analysed} {p : String} (h : a.path ≠ p) :
    H.add [a] p = H p := by
  simp [add, h]

theorem erase_nil (H : Holdings) : H.erase [] = H := by
  funext p
  simp [erase]

theorem erase_cons (H : Holdings) (p : String) (paths : List String) :
    H.erase (p :: paths) = (H.erase [p]).erase paths := by
  funext q
  simp only [erase, List.mem_cons, List.not_mem_nil, or_false]
  by_cases hq : q = p <;> simp [hq]

end Holdings

namespace Engine

/-- The engine was made with `c` and `segmenter`, and commands have led to it. -/
def Reached (c : Config) (segmenter : Option Segmenter) (e : Engine) : Prop :=
  ∃ cs : List Command, e = (Engine.new c segmenter).obeyAll cs

variable {c : Config} {segmenter : Option Segmenter} {e : Engine}

theorem Reached.obey (h : Reached c segmenter e) (cmd : Command) :
    Reached c segmenter (e.obey cmd) := by
  obtain ⟨cs, rfl⟩ := h
  refine ⟨cs ++ [cmd], ?_⟩
  rw [obeyAll, obeyAll, List.foldl_append]
  rfl

theorem Holds.reached {M : Contents} (h : Holds c segmenter e M) : Reached c segmenter e := by
  induction h with
  | new => exact ⟨[], rfl⟩
  | add _ docs ih => exact ih.obey (.change (.add docs))
  | delete _ paths ih => exact ih.obey (.change (.delete paths))
  | reindex _ docs ih => exact ih.obey (.reindex docs)
  | load _ _ ih _ => exact ih.obey (.load _)

/-! ## What every engine keeps -/

theorem tokenizer_step (e : Engine) (s : Step) : (e.step s).tokenizer = e.tokenizer := by
  cases s with
  | addChunk docs =>
      obtain ⟨index, slots, heq⟩ := insertAll_data docs e
      rw [step, heq]
  | _ => rfl

theorem tokenizer_run : ∀ (steps : List Step) (e : Engine),
    (e.run steps).tokenizer = e.tokenizer
  | [], _ => rfl
  | s :: steps, e => (tokenizer_run steps (e.step s)).trans (tokenizer_step e s)

theorem MadeWith.run (h : MadeWith c segmenter e) (steps : List Step) :
    MadeWith c segmenter (e.run steps) :=
  ⟨(config_run steps e).trans h.config, (tokenizer_run steps e).trans h.tokenizer⟩

theorem MadeWith.obey (h : MadeWith c segmenter e) : ∀ cmd : Command,
    MadeWith c segmenter (e.obey cmd)
  | .reindex _ | .load _ | .change (.add _) => h.run _
  | .change (.delete paths) => by
      obtain ⟨index, slots, updated, heq, -⟩ := delete_data e paths
      rw [Engine.obey, mutate, heq]
      exact ⟨h.config, h.tokenizer⟩

theorem MadeWith.obeyAll : ∀ (cs : List Command) {e : Engine}, MadeWith c segmenter e →
    MadeWith c segmenter (e.obeyAll cs)
  | [], _, h => h
  | cmd :: cs, _, h => MadeWith.obeyAll cs (h.obey cmd)

theorem Reached.madeWith (h : Reached c segmenter e) : MadeWith c segmenter e := by
  obtain ⟨cs, rfl⟩ := h
  exact MadeWith.obeyAll cs ⟨rfl, rfl⟩

/-- The slots are those of documents with their paths, and the postings are in slots that were
given. -/
structure Tidy (e : Engine) : Prop where
  aligned : e.Aligned
  seated : e.index.Seated

theorem tidy_of_empty (hslots : e.slots = {}) (hindex : e.index = {}) : e.Tidy :=
  ⟨aligned_of_slots_empty hslots, hindex ▸ Index.seated_empty⟩

namespace Tidy

theorem insertDocument (h : e.Tidy) (d : Document) : (e.insertDocument d).Tidy :=
  ⟨h.aligned.insertDocument d, h.seated.insert (e.sorted_analyse d)⟩

theorem insertAll : ∀ (docs : List Document) {e : Engine}, e.Tidy →
    (docs.foldl Engine.insertDocument e).Tidy
  | [], _, h => h
  | d :: docs, _, h => insertAll docs (h.insertDocument d)

theorem run_insertSteps (h : e.Tidy) (e' : Engine) (docs : List Document) :
    (e.run (e'.insertSteps docs)).Tidy := by
  rw [Engine.run_insertSteps]
  split
  · exact h
  · exact ⟨(h.insertAll docs).aligned, (h.insertAll docs).seated⟩

theorem add (h : e.Tidy) (docs : List Document) : (e.add docs).1.Tidy := by
  have hinsert := h.run_insertSteps e (freshDocuments e.contains docs)
  rw [Engine.add, addSteps, run_append]
  split
  · exact ⟨hinsert.aligned, hinsert.seated⟩
  · exact hinsert

theorem deleteOne {acc : Engine × List String} (h : acc.1.Tidy) (p : String) :
    (Engine.deleteOne acc p).1.Tidy := by
  refine ⟨h.aligned.deleteOne p, ?_⟩
  rw [Engine.deleteOne]
  cases hslot : acc.1.slots[p]? with
  | none => exact h.seated
  | some slot =>
      obtain ⟨entry, hentry, -⟩ := h.aligned p slot hslot
      simp only [hentry]
      exact h.seated.remove hentry

theorem deleteAll : ∀ (paths : List String) {acc : Engine × List String}, acc.1.Tidy →
    (paths.foldl Engine.deleteOne acc).1.Tidy
  | [], _, h => h
  | p :: paths, _, h => deleteAll paths (h.deleteOne p)

theorem delete {e : Engine} (h : e.Tidy) (paths : List String) : (e.delete paths).1.Tidy := by
  have hall : (paths.foldl Engine.deleteOne (e, [])).1.Tidy := deleteAll paths h
  rw [Engine.delete]
  simp only []
  split
  · exact hall
  · exact ⟨hall.aligned, hall.seated⟩

end Tidy

/-- What a snapshot brings has passed the check of the index. -/
theorem check_of_readSnapshot {blob : List UInt8} {ix : Index}
    (h : e.readSnapshot blob = .ok ix) : ix.check = .ok () := by
  rw [readSnapshot_eq] at h
  cases hdecode : Snapshot.decode Index.codec e.config.fingerprint blob with
  | error r =>
      rw [hdecode] at h
      cases h
  | ok ix' =>
      rw [hdecode] at h
      cases hcheck : ix'.check with
      | error r => simp [bind, Except.bind, hcheck] at h
      | ok u =>
          obtain rfl : ix' = ix := by
            simpa [bind, Except.bind, hcheck, pure, Except.pure] using h
          exact hcheck

theorem tidy_load (e : Engine) (blob : List UInt8) : (e.load blob).1.Tidy := by
  cases hread : e.readSnapshot blob with
  | error r =>
      rw [load_of_error hread]
      exact tidy_of_empty rfl rfl
  | ok ix =>
      rw [load_of_ok hread]
      exact ⟨fun p s hs => entry?_of_slotsOf hs,
        Index.seated_of_check (check_of_readSnapshot hread)⟩

theorem tidy_reindex (e : Engine) (docs : List Document) : (e.reindex docs).1.Tidy := by
  have hclear : (e.run clearSteps).Tidy := tidy_of_empty rfl rfl
  have hinsert := hclear.run_insertSteps e (freshDocuments (fun _ => false) docs)
  rw [Engine.reindex, reindexSteps, run_append, run_append]
  exact ⟨hinsert.aligned, hinsert.seated⟩

theorem Tidy.obey (h : e.Tidy) : ∀ cmd : Command, (e.obey cmd).Tidy
  | .reindex docs => tidy_reindex e docs
  | .load blob => tidy_load e blob
  | .change (.add docs) => h.add docs
  | .change (.delete paths) => h.delete paths

theorem Tidy.obeyAll : ∀ (cs : List Command) {e : Engine}, e.Tidy → (e.obeyAll cs).Tidy
  | [], _, h => h
  | cmd :: cs, _, h => Tidy.obeyAll cs (h.obey cmd)

theorem Reached.tidy (h : Reached c segmenter e) : e.Tidy := by
  obtain ⟨cs, rfl⟩ := h
  exact Tidy.obeyAll cs (tidy_of_empty rfl rfl)

/-! ## Additions and deletions, path by path -/

/-- What an engine holds at each path. -/
def held (e : Engine) : Holdings := fun p => e.slots[p]?.map e.index.heldAt

theorem contents_eq_held (e : Engine) (p : String) :
    e.contents p = (e.held p).map Index.Held.fields := by
  rw [held, Option.map_map]
  rfl

theorem contains_eq_isSome_held (e : Engine) (p : String) : e.contains p = (e.held p).isSome := by
  rw [held, Option.isSome_map, contains, Std.TreeMap.contains_eq_isSome_getElem?]

/-- Analysing documents keeps their paths. -/
theorem find?_map_analyse (e : Engine) (docs : List Document) (p : String) :
    (docs.map e.analyse).find? (·.path = p) = (docs.find? (·.path = p)).map e.analyse := by
  rw [List.find?_map]
  rfl

namespace Tidy

theorem held_insertDocument (h : e.Tidy) {d : Document} (hd : e.held d.path = none) :
    (e.insertDocument d).held = e.held.add [e.analyse d] := by
  have hsorted := e.sorted_analyse d
  funext p
  rw [held, Engine.insertDocument, Std.TreeMap.getElem?_insert]
  by_cases hp : d.path = p
  · subst hp
    rw [if_pos Std.ReflCmp.compare_self, Option.map_some, h.seated.heldAt_insert hsorted,
      Holdings.add, hd]
    simp [analyse]
  · rw [if_neg (by simpa using hp), Holdings.add_singleton_of_ne _ hp, held]
    cases hslot : e.slots[p]? with
    | none => rfl
    | some s =>
        obtain ⟨entry, hentry, -⟩ := h.aligned p s hslot
        rw [Index.entry?, Option.join_eq_some_iff] at hentry
        rw [Option.map_some, Option.map_some,
          Index.heldAt_insert_of_lt hsorted (Array.getElem?_eq_some_iff.mp hentry).1]

theorem held_insertAll : ∀ (docs : List Document) {e : Engine}, e.Tidy →
    (docs.map (·.path)).Nodup → (∀ d ∈ docs, e.held d.path = none) →
    (docs.foldl Engine.insertDocument e).held = e.held.add (docs.map e.analyse)
  | [], e, _, _, _ => (Holdings.add_nil _).symm
  | d :: docs, e, h, hnd, hnew => by
      obtain ⟨hd, hnd⟩ := List.nodup_cons.mp hnd
      have hfirst := h.held_insertDocument (hnew d List.mem_cons_self)
      have hrest : ∀ d' ∈ docs, (e.insertDocument d).held d'.path = none := by
        intro d' hd'
        have hne : (e.analyse d).path ≠ d'.path :=
          fun heq => hd (List.mem_map.mpr ⟨d', hd', heq.symm⟩)
        rw [hfirst, Holdings.add_singleton_of_ne _ hne, hnew d' (List.mem_cons_of_mem _ hd')]
      rw [List.foldl_cons, held_insertAll docs (h.insertDocument d) hnd hrest, hfirst,
        ← Holdings.add_append]
      rfl

/-- Adding documents adds them to what is held, the first of each path that is absent. -/
theorem held_add (h : e.Tidy) (docs : List Document) :
    (e.add docs).1.held = e.held.add (docs.map e.analyse) := by
  have hnd : ((freshDocuments e.contains docs).map (·.path)).Nodup := by
    rw [paths_freshDocuments]
    exact nodup_eraseDups _
  have hnew : ∀ d ∈ freshDocuments e.contains docs, e.held d.path = none := by
    intro d hd
    have hmem := List.mem_map_of_mem (f := (·.path)) hd
    rw [paths_freshDocuments, List.mem_eraseDups, List.mem_filter,
      e.contains_eq_isSome_held] at hmem
    simpa using hmem.2
  have hadd : (e.add docs).1.held =
      ((freshDocuments e.contains docs).foldl Engine.insertDocument e).held := by
    have hrun : (e.run (e.insertSteps (freshDocuments e.contains docs))).held =
        ((freshDocuments e.contains docs).foldl Engine.insertDocument e).held := by
      rw [Engine.run_insertSteps]
      cases freshDocuments e.contains docs <;> rfl
    rw [← hrun, Engine.add, addSteps, run_append]
    split <;> rfl
  rw [hadd, held_insertAll _ h hnd hnew]
  funext p
  rw [Holdings.add, Holdings.add, find?_map_analyse, find?_map_analyse, find?_freshDocuments,
    e.contains_eq_isSome_held]
  cases e.held p <;> rfl

theorem held_deleteOne {acc : Engine × List String} (h : acc.1.Tidy) (p : String) :
    (Engine.deleteOne acc p).1.held = acc.1.held.erase [p] := by
  rw [Engine.deleteOne]
  cases hslot : acc.1.slots[p]? with
  | none =>
      funext q
      by_cases hq : q = p <;> simp [Holdings.erase, held, hq, hslot]
  | some slot =>
      obtain ⟨entry, hentry, hpath⟩ := h.aligned p slot hslot
      simp only [hentry]
      funext q
      rw [held, Std.TreeMap.getElem?_erase, Holdings.erase]
      by_cases hq : p = q
      · subst hq
        rw [if_pos Std.ReflCmp.compare_self, if_pos (List.mem_singleton_self p)]
        rfl
      · have hq' : q ≠ p := fun heq => hq heq.symm
        rw [if_neg (by simpa using hq), if_neg (by simpa using hq'), held]
        cases hslot' : acc.1.slots[q]? with
        | none => rfl
        | some s =>
            obtain ⟨entry', hentry', hpath'⟩ := h.aligned q s hslot'
            -- another path has another slot
            have hne : s ≠ slot := by
              rintro rfl
              rw [hentry] at hentry'
              exact hq (by rw [← hpath, ← hpath', Option.some.inj hentry'])
            rw [Option.map_some, Option.map_some, Index.heldAt_remove_of_ne hentry hne]

theorem held_deleteAll : ∀ (paths : List String) {acc : Engine × List String}, acc.1.Tidy →
    (paths.foldl Engine.deleteOne acc).1.held = acc.1.held.erase paths
  | [], acc, _ => (Holdings.erase_nil _).symm
  | p :: paths, acc, h => by
      rw [List.foldl_cons, held_deleteAll paths (h.deleteOne p), h.held_deleteOne,
        ← Holdings.erase_cons]

/-- Deleting paths erases them from what is held. -/
theorem held_delete (h : e.Tidy) (paths : List String) :
    (e.delete paths).1.held = e.held.erase paths := by
  have hall : (paths.foldl Engine.deleteOne (e, [])).1.held = e.held.erase paths :=
    held_deleteAll paths h
  rw [Engine.delete]
  simp only []
  split
  · exact hall
  · exact hall

end Tidy

/-- An engine that was made with `c` and `segmenter`, is tidy and holds `H`. -/
structure StandsFor (c : Config) (segmenter : Option Segmenter) (e : Engine) (H : Holdings) :
    Prop where
  made : MadeWith c segmenter e
  tidy : e.Tidy
  held : e.held = H

namespace StandsFor

variable {H : Holdings}

theorem analyse_eq (h : StandsFor c segmenter e H) :
    e.analyse = (Engine.new c segmenter).analyse :=
  h.made.analyse_eq ⟨rfl, rfl⟩ ⟨rfl, rfl, rfl⟩

theorem add (h : StandsFor c segmenter e H) (docs : List Document) :
    StandsFor c segmenter (e.add docs).1 (H.add (docs.map e.analyse)) :=
  ⟨h.made.obey (.change (.add docs)), h.tidy.add docs,
    (h.tidy.held_add docs).trans (by rw [h.held])⟩

theorem delete (h : StandsFor c segmenter e H) (paths : List String) :
    StandsFor c segmenter (e.delete paths).1 (H.erase paths) :=
  ⟨h.made.obey (.change (.delete paths)), h.tidy.delete paths,
    (h.tidy.held_delete paths).trans (by rw [h.held])⟩

end StandsFor

theorem Reached.standsFor (h : Reached c segmenter e) : StandsFor c segmenter e e.held :=
  ⟨h.madeWith, h.tidy, rfl⟩

end Engine

end VaultSearch

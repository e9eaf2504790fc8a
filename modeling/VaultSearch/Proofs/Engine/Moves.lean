import VaultSearch.Proofs.Engine.Transfer

/-!
# Commands, move by move

A command is carried out in moves, and a search may look at the engine
between two of them. A rebuild is in the phase `indexing` from its first
move to its last, so in any other phase it has left the index complete
(`settled_of_rebuild`); in the middle of an addition the index has some
whole blocks taken in (`settled_of_add`).

The moves also differ in what they wait for. Those that write the index
wait until no search is under way. A complete index is `Settled` until
then: no move before the next one of these changes the slots (`Calm`).
-/

namespace VaultSearch.Engine

/-! ## Moves -/

/-- A change that is asked of an engine. -/
inductive Command where
  | reindex (docs : List Document)
  | load (blob : List UInt8)
  | change (m : Mutation)

/-- The commands that keep searches out. -/
def Command.Rebuilds : Command → Prop
  | .reindex _ | .load _ => True
  | .change _ => False

/-- The engine after a command. -/
def obey (e : Engine) : Command → Engine
  | .reindex docs => (e.reindex docs).1
  | .load blob => (e.load blob).1
  | .change m => (e.mutate m).1

def obeyAll (e : Engine) (cs : List Command) : Engine := cs.foldl obey e

/-- A move of a command: one step of the engine, or a whole deletion. -/
inductive Move where
  | step (s : Step)
  | delete (paths : List String)

def move (e : Engine) : Move → Engine
  | .step s => e.step s
  | .delete paths => (e.delete paths).1

def moveAll (e : Engine) (ms : List Move) : Engine := ms.foldl move e

/-- The moves of a command whose turn has come. -/
def movesOf (e : Engine) : Command → List Move
  | .reindex docs => (e.reindexSteps docs).map .step
  | .load blob => (e.loadSteps blob).map .step
  | .change (.add docs) => (e.addSteps docs).map .step
  | .change (.delete paths) => [.delete paths]

theorem moveAll_append (e : Engine) (ms ms' : List Move) :
    e.moveAll (ms ++ ms') = (e.moveAll ms).moveAll ms' :=
  List.foldl_append

theorem moveAll_steps (e : Engine) (steps : List Step) :
    e.moveAll (steps.map .step) = e.run steps :=
  List.foldl_map

/-- A command that has made all of its moves is carried out. -/
theorem moveAll_movesOf (e : Engine) : ∀ c : Command, e.moveAll (e.movesOf c) = e.obey c
  | .reindex docs => moveAll_steps e (e.reindexSteps docs)
  | .load blob => moveAll_steps e (e.loadSteps blob)
  | .change (.add docs) => moveAll_steps e (e.addSteps docs)
  | .change (.delete _) => rfl

/-! ## Scopes -/

/-- What a move changes: the index, and with it perhaps the slots; the slots alone; or
neither. -/
inductive Scope where
  | index | slots | flags

/-- Moves that change the index hold the lock on it, which no search lets them have. -/
def Move.scope : Move → Scope
  | .step .clearIndex | .step (.addChunk _) | .step (.setIndex _) | .delete _ => .index
  | .step .clearSlots | .step (.setSlots _) => .slots
  | .step (.enter _) | .step .touch => .flags

/-- No move changes the slots before the next one that changes the index. -/
def Calm : List Move → Prop
  | [] => True
  | m :: rest =>
    match m.scope with
    | .index => True
    | .slots => False
    | .flags => Calm rest

theorem calm_of_scope_ne : ∀ {ms : List Move}, (∀ m ∈ ms, m.scope ≠ .slots) → Calm ms
  | [], _ => trivial
  | m :: rest, h => by
      rw [Calm]
      split
      · trivial
      · rename_i hm
        exact h m List.mem_cons_self hm
      · exact calm_of_scope_ne fun m hm => h m (List.mem_cons_of_mem _ hm)

/-- The engines have the same documents under the same settings. -/
structure SameData (e e' : Engine) : Prop where
  config : e'.config = e.config
  tokenizer : e'.tokenizer = e.tokenizer
  index : e'.index = e.index
  slots : e'.slots = e.slots

theorem SameData.aligned {e e' : Engine} (h : SameData e e') (ha : e.Aligned) : e'.Aligned := by
  rw [Aligned, h.index, h.slots]
  exact ha

theorem SameData.refl (e : Engine) : SameData e e := ⟨rfl, rfl, rfl, rfl⟩

theorem SameData.trans {e₁ e₂ e₃ : Engine} (h : SameData e₁ e₂) (h' : SameData e₂ e₃) :
    SameData e₁ e₃ :=
  ⟨h'.config.trans h.config, h'.tokenizer.trans h.tokenizer, h'.index.trans h.index,
    h'.slots.trans h.slots⟩

theorem sameData_move {e : Engine} {m : Move} (h : m.scope = .flags) : SameData e (e.move m) := by
  cases m with
  | delete => cases h
  | step s =>
      cases s with
      | enter | touch => exact ⟨rfl, rfl, rfl, rfl⟩
      | _ => cases h

theorem sameData_moveAll : ∀ {ms : List Move} {e : Engine}, (∀ m ∈ ms, m.scope = .flags) →
    SameData e (e.moveAll ms)
  | [], e, _ => .refl e
  | m :: _, _, h =>
      (sameData_move (h m List.mem_cons_self)).trans
        (sameData_moveAll fun m hm => h m (List.mem_cons_of_mem _ hm))

/-! ## Phases -/

theorem phase_step {e : Engine} {s : Step} (h : ∀ p, s ≠ .enter p) :
    (e.step s).phase = e.phase := by
  cases s with
  | enter p => exact absurd rfl (h p)
  | addChunk docs => exact phase_foldl_insertDocument docs e
  | _ => rfl

theorem phase_run : ∀ {steps : List Step} {e : Engine}, (∀ s ∈ steps, ∀ p, s ≠ .enter p) →
    (e.run steps).phase = e.phase
  | [], _, _ => rfl
  | s :: _, _, h =>
      (phase_run fun s hs => h s (List.mem_cons_of_mem _ hs)).trans
        (phase_step (h s List.mem_cons_self))

theorem insertSteps_ne_enter {e : Engine} {docs : List Document} :
    ∀ s ∈ e.insertSteps docs, ∀ p, s ≠ .enter p := by
  rintro s hs p rfl
  rcases List.mem_append.mp hs with hs | hs
  · obtain ⟨block, -, hblock⟩ := List.mem_map.mp hs
    cases hblock
  · split at hs <;> simp at hs

theorem isReady_obey {e : Engine} (h : e.isReady) : ∀ c : Command, (e.obey c).isReady
  | .reindex docs => by
      rw [obey, isReady, phase_reindex]
      rfl
  | .load blob => by
      rw [obey, isReady, phase_load]
      rfl
  | .change (.add docs) => isReady_add h docs
  | .change (.delete paths) => by
      rw [isReady] at h ⊢
      exact (phase_delete e paths).symm ▸ h

theorem isReady_obeyAll : ∀ (cs : List Command) {e : Engine}, e.isReady → (e.obeyAll cs).isReady
  | [], _, h => h
  | c :: cs, _, h => isReady_obeyAll cs (isReady_obey h c)

/-! ## Milestones -/

/-- The steps of a rebuild: in the first one the engine enters the phase `indexing`, and it
leaves it in the last one. -/
def RebuildSteps (steps : List Step) : Prop :=
  ∃ mid : List Step, steps = .enter .indexing :: .clearIndex :: mid ++ [.enter .ready] ∧
    ∀ s ∈ mid, ∀ p, s ≠ .enter p

theorem rebuildSteps_reindexSteps (e : Engine) (docs : List Document) :
    RebuildSteps (e.reindexSteps docs) := by
  refine ⟨.clearSlots :: e.insertSteps (freshDocuments (fun _ => false) docs), rfl, ?_⟩
  intro s hs
  rcases List.mem_cons.mp hs with rfl | hs
  · intro p h
    cases h
  · exact insertSteps_ne_enter s hs

theorem rebuildSteps_loadSteps (e : Engine) (blob : List UInt8) :
    RebuildSteps (e.loadSteps blob) := by
  rw [loadSteps]
  cases e.readSnapshot blob with
  | ok ix => exact ⟨[.clearSlots, .setSlots (slotsOf ix), .setIndex ix, .touch], rfl, by simp⟩
  | error r => exact ⟨[.clearSlots], rfl, by simp⟩

/-- A rebuild that is neither before its first nor behind its last step is in the phase
`indexing`. -/
theorem RebuildSteps.eq_nil {steps l l' : List Step} (h : RebuildSteps steps)
    (hsplit : steps = l ++ l') {e : Engine} (hphase : (e.run l).phase ≠ .indexing) :
    l = [] ∨ l' = [] := by
  obtain ⟨mid, rfl, hmid⟩ := h
  rcases List.eq_nil_or_concat l' with hnil | ⟨t, x, rfl⟩
  · exact .inr hnil
  cases l with
  | nil => exact .inl rfl
  | cons s l =>
      -- what is done is the first step and a part of the middle
      rw [List.concat_eq_append, ← List.append_assoc] at hsplit
      obtain ⟨hdone, -⟩ := List.append_inj' hsplit rfl
      obtain ⟨rfl, hl⟩ := List.cons.inj hdone
      have hrun : ((e.step (.enter .indexing)).run l).phase = .indexing := by
        refine phase_run fun s hs => ?_
        have hs' : s ∈ .clearIndex :: mid := hl ▸ List.mem_append_left t hs
        rcases List.mem_cons.mp hs' with rfl | hs'
        · intro p h
          cases h
        · exact hmid s hs'
      exact absurd hrun hphase

theorem RebuildSteps.calm {steps : List Step} (h : RebuildSteps steps) :
    Calm (steps.map .step) := by
  obtain ⟨mid, rfl, -⟩ := h
  trivial

/-- The blocks in which the documents of an addition are taken in. -/
def blocksOf (e : Engine) (docs : List Document) : List (List Document) :=
  chunks (max e.config.index.chunkSize 1) (freshDocuments e.contains docs)

/-- The engine with the first `k` blocks of an addition taken in. -/
def takeIn (e : Engine) (docs : List Document) (k : Nat) : Engine :=
  e.run (((e.blocksOf docs).take k).map Step.addChunk)

/-- An addition takes in its blocks and then sets some flags. -/
theorem addSteps_eq (e : Engine) (docs : List Document) : ∃ flags : List Step,
    e.addSteps docs = (e.blocksOf docs).map Step.addChunk ++ flags ∧
      ∀ s ∈ flags, s = .touch ∨ s = .enter .ready := by
  refine ⟨_, by rw [addSteps, insertSteps, List.append_assoc]; rfl, fun s hs => ?_⟩
  rcases List.mem_append.mp hs with hs | hs
  · split at hs <;> simp_all
  · split at hs <;> simp_all

theorem mem_addSteps {e : Engine} {docs : List Document} {s : Step} (hs : s ∈ e.addSteps docs) :
    (∃ block, s = .addChunk block) ∨ s = .touch ∨ s = .enter .ready := by
  obtain ⟨flags, hsteps, hflags⟩ := e.addSteps_eq docs
  rw [hsteps] at hs
  rcases List.mem_append.mp hs with hs | hs
  · obtain ⟨block, -, rfl⟩ := List.mem_map.mp hs
    exact .inl ⟨block, rfl⟩
  · exact .inr (hflags s hs)

theorem calm_of_subset_addSteps {e : Engine} {docs : List Document} {steps : List Step}
    (h : steps ⊆ e.addSteps docs) : Calm (steps.map .step) := by
  refine calm_of_scope_ne fun m hm hscope => ?_
  obtain ⟨s, hs, rfl⟩ := List.mem_map.mp hm
  obtain ⟨block, rfl⟩ | rfl | rfl := mem_addSteps (h hs) <;> cases hscope

/-- An addition keeps nobody out. -/
theorem isReady_run_of_subset_addSteps {e' : Engine} {docs : List Document} :
    ∀ {steps : List Step} {e : Engine}, steps ⊆ e'.addSteps docs → e.isReady →
      (e.run steps).isReady
  | [], _, _, hready => hready
  | s :: steps, e, h, hready => by
      refine isReady_run_of_subset_addSteps (List.subset_of_cons_subset h) (e := e.step s) ?_
      obtain ⟨block, rfl⟩ | rfl | rfl := mem_addSteps (h List.mem_cons_self)
      · rw [isReady] at hready ⊢
        exact (phase_foldl_insertDocument block e).symm ▸ hready
      · exact hready
      · rfl

/-- Between any two steps of an addition some whole blocks are taken in. -/
theorem exists_takeIn (e : Engine) (docs : List Document) {l l' : List Step}
    (hsplit : e.addSteps docs = l ++ l') : ∃ k, SameData (e.takeIn docs k) (e.run l) := by
  obtain ⟨flags, hsteps, hflags⟩ := e.addSteps_eq docs
  rw [hsteps] at hsplit
  rcases List.append_eq_append_iff.mp hsplit with ⟨d, rfl, hd⟩ | ⟨d, hd, -⟩
  · -- all blocks and some flags
    refine ⟨(e.blocksOf docs).length, ?_⟩
    rw [takeIn, List.take_length, run_append, ← moveAll_steps _ d]
    refine sameData_moveAll fun m hm => ?_
    obtain ⟨s, hs, rfl⟩ := List.mem_map.mp hm
    rcases hflags s (hd ▸ List.mem_append_left l' hs) with rfl | rfl <;> rfl
  · -- some of the blocks
    refine ⟨l.length, ?_⟩
    have hl : ((e.blocksOf docs).take l.length).map Step.addChunk = l := by
      rw [List.map_take, hd, List.take_left]
    rw [takeIn, hl]
    exact .refl _

/-- The engine after the first `n` of the commands, or, where the next one adds documents,
with some whole blocks of them taken in as well. -/
inductive Milestone (e : Engine) (cs : List Command) (n : Nat) : Engine → Prop where
  | whole (h : n ≤ cs.length) : Milestone e cs n (e.obeyAll (cs.take n))
  | blocks {docs : List Document} (h : cs[n]? = some (.change (.add docs))) (k : Nat) :
      Milestone e cs n ((e.obeyAll (cs.take n)).takeIn docs k)

/-- A milestone is one still when another command is granted. -/
theorem Milestone.concat {e e' : Engine} {cs : List Command} {n : Nat}
    (h : Milestone e cs n e') (c : Command) : Milestone e (cs ++ [c]) n e' := by
  have hlen : n ≤ cs.length := by
    cases h with
    | whole h => exact h
    | blocks h => exact (List.getElem?_eq_some_iff.mp h).1.le
  have htake : (cs ++ [c]).take n = cs.take n := List.take_append_of_le_length hlen
  cases h with
  | whole h =>
      rw [← htake]
      exact .whole (by rw [List.length_append]; omega)
  | blocks h k =>
      rw [← htake]
      refine .blocks ?_ k
      rw [List.getElem?_append_left (List.getElem?_eq_some_iff.mp h).1, h]

/-- The engine `e'` has come to a milestone no earlier than the first `since` commands, and
stays there until a move that waits for the searches. -/
def Settled (e : Engine) (cs : List Command) (since : Nat) (rest : List Move) (e' : Engine) :
    Prop :=
  Calm rest ∧ ∃ n whole, since ≤ n ∧ Milestone e cs n whole ∧ SameData whole e'

section

variable {e : Engine} {cs : List Command} {c : Command} {done rest : List Move}

/-- Before its first and behind its last move a command is at a milestone. -/
theorem milestone_of_eq_nil (hmoves : (e.obeyAll cs).movesOf c = done ++ rest)
    (h : done = [] ∨ rest = []) :
    ∃ n, cs.length ≤ n ∧ Milestone e (cs ++ [c]) n ((e.obeyAll cs).moveAll done) := by
  rcases h with rfl | rfl
  · refine ⟨cs.length, Nat.le_refl _, ?_⟩
    have hwhole : Milestone e (cs ++ [c]) cs.length (e.obeyAll ((cs ++ [c]).take cs.length)) :=
      .whole (by simp)
    rwa [List.take_left] at hwhole
  · refine ⟨cs.length + 1, Nat.le_succ _, ?_⟩
    have hwhole : Milestone e (cs ++ [c]) (cs.length + 1)
        (e.obeyAll ((cs ++ [c]).take (cs.length + 1))) := .whole (by simp)
    rw [List.append_nil] at hmoves
    rw [← hmoves, moveAll_movesOf]
    rwa [List.take_of_length_le (by simp), obeyAll, List.foldl_append] at hwhole

theorem settled_of_rebuild {steps : List Step} (hsteps : RebuildSteps steps)
    (heq : (e.obeyAll cs).movesOf c = steps.map .step)
    (hmoves : (e.obeyAll cs).movesOf c = done ++ rest)
    (hphase : ((e.obeyAll cs).moveAll done).phase ≠ .indexing) :
    Settled e (cs ++ [c]) cs.length rest ((e.obeyAll cs).moveAll done) := by
  obtain ⟨l, l', hl, rfl, rfl⟩ := List.map_eq_append_iff.mp (heq.symm.trans hmoves)
  rw [moveAll_steps] at hphase
  have hends := hsteps.eq_nil hl hphase
  refine ⟨?_, ?_⟩
  · rcases hends with rfl | rfl
    · obtain rfl : steps = l' := hl
      exact hsteps.calm
    · trivial
  · obtain ⟨n, hn, hmile⟩ := milestone_of_eq_nil hmoves (by simpa using hends)
    exact ⟨n, _, hn, hmile, .refl _⟩

theorem settled_of_add {docs : List Document}
    (hmoves : (e.obeyAll cs).movesOf (.change (.add docs)) = done ++ rest) :
    Settled e (cs ++ [.change (.add docs)]) cs.length rest ((e.obeyAll cs).moveAll done) := by
  obtain ⟨l, l', hl, rfl, rfl⟩ := List.map_eq_append_iff.mp hmoves
  obtain ⟨k, hk⟩ := exists_takeIn _ docs hl
  rw [moveAll_steps]
  refine ⟨calm_of_subset_addSteps (hl ▸ List.subset_append_right l l'), cs.length, _,
    Nat.le_refl _, ?_, hk⟩
  have hblocks : Milestone e (cs ++ [.change (.add docs)]) cs.length
      ((e.obeyAll ((cs ++ [Command.change (.add docs)]).take cs.length)).takeIn docs k) :=
    .blocks (by simp) k
  rwa [List.take_left] at hblocks

theorem settled_of_delete {paths : List String}
    (hmoves : (e.obeyAll cs).movesOf (.change (.delete paths)) = done ++ rest) :
    Settled e (cs ++ [.change (.delete paths)]) cs.length rest
      ((e.obeyAll cs).moveAll done) := by
  have hsplit := List.append_eq_singleton_iff.mp hmoves.symm
  obtain ⟨n, hn, hmile⟩ := milestone_of_eq_nil hmoves (hsplit.imp And.left And.right)
  refine ⟨?_, n, _, hn, hmile, .refl _⟩
  rcases hsplit with ⟨-, rfl⟩ | ⟨-, rfl⟩
  · trivial
  · trivial

/-- Where searches are let in, a command is at a milestone, whichever of its moves it has
made. -/
theorem settled_of_phase (hmoves : (e.obeyAll cs).movesOf c = done ++ rest)
    (hphase : ((e.obeyAll cs).moveAll done).phase ≠ .indexing) :
    Settled e (cs ++ [c]) cs.length rest ((e.obeyAll cs).moveAll done) := by
  rcases c with docs | blob | ⟨docs | paths⟩
  · exact settled_of_rebuild (rebuildSteps_reindexSteps _ docs) rfl hmoves hphase
  · exact settled_of_rebuild (rebuildSteps_loadSteps _ blob) rfl hmoves hphase
  · exact settled_of_add hmoves
  · exact settled_of_delete hmoves

/-- Only a rebuild keeps searches out. -/
theorem rebuilds_of_phase (hready : e.isReady) (hmoves : e.movesOf c = done ++ rest)
    (hphase : (e.moveAll done).phase = .indexing) : c.Rebuilds := by
  have hnot : ¬(e.moveAll done).isReady := by
    rw [isReady, hphase]
    decide
  rcases c with docs | blob | ⟨docs | paths⟩
  case reindex | load => trivial
  case change.add =>
    obtain ⟨l, l', hl, rfl, rfl⟩ := List.map_eq_append_iff.mp hmoves
    rw [moveAll_steps] at hnot
    exact absurd (isReady_run_of_subset_addSteps (hl ▸ List.subset_append_left l l') hready) hnot
  case change.delete =>
    rcases List.append_eq_singleton_iff.mp hmoves.symm with ⟨rfl, -⟩ | ⟨rfl, -⟩
    · exact absurd hready hnot
    · exact absurd (isReady_obey hready (.change (.delete paths))) hnot

end

/-! ## What milestones have in common -/

theorem Aligned.obey {e : Engine} (h : e.Aligned) : ∀ c : Command, (e.obey c).Aligned
  | .reindex docs => by
      rw [Engine.obey, Engine.reindex, reindexSteps, run_append, run_append]
      have hclear : (e.run clearSteps).Aligned := aligned_of_slots_empty rfl
      exact hclear.run_insertSteps e _
  | .load blob => by
      rw [Engine.obey, Engine.load, loadSteps]
      cases e.readSnapshot blob with
      | ok ix => exact fun p s hs => entry?_of_slotsOf hs
      | error r => exact aligned_of_slots_empty rfl
  | .change (.add docs) => by
      rw [Engine.obey, mutate, Engine.add, addSteps, run_append]
      have hinsert := h.run_insertSteps e (freshDocuments e.contains docs)
      split
      · exact hinsert
      · exact hinsert
  | .change (.delete paths) => by
      rw [Engine.obey, mutate, Engine.delete]
      simp only []
      have hdelete := Aligned.deleteAll paths (show (e, ([] : List String)).1.Aligned from h)
      split
      · exact hdelete
      · exact hdelete

theorem Aligned.obeyAll : ∀ (cs : List Command) {e : Engine}, e.Aligned → (e.obeyAll cs).Aligned
  | [], _, h => h
  | c :: cs, _, h => Aligned.obeyAll cs (h.obey c)

theorem Milestone.isReady {e e' : Engine} {cs : List Command} {n : Nat}
    (hready : e.isReady) (h : Milestone e cs n e') : e'.isReady := by
  have hwhole := isReady_obeyAll (cs.take n) hready
  cases h with
  | whole => exact hwhole
  | blocks _ k =>
      rw [Engine.isReady] at hwhole ⊢
      rw [takeIn, run_addChunks, phase_foldl_insertDocument]
      exact hwhole

theorem Milestone.aligned {e e' : Engine} {cs : List Command} {n : Nat}
    (ha : e.Aligned) (h : Milestone e cs n e') : e'.Aligned := by
  have hwhole := ha.obeyAll (cs.take n)
  cases h with
  | whole => exact hwhole
  | blocks _ k =>
      rw [takeIn, run_addChunks]
      exact hwhole.insertAll _

end VaultSearch.Engine

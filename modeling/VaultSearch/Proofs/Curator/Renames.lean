import Mathlib.Data.Set.Operations
import VaultSearch.Proofs.Curator.Deletions
import VaultSearch.Proofs.Curator.Reports

/-!
# Reports of moved files

What a curator is going to hold once what waits is applied does not change
when that happens, only earlier or later (`Curator.HeadsFor.drained`). The
report of a moved file clears its old path in it and puts what the source has
at the new one, unless that is excluded (`Curator.HeadsFor.notify`). So after
the reports of several moves, with flushes in between, each new path has its
document and each old one that is no new one has none
(`Contents.foldl_afterMove_apply`).

An old path may be the new path of another move only if its own move is
reported first: else the report would clear what has come to be there.
-/

namespace VaultSearch

/-- The report of a file that was moved from the first path to the second. -/
def Change.ofMove (move : String × String) : Change := ⟨move.2, .renamed move.1⟩

/-- What an index holds of the document that the source has at each path. -/
def Source.contents (c : Config) (segmenter : Option Segmenter) (src : Source) : Contents :=
  fun p => (src.readAs? p p).map fun d => ((Engine.new c segmenter).analyse d).fields

namespace Contents

/-- The map after a move: the old path is cleared, and the new one has what is there `now`,
unless it is excluded. -/
def afterMove (N : Contents) (excluded : String → Bool) (now : Contents)
    (move : String × String) : Contents :=
  let gone := Function.update N move.1 none
  if excluded move.2 then gone else Function.update gone move.2 (now move.2)

variable {excluded : String → Bool} {now : Contents}

theorem afterMove_apply (N : Contents) (old new p : String) :
    N.afterMove excluded now (old, new) p =
      if p = new ∧ excluded p = false then now p else if p = old then none else N p := by
  rw [afterMove]
  by_cases hnew : p = new
  · subst hnew
    cases excluded p <;> simp [Function.update_apply]
  · cases excluded new <;> simp [Function.update_apply, hnew]

/-- After several moves each new path that is not excluded has what is there, and each other
old path has nothing. -/
theorem foldl_afterMove_apply {p : String} : ∀ {moves : List (String × String)} {N : Contents},
    moves.Pairwise (fun earlier later => later.1 ≠ earlier.2) →
    moves.foldl (fun N move => N.afterMove excluded now move) N p =
      if p ∈ moves.map Prod.snd ∧ excluded p = false then now p
      else if p ∈ moves.map Prod.fst then none else N p
  | [], N, _ => by simp
  | (old, new) :: moves, N, h => by
      obtain ⟨hfirst, hrest⟩ := List.pairwise_cons.mp h
      rw [List.foldl_cons, foldl_afterMove_apply hrest, afterMove_apply]
      simp only [List.map_cons, List.mem_cons]
      by_cases hlater : p ∈ moves.map Prod.snd ∧ excluded p = false
      · rw [if_pos hlater, if_pos ⟨Or.inr hlater.1, hlater.2⟩]
      · rw [if_neg hlater]
        by_cases hold : p ∈ moves.map Prod.fst
        · -- a later move starts here, so the first one does not end here
          have hne : p ≠ new := by
            obtain ⟨move, hmove, rfl⟩ := List.mem_map.mp hold
            exact hfirst move hmove
          rw [if_pos hold, if_pos (Or.inr hold), if_neg]
          rintro ⟨hnew | hnew, hincluded⟩
          · exact hne hnew
          · exact hlater ⟨hnew, hincluded⟩
        · rw [if_neg hold]
          by_cases hnew : p = new ∧ excluded p = false
          · rw [if_pos hnew, if_pos ⟨Or.inl hnew.1, hnew.2⟩]
          · have hneither : ¬((p = new ∨ p ∈ moves.map Prod.snd) ∧ excluded p = false) := by
              rintro ⟨hp | hp, hincluded⟩
              · exact hnew ⟨hp, hincluded⟩
              · exact hlater ⟨hp, hincluded⟩
            simp only [if_neg hnew, if_neg hneither, hold, or_false]

end Contents

namespace Curator

variable {σ : Type} {c : Config} {segmenter : Option Segmenter} {src : Source}
  {paths : Set String} {m m' : Curator σ} {N : Contents}

/-! ## What a curator is going to hold -/

/-- The curator will hold `N` once what waits is applied, and all that it holds until then is
at one of `paths`. -/
structure HeadsFor (c : Config) (segmenter : Option Segmenter) (src : Source)
    (paths : Set String) (m : Curator σ) (N : Contents) : Prop where
  keyed : Keyed m.buffer.items
  holds : ∃ M, Engine.Holds c segmenter m.engine M ∧ (∀ p, (M p).isSome → p ∈ paths) ∧
    outlook c segmenter src m.buffer.items M = N
  within : ∀ p, (N p).isSome → p ∈ paths

theorem headsFor_of_idle (src : Source) {paths : Set String}
    (h : Engine.Holds c segmenter m.engine N) (hidle : ∀ p : String, m.buffer.items[p]? = none)
    (hwithin : ∀ p, (N p).isSome → p ∈ paths) :
    HeadsFor c segmenter src paths m N := by
  refine ⟨fun p op hp => ?_, ⟨N, h, hwithin, ?_⟩, hwithin⟩
  · rw [hidle] at hp
    cases hp
  · funext p
    rw [outlook, hidle]

/-- Applying what waits does not change what the curator is going to hold. -/
theorem HeadsFor.drained (h : HeadsFor c segmenter src paths m N)
    (hengine : m'.engine = applyAll src m.engine (batch m.buffer.items))
    (hitems : m'.buffer.items = {}) :
    Engine.Holds c segmenter m'.engine N ∧ HeadsFor c segmenter src paths m' N := by
  obtain ⟨M, hM, -, rfl⟩ := h.holds
  have hholds := Tracks.holds_outlook h.keyed hM src
  rw [← hengine] at hholds
  exact ⟨hholds, headsFor_of_idle src hholds (by simp [hitems]) h.within⟩

/-! ## One report -/

theorem outlook_insert (c : Config) (segmenter : Option Segmenter) (src : Source)
    (pending : Pending) (op : Operation) (M : Contents) :
    outlook c segmenter src (pending.insert op.path op) M =
      Function.update (outlook c segmenter src pending M) op.path
        (op.outcome src (fun d => ((Engine.new c segmenter).analyse d).fields) (M op.path)) := by
  funext p
  rw [outlook, Std.TreeMap.getElem?_insert]
  by_cases hp : op.path = p
  · subst hp
    simp
  · rw [if_neg (by simpa using hp), Function.update_of_ne (Ne.symm hp), outlook]

/-- What a move takes for granted of the paths: the old one is normal and no folder of a path
in use, and the new one, if it is not excluded, is in use and has a document. -/
structure Fits (c : Config) (src : Source) (paths : Set String) (move : String × String) :
    Prop where
  normal : Path.IsNormal move.1
  noFolder : ∀ q ∈ paths, ¬Path.Inside move.1 q
  used : c.shouldExclude move.2 = false → move.2 ∈ paths
  readable : c.shouldExclude move.2 = false → (src.readAs? move.2 move.2).isSome

/-- If no path inside it is indexed, a report means the path alone. -/
theorem meant_of_pathsUnder_nil {e : Engine} {path : String} (h : e.pathsUnder path = []) :
    meant e path = [path] := by
  rw [meant, h, ite_self]
  rfl

/-- The report of a move changes what the curator is going to hold as the move does. -/
theorem HeadsFor.notify (h : HeadsFor c segmenter src paths m N) {move : String × String}
    (hmove : Fits c src paths move) :
    HeadsFor c segmenter src paths (m.notify (.ofMove move))
      (N.afterMove c.shouldExclude (src.contents c segmenter) move) := by
  obtain ⟨old, new⟩ := move
  obtain ⟨M, hM, hin, hN⟩ := h.holds
  have hconfig : m.config = c := hM.reached.madeWith.config
  -- nothing is indexed inside the old path, so the report means the path alone
  have hdelete : m.enqueueDelete old = m.enqueue (.delete old) := by
    rw [enqueueDelete_eq, meant_of_pathsUnder_nil]
    · rfl
    · rw [List.eq_nil_iff_forall_not_mem]
      intro q hq
      obtain ⟨hsome, hinside⟩ := (Tracks.mem_pathsUnder hM hmove.normal q).mp hq
      exact hmove.noFolder q (hin q hsome) hinside
  have hgone : outlook c segmenter src (m.enqueue (.delete old)).buffer.items M =
      Function.update N old none :=
    hN ▸ outlook_insert c segmenter src m.buffer.items (.delete old m.clock) M
  have hnotify : m.notify (.ofMove (old, new)) =
      if c.shouldExclude new then m.enqueue (.delete old)
      else (m.enqueue (.delete old)).enqueue (.add new new) := by
    rw [Curator.notify, Change.ofMove, ← hconfig]
    simp only [hdelete]
    rfl
  have hengine : (m.notify (.ofMove (old, new))).engine = m.engine := engine_notify m _
  refine ⟨h.keyed.notify _, ⟨M, hengine ▸ hM, hin, ?_⟩, fun p hp => ?_⟩
  · rw [hnotify, Contents.afterMove]
    cases hexcluded : c.shouldExclude new with
    | true => exact hgone
    | false =>
        obtain ⟨d, hd⟩ := Option.isSome_iff_exists.mp (hmove.readable hexcluded)
        have hadd := outlook_insert c segmenter src (m.enqueue (.delete old)).buffer.items
          (.add new new (m.clock + 1)) M
        rw [hgone, Operation.outcome, Operation.path, hd] at hadd
        rw [Source.contents, hd]
        exact hadd
  · rw [Contents.afterMove_apply] at hp
    split at hp
    · rename_i hnew
      exact hnew.1 ▸ hmove.used (hnew.1 ▸ hnew.2)
    · split at hp
      · cases hp
      · exact h.within p hp

/-! ## Several reports -/

section Reporting

variable [SnapshotStore σ]

/-- The curator is told of the changes one after the other. At any moment in between what
waits may be applied, while the source stays as it is. -/
inductive Reporting (src : Source) : List Change → Curator σ → Curator σ → Prop where
  | done (m : Curator σ) : Reporting src [] m m
  | notify {change : Change} {changes : List Change} {m m' : Curator σ}
      (h : Reporting src changes (m.notify change) m') : Reporting src (change :: changes) m m'
  | flush {changes : List Change} {m m' : Curator σ}
      (h : Reporting src changes (m.flush src).1 m') : Reporting src changes m m'
  | settle {changes : List Change} {m m' : Curator σ}
      (h : Reporting src changes (m.settle src) m') : Reporting src changes m m'

theorem reporting_foldl_notify (src : Source) : ∀ (changes : List Change) (m : Curator σ),
    Reporting src changes m (changes.foldl Curator.notify m)
  | [], m => .done m
  | change :: changes, m => .notify (reporting_foldl_notify src changes (m.notify change))

theorem HeadsFor.flush (h : HeadsFor c segmenter src paths m N) :
    Engine.Holds c segmenter (m.flush src).1.engine N ∧
      HeadsFor c segmenter src paths (m.flush src).1 N :=
  h.drained (flush_engine m src) (flush_items m src)

theorem HeadsFor.settle (h : HeadsFor c segmenter src paths m N) :
    HeadsFor c segmenter src paths (m.settle src) N := by
  rcases m.settle_cases src with hsame | ⟨hengine, hitems⟩
  · rwa [hsame]
  · exact (h.drained hengine hitems).2

/-- So do the reports of several moves, whatever is applied in between. -/
theorem HeadsFor.reporting {moves : List (String × String)}
    (h : HeadsFor c segmenter src paths m N) (hmoves : ∀ move ∈ moves, Fits c src paths move)
    (hrun : Reporting src (moves.map Change.ofMove) m m') :
    HeadsFor c segmenter src paths m' (moves.foldl
      (fun N move => N.afterMove c.shouldExclude (src.contents c segmenter) move) N) := by
  generalize hchanges : moves.map Change.ofMove = changes at hrun
  induction hrun generalizing moves N with
  | done m =>
      obtain rfl := List.map_eq_nil_iff.mp hchanges
      exact h
  | notify hrun ih =>
      obtain ⟨move, moves', rfl, rfl, hrest⟩ := List.map_eq_cons_iff.mp hchanges
      rw [List.foldl_cons]
      exact ih (h.notify (hmoves move List.mem_cons_self))
        (fun move' hmove' => hmoves move' (List.mem_cons_of_mem _ hmove')) hrest
  | flush hrun ih => exact ih h.flush.2 hmoves hchanges
  | settle hrun ih => exact ih h.settle hmoves hchanges

end Reporting

end Curator

end VaultSearch

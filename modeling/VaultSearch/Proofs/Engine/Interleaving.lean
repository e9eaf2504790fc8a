import Mathlib.Logic.Function.Basic
import Mathlib.Logic.Relation
import VaultSearch.Proofs.Engine.Moves

/-!
# Searches beside commands

A `Scene` is an engine with everybody who is at work on it. Commands take
turns: one is granted the mutation lock, makes its moves one at a time and
releases the lock. A search takes the read lock on the index, reads the
phase, then the slots, and answers, and between any two of its steps others
may take theirs. Any number of searches hold the read lock at once, and a
move that changes the index waits until none does.

No search sees a command half carried out. What keeps it from doing so is
`Asking.Sound`: a search that has read a phase other than `indexing` has
read it at a milestone, and it holds up every move that would lead away
from there (`Sound.step`). So each answer is that of a complete index, or
is refused because of a rebuild under way (`Scene.Reached.answers_whole`).
-/

namespace VaultSearch.Engine

/-! ## Questions -/

inductive Question where
  | search (text : String) (o : SearchOptions)
  | matchDocument (path text : String) (o : SearchOptions)

/-- The hits that answer a question; a document that matches is its only hit. -/
def reply {S : Type} [Score S] (e : Engine) : Question → Except Fault (List (Hit S))
  | .search text o => e.search text o
  | .matchDocument path text o => (e.matchDocument path text o).map Option.toList

section

variable {S : Type} [Score S]

theorem reply_of_not_ready {e : Engine} (h : ¬e.isReady) (q : Question) :
    e.reply (S := S) q = .error .notReady := by
  rw [Bool.not_eq_true] at h
  cases q <;> simp only [reply, search, matchDocument, h] <;> rfl

theorem SameData.reply_eq {e e' : Engine} (h : SameData e e') (hready : e.isReady)
    (hready' : e'.isReady) (q : Question) : e'.reply (S := S) q = e.reply q := by
  have hterms : e'.terms = e.terms := by
    funext text
    rw [terms, terms, h.tokenizer, h.config]
  cases q with
  | search text o => rw [reply, reply, search, search, hready, hready', hterms, h.index, h.config]
  | matchDocument path text o =>
      rw [reply, reply, matchDocument, matchDocument, hready, hready', hterms, h.index, h.config,
        h.slots]

end

/-! ## Scenes -/

/-- A search that holds the read lock. -/
structure Asking where
  question : Question
  /-- How many commands were finished when it took the lock. -/
  since : Nat
  /-- The phase that it has read. -/
  phase : Option Phase := none
  /-- The slots that it has read. -/
  slots : Option Slots := none

/-- An answer, and the commands that had been granted when it was given. -/
structure Answer (S : Type) where
  question : Question
  since : Nat
  granted : List Command
  reply : Except Fault (List (Hit S))

structure Scene (S : Type) where
  engine : Engine
  /-- The commands in the order of their turns. -/
  granted : List Command := []
  /-- The moves left to the holder of the mutation lock. -/
  job : Option (List Move) := none
  asking : Nat → Option Asking := fun _ => none
  answers : List (Answer S) := []

/-- The number of commands that have released the mutation lock. -/
def finished (granted : List Command) : Option (List Move) → Nat
  | none => granted.length
  | some _ => granted.length - 1

namespace Scene

variable {S : Type} [Score S]

/-- One step of a command or of a search. A move that changes the index waits until no search
holds the read lock. -/
inductive Step : Scene S → Scene S → Prop where
  | grant {s : Scene S} (c : Command) (h : s.job = none) :
      Step s { s with granted := s.granted ++ [c], job := some (s.engine.movesOf c) }
  | move {s : Scene S} {m : Move} {rest : List Move} (h : s.job = some (m :: rest))
      (hfree : m.scope = .index → ∀ i, s.asking i = none) :
      Step s { s with engine := s.engine.move m, job := some rest }
  | release {s : Scene S} (h : s.job = some []) : Step s { s with job := none }
  | ask {s : Scene S} (i : Nat) (q : Question) (h : s.asking i = none) :
      Step s { s with
        asking := Function.update s.asking i
          (some { question := q, since := finished s.granted s.job }) }
  | readPhase {s : Scene S} {i : Nat} {a : Asking} (h : s.asking i = some a)
      (hphase : a.phase = none) :
      Step s { s with
        asking := Function.update s.asking i (some { a with phase := some s.engine.phase }) }
  | readSlots {s : Scene S} {i : Nat} {a : Asking} {p : Phase} (h : s.asking i = some a)
      (hphase : a.phase = some p) (hslots : a.slots = none) :
      Step s { s with
        asking := Function.update s.asking i (some { a with slots := some s.engine.slots }) }
  | answer {s : Scene S} {i : Nat} {a : Asking} {phase : Phase} {slots : Slots}
      (h : s.asking i = some a) (hphase : a.phase = some phase) (hslots : a.slots = some slots) :
      Step s { s with
        asking := Function.update s.asking i none
        answers :=
          { question := a.question, since := a.since, granted := s.granted,
            reply := { s.engine with phase, slots }.reply a.question } :: s.answers }

/-- The scene comes about from a new engine. -/
def Reached (c : Config) (segmenter : Option Segmenter) (s : Scene S) : Prop :=
  Relation.ReflTransGen Step { engine := Engine.new c segmenter } s

end Scene

/-! ## The commands -/

/-- Where the commands stand: none is at work, or the last one granted has made some of its
moves. -/
inductive Standing (start : Engine) : List Command → Option (List Move) → Engine → Prop where
  | idle (cs : List Command) : Standing start cs none (start.obeyAll cs)
  | busy (cs : List Command) {c : Command} {done rest : List Move}
      (h : (start.obeyAll cs).movesOf c = done ++ rest) :
      Standing start (cs ++ [c]) (some rest) ((start.obeyAll cs).moveAll done)

namespace Standing

variable {start e : Engine} {cs : List Command} {job : Option (List Move)}

theorem grant (h : Standing start cs none e) (c : Command) :
    Standing start (cs ++ [c]) (some (e.movesOf c)) e := by
  cases h
  exact .busy cs (List.nil_append _).symm

theorem move {m : Move} {rest : List Move} (h : Standing start cs (some (m :: rest)) e) :
    Standing start cs (some rest) (e.move m) := by
  cases h with
  | @busy cs c done _ h =>
      have hmove : ((start.obeyAll cs).moveAll done).move m =
          (start.obeyAll cs).moveAll (done ++ [m]) := by
        rw [moveAll_append]
        rfl
      rw [hmove]
      exact .busy cs (by rw [h, List.append_assoc, List.singleton_append])

theorem release (h : Standing start cs (some []) e) : Standing start cs none e := by
  cases h with
  | @busy cs c done _ h =>
      rw [List.append_nil] at h
      have hall : (start.obeyAll cs).moveAll done = start.obeyAll (cs ++ [c]) := by
        rw [← h, moveAll_movesOf, obeyAll, obeyAll, List.foldl_append]
        rfl
      rw [hall]
      exact .idle _

/-- An engine that lets searches in is at a milestone. -/
theorem settled (h : Standing start cs job e) (hphase : e.phase ≠ .indexing) :
    Settled start cs (finished cs job) (job.getD []) e := by
  cases h with
  | idle =>
      have hwhole : Milestone start cs cs.length (start.obeyAll (cs.take cs.length)) :=
        .whole (Nat.le_refl _)
      rw [List.take_length] at hwhole
      exact ⟨trivial, cs.length, _, Nat.le_refl _, hwhole, .refl _⟩
  | busy cs hmoves =>
      have hsettled := settled_of_phase hmoves hphase
      rwa [finished, List.length_append, List.length_singleton, Nat.add_sub_cancel]

theorem phase_ne (h : Standing start cs none e) (hready : start.isReady) :
    e.phase ≠ .indexing := by
  cases h
  have hidle := isReady_obeyAll cs hready
  rwa [isReady, decide_eq_true_eq] at hidle

/-- An engine that keeps searches out is in the middle of a rebuild. -/
theorem rebuilds (h : Standing start cs job e) (hready : start.isReady)
    (hphase : e.phase = .indexing) :
    ∃ n c, finished cs job ≤ n ∧ cs[n]? = some c ∧ c.Rebuilds := by
  cases h with
  | idle => exact absurd hphase ((Standing.idle cs).phase_ne hready)
  | @busy cs c done rest hmoves =>
      refine ⟨cs.length, c, by simp [finished], by simp, ?_⟩
      exact rebuilds_of_phase (isReady_obeyAll cs hready) hmoves hphase

end Standing

/-! ## The searches -/

/-- The answer is refused, and there was a rebuild that was not finished when the search
began; or it is the answer of the index at a milestone no older than the search. -/
def Answer.Whole {S : Type} [Score S] (start : Engine) (a : Answer S) : Prop :=
  (a.reply = .error .notReady ∧ ∃ n c, a.since ≤ n ∧ a.granted[n]? = some c ∧ c.Rebuilds) ∨
  ∃ n e, a.since ≤ n ∧ Milestone start a.granted n e ∧ a.reply = e.reply a.question

/-- What holds of a search under way. If it was let in, the index is at a milestone, and the
next move that leads away from there waits for the search. -/
structure Asking.Sound (start : Engine) (cs : List Command) (job : Option (List Move))
    (e : Engine) (a : Asking) : Prop where
  since : a.since ≤ finished cs job
  refused : a.phase = some .indexing → ∃ n c, a.since ≤ n ∧ cs[n]? = some c ∧ c.Rebuilds
  admitted : ∀ p, a.phase = some p → p ≠ .indexing → Settled start cs a.since (job.getD []) e
  slots : ∀ t, a.slots = some t → ∃ p, a.phase = some p ∧ (p ≠ .indexing → t = e.slots)

namespace Asking.Sound

variable {start e : Engine} {cs : List Command} {job : Option (List Move)} {a : Asking}

theorem grant (h : a.Sound start cs none e) (hstanding : Standing start cs none e)
    (hready : start.isReady) (c : Command) :
    a.Sound start (cs ++ [c]) (some (e.movesOf c)) e where
  since := by simpa [finished] using h.since
  refused hphase := by
    obtain ⟨n, c', hn, hc', hrebuilds⟩ := h.refused hphase
    refine ⟨n, c', hn, ?_, hrebuilds⟩
    rw [List.getElem?_append_left (List.getElem?_eq_some_iff.mp hc').1, hc']
  admitted p hp hne := by
    obtain ⟨-, n, e', hn, hmile, hsame⟩ := h.admitted p hp hne
    have hphase := hstanding.phase_ne hready
    exact ⟨((hstanding.grant c).settled hphase).1, n, e', hn, hmile.concat c, hsame⟩
  slots := h.slots

/-- A move that does not wait for the search changes nothing that the search depends on. -/
theorem move {m : Move} {rest : List Move} (h : a.Sound start cs (some (m :: rest)) e)
    (hm : m.scope ≠ .index) : a.Sound start cs (some rest) (e.move m) := by
  have hflags : Calm (m :: rest) → m.scope = .flags ∧ Calm rest := by
    intro hcalm
    rw [Calm] at hcalm
    split at hcalm
    · exact absurd ‹_› hm
    · cases hcalm
    · exact ⟨‹_›, hcalm⟩
  refine ⟨h.since, h.refused, ?_, ?_⟩
  · intro p hp hne
    obtain ⟨hcalm, n, e', hn, hmile, hsame⟩ := h.admitted p hp hne
    obtain ⟨hscope, hcalm⟩ := hflags hcalm
    exact ⟨hcalm, n, e', hn, hmile, hsame.trans (sameData_move hscope)⟩
  · intro t ht
    obtain ⟨p, hp, heq⟩ := h.slots t ht
    refine ⟨p, hp, fun hne => ?_⟩
    obtain ⟨hscope, -⟩ := hflags (h.admitted p hp hne).1
    rw [(sameData_move hscope).slots, heq hne]

theorem release (h : a.Sound start cs (some []) e) : a.Sound start cs none e where
  since := Nat.le_trans h.since (Nat.sub_le _ _)
  refused := h.refused
  admitted := h.admitted
  slots := h.slots

theorem ask (q : Question) :
    Asking.Sound start cs job e { question := q, since := finished cs job } where
  since := Nat.le_refl _
  refused h := by cases h
  admitted p h := by cases h
  slots t h := by cases h

/-- The phase that a search reads tells it whether the index is complete. -/
theorem readPhase (h : a.Sound start cs job e) (hstanding : Standing start cs job e)
    (hready : start.isReady) (hphase : a.phase = none) :
    Asking.Sound start cs job e { a with phase := some e.phase } where
  since := h.since
  refused hp := by
    obtain ⟨n, c, hn, hc, hrebuilds⟩ := hstanding.rebuilds hready (Option.some.inj hp)
    exact ⟨n, c, Nat.le_trans h.since hn, hc, hrebuilds⟩
  admitted p hp hne := by
    obtain rfl := Option.some.inj hp
    obtain ⟨hcalm, n, e', hn, hmile, hsame⟩ := hstanding.settled hne
    exact ⟨hcalm, n, e', Nat.le_trans h.since hn, hmile, hsame⟩
  slots t ht := by
    obtain ⟨p, hp, -⟩ := h.slots t ht
    rw [hphase] at hp
    cases hp

theorem readSlots (h : a.Sound start cs job e) {p : Phase} (hphase : a.phase = some p) :
    Asking.Sound start cs job e { a with slots := some e.slots } where
  since := h.since
  refused := h.refused
  admitted := h.admitted
  slots _ ht := ⟨p, hphase, fun _ => (Option.some.inj ht).symm⟩

theorem slots_eq (h : a.Sound start cs job e) {p : Phase} {t : Slots} (hphase : a.phase = some p)
    (hne : p ≠ .indexing) (ht : a.slots = some t) : t = e.slots := by
  obtain ⟨q, hq, heq⟩ := h.slots t ht
  obtain rfl : p = q := Option.some.inj (hphase.symm.trans hq)
  exact heq hne

/-- What a search has seen makes its answer one of a complete index. -/
theorem answer {S : Type} [Score S] (h : a.Sound start cs job e) (hready : start.isReady)
    {phase : Phase} {slots : Slots} (hphase : a.phase = some phase)
    (hslots : a.slots = some slots) :
    Answer.Whole (S := S) start
      { question := a.question, since := a.since, granted := cs,
        reply := { e with phase, slots }.reply a.question } := by
  by_cases hne : phase = .indexing
  · subst hne
    exact .inl ⟨reply_of_not_ready (by simp [isReady]) _, h.refused hphase⟩
  · obtain ⟨-, n, e', hn, hmile, hsame⟩ := h.admitted phase hphase hne
    refine .inr ⟨n, e', hn, hmile, ?_⟩
    have hsame' : SameData e' { e with phase, slots } :=
      ⟨hsame.config, hsame.tokenizer, hsame.index,
        (h.slots_eq hphase hne hslots).trans hsame.slots⟩
    exact hsame'.reply_eq (hmile.isReady hready) (by simpa [isReady] using hne) _

/-- The slots that a search has read name the documents with their paths. -/
theorem aligned (h : a.Sound start cs job e) (ha : start.Aligned) {p : Phase} {t : Slots}
    (hp : a.phase = some p) (hne : p ≠ .indexing) (ht : a.slots = some t) {path : String}
    {slot : Nat} (hslot : t[path]? = some slot) :
    ∃ entry, e.index.entry? slot = some entry ∧ entry.path = path := by
  obtain ⟨-, n, e', -, hmile, hsame⟩ := h.admitted p hp hne
  rw [h.slots_eq hp hne ht] at hslot
  exact hsame.aligned (hmile.aligned ha) path slot hslot

end Asking.Sound

/-! ## The whole scene -/

namespace Scene

variable {S : Type} [Score S] {start : Engine} {s s' : Scene S}

structure Sound (start : Engine) (s : Scene S) : Prop where
  standing : Standing start s.granted s.job s.engine
  asking : ∀ i a, s.asking i = some a → a.Sound start s.granted s.job s.engine
  answers : ∀ a ∈ s.answers, a.granted <+: s.granted ∧ a.Whole start

/-- A change of one search leaves the others as they were. -/
theorem Sound.update (h : s.Sound start) {i : Nat} {o : Option Asking}
    (ho : ∀ a, o = some a → a.Sound start s.granted s.job s.engine) :
    Sound start { s with asking := Function.update s.asking i o } where
  standing := h.standing
  asking j a ha := by
    simp only [Function.update_apply] at ha
    split at ha
    · exact ho a ha
    · exact h.asking j a ha
  answers := h.answers

theorem Sound.step (h : s.Sound start) (hready : start.isReady) (hstep : s.Step s') :
    s'.Sound start := by
  cases hstep with
  | grant c hjob =>
      have hstanding := hjob ▸ h.standing
      refine ⟨hstanding.grant c, fun i a ha => ?_, fun a ha => ?_⟩
      · exact Asking.Sound.grant (hjob ▸ h.asking i a ha) hstanding hready c
      · obtain ⟨hgranted, hwhole⟩ := h.answers a ha
        exact ⟨hgranted.trans (List.prefix_append _ _), hwhole⟩
  | @move m rest hjob hfree =>
      refine ⟨(hjob ▸ h.standing).move, fun i a ha => ?_, h.answers⟩
      refine Asking.Sound.move (hjob ▸ h.asking i a ha) fun hscope => ?_
      rw [hfree hscope i] at ha
      cases ha
  | release hjob =>
      exact ⟨(hjob ▸ h.standing).release, fun i a ha => (hjob ▸ h.asking i a ha).release,
        h.answers⟩
  | ask i q hfree =>
      refine h.update ?_
      rintro _ ⟨⟩
      exact .ask q
  | @readPhase i a ha hphase =>
      refine h.update ?_
      rintro _ ⟨⟩
      exact (h.asking i a ha).readPhase h.standing hready hphase
  | @readSlots i a p ha hphase hslots =>
      refine h.update ?_
      rintro _ ⟨⟩
      exact (h.asking i a ha).readSlots hphase
  | @answer i a phase slots ha hphase hslots =>
      have hquiet := h.update (i := i) (o := none) (by simp)
      refine ⟨hquiet.standing, hquiet.asking, fun b hb => ?_⟩
      rcases List.mem_cons.mp hb with rfl | hb
      · exact ⟨List.prefix_rfl, (h.asking i a ha).answer hready hphase hslots⟩
      · exact h.answers b hb

theorem Reached.sound {c : Config} {segmenter : Option Segmenter} (h : s.Reached c segmenter) :
    s.Sound (Engine.new c segmenter) := by
  induction h with
  | refl =>
      exact ⟨.idle [], by simp, by simp⟩
  | tail _ hstep ih => exact ih.step rfl hstep

/-- However commands and searches take turns, each answer is that of a complete index which
is no older than the search, or is refused for a rebuild; and the slots that a search goes
by are those of the documents that it then finds in the index. -/
theorem Reached.answers_whole {c : Config} {segmenter : Option Segmenter}
    (h : s.Reached c segmenter) :
    (∀ a ∈ s.answers, a.granted <+: s.granted ∧ a.Whole (Engine.new c segmenter)) ∧
    ∀ i a p t, s.asking i = some a → a.phase = some p → p ≠ .indexing → a.slots = some t →
      ∀ path slot, t[path]? = some slot →
        ∃ entry, s.engine.index.entry? slot = some entry ∧ entry.path = path := by
  refine ⟨h.sound.answers, fun i a p t ha hp hne ht path slot hslot => ?_⟩
  exact (h.sound.asking i a ha).aligned (aligned_of_slots_empty rfl) hp hne ht hslot

/-- A search that was let in stays with what it has seen when a rebuild begins. -/
theorem answer_beside_rebuild :
    ∃ s : Scene Float, s.Reached {} none ∧ s.engine.phase = .indexing ∧ s.answers.length = 1 ∧
      ∀ a ∈ s.answers, a.Whole (Engine.new {} none) := by
  let q : Question := .matchDocument "a.md" "apple" ⟨true, false, .and⟩
  let docs := [Document.ofPath "a.md" (some "apple pie") none]
  have hnew : Reached {} none ({ engine := Engine.new {} none } : Scene Float) := .refl
  have hasked := hnew.tail (.ask 0 q rfl)
  have hread := hasked.tail (.readPhase (i := 0) rfl rfl)
  have hgranted := hread.tail (.grant (.reindex docs) rfl)
  have hbegun := hgranted.tail
    (.move (m := .step (.enter .indexing)) rfl fun hscope => by cases hscope)
  have hslots := hbegun.tail (.readSlots (i := 0) rfl rfl rfl)
  have hanswered := hslots.tail (.answer (i := 0) rfl rfl rfl)
  have hwhole := Reached.answers_whole hanswered
  exact ⟨_, hanswered, rfl, rfl, fun a ha => (hwhole.1 a ha).2⟩

end Scene

end VaultSearch.Engine

import VaultSearch.Proofs.Buffer.Delivery

/-!
# When a flush is on its way

An adder puts an item in and reads how many the buffer holds then, in one
step; if they are enough it sends a signal, in a later one. A worker takes the
signals from a channel. The first one opens a window, those that come while
it is open are absorbed, and some time after the window has closed the worker
takes out what the buffer holds by then. Anybody may flush on demand in
between.

The buffer itself notes that a flush is due when an item fills it. The
invariant (`Schedule.Sound`) is that what the buffer notes is true: a full
buffer is due for a flush, and one that is due has an adder about to send, a
signal in the channel, or the worker on its way to take. So no full buffer is
forgotten, and the worker comes to empty it without the help of others
(`Schedule.Reached.flush_on_its_way`).
-/

namespace VaultSearch

open Buffer (Cause)

namespace Buffer

variable {α κ : Type} [Ord κ]

/-- The size from which a flush is due. -/
def limit (b : Buffer α κ) : Nat := max b.threshold 1

/-- So many items are enough for a flush. -/
def IsFull (b : Buffer α κ) : Prop := b.limit ≤ b.size

theorem due_insert (b : Buffer α κ) (k : κ) (a : α) :
    (b.insert k a).due ↔ b.due ∨ (b.insert k a).IsFull := by
  simp [insert, IsFull, limit, size]

/-- A flush leaves the buffer empty, so not full. -/
theorem not_isFull_takeFor (b : Buffer α κ) (cause : Cause) : ¬(b.takeFor cause).2.IsFull := by
  have hempty : (b.takeFor cause).2.size = 0 := by cases cause <;> rfl
  rw [IsFull, limit, hempty]
  omega

end Buffer

/-- What the worker is told. -/
inductive Signal where
  | schedule | shutdown
  deriving Repr, DecidableEq

/-- How far the worker has got. -/
inductive WorkerStage where
  /-- It waits for a signal. -/
  | waiting
  /-- It holds a window open. -/
  | window
  /-- The window has closed, and the buffer has not been emptied yet. -/
  | closing
  /-- It hands over what it has taken out. -/
  | handing
  | stopped
  deriving Repr, DecidableEq

/-- A buffer with those who add to it and the worker that flushes it. -/
structure Schedule (α κ : Type) [Ord κ] where
  buffer : Buffer α κ
  /-- The size that each adder has read that is not done yet. -/
  adders : List Nat := []
  /-- The signals that were sent and not received, oldest first. -/
  channel : List Signal := []
  worker : WorkerStage := .waiting

namespace Schedule

variable {α κ : Type} [Ord κ]

/-! ## Steps -/

/-- What the worker does by itself. -/
inductive WorkerStep : Schedule α κ → Schedule α κ → Prop where
  | receive {s : Schedule α κ} {rest : List Signal} (h : s.worker = .waiting)
      (hsignal : s.channel = .schedule :: rest) :
      WorkerStep s { s with channel := rest, worker := .window }
  | absorb {s : Schedule α κ} {rest : List Signal} (h : s.worker = .window)
      (hsignal : s.channel = .schedule :: rest) : WorkerStep s { s with channel := rest }
  | close {s : Schedule α κ} (h : s.worker = .window) : WorkerStep s { s with worker := .closing }
  | take {s : Schedule α κ} (h : s.worker = .closing) :
      WorkerStep s { s with buffer := (s.buffer.takeFor .schedule).2, worker := .handing }
  | resume {s : Schedule α κ} (h : s.worker = .handing) :
      WorkerStep s { s with worker := .waiting }
  | stop {s : Schedule α κ} {rest : List Signal} (h : s.worker = .waiting ∨ s.worker = .window)
      (hsignal : s.channel = .shutdown :: rest) :
      WorkerStep s { s with channel := rest, worker := .stopped }

inductive Step (identify : α → κ) : Schedule α κ → Schedule α κ → Prop where
  | insert {s : Schedule α κ} (a : α) :
      Step identify s { s with
        buffer := s.buffer.insert (identify a) a
        adders := (s.buffer.insert (identify a) a).size :: s.adders }
  /-- An adder sends its signal if what it has read is enough, and is done. -/
  | finish {s : Schedule α κ} {before after : List Nat} {n : Nat}
      (h : s.adders = before ++ n :: after) :
      Step identify s { s with
        adders := before ++ after
        channel := if s.buffer.limit ≤ n then s.channel ++ [.schedule] else s.channel }
  | demand {s : Schedule α κ} :
      Step identify s { s with buffer := (s.buffer.takeFor .demand).2 }
  | shutDown {s : Schedule α κ} :
      Step identify s { s with channel := s.channel ++ [.shutdown] }
  | work {s s' : Schedule α κ} (h : WorkerStep s s') : Step identify s s'

/-- The schedule comes about from an empty buffer and a worker that waits. -/
def Reached (threshold : Nat) (identify : α → κ) (s : Schedule α κ) : Prop :=
  Relation.ReflTransGen (Step identify) { buffer := { threshold } } s

/-! ## What a due buffer has coming -/

/-- A flush will come of what has happened: an adder is about to send a signal, one is in the
channel, or the worker is going to take out the items. -/
def Expected (s : Schedule α κ) : Prop :=
  (∃ n ∈ s.adders, s.buffer.limit ≤ n) ∨ .schedule ∈ s.channel ∨ s.worker = .window ∨
    s.worker = .closing

/-- What the buffer notes of flushes is so. -/
structure Sound (threshold : Nat) (s : Schedule α κ) : Prop where
  threshold : s.buffer.threshold = threshold
  due : s.buffer.IsFull → s.buffer.due
  expected : s.buffer.due → s.worker ≠ .stopped → s.Expected

namespace Sound

variable {threshold : Nat} {s s' : Schedule α κ}

theorem work (h : Sound threshold s) (hstep : WorkerStep s s') : Sound threshold s' := by
  cases hstep with
  | receive _ _ => exact ⟨h.threshold, h.due, fun _ _ => .inr (.inr (.inl rfl))⟩
  | absorb hwindow _ => exact ⟨h.threshold, h.due, fun _ _ => .inr (.inr (.inl hwindow))⟩
  | close _ => exact ⟨h.threshold, h.due, fun _ _ => .inr (.inr (.inr rfl))⟩
  | take _ =>
      refine ⟨h.threshold, fun hfull => absurd hfull (s.buffer.not_isFull_takeFor _), ?_⟩
      intro hdue
      cases hdue
  | resume hhanding =>
      refine ⟨h.threshold, h.due, fun hdue _ => ?_⟩
      rcases h.expected hdue (by simp [hhanding]) with hadder | hsignal | hwindow | hclosing
      · exact .inl hadder
      · exact .inr (.inl hsignal)
      · simp [hhanding] at hwindow
      · simp [hhanding] at hclosing
  | stop _ _ => exact ⟨h.threshold, h.due, fun _ hrunning => absurd rfl hrunning⟩

theorem step {identify : α → κ} (h : Sound threshold s) (hstep : Step identify s s') :
    Sound threshold s' := by
  cases hstep with
  | insert a =>
      refine ⟨h.threshold, fun hfull => (s.buffer.due_insert _ a).mpr (.inr hfull), ?_⟩
      intro hdue hrunning
      rcases (s.buffer.due_insert _ a).mp hdue with hdue | hfull
      · rcases h.expected hdue hrunning with ⟨n, hn, hlimit⟩ | hrest
        · exact .inl ⟨n, List.mem_cons_of_mem _ hn, hlimit⟩
        · exact .inr hrest
      · -- the adder that has filled the buffer has read so
        exact .inl ⟨_, List.mem_cons_self, hfull⟩
  | @finish before after n hadders =>
      refine ⟨h.threshold, h.due, fun hdue hrunning => ?_⟩
      rcases h.expected hdue hrunning with ⟨n', hn', hlimit⟩ | hsignal | hworker
      · rw [hadders, List.mem_append, List.mem_cons] at hn'
        rcases hn' with hn' | rfl | hn'
        · exact .inl ⟨n', List.mem_append_left _ hn', hlimit⟩
        · refine .inr (.inl ?_)
          simp only [if_pos hlimit]
          exact List.mem_append_right _ (List.mem_singleton_self _)
        · exact .inl ⟨n', List.mem_append_right _ hn', hlimit⟩
      · refine .inr (.inl ?_)
        simp only []
        split
        · exact List.mem_append_left _ hsignal
        · exact hsignal
      · exact .inr (.inr hworker)
  | demand =>
      exact ⟨h.threshold, fun hfull => absurd hfull (s.buffer.not_isFull_takeFor _), h.expected⟩
  | shutDown =>
      refine ⟨h.threshold, h.due, fun hdue hrunning => ?_⟩
      rcases h.expected hdue hrunning with hadder | hsignal | hworker
      · exact .inl hadder
      · exact .inr (.inl (List.mem_append_left _ hsignal))
      · exact .inr (.inr hworker)
  | work hstep => exact h.work hstep

end Sound

theorem Reached.sound {threshold : Nat} {identify : α → κ} {s : Schedule α κ}
    (h : Reached threshold identify s) : Sound threshold s := by
  induction h with
  | refl =>
      refine ⟨rfl, fun hfull => ?_, fun hdue => ?_⟩
      · have hsize : ({ threshold } : Buffer α κ).size = 0 := rfl
        rw [Buffer.IsFull, Buffer.limit, hsize] at hfull
        omega
      · cases hdue
  | tail _ hstep ih => exact ih.step hstep

/-! ## What comes of it -/

/-- The state once the worker has emptied the buffer. -/
def emptied (s : Schedule α κ) (channel : List Signal) : Schedule α κ :=
  { s with buffer := (s.buffer.takeFor .schedule).2, channel, worker := .handing }

section

open Relation (ReflTransGen)

variable {s : Schedule α κ}

theorem empties_from_window (h : s.worker = .window) :
    ReflTransGen WorkerStep s (s.emptied s.channel) :=
  .tail (.single (.close h)) (.take rfl)

theorem empties_from_waiting (h : s.worker = .waiting) {rest : List Signal}
    (hsignal : s.channel = .schedule :: rest) :
    ReflTransGen WorkerStep s (s.emptied rest) :=
  .head (.receive h hsignal) (empties_from_window rfl)

/-- By its own steps the worker comes to empty the buffer, unless it is told to stop. -/
theorem comes_to_empty (hrunning : s.worker ≠ .stopped) (hgoing : .shutdown ∉ s.channel)
    (h : .schedule ∈ s.channel ∨ s.worker = .window ∨ s.worker = .closing) :
    ∃ channel, ReflTransGen WorkerStep s (s.emptied channel) := by
  -- what the worker receives next, it does not stop for
  have hnext : .schedule ∈ s.channel → ∃ rest, s.channel = .schedule :: rest := by
    intro hsignal
    obtain ⟨first, rest, hchannel⟩ := List.exists_cons_of_ne_nil (List.ne_nil_of_mem hsignal)
    cases first with
    | schedule => exact ⟨rest, hchannel⟩
    | shutdown => exact absurd (hchannel ▸ List.mem_cons_self) hgoing
  cases hworker : s.worker with
  | waiting =>
      obtain ⟨rest, hchannel⟩ := hnext (by simpa [hworker] using h)
      exact ⟨rest, empties_from_waiting hworker hchannel⟩
  | window => exact ⟨_, empties_from_window hworker⟩
  | closing => exact ⟨_, .single (.take hworker)⟩
  | handing =>
      obtain ⟨rest, hchannel⟩ := hnext (by simpa [hworker] using h)
      exact ⟨rest, .head (.resume hworker) (empties_from_waiting rfl hchannel)⟩
  | stopped => exact absurd hworker hrunning

/-- Whoever adds and flushes: while the worker has not stopped, a buffer that holds enough has a
signal in the channel or the worker on its way to take, once no adder has a signal left to send;
and from there the worker empties the buffer by itself, unless it is told to stop. -/
theorem Reached.flush_on_its_way {threshold : Nat} {identify : α → κ}
    (h : Reached threshold identify s) (hrunning : s.worker ≠ .stopped)
    (hfull : max threshold 1 ≤ s.buffer.size) (hsent : ∀ n ∈ s.adders, n < max threshold 1) :
    (.schedule ∈ s.channel ∨ s.worker = .window ∨ s.worker = .closing) ∧
      (.shutdown ∉ s.channel → ∃ channel, ReflTransGen WorkerStep s (s.emptied channel)) := by
  have hlimit : s.buffer.limit = max threshold 1 := by rw [Buffer.limit, h.sound.threshold]
  have hdue : s.buffer.due := h.sound.due (by rwa [Buffer.IsFull, hlimit])
  have hcoming : .schedule ∈ s.channel ∨ s.worker = .window ∨ s.worker = .closing := by
    rcases h.sound.expected hdue hrunning with ⟨n, hn, hge⟩ | hcoming
    · have hlt := hsent n hn
      omega
    · exact hcoming
  exact ⟨hcoming, fun hgoing => comes_to_empty hrunning hgoing hcoming⟩

end

/-- While the worker hands over what it has taken out, the buffer is filled again, and the adder
that has filled it sends its signal. -/
theorem flush_on_its_way_while_handing :
    ∃ s : Schedule (Nat × Nat) Nat, s.Reached 2 Prod.fst ∧ s.worker = .handing ∧
      s.buffer.size = 2 ∧ s.adders = [1, 1] ∧
      (.schedule ∈ s.channel ∨ s.worker = .window ∨ s.worker = .closing) ∧
      (.shutdown ∉ s.channel →
        ∃ channel, Relation.ReflTransGen WorkerStep s (s.emptied channel)) := by
  have hnew : Reached 2 Prod.fst ({ buffer := { threshold := 2 } } : Schedule (Nat × Nat) Nat) :=
    .refl
  have hfilled := (hnew.tail (.insert (1, 10))).tail (.insert (2, 20))
  have hsignalled := hfilled.tail (.finish (show [2, 1] = [] ++ 2 :: [1] from rfl))
  have hclosed := (hsignalled.tail (.work (.receive rfl rfl))).tail (.work (.close rfl))
  have htaken := hclosed.tail (.work (.take rfl))
  have hrefilled := (htaken.tail (.insert (3, 30))).tail (.insert (4, 40))
  have hsent := hrefilled.tail (.finish (show [2, 1, 1] = [] ++ 2 :: [1, 1] from rfl))
  exact ⟨_, hsent, rfl, rfl, rfl,
    Reached.flush_on_its_way hsent (by decide) (by decide) (by decide)⟩

end Schedule

end VaultSearch

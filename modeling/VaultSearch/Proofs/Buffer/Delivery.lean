import Mathlib.Data.List.Infix
import Mathlib.Data.List.Nodup
import Mathlib.Data.List.Perm.Basic
import Mathlib.Logic.Relation
import VaultSearch.Buffer

/-!
# What a buffer delivers

Items are put into a buffer at any time and by anybody. A flush, on demand
or scheduled, takes the lock on flushes, takes out what the buffer holds,
hands it to the handler if it is anything, and releases the lock; a flush
that waits for the lock changes nothing. A `Delivery` is a buffer with the
flush that holds the lock and a log of all that has happened, newest first.

What the log has to do with the buffer is kept by `Ledger`, which only
additions and takes touch, and what it has to do with the flush under way
by `Turns`, which additions do not. Together they say that nothing is lost
but what was overwritten, nothing is handed over twice, and nothing
overtakes what came before it (`Delivery.Reached.delivered`).
-/

namespace VaultSearch

namespace Buffer

/-- What a flush comes from. -/
inductive Cause where
  | demand | schedule

/-- What a flush takes out: everything. If it was scheduled, it has come now. -/
def takeFor {α κ : Type} [Ord κ] (b : Buffer α κ) : Cause → List (κ × α) × Buffer α κ
  | .demand => b.drain
  | .schedule => (b.drain.1, { b.drain.2 with due := false })

/-- The scheduled flush of a buffer is one that is due. -/
theorem settle_of_due {α κ : Type} [Ord κ] {b : Buffer α κ} (h : b.due) :
    b.settle = b.takeFor .schedule := by
  rw [settle, if_pos h]
  rfl

end Buffer

open Buffer (Cause)
open scoped List

inductive DeliveryEvent (α κ : Type) where
  | added (a : α)
  | locked (cause : Cause)
  | took (batch : List (κ × α))
  | entered (batch : List (κ × α))
  | left (batch : List (κ × α))
  | returned (cause : Cause) (n : Nat)

/-- How far the flush that holds the lock has got. -/
inductive FlushStage (α κ : Type) where
  | locked (cause : Cause)
  | holding (cause : Cause) (batch : List (κ × α))
  | handling (cause : Cause) (batch : List (κ × α))
  | leaving (cause : Cause) (n : Nat)

structure Delivery (α κ : Type) [Ord κ] where
  buffer : Buffer α κ
  flush : Option (FlushStage α κ) := none
  log : List (DeliveryEvent α κ) := []

namespace Delivery

variable {α κ : Type}

/-! ## Steps -/

section

variable [Ord κ]

/-- A scheduled flush may come at any time: it may be late, and find the buffer emptied by
another one. -/
inductive Step (identify : α → κ) : Delivery α κ → Delivery α κ → Prop where
  | add {d : Delivery α κ} (a : α) :
      Step identify d { d with
        buffer := d.buffer.insert (identify a) a
        log := .added a :: d.log }
  | lock {d : Delivery α κ} (cause : Cause) (h : d.flush = none) :
      Step identify d { d with flush := some (.locked cause), log := .locked cause :: d.log }
  | take {d : Delivery α κ} {cause : Cause} (h : d.flush = some (.locked cause)) :
      Step identify d
        { buffer := (d.buffer.takeFor cause).2
          flush := some <|
            if (d.buffer.takeFor cause).1 = [] then .leaving cause 0
            else .holding cause (d.buffer.takeFor cause).1
          log := .took (d.buffer.takeFor cause).1 :: d.log }
  | enter {d : Delivery α κ} {cause : Cause} {batch : List (κ × α)}
      (h : d.flush = some (.holding cause batch)) :
      Step identify d { d with
        flush := some (.handling cause batch)
        log := .entered batch :: d.log }
  | leave {d : Delivery α κ} {cause : Cause} {batch : List (κ × α)}
      (h : d.flush = some (.handling cause batch)) :
      Step identify d { d with
        flush := some (.leaving cause batch.length)
        log := .left batch :: d.log }
  | release {d : Delivery α κ} {cause : Cause} {n : Nat}
      (h : d.flush = some (.leaving cause n)) :
      Step identify d { d with flush := none, log := .returned cause n :: d.log }

/-- The delivery comes about from an empty buffer. -/
def Reached (threshold : Nat) (identify : α → κ) (d : Delivery α κ) : Prop :=
  Relation.ReflTransGen (Step identify) { buffer := { threshold } } d

end

/-! ## Reading the log -/

/-- All items that were put in. -/
def added : List (DeliveryEvent α κ) → List α
  | [] => []
  | .added a :: log => a :: added log
  | _ :: log => added log

/-- The items that were put in since the last take. -/
def recent : List (DeliveryEvent α κ) → List α
  | [] => []
  | .added a :: log => a :: recent log
  | .took _ :: _ => []
  | _ :: log => recent log

/-- The items that were put in before the last take. -/
def older : List (DeliveryEvent α κ) → List α
  | [] => []
  | .took _ :: log => added log
  | _ :: log => older log

/-- The batches that were taken out, other than empty ones. -/
def taken : List (DeliveryEvent α κ) → List (List (κ × α))
  | [] => []
  | .took [] :: log => taken log
  | .took batch :: log => batch :: taken log
  | _ :: log => taken log

/-- The batches that the handler was called with. -/
def entered : List (DeliveryEvent α κ) → List (List (κ × α))
  | [] => []
  | .entered batch :: log => batch :: entered log
  | _ :: log => entered log

/-- The batches that the handler is done with. -/
def left : List (DeliveryEvent α κ) → List (List (κ × α))
  | [] => []
  | .left batch :: log => batch :: left log
  | _ :: log => left log

/-- The number of items that the handler got since the lock was taken last. -/
def handed : List (DeliveryEvent α κ) → Nat
  | [] => 0
  | .locked _ :: _ => 0
  | .entered batch :: log => handed log + batch.length
  | _ :: log => handed log

/-- The items with a key. -/
def ofKey [DecidableEq κ] (identify : α → κ) (k : κ) (items : List α) : List α :=
  items.filter fun a => decide (identify a = k)

/-- The last item with a key among `items`, which are listed newest first. -/
def lastOf [DecidableEq κ] (identify : α → κ) (k : κ) (items : List α) : Option α :=
  (ofKey identify k items).head?

/-- The items that another one with their key came after, before they were taken out. -/
def overwritten [DecidableEq κ] (identify : α → κ) : List (DeliveryEvent α κ) → List α
  | [] => []
  | .added a :: log =>
      (lastOf identify (identify a) (recent log)).toList ++ overwritten identify log
  | _ :: log => overwritten identify log

/-- The batch that was taken out and has not reached the handler. -/
def held : Option (FlushStage α κ) → List (List (κ × α))
  | some (.holding _ batch) => [batch]
  | _ => []

/-- The batch that the handler is busy with. -/
def running : Option (FlushStage α κ) → List (List (κ × α))
  | some (.handling _ batch) => [batch]
  | _ => []

/-- The number of items that the flush has handed over. -/
def count : FlushStage α κ → Nat
  | .locked _ | .holding _ _ => 0
  | .handling _ batch => batch.length
  | .leaving _ n => n

theorem added_eq : ∀ log : List (DeliveryEvent α κ), added log = recent log ++ older log
  | [] => rfl
  | .added a :: log => congrArg (a :: ·) (added_eq log)
  | .took _ :: _ => rfl
  | .locked _ :: log | .entered _ :: log | .left _ :: log | .returned _ _ :: log => added_eq log

theorem ofKey_append [DecidableEq κ] (identify : α → κ) (k : κ) (l l' : List α) :
    ofKey identify k (l ++ l') = ofKey identify k l ++ ofKey identify k l' :=
  List.filter_append l l'

theorem taken_took (batch : List (κ × α)) (log : List (DeliveryEvent α κ)) :
    taken (.took batch :: log) = if batch = [] then taken log else batch :: taken log := by
  cases batch <;> rfl

/-! ## Pending items -/

section

variable [Ord κ] [Std.TransOrd κ] [Std.LawfulEqOrd κ] [DecidableEq κ]

theorem filter_toList (m : Std.TreeMap κ α) (k : κ) :
    m.toList.filter (fun x => decide (x.1 = k)) = m[k]?.toList.map (k, ·) := by
  have hmem : ∀ x : κ × α, x ∈ m.toList.filter (fun x => decide (x.1 = k)) ↔
      x.1 = k ∧ m[k]? = some x.2 := by
    rintro ⟨k', a⟩
    rw [List.mem_filter, Std.TreeMap.mem_toList_iff_getElem?_eq_some, decide_eq_true_eq, and_comm]
    refine and_congr_right ?_
    rintro rfl
    rfl
  have hnd : m.toList.Nodup := .of_map Prod.fst (by
    rw [Std.TreeMap.map_fst_toList_eq_keys]
    exact Std.TreeMap.nodup_keys)
  cases hk : m[k]? with
  | none =>
      refine List.eq_nil_iff_forall_not_mem.mpr fun x hx => ?_
      rw [hmem, hk] at hx
      cases hx.2
  | some a =>
      refine List.perm_singleton.mp
        ((List.perm_ext_iff_of_nodup (hnd.filter _) (List.nodup_singleton _)).mpr fun x => ?_)
      rw [hmem, hk, List.mem_singleton, Option.some.injEq, Prod.ext_iff, eq_comm (a := a)]

/-- An item that is put in takes the place of the one with its key. -/
theorem toList_insert_perm (m : Std.TreeMap κ α) (k : κ) (a : α) :
    (a :: m.toList.map Prod.snd).Perm ((m.insert k a).toList.map Prod.snd ++ m[k]?.toList) := by
  have hsplit : m.toList.Perm
      (m[k]?.toList.map (k, ·) ++ m.toList.filter fun x => !decide (x.1 = k)) := by
    rw [← filter_toList]
    exact (List.filter_append_perm _ _).symm
  have hinsert : (m.insert k a).toList.Perm
      ((k, a) :: m.toList.filter fun x => !decide (x.1 = k)) := by
    refine Std.TreeMap.toList_insert_perm.trans (.of_eq ?_)
    congr 2
    funext x
    by_cases hx : k = x.1
    · simp [hx]
    · simp [hx, Ne.symm hx]
  have hvalues := (hsplit.map Prod.snd).cons a
  rw [List.map_append, List.map_map] at hvalues
  refine hvalues.trans ?_
  refine ((List.perm_append_comm).cons a).trans ?_
  rw [show (Prod.snd ∘ fun b : α => (k, b)) = id from rfl, List.map_id]
  exact ((hinsert.map Prod.snd).append_right _).symm

end

/-! ## The ledger -/

section

variable [Ord κ] [Std.TransOrd κ] [Std.LawfulEqOrd κ] [DecidableEq κ]

/-- What additions and takes have made of the buffer and of each other. -/
structure Ledger (identify : α → κ) (b : Buffer α κ) (log : List (DeliveryEvent α κ)) : Prop where
  pending : ∀ k, b.items[k]? = lastOf identify k (recent log)
  latest : ∀ batch pre, .took batch :: pre <:+ log →
    ∀ k a, (k, a) ∈ batch ↔ lastOf identify k (recent pre) = some a
  distinct : ∀ batch ∈ taken log, batch ≠ [] ∧ (batch.map Prod.fst).Nodup ∧
    ∀ x ∈ batch, identify x.2 = x.1
  accounted : (added log).Perm
    (((taken log).flatten ++ b.items.toList).map Prod.snd ++ overwritten identify log)
  inOrder : ∀ k, (ofKey identify k ((taken log).flatten.map Prod.snd)).Sublist
    (ofKey identify k (older log))

namespace Ledger

variable {identify : α → κ} {b : Buffer α κ} {log : List (DeliveryEvent α κ)}

/-- An item is pending under its own key. -/
theorem identify_eq (h : Ledger identify b log) {x : κ × α} (hx : x ∈ b.items.toList) :
    identify x.2 = x.1 := by
  obtain ⟨k, a⟩ := x
  rw [Std.TreeMap.mem_toList_iff_getElem?_eq_some, h.pending] at hx
  exact of_decide_eq_true (List.mem_filter.mp (List.mem_of_mem_head? hx)).2

theorem add (h : Ledger identify b log) (a : α) :
    Ledger identify (b.insert (identify a) a) (.added a :: log) where
  pending k := by
    rw [Buffer.insert, recent, lastOf, ofKey, List.filter_cons]
    simp only [Std.TreeMap.getElem?_insert, Std.LawfulEqOrd.compare_eq_iff_eq, h.pending k]
    by_cases hk : identify a = k <;> simp [hk, lastOf, ofKey]
  latest batch pre hpre := by
    rcases List.suffix_cons_iff.mp hpre with heq | hpre
    · cases heq
    · exact h.latest batch pre hpre
  distinct := h.distinct
  accounted := by
    have hinsert := toList_insert_perm b.items (identify a) a
    rw [h.pending] at hinsert
    have hadded := h.accounted
    rw [List.map_append, List.append_assoc] at hadded ⊢
    rw [overwritten]
    -- the new item joins the pending ones, and the one it replaces leaves them
    calc a :: added log
      _ ~ a :: ((taken log).flatten.map Prod.snd ++
            (b.items.toList.map Prod.snd ++ overwritten identify log)) := hadded.cons a
      _ ~ (taken log).flatten.map Prod.snd ++
            ((a :: b.items.toList.map Prod.snd) ++ overwritten identify log) :=
          List.perm_middle.symm
      _ ~ (taken log).flatten.map Prod.snd ++
            (((b.items.insert (identify a) a).toList.map Prod.snd ++
              (lastOf identify (identify a) (recent log)).toList) ++ overwritten identify log) :=
          (hinsert.append_right _).append_left _
      _ = (taken log).flatten.map Prod.snd ++
            ((b.items.insert (identify a) a).toList.map Prod.snd ++
              ((lastOf identify (identify a) (recent log)).toList ++
                overwritten identify log)) := by
          rw [List.append_assoc (List.map Prod.snd (Std.TreeMap.toList _))]
  inOrder := h.inOrder

theorem take (h : Ledger identify b log) (cause : Cause) :
    Ledger identify (b.takeFor cause).2 (.took (b.takeFor cause).1 :: log) := by
  have hbatch : (b.takeFor cause).1 = b.items.toList := by cases cause <;> rfl
  have hitems : (b.takeFor cause).2.items = {} := by cases cause <;> rfl
  have hflatten : (taken (.took b.items.toList :: log)).flatten =
      b.items.toList ++ (taken log).flatten := by
    rw [taken_took]
    split
    · rename_i hnil
      rw [hnil, List.nil_append]
    · rfl
  rw [hbatch]
  constructor
  · intro k
    rw [hitems]
    simp [recent, lastOf, ofKey]
  · intro batch pre hpre k a
    rcases List.suffix_cons_iff.mp hpre with heq | hpre
    · cases heq
      rw [Std.TreeMap.mem_toList_iff_getElem?_eq_some, h.pending]
    · exact h.latest batch pre hpre k a
  · intro batch hmem
    rw [taken_took] at hmem
    split at hmem
    · exact h.distinct batch hmem
    · rename_i hne
      rcases List.mem_cons.mp hmem with rfl | hmem
      · refine ⟨hne, ?_, fun x hx => h.identify_eq hx⟩
        rw [Std.TreeMap.map_fst_toList_eq_keys]
        exact Std.TreeMap.nodup_keys
      · exact h.distinct batch hmem
  · rw [hflatten, hitems]
    refine h.accounted.trans ?_
    have hempty : ({} : Std.TreeMap κ α).toList = [] := rfl
    rw [hempty, List.append_nil]
    exact (List.perm_append_comm.map _).append_right _
  · intro k
    rw [hflatten, older, added_eq, List.map_append, ofKey_append, ofKey_append]
    refine List.Sublist.append ?_ (h.inOrder k)
    -- only the last item with this key is pending
    have hlast : ofKey identify k (b.items.toList.map Prod.snd) =
        (lastOf identify k (recent log)).toList := by
      have hkeys : b.items.toList.filter ((fun a => decide (identify a = k)) ∘ Prod.snd) =
          b.items.toList.filter fun x => decide (x.1 = k) :=
        List.filter_congr fun x hx => by rw [Function.comp_apply, h.identify_eq hx]
      rw [← h.pending k, ofKey, List.filter_map, hkeys, filter_toList, List.map_map]
      exact List.map_id _
    rw [hlast, lastOf]
    cases ofKey identify k (recent log) with
    | nil => exact List.Sublist.refl _
    | cons a rest => exact (List.nil_sublist rest).cons_cons a

omit [Std.TransOrd κ] [Std.LawfulEqOrd κ] in
/-- Other events change nothing of this. -/
theorem skip (h : Ledger identify b log) {event : DeliveryEvent α κ}
    (hadded : ∀ a, event ≠ .added a) (htook : ∀ batch, event ≠ .took batch) :
    Ledger identify b (event :: log) := by
  have hlatest : ∀ batch pre, .took batch :: pre <:+ event :: log →
      ∀ k a, (k, a) ∈ batch ↔ lastOf identify k (recent pre) = some a := by
    intro batch pre hpre
    rcases List.suffix_cons_iff.mp hpre with heq | hpre
    · exact absurd (List.cons.inj heq).1.symm (htook batch)
    · exact h.latest batch pre hpre
  cases event with
  | added a => exact absurd rfl (hadded a)
  | took batch => exact absurd rfl (htook batch)
  | locked | entered | left | returned =>
      exact ⟨h.pending, hlatest, h.distinct, h.accounted, h.inOrder⟩

end Ledger

end

/-! ## Turns -/

/-- What the flush under way has left to do, and what all flushes returned. -/
structure Turns (flush : Option (FlushStage α κ)) (log : List (DeliveryEvent α κ)) : Prop where
  taken : taken log = held flush ++ entered log
  entered : entered log = running flush ++ left log
  handed : ∀ stage, flush = some stage → handed log = count stage
  returned : ∀ cause n pre, .returned cause n :: pre <:+ log → n = Delivery.handed pre

namespace Turns

variable {flush : Option (FlushStage α κ)} {log : List (DeliveryEvent α κ)} {cause : Cause}
  {batch : List (κ × α)}

/-- An event that is no return adds nothing to the returns. -/
theorem returned_cons (h : Turns flush log) {event : DeliveryEvent α κ}
    (hevent : ∀ cause n, event ≠ .returned cause n) :
    ∀ cause n pre, .returned cause n :: pre <:+ event :: log → n = Delivery.handed pre := by
  intro cause n pre hpre
  rcases List.suffix_cons_iff.mp hpre with heq | hpre
  · exact absurd (List.cons.inj heq).1.symm (hevent cause n)
  · exact h.returned cause n pre hpre

theorem add (h : Turns flush log) (a : α) : Turns flush (.added a :: log) :=
  ⟨h.taken, h.entered, h.handed, h.returned_cons (by simp)⟩

theorem lock (h : Turns none log) (cause : Cause) :
    Turns (some (.locked cause)) (.locked cause :: log) where
  taken := h.taken
  entered := h.entered
  handed stage hstage := by
    cases hstage
    rfl
  returned := h.returned_cons (by simp)

theorem take (h : Turns (some (.locked cause)) log) (batch : List (κ × α)) :
    Turns (some (if batch = [] then .leaving cause 0 else .holding cause batch))
      (.took batch :: log) := by
  have hhanded : Delivery.handed log = 0 := h.handed _ rfl
  split
  · rename_i hnil
    subst hnil
    refine ⟨h.taken, h.entered, ?_, h.returned_cons (by simp)⟩
    rintro _ ⟨⟩
    exact hhanded
  · rename_i hne
    refine ⟨?_, h.entered, ?_, h.returned_cons (by simp)⟩
    · rw [taken_took, if_neg hne, h.taken]
      rfl
    · rintro _ ⟨⟩
      exact hhanded

theorem enter (h : Turns (some (.holding cause batch)) log) :
    Turns (some (.handling cause batch)) (.entered batch :: log) where
  taken := h.taken
  entered := congrArg (batch :: ·) h.entered
  handed stage hstage := by
    cases hstage
    have hhanded : Delivery.handed log = 0 := h.handed _ rfl
    rw [Delivery.handed, hhanded, Nat.zero_add]
    rfl
  returned := h.returned_cons (by simp)

theorem leave (h : Turns (some (.handling cause batch)) log) :
    Turns (some (.leaving cause batch.length)) (.left batch :: log) where
  taken := h.taken
  entered := h.entered
  handed stage hstage := by
    cases hstage
    have hhanded : Delivery.handed log = batch.length := h.handed _ rfl
    exact hhanded
  returned := h.returned_cons (by simp)

theorem release {n : Nat} (h : Turns (some (.leaving cause n)) log) :
    Turns none (.returned cause n :: log) where
  taken := h.taken
  entered := h.entered
  handed stage hstage := by cases hstage
  returned cause' n' pre hpre := by
    rcases List.suffix_cons_iff.mp hpre with heq | hpre
    · cases heq
      exact (h.handed _ rfl).symm
    · exact h.returned cause' n' pre hpre

end Turns

/-! ## Runs -/

section

variable [Ord κ] [Std.TransOrd κ] [Std.LawfulEqOrd κ] [DecidableEq κ] {identify : α → κ}
  {threshold : Nat} {d d' : Delivery α κ}

structure Sound (identify : α → κ) (d : Delivery α κ) : Prop where
  ledger : Ledger identify d.buffer d.log
  turns : Turns d.flush d.log

theorem Sound.step (h : Sound identify d) (hstep : Step identify d d') : Sound identify d' := by
  cases hstep with
  | add a => exact ⟨h.ledger.add a, h.turns.add a⟩
  | lock cause hfree => exact ⟨h.ledger.skip (by simp) (by simp), (hfree ▸ h.turns).lock cause⟩
  | @take cause hlocked => exact ⟨h.ledger.take cause, (hlocked ▸ h.turns).take _⟩
  | enter hholding => exact ⟨h.ledger.skip (by simp) (by simp), (hholding ▸ h.turns).enter⟩
  | leave hhandling => exact ⟨h.ledger.skip (by simp) (by simp), (hhandling ▸ h.turns).leave⟩
  | release hleaving => exact ⟨h.ledger.skip (by simp) (by simp), (hleaving ▸ h.turns).release⟩

theorem Reached.sound (h : Reached threshold identify d) : Sound identify d := by
  induction h with
  | refl =>
      have hturns : Turns none ([] : List (DeliveryEvent α κ)) := ⟨rfl, rfl, by simp, by simp⟩
      refine ⟨⟨?_, by simp, by simp [taken], .refl _, fun k => .refl _⟩, hturns⟩
      simp [recent, lastOf, ofKey]
  | tail _ hstep ih => exact ih.step hstep

omit [Ord κ] [Std.TransOrd κ] [Std.LawfulEqOrd κ] [DecidableEq κ] in
theorem recent_append : ∀ (mid log : List (DeliveryEvent α κ)),
    (∀ batch, .took batch ∉ mid) → recent (mid ++ log) = added mid ++ recent log
  | [], _, _ => rfl
  | event :: mid, log, h => by
      have ih := recent_append mid log fun batch hmem =>
        h batch (List.mem_cons_of_mem _ hmem)
      cases event with
      | added a => exact congrArg (a :: ·) ih
      | took batch => exact absurd List.mem_cons_self (h batch)
      | locked | entered | left | returned => exact ih

/-- What a buffer makes of the items put into it. The log lists everything newest first. -/
structure Delivered (identify : α → κ) (d : Delivery α κ) : Prop where
  /-- The handler never gets an empty batch, nor two items with the same key at once. -/
  batches : ∀ batch ∈ entered d.log, batch ≠ [] ∧ (batch.map fun x => identify x.2).Nodup
  /-- A flush takes out the last item for each key that was put in since the take before. -/
  latest : ∀ batch pre, .took batch :: pre <:+ d.log →
    ∀ k a, (k, a) ∈ batch ↔ lastOf identify k (recent pre) = some a
  /-- Every item is handed over once, or about to be, or pending, or overwritten. -/
  accounted : added d.log ~
    (entered d.log).flatten.map Prod.snd ++ (held d.flush).flatten.map Prod.snd ++
      d.buffer.items.toList.map Prod.snd ++ overwritten identify d.log
  /-- The handler is done with all batches but the one that it is busy with. -/
  oneAtATime : entered d.log = running d.flush ++ left d.log
  /-- The handler gets the batches in the order in which they were taken out. -/
  inTurn : taken d.log = held d.flush ++ entered d.log
  /-- For each key, the items handed over come in the order in which they were put in. -/
  notOvertaken : ∀ k,
    ofKey identify k ((entered d.log).flatten.map Prod.snd) <+ ofKey identify k (added d.log)
  /-- An item, also one that comes while the handler is busy, is in the batch that is taken
  out next, unless it is overwritten before. -/
  nextTake : ∀ batch mid a pre, .took batch :: (mid ++ .added a :: pre) <:+ d.log →
    (∀ b, .took b ∉ mid) → (∀ a' ∈ added mid, identify a' ≠ identify a) → (identify a, a) ∈ batch
  /-- A flush returns the number of items that the handler got from it. -/
  returned : ∀ cause n pre, .returned cause n :: pre <:+ d.log → n = handed pre

/-- Whoever puts in items and whoever flushes, none of them is lost, handed over twice or
out of order. -/
theorem Reached.delivered (h : Reached threshold identify d) : Delivered identify d where
  batches batch hmem := by
    have htaken : batch ∈ taken d.log := by
      rw [h.sound.turns.taken]
      exact List.mem_append_right _ hmem
    obtain ⟨hne, hnd, hkeys⟩ := h.sound.ledger.distinct batch htaken
    refine ⟨hne, ?_⟩
    rwa [List.map_congr_left hkeys]
  latest := h.sound.ledger.latest
  accounted := by
    refine h.sound.ledger.accounted.trans ?_
    rw [h.sound.turns.taken, List.flatten_append, List.map_append, List.map_append]
    exact (List.perm_append_comm.append_right _).append_right _
  oneAtATime := h.sound.turns.entered
  inTurn := h.sound.turns.taken
  notOvertaken k := by
    have htaken := h.sound.ledger.inOrder k
    rw [h.sound.turns.taken, List.flatten_append, List.map_append, ofKey_append] at htaken
    rw [added_eq, ofKey_append]
    exact ((List.sublist_append_right _ _).trans htaken).trans (List.sublist_append_right _ _)
  nextTake batch mid a pre hpre hmid hlast := by
    have hnone : ofKey identify (identify a) (added mid) = [] :=
      List.filter_eq_nil_iff.mpr fun a' ha' => by simpa using hlast a' ha'
    rw [h.sound.ledger.latest batch _ hpre, recent_append _ _ hmid, lastOf, ofKey_append, hnone,
      recent, ofKey, List.filter_cons_of_pos (by simp)]
    rfl
  returned := h.sound.turns.returned

end

/-- An item that comes while the handler is busy with the one before it. -/
theorem delivered_during_handler :
    ∃ d : Delivery (Nat × Nat) Nat, d.Reached 3 Prod.fst ∧ d.buffer.size = 1 ∧
      Delivered Prod.fst d := by
  have hnew : Reached 3 Prod.fst ({ buffer := { threshold := 3 } } : Delivery (Nat × Nat) Nat) :=
    .refl
  have hadded := hnew.tail (.add (1, 10))
  have hlocked := hadded.tail (.lock .demand rfl)
  have htaken := hlocked.tail (.take rfl)
  have hentered := htaken.tail (.enter rfl)
  have hagain := hentered.tail (.add (1, 11))
  have hleft := hagain.tail (.leave rfl)
  have hreturned := hleft.tail (.release rfl)
  exact ⟨_, hreturned, rfl, Reached.delivered hreturned⟩

end Delivery

end VaultSearch

import OpenBlue.Base.Flush
import OpenBlue.Base.Wakeup
/-!
# Base — the order of a work queue

What happens to a queue while an item waits in it: whatever starts there was
ahead of the item, and starts in that order (`no_overtaking`). Submissions go
behind the item, and the flushers that go in front of it are no items.
-/

namespace OpenBlue

namespace Base

open List

variable {s : State} {l l' : List WorkId} {w : WorkId} {n m f q : ℕ} {e : Event}

/-- The items ahead of an item in the list of a queue. -/
def itemsAhead (n : ℕ) : List WorkId → List ℕ
  | [] => []
  | .item m :: l => if m = n then [] else m :: itemsAhead n l
  | .flusher _ :: l => itemsAhead n l

def State.ahead (s : State) (q n : ℕ) : List ℕ := itemsAhead n (s.queues q).pending

/-- The item that a step starts in a queue. -/
def State.starts (q : ℕ) (s : State) (e : Event) : List ℕ :=
  if e = .fetch q ∧ (s.queues q).pc = .loop then
    match (s.queues q).pending with
    | .item m :: _ => [m]
    | _ => []
  else []

/-- What waits before and after gets nothing ahead of it. -/
structure Orderly (l l' : List WorkId) : Prop where
  ahead : ∀ n, .item n ∈ l → .item n ∈ l' → (itemsAhead n l').Sublist (itemsAhead n l)

theorem Orderly.of_eq (h : l' = l) : Orderly l l' := ⟨fun _ _ _ => h ▸ .refl _⟩

theorem itemsAhead_append (h : .item n ∈ l) (l' : List WorkId) :
    itemsAhead n (l ++ l') = itemsAhead n l := by
  fun_induction itemsAhead n l with grind [itemsAhead]

theorem itemsAhead_erase (hm : m ≠ n) :
    (itemsAhead n (l.erase (.item m))).Sublist (itemsAhead n l) := by
  fun_induction itemsAhead n l with grind [itemsAhead]

theorem itemsAhead_insertAfter (w : WorkId) (f : ℕ) :
    itemsAhead n (insertAfter w (.flusher f) l) = itemsAhead n l ∧
      (.item n ∈ insertAfter w (.flusher f) l ↔ .item n ∈ l) := by
  fun_induction itemsAhead n l with grind [itemsAhead, insertAfter]

theorem orderly_submitToQueue (s : State) (self n : ℕ) (queue : Option ℕ) (q : ℕ) :
    Orderly (s.queues q).pending ((s.submitToQueue self (.item n) queue).2.queues q).pending := by
  rcases submitToQueue_cases s self n queue with heq | ⟨q', h⟩
  · rw [heq]
    exact .of_eq rfl
  · rw [h.pending]
    split
    · exact ⟨fun m hm _ => (itemsAhead_append hm _).symm ▸ .refl _⟩
    · exact .of_eq rfl

theorem orderly_scheduleForQueue (s : State) (self n q' : ℕ) (noWait : Bool) (q : ℕ) :
    Orderly (s.queues q).pending
      ((s.scheduleForQueue self (.item n) q' noWait).2.queues q).pending := by
  rw [State.scheduleForQueue]
  split
  · exact orderly_submitToQueue ..
  · exact .of_eq rfl

theorem Inv.not_mem_erase (h : Inv s) : .item n ∉ (s.queues q).pending.erase (.item n) := by
  have hle : s.places (.item n) q ≤ 1 := by
    rw [(h.item n).places]
    split <;> simp
  rw [State.places] at hle
  rw [← count_pos_iff, count_erase_self]
  omega

theorem Inv.orderly_cancelAsync (hinv : Inv s) (n q : ℕ) :
    Orderly (s.queues q).pending ((s.cancelAsync (.item n)).2.queues q).pending := by
  have hremove : Orderly (s.queues q).pending ((if !(s.works (.item n)).canceling then
      s.queueRemove (s.works (.item n)).queue (.item n) else s).queues q).pending := by
    split
    · rcases queueRemove_cases s n (s.works (.item n)).queue with heq | h
      · exact .of_eq (by rw [heq])
      · rcases h.pending q with heq | heq
        · exact .of_eq heq
        · rw [heq]
          exact ⟨fun m _ hm => itemsAhead_erase fun hn => hinv.not_mem_erase (hn ▸ hm)⟩
    · exact .of_eq rfl
  rw [State.cancelAsync]
  dsimp only
  generalize (if !(s.works (.item n)).canceling then
    s.queueRemove (s.works (.item n)).queue (.item n) else s) = t at hremove ⊢
  split
  · exact hremove
  · exact hremove

theorem Orderly.workFlush (h : Orderly l (s.queues q).pending) (w : WorkId) (f : ℕ) :
    Orderly l ((s.workFlush w f).2.queues q).pending := by
  rw [State.workFlush]
  split
  · split
    · exact h
    · simp only [State.queueFlusher, (quiet_notify _ _).pending, queues_setQueue]
      split
      next hq =>
        subst hq
        dsimp only
        split
        · refine ⟨fun n hn hn' => ?_⟩
          obtain ⟨hahead, hmem⟩ := itemsAhead_insertAfter (n := n) (l := (s.queues _).pending) w f
          exact hahead ▸ h.ahead n hn (hmem.1 hn')
        · exact ⟨fun n hn hn' => h.ahead n hn (by simpa using hn')⟩
      next => exact h
  · exact h

theorem queues_unschedule (s : State) (w : WorkId) (stopped : Bool) :
    (s.unschedule w stopped).2.queues = s.queues := by
  rw [State.unschedule]
  split <;> rfl

theorem queues_cancelSyncLocked (s : State) (w : WorkId) (f : ℕ) :
    (s.cancelSyncLocked w f).2.queues = s.queues := by
  rw [State.cancelSyncLocked]
  split <;> rfl

/-- **A step** lets nothing in front of what waits. -/
theorem Inv.orderly_step (hinv : Inv s) (he : e ≠ .fetch q) :
    Orderly (s.queues q).pending ((s.step e).queues q).pending := by
  cases e with
  | submit => exact orderly_submitToQueue ..
  | flush n f =>
    rw [State.step, State.flush]
    split
    · exact .of_eq rfl
    · exact Orderly.workFlush (.of_eq rfl) ..
  | cancel n =>
    rw [State.step, State.cancel]
    split
    · exact .of_eq rfl
    · exact hinv.orderly_cancelAsync ..
  | cancelSync n f =>
    rw [State.step, State.cancelSync]
    split
    · exact .of_eq rfl
    split
    · rw [queues_cancelSyncLocked]
      exact hinv.orderly_cancelAsync ..
    · exact .of_eq rfl
  | schedule self q n noWait =>
    rw [State.step, State.schedule]
    split
    · exact orderly_scheduleForQueue ..
    · exact .of_eq rfl
  | reschedule self q n noWait stopped =>
    rw [← queues_unschedule s (.item n) stopped]
    exact orderly_scheduleForQueue ..
  | cancelDelayable n stopped =>
    rw [← queues_unschedule s (.item n) stopped]
    exact (hinv.unschedule ..).orderly_cancelAsync ..
  | cancelDelayableSync n f stopped =>
    rw [State.step, State.cancelDelayableSync]
    split
    · rw [queues_cancelSyncLocked, ← queues_unschedule s (.item n) stopped]
      exact (hinv.unschedule ..).orderly_cancelAsync ..
    · exact .of_eq rfl
  | flushDelayable self n f stopped =>
    rw [State.step, State.flushDelayable]
    split
    · exact .of_eq rfl
    rw [← queues_unschedule s (.item n) stopped]
    split
    next heq =>
      rw [heq]
      exact (orderly_submitToQueue ..).workFlush ..
    next heq =>
      rw [heq]
      exact Orderly.workFlush (.of_eq rfl) ..
  | workTimeout self n =>
    rw [State.step, State.workTimeout]
    split
    · exact orderly_submitToQueue (s.setWork ..) ..
    · exact .of_eq rfl
  | finish p =>
    refine .of_eq ?_
    by_cases hp : q = p
    · subst hp
      rw [State.step]
      cases hpc : (s.queues q).pc with
      | handler w =>
        obtain ⟨t, -, -, heq⟩ := finish_eq hpc
        rw [heq, queues_setQueue_self]
      | off | boot | loop | waiting => rw [State.finish]; simp [hpc]
    · rw [queues_step_of_ne rfl hp]
  | fetch p => exact .of_eq (by rw [queues_step_of_ne rfl fun hq => he (congrArg _ hq.symm)])
  | _ =>
    -- the list of no queue changes, but for one that is started, which is empty
    refine .of_eq ?_
    have := hinv.off
    grind [State.step, State.queueStart, State.queueRun, State.queueDrain, State.queueUnplug,
      State.queueStop, State.queueStopTimedOut, State.enter, State.take, State.setWork, State.notify,
      queues_setQueue]

/-- **A step** takes what it starts from what is ahead. -/
theorem Inv.starts_step (hinv : Inv s) (hn : .item n ∈ (s.queues q).pending)
    (hn' : .item n ∈ ((s.step e).queues q).pending) :
    (s.starts q e ++ (s.step e).ahead q n).Sublist (s.ahead q n) := by
  by_cases hfetch : e = .fetch q
  · subst hfetch
    by_cases hpc : (s.queues q).pc = .loop
    · cases hl : (s.queues q).pending with
      | nil => simp [hl] at hn
      | cons w l =>
        have hstep : ((s.step (.fetch q)).queues q).pending = l := by
          simp [State.step, State.fetch, hpc, hl]
        rw [hstep] at hn'
        rw [State.starts, if_pos ⟨rfl, hpc⟩, State.ahead, State.ahead, hstep, hl]
        cases w with
        | flusher f => exact .refl _
        | item m =>
          have hm : m ≠ n := by
            rintro rfl
            have hnot := hinv.not_mem_erase (n := m) (q := q)
            rw [hl, erase_cons_head] at hnot
            exact hnot hn'
          rw [itemsAhead, if_neg hm]
          exact .refl _
    · have hstep : s.step (.fetch q) = s := if_pos hpc
      rw [State.starts, if_neg fun h => hpc h.2, hstep]
      exact .refl _
  · rw [State.starts, if_neg fun h => hfetch h.1]
    exact (hinv.orderly_step hfetch).ahead n hn hn'

/-- **No item is overtaken.** As long as an item waits in a queue, what starts
there, in that order, and then what is still ahead of it, was ahead of it. -/
theorem no_overtaking {es es' : List Event} (hrun : Along State.step State.Proper {} es)
    (hn : .item n ∈ ((run State.step {} es).queues q).pending)
    (hwait : Along State.step (fun s e => s.Proper e ∧ .item n ∈ ((s.step e).queues q).pending)
      (run State.step {} es) es') :
    let s := run State.step {} es
    (emitted State.step (State.starts q) s es' ++ (run State.step s es').ahead q n).Sublist
      (s.ahead q n) := by
  have hinv := inv_run_initial hrun
  dsimp only
  generalize run State.step {} es = s at *
  induction es' generalizing s with
  | nil => exact .refl _
  | cons e es' ih =>
    obtain ⟨⟨he, hn'⟩, hwait⟩ := hwait
    rw [emitted_cons, append_assoc]
    exact ((ih _ hn' hwait (hinv.step e he)).append_left _).trans (hinv.starts_step hn hn')

/-- The item ahead starts; one that is submitted later does not. -/
theorem no_overtaking_two :
    let es : List Event := [.start 0 false, .submit 1 (some 0) 0, .submit 1 (some 0) 2]
    let es' : List Event := [.enter 9 0, .fetch 0, .submit 1 (some 0) 3, .finish 0]
    let s := run State.step {} es
    emitted State.step (State.starts 0) s es' = [0] ∧
      (emitted State.step (State.starts 0) s es' ++ (run State.step s es').ahead 0 2).Sublist
        (s.ahead 0 2) := by
  intro es es'
  exact ⟨by decide, @no_overtaking 2 0 es es' (by decide) (by decide) (by decide)⟩

end Base

end OpenBlue

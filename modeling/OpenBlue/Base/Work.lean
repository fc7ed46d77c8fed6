import OpenBlue.Base.Model.Work
import OpenBlue.Common.Run
/-!
# Base — flags, pending lists and handlers agree

An item is looked at through the places where it can be: the pending lists
of the queues and the threads that run its handler. The flags and the queue
pointer of an item say what these are, whatever threads do, so no handler
runs in two threads. A flusher has no queue pointer; it has one place from
its initialisation until its handler has run.
-/

namespace OpenBlue

namespace Base

open Function List Option Work

variable {s : State} {v : Work} {w u : WorkId} {q q' n m f : ℕ}

/-! ## Where an item is -/

/-- How often an item is in the pending list of a queue. -/
def State.places (s : State) (w : WorkId) (q : ℕ) : ℕ := (s.queues q).pending.count w

/-- Whether the thread of a queue runs the handler of an item. -/
def State.runs (s : State) (w : WorkId) (q : ℕ) : Bool := (s.queues q).pc = .handler w

theorem works_setWork (s : State) (w : WorkId) (v : Work) (u : WorkId) :
    (s.setWork w v).works u = if u = w then v else s.works u :=
  update_apply ..

@[simp] theorem works_setWork_self (s : State) (w : WorkId) (v : Work) :
    (s.setWork w v).works w = v :=
  update_self ..

theorem queues_setQueue (s : State) (q : ℕ) (v : Queue) (q' : ℕ) :
    (s.setQueue q v).queues q' = if q' = q then v else s.queues q' :=
  update_apply ..

@[simp] theorem queues_setQueue_self (s : State) (q : ℕ) (v : Queue) :
    (s.setQueue q v).queues q = v :=
  update_self ..

@[simp] theorem queues_setWork (s : State) (w : WorkId) (v : Work) :
    (s.setWork w v).queues = s.queues := rfl

@[simp] theorem works_setQueue (s : State) (q : ℕ) (v : Queue) :
    (s.setQueue q v).works = s.works := rfl

@[simp] theorem works_notify (s : State) (q : ℕ) : (s.notify q).works = s.works := rfl

theorem places_setQueue (s : State) (q : ℕ) (v : Queue) (w : WorkId) (q' : ℕ) :
    (s.setQueue q v).places w q' = if q' = q then v.pending.count w else s.places w q' := by
  rw [State.places, queues_setQueue]
  split
  · rfl
  · rfl

theorem runs_setQueue (s : State) (q : ℕ) (v : Queue) (w : WorkId) (q' : ℕ) :
    (s.setQueue q v).runs w q' = if q' = q then decide (v.pc = .handler w) else s.runs w q' := by
  rw [State.runs, queues_setQueue]
  split
  · rfl
  · rfl

@[simp] theorem places_setWork (s : State) (w : WorkId) (v : Work) :
    (s.setWork w v).places = s.places := rfl

@[simp] theorem runs_setWork (s : State) (w : WorkId) (v : Work) :
    (s.setWork w v).runs = s.runs := rfl

@[simp] theorem places_notify (s : State) (q : ℕ) : (s.notify q).places = s.places := by
  funext w q'
  rw [State.notify, places_setQueue]
  split
  next h => rw [h, State.places]
  next => rfl

@[simp] theorem runs_notify (s : State) (q : ℕ) : (s.notify q).runs = s.runs := by
  funext w q'
  rw [State.notify, runs_setQueue]
  split
  next h => rw [h, State.runs]
  next => rfl

/-- What an item of an application satisfies, with its places and the
threads that run its handler. -/
structure ItemInv (v : Work) (places : ℕ → ℕ) (runs : ℕ → Bool) : Prop where
  places : ∀ q, places q = if v.queued ∧ v.queue = some q then 1 else 0
  runs : ∀ q, runs q = true ↔ v.running = true ∧ v.queue = some q
  queue : v.queued = true ∨ v.running = true → ∃ q, v.queue = some q
  canceling : v.canceling = true → v.running = true
  flushing : v.flushing = false
  delayed : v.delayed = true → v.delayable = true

/-- What the item of a `struct bt_work_sync` satisfies: while it is
flushing it has one place, in a list or with a thread. -/
structure FlusherInv (v : Work) (places : ℕ → ℕ) (runs : ℕ → Bool) : Prop where
  home : ∃ h, ∀ q, places q + (runs q).toNat = if v.flushing ∧ q = h then 1 else 0
  running : v.running = true ↔ ∃ q, runs q = true
  canceling : v.canceling = false

/-- What an item satisfies. -/
def WorkInv : WorkId → Work → (ℕ → ℕ) → (ℕ → Bool) → Prop
  | .item _ => ItemInv
  | .flusher _ => FlusherInv

/-- **The invariant of items and queues.** -/
structure Inv (s : State) : Prop where
  work : ∀ w, WorkInv w (s.works w) (s.places w) (s.runs w)
  off : ∀ q, (s.queues q).started = false → (s.queues q).pc = .off ∧ (s.queues q).pending = []

theorem Inv.item (h : Inv s) (n : ℕ) :
    ItemInv (s.works (.item n)) (s.places (.item n)) (s.runs (.item n)) :=
  h.work (.item n)

theorem Inv.flusher (h : Inv s) (f : ℕ) :
    FlusherInv (s.works (.flusher f)) (s.places (.flusher f)) (s.runs (.flusher f)) :=
  h.work (.flusher f)

/-- What the invariant of an item looks at. -/
def Work.core (v : Work) : Work := { v with delayed := false, delayable := false, delayQueue := none }

theorem WorkInv.congr {v v' : Work} {p : ℕ → ℕ} {r : ℕ → Bool} (h : WorkInv w v p r)
    (hv : v'.core = v.core) (hd : v'.delayed = true → v'.delayable = true) : WorkInv w v' p r := by
  simp only [core, Work.mk.injEq] at hv
  obtain ⟨hrun, hcancel, hqueued, -, hflush, -, hqueue, -⟩ := hv
  cases w with
  | item n =>
    have h : ItemInv v p r := h
    constructor
    · rw [hqueued, hqueue]; exact h.places
    · rw [hrun, hqueue]; exact h.runs
    · rw [hqueued, hrun, hqueue]; exact h.queue
    · rw [hcancel, hrun]; exact h.canceling
    · rw [hflush]; exact h.flushing
    · exact hd
  | flusher f =>
    have h : FlusherInv v p r := h
    constructor
    · rw [hflush]; exact h.home
    · rw [hrun]; exact h.running
    · rw [hcancel]; exact h.canceling

/-- **What happens to one item and one queue** keeps the invariant where the
item's part of it is kept. -/
theorem Inv.update {s' : State} (h : Inv s) (w : WorkId) (q : ℕ)
    (hworks : ∀ u, u ≠ w → s'.works u = s.works u)
    (hqueues : ∀ q', q' ≠ q → s'.queues q' = s.queues q')
    (hplaces : ∀ u, u ≠ w → s'.places u q = s.places u q)
    (hruns : ∀ u, u ≠ w → s'.runs u q = s.runs u q)
    (hself : WorkInv w (s'.works w) (s'.places w) (s'.runs w))
    (hoff : (s'.queues q).started = false →
      (s'.queues q).pc = .off ∧ (s'.queues q).pending = []) : Inv s' := by
  constructor
  · intro u
    by_cases hu : u = w
    · rw [hu]
      exact hself
    · have hp : s'.places u = s.places u := funext fun q' => by
        by_cases hq : q' = q
        · rw [hq, hplaces u hu]
        · rw [State.places, hqueues q' hq]; rfl
      have hr : s'.runs u = s.runs u := funext fun q' => by
        by_cases hq : q' = q
        · rw [hq, hruns u hu]
        · rw [State.runs, hqueues q' hq]; rfl
      rw [hworks u hu, hp, hr]
      exact h.work u
  · intro q' hstarted
    by_cases hq : q' = q
    · subst hq
      exact hoff hstarted
    · rw [hqueues q' hq] at hstarted ⊢
      exact h.off q' hstarted

theorem Inv.setQueue (h : Inv s) (q : ℕ) (v : Queue) (hp : v.pending = (s.queues q).pending)
    (hr : ∀ w, v.pc = .handler w ↔ (s.queues q).pc = .handler w)
    (hoff : v.started = false → v.pc = .off ∧ v.pending = []) : Inv (s.setQueue q v) := by
  have hplaces : ∀ w, (s.setQueue q v).places w = s.places w := fun w => funext fun q' => by
    rw [places_setQueue]
    split
    next hq => rw [hp, hq, State.places]
    next => rfl
  have hruns : ∀ w, (s.setQueue q v).runs w = s.runs w := fun w => funext fun q' => by
    rw [runs_setQueue]
    split
    next hq => simp only [hr, hq, State.runs]
    next => rfl
  constructor
  · intro w
    rw [hplaces, hruns]
    exact h.work w
  · intro q' hstarted
    rw [queues_setQueue] at hstarted ⊢
    split at hstarted
    next hq =>
      rw [if_pos hq]
      exact hoff hstarted
    next hq =>
      rw [if_neg hq]
      exact h.off q' hstarted

theorem Inv.notify (h : Inv s) (q : ℕ) : Inv (s.notify q) :=
  h.setQueue q _ rfl (fun _ => Iff.rfl) (h.off q)

theorem Inv.setWork (h : Inv s) (w : WorkId) (v : Work)
    (hv : WorkInv w v (s.places w) (s.runs w)) : Inv (s.setWork w v) := by
  constructor
  · intro u
    rw [works_setWork]
    split
    next hu =>
      rw [hu]
      exact hv
    next => exact h.work u
  · exact h.off

theorem Inv.of_eq {s' : State} (h : Inv s) (hw : s'.works = s.works)
    (hq : s'.queues = s.queues) : Inv s' := by
  have hp : s'.places = s.places := by
    funext w q
    rw [State.places, hq]
    rfl
  have hr : s'.runs = s.runs := by
    funext w q
    rw [State.runs, hq]
    rfl
  constructor
  · intro w
    rw [hw, hp, hr]
    exact h.work w
  · rw [hq]
    exact h.off

/-! ## Submitting -/

theorem queueSubmit_ok {self : ℕ} {queue : Option ℕ} {s' : State}
    (h : s.queueSubmit self queue w = .ok s') :
    ∃ q, queue = some q ∧ (s.queues q).started = true ∧
      s' = (s.setQueue q { s.queues q with
        pending := (s.queues q).pending ++ [w] }).notify q := by
  cases queue with
  | none => cases h
  | some q =>
    simp only [State.queueSubmit] at h
    split at h
    · cases h
    next hstarted =>
      split at h
      · cases h
      split at h
      · cases h
      · exact ⟨q, rfl, by simpa using hstarted, by simpa using h.symm⟩

/-- **Submitting an item** appends it to one list, that of the thread that
runs its handler if there is one. -/
theorem Inv.submitToQueue (h : Inv s) (self n : ℕ) (queue : Option ℕ) :
    Inv (s.submitToQueue self (.item n) queue).2 := by
  rw [State.submitToQueue]
  split
  · exact h
  split
  · next hqueued =>
    dsimp only
    generalize hq : (if (s.works (.item n)).running = true then (s.works (.item n)).queue
      else if queue = none then (s.works (.item n)).queue else queue) = target
    split
    · exact h
    next s' hsub =>
      obtain ⟨q, rfl, hstarted, rfl⟩ := queueSubmit_ok hsub
      have hitem := h.item n
      have hrun : (s.works (.item n)).running = true → (s.works (.item n)).queue = some q := by
        intro hr
        rw [if_pos hr] at hq
        exact hq
      have hcount : s.places (.item n) q = 0 := by
        rw [hitem.places, if_neg fun hc => by simp [hc.1] at hqueued]
      refine h.update (.item n) q (fun u hu => ?_) (fun q' hq' => ?_) (fun u hu => ?_)
        (fun u _ => ?_) ?_ fun hoff => ?_
      · simp [works_setWork, hu]
      · simp [State.notify, queues_setQueue, hq']
      · rw [places_setWork, places_notify, places_setQueue, if_pos rfl, count_append]
        simp [hu.symm, State.places]
      · rw [runs_setWork, runs_notify, runs_setQueue, if_pos rfl, State.runs]
      · simp only [works_setWork_self, places_setWork, runs_setWork, places_notify, runs_notify]
        refine ⟨fun q' => ?_, fun q' => ?_, ?_, ?_, ?_, ?_⟩
        · rw [places_setQueue]
          by_cases hq' : q' = q
          · subst hq'
            simpa [State.places] using hcount
          · rw [if_neg hq', hitem.places]
            have hnot : (s.works (.item n)).queued = false := by simpa using hqueued
            simp [hnot, Ne.symm hq']
        · rw [runs_setQueue]
          have hruns : (if q' = q then decide ((s.queues q).pc = .handler (.item n))
              else s.runs (.item n) q') = s.runs (.item n) q' := by
            split
            next hq' => rw [hq', State.runs]
            next => rfl
          rw [hruns, hitem.runs]
          constructor
          · rintro ⟨hr, hq'⟩
            exact ⟨hr, (hrun hr).symm.trans hq'⟩
          · rintro ⟨hr, hq'⟩
            exact ⟨hr, (hrun hr).trans hq'⟩
        · simp
        · exact hitem.canceling
        · exact hitem.flushing
        · exact hitem.delayed
      · simp [State.notify, hstarted] at hoff
  · exact h

theorem works_submitToQueue_of_ne (s : State) (self : ℕ) (queue : Option ℕ) (hu : u ≠ w) :
    (s.submitToQueue self w queue).2.works u = s.works u := by
  rw [State.submitToQueue]
  split
  · rfl
  split
  · dsimp only
    split
    · rfl
    next hsub =>
      obtain ⟨q, -, -, rfl⟩ := queueSubmit_ok hsub
      simp [works_setWork, hu]
  · rfl

/-! ## Cancelling -/

/-- **Taking an item off its list.** -/
theorem Inv.queueRemove (h : Inv s) (n : ℕ) :
    Inv (s.queueRemove (s.works (.item n)).queue (.item n)) := by
  rw [State.queueRemove]
  split
  · next hqueued =>
    have hitem := h.item n
    obtain ⟨q, hq⟩ := hitem.queue (.inl hqueued)
    simp only [hq]
    refine h.update (.item n) q (fun u hu => ?_) (fun q' hq' => ?_) (fun u hu => ?_)
      (fun u _ => ?_) ?_ fun hoff => ?_
    · simp [works_setWork, hu]
    · simp [queues_setQueue, hq']
    · rw [places_setQueue, if_pos rfl, count_erase_of_ne hu, State.places]
    · rw [runs_setQueue, if_pos rfl]
      rfl
    · simp only [works_setQueue, works_setWork_self]
      refine ⟨fun q' => ?_, fun q' => ?_, ?_, hitem.canceling, hitem.flushing, hitem.delayed⟩
      · rw [places_setQueue, places_setWork]
        refine Eq.trans ?_ (if_neg fun hc => Bool.false_ne_true hc.1).symm
        split
        next hq' =>
          have hone := hitem.places q
          rw [if_pos ⟨hqueued, hq⟩, State.places] at hone
          rw [count_erase_self, hone]
        next hq' =>
          rw [hitem.places, if_neg fun hc => hq' (mem_unique hc.2 hq)]
      · have hruns := hitem.runs q'
        rw [hq] at hruns
        refine Iff.trans ?_ hruns
        rw [runs_setQueue]
        split
        next hq' => rw [hq', State.runs]
        next => rfl
      · exact fun _ => ⟨q, rfl⟩
    · rw [queues_setQueue_self] at hoff ⊢
      have := h.off q hoff
      exact ⟨this.1, by simp [this.2]⟩
  · exact h

theorem running_of_busy {v : Work} (hv : v.busyGet ≠ 0) (hqueued : v.queued = false)
    (hdelayed : v.delayed = false) (hcanceling : v.canceling = false)
    (hflushing : v.flushing = false) : v.running = true := by
  rcases hr : v.running with _ | _
  · simp [busyGet, hr, hqueued, hdelayed, hcanceling, hflushing] at hv
  · rfl

theorem works_queueRemove (s : State) (queue : Option ℕ) (w : WorkId) :
    (s.queueRemove queue w).works w = { s.works w with queued := false } := by
  rw [State.queueRemove]
  split
  · cases queue with
    | none => exact works_setWork_self ..
    | some q => exact works_setWork_self ..
  next hqueued =>
    have hnot : (s.works w).queued = false := by simpa using hqueued
    rw [← hnot]

/-- **Cancelling an item** that is not delayed: it leaves its list, and is
marked where its handler runs. -/
theorem Inv.cancelAsync (h : Inv s) (n : ℕ) (hd : (s.works (.item n)).delayed = false) :
    Inv (s.cancelAsync (.item n)).2 := by
  rw [State.cancelAsync]
  dsimp only
  by_cases hc : (s.works (.item n)).canceling = true
  · simp only [hc, Bool.not_true, Bool.false_eq_true, if_false]
    split
    · refine h.setWork _ _ ((h.work (.item n)).congr ?_ ?_)
      · rw [← hc]
      · exact (h.item n).delayed
    · exact h
  · have hcf : (s.works (.item n)).canceling = false := by simpa using hc
    simp only [hcf, Bool.not_false, if_true]
    have h' := h.queueRemove n
    have hw := works_queueRemove s (s.works (.item n)).queue (.item n)
    generalize s.queueRemove (s.works (.item n)).queue (.item n) = s' at h' hw ⊢
    split
    next hbusy =>
      have hitem := h'.item n
      have hrun : (s'.works (.item n)).running = true :=
        running_of_busy hbusy (by rw [hw]) (by rw [hw]; exact hd) (by rw [hw]; exact hcf)
          hitem.flushing
      exact h'.setWork _ _ ⟨hitem.places, hitem.runs, hitem.queue, fun _ => hrun, hitem.flushing,
        hitem.delayed⟩
    next => exact h'

theorem Inv.cancelSyncLocked (h : Inv s) (w : WorkId) (sync : ℕ) :
    Inv (s.cancelSyncLocked w sync).2 := by
  rw [State.cancelSyncLocked]
  split
  · exact h.of_eq rfl rfl
  · exact h

/-! ## Delayable items -/

theorem Inv.not_delayed (h : Inv s) (hd : ¬ (s.works (.item n)).delayable = true) :
    (s.works (.item n)).delayed = false := by
  by_contra hc
  exact hd ((h.item n).delayed (by simpa using hc))

theorem Inv.undelay (h : Inv s) (n : ℕ) :
    Inv (s.setWork (.item n) { s.works (.item n) with delayed := false }) :=
  h.setWork _ _ ((h.work (.item n)).congr rfl fun hd => by cases hd)

theorem Inv.unschedule (h : Inv s) (n : ℕ) (stopped : Bool) :
    Inv (s.unschedule (.item n) stopped).2 := by
  rw [State.unschedule]
  split
  · exact h.undelay n
  · exact h

theorem unschedule_delayed (s : State) (w : WorkId) (stopped : Bool) :
    ((s.unschedule w stopped).2.works w).delayed = false := by
  rw [State.unschedule]
  split
  · rw [works_setWork_self]
  next hd => simpa using hd

theorem works_unschedule_of_ne (s : State) (stopped : Bool) (hu : u ≠ w) :
    (s.unschedule w stopped).2.works u = s.works u := by
  rw [State.unschedule]
  split
  · exact (works_setWork ..).trans (if_neg hu)
  · rfl

theorem unschedule_delayable (s : State) (w : WorkId) (stopped : Bool) :
    ((s.unschedule w stopped).2.works w).delayable = (s.works w).delayable := by
  rw [State.unschedule]
  split
  · rw [works_setWork_self]
  · rfl

theorem Inv.scheduleForQueue (h : Inv s) (self n q : ℕ) (noWait : Bool)
    (hd : (s.works (.item n)).delayable = true) :
    Inv (s.scheduleForQueue self (.item n) q noWait).2 := by
  rw [State.scheduleForQueue]
  split
  · exact h.submitToQueue self n _
  · exact h.setWork _ _ ((h.work (.item n)).congr rfl fun _ => hd)

theorem Inv.workTimeout (h : Inv s) (self n : ℕ) : Inv (s.workTimeout self (.item n)) := by
  rw [State.workTimeout]
  split
  · exact (h.undelay n).submitToQueue self n _
  · exact h

/-! ## Flushing -/

theorem count_insertAfter_self {l : List WorkId} (hu : w ≠ u) (hw : w ∈ l) :
    (insertAfter w u l).count u = l.count u + 1 := by
  induction l with
  | nil => cases hw
  | cons v l ih =>
    rw [insertAfter]
    split
    next hv =>
      subst hv
      rw [count_cons_of_ne hu, count_cons_self, count_cons_of_ne hu]
    next hv =>
      have hmem : w ∈ l := (mem_cons.mp hw).resolve_left (Ne.symm hv)
      rw [count_cons, ih hmem, count_cons]
      omega

theorem count_insertAfter_of_ne {l : List WorkId} {v : WorkId} (hv : v ≠ u) :
    (insertAfter w u l).count v = l.count v := by
  induction l with
  | nil => rfl
  | cons x l ih =>
    rw [insertAfter]
    split
    · rw [count_cons, count_cons_of_ne hv.symm, count_cons]
    · rw [count_cons, ih, count_cons]

theorem runs_queueFlusher (s : State) (q : ℕ) (w : WorkId) (sync : ℕ) :
    (s.queueFlusher q w sync).runs = s.runs := by
  funext u q'
  rw [State.queueFlusher, runs_setQueue]
  split
  next hq' => rw [hq', State.runs]
  next => rfl

theorem Inv.started (h : Inv s) (hq : (s.works (.item n)).queue = some q)
    (hbusy : (s.works (.item n)).queued = true ∨ (s.works (.item n)).running = true) :
    (s.queues q).started = true := by
  by_contra hoff
  obtain ⟨hpc, hempty⟩ := h.off q (by simpa using hoff)
  rcases hbusy with hqueued | hrun
  · have hone := (h.item n).places q
    rw [if_pos ⟨hqueued, hq⟩, State.places, hempty] at hone
    cases hone
  · have hruns := ((h.item n).runs q).mpr ⟨hrun, hq⟩
    rw [State.runs, hpc] at hruns
    cases hruns

/-- **The flusher of an item gets its place**: behind the item in its list,
or at the head of the list of the thread that runs its handler. -/
theorem Inv.workFlush (h : Inv s) {sync : ℕ} (hfree : (s.works (.flusher sync)).flushing = false) :
    Inv (s.workFlush (.item n) sync).2 := by
  rw [State.workFlush]
  split
  swap
  · exact h
  next hbusy =>
  have hitem := h.item n
  split
  · exact h
  next q hq =>
  have hstarted := h.started hq (by simpa using hbusy)
  refine Inv.notify ?_ q
  obtain ⟨⟨home, hhome⟩, hrunning, -⟩ := h.flusher sync
  have hzero : ∀ q', s.places (.flusher sync) q' = 0 ∧ s.runs (.flusher sync) q' = false := by
    intro q'
    have := hhome q'
    rw [if_neg fun hc => by simp [hfree] at hc] at this
    exact ⟨by omega, by
      rcases hr : s.runs (.flusher sync) q' with _ | _
      · rfl
      · simp [hr] at this⟩
  have hne : (.item n : WorkId) ≠ .flusher sync := by simp
  refine h.update (.flusher sync) q (fun u hu => ?_) (fun q' hq' => ?_) (fun u hu => ?_)
    (fun u _ => ?_) ?_ fun hoff => ?_
  · simp [State.queueFlusher, works_setWork, hu]
  · simp [State.queueFlusher, queues_setQueue, hq']
  · rw [State.queueFlusher, places_setQueue, if_pos rfl, State.places]
    dsimp only
    split
    · exact count_insertAfter_of_ne hu
    · exact count_cons_of_ne hu.symm
  · rw [runs_queueFlusher]
  · have hwork : (s.queueFlusher q (.item n) sync).works (.flusher sync) = { flushing := true } :=
      works_setWork_self ..
    rw [hwork, runs_queueFlusher]
    constructor
    · refine ⟨q, fun q' => ?_⟩
      rw [State.queueFlusher, places_setQueue, (hzero q').2]
      by_cases hq' : q' = q
      · subst hq'
        have hcount : (s.queues q').pending.count (.flusher sync) = 0 := (hzero q').1
        simp only [if_true, and_self, Bool.toNat_false, Nat.add_zero]
        split
        next hqueued =>
          have hmem : (.item n : WorkId) ∈ (s.queues q').pending := by
            have hone := hitem.places q'
            rw [if_pos ⟨hqueued, hq⟩] at hone
            exact count_pos_iff.mp (by rw [State.places] at hone; omega)
          rw [count_insertAfter_self hne hmem, hcount]
        next => rw [count_cons_self, hcount]
      · rw [if_neg hq', if_neg fun hc => hq' hc.2]
        exact (hzero q').1
    · constructor
      · intro hc
        cases hc
      · rintro ⟨q', hq'⟩
        rw [(hzero q').2] at hq'
        cases hq'
    · rfl
  · rw [State.queueFlusher, queues_setQueue_self] at hoff
    exact absurd (hstarted.symm.trans hoff) (by simp)

/-! ## The thread of a queue -/

/-- What an item satisfies once the thread of `q` has taken it from the
head of its list. -/
theorem WorkInv.fetch {p : ℕ → ℕ} {r : ℕ → Bool} {k : ℕ} (h : WorkInv w v p r)
    (hp : p q = k + 1) :
    WorkInv w { v with running := true, queued := false } (update p q k)
      (update r q true) := by
  cases w with
  | item n =>
    have h : ItemInv v p r := h
    have hplaces := h.places
    have hq : v.queued = true ∧ v.queue = some q := by
      by_contra hc
      rw [hplaces, if_neg hc] at hp
      omega
    have hk : k = 0 := by
      rw [hplaces, if_pos hq] at hp
      omega
    refine ⟨fun q' => ?_, fun q' => ?_, fun _ => ⟨q, hq.2⟩, fun _ => rfl, h.flushing, h.delayed⟩
    · rw [if_neg fun hc => Bool.false_ne_true hc.1, update_apply]
      split
      · exact hk
      next hq' => rw [hplaces, if_neg fun hc => hq' (mem_unique hc.2 hq.2)]
    · rw [update_apply]
      split
      next hq' => exact iff_of_true rfl ⟨rfl, hq' ▸ hq.2⟩
      next hq' =>
        have hne : v.queue ≠ some q' := fun hc => hq' (mem_unique hc hq.2)
        exact iff_of_false (fun hc => hne ((h.runs q').mp hc).2) fun hc => hne hc.2
  | flusher f =>
    have h : FlusherInv v p r := h
    obtain ⟨home, hhome⟩ := h.home
    have hq : v.flushing = true ∧ q = home := by
      by_contra hc
      have := hhome q
      rw [if_neg hc] at this
      omega
    have hk : k = 0 := by
      have := hhome q
      rw [if_pos hq] at this
      omega
    refine ⟨⟨home, fun q' => ?_⟩, ⟨fun _ => ⟨q, update_self ..⟩, fun _ => rfl⟩,
      h.canceling⟩
    rw [update_apply, update_apply]
    split
    next hq' =>
      rw [hq', if_pos hq, hk]
      rfl
    next => exact hhome q'

theorem Inv.fetch (h : Inv s) (q : ℕ) : Inv (s.fetch q) := by
  rw [State.fetch]
  split
  · exact h
  next hloop =>
  have hpc : (s.queues q).pc = .loop := by simpa using hloop
  have hstarted : (s.queues q).started = true := by
    by_contra hoff
    have := (h.off q (by simpa using hoff)).1
    rw [hpc] at this
    cases this
  split
  next w rest hpending =>
    have hruns : ∀ u, s.runs u q = false := fun u => by simp [State.runs, hpc]
    have hcount : s.places w q = rest.count w + 1 := by
      rw [State.places, hpending, count_cons_self]
    refine h.update w q (fun u hu => ?_) (fun q' hq' => ?_) (fun u hu => ?_) (fun u hu => ?_) ?_
      fun hoff => ?_
    · simp [works_setWork, hu]
    · simp [queues_setQueue, hq']
    · rw [places_setWork, places_setQueue, if_pos rfl, State.places, hpending,
        count_cons_of_ne hu.symm]
    · rw [runs_setWork, runs_setQueue, if_pos rfl, hruns]
      simpa using hu.symm
    · have hself := (h.work w).fetch hcount
      rw [works_setWork_self, places_setWork, runs_setWork]
      convert hself using 1
      · funext q'
        rw [places_setQueue, update_apply]
      · funext q'
        rw [runs_setQueue, update_apply, decide_eq_true rfl]
    · rw [queues_setWork, queues_setQueue_self] at hoff
      exact absurd (hstarted.symm.trans hoff) (by simp)
  next hempty =>
    split
    · exact h.setQueue q _ rfl (by simp [hpc]) (by simp [hstarted])
    split
    · exact h.setQueue q _ rfl (by simp [hpc]) (by simp [hempty])
    · exact h.setQueue q _ rfl (by simp [hpc]) (by simp [hstarted])

/-- The flags of an item whose handler has run. -/
def Work.finished (v : Work) : Work :=
  { v with running := false, flushing := false, canceling := v.flushing && v.canceling }

theorem WorkInv.finish {p : ℕ → ℕ} {r : ℕ → Bool} (h : WorkInv w v p r) (hr : r q = true) :
    WorkInv w v.finished p (update r q false) := by
  cases w with
  | item n =>
    have h : ItemInv v p r := h
    have hq := ((h.runs q).mp hr).2
    refine ⟨h.places, fun q' => ?_, fun hb => h.queue (hb.imp_right fun hc => by cases hc),
      fun hc => ?_, rfl, h.delayed⟩
    · refine iff_of_false ?_ fun hc => Bool.false_ne_true hc.1
      rw [update_apply]
      split
      · exact Bool.false_ne_true
      next hq' =>
        exact fun hc => hq' (Option.some.inj (((h.runs q').mp hc).2.symm.trans hq))
    · simp [finished, h.flushing] at hc
  | flusher f =>
    have h : FlusherInv v p r := h
    obtain ⟨home, hhome⟩ := h.home
    have hzero : ∀ q', p q' = 0 ∧ (q' ≠ q → r q' = false) := by
      intro q'
      have hone := hhome q
      have hq' := hhome q'
      rw [hr] at hone
      split at hone
      next hq =>
        by_cases heq : q' = q
        · rw [heq]
          exact ⟨by simpa using hone, fun hc => absurd rfl hc⟩
        · rw [if_neg fun hc => heq (hc.2.trans hq.2.symm)] at hq'
          exact ⟨by omega, fun _ => by
            rcases hr' : r q' with _ | _
            · rfl
            · simp [hr'] at hq'⟩
      next => simp at hone
    have hfalse : ∀ q', update r q false q' = false := by
      intro q'
      rw [update_apply]
      split
      · rfl
      next hq' => exact (hzero q').2 hq'
    refine ⟨⟨0, fun q' => ?_⟩, ?_, by simp [finished, h.canceling]⟩
    · rw [hfalse, (hzero q').1, if_neg fun hc => Bool.false_ne_true hc.1]
      rfl
    · refine iff_of_false Bool.false_ne_true ?_
      rintro ⟨q', hq'⟩
      rw [hfalse] at hq'
      cases hq'

theorem works_finalizeFlush (s : State) (w : WorkId) :
    (s.finalizeFlush w).works = (s.setWork w { s.works w with flushing := false }).works ∧
      (s.finalizeFlush w).queues = s.queues := by
  cases w with
  | item n => exact ⟨rfl, rfl⟩
  | flusher f => exact ⟨rfl, rfl⟩

theorem works_finalizeCancel (s : State) (w : WorkId) :
    (s.finalizeCancel w).works = (s.setWork w { s.works w with canceling := false }).works ∧
      (s.finalizeCancel w).queues = s.queues := by
  rw [State.finalizeCancel]
  dsimp only
  split
  · exact ⟨rfl, rfl⟩
  · exact ⟨rfl, rfl⟩

theorem finish_eq (hpc : (s.queues q).pc = .handler w) :
    ∃ s' : State, s'.works = (s.setWork w (s.works w).finished).works ∧ s'.queues = s.queues ∧
      s.finish q = s'.setQueue q { s.queues q with pc := .loop, busy := false } := by
  simp only [State.finish, hpc]
  generalize hs' : s.setWork w { s.works w with running := false } = t
  have hwork : t.works w = { s.works w with running := false } := by
    rw [← hs', works_setWork_self]
  have htw : ∀ v, (t.setWork w v).works = (s.setWork w v).works := by
    intro v
    rw [← hs']
    exact update_idem ..
  have htq : t.queues = s.queues := by rw [← hs']; rfl
  have hflush : (t.works w).flushing = (s.works w).flushing := by rw [hwork]
  have hcancel : (t.works w).canceling = (s.works w).canceling := by rw [hwork]
  by_cases hf : (t.works w).flushing = true
  · rw [if_pos hf]
    obtain ⟨hworks, hqueues⟩ := works_finalizeFlush t w
    refine ⟨_, ?_, hqueues.trans htq, by rw [hqueues, htq]⟩
    rw [hworks, htw, hwork]
    refine congrArg (fun v => (s.setWork w v).works) ?_
    simp [finished, ← hflush, hf]
  rw [if_neg hf]
  have hf' : (s.works w).flushing = false := by rw [← hflush]; simpa using hf
  by_cases hc : (t.works w).canceling = true
  · rw [if_pos hc]
    obtain ⟨hworks, hqueues⟩ := works_finalizeCancel t w
    refine ⟨_, ?_, hqueues.trans htq, by rw [hqueues, htq]⟩
    rw [hworks, htw, hwork]
    refine congrArg (fun v => (s.setWork w v).works) ?_
    simp [finished, hf']
  · rw [if_neg hc]
    have hc' : (s.works w).canceling = false := by rw [← hcancel]; simpa using hc
    refine ⟨t, ?_, htq, by rw [htq]⟩
    rw [← hs']
    refine congrArg (fun v => (s.setWork w v).works) ?_
    simp [finished, hf', hc']

theorem Inv.finish (h : Inv s) (q : ℕ) : Inv (s.finish q) := by
  cases hpc : (s.queues q).pc with
  | handler w =>
    obtain ⟨s', hworks, hqueues, heq⟩ := finish_eq hpc
    rw [heq]
    refine Inv.of_eq (s := (s.setWork w (s.works w).finished).setQueue q
      { s.queues q with pc := .loop, busy := false }) ?_ hworks ?_
    · have hruns : s.runs w q = true := by simp [State.runs, hpc]
      refine h.update w q (fun u hu => ?_) (fun q' hq' => ?_) (fun u hu => ?_) (fun u hu => ?_) ?_
        fun hoff => ?_
      · simp [works_setWork, hu]
      · simp [queues_setQueue, hq']
      · rw [places_setQueue, if_pos rfl, State.places]
      · rw [runs_setQueue, if_pos rfl]
        simpa [State.runs, hpc] using hu.symm
      · have hself := (h.work w).finish hruns
        rw [works_setQueue, works_setWork_self]
        convert hself using 1
        · funext q'
          rw [places_setQueue, places_setWork]
          split
          next hq' => rw [hq', State.places]
          next => rfl
        · funext q'
          rw [runs_setQueue, update_apply]
          rfl
      · rw [queues_setQueue_self] at hoff
        have := (h.off q hoff).1
        rw [hpc] at this
        cases this
    · rw [State.setQueue, State.setQueue, hqueues]
      rfl
  | off => simpa [State.finish, hpc] using h
  | boot => simpa [State.finish, hpc] using h
  | loop => simpa [State.finish, hpc] using h
  | waiting => simpa [State.finish, hpc] using h

theorem Inv.enter (h : Inv s) (self q : ℕ) : Inv (s.enter self q) := by
  rw [State.enter]
  split
  next hpc =>
    refine h.setQueue q _ rfl (by simp [hpc]) fun hoff => ?_
    have := (h.off q hoff).1
    rw [hpc] at this
    cases this
  · exact h

theorem Inv.take (h : Inv s) (q : ℕ) : Inv (s.take q) := by
  rw [State.take]
  split
  next hpc =>
    refine h.setQueue q _ rfl (by simp [hpc.1]) fun hoff => ?_
    have := (h.off q hoff).1
    rw [hpc.1] at this
    cases this
  · exact h

/-! ## Queues -/

theorem Inv.boot (h : Inv s) (hoff : (s.queues q).started = false) (threadId : ℕ) (noYield : Bool) :
    Inv (s.setQueue q { pc := .boot, threadId, started := true, noYield }) := by
  obtain ⟨hpc, hempty⟩ := h.off q hoff
  exact h.setQueue q _ hempty.symm (by simp [hpc]) (by simp)

theorem Inv.queueStart (h : Inv s) (q : ℕ) (noYield : Bool) : Inv (s.queueStart q noYield) := by
  rw [State.queueStart]
  split
  · exact h
  next hoff => exact h.boot (by simpa using hoff) _ _

theorem Inv.queueRun (h : Inv s) (self q : ℕ) (noYield : Bool) :
    Inv (s.queueRun self q noYield) := by
  rw [State.queueRun]
  split
  · exact h
  next hoff => exact h.boot (by simpa using hoff) _ _

theorem Inv.queueDrain (h : Inv s) (q : ℕ) (plug : Bool) : Inv (s.queueDrain q plug).2 := by
  rw [State.queueDrain]
  split
  · exact (h.setQueue q { s.queues q with
      drain := true, plugged := (s.queues q).plugged || plug } rfl (fun _ => Iff.rfl)
      (h.off q)).notify q
  · exact h

theorem Inv.queueStop (h : Inv s) (q : ℕ) : Inv (s.queueStop q).2 := by
  rw [State.queueStop]
  split
  · exact h
  split
  · exact h
  · exact (h.setQueue q { s.queues q with stop := true } rfl (fun _ => Iff.rfl) (h.off q)).notify q

theorem Inv.initItem (h : Inv s) (hidle : (s.works (.item n)).busyGet = 0) (delayable : Bool) :
    Inv (s.setWork (.item n) { delayable }) := by
  obtain ⟨hrunning, hqueued⟩ :
      (s.works (.item n)).running = false ∧ (s.works (.item n)).queued = false := by
    rcases hr : (s.works (.item n)).running with _ | _ <;>
      rcases hq : (s.works (.item n)).queued with _ | _ <;>
      simp [busyGet, hr, hq] at hidle ⊢
  have hitem := h.item n
  refine h.setWork _ _ ⟨fun q => ?_, fun q => ?_, fun hc => ?_, fun hc => ?_, rfl, fun hc => ?_⟩
  · rw [hitem.places, hqueued]
    rfl
  · rw [hitem.runs, hrunning]
    simp
  · simp at hc
  · cases hc
  · cases hc

/-! ## Runs -/

/-- **Every step keeps the invariant.** -/
theorem Inv.step (h : Inv s) (e : Event) (he : s.Proper e) : Inv (s.step e) := by
  cases e with
  | init n => exact h.initItem he false
  | initDelayable n => exact h.initItem he true
  | submit self queue n => exact h.submitToQueue self n queue
  | flush n sync =>
    rw [State.step, State.flush]
    split
    · exact h
    · exact h.workFlush he.1
  | cancel n =>
    rw [State.step, State.cancel]
    split
    · exact h
    next hd => exact h.cancelAsync n (h.not_delayed hd)
  | cancelSync n sync =>
    rw [State.step, State.cancelSync]
    split
    · exact h
    next hd =>
      split
      · exact (h.cancelAsync n (h.not_delayed hd)).cancelSyncLocked _ _
      · exact h
  | schedule self q n noWait =>
    rw [State.step, State.schedule]
    split
    · exact h.scheduleForQueue self n q noWait he
    · exact h
  | reschedule self q n noWait stopped =>
    refine (h.unschedule n stopped).scheduleForQueue self n q noWait ?_
    rw [unschedule_delayable]
    exact he
  | cancelDelayable n stopped =>
    exact (h.unschedule n stopped).cancelAsync n (unschedule_delayed ..)
  | cancelDelayableSync n sync stopped =>
    rw [State.step, State.cancelDelayableSync]
    split
    · exact ((h.unschedule n stopped).cancelAsync n (unschedule_delayed ..)).cancelSyncLocked _ _
    · exact h
  | flushDelayable self n sync stopped =>
    have hfree : ∀ s' : State, s'.works (.flusher sync) = s.works (.flusher sync) →
        (s'.works (.flusher sync)).flushing = false := fun s' hs' => hs' ▸ he.2.1
    rw [State.step, State.flushDelayable]
    split
    · exact h
    have hun := h.unschedule n stopped
    have hother := works_unschedule_of_ne s stopped (u := .flusher sync) (w := .item n) (by simp)
    split
    next t heq =>
      rw [heq] at hun hother
      refine (hun.submitToQueue self n _).workFlush (hfree _ ?_)
      rw [works_submitToQueue_of_ne _ _ _ (by simp)]
      exact hother
    next t heq =>
      rw [heq] at hun hother
      exact hun.workFlush (hfree _ hother)
  | workTimeout self n => exact h.workTimeout self n
  | start q noYield => exact h.queueStart q noYield
  | run self q noYield => exact h.queueRun self q noYield
  | drain q plug => exact h.queueDrain q plug
  | drained q => exact h.setQueue q _ rfl (fun _ => Iff.rfl) (h.off q)
  | unplug q => exact h.setQueue q _ rfl (fun _ => Iff.rfl) (h.off q)
  | stop q => exact h.queueStop q
  | stopTimedOut q => exact h.setQueue q _ rfl (fun _ => Iff.rfl) (h.off q)
  | enter self q => exact h.enter self q
  | fetch q => exact h.fetch q
  | take q => exact h.take q
  | finish q => exact h.finish q
  | synced sync => exact h.of_eq rfl rfl

theorem inv_initial : Inv {} := by
  refine ⟨fun w => ?_, fun q _ => ⟨rfl, rfl⟩⟩
  cases w with
  | item n =>
    exact ⟨fun q => rfl, fun q => by simp [State.runs], fun hc => by simp at hc, id, rfl, id⟩
  | flusher f =>
    exact ⟨⟨0, fun q => by simp [State.places, State.runs]⟩, by simp [State.runs], rfl⟩

theorem inv_run_initial {es : List Event} (hrun : Along State.step State.Proper {} es) :
    Inv (run State.step {} es) :=
  inv_run Inv (fun _ e h he => h.step e he) inv_initial hrun

/-! ## What the flags say -/

theorem runs_iff : s.runs w q = true ↔ (s.queues q).pc = .handler w := decide_eq_true_iff

theorem Inv.queued_iff (h : Inv s) (n : ℕ) :
    (s.works (.item n)).queued = true ↔ ∃ q, (s.works (.item n)).queue = some q ∧
      ∀ q', (s.queues q').pending.count (.item n) = if q' = q then 1 else 0 := by
  have hitem := h.item n
  constructor
  · intro hqueued
    obtain ⟨q, hq⟩ := hitem.queue (.inl hqueued)
    refine ⟨q, hq, fun q' => (hitem.places q').trans ?_⟩
    by_cases hq' : q' = q
    · rw [if_pos hq', if_pos ⟨hqueued, hq' ▸ hq⟩]
    · rw [if_neg hq', if_neg fun hc => hq' (mem_unique hc.2 hq)]
  · rintro ⟨q, hq, hcount⟩
    by_contra hqueued
    have hzero := hitem.places q
    rw [if_neg fun hc => hqueued hc.1] at hzero
    have hone := hcount q
    rw [if_pos rfl] at hone
    rw [State.places] at hzero
    omega

theorem Inv.running_iff (h : Inv s) (n : ℕ) :
    (s.works (.item n)).running = true ↔ ∃ q, (s.works (.item n)).queue = some q ∧
      ∀ q', (s.queues q').pc = .handler (.item n) ↔ q' = q := by
  have hitem := h.item n
  constructor
  · intro hrunning
    obtain ⟨q, hq⟩ := hitem.queue (.inr hrunning)
    refine ⟨q, hq, fun q' => ?_⟩
    rw [← runs_iff, hitem.runs]
    exact ⟨fun hc => mem_unique hc.2 hq, fun hc => ⟨hrunning, hc ▸ hq⟩⟩
  · rintro ⟨q, hq, hpc⟩
    exact ((hitem.runs q).mp (runs_iff.mpr ((hpc q).mpr rfl))).1

theorem Inv.handler_unique (h : Inv s) (hq : (s.queues q).pc = .handler w)
    (hq' : (s.queues q').pc = .handler w) : q = q' := by
  cases w with
  | item n =>
    have hqueue := ((h.item n).runs q).mp (runs_iff.mpr hq)
    have hqueue' := ((h.item n).runs q').mp (runs_iff.mpr hq')
    exact mem_unique hqueue.2 hqueue'.2
  | flusher f =>
    obtain ⟨home, hhome⟩ := (h.flusher f).home
    have hat : ∀ r, (s.queues r).pc = .handler (.flusher f) → r = home := by
      intro r hr
      by_contra hne
      have hzero := hhome r
      rw [if_neg fun hc => hne hc.2, runs_iff.mpr hr] at hzero
      simp at hzero
    rw [hat q hq, hat q' hq']

theorem Inv.flusher_running_iff (h : Inv s) (f : ℕ) : (s.works (.flusher f)).running = true ↔
      ∃ q, ∀ q', (s.queues q').pc = .handler (.flusher f) ↔ q' = q := by
  rw [(h.flusher f).running]
  constructor
  · rintro ⟨q, hq⟩
    have hpc := runs_iff.mp hq
    exact ⟨q, fun q' => ⟨fun hq' => h.handler_unique hq' hpc, fun heq => heq ▸ hpc⟩⟩
  · rintro ⟨q, hq⟩
    exact ⟨q, runs_iff.mpr ((hq q).mpr rfl)⟩

theorem Inv.running_of_canceling (h : Inv s) (hw : (s.works w).canceling = true) :
    (s.works w).running = true := by
  cases w with
  | item n => exact (h.item n).canceling hw
  | flusher f =>
    rw [(h.flusher f).canceling] at hw
    exact absurd hw (by simp)

/-- **The flags of items and queues agree, and no handler is re-entered**:
in every state that threads can reach, whatever they call for any number of
queues and items and however their steps interleave. -/
theorem flags_agree {es : List Event} (hrun : Along State.step State.Proper {} es) :
    let s := run State.step {} es
    (∀ n, (s.works (.item n)).queued = true ↔ ∃ q, (s.works (.item n)).queue = some q ∧
      ∀ q', (s.queues q').pending.count (.item n) = if q' = q then 1 else 0) ∧
    (∀ n, (s.works (.item n)).running = true ↔ ∃ q, (s.works (.item n)).queue = some q ∧
      ∀ q', (s.queues q').pc = .handler (.item n) ↔ q' = q) ∧
    (∀ f, (s.works (.flusher f)).running = true ↔
      ∃ q, ∀ q', (s.queues q').pc = .handler (.flusher f) ↔ q' = q) ∧
    (∀ w, (s.works w).canceling = true → (s.works w).running = true) ∧
    ∀ w q q', (s.queues q).pc = .handler w → (s.queues q').pc = .handler w → q = q' := by
  have h := inv_run_initial hrun
  exact ⟨h.queued_iff, h.running_iff, h.flusher_running_iff, fun w hw => h.running_of_canceling hw,
    fun w q q' hq hq' => h.handler_unique hq hq'⟩

/-- An item whose handler runs is flushed. -/
def sampleRun : List Event :=
  [.start 0 false, .enter 7 0, .submit 1 (some 0) 0, .fetch 0, .flush 0 0]

theorem flags_agree_sample :
    let s := run State.step {} sampleRun
    (s.works (.item 0)).running = true ∧ ∀ q', (s.queues q').pc = .handler (.item 0) ↔ q' = 0 := by
  have hrun : (run State.step {} sampleRun |>.works (.item 0)).running = true := by decide
  have hproper : Along State.step State.Proper {} sampleRun := by decide
  obtain ⟨q, hq, hpc⟩ := ((flags_agree hproper).2.1 0).mp hrun
  obtain rfl : q = 0 := by
    have : (run State.step {} sampleRun |>.works (.item 0)).queue = some 0 := by decide
    exact Option.some.inj (hq.symm.trans this)
  exact ⟨hrun, hpc⟩

/-- **A flusher has no queue pointer**: its handler runs, and RUNNING is
set, but `work->queue` is `NULL`. -/
theorem flusher_without_queue :
    let s := run State.step {} (sampleRun ++ [.finish 0, .fetch 0])
    Along State.step State.Proper {} (sampleRun ++ [.finish 0, .fetch 0]) ∧
      (s.works (.flusher 0)).running = true ∧ (s.queues 0).pc = .handler (.flusher 0) ∧
      (s.works (.flusher 0)).queue = none := by
  decide

end Base

end OpenBlue

import OpenBlue.Base.Changes
/-!
# Base — the thread of a queue is woken

A thread that sleeps with no notification left has nothing to do: whoever
gives it work, or asks it to drain, notifies it, and the notification is
there until the thread has looked. A request to stop can be missed, though.
The thread looks at DRAIN before it looks at STOP, and goes to sleep after
the first, so one notification for both is spent on the drain alone.
-/

namespace OpenBlue

namespace Base

open State

variable {s s' : State} {w : WorkId} {q n f : ℕ} {Q Q' Q'' : Queue}

/-- The thread of the queue is in `os_sem_take` of `notifyq`, whose count
is 0. -/
def Queue.Asleep (Q : Queue) : Prop := Q.pc = .waiting ∧ Q.notifyq = 0

instance (Q : Queue) : Decidable Q.Asleep := inferInstanceAs (Decidable (_ ∧ _))

/-! ## What other threads do to a queue -/

/-- **Whoever adds something notifies**: where no notification is left, none
was there before, and neither work nor a request has come. -/
structure Produced (Q Q' : Queue) : Prop where
  pc : Q'.pc = Q.pc
  notifyq : Q'.notifyq = 0 → Q.notifyq = 0
  pending : Q'.notifyq = 0 → Q.pending = [] → Q'.pending = []
  drain : Q'.notifyq = 0 → Q.drain = false → Q'.drain = false
  stop : Q'.notifyq = 0 → Q.stop = false → Q'.stop = false

theorem Produced.rfl : Produced Q Q := ⟨.refl _, id, fun _ => id, fun _ => id, fun _ => id⟩

theorem Produced.trans (h : Produced Q Q') (h' : Produced Q' Q'') : Produced Q Q'' where
  pc := h'.pc.trans h.pc
  notifyq h0 := h.notifyq (h'.notifyq h0)
  pending h0 hp := h'.pending h0 (h.pending (h'.notifyq h0) hp)
  drain h0 hd := h'.drain h0 (h.drain (h'.notifyq h0) hd)
  stop h0 hs := h'.stop h0 (h.stop (h'.notifyq h0) hs)

/-- What all queues have gone through. -/
structure ProducedAll (s s' : State) : Prop where
  queue : ∀ q, Produced (s.queues q) (s'.queues q)

theorem ProducedAll.rfl : ProducedAll s s := ⟨fun _ => .rfl⟩

theorem ProducedAll.trans {s'' : State} (h : ProducedAll s s') (h' : ProducedAll s' s'') :
    ProducedAll s s'' :=
  ⟨fun q => (h.queue q).trans (h'.queue q)⟩

theorem producedAll_of_eq (h : s'.queues = s.queues) : ProducedAll s s' :=
  ⟨fun q => by rw [h]; exact .rfl⟩

theorem producedAll_setQueue (h : Produced (s.queues q) Q) : ProducedAll s (s.setQueue q Q) := by
  refine ⟨fun q' => ?_⟩
  rw [queues_setQueue]
  split
  next hq => rwa [hq]
  next => exact .rfl

theorem one_le_semGive (n : ℕ) : 1 ≤ semGive n := by
  rw [semGive]
  split <;> omega

/-- **A change that is notified of** may be any, but not of the thread. -/
theorem producedAll_notify (hpc : Q.pc = (s.queues q).pc) :
    ProducedAll s ((s.setQueue q Q).notify q) := by
  refine ⟨fun q' => ?_⟩
  rw [notify, queues_setQueue, queues_setQueue_self, queues_setQueue]
  split
  next hq =>
    have hne : semGive Q.notifyq ≠ 0 := Nat.one_le_iff_ne_zero.mp (one_le_semGive _)
    subst hq
    exact ⟨hpc, fun h => absurd h hne, fun h => absurd h hne, fun h => absurd h hne,
      fun h => absurd h hne⟩
  next => exact .rfl

def Kind.notifies : Kind → Bool
  | .thread | .go | .finish => false
  | _ => true

theorem Change.producedAll {k : Kind} (h : Change s k s') (hk : k.notifies = true) :
    ProducedAll s s' := by
  cases h with
  | work | arm | init | canceller | sem => exact producedAll_of_eq rfl
  | less hpc hnotifyq hdrain _ hpending hstop =>
    exact producedAll_setQueue ⟨hpc, hnotifyq.symm.trans, fun _ => hpending,
      fun _ => hdrain.trans, fun _ => hstop⟩
  | drained => exact producedAll_setQueue ⟨rfl, id, fun _ => id, fun _ => id, fun _ => id⟩
  | notified hpc | drain hpc => exact producedAll_notify hpc
  | @flusher w q sync =>
    have hmid : ProducedAll s ({ s with sems := Function.update s.sems sync 0 }.setWork
        (.flusher sync) { flushing := true }) := producedAll_of_eq rfl
    exact hmid.trans (producedAll_notify rfl)
  | thread | go | finish => cases hk

/-- The steps of a thread in `work_queue_main`, and those that start it. -/
def Event.ofThread : Event → Option ℕ
  | .start q _ | .run _ q _ | .enter _ q | .fetch q | .take q | .finish q => some q
  | _ => none

/-- **No other step gives a thread something to do without notifying it.** -/
theorem producedAll_step (s : State) {e : Event} (he : e.ofThread = none) :
    ProducedAll s (s.step e) := by
  have hK : e.makes.all Kind.notifies = true := by
    cases e with
    | start | run | enter | fetch | take | finish => cases he
    | schedule self q n noWait | reschedule self q n noWait => cases noWait <;> rfl
    | _ => rfl
  exact (step_made s e).rule hK .rfl .trans Change.producedAll

/-! ## What a thread does to its queue -/

theorem queues_step_of_ne {e : Event} (he : e.ofThread = some q) {q' : ℕ} (hq' : q' ≠ q) :
    (s.step e).queues q' = s.queues q' := by
  have hset : ∀ (t : State) (Q : Queue), (t.setQueue q Q).queues q' = t.queues q' := fun t Q => by
    rw [queues_setQueue, if_neg hq']
  cases e with
  | start q noYield =>
    obtain rfl := Option.some.inj he
    rw [step, queueStart]
    split
    · rfl
    · exact hset ..
  | run self q noYield =>
    obtain rfl := Option.some.inj he
    rw [step, queueRun]
    split
    · rfl
    · exact hset ..
  | enter self q =>
    obtain rfl := Option.some.inj he
    rw [step, State.enter]
    split
    · exact hset ..
    · rfl
  | fetch q =>
    obtain rfl := Option.some.inj he
    rw [step, State.fetch]
    split
    · rfl
    split
    · exact hset ..
    split
    · exact hset ..
    split
    · exact hset ..
    · exact hset ..
  | take q =>
    obtain rfl := Option.some.inj he
    rw [step, State.take]
    split
    · exact hset ..
    · rfl
  | finish q =>
    obtain rfl := Option.some.inj he
    rw [step]
    cases hpc : (s.queues q).pc with
    | handler w =>
      obtain ⟨t, -, ht, heq⟩ := finish_eq hpc
      rw [heq, hset, ht]
    | off | boot | loop | waiting => rw [State.finish]; simp [hpc]
  | _ => cases he

/-- The thread of `q` goes to sleep: it has found no work, and DRAIN or no
request to stop. -/
structure FellAsleep (s : State) (e : Event) (q : ℕ) : Prop where
  fetch : e = .fetch q
  loop : (s.queues q).pc = .loop
  pending : (s.queues q).pending = []
  request : (s.queues q).drain = true ∨ (s.queues q).stop = false
  after : (s.step e).queues q = { s.queues q with
    drain := false
    drainq := if (s.queues q).drain then semGive (s.queues q).drainq else (s.queues q).drainq
    pc := .waiting }

theorem queue_step_of_thread {e : Event} (he : e.ofThread = some q) :
    (s.step e).queues q = s.queues q ∨ ((s.step e).queues q).pc ≠ .waiting ∨ FellAsleep s e q := by
  cases e with
  | start q noYield =>
    obtain rfl := Option.some.inj he
    rw [step, queueStart]
    split
    · exact .inl rfl
    · exact .inr (.inl (by simp))
  | run self q noYield =>
    obtain rfl := Option.some.inj he
    rw [step, queueRun]
    split
    · exact .inl rfl
    · exact .inr (.inl (by simp))
  | enter self q =>
    obtain rfl := Option.some.inj he
    rw [step, State.enter]
    split
    · exact .inr (.inl (by simp))
    · exact .inl rfl
  | fetch q =>
    obtain rfl := Option.some.inj he
    by_cases hloop : (s.queues q).pc = .loop
    swap
    · exact .inl (by rw [step, State.fetch, if_pos hloop])
    cases hpending : (s.queues q).pending with
    | cons w rest =>
      refine .inr (.inl ?_)
      simp [step, State.fetch, hloop, hpending]
    | nil =>
      cases hdrain : (s.queues q).drain with
      | true =>
        refine .inr (.inr ⟨rfl, hloop, hpending, .inl hdrain, ?_⟩)
        simp [step, State.fetch, hloop, hpending, hdrain]
      | false =>
        cases hstop : (s.queues q).stop with
        | true =>
          refine .inr (.inl ?_)
          simp [step, State.fetch, hloop, hpending, hdrain, hstop]
        | false =>
          refine .inr (.inr ⟨rfl, hloop, hpending, .inr hstop, ?_⟩)
          simp [step, State.fetch, hloop, hpending, hdrain, hstop]
  | take q =>
    obtain rfl := Option.some.inj he
    rw [step, State.take]
    split
    · exact .inr (.inl (by simp))
    · exact .inl rfl
  | finish q =>
    obtain rfl := Option.some.inj he
    rw [step]
    cases hpc : (s.queues q).pc with
    | handler w =>
      obtain ⟨t, -, ht, heq⟩ := finish_eq hpc
      exact .inr (.inl (by rw [heq]; simp))
    | off | boot | loop | waiting => exact .inl (by rw [State.finish]; simp [hpc])
  | _ => cases he

/-- **What a step does to a queue.** -/
theorem queue_step (s : State) (e : Event) (q : ℕ) :
    Produced (s.queues q) ((s.step e).queues q) ∨ ((s.step e).queues q).pc ≠ .waiting ∨
      FellAsleep s e q := by
  cases he : e.ofThread with
  | none => exact .inl ((producedAll_step s he).queue q)
  | some q' =>
    by_cases hq : q = q'
    · subst hq
      refine (queue_step_of_thread he).imp_left fun heq => ?_
      rw [heq]
      exact .rfl
    · refine .inl ?_
      rw [queues_step_of_ne he hq]
      exact .rfl

/-! ## Nothing to do while asleep -/

/-- **No wake-up is lost**: in every state that threads can reach, a thread
that sleeps with no notification left has an empty list and is not asked to
drain. -/
theorem asleep_idle (es : List Event) (q : ℕ) :
    let s := run State.step {} es
    (s.queues q).Asleep → (s.queues q).pending = [] ∧ (s.queues q).drain = false := by
  refine inv_run_of_forall
    (fun s : State => (s.queues q).Asleep →
      (s.queues q).pending = [] ∧ (s.queues q).drain = false)
    (fun s e h hasleep => ?_) (fun hasleep => ?_) es
  swap
  · cases hasleep.1
  rcases queue_step s e q with hp | hpc | hfell
  · obtain ⟨hpending, hdrain⟩ := h ⟨hp.pc ▸ hasleep.1, hp.notifyq hasleep.2⟩
    exact ⟨hp.pending hasleep.2 hpending, hp.drain hasleep.2 hdrain⟩
  · exact absurd hasleep.1 hpc
  · rw [hfell.after]
    exact ⟨hfell.pending, rfl⟩

/-- The sleeping thread is woken by a submission, runs the item while the
queue is drained, and sleeps again. -/
def drainOnce : List Event :=
  [.init 3, .start 0 false, .enter 7 0, .fetch 0, .submit 1 (some 0) 3, .take 0, .fetch 0,
    .drain 0 false, .finish 0, .fetch 0, .take 0, .fetch 0]

theorem asleep_idle_sample :
    let s := run State.step {} drainOnce
    (s.queues 0).drainq = 1 ∧ (s.queues 0).Asleep ∧
      (s.queues 0).pending = [] ∧ (s.queues 0).drain = false :=
  ⟨by decide, by decide, asleep_idle drainOnce 0 (by decide)⟩

/-! ## A request to stop -/

/-- **The thread misses the request to stop**: it takes the branch of DRAIN
while STOP is set, and no notification is left that would wake it again. -/
def State.MissesStop (s : State) : Event → Prop
  | .fetch q => (s.queues q).pc = .loop ∧ (s.queues q).pending = [] ∧
      (s.queues q).drain = true ∧ (s.queues q).stop = true ∧ (s.queues q).notifyq = 0
  | _ => False

/-- Where a request to stop is pending, the thread is awake or will be. -/
def State.SeesStop (s : State) : Prop :=
  ∀ q, (s.queues q).Asleep → (s.queues q).stop = false

theorem seesStop_step (h : s.SeesStop) {e : Event} (he : ¬ s.MissesStop e) :
    (s.step e).SeesStop := by
  intro q hasleep
  rcases queue_step s e q with hp | hpc | hfell
  · exact hp.stop hasleep.2 (h q ⟨hp.pc ▸ hasleep.1, hp.notifyq hasleep.2⟩)
  · exact absurd hasleep.1 hpc
  · obtain ⟨rfl, hloop, hpending, hrequest, hafter⟩ := hfell
    rw [hafter] at hasleep ⊢
    rcases hrequest with hdrain | hstop
    · by_contra hstop
      exact he ⟨hloop, hpending, hdrain, by simpa using hstop, hasleep.2⟩
    · exact hstop

theorem not_seesStop_step {e : Event} (he : s.MissesStop e) : ¬ (s.step e).SeesStop := by
  cases e with
  | fetch q =>
    obtain ⟨hloop, hpending, hdrain, hstop, hnotify⟩ := he
    intro hc
    have hafter : (s.step (.fetch q)).queues q = { s.queues q with
        drain := false, drainq := semGive (s.queues q).drainq, pc := .waiting } := by
      simp [step, State.fetch, hloop, hpending, hdrain]
    have := hc q (by rw [hafter]; exact ⟨rfl, hnotify⟩)
    rw [hafter] at this
    exact Bool.false_ne_true (this.symm.trans hstop)
  | _ => exact he.elim

theorem seesStop_iff_along (es : List Event) (hs : s.SeesStop) :
    (∀ es', es' <+: es → (run step s es').SeesStop) ↔
      Along step (fun s e => ¬ s.MissesStop e) s es := by
  induction es generalizing s with
  | nil => exact iff_of_true (fun es' hes' => by rwa [List.prefix_nil.mp hes']) trivial
  | cons e es ih =>
    constructor
    · intro h
      have he : ¬ s.MissesStop e := fun hmiss =>
        not_seesStop_step hmiss (h [e] (List.prefix_append [e] es))
      refine ⟨he, (ih (seesStop_step hs he)).mp fun es' hes' => ?_⟩
      exact h (e :: es') (List.prefix_cons_inj e |>.mpr hes')
    · rintro ⟨he, hrun⟩ es' hes'
      cases es' with
      | nil => exact hs
      | cons e' es' =>
        obtain ⟨rfl, htail⟩ := List.cons_prefix_cons.mp hes'
        exact (ih (seesStop_step hs he)).mpr hrun es' htail

/-- **A request to stop is seen in every state of a run exactly where no
thread misses one**: a thread takes the branch of DRAIN only while STOP is
clear, or with a notification left. -/
theorem stop_seen_iff (es : List Event) :
    (∀ es', es' <+: es → ∀ q, ((run State.step {} es').queues q).Asleep →
      ((run State.step {} es').queues q).stop = false) ↔
      Along State.step (fun s e => ¬ s.MissesStop e) {} es :=
  seesStop_iff_along es fun _ hasleep => nomatch hasleep.1

/-- **A request to stop is missed**: the thread sleeps, one thread asks it
to drain and plugs the queue, another to stop it, and it wakes up once. -/
theorem stop_missed :
    let s := run State.step {} [.start 0 false, .enter 7 0, .fetch 0, .drain 0 true, .stop 0,
      .take 0, .fetch 0]
    (s.queues 0).Asleep ∧ (s.queues 0).stop = true := by
  decide

end Base

end OpenBlue

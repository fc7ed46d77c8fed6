import OpenBlue.Base.Work
/-!
# Base — what the functions on work items are made of

Every function of `bt_work.c` is made of few kinds of change: of the flags
of an item, of a queue, of a `struct bt_work_sync`. `step_made` says once
which kinds a step is made of; what a kind of change keeps, the steps that
are made of such changes keep (`Made.rule`).
-/

namespace OpenBlue

namespace Base

open State

/-- The kinds of change. -/
inductive Kind
  | work | arm | init | less | notified | drain | go | thread | finish
  | flusher | canceller | sem
  deriving DecidableEq

/-- A change, of its kind. -/
inductive Change (s : State) : Kind → State → Prop
  /-- An item is neither armed, nor is it canceling or flushing no more. -/
  | work {w : WorkId} {v : Work} (hflushing : v.flushing = (s.works w).flushing)
    (hcanceling : (s.works w).canceling = true → v.canceling = true)
    (hdelayed : v.delayed = true → (s.works w).delayed = true) : Change s .work (s.setWork w v)
  | arm {n : ℕ} {v : Work} (hcanceling : v.canceling = (s.works (.item n)).canceling) :
    Change s .arm (s.setWork (.item n) v)
  | init {n : ℕ} {delayable : Bool} : Change s .init (s.setWork (.item n) { delayable })
  /-- Nothing is added to a queue. -/
  | less {q : ℕ} {Q : Queue} (hpc : Q.pc = (s.queues q).pc)
    (hnotifyq : Q.notifyq = (s.queues q).notifyq) (hdrain : Q.drain = (s.queues q).drain)
    (hdrainq : Q.drainq = (s.queues q).drainq)
    (hpending : (s.queues q).pending = [] → Q.pending = [])
    (hstop : (s.queues q).stop = false → Q.stop = false) : Change s .less (s.setQueue q Q)
  | notified {q : ℕ} {Q : Queue} (hpc : Q.pc = (s.queues q).pc)
    (hdrain : Q.drain = (s.queues q).drain) (hdrainq : Q.drainq = (s.queues q).drainq) :
    Change s .notified ((s.setQueue q Q).notify q)
  | drain {q : ℕ} {Q : Queue} (hpc : Q.pc = (s.queues q).pc) :
    Change s .drain ((s.setQueue q Q).notify q)
  | drained {q : ℕ} :
    Change s .drain (s.setQueue q { s.queues q with drainq := (s.queues q).drainq - 1 })
  /-- The thread of a queue goes on, and leaves the drain alone. -/
  | go {q : ℕ} {Q : Queue} (hdrain : Q.drain = (s.queues q).drain)
    (hdrainq : Q.drainq = (s.queues q).drainq) : Change s .go (s.setQueue q Q)
  | thread {q : ℕ} {Q : Queue} : Change s .thread (s.setQueue q Q)
  | finish {q : ℕ} : Change s .finish (s.finish q)
  | flusher {w : WorkId} {q sync : ℕ} : Change s .flusher ((s.queueFlusher q w sync).notify q)
  | canceller {w : WorkId} {sync : ℕ} : Change s .canceller { s with
      sems := Function.update s.sems sync 0, pendingCancels := s.pendingCancels ++ [(sync, w)] }
  | sem {sync k : ℕ} : Change s .sem { s with sems := Function.update s.sems sync k }

/-- Changes of such kinds, one after the other. -/
inductive Made (K : List Kind) (s : State) : State → Prop
  | refl : Made K s s
  | tail {k : Kind} {t u : State} (h : Made K s t) (hk : k ∈ K) (hc : Change t k u) : Made K s u

variable {s t u : State} {w : WorkId} {q n : ℕ} {K K' : List Kind} {k : Kind}

/-- **What every change of such a kind does, they all do.** -/
theorem Made.rule {R : State → State → Prop} {p : Kind → Bool} (h : Made K s t)
    (hK : K.all p = true) (hrefl : R s s) (htrans : ∀ {t u}, R s t → R t u → R s u)
    (hc : ∀ {k t u}, Change t k u → p k = true → R t u) : R s t := by
  induction h with
  | refl => exact hrefl
  | tail _ hk hchange ih => exact htrans ih (hc hchange (List.all_eq_true.mp hK _ hk))

theorem Made.trans (h : Made K s t) (h' : Made K t u) : Made K s u := by
  induction h' with
  | refl => exact h
  | tail _ hk hc ih => exact .tail ih hk hc

theorem Made.mono (h : Made K s t) (hK : K ⊆ K') : Made K' s t := by
  induction h with
  | refl => exact .refl
  | tail _ hk hc ih => exact .tail ih (hK hk) hc

theorem Change.made (hc : Change s k t) (hk : k ∈ K) : Made K s t := .tail .refl hk hc

/-! ## What the functions are made of -/

theorem made_submitToQueue (s : State) (self : ℕ) (w : WorkId) (queue : Option ℕ) :
    Made [.work, .notified] s (s.submitToQueue self w queue).2 := by
  rw [submitToQueue]
  split
  · exact .refl
  split
  · dsimp only
    split
    · exact .refl
    next hsub =>
      obtain ⟨q, -, -, rfl⟩ := queueSubmit_ok hsub
      have hsubmitted : Made [.work, .notified] s ((s.setQueue q { s.queues q with
          pending := (s.queues q).pending ++ [w] }).notify q) :=
        Change.made (.notified rfl rfl rfl) (by simp)
      exact .tail hsubmitted (.head _) (.work rfl id id)
  · exact .refl

theorem made_workFlush (s : State) (w : WorkId) (sync : ℕ) :
    Made [.flusher] s (s.workFlush w sync).2 := by
  rw [workFlush]
  split
  · split
    · exact .refl
    · exact Change.made .flusher (by simp)
  · exact .refl

theorem made_queueRemove (s : State) (queue : Option ℕ) (w : WorkId) :
    Made [.work, .less] s (s.queueRemove queue w) := by
  rw [queueRemove]
  split
  · have hclear : Made [.work, .less] s (s.setWork w { s.works w with queued := false }) :=
      Change.made (.work rfl id id) (by simp)
    cases queue with
    | none => exact hclear
    | some q =>
      refine .tail hclear (by simp) (.less rfl rfl rfl rfl (fun hp => ?_) id)
      exact List.erase_eq_nil_iff.mpr (.inl hp)
  · exact .refl

theorem made_cancelAsync (s : State) (w : WorkId) : Made [.work, .less] s (s.cancelAsync w).2 := by
  rw [cancelAsync]
  dsimp only
  have hremove : Made [.work, .less] s
      (if !(s.works w).canceling then s.queueRemove (s.works w).queue w else s) := by
    split
    · exact made_queueRemove ..
    · exact .refl
  generalize (if !(s.works w).canceling then s.queueRemove (s.works w).queue w else s) = t
    at hremove ⊢
  split
  · exact .tail hremove (by simp) (.work rfl (fun _ => rfl) id)
  · exact hremove

theorem made_cancelSyncLocked (s : State) (w : WorkId) (sync : ℕ) :
    Made [.canceller] s (s.cancelSyncLocked w sync).2 := by
  rw [cancelSyncLocked]
  split
  · exact Change.made .canceller (by simp)
  · exact .refl

theorem made_unschedule (s : State) (w : WorkId) (stopped : Bool) :
    Made [.work] s (s.unschedule w stopped).2 := by
  rw [unschedule]
  split
  · exact Change.made (.work rfl id (fun h => Bool.noConfusion h)) (by simp)
  · exact .refl

theorem made_scheduleForQueue (s : State) (self n q : ℕ) (noWait : Bool) :
    Made [.work, if noWait then .notified else .arm] s
      (s.scheduleForQueue self (.item n) q noWait).2 := by
  cases noWait with
  | true => exact made_submitToQueue ..
  | false => exact Change.made (.arm rfl) (by simp)

theorem made_cancelDelayable (s : State) (w : WorkId) (stopped : Bool) :
    Made [.work, .less] s (s.cancelDelayable w stopped).2 :=
  ((made_unschedule ..).mono (by simp)).trans (made_cancelAsync ..)

theorem made_flushDelayable (s : State) (self : ℕ) (w : WorkId) (sync : ℕ) (stopped : Bool) :
    Made [.work, .notified, .flusher] s (s.flushDelayable self w sync stopped).2 := by
  rw [State.flushDelayable]
  split
  · exact .refl
  have hun : Made [.work, .notified, .flusher] s (s.unschedule w stopped).2 :=
    (made_unschedule ..).mono (by simp)
  split
  next t heq =>
    rw [heq] at hun
    have hsub := made_submitToQueue t self w (t.works w).delayQueue
    exact (hun.trans (hsub.mono (by simp))).trans ((made_workFlush ..).mono (by simp))
  next t heq =>
    rw [heq] at hun
    exact hun.trans ((made_workFlush ..).mono (by simp))

/-- The kinds of change that a step is made of. -/
@[simp] def Event.makes : Event → List Kind
  | .init _ | .initDelayable _ => [.init]
  | .submit .. | .workTimeout .. => [.work, .notified]
  | .flush .. => [.flusher]
  | .cancel _ | .cancelDelayable .. => [.work, .less]
  | .cancelSync .. | .cancelDelayableSync .. => [.work, .less, .canceller]
  | .schedule _ _ _ noWait | .reschedule _ _ _ noWait _ =>
    [.work, if noWait then .notified else .arm]
  | .flushDelayable .. => [.work, .notified, .flusher]
  | .start .. | .run .. => [.thread]
  | .drain .. | .drained _ => [.drain]
  | .unplug _ | .stopTimedOut _ => [.less]
  | .stop _ => [.notified]
  | .enter .. | .take _ => [.go]
  | .fetch _ => [.thread, .work]
  | .finish _ => [.finish]
  | .synced _ => [.sem]

/-- **What a step is made of.** -/
theorem step_made (s : State) (e : Event) : Made e.makes s (s.step e) := by
  cases e with
  | init n => exact Change.made .init (by simp)
  | initDelayable n => exact Change.made .init (by simp)
  | submit self queue n => exact made_submitToQueue ..
  | flush n sync =>
    rw [step, State.flush]
    split
    · exact .refl
    · exact made_workFlush ..
  | cancel n =>
    rw [step, State.cancel]
    split
    · exact .refl
    · exact made_cancelAsync ..
  | cancelSync n sync =>
    rw [step, State.cancelSync]
    split
    · exact .refl
    split
    · exact ((made_cancelAsync ..).mono (by simp)).trans
        ((made_cancelSyncLocked ..).mono (by simp))
    · exact .refl
  | schedule self q n noWait =>
    rw [step, State.schedule]
    split
    · exact made_scheduleForQueue ..
    · exact .refl
  | reschedule self q n noWait stopped =>
    exact ((made_unschedule ..).mono (by simp)).trans (made_scheduleForQueue ..)
  | cancelDelayable n stopped => exact made_cancelDelayable ..
  | cancelDelayableSync n sync stopped =>
    rw [step, State.cancelDelayableSync]
    split
    · exact ((made_cancelDelayable ..).mono (by simp)).trans
        ((made_cancelSyncLocked ..).mono (by simp))
    · exact .refl
  | flushDelayable self n sync stopped => exact made_flushDelayable ..
  | workTimeout self n =>
    rw [step, State.workTimeout]
    split
    · have hclear : Change s .work (s.setWork (.item n)
          { s.works (.item n) with delayed := false }) :=
        .work rfl id fun h => Bool.noConfusion h
      exact (hclear.made (by simp)).trans (made_submitToQueue ..)
    · exact .refl
  | start q noYield =>
    rw [step, queueStart]
    split
    · exact .refl
    · exact Change.made .thread (by simp)
  | run self q noYield =>
    rw [step, queueRun]
    split
    · exact .refl
    · exact Change.made .thread (by simp)
  | drain q plug =>
    rw [step, queueDrain]
    split
    · exact Change.made (.drain rfl) (by simp)
    · exact .refl
  | drained q => exact Change.made .drained (by simp)
  | unplug q => exact Change.made (.less rfl rfl rfl rfl id id) (by simp)
  | stop q =>
    rw [step, queueStop]
    split
    · exact .refl
    split
    · exact .refl
    · exact Change.made (.notified rfl rfl rfl) (by simp)
  | stopTimedOut q =>
    exact Change.made (.less rfl rfl rfl rfl id fun _ => rfl) (by simp)
  | enter self q =>
    rw [step, State.enter]
    split
    · exact Change.made (.go rfl rfl) (by simp)
    · exact .refl
  | fetch q =>
    rw [step, State.fetch]
    split
    · exact .refl
    have hthread : ∀ Q, Made [.thread, .work] s (s.setQueue q Q) :=
      fun Q => Change.made .thread (by simp)
    split
    · exact .tail (hthread _) (by simp) (.work rfl id id)
    split
    · exact hthread _
    split
    · exact hthread _
    · exact hthread _
  | take q =>
    rw [step, State.take]
    split
    · exact Change.made (.go rfl rfl) (by simp)
    · exact .refl
  | finish q => exact Change.made .finish (by simp)
  | synced sync => exact Change.made .sem (by simp)

end Base

end OpenBlue

import OpenBlue.Base.MemPool
import OpenBlue.Base.Poll
/-!
# Base — waiting with the mutex held

`bt_mem_pool_alloc` and `bt_poll` go into `os_sem_take` with the mutex of
their module held, and whoever could give the semaphore has to lock that
mutex first. So a thread that waits at all waits in vain. The two modules
keep clear of it in the runs in which no call has to wait, and in no others
(`no_held_wait_iff`).
-/

namespace OpenBlue

namespace Base

namespace Poll

open Function

variable {s : State} {t : ℕ} {e : Event}

/-- The thread is in `os_sem_take` without a token, and holds the mutex. -/
def State.Deadlocked (s : State) (t : ℕ) : Prop :=
  (s.calls t).pc = .taking ∧ (s.calls t).sem = 0 ∧ s.lock = some t

/-- The step goes into `os_sem_take`: a call that may wait finds none of
its entries ready. -/
def State.Waits (s : State) : Event → Prop
  | .check t => s.lock = none ∧ (s.calls t).pc = .registering ∧
      (s.calls t).numEvents ≤ (s.calls t).ii ∧ (s.calls t).isPolling = true ∧
      (s.calls t).timeout ≠ .noWait
  | _ => False

theorem step_check_of_waits (h : s.Waits (.check t)) : s.step (.check t) =
    { s.setCall t { s.calls t with isPolling := false, pc := .taking } with lock := some t } := by
  obtain ⟨hl, hpc, hii, hpolling, hwait⟩ := h
  unfold State.step State.act State.check
  simp [hl, hpc, hii, hpolling, hwait]

theorem taking_of_update {u : ℕ} {c : Call} (hc : c.pc ≠ .taking)
    (ht : (update s.calls u c t).pc = .taking) : (s.calls t).pc = .taking := by
  by_cases heq : t = u
  · subst heq
    rw [update_self] at ht
    exact absurd ht hc
  · rwa [update_of_ne heq] at ht

/-- **A thread in `os_sem_take` was there before, or has just gone in.** -/
theorem taking_step (ht : ((s.step e).calls t).pc = .taking) :
    (s.calls t).pc = .taking ∨ e = .check t ∧ s.Waits e := by
  have hacted := acted s e
  generalize s.step e = s', s.emit e = l at hacted ht
  cases hacted with
  | idle | init | queue => exact .inl ht
  | poll => exact .inl (taking_of_update (by simp) ht)
  | met _ hpc =>
    rw [setCall_calls, setEventReady_calls] at ht
    exact .inl (taking_of_update (by simp [hpc]) ht)
  | registered _ hpc =>
    rw [setCall_calls, registerEvent_calls] at ht
    exact .inl (taking_of_update (by simp [hpc]) ht)
  | @passed u _ hpc =>
    exact .inl (taking_of_update (c := { s.calls u with ii := (s.calls u).ii + 1 })
      (by simp [hpc]) ht)
  | ready | cleared =>
    rw [State.clear, ret_calls, clearEventRegistrations_calls] at ht
    exact .inl (taking_of_update (by simp) ht)
  | noWait _ _ _ _ hs' =>
    rw [ret_calls, hs', setCall_calls, update_idem] at ht
    exact .inl (taking_of_update (by simp) ht)
  | @wait u hl hpc hii hpolling hwait =>
    by_cases heq : t = u
    · subst heq
      exact .inr ⟨rfl, hl, hpc, hii, hpolling, hwait⟩
    · exact .inl ((congrArg Call.pc (update_of_ne heq _ _)).symm.trans ht)
  | left => exact .inl (taking_of_update (by simp) ht)
  | raised => exact .inl ((signalRaise_call s _ _ t).2.symm.trans ht)
  | handled => exact .inl ((handleObjEvents_call _ _ _ t).2.symm.trans ht)

theorem deadlocked_step (s : State) (e : Event) (h : s.Inv) (hs : ∀ t, ¬ s.Deadlocked t) :
    (∀ t, ¬ (s.step e).Deadlocked t) ↔ ¬ s.Waits e := by
  constructor
  · intro hnext hwait
    cases e with
    | check t =>
      have hsem := ((h.call t).polling hwait.2.1 hwait.2.2.2.1).1
      refine hnext t ?_
      rw [step_check_of_waits hwait]
      exact ⟨by simp, by simpa using hsem, rfl⟩
    | _ => exact hwait
  · rintro hwait t ⟨hpc, hsem, hl⟩
    rcases taking_step hpc with hold | ⟨-, hnow⟩
    · exact hs t ⟨hold, ((h.call t).taking hold).2, ((h.call t).taking hold).1⟩
    · exact hwait hnow

theorem no_deadlock_iff (es : List Event) :
    (∀ es', es' <+: es → ∀ t, ¬ (run State.step start es').Deadlocked t) ↔
      Along State.step (fun s e => ¬ s.Waits e) start es :=
  prefix_iff_along State.Inv (fun s => ∀ t, ¬ s.Deadlocked t) inv_step deadlocked_step inv_start
    (fun _ hd => nomatch hd.2.2) es

end Poll

/-- **No thread waits with a mutex held exactly where none has to wait**: in
the runs of the pools where no call finds its pool empty and the semaphore
without a token, and in the runs of `bt_poll` where no call that may wait
finds none of its entries ready. -/
theorem no_held_wait_iff (numBlocks : ℕ → ℕ) (es : List MemPool.Event) (ps : List Poll.Event) :
    ((∀ es', es' <+: es → ∀ t p,
        ¬ (run MemPool.State.step (MemPool.start numBlocks) es').Deadlocked t p) ↔
      Along MemPool.State.step (fun s e => ¬ s.WaitsAt 0 e) (MemPool.start numBlocks) es) ∧
    ((∀ ps', ps' <+: ps → ∀ t, ¬ (run Poll.State.step Poll.start ps').Deadlocked t) ↔
      Along Poll.State.step (fun s e => ¬ s.Waits e) Poll.start ps) :=
  ⟨MemPool.no_deadlock_iff numBlocks es, Poll.no_deadlock_iff ps⟩

/-- **A block is put back, and a signal raised, in vain**: the thread that
waits for it holds the mutex. -/
theorem waits_in_vain :
    (let s := run MemPool.State.step (MemPool.start fun _ => 1)
      [.alloc 0 0 .noWait, .alloc 1 0 .forever]
     (s.pcs 1 = .taking 0 .forever ∧ (s.pools 0).wait = 0 ∧ s.lock = some 1) ∧
      ((s.step (.free 0 0)).pools 0).wait = 0) ∧
    (let s := run Poll.State.step Poll.start
      [.init 0 0 (.signal 0), .poll 0 1 .forever, .register 0, .check 0]
     ((s.calls 0).pc = .taking ∧ (s.calls 0).sem = 0 ∧ s.lock = some 0) ∧
      ((s.step (.raise 0 5)).calls 0).sem = 0) := by
  decide

end Base

end OpenBlue

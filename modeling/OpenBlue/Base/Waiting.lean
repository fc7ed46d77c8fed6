import OpenBlue.Base.Changes
import Mathlib.Data.List.Nodup
/-!
# Base — who waits for the queue

The callers that wait inside the module: those of `bt_work_queue_drain`
for the one flag and the one binary semaphore of their queue, and those of
a synchronous cancel for the end of an item, each in the list of pending
cancellations. One DRAIN episode releases one caller, and the end of an
item releases one canceller. So every caller is released as long as there
is never a second one to release.
-/

namespace OpenBlue

namespace Base

open Function List State

variable {s s' : State} {w : WorkId} {q n sync : ℕ} {k : Kind}

/-! ## The flag and the semaphore of a drain -/

/-- DRAIN, and the count of `drainq`. -/
def State.drainOf (s : State) (q : ℕ) : Bool × ℕ := ((s.queues q).drain, (s.queues q).drainq)

@[simp] theorem drainOf_setWork (s : State) (w : WorkId) (v : Work) :
    (s.setWork w v).drainOf = s.drainOf := rfl

theorem drainOf_setQueue (s : State) (q : ℕ) (Q : Queue) (q' : ℕ) :
    (s.setQueue q Q).drainOf q' = if q' = q then (Q.drain, Q.drainq) else s.drainOf q' := by
  rw [drainOf, queues_setQueue]
  split
  · rfl
  · rfl

theorem drainOf_setQueue_same (s : State) {q : ℕ} {Q : Queue} (hdrain : Q.drain = (s.queues q).drain)
    (hdrainq : Q.drainq = (s.queues q).drainq) : (s.setQueue q Q).drainOf = s.drainOf := by
  funext q'
  rw [drainOf_setQueue, hdrain, hdrainq]
  split
  next hq => rw [hq, drainOf]
  next => rfl

@[simp] theorem drainOf_notify (s : State) (q : ℕ) : (s.notify q).drainOf = s.drainOf :=
  drainOf_setQueue_same s rfl rfl

theorem drainOf_finish (s : State) (q : ℕ) : (s.finish q).drainOf = s.drainOf := by
  cases hpc : (s.queues q).pc with
  | handler w =>
    obtain ⟨t, -, ht, heq⟩ := finish_eq hpc
    rw [heq, drainOf_setQueue_same t (by rw [ht]) (by rw [ht])]
    funext q'
    rw [drainOf, ht]
    rfl
  | off | boot | loop | waiting => rw [State.finish]; simp [hpc]

def Kind.keepsDrain : Kind → Bool
  | .drain | .thread => false
  | _ => true

theorem Change.drainOf (h : Change s k s') (hk : k.keepsDrain = true) : s'.drainOf = s.drainOf := by
  cases h with
  | work | arm | init | canceller | sem => rfl
  | less _ _ hflag hcount | go hflag hcount => exact drainOf_setQueue_same s hflag hcount
  | notified _ hflag hcount =>
    rw [drainOf_notify]
    exact drainOf_setQueue_same s hflag hcount
  | flusher =>
    rw [drainOf_notify, queueFlusher]
    exact drainOf_setQueue_same _ rfl rfl
  | finish => exact drainOf_finish ..
  | drain | drained | thread => cases hk

/-- The steps that change them. -/
def Event.ofDrain : Event → Option ℕ
  | .drain q _ | .drained q | .start q _ | .run _ q _ | .fetch q => some q
  | _ => none

/-- **No other step touches the flag or the semaphore.** -/
theorem drainOf_step (s : State) {e : Event} (he : e.ofDrain = none) :
    (s.step e).drainOf = s.drainOf := by
  have hK : e.makes.all Kind.keepsDrain = true := by
    cases e with
    | drain | drained | start | run | fetch => cases he
    | schedule self q n noWait | reschedule self q n noWait => cases noWait <;> rfl
    | _ => rfl
  exact (step_made s e).rule (R := fun s s' => s'.drainOf = s.drainOf) hK rfl
    (fun h h' => h'.trans h) Change.drainOf

/-! ## The callers of a drain -/

/-- The items and queues, and for each queue how many callers of
`bt_work_queue_drain` are in `os_sem_take` of `drainq`. -/
structure Drains where
  state : State := {}
  waiting : ℕ → ℕ := fun _ => 0

/-- One step. A caller gets past `os_sem_take` only where there is one and
the semaphore has a count. -/
def Drains.step (d : Drains) : Event → Drains
  | .drain q plug =>
    { state := d.state.step (.drain q plug)
      waiting := if (d.state.queueDrain q plug).1 then
        update d.waiting q (d.waiting q + 1) else d.waiting }
  | .drained q =>
    if 0 < d.waiting q ∧ 0 < (d.state.queues q).drainq then
      { state := d.state.step (.drained q)
        waiting := update d.waiting q (d.waiting q - 1) }
    else d
  | e => { d with state := d.state.step e }

/-- A caller is blocked and DRAIN is clear: it is not released any more. -/
def Drains.Stranded (d : Drains) (q : ℕ) : Prop :=
  0 < d.waiting q ∧ (d.state.queues q).drainq = 0 ∧ (d.state.queues q).drain = false

/-- **There is never a second caller to release**: a drain that has to wait
is asked for while no other is pending, the thread clears DRAIN while the
semaphore's count has been taken, and the queue is started while nobody
waits for it. -/
def Drains.Single (d : Drains) : Event → Prop
  | .drain q plug => (d.state.queueDrain q plug).1 = true → (d.state.queues q).drain = false
  | .fetch q => (d.state.queues q).pc = .loop → (d.state.queues q).pending = [] →
      (d.state.queues q).drain = true → (d.state.queues q).drainq = 0
  | .start q _ | .run _ q _ => (d.state.queues q).started = false → d.waiting q = 0
  | _ => True

/-- The callers that wait are those that the flag and the semaphore stand
for. -/
def Drains.Counted (d : Drains) : Prop :=
  ∀ q, d.waiting q = (d.state.queues q).drainq + (d.state.queues q).drain.toNat

variable {d : Drains}

theorem Drains.Counted.same {d' : Drains} (h : d.Counted) (hwaiting : d'.waiting = d.waiting)
    (hdrain : d'.state.drainOf = d.state.drainOf) : d'.Counted := by
  intro q
  have hq := congrFun hdrain q
  simp only [drainOf, Prod.mk.injEq] at hq
  rw [hwaiting, hq.1, hq.2]
  exact h q

theorem Drains.Counted.update (h : d.Counted) {Q : Queue} {k : ℕ}
    (hk : k = Q.drainq + Q.drain.toNat) :
    Drains.Counted { state := d.state.setQueue q Q, waiting := update d.waiting q k } := by
  intro q'
  dsimp only
  rw [queues_setQueue, update_apply]
  split
  · exact hk
  · exact h q'

theorem Drains.Counted.queue (h : d.Counted) {Q : Queue}
    (hk : d.waiting q = Q.drainq + Q.drain.toNat) :
    Drains.Counted { d with state := d.state.setQueue q Q } := by
  have hself := @Drains.Counted.update q d h Q _ hk
  rwa [update_eq_self] at hself

theorem Drains.Counted.boot (h : d.Counted) (hnone : d.waiting q = 0) {Q : Queue}
    (hdrainq : Q.drainq = 0) (hdrain : Q.drain = false) :
    Drains.Counted { d with state := d.state.setQueue q Q } :=
  h.queue (by rw [hnone, hdrainq, hdrain]; rfl)

theorem Drains.Counted.drain (h : d.Counted) {plug : Bool} (hsingle : d.Single (.drain q plug)) :
    (d.step (.drain q plug)).Counted := by
  rw [Drains.step, State.step]
  rw [Drains.Single] at hsingle
  rw [queueDrain] at hsingle ⊢
  split
  next hwait =>
    rw [if_pos hwait] at hsingle
    have hflag := hsingle rfl
    have hcount := h q
    rw [hflag] at hcount
    have hset := @Drains.Counted.update q d h { d.state.queues q with
      drain := true, plugged := (d.state.queues q).plugged || plug } (d.waiting q + 1)
      (by rw [hcount]; rfl)
    rw [if_pos rfl]
    exact hset.same rfl (drainOf_notify ..)
  next hidle => exact h

theorem Drains.Counted.fetch (h : d.Counted) (hsingle : d.Single (.fetch q)) :
    (d.step (.fetch q)).Counted := by
  have hcount := h q
  change Drains.Counted { d with state := d.state.fetch q }
  rw [State.fetch]
  split
  · exact h
  next hloop =>
    rw [not_not] at hloop
    split
    next u rest hpending =>
      exact Drains.Counted.same
        (@Drains.Counted.queue q d h { d.state.queues q with
          pending := rest, busy := true, pc := .handler u } hcount) rfl (drainOf_setWork ..)
    next hpending =>
      split
      next hdrain =>
        have hzero := hsingle hloop hpending hdrain
        rw [hdrain, hzero] at hcount
        refine h.queue ?_
        rw [hcount, hzero]
        rfl
      next hdrain =>
        rw [Bool.not_eq_true] at hdrain
        rw [hdrain] at hcount
        split
        · exact h.queue hcount
        · refine h.queue ?_
          rw [hdrain]
          exact hcount

theorem Drains.Counted.step (h : d.Counted) {e : Event} (hsingle : d.Single e) :
    (d.step e).Counted := by
  cases he : e.ofDrain with
  | none =>
    have hstep : (d.step e).waiting = d.waiting ∧ (d.step e).state = d.state.step e := by
      cases e with
      | drain | drained | start | run | fetch => cases he
      | _ => exact ⟨rfl, rfl⟩
    refine h.same hstep.1 ?_
    rw [hstep.2]
    exact drainOf_step d.state he
  | some q =>
    cases e with
    | drain q plug => exact h.drain hsingle
    | drained q =>
      rw [Drains.step]
      split
      next hsome =>
        refine h.update ?_
        have hcount := h q
        dsimp only
        omega
      next => exact h
    | start q noYield =>
      change Drains.Counted { d with state := d.state.queueStart q noYield }
      rw [queueStart]
      split
      · exact h
      next hoff => exact h.boot (hsingle (by simpa using hoff)) rfl rfl
    | run self q noYield =>
      change Drains.Counted { d with state := d.state.queueRun self q noYield }
      rw [queueRun]
      split
      · exact h
      next hoff => exact h.boot (hsingle (by simpa using hoff)) rfl rfl
    | fetch q => exact h.fetch hsingle
    | _ => cases he

/-- **No caller of a drain is stranded** in a run where there is never a
second one to release. -/
theorem drains_released {es : List Event} (hrun : Along Drains.step Drains.Single {} es) (q : ℕ) :
    ¬ (run Drains.step {} es).Stranded q := by
  have hcounted : (run Drains.step {} es).Counted :=
    inv_run Drains.Counted (fun d e h hsingle => h.step hsingle) (fun _ => rfl) hrun
  rintro ⟨hwaiting, hcount, hflag⟩
  have hzero := hcounted q
  rw [hcount, hflag] at hzero
  exact absurd hzero (Nat.ne_of_gt hwaiting)

instance (d : Drains) : (e : Event) → Decidable (d.Single e)
  | .drain .. | .start .. | .run .. => inferInstanceAs (Decidable (_ = _ → _ = _))
  | .fetch _ => inferInstanceAs (Decidable (_ = _ → _ = _ → _ = _ → _ = _))
  | .init _ | .initDelayable _ | .submit .. | .flush .. | .cancel _ | .cancelSync .. |
    .schedule .. | .reschedule .. | .cancelDelayable .. | .cancelDelayableSync .. |
    .flushDelayable .. | .workTimeout .. | .drained _ | .unplug _ | .stop _ | .stopTimedOut _ |
    .enter .. | .take _ | .finish _ | .synced _ => .isTrue trivial

/-- Two drains, the second once the first has returned. -/
theorem drains_released_sample :
    let d := run Drains.step {} [.start 0 false, .enter 7 0, .fetch 0, .drain 0 true, .take 0,
      .fetch 0, .drained 0, .drain 0 true, .take 0, .fetch 0]
    d.waiting 0 = 1 ∧ ¬ d.Stranded 0 :=
  ⟨by decide, drains_released (by decide) 0⟩

/-- **A second caller is stranded**: two threads ask for a drain, the
thread of the queue gives the semaphore once, and one of them takes it. -/
theorem second_drain_stranded :
    (run Drains.step {} [.start 0 false, .enter 7 0, .fetch 0, .drain 0 true, .drain 0 false,
      .take 0, .fetch 0, .drained 0]).Stranded 0 :=
  ⟨by decide, by decide, by decide⟩

/-! ## The callers of a synchronous cancel -/

/-- The pending cancellations are left alone, and an item that is canceling
stays so. -/
structure KeepsCancels (s s' : State) : Prop where
  pending : s'.pendingCancels = s.pendingCancels
  canceling : ∀ n, (s.works (.item n)).canceling = true → (s'.works (.item n)).canceling = true

theorem KeepsCancels.rfl : KeepsCancels s s := ⟨.refl _, fun _ => id⟩

theorem KeepsCancels.trans {s'' : State} (h : KeepsCancels s s') (h' : KeepsCancels s' s'') :
    KeepsCancels s s'' :=
  ⟨h'.pending.trans h.pending, fun n hn => h'.canceling n (h.canceling n hn)⟩

theorem keepsCancels_setWork {v : Work} (h : (s.works w).canceling = true → v.canceling = true) :
    KeepsCancels s (s.setWork w v) := by
  refine ⟨.refl _, fun n hn => ?_⟩
  rw [works_setWork]
  split
  next hw => exact h (hw ▸ hn)
  next => exact hn

theorem keepsCancels_setQueue {Q : Queue} : KeepsCancels s (s.setQueue q Q) :=
  ⟨.refl _, fun _ => id⟩

def Kind.keepsCancels : Kind → Bool
  | .init | .canceller | .finish => false
  | _ => true

theorem Change.keepsCancels (h : Change s k s') (hk : k.keepsCancels = true) :
    KeepsCancels s s' := by
  cases h with
  | work _ hcanceling => exact keepsCancels_setWork hcanceling
  | arm hcanceling => exact keepsCancels_setWork hcanceling.trans
  | less | go | drained | thread => exact keepsCancels_setQueue
  | notified | drain => exact keepsCancels_setQueue.trans keepsCancels_setQueue
  | flusher | sem => exact ⟨rfl, fun _ => id⟩
  | init | canceller | finish => cases hk

theorem Made.keepsCancels {K : List Kind} (h : Made K s s')
    (hK : K.all Kind.keepsCancels = true) : KeepsCancels s s' :=
  h.rule hK .rfl .trans Change.keepsCancels

/-- The steps that touch the pending cancellations, and those that make an
item anew. -/
def Event.ofCancel : Event → Prop
  | .init _ | .initDelayable _ | .cancelSync .. | .cancelDelayableSync .. | .finish _ => True
  | _ => False

instance : (e : Event) → Decidable e.ofCancel
  | .init _ | .initDelayable _ | .cancelSync .. | .cancelDelayableSync .. | .finish _ =>
    .isTrue trivial
  | .submit .. | .flush .. | .cancel _ | .schedule .. | .reschedule .. | .cancelDelayable .. |
    .flushDelayable .. | .workTimeout .. | .start .. | .run .. | .drain .. | .drained _ |
    .unplug _ | .stop _ | .stopTimedOut _ | .enter .. | .fetch _ | .take _ | .synced _ =>
    .isFalse nofun

theorem keepsCancels_step (s : State) {e : Event} (he : ¬ e.ofCancel) :
    KeepsCancels s (s.step e) := by
  refine (step_made s e).keepsCancels ?_
  cases e with
  | init | initDelayable | cancelSync | cancelDelayableSync | finish => exact absurd trivial he
  | schedule self q n noWait | reschedule self q n noWait => cases noWait <;> rfl
  | _ => rfl

/-- Each canceller waits for an item that is canceling, and no two wait for
one item. -/
structure Cancellers (s : State) : Prop where
  canceling : ∀ p ∈ s.pendingCancels, ∃ n, p.2 = .item n ∧ (s.works (.item n)).canceling = true
  sole : (s.pendingCancels.map Prod.snd).Nodup

theorem Cancellers.keeps (h : Cancellers s) (hkeeps : KeepsCancels s s') : Cancellers s' := by
  refine ⟨fun p hp => ?_, by rw [hkeeps.pending]; exact h.sole⟩
  rw [hkeeps.pending] at hp
  obtain ⟨n, hn, hcanceling⟩ := h.canceling p hp
  exact ⟨n, hn, hkeeps.canceling n hcanceling⟩

/-- Nobody waits for the item yet. -/
def State.Uncancelled (s : State) (n : ℕ) : Prop := ∀ p ∈ s.pendingCancels, p.2 ≠ .item n

theorem Cancellers.setItem (h : Cancellers s) (hnone : s.Uncancelled n) (v : Work) :
    Cancellers (s.setWork (.item n) v) := by
  refine ⟨fun p hp => ?_, h.sole⟩
  obtain ⟨m, hm, hcanceling⟩ := h.canceling p hp
  refine ⟨m, hm, ?_⟩
  rw [works_setWork, if_neg fun heq => hnone p hp (hm.trans heq)]
  exact hcanceling

theorem Cancellers.uncancelled (h : Cancellers s) (hidle : (s.works (.item n)).busyGet = 0) :
    s.Uncancelled n := by
  intro p hp hn
  obtain ⟨m, hm, hcanceling⟩ := h.canceling p hp
  obtain rfl : n = m := WorkId.item.inj (hn.symm.trans hm)
  simp only [Work.busyGet, hcanceling, Bool.toNat_true] at hidle
  omega

theorem Cancellers.cancelSyncLocked (h : Cancellers s) (hnone : s.Uncancelled n) (sync : ℕ) :
    Cancellers (s.cancelSyncLocked (.item n) sync).2 := by
  rw [State.cancelSyncLocked]
  split
  next hcanceling =>
    refine ⟨fun p hp => ?_, ?_⟩
    · obtain hp | hp := mem_append.mp hp
      · exact h.canceling p hp
      · obtain rfl := mem_singleton.mp hp
        exact ⟨n, rfl, hcanceling⟩
    · rw [map_append, nodup_append]
      refine ⟨h.sole, by simp, fun v hv u hu hvu => ?_⟩
      obtain ⟨p, hp, rfl⟩ := mem_map.mp hv
      exact hnone p hp (hvu.trans (mem_singleton.mp hu))
  next => exact h

theorem finalizeCancel_pending (h : (s.pendingCancels.map Prod.snd).Nodup) (w : WorkId) :
    (s.finalizeCancel w).pendingCancels.Sublist s.pendingCancels ∧
      ∀ p ∈ (s.finalizeCancel w).pendingCancels, p.2 ≠ w := by
  rw [finalizeCancel]
  dsimp only [setWork]
  split
  next sync v hfind =>
    obtain ⟨hv, -⟩ := find?_eq_some_iff_append.mp hfind
    have hmem := mem_of_find?_eq_some hfind
    refine ⟨erase_sublist, fun p hp hw => ?_⟩
    obtain ⟨hne, hp⟩ := (List.Nodup.mem_erase_iff (List.Nodup.of_map Prod.snd h)).mp hp
    exact hne (inj_on_of_nodup_map h hp hmem (hw.trans (of_decide_eq_true hv).symm))
  next hfind =>
    refine ⟨.refl _, fun p hp hw => ?_⟩
    rw [find?_eq_none] at hfind
    exact hfind p hp (decide_eq_true hw)

theorem Cancellers.finish (h : Cancellers s) (q : ℕ) : Cancellers (s.finish q) := by
  cases hpc : (s.queues q).pc with
  | off | boot | loop | waiting => rwa [State.finish, hpc]
  | handler w =>
    rw [State.finish, hpc]
    dsimp only
    have hrun : Cancellers (s.setWork w { s.works w with running := false }) :=
      h.keeps (keepsCancels_setWork id)
    generalize s.setWork w { s.works w with running := false } = t at hrun ⊢
    refine Cancellers.keeps ?_ keepsCancels_setQueue
    split
    · refine hrun.keeps ?_
      have hclear : KeepsCancels t (t.setWork w { t.works w with flushing := false }) :=
        keepsCancels_setWork id
      cases w with
      | item n => exact hclear
      | flusher sync => exact hclear.trans ⟨.refl _, fun _ => id⟩
    split
    · obtain ⟨hsub, hnone⟩ := finalizeCancel_pending hrun.sole w
      refine ⟨fun p hp => ?_, hrun.sole.sublist (hsub.map Prod.snd)⟩
      obtain ⟨n, hn, hcanceling⟩ := hrun.canceling p (hsub.subset hp)
      refine ⟨n, hn, ?_⟩
      rw [(works_finalizeCancel t w).1, works_setWork, if_neg fun heq => hnone p hp (hn.trans heq)]
      exact hcanceling
    · exact hrun

/-- **Nobody else waits for the item**: a synchronous cancel is called
while no other one waits for the same item. -/
def State.SoleCanceller (s : State) : Event → Prop
  | .cancelSync n _ | .cancelDelayableSync n _ _ => s.Uncancelled n
  | _ => True

theorem Cancellers.step (h : Cancellers s) {e : Event} (hproper : s.Proper e)
    (hsole : s.SoleCanceller e) : Cancellers (s.step e) := by
  by_cases he : e.ofCancel
  swap
  · exact h.keeps (keepsCancels_step s he)
  cases e with
  | init n => exact h.setItem (h.uncancelled hproper) _
  | initDelayable n => exact h.setItem (h.uncancelled hproper) _
  | cancelSync n sync =>
    have hcancel := (made_cancelAsync s (.item n)).keepsCancels rfl
    have hnone : (s.cancelAsync (.item n)).2.Uncancelled n := by
      rw [State.Uncancelled, hcancel.pending]
      exact hsole
    rw [State.step, State.cancelSync]
    split
    · exact h
    split
    · exact (h.keeps hcancel).cancelSyncLocked hnone sync
    · exact h
  | cancelDelayableSync n sync stopped =>
    have hcancel : KeepsCancels s (s.cancelDelayable (.item n) stopped).2 :=
      (made_cancelDelayable ..).keepsCancels rfl
    have hnone : (s.cancelDelayable (.item n) stopped).2.Uncancelled n := by
      rw [State.Uncancelled, hcancel.pending]
      exact hsole
    rw [State.step, State.cancelDelayableSync]
    split
    · exact (h.keeps hcancel).cancelSyncLocked hnone sync
    · exact h
  | finish q => exact h.finish q
  | _ => exact he.elim

/-- **Every canceller that waits will be released** in a run where no two
wait for one item: the item that it waits for is canceling, so the end of
its handler releases it. -/
theorem cancellers_released {es : List Event}
    (hrun : Along State.step (fun s e => s.Proper e ∧ s.SoleCanceller e) {} es) :
    ∀ p ∈ (run State.step {} es).pendingCancels,
      ((run State.step {} es).works p.2).canceling = true := by
  have hcancellers : Cancellers (run State.step {} es) :=
    inv_run Cancellers (fun s e h he => h.step he.1 he.2) ⟨nofun, List.nodup_nil⟩ hrun
  intro p hp
  obtain ⟨n, hn, hcanceling⟩ := hcancellers.canceling p hp
  rwa [hn]

instance (s : State) (n : ℕ) : Decidable (s.Uncancelled n) :=
  inferInstanceAs (Decidable (∀ p ∈ s.pendingCancels, p.2 ≠ .item n))

instance (s : State) : (e : Event) → Decidable (s.SoleCanceller e)
  | .cancelSync n _ | .cancelDelayableSync n _ _ => inferInstanceAs (Decidable (s.Uncancelled n))
  | .init _ | .initDelayable _ | .submit .. | .flush .. | .cancel _ | .schedule .. |
    .reschedule .. | .cancelDelayable .. | .flushDelayable .. | .workTimeout .. | .start .. |
    .run .. | .drain .. | .drained _ | .unplug _ | .stop _ | .stopTimedOut _ | .enter .. |
    .fetch _ | .take _ | .finish _ | .synced _ => .isTrue trivial

/-- Item 3 runs when it is cancelled. -/
def cancelWhileRunning : List Event :=
  [.start 0 false, .enter 7 0, .submit 1 (some 0) 3, .fetch 0, .cancelSync 3 1]

theorem cancellers_released_sample :
    (1, .item 3) ∈ (run State.step {} cancelWhileRunning).pendingCancels ∧
      ((run State.step {} cancelWhileRunning).works (.item 3)).canceling = true :=
  ⟨by decide, cancellers_released (by decide) (1, .item 3) (by decide)⟩

/-- **A second canceller is not released**: the handler of the item ends,
and the canceller that came second is still linked. -/
theorem second_canceller_linked :
    let s := run State.step {} (cancelWhileRunning ++ [.cancelSync 3 2, .finish 0])
    (2, .item 3) ∈ s.pendingCancels ∧ (s.works (.item 3)).canceling = false := by
  decide

end Base

end OpenBlue

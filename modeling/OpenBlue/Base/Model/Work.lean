import Mathlib.Algebra.Order.Ring.Int
import Mathlib.Data.List.Basic
/-!
# Base — work items and work queues

The model of `bt_work.c`: items, delayable items, queues and the loop of
their threads. What a function does while it holds the lock is one step;
a thread waits for a semaphore between two steps, and a handler runs
between two steps of `work_queue_main`. When a timer expires, and what
`os_timer_stop` returns, are inputs. `bt_work_queue_init` is no event: a
queue is initialised once, before it is started.
-/

namespace OpenBlue

namespace Base

open Function

/-- A pointer to a `struct bt_work`: an item of an application, or the one
in a `struct bt_work_sync`. -/
inductive WorkId
  | item (n : ℕ)
  | flusher (sync : ℕ)
  deriving DecidableEq, Repr

/-- `struct bt_work`, with the `queue` of the `struct bt_work_delayable`
that it may be part of. -/
structure Work where
  running : Bool := false
  canceling : Bool := false
  queued : Bool := false
  delayed : Bool := false
  flushing : Bool := false
  delayable : Bool := false
  queue : Option ℕ := none
  delayQueue : Option ℕ := none
  deriving DecidableEq, Repr

/-- Where the thread of a queue is in `work_queue_main`. -/
inductive Pc
  /-- There is no thread. -/
  | off
  /-- The thread has not entered yet. -/
  | boot
  /-- It is about to take the lock, at the head of the loop. -/
  | loop
  /-- It has released the lock and is in `os_sem_take` of `notifyq`. -/
  | waiting
  /-- It runs the handler of an item. -/
  | handler (w : WorkId)
  deriving DecidableEq, Repr

/-- `struct bt_work_q`; of the semaphores, the count. -/
structure Queue where
  pc : Pc := .off
  threadId : ℕ := 0
  pending : List WorkId := []
  notifyq : ℕ := 0
  drainq : ℕ := 0
  started : Bool := false
  busy : Bool := false
  drain : Bool := false
  plugged : Bool := false
  stop : Bool := false
  noYield : Bool := false
  deriving DecidableEq, Repr

/-- The items and the queues. -/
structure State where
  works : WorkId → Work := fun _ => {}
  queues : ℕ → Queue := fun _ => {}
  /-- `pending_cancels`: a `struct bt_work_sync`, and the item. -/
  pendingCancels : List (ℕ × WorkId) := []
  /-- The semaphore of a `struct bt_work_sync`. -/
  sems : ℕ → ℕ := fun _ => 0

/-- The errors of `bt_work_submit_to_queue` and of `bt_work_queue_stop`. -/
inductive Err
  | inval
  | nodev
  | busy
  | already
  | timedout
  deriving DecidableEq, Repr

/-- `os_sem_give` of a semaphore with limit 1. -/
def semGive (count : ℕ) : ℕ := if 1 ≤ count then count else count + 1

/-- `flags_get(&work->flags) & BT_WORK_MASK`. -/
def Work.busyGet (w : Work) : ℕ :=
  w.running.toNat + 2 * w.canceling.toNat + 4 * w.queued.toNat + 8 * w.delayed.toNat +
    16 * w.flushing.toNat

/-- `bt_slist_insert`. -/
def insertAfter (prev node : WorkId) : List WorkId → List WorkId
  | [] => []
  | w :: l => if w = prev then w :: node :: l else w :: insertAfter prev node l

namespace State

/-- A change of an item. -/
def setWork (s : State) (w : WorkId) (v : Work) : State :=
  { s with works := update s.works w v }

/-- A change of a queue. -/
def setQueue (s : State) (q : ℕ) (v : Queue) : State :=
  { s with queues := update s.queues q v }

/-- `notify_queue_locked`. -/
def notify (s : State) (q : ℕ) : State :=
  s.setQueue q { s.queues q with notifyq := semGive (s.queues q).notifyq }

/-! ## Submitting -/

/-- `queue_submit_locked`; `self` is the thread. -/
def queueSubmit (s : State) (self : ℕ) (queue : Option ℕ) (w : WorkId) : Except Err State :=
  match queue with
  | none => .error .inval
  | some q =>
    let chained := decide (self = (s.queues q).threadId)
    if !(s.queues q).started then .error .nodev
    else if (s.queues q).drain && !chained then .error .busy
    else if (s.queues q).plugged && !(s.queues q).drain then .error .busy
    else .ok ((s.setQueue q { s.queues q with
      pending := (s.queues q).pending ++ [w] }).notify q)

/-- `submit_to_queue_locked`. -/
def submitToQueue (s : State) (self : ℕ) (w : WorkId) (queue : Option ℕ) :
    Except Err ℕ × State :=
  if (s.works w).canceling then (.error .busy, s)
  else if !(s.works w).queued then
    let queue := if queue = none then (s.works w).queue else queue
    let queue := if (s.works w).running then (s.works w).queue else queue
    match s.queueSubmit self queue w with
    | .error e => (.error e, s)
    | .ok s' => (.ok (if (s.works w).running then 2 else 1),
        s'.setWork w { s.works w with queued := true, queue })
  else (.ok 0, s)

/-! ## Flushing -/

/-- `queue_flusher_locked`. -/
def queueFlusher (s : State) (q : ℕ) (w : WorkId) (sync : ℕ) : State :=
  let pending := (s.queues q).pending
  ({ s with sems := update s.sems sync 0 }.setWork (.flusher sync)
    { flushing := true }).setQueue q { s.queues q with
      pending :=
        if (s.works w).queued then insertAfter w (.flusher sync) pending
        else .flusher sync :: pending }

/-- `work_flush_locked`: whether the caller has to wait. -/
def workFlush (s : State) (w : WorkId) (sync : ℕ) : Bool × State :=
  if (s.works w).queued || (s.works w).running then
    match (s.works w).queue with
    -- The assertion fails.
    | none => (true, s)
    | some q => (true, (s.queueFlusher q w sync).notify q)
  else (false, s)

/-- `bt_work_flush`, which asserts that the item is not delayable. -/
def flush (s : State) (w : WorkId) (sync : ℕ) : Bool × State :=
  if (s.works w).delayable then (false, s) else s.workFlush w sync

/-! ## Cancelling -/

/-- `queue_remove_locked`. -/
def queueRemove (s : State) (queue : Option ℕ) (w : WorkId) : State :=
  if (s.works w).queued then
    let s' := s.setWork w { s.works w with queued := false }
    match queue with
    | none => s'
    | some q => s'.setQueue q { s.queues q with pending := (s.queues q).pending.erase w }
  else s

/-- `cancel_async_locked`: what keeps the item busy. -/
def cancelAsync (s : State) (w : WorkId) : ℕ × State :=
  let s := if !(s.works w).canceling then s.queueRemove (s.works w).queue w else s
  if (s.works w).busyGet ≠ 0 then
    let s := s.setWork w { s.works w with canceling := true }
    ((s.works w).busyGet, s)
  else (0, s)

/-- `cancel_sync_locked`: whether the caller has to wait. -/
def cancelSyncLocked (s : State) (w : WorkId) (sync : ℕ) : Bool × State :=
  if (s.works w).canceling then
    (true, { s with
      sems := update s.sems sync 0
      pendingCancels := s.pendingCancels ++ [(sync, w)] })
  else (false, s)

/-- `bt_work_cancel`, which asserts that the item is not delayable. -/
def cancel (s : State) (w : WorkId) : ℕ × State :=
  if (s.works w).delayable then (0, s) else s.cancelAsync w

/-- `bt_work_cancel_sync`: whether the item was pending. -/
def cancelSync (s : State) (w : WorkId) (sync : ℕ) : Bool × State :=
  if (s.works w).delayable then (false, s)
  else if (s.works w).busyGet ≠ 0 then (true, ((s.cancelAsync w).2.cancelSyncLocked w sync).2)
  else (false, s)

/-! ## Delayable items -/

/-- `unschedule_locked`; `stopped` says that `os_timer_stop` succeeds. -/
def unschedule (s : State) (w : WorkId) (stopped : Bool) : Bool × State :=
  if (s.works w).delayed then (stopped, s.setWork w { s.works w with delayed := false })
  else (false, s)

/-- `schedule_for_queue_locked`; `noWait` says that there is no delay. -/
def scheduleForQueue (s : State) (self : ℕ) (w : WorkId) (q : ℕ) (noWait : Bool) :
    Except Err ℕ × State :=
  if noWait then s.submitToQueue self w (some q)
  else (.ok 1, s.setWork w { s.works w with delayed := true, delayQueue := some q })

/-- `bt_work_schedule_for_queue`. -/
def schedule (s : State) (self : ℕ) (w : WorkId) (q : ℕ) (noWait : Bool) :
    Except Err ℕ × State :=
  if ({ s.works w with running := false }).busyGet = 0 then s.scheduleForQueue self w q noWait
  else (.ok 0, s)

/-- `bt_work_reschedule_for_queue`. -/
def reschedule (s : State) (self : ℕ) (w : WorkId) (q : ℕ) (noWait stopped : Bool) :
    Except Err ℕ × State :=
  (s.unschedule w stopped).2.scheduleForQueue self w q noWait

/-- `bt_work_cancel_delayable`. -/
def cancelDelayable (s : State) (w : WorkId) (stopped : Bool) : ℕ × State :=
  (s.unschedule w stopped).2.cancelAsync w

/-- `bt_work_cancel_delayable_sync`. -/
def cancelDelayableSync (s : State) (w : WorkId) (sync : ℕ) (stopped : Bool) : Bool × State :=
  if (s.works w).busyGet ≠ 0 then
    (true, ((s.cancelDelayable w stopped).2.cancelSyncLocked w sync).2)
  else (false, s)

/-- `bt_work_flush_delayable`. -/
def flushDelayable (s : State) (self : ℕ) (w : WorkId) (sync : ℕ) (stopped : Bool) :
    Bool × State :=
  if (s.works w).busyGet = 0 then (false, s)
  else
    match s.unschedule w stopped with
    | (true, s) => (s.submitToQueue self w (s.works w).delayQueue).2.workFlush w sync
    | (false, s) => s.workFlush w sync

/-- `work_timeout`. -/
def workTimeout (s : State) (self : ℕ) (w : WorkId) : State :=
  if (s.works w).delayed then
    ((s.setWork w { s.works w with delayed := false }).submitToQueue self w
      (s.works w).delayQueue).2
  else s

/-! ## Queues -/

/-- `bt_work_queue_start`, which asserts that the queue is not started. -/
def queueStart (s : State) (q : ℕ) (noYield : Bool) : State :=
  if (s.queues q).started then s
  else s.setQueue q { pc := .boot, threadId := (s.queues q).threadId, started := true, noYield }

/-- `bt_work_queue_run` of the thread `self`. -/
def queueRun (s : State) (self q : ℕ) (noYield : Bool) : State :=
  if (s.queues q).started then s
  else s.setQueue q { pc := .boot, threadId := self, started := true, noYield }

/-- `bt_work_queue_drain`, until it waits: whether it has to. -/
def queueDrain (s : State) (q : ℕ) (plug : Bool) : Bool × State :=
  if (s.queues q).busy || (s.queues q).drain || plug || !(s.queues q).pending.isEmpty then
    (true, (s.setQueue q { s.queues q with
      drain := true, plugged := (s.queues q).plugged || plug }).notify q)
  else (false, s)

/-- `bt_work_queue_unplug`. -/
def queueUnplug (s : State) (q : ℕ) : Except Err Unit × State :=
  (if (s.queues q).plugged then .ok () else .error .already,
    s.setQueue q { s.queues q with plugged := false })

/-- `bt_work_queue_stop`, until it waits for the thread. -/
def queueStop (s : State) (q : ℕ) : Except Err Unit × State :=
  if !(s.queues q).started then (.error .already, s)
  else if !(s.queues q).plugged then (.error .busy, s)
  else (.ok (), (s.setQueue q { s.queues q with stop := true }).notify q)

/-- `bt_work_queue_stop` where the thread has not ended in time. -/
def queueStopTimedOut (s : State) (q : ℕ) : Except Err Unit × State :=
  (.error .timedout, s.setQueue q { s.queues q with stop := false })

/-! ## The thread of a queue -/

/-- The thread enters `work_queue_main`. -/
def enter (s : State) (self q : ℕ) : State :=
  if (s.queues q).pc = .boot then s.setQueue q { s.queues q with pc := .loop, threadId := self }
  else s

/-- The first section of the loop: an item is taken, or the thread goes on
to wait, or it ends. -/
def fetch (s : State) (q : ℕ) : State :=
  if (s.queues q).pc ≠ .loop then s
  else match (s.queues q).pending with
    | w :: rest =>
      (s.setQueue q { s.queues q with pending := rest, busy := true, pc := .handler w }).setWork w
        { s.works w with running := true, queued := false }
    | [] =>
      if (s.queues q).drain then
        s.setQueue q { s.queues q with
          drain := false, drainq := semGive (s.queues q).drainq, pc := .waiting }
      else if (s.queues q).stop then
        s.setQueue q { s.queues q with
          pc := .off, started := false, busy := false, drain := false, plugged := false
          stop := false, noYield := false }
      else s.setQueue q { s.queues q with pc := .waiting }

/-- The thread gets past `os_sem_take` of `notifyq`. -/
def take (s : State) (q : ℕ) : State :=
  if (s.queues q).pc = .waiting ∧ 0 < (s.queues q).notifyq then
    s.setQueue q { s.queues q with pc := .loop, notifyq := (s.queues q).notifyq - 1 }
  else s

/-- `os_sem_give` of the semaphore of a `struct bt_work_sync`. -/
def giveSync (s : State) (sync : ℕ) : State :=
  { s with sems := update s.sems sync (semGive (s.sems sync)) }

/-- `finalize_flush_locked`. -/
def finalizeFlush (s : State) (w : WorkId) : State :=
  let s := s.setWork w { s.works w with flushing := false }
  match w with
  | .flusher sync => s.giveSync sync
  | .item _ => s

/-- `finalize_cancel_locked`. -/
def finalizeCancel (s : State) (w : WorkId) : State :=
  let s := s.setWork w { s.works w with canceling := false }
  match s.pendingCancels.find? (·.2 = w) with
  | some (sync, v) => { s with pendingCancels := s.pendingCancels.erase (sync, v) }.giveSync sync
  | none => s

/-- The last section of the loop, after the handler of an item. -/
def finish (s : State) (q : ℕ) : State :=
  match (s.queues q).pc with
  | .handler w =>
    let s := s.setWork w { s.works w with running := false }
    let s :=
      if (s.works w).flushing then s.finalizeFlush w
      else if (s.works w).canceling then s.finalizeCancel w
      else s
    s.setQueue q { s.queues q with pc := .loop, busy := false }
  | _ => s

end State

/-! ## Runs -/

/-- What a thread does. Threads may call for any item and for any queue;
`self` is the thread where it matters. -/
inductive Event
  /-- `bt_work_init`. -/
  | init (n : ℕ)
  /-- `bt_work_init_delayable`. -/
  | initDelayable (n : ℕ)
  | submit (self : ℕ) (queue : Option ℕ) (n : ℕ)
  | flush (n sync : ℕ)
  | cancel (n : ℕ)
  | cancelSync (n sync : ℕ)
  | schedule (self q n : ℕ) (noWait : Bool)
  | reschedule (self q n : ℕ) (noWait stopped : Bool)
  | cancelDelayable (n : ℕ) (stopped : Bool)
  | cancelDelayableSync (n sync : ℕ) (stopped : Bool)
  | flushDelayable (self n sync : ℕ) (stopped : Bool)
  | workTimeout (self n : ℕ)
  | start (q : ℕ) (noYield : Bool)
  | run (self q : ℕ) (noYield : Bool)
  | drain (q : ℕ) (plug : Bool)
  /-- A thread gets past `os_sem_take` of `drainq`. -/
  | drained (q : ℕ)
  | unplug (q : ℕ)
  | stop (q : ℕ)
  | stopTimedOut (q : ℕ)
  | enter (self q : ℕ)
  | fetch (q : ℕ)
  | take (q : ℕ)
  | finish (q : ℕ)
  /-- A thread gets past `os_sem_take` of the semaphore of its sync. -/
  | synced (sync : ℕ)
  deriving DecidableEq, Repr

/-- One step. -/
def State.step (s : State) : Event → State
  | .init n => s.setWork (.item n) {}
  | .initDelayable n => s.setWork (.item n) { delayable := true }
  | .submit self queue n => (s.submitToQueue self (.item n) queue).2
  | .flush n sync => (s.flush (.item n) sync).2
  | .cancel n => (s.cancel (.item n)).2
  | .cancelSync n sync => (s.cancelSync (.item n) sync).2
  | .schedule self q n noWait => (s.schedule self (.item n) q noWait).2
  | .reschedule self q n noWait stopped => (s.reschedule self (.item n) q noWait stopped).2
  | .cancelDelayable n stopped => (s.cancelDelayable (.item n) stopped).2
  | .cancelDelayableSync n sync stopped => (s.cancelDelayableSync (.item n) sync stopped).2
  | .flushDelayable self n sync stopped => (s.flushDelayable self (.item n) sync stopped).2
  | .workTimeout self n => s.workTimeout self (.item n)
  | .start q noYield => s.queueStart q noYield
  | .run self q noYield => s.queueRun self q noYield
  | .drain q plug => (s.queueDrain q plug).2
  | .drained q => s.setQueue q { s.queues q with drainq := (s.queues q).drainq - 1 }
  | .unplug q => (s.queueUnplug q).2
  | .stop q => (s.queueStop q).2
  | .stopTimedOut q => (s.queueStopTimedOut q).2
  | .enter self q => s.enter self q
  | .fetch q => s.fetch q
  | .take q => s.take q
  | .finish q => s.finish q
  | .synced sync => { s with sems := update s.sems sync (s.sems sync - 1) }

/-- A `struct bt_work_sync` that no call uses. -/
def State.SyncFree (s : State) (sync : ℕ) : Prop :=
  (s.works (.flusher sync)).flushing = false ∧ ∀ p ∈ s.pendingCancels, p.1 ≠ sync

/-- **What the callers of a function promise**: nothing is initialised while
it is busy, neither an item nor a `struct bt_work_sync`, which a call does
with the one it is given; and an item is delayable where a function wants
a `struct bt_work_delayable`. -/
def State.Proper (s : State) : Event → Prop
  | .init n | .initDelayable n => (s.works (.item n)).busyGet = 0
  | .flush _ sync | .cancelSync _ sync => s.SyncFree sync
  | .cancelDelayableSync n sync _ | .flushDelayable _ n sync _ =>
    (s.works (.item n)).delayable = true ∧ s.SyncFree sync
  | .schedule _ _ n _ | .reschedule _ _ n _ _ | .cancelDelayable n _ =>
    (s.works (.item n)).delayable = true
  | _ => True

instance (s : State) (sync : ℕ) : Decidable (s.SyncFree sync) :=
  inferInstanceAs (Decidable (_ ∧ _))

instance (s : State) : (e : Event) → Decidable (s.Proper e)
  | .init _ | .initDelayable _ => inferInstanceAs (Decidable (_ = _))
  | .flush _ sync | .cancelSync _ sync => inferInstanceAs (Decidable (s.SyncFree sync))
  | .cancelDelayableSync _ sync _ | .flushDelayable _ _ sync _ =>
    inferInstanceAs (Decidable (_ = true ∧ s.SyncFree sync))
  | .schedule .. | .reschedule .. | .cancelDelayable .. => inferInstanceAs (Decidable (_ = true))
  | .submit .. | .cancel _ | .workTimeout .. | .start .. | .run .. | .drain .. | .drained _ |
    .unplug _ | .stop _ | .stopTimedOut _ | .enter .. | .fetch _ | .take _ | .finish _ |
    .synced _ => .isTrue trivial

end Base

end OpenBlue

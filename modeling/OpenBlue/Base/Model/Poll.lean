import OpenBlue.Base.Model.MemPool
/-!
# Base — polling

The model of `bt_poll.c`. What a thread does while it holds the mutex is
one step, with one exception: a thread goes into `os_sem_take` of its
poller with the mutex held. A thread polls an array of its own, whose
events it may initialise while it is in no call; its poller is known by
the thread.
-/

namespace OpenBlue

namespace Base

namespace Poll

open Function

/-- `event->type`, with the object. Of any other type, `bt_poll` fails an
assertion. -/
inductive Kind
  | ignore
  | signal (sig : ℕ)
  | dataAvailable (queue : ℕ)
  deriving DecidableEq, Repr

/-- An object with a list `poll_events`. -/
inductive Obj
  | signal (sig : ℕ)
  | queue (queue : ℕ)
  deriving DecidableEq, Repr

def Kind.obj : Kind → Option Obj
  | .ignore => none
  | .signal sig => some (.signal sig)
  | .dataAvailable queue => some (.queue queue)

/-- `BT_POLL_STATE_SIGNALED`. -/
def stateSignaled : BitVec 32 := 1#32

/-- `BT_POLL_STATE_DATA_AVAILABLE`. -/
def stateDataAvailable : BitVec 32 := 4#32

/-- `BT_POLL_STATE_CANCELLED`. -/
def stateCancelled : BitVec 32 := 8#32

/-- `struct bt_poll_event`; of `_node`, the lists say where it is. -/
structure PollEvent where
  kind : Kind := .ignore
  state : BitVec 7 := 0
  poller : Option ℕ := none
  deriving DecidableEq, Repr

/-- `struct bt_poll_signal`. -/
structure Signal where
  signaled : Bool := false
  result : ℤ := 0
  deriving DecidableEq, Repr

/-- What `bt_poll` returns: 0, or `-ETIMEDOUT`. -/
inductive Ret
  | zero
  | timedout
  deriving DecidableEq, Repr

/-- Where a thread is. -/
inductive Pc
  /-- In no call. -/
  | idle
  /-- In the loop of `register_events`, or past it. -/
  | registering
  /-- In `os_sem_take` of its poller, with the mutex held. -/
  | taking
  /-- It has released the mutex, and is to take it to clear its events. -/
  | clearing (ret : Ret)
  deriving DecidableEq, Repr

/-- A call of `bt_poll`, with its `struct bt_poller`. -/
structure Call where
  pc : Pc := .idle
  numEvents : ℕ := 0
  timeout : Timeout := .noWait
  ii : ℕ := 0
  eventsRegistered : ℕ := 0
  isPolling : Bool := false
  sem : ℕ := 0
  deriving DecidableEq, Repr

/-- The mutex, the threads and the objects. `events (t, i)` is the entry
`i` of the array of the thread `t`. -/
structure State where
  lock : Option ℕ := none
  calls : ℕ → Call := fun _ => {}
  events : ℕ × ℕ → PollEvent := fun _ => {}
  lists : Obj → List (ℕ × ℕ) := fun _ => []
  signals : ℕ → Signal := fun _ => {}
  /-- `bt_queue_is_empty`. -/
  empty : ℕ → Bool := fun _ => true

/-- What a run shows. -/
inductive Out
  /-- `bt_poll` is called. -/
  | called (t : ℕ)
  /-- `register_events` registers an entry. -/
  | registered (t i : ℕ)
  /-- `bt_poll` returns, with its array as it leaves it. -/
  | returned (t : ℕ) (ret : Ret) (events : List PollEvent)
  /-- A signal is raised. -/
  | raised (sig : ℕ)
  deriving DecidableEq, Repr

/-- `event_match`. -/
def eventMatch (kind : Kind) (state : BitVec 32) : Bool :=
  match kind with
  | .signal _ => state = stateSignaled
  | .dataAvailable _ => state = stateDataAvailable
  | .ignore => false

namespace State

def setCall (s : State) (t : ℕ) (c : Call) : State :=
  { s with calls := update s.calls t c }

def setEvent (s : State) (e : ℕ × ℕ) (v : PollEvent) : State :=
  { s with events := update s.events e v }

def setList (s : State) (o : Obj) (l : List (ℕ × ℕ)) : State :=
  { s with lists := update s.lists o l }

def setSignal (s : State) (sig : ℕ) (v : Signal) : State :=
  { s with signals := update s.signals sig v }

/-- `is_condition_met`: the state to be set, if it is. -/
def isConditionMet (s : State) (e : ℕ × ℕ) : Option (BitVec 32) :=
  match (s.events e).kind with
  | .dataAvailable queue => if s.empty queue then none else some stateDataAvailable
  | .signal sig => if (s.signals sig).signaled then some stateSignaled else none
  | .ignore => none

/-- `register_event`. -/
def registerEvent (s : State) (e : ℕ × ℕ) (poller : ℕ) : State :=
  let s' := match (s.events e).kind.obj with
    | some o => s.setList o (s.lists o ++ [e])
    | none => s
  s'.setEvent e { s.events e with poller }

/-- `clear_event_registration`. -/
def clearEventRegistration (s : State) (e : ℕ × ℕ) : State :=
  let s' := s.setEvent e { s.events e with poller := none }
  match (s.events e).kind.obj with
  | some o => s'.setList o ((s.lists o).erase e)
  | none => s'

/-- `clear_event_registrations`, of the first `n` entries. -/
def clearEventRegistrations (s : State) (t : ℕ) : ℕ → State
  | 0 => s
  | n + 1 => (s.clearEventRegistration (t, n)).clearEventRegistrations t n

/-- `set_event_ready`. -/
def setEventReady (s : State) (e : ℕ × ℕ) (state : BitVec 32) : State :=
  let s' := s.setEvent e { s.events e with
    poller := none, state := (s.events e).state ||| state.setWidth 7 }
  match (s.events e).kind with
  | .signal sig => s'.setSignal sig { s.signals sig with signaled := false }
  | _ => s'

/-- The body of the loop of `register_events`. -/
def registerEvents (s : State) (t : ℕ) : State × List Out :=
  let c := s.calls t
  match s.isConditionMet (t, c.ii) with
  | some state =>
    ((s.setEventReady (t, c.ii) state).setCall t { c with ii := c.ii + 1, isPolling := false }, [])
  | none =>
    if c.timeout ≠ .noWait ∧ c.isPolling then
      ((s.registerEvent (t, c.ii) t).setCall t
        { c with ii := c.ii + 1, eventsRegistered := c.eventsRegistered + 1 },
        [.registered t c.ii])
    else (s.setCall t { c with ii := c.ii + 1 }, [])

/-- `signal_poller`, of an event of the thread `t`. -/
def signalPoller (s : State) (e : ℕ × ℕ) (t : ℕ) (state : BitVec 32) : State :=
  if state = stateCancelled ∨ eventMatch (s.events e).kind state then
    (s.setEventReady e state).setCall t { s.calls t with sem := semGive (s.calls t).sem }
  else s

/-- `signal_poll_event`. -/
def signalPollEvent (s : State) (e : ℕ × ℕ) (state : BitVec 32) : State :=
  match (s.events e).poller with
  | some t =>
    let s' := s.signalPoller e t state
    s'.setCall t { s'.calls t with isPolling := false }
  | none => s

/-- `bt_poll_handle_obj_events`. -/
def handleObjEvents (s : State) (o : Obj) (state : BitVec 32) : State :=
  match s.lists o with
  | [] => s
  | e :: rest => (s.setList o rest).signalPollEvent e state

/-- `bt_poll_signal_raise`. -/
def signalRaise (s : State) (sig : ℕ) (result : ℤ) : State :=
  (s.setSignal sig { signaled := true, result }).handleObjEvents (.signal sig) stateSignaled

/-- The array of a thread. -/
def array (s : State) (t : ℕ) : List PollEvent :=
  (List.range (s.calls t).numEvents).map fun i => s.events (t, i)

/-- `bt_poll` returns. -/
def ret (s : State) (t : ℕ) (ret : Ret) : State × List Out :=
  (s.setCall t { s.calls t with pc := .idle }, [.returned t ret (s.array t)])

/-- `bt_poll` of the thread `t`, up to its first section. -/
def poll (s : State) (t numEvents : ℕ) (timeout : Timeout) : State × List Out :=
  (s.setCall t { pc := .registering, numEvents, timeout, isPolling := true }, [.called t])

/-- `bt_poll` after `register_events`, as far as `os_sem_take`. -/
def check (s : State) (t : ℕ) : State × List Out :=
  let c := s.calls t
  if !c.isPolling then (s.clearEventRegistrations t c.eventsRegistered).ret t .zero
  else if c.timeout = .noWait then (s.setCall t { c with isPolling := false }).ret t .zero
  else ({ s.setCall t { c with isPolling := false, pc := .taking } with lock := t }, [])

/-- `os_sem_take` of the poller returns, and the mutex is released. -/
def leave (s : State) (t : ℕ) (ret : Ret) : State :=
  { s.setCall t { s.calls t with
      pc := .clearing ret
      sem := (s.calls t).sem - (if ret = .zero then 1 else 0) } with lock := none }

/-- The last section of `bt_poll`. -/
def clear (s : State) (t : ℕ) (ret : Ret) : State × List Out :=
  (s.clearEventRegistrations t (s.calls t).eventsRegistered).ret t ret

end State

/-! ## Runs -/

/-- What a thread does, or a queue. -/
inductive Event
  /-- `bt_poll_event_init`, of an entry of the thread's array. -/
  | init (t i : ℕ) (kind : Kind)
  | poll (t numEvents : ℕ) (timeout : Timeout)
  | register (t : ℕ)
  | check (t : ℕ)
  /-- `os_sem_take` succeeds. -/
  | taken (t : ℕ)
  /-- `os_sem_take` times out. -/
  | expired (t : ℕ)
  | clear (t : ℕ)
  | raise (sig : ℕ) (result : ℤ)
  | handle (o : Obj) (state : BitVec 32)
  /-- A queue gets empty, or it no longer is. -/
  | queue (q : ℕ) (empty : Bool)
  deriving DecidableEq, Repr

/-- One step, with what it shows. A section takes place once the mutex is
free. -/
def State.act (s : State) : Event → State × List Out
  | .init t i kind =>
    if (s.calls t).pc = .idle then
      (s.setEvent (t, i) { s.events (t, i) with kind, state := 0 }, [])
    else (s, [])
  | .poll t numEvents timeout =>
    if (s.calls t).pc = .idle then s.poll t numEvents timeout else (s, [])
  | .register t =>
    if s.lock = none ∧ (s.calls t).pc = .registering ∧ (s.calls t).ii < (s.calls t).numEvents then
      s.registerEvents t
    else (s, [])
  | .check t =>
    if s.lock = none ∧ (s.calls t).pc = .registering ∧ (s.calls t).numEvents ≤ (s.calls t).ii then
      s.check t
    else (s, [])
  | .taken t =>
    if (s.calls t).pc = .taking ∧ 0 < (s.calls t).sem then (s.leave t .zero, []) else (s, [])
  | .expired t =>
    if (s.calls t).pc = .taking ∧ (s.calls t).timeout = .ms ∧ (s.calls t).sem = 0 then
      (s.leave t .timedout, [])
    else (s, [])
  | .clear t =>
    match (s.calls t).pc with
    | .clearing ret => if s.lock = none then s.clear t ret else (s, [])
    | _ => (s, [])
  | .raise sig result =>
    if s.lock = none then (s.signalRaise sig result, [.raised sig]) else (s, [])
  | .handle o state => if s.lock = none then (s.handleObjEvents o state, []) else (s, [])
  | .queue q empty => ({ s with empty := update s.empty q empty }, [])

def State.step (s : State) (e : Event) : State := (s.act e).1

def State.emit (s : State) (e : Event) : List Out := (s.act e).2

/-- No thread is in a call, no signal is set and all queues are empty. -/
def start : State := {}

end Poll

end Base

end OpenBlue

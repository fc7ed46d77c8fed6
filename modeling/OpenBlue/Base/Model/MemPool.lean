import OpenBlue.Common.Run
import OpenBlue.Base.Model.Work
/-!
# Base — memory pools

The model of `bt_mem_pool.c`. One mutex serves all pools, and what a
thread does while it holds it is one step, with one exception: a thread
that finds its pool empty goes into `os_sem_take` with the mutex held. A
block is known by its number; its first word is the link of the free list.
-/

namespace OpenBlue

namespace Base

open Function

/-- `os_timeout_t`: a negative one is taken for `OS_TIMEOUT_FOREVER`. -/
inductive Timeout
  | noWait
  | ms
  | forever
  deriving DecidableEq, Repr

namespace MemPool

/-- `struct bt_mem_pool`; of the semaphore, the count, whose limit is 1. -/
structure Pool where
  wait : ℕ := 0
  freeList : Option ℕ := none
  /-- The first word of each block. -/
  next : ℕ → Option ℕ := fun _ => none
  numUsed : UInt32 := 0

/-- The loop of `create_mem_pool_list`, from the last block down. -/
def createLoop : ℕ → Pool → Pool
  | 0, m => m
  | p + 1, m => createLoop p { m with next := update m.next p m.freeList, freeList := p }

/-- `create_mem_pool_list`, of a buffer that is aligned. -/
def createMemPoolList (numBlocks : ℕ) (m : Pool) : Pool :=
  createLoop numBlocks { m with wait := 0, freeList := none }

/-- The head of the free list is taken. -/
def Pool.pop (m : Pool) : Option (ℕ × Pool) :=
  m.freeList.map fun b => (b, { m with freeList := m.next b, numUsed := m.numUsed + 1 })

/-- A block is put back, and `os_sem_give` of `wait`. -/
def Pool.push (m : Pool) (mem : ℕ) : Pool :=
  { m with
    next := update m.next mem m.freeList
    freeList := mem
    numUsed := m.numUsed - 1
    wait := semGive m.wait }

/-- Where a thread is. -/
inductive Pc
  | ready
  /-- In `os_sem_take` of the pool's `wait`, with the mutex held. -/
  | taking (p : ℕ) (timeout : Timeout)
  /-- At the assertion of `bt_mem_pool_alloc`, which fails. -/
  | failed (p : ℕ)
  deriving DecidableEq, Repr

/-- The mutex, the pools and the threads. -/
structure State where
  lock : Option ℕ := none
  pools : ℕ → Pool := fun _ => {}
  pcs : ℕ → Pc := fun _ => .ready

/-- The errors of `bt_mem_pool_alloc`. -/
inductive Err
  | nomem
  | timedout
  deriving DecidableEq, Repr

namespace State

def setPool (s : State) (p : ℕ) (m : Pool) : State :=
  { s with pools := update s.pools p m }

def setPc (s : State) (t : ℕ) (pc : Pc) : State :=
  { s with pcs := update s.pcs t pc }

/-- The thread returns from its call, and releases the mutex. -/
def unlock (s : State) (t : ℕ) : State := { s.setPc t .ready with lock := none }

/-- `bt_mem_pool_alloc` of the thread `t`, from the mutex on: what it
returns, unless it goes on to wait. -/
def alloc (s : State) (t p : ℕ) (timeout : Timeout) : Option (Except Err ℕ) × State :=
  match (s.pools p).pop with
  | some (b, m) => (some (.ok b), s.setPool p m)
  | none =>
    if timeout = .noWait then (some (.error .nomem), s)
    else (none, { s.setPc t (.taking p timeout) with lock := t })

/-- The rest of `bt_mem_pool_alloc`, where `os_sem_take` succeeds. -/
def taken (s : State) (t p : ℕ) : Option (Except Err ℕ) × State :=
  let m := { s.pools p with wait := (s.pools p).wait - 1 }
  match m.pop with
  | some (b, m) => (some (.ok b), (s.setPool p m).unlock t)
  | none => (none, (s.setPool p m).setPc t (.failed p))

/-- The rest of `bt_mem_pool_alloc`, where `os_sem_take` times out. -/
def expired (s : State) (t : ℕ) : Option (Except Err ℕ) × State :=
  (some (.error .timedout), s.unlock t)

/-- `bt_mem_pool_free`, from the mutex on. -/
def free (s : State) (p mem : ℕ) : State := s.setPool p ((s.pools p).push mem)

end State

/-! ## Runs -/

/-- What a thread does. -/
inductive Event
  | alloc (t p : ℕ) (timeout : Timeout)
  /-- `os_sem_take` succeeds. -/
  | taken (t : ℕ)
  /-- `os_sem_take` times out. -/
  | expired (t : ℕ)
  | free (p mem : ℕ)
  deriving DecidableEq, Repr

/-- One step. A call takes place once the mutex is free; `os_sem_take`
succeeds as long as there is a token, and times out only where there is
none. -/
def State.step (s : State) : Event → State
  | .alloc t p timeout =>
    if s.lock = none ∧ s.pcs t = .ready then (s.alloc t p timeout).2 else s
  | .taken t =>
    match s.pcs t with
    | .taking p _ => if 0 < (s.pools p).wait then (s.taken t p).2 else s
    | _ => s
  | .expired t =>
    match s.pcs t with
    | .taking p .ms => if (s.pools p).wait = 0 then (s.expired t).2 else s
    | _ => s
  | .free p mem => if s.lock = none then s.free p mem else s

/-- The pools as `create_mem_pool_list` leaves them, each with its number
of blocks: `bt_mem_pool_init` calls it, and `mem_pool_list_init` for what
`STRUCT_SECTION_FOREACH` finds, nothing with the definition in `utils.h`. -/
def start (numBlocks : ℕ → ℕ) : State :=
  { pools := fun p => createMemPoolList (numBlocks p) {} }

end MemPool

end Base

end OpenBlue

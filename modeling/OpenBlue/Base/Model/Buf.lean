import Mathlib.Algebra.Order.Ring.Int
import Mathlib.Data.List.Basic
/-!
# Base — buffers

The model of `bt_buf.c` for one pool with data of fixed size and no
destroy callback: the counter of buffers never used, the free queue, the
reference counts and the links of fragments. A buffer is its number in the
pool. The functions are called one after the other; a caller that waits
for a buffer is taken to call when there is one.
-/

namespace OpenBlue

namespace Base

open Function

/-- Where the data of a buffer is (`__buf`, other than NULL): at an offset
in the data of the pool, or at an address that the caller gave. -/
inductive Store
  | pool (offset : ℕ)
  | given (addr : ℕ)
  deriving DecidableEq, Repr

/-- `struct bt_buf`. The pointer `data` is the headroom, and `len` the
length of the bytes. -/
structure Buf where
  frags : Option ℕ := none
  ref : ℕ := 0
  /-- `BT_BUF_EXTERNAL_DATA`, the only flag. -/
  external : Bool := false
  store : Option Store := none
  size : ℕ := 0
  headroom : ℕ := 0
  bytes : List UInt8 := []
  userData : List UInt8 := []
  deriving DecidableEq, Repr

/-- `struct bt_buf_pool`. What memory holds before a buffer is first used
is arbitrary. -/
structure Pool where
  bufCount : ℕ
  uninitCount : ℕ
  userDataSize : ℕ
  /-- `alloc->max_alloc_size`. -/
  maxAllocSize : ℕ
  /-- The queue `free`. -/
  free : List ℕ
  bufs : ℕ → Buf

/-- `BT_BUF_POOL_FIXED_DEFINE`. -/
def poolInit (bufCount dataSize userDataSize : ℕ) (memory : ℕ → Buf) : Pool where
  bufCount := bufCount
  uninitCount := bufCount
  userDataSize := userDataSize
  maxAllocSize := dataSize
  free := []
  bufs := memory

namespace Pool

variable (p : Pool)

/-- A buffer written. -/
def set (b : ℕ) (buf : Buf) : Pool := { p with bufs := update p.bufs b buf }

/-- `b->frags = o`. -/
def setFrags (b : ℕ) (o : Option ℕ) : Pool := p.set b { p.bufs b with frags := o }

/-- `fixed_data_alloc`: where the data of a buffer is, and its size. It
does not fail. -/
def fixedDataAlloc (b : ℕ) : Option (Store × ℕ) :=
  some (.pool (p.maxAllocSize * b), p.maxAllocSize)

/-- `bt_buf_destroy`. There is nothing to do for data of a fixed size. -/
def destroy (b : ℕ) : Pool :=
  { p.set b { p.bufs b with store := none } with free := b :: p.free }

/-- The buffer `bt_buf_alloc_len` takes, before it has data: a used one
where the queue has one, else one never used. -/
def getBuf : Option (ℕ × Pool) :=
  if 0 < p.uninitCount then
    -- Not on the first access, when the queue is empty anyway.
    match if p.uninitCount < p.bufCount then p.free else [] with
    | b :: rest => some (b, { p with free := rest })
    | [] => some (p.bufCount - p.uninitCount, { p with uninitCount := p.uninitCount - 1 })
  else
    match p.free with
    | b :: rest => some (b, { p with free := rest })
    | [] => none

/-- The data `bt_buf_alloc_len` gets for a buffer, none where the size
asked for is 0. -/
def dataAlloc (b size : ℕ) : Option (Option Store × ℕ) :=
  if size ≠ 0 then (p.fixedDataAlloc b).map fun (store, size) => (some store, size)
  else some (none, 0)

/-- `bt_buf_alloc_len`. -/
def allocLen (size : ℕ) : Pool × Option ℕ :=
  match p.getBuf with
  | none => (p, none)
  | some (b, p) =>
    match p.dataAlloc b size with
    | none => (p.destroy b, none)
    | some (store, size) =>
      (p.set b
        { frags := none
          ref := 1
          external := false
          store := store
          size := size % 2 ^ 16
          headroom := 0
          bytes := []
          userData := List.replicate p.userDataSize 0 }, some b)

/-- `bt_buf_alloc_with_data`. -/
def allocWithData (addr : ℕ) (data : List UInt8) : Pool × Option ℕ :=
  match p.allocLen 0 with
  | (p, none) => (p, none)
  | (p, some b) =>
    (p.set b
      { p.bufs b with
        external := true
        store := some (.given addr)
        size := data.length % 2 ^ 16
        bytes := data.take (data.length % 2 ^ 16) }, some b)

/-- `bt_buf_ref`, with its counter of eight bits. -/
def ref (b : ℕ) : Pool := p.set b { p.bufs b with ref := ((p.bufs b).ref + 1) % 2 ^ 8 }

/-- `bt_buf_clone`. A pool with data of fixed size has no `cb->ref`, so the
data is copied. -/
def clone (b : ℕ) : Pool × Option ℕ :=
  let buf := p.bufs b
  match p.allocLen 0 with
  | (p, none) => (p, none)
  | (p, some c) =>
    match p.fixedDataAlloc c with
    | none => (p.destroy c, none)
    | some (store, size) =>
      if size < buf.size then ((p.set c { p.bufs c with store := some store }).destroy c, none)
      else
        (p.set c
          { p.bufs c with
            store := some store
            size := size % 2 ^ 16
            headroom := buf.headroom
            bytes := buf.bytes
            userData := buf.userData }, some c)

/-- The loop of `bt_buf_unref`. -/
def unrefLoop : ℕ → Pool → Option ℕ → Pool
  | 0, p, _ => p
  | _ + 1, p, none => p
  | fuel + 1, p, some b =>
    let buf := p.bufs b
    -- double free
    if buf.ref = 0 then p
    else if 1 < buf.ref then p.set b { buf with ref := buf.ref - 1 }
    else unrefLoop fuel ((p.set b { buf with ref := 0, frags := none }).destroy b) buf.frags

/-- `bt_buf_unref`. A round that goes on has taken a buffer's last
reference. -/
def unref (b : ℕ) : Pool := unrefLoop (p.bufCount + 1) p (some b)

/-- The loop of `bt_buf_frag_last`. -/
def fragLastLoop : ℕ → ℕ → ℕ
  | 0, b => b
  | fuel + 1, b =>
    match (p.bufs b).frags with
    | none => b
    | some f => fragLastLoop fuel f

/-- `bt_buf_frag_last`. A chain is no longer than the pool. -/
def fragLast (b : ℕ) : ℕ := p.fragLastLoop p.bufCount b

/-- `bt_buf_frag_insert`. -/
def fragInsert (parent frag : ℕ) : Pool :=
  let p :=
    match (p.bufs parent).frags with
    | some rest => p.setFrags (p.fragLast frag) (some rest)
    | none => p
  p.setFrags parent (some frag)

/-- `bt_buf_frag_add`, and the head it returns. -/
def fragAdd (head : Option ℕ) (frag : ℕ) : Pool × ℕ :=
  match head with
  | none => (p.ref frag, frag)
  | some head => (p.fragInsert (p.fragLast head) frag, head)

/-- `bt_buf_frag_del`, and the fragment behind the one deleted. -/
def fragDel (parent : Option ℕ) (frag : ℕ) : Pool × Option ℕ :=
  let p :=
    match parent with
    | some parent => p.setFrags parent (p.bufs frag).frags
    | none => p
  let next := (p.bufs frag).frags
  ((p.setFrags frag none).unref frag, next)

/-! ## States of a buffer -/

/-- A buffer that was never used. -/
def Uninit (b : ℕ) : Prop := p.bufCount - p.uninitCount ≤ b ∧ b < p.bufCount

/-- A buffer that is in use: one that was taken, and is not back in the
queue. -/
def Live (b : ℕ) : Prop := b < p.bufCount - p.uninitCount ∧ b ∉ p.free

instance (b : ℕ) : Decidable (p.Uninit b) := inferInstanceAs (Decidable (_ ∧ _))

instance (b : ℕ) : Decidable (p.Live b) := inferInstanceAs (Decidable (_ ∧ _))

/-- The link from a buffer in use to its next fragment. -/
def link (b : ℕ) : Option ℕ := if p.Live b then (p.bufs b).frags else none

end Pool

/-! ## Runs -/

/-- A pool and its users: how many references to each buffer they hold,
beside those that fragments hold. -/
structure Users where
  pool : Pool
  held : ℕ → ℕ

/-- The calls of the users. -/
inductive BufOp
  | allocLen (size : ℕ)
  | allocWithData (addr : ℕ) (data : List UInt8)
  | clone (buf : ℕ)
  | ref (buf : ℕ)
  | unref (buf : ℕ)
  | fragInsert (parent frag : ℕ)
  | fragAdd (head : Option ℕ) (frag : ℕ)
  | fragDel (parent : Option ℕ) (frag : ℕ)
  deriving DecidableEq, Repr

/-- One more reference held. -/
def gain (held : ℕ → ℕ) (b : ℕ) : ℕ → ℕ := update held b (held b + 1)

/-- One reference less. -/
def lose (held : ℕ → ℕ) (b : ℕ) : ℕ → ℕ := update held b (held b - 1)

/-- A returned reference, where there is one. -/
def gainOpt (held : ℕ → ℕ) : Option ℕ → ℕ → ℕ
  | some b => gain held b
  | none => held

/-- What a call does to the pool, and to the references of the users by
its documentation: a buffer that is allocated comes with one; inserting a
fragment hands the fragment's over; deleting a fragment without a parent
takes the fragment's and gives the next one's. -/
def Users.step (u : Users) : BufOp → Users
  | .allocLen size => ⟨(u.pool.allocLen size).1, gainOpt u.held (u.pool.allocLen size).2⟩
  | .allocWithData addr data =>
    ⟨(u.pool.allocWithData addr data).1, gainOpt u.held (u.pool.allocWithData addr data).2⟩
  | .clone buf => ⟨(u.pool.clone buf).1, gainOpt u.held (u.pool.clone buf).2⟩
  | .ref buf => ⟨u.pool.ref buf, gain u.held buf⟩
  | .unref buf => ⟨u.pool.unref buf, lose u.held buf⟩
  | .fragInsert parent frag => ⟨u.pool.fragInsert parent frag, lose u.held frag⟩
  | .fragAdd none frag => ⟨(u.pool.fragAdd none frag).1, gain u.held frag⟩
  | .fragAdd (some head) frag => ⟨(u.pool.fragAdd (some head) frag).1, lose u.held frag⟩
  | .fragDel (some parent) frag => ⟨(u.pool.fragDel (some parent) frag).1, u.held⟩
  | .fragDel none frag =>
    ⟨(u.pool.fragDel none frag).1, lose (gainOpt u.held (u.pool.fragDel none frag).2) frag⟩

/-- The calls the documentation allows: on buffers in use, handing over
references that are held, at most 255 to a buffer, and never a fragment
into its own chain. -/
def Users.Permits (u : Users) : BufOp → Prop
  | .allocLen _ => True
  | .allocWithData _ _ => True
  | .clone buf => u.pool.Live buf
  | .ref buf => u.pool.Live buf ∧ (u.pool.bufs buf).ref < 255
  | .unref buf => 0 < u.held buf
  | .fragInsert parent frag =>
    u.pool.Live parent ∧ 0 < u.held frag ∧ u.pool.fragLast parent ≠ u.pool.fragLast frag
  | .fragAdd none frag => u.pool.Live frag ∧ (u.pool.bufs frag).ref < 255
  | .fragAdd (some head) frag =>
    u.pool.Live head ∧ 0 < u.held frag ∧ u.pool.fragLast head ≠ u.pool.fragLast frag
  | .fragDel (some parent) frag => u.pool.Live parent ∧ (u.pool.bufs parent).frags = some frag
  | .fragDel none frag => 0 < u.held frag

instance (u : Users) : DecidablePred u.Permits
  | .allocLen _ | .allocWithData .. => .isTrue trivial
  | .clone _ => inferInstanceAs (Decidable (Pool.Live _ _))
  | .ref _ | .fragAdd none _ | .fragDel (some _) _ => inferInstanceAs (Decidable (_ ∧ _))
  | .unref _ | .fragDel none _ => inferInstanceAs (Decidable (_ < _))
  | .fragInsert .. | .fragAdd (some _) _ => inferInstanceAs (Decidable (_ ∧ _ ∧ _))

/-- A sequence of calls that the documentation allows, each where it is
made. -/
def Users.Allowed (u : Users) : List BufOp → Prop
  | [] => True
  | op :: ops => u.Permits op ∧ (u.step op).Allowed ops

instance Users.decAllowed : (u : Users) → (ops : List BufOp) → Decidable (u.Allowed ops)
  | _, [] => inferInstanceAs (Decidable True)
  | u, op :: ops =>
    have := Users.decAllowed (u.step op) ops
    inferInstanceAs (Decidable (u.Permits op ∧ (u.step op).Allowed ops))

/-- The calls one after the other. -/
def Users.run (u : Users) (ops : List BufOp) : Users := ops.foldl Users.step u

/-- The users before the first call. -/
def usersInit (p : Pool) : Users := ⟨p, fun _ => 0⟩

end Base

end OpenBlue

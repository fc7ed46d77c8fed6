import Mathlib.Algebra.Order.Ring.Int
import Mathlib.Data.List.Basic
/-!
# Host — the key pool

The model of `keys.c` and of what SMP does to the pool when it learns an
identity address: lookup and creation with the eviction of the oldest
entry (`CONFIG_BT_KEYS_OVERWRITE_OLDEST`), the aging counters, loading
from storage, and the pointers `conn->le.keys` into the pool. Flash and
the controller's resolving list are left out; of the latter the bit
`BT_KEYS_ID_ADDED` is kept, which a later lookup reads.
-/

namespace OpenBlue

namespace Host

/-! ## Addresses -/

/-- `bt_addr_le_t`: the type and the six bytes as a number. -/
structure Addr where
  type : Nat
  val : Nat
  deriving DecidableEq, Repr, Inhabited

/-- `BT_ADDR_LE_ANY`. -/
def Addr.any : Addr := ⟨0, 0⟩

/-- The two top bits of the address. -/
def Addr.top (a : Addr) : Nat := a.val >>> 46 &&& 3

/-- `bt_addr_le_is_rpa`. -/
def Addr.isRpa (a : Addr) : Bool := a.type == 1 && a.top == 1

/-- `bt_addr_le_is_identity`. -/
def Addr.isIdentity (a : Addr) : Bool := a.type == 0 || a.top == 3

/-! ## Entries -/

/-- `enum bt_keys_type`. -/
inductive KeyType
  | periphLtk
  | irk
  | ltk
  | localCsrk
  | remoteCsrk
  | ltkP256
  deriving DecidableEq, Repr

/-- The part of an entry that is stored, from `storage_start` on. The
signing keys are left out. -/
structure KeyData where
  encSize : Nat := 0
  /-- `BT_KEYS_AUTHENTICATED`. -/
  authenticated : Bool := false
  /-- `BT_KEYS_DEBUG`. -/
  debug : Bool := false
  /-- `BT_KEYS_SC`. -/
  sc : Bool := false
  /-- `BT_KEYS_OOB`. -/
  oob : Bool := false
  /-- The types the entry holds. -/
  keys : List KeyType := []
  ltk : Nat := 0
  periphLtk : Nat := 0
  irk : Nat := 0
  deriving DecidableEq, Repr

/-- One entry (`struct bt_keys`); the address ANY marks it free. -/
structure Entry where
  id : Nat := 0
  addr : Addr := .any
  /-- `BT_KEYS_ID_ADDED` in `state`. -/
  added : Bool := false
  data : KeyData := {}
  aging : UInt32 := 0
  deriving DecidableEq, Repr

/-- The entry is free. -/
def Entry.free (e : Entry) : Bool := e.addr == .any

/-- The pool and the counters (`key_pool`, `aging_counter_val`,
`last_keys_updated`). -/
structure Pool where
  slots : List Entry
  agingCounter : UInt32 := 0
  lastUpdated : Option Nat := none
  deriving DecidableEq, Repr

/-- What the pool is used with of a connection (`struct bt_conn`). -/
structure Conn where
  id : Nat
  /-- `le.dst`. -/
  dst : Addr
  /-- The peer's address on air: `le.resp_addr` of a central, else
  `le.init_addr`. -/
  onAir : Addr
  /-- The state is `BT_CONN_CONNECTED`. -/
  connected : Bool := true
  /-- `le.keys`, the index of the entry. -/
  keys : Option Nat := none
  deriving DecidableEq, Repr

/-- The pool and the LE connections. -/
structure HostState where
  pool : Pool
  conns : List Conn
  deriving DecidableEq, Repr

/-- The build options. -/
structure KeysCfg where
  /-- `CONFIG_BT_KEYS_OVERWRITE_OLDEST`. -/
  overwriteOldest : Bool := true
  /-- `CONFIG_BT_ID_MAX`. -/
  idMax : Nat := 2
  /-- `CONFIG_BT_ID_UNPAIR_MATCHING_BONDS`. -/
  unpairMatching : Bool := true

/-- What a call did to an entry. -/
inductive KeyLog
  /-- The entry was given to a new peer. -/
  | created (i : Nat)
  /-- `bt_keys_update_usage` was called for its peer. -/
  | used (i : Nat)
  /-- It was read from storage with this aging counter. -/
  | loaded (i : Nat) (counter : UInt32)
  /-- It was evicted to make room. -/
  | evicted (i : Nat)
  deriving DecidableEq, Repr

/-- The state a call leaves, the entry it returns, and what it did. -/
structure KeyRet where
  s : HostState
  ret : Option Nat := none
  log : List KeyLog := []
  deriving DecidableEq, Repr

/-! ## Lookup -/

/-- `bt_keys_find_addr`. -/
def Pool.findAddr (p : Pool) (id : Nat) (addr : Addr) : Option Nat :=
  p.slots.findIdx? fun e => e.id == id && e.addr == addr

/-- `bt_keys_find`. -/
def Pool.find (p : Pool) (type : KeyType) (id : Nat) (addr : Addr) : Option Nat :=
  p.slots.findIdx? fun e => e.data.keys.contains type && e.id == id && e.addr == addr

/-- `bt_keys_find(BT_KEYS_ALL, ..)`. -/
def Pool.findAll (p : Pool) (id : Nat) (addr : Addr) : Option Nat :=
  p.slots.findIdx? fun e => !e.data.keys.isEmpty && e.id == id && e.addr == addr

/-- `first_free_slot`. -/
def Pool.firstFree (p : Pool) : Option Nat := p.slots.findIdx? Entry.free

/-- `key_is_in_use`. -/
def HostState.keyInUse (s : HostState) (i : Nat) : Bool :=
  s.conns.any fun c => c.connected && s.pool.findAddr c.id c.dst == some i

/-- One turn of the search for the oldest entry. -/
def oldestTurn (s : HostState) (oldest : Option Nat) (i : Nat) : Option Nat :=
  if s.keyInUse i then oldest
  else
    match oldest with
    | none => some i
    | some o =>
      if (s.pool.slots.getD i {}).aging < (s.pool.slots.getD o {}).aging then some i else some o

/-- The oldest entry that no connection uses. -/
def HostState.oldest (s : HostState) : Option Nat :=
  (List.range s.pool.slots.length).foldl (oldestTurn s) none

/-! ## Clearing -/

/-- `bt_keys_clear`. -/
def HostState.clear (s : HostState) (i : Nat) : HostState :=
  { s with pool := { s.pool with slots := s.pool.slots.modify i fun _ => {} } }

/-- `bt_conn_is_peer_addr_le`. -/
def Conn.isPeer (c : Conn) (id : Nat) (peer : Addr) : Bool :=
  c.id == id && (peer == c.dst || peer == c.onAir)

/-- `bt_conn_lookup_addr_le`. -/
def HostState.lookupAddr (s : HostState) (id : Nat) (peer : Addr) : Option Nat :=
  s.conns.findIdx? (·.isPeer id peer)

/-- `bt_unpair` for one address, which is not ANY. A `bt_conn_disconnect`
that is refused, which leaves the connection up, is left out. -/
def unpair (cfg : KeysCfg) (id : Nat) (addr : Addr) (s : HostState) : HostState :=
  if cfg.idMax ≤ id then s
  else
    let k := s.lookupAddr id addr
    let keys := k.bind fun k => (s.conns[k]?).bind (·.keys)
    -- The pointer is cleared, since the entry will be, and the
    -- connection is closed.
    let s := match k with
      | none => s
      | some k => { s with conns := s.conns.modify k ({ · with keys := none, connected := false }) }
    match keys <|> s.pool.findAddr id addr with
    | none => s
    | some i => s.clear i

/-! ## Creation and use -/

/-- The entry at `i` takes the next value of the aging counter. -/
def HostState.bump (s : HostState) (i : Nat) : HostState :=
  let counter := s.pool.agingCounter + 1
  { s with pool := {
      slots := s.pool.slots.modify i ({ · with aging := counter })
      agingCounter := counter
      lastUpdated := some i } }

/-- The entry at `i`, given to a peer. -/
def HostState.create (s : HostState) (cfg : KeysCfg) (i id : Nat) (addr : Addr) : HostState :=
  let slots := s.pool.slots.modify i ({ · with id := id, addr := addr })
  let s := { s with pool := { s.pool with slots := slots } }
  if cfg.overwriteOldest then s.bump i else s

/-- `bt_keys_get_addr`. -/
def getAddr (cfg : KeysCfg) (id : Nat) (addr : Addr) (s : HostState) : KeyRet :=
  match s.pool.findAddr id addr with
  | some i => { s := s, ret := some i }
  | none =>
    match s.pool.firstFree with
    | some i => { s := s.create cfg i id addr, ret := some i, log := [.created i] }
    | none =>
      if !cfg.overwriteOldest then { s := s }
      else
        match s.oldest with
        | none => { s := s }
        | some o =>
          let e := s.pool.slots.getD o {}
          let s := unpair cfg e.id e.addr s
          if (s.pool.slots.getD o {}).free then
            { s := s.create cfg o id addr, ret := some o, log := [.evicted o, .created o] }
          else { s := s }

/-- `bt_keys_add_type`. -/
def HostState.addType (s : HostState) (i : Nat) (type : KeyType) : HostState :=
  { s with pool := { s.pool with
      slots := s.pool.slots.modify i fun e =>
        { e with data := { e.data with keys := type :: e.data.keys } } } }

/-- `bt_keys_get_type`. -/
def getType (cfg : KeysCfg) (type : KeyType) (id : Nat) (addr : Addr) (s : HostState) : KeyRet :=
  match s.pool.find type id addr with
  | some i => { s := s, ret := some i }
  | none =>
    let r := getAddr cfg id addr s
    match r.ret with
    | none => r
    | some i => { r with s := r.s.addType i type }

/-- `bt_keys_update_usage`. -/
def updateUsage (id : Nat) (addr : Addr) (s : HostState) : KeyRet :=
  match s.pool.findAddr id addr with
  | none => { s := s }
  | some i =>
    if s.pool.lastUpdated = some i then { s := s, ret := some i, log := [.used i] }
    else { s := s.bump i, ret := some i, log := [.used i] }

/-! ## Loading -/

/-- What storage holds for a peer. -/
inductive StoredKeys
  /-- The value is empty: the entry was deleted. -/
  | deleted
  /-- `BT_KEYS_STORAGE_LEN` bytes. -/
  | full (data : KeyData) (aging : UInt32)
  /-- `BT_KEYS_STORAGE_LEN_COMPAT` bytes: no aging counter. -/
  | compat (data : KeyData)
  /-- Any other length. -/
  | badLength
  deriving DecidableEq, Repr

/-- The stored part of the entry at `i` is overwritten. -/
def HostState.load (s : HostState) (i : Nat) (data : KeyData) (aging : Option UInt32) : HostState :=
  let slots := s.pool.slots.modify i fun e =>
    { e with data := data, aging := aging.getD e.aging }
  let a := (slots.getD i {}).aging
  { s with pool := { s.pool with
      slots := slots
      agingCounter := if s.pool.agingCounter < a then a else s.pool.agingCounter } }

/-- `keys_set`, for a name that decodes. -/
def keysSet (cfg : KeysCfg) (id : Nat) (addr : Addr) (v : StoredKeys) (s : HostState) : KeyRet :=
  if cfg.idMax ≤ id then { s := s }
  else
    match v with
    | .deleted =>
      match s.pool.findAll id addr with
      | none => { s := s }
      | some i => { s := s.clear i }
    | _ =>
      let r := getAddr cfg id addr s
      match r.ret with
      | none => r
      | some i =>
        match v with
        | .full data aging =>
          { r with s := r.s.load i data (some aging), log := r.log ++ [.loaded i aging] }
        | .compat data =>
          if cfg.overwriteOldest then { r with s := r.s.load i data none }
          else { r with s := r.s.clear i, ret := none }
        | _ => { r with s := r.s.clear i, ret := none }

/-! ## Identity resolution -/

/-- `convert_to_id_on_match` on connection `n`. The address compared with
is read through a pointer into the connection `k` that pairs, so it is
the identity address once that connection has been converted. -/
def convertToIdOnMatch (k : Nat) (idAddr : Addr) (keys : Nat) (s : HostState) (n : Nat) : HostState :=
  match s.conns[k]?, s.conns[n]? with
  | some ck, some c =>
    if c.dst = ck.dst then
      let conns := s.conns.modify n ({ · with dst := idAddr })
      match c.keys with
      | some j =>
        if j ≠ keys then
          { conns := conns
            pool := { s.pool with slots := s.pool.slots.modify j ({ · with addr := idAddr }) } }
        else { s with conns := conns }
      | none => { s with conns := conns }
    else s
  | _, _ => s

/-- The address of the connection and of its entry become the identity
address. -/
def resolveAddr (k : Nat) (idAddr : Addr) (keys : Nat) (s : HostState) : HostState :=
  let s := (List.range s.conns.length).foldl (convertToIdOnMatch k idAddr keys) s
  { s with pool := { s.pool with slots := s.pool.slots.modify keys ({ · with addr := idAddr }) } }

/-- `bt_id_find_conflict`. -/
def Pool.findConflict (p : Pool) (candidate : Nat) : Option Nat :=
  let c := p.slots.getD candidate {}
  p.slots.findIdx? fun e =>
    e.data.keys.contains .irk && e.added &&
      (c.addr == e.addr || (c.data.irk != 0 && c.data.irk == e.data.irk))

/-- `bt_id_add`, as far as the entry goes. -/
def HostState.idAdd (s : HostState) (i : Nat) (added : Bool) : HostState :=
  { s with pool := { s.pool with
      slots := s.pool.slots.modify i fun e => { e with added := e.added || added } } }

/-- `smp_id_add_replace`. The answer of `update_keys_check` on the
conflicting bond, and whether the entry reaches the resolving list now,
are inputs. -/
def smpIdAddReplace (cfg : KeysCfg) (i : Nat) (trustOk added : Bool) (s : HostState) : HostState × Bool :=
  match s.pool.findConflict i with
  | none => (s.idAdd i added, true)
  | some c =>
    if !cfg.unpairMatching then (s, false)
    else if !trustOk then (s, false)
    else
      let e := s.pool.slots.getD c {}
      ((unpair cfg e.id e.addr s).idAdd i added, true)

/-- What `smp_ident_addr_info` reads besides the pool. -/
structure IdentEnv where
  /-- `update_keys_check` on the entry of the identity address. -/
  check : Bool := true
  /-- `SMP_FLAG_BOND`. -/
  bond : Bool := true
  /-- `update_keys_check` on a conflicting bond. -/
  trustOk : Bool := true
  /-- `bt_id_add` sets `BT_KEYS_ID_ADDED`. -/
  added : Bool := true
  deriving DecidableEq, Repr

/-- The first half of `smp_ident_addr_info`: an entry of the identity
address gives way. -/
def identClear (env : IdentEnv) (c : Conn) (idAddr : Addr) (s : HostState) : Option HostState :=
  if c.dst = idAddr then some s
  else
    match s.pool.findAddr c.id idAddr with
    | none => some s
    | some i => if env.check then some (s.clear i) else none

/-- The second half: the entry of the connection takes the identity
address, unless the connection was reported with one. -/
def identResolve (cfg : KeysCfg) (k : Nat) (c : Conn) (idAddr : Addr) (s : HostState) : KeyRet :=
  let r := getType cfg .irk c.id c.dst s
  match r.ret with
  | none => r
  | some i =>
    if c.onAir.isRpa && !c.dst.isIdentity then { r with s := resolveAddr k idAddr i r.s } else r

/-- `smp_ident_addr_info` on connection `k`, as far as the pool and the
connections go. -/
def smpIdentAddrInfo (cfg : KeysCfg) (env : IdentEnv) (k : Nat) (idAddr : Addr)
    (s : HostState) : KeyRet :=
  match s.conns[k]? with
  | none => { s := s }
  | some c =>
    if !idAddr.isIdentity then { s := s }
    else
      match identClear env c idAddr s with
      | none => { s := s }
      | some s =>
        if !env.bond then { s := s }
        else
          let r := identResolve cfg k c idAddr s
          match r.ret with
          | none => r
          | some i => { r with s := (smpIdAddReplace cfg i env.trustOk env.added r.s).1 }

/-! ## Runs -/

/-- What can happen to the pool and the connections. -/
inductive KeyEvent
  /-- `bt_keys_get_addr`. -/
  | getAddr (id : Nat) (addr : Addr)
  /-- `bt_keys_get_type`. -/
  | getType (type : KeyType) (id : Nat) (addr : Addr)
  /-- `bt_keys_clear` on an entry. -/
  | clear (i : Nat)
  /-- `bt_keys_update_usage`. -/
  | updateUsage (id : Nat) (addr : Addr)
  /-- `keys_set`. -/
  | keysSet (id : Nat) (addr : Addr) (v : StoredKeys)
  /-- `smp_ident_addr_info` on a connection. -/
  | identAddrInfo (env : IdentEnv) (k : Nat) (idAddr : Addr)
  /-- A connection is set up. -/
  | connect (c : Conn)
  /-- A connection leaves the state CONNECTED. -/
  | disconnecting (k : Nat)
  /-- A connection object is released. -/
  | closed (k : Nat)
  /-- `conn->le.keys = bt_keys_get_addr(conn->id, &conn->le.dst)`. -/
  | connGet (k : Nat)
  /-- `conn->le.keys = bt_keys_find(..)`. -/
  | connFind (type : KeyType) (k : Nat)
  /-- `bt_keys_clear(conn->le.keys); conn->le.keys = NULL`. -/
  | connClear (k : Nat)
  deriving DecidableEq, Repr

/-- The state with the pointer of connection `k` set. -/
def HostState.point (s : HostState) (k : Nat) (keys : Option Nat) : HostState :=
  { s with conns := s.conns.modify k ({ · with keys := keys }) }

/-- One event: the state it leaves and what it did. -/
def keysRet (cfg : KeysCfg) (s : HostState) : KeyEvent → KeyRet
  | .getAddr id addr => getAddr cfg id addr s
  | .getType type id addr => getType cfg type id addr s
  | .clear i => { s := s.clear i }
  | .updateUsage id addr => updateUsage id addr s
  | .keysSet id addr v => keysSet cfg id addr v s
  | .identAddrInfo env k idAddr => smpIdentAddrInfo cfg env k idAddr s
  | .connect c => { s := { s with conns := s.conns ++ [c] } }
  | .disconnecting k =>
    { s := { s with conns := s.conns.modify k ({ · with connected := false }) } }
  | .closed k => { s := { s with conns := s.conns.eraseIdx k } }
  | .connGet k =>
    match s.conns[k]? with
    | none => { s := s }
    | some c =>
      let r := getAddr cfg c.id c.dst s
      { r with s := r.s.point k r.ret }
  | .connFind type k =>
    match s.conns[k]? with
    | none => { s := s }
    | some c => { s := s.point k (s.pool.find type c.id c.dst) }
  | .connClear k =>
    match (s.conns[k]?).bind (·.keys) with
    | none => { s := s }
    | some i => { s := (s.clear i).point k none }

end Host

end OpenBlue

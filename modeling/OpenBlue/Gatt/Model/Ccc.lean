import OpenBlue.Common.Bytes
import OpenBlue.Host.Model.Keys
/-!
# GATT — one client characteristic configuration

The model of a `struct bt_gatt_ccc_managed_user_data` and of what
`gatt.c` does to it: writes by clients, the connections that come and go,
security changes and bond removals. Each connection object has a slot of
`acl_conns`. The application's `cfg_write`, and whether the security of a
link meets what the attribute asks for, are inputs. Values kept in
storage are left out, with the loading of them when a peer connects, and so
is an identity that is resolved while its peer is connected.
-/

namespace OpenBlue

namespace Gatt

open Host (Addr)

/-- `struct bt_gatt_ccc_cfg`. -/
structure CccCfg where
  id : ℕ := 0
  peer : Addr := .any
  value : ℕ := 0
  deriving DecidableEq, Repr

/-- What is read of a `struct bt_conn`. -/
structure Conn where
  id : ℕ
  /-- `le.dst`. -/
  dst : Addr
  /-- The peer's address on air: `le.resp_addr` of a central, else
  `le.init_addr`. -/
  onAir : Addr
  /-- The state is `BT_CONN_CONNECTED`. -/
  connected : Bool := false
  /-- The connection has its ATT channel: `bt_gatt_connected` was called
  and `bt_gatt_disconnected` was not yet. -/
  attached : Bool := false
  deriving DecidableEq, Repr

/-- `bt_conn_is_peer_addr_le`. -/
def Conn.isPeer (c : Conn) (id : ℕ) (peer : Addr) : Bool :=
  c.id == id && (peer == c.dst || peer == c.onAir)

/-- The entry is one of the connection's peer. -/
def Conn.owns (c : Conn) (e : CccCfg) : Bool := c.isPeer e.id e.peer

/-- A CCC, the connection objects, and the peers with a bond. -/
structure CccState where
  cfg : List CccCfg
  value : ℕ := 0
  conns : List (Option Conn)
  bonds : List (ℕ × Addr) := []
  deriving DecidableEq, Repr

namespace CccState

/-- The connection object in slot `k`. -/
def conn (s : CccState) (k : ℕ) : Option Conn := (s.conns[k]?).join

/-- The objects of `acl_conns` that are in use, in order. -/
def objects (s : CccState) : List Conn := s.conns.filterMap id

/-- `bt_conn_lookup_addr_le`, for the peer of an entry. -/
def lookup (s : CccState) (e : CccCfg) : Option Conn := s.objects.find? (·.owns e)

/-- `bt_le_bond_exists`. -/
def bondExists (s : CccState) (id : ℕ) (addr : Addr) : Bool := s.bonds.contains (id, addr)

/-- The slot `k` is given a connection object, or freed. -/
def setConn (s : CccState) (k : ℕ) (c : Option Conn) : CccState :=
  { s with conns := s.conns.set k c }

/-- `find_ccc_cfg` for a connection. -/
def findCccCfg (s : CccState) (c : Conn) : Option ℕ := s.cfg.findIdx? c.owns

/-- `find_ccc_cfg` for a free entry. -/
def findFree (s : CccState) : Option ℕ := s.cfg.findIdx? (·.peer == .any)

/-- `ccc_find_cfg`. -/
def cccFindCfg (s : CccState) (id : ℕ) (addr : Addr) : Option ℕ :=
  s.cfg.findIdx? fun e => e.id == id && e.peer == addr

/-- The loop of `gatt_ccc_changed`. -/
def cccMax (s : CccState) : ℕ :=
  s.cfg.foldl (fun value e =>
    if (s.lookup e).isSome ∧ value < e.value then e.value else value) 0

/-- `gatt_ccc_changed`. -/
def cccChanged (s : CccState) : CccState := { s with value := s.cccMax }

/-! ## Writes -/

/-- `BT_GATT_ERR` of the codes used. -/
def errInvalidOffset : ℤ := -0x07
def errInvalidAttributeLen : ℤ := -0x0d
def errUnlikely : ℤ := -0x0e
def errInsufficientResources : ℤ := -0x11

/-- The value a client writes. -/
def written (buf : List UInt8) : ℕ :=
  if buf.length < 2 then (buf.headD 0).toNat else getLe16 buf

/-- What `cfg_write` makes of a write; `none` where the application gave
no such callback. -/
def verdict : Option ℤ → Option ℤ
  | none => none
  | some write =>
    if write < 0 then some write
    else if write ≠ 2 ∧ write ≠ 1 then some errUnlikely
    else none

/-- `bt_gatt_attr_write_ccc` from `cfg_write` on, with the entry found or
claimed. -/
def storeValue (s : CccState) (i : ℕ) (value len : ℕ) (cfgWrite : Option ℤ) : CccState × ℤ :=
  match verdict cfgWrite with
  | some err => (s, err)
  | none =>
    let s := { s with cfg := s.cfg.modify i ({ · with value := value }) }
    let s := if value ≠ s.value then s.cccChanged else s
    -- A disabled CCC is the same as no configured CCC.
    let s := if value = 0 then { s with cfg := s.cfg.set i {} } else s
    (s, len)

/-- `bt_gatt_attr_write_ccc`: a client without an entry is given the
first free one before `cfg_write` is asked. -/
def writeCcc (s : CccState) (c : Conn) (buf : List UInt8) (offset : ℕ) (cfgWrite : Option ℤ) :
    CccState × ℤ :=
  if offset ≠ 0 then (s, errInvalidOffset)
  else if buf.length = 0 ∨ 2 < buf.length then (s, errInvalidAttributeLen)
  else
    match s.findCccCfg c with
    | some i => s.storeValue i (written buf) buf.length cfgWrite
    | none =>
      if written buf = 0 then (s, buf.length)
      else
        match s.findFree with
        | none => (s, errInsufficientResources)
        | some i =>
          { s with cfg := s.cfg.modify i ({ · with id := c.id, peer := c.dst }) }.storeValue i
            (written buf) buf.length cfgWrite

/-! ## Connections -/

/-- `update_ccc`: `allowed` says whether the security of the link meets
what writing the attribute asks for. -/
def updateCcc (s : CccState) (c : Conn) (allowed : Bool) : CccState :=
  if s.cfg.any (fun e => e.value != 0 && c.owns e) && allowed then s.cccChanged else s

/-- What `disconnected_cb` leaves of one entry. -/
def disconnectedCfg (s : CccState) (c : Conn) (e : CccCfg) : CccCfg :=
  if e.value = 0 then e
  else if !c.owns e then e
  else if !s.bondExists c.id c.dst then {}
  else { e with peer := c.dst }

/-- `value_used` of `disconnected_cb`: another peer with a value is
connected. -/
def valueUsed (s : CccState) (c : Conn) : Bool :=
  s.cfg.any fun e => e.value != 0 && !c.owns e && (s.lookup e).any (·.connected)

/-- `disconnected_cb`. -/
def disconnectedCb (s : CccState) (c : Conn) : CccState :=
  if s.value = 0 then s
  else
    { s with
      cfg := s.cfg.map (s.disconnectedCfg c)
      value := if s.valueUsed c then s.value else 0 }

/-- The first connection object of an address, if any, is on its way down. -/
def hangUp (s : CccState) (id : ℕ) (addr : Addr) : CccState :=
  { s with conns := match s.conns.findIdx? (·.any (·.isPeer id addr)) with
      | none => s.conns
      | some k => s.conns.modify k (Option.map ({ · with connected := false })) }

/-- `remove_peer_from_attr`. -/
def removePeer (s : CccState) (id : ℕ) (addr : Addr) : CccState :=
  match s.cccFindCfg id addr with
  | none => s
  | some i => { s with cfg := s.cfg.set i {} }

/-- `unpair`: the connection is closed, the keys of the peer are cleared,
and `bt_gatt_clear` takes its entry. -/
def unpair (s : CccState) (id : ℕ) (addr : Addr) : CccState :=
  { s.hangUp id addr with bonds := s.bonds.filter (· ≠ (id, addr)) }.removePeer id addr

end CccState

/-! ## Runs -/

/-- What happens to a CCC. Connections are named by their slot. -/
inductive CccEvent
  /-- A connection object is set up, before the link is. -/
  | create (k : ℕ) (id : ℕ) (dst onAir : Addr)
  /-- The link is up: `bt_gatt_connected`. It may be going down already. -/
  | connected (k : ℕ) (dst onAir : Addr) (up allowed : Bool)
  /-- The security of the link changes: `bt_gatt_encrypt_change`. -/
  | encryptChange (k : ℕ) (allowed : Bool)
  /-- A pairing ends in a bond. -/
  | bonded (k : ℕ)
  | write (k : ℕ) (buf : List UInt8) (offset : ℕ) (cfgWrite : Option ℤ)
  /-- The link is going down, or is down; GATT has not been told. -/
  | down (k : ℕ)
  /-- `bt_gatt_disconnected`. -/
  | disconnected (k : ℕ)
  /-- The last reference to the object is dropped. -/
  | free (k : ℕ)
  /-- `bt_unpair`. -/
  | unpair (id : ℕ) (addr : Addr)
  deriving DecidableEq, Repr

namespace CccState

/-- One event, and what a write returns. -/
def exec (s : CccState) : CccEvent → CccState × ℤ
  | .create k id dst onAir => (s.setConn k (some { id, dst, onAir }), 0)
  | .connected k dst onAir up allowed =>
    match s.conn k with
    | none => (s, 0)
    | some c =>
      let c := { c with dst, onAir, connected := up, attached := true }
      ((s.setConn k (some c)).updateCcc c allowed, 0)
  | .encryptChange k allowed =>
    match s.conn k with
    | none => (s, 0)
    | some c => (s.updateCcc c allowed, 0)
  | .bonded k =>
    match s.conn k with
    | none => (s, 0)
    | some c => ({ s with bonds := (c.id, c.dst) :: s.bonds }, 0)
  | .write k buf offset cfgWrite =>
    match s.conn k with
    | none => (s, 0)
    | some c => s.writeCcc c buf offset cfgWrite
  | .down k =>
    match s.conn k with
    | none => (s, 0)
    | some c => (s.setConn k (some { c with connected := false }), 0)
  | .disconnected k =>
    match s.conn k with
    | none => (s, 0)
    | some c =>
      let s := (s.setConn k (some { c with connected := false })).disconnectedCb c
      (s.setConn k (some { c with connected := false, attached := false }), 0)
  | .free k => (s.setConn k none, 0)
  | .unpair id addr => (s.unpair id addr, 0)

/-- The state after an event. -/
def step (s : CccState) (e : CccEvent) : CccState := (s.exec e).1

/-- No connection with an ATT channel has the address. -/
def Unused (s : CccState) (id : ℕ) (addr : Addr) : Prop :=
  ∀ c ∈ s.objects, c.attached → ¬ c.isPeer id addr

instance (s : CccState) (id : ℕ) (addr : Addr) : Decidable (s.Unused id addr) :=
  inferInstanceAs (Decidable (∀ c ∈ s.objects, _))

/-- What the rest of the stack keeps to: slots are reused when free, a
peer is connected once and under its own addresses, GATT hears of writes
and disconnections of connected peers only, and `bt_unpair` for all peers
is one call for each. -/
def enabled (s : CccState) : CccEvent → Prop
  | .create k _ _ _ => k < s.conns.length ∧ s.conn k = none
  | .connected k dst onAir _ _ =>
    (∃ c ∈ s.conn k, ¬ c.attached ∧ s.Unused c.id dst ∧ s.Unused c.id onAir) ∧
      dst ≠ .any ∧ onAir ≠ .any
  | .encryptChange k _ => (s.conn k).any (·.attached)
  | .bonded k => (s.conn k).any (·.attached)
  | .write k _ _ _ => (s.conn k).any (·.attached)
  | .down k => (s.conn k).any (·.attached)
  | .disconnected k => (s.conn k).any (·.attached)
  | .free k => ¬ (s.conn k).any (·.attached)
  | .unpair _ addr => addr ≠ .any

instance (s : CccState) : DecidablePred s.enabled
  | .create .. => inferInstanceAs (Decidable (_ ∧ _))
  | .connected k .. => inferInstanceAs (Decidable ((∃ c ∈ s.conn k, _) ∧ _))
  | .encryptChange .. | .bonded _ | .write .. | .down _ | .disconnected _ =>
    inferInstanceAs (Decidable (_ = true))
  | .free _ => inferInstanceAs (Decidable (¬ _ = true))
  | .unpair .. => inferInstanceAs (Decidable (_ ≠ _))

/-- A CCC before any write, among `conns` slots for connections and with
the bonds that exist. -/
def init (cfgs conns : ℕ) (bonds : List (ℕ × Addr)) : CccState :=
  { cfg := List.replicate cfgs {}, conns := List.replicate conns none, bonds }

end CccState

end Gatt

end OpenBlue

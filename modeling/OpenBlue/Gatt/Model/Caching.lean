import OpenBlue.Att.Model.Server
import OpenBlue.Gatt.Model.Ccc
/-!
# GATT — robust caching and Service Changed

The model of what a server keeps about its clients' caches: the change-aware
state of each stored client (`cf_cfg`), the ranges of handles that changed
(`gatt_sc`, and `sc_cfg` for a client that is away), and the requests that
are answered only to a change-aware client. The CCC of Service Changed and
the connections are those of `CccState`; the values in storage are left out,
and the model starts when they have been loaded.

The `log` notes what clients, and the application, see of it.
-/

namespace OpenBlue

namespace Gatt

open Host (Addr)
open Att (Prep)
open Function

/-- `struct gatt_cf_cfg`. -/
structure CfCfg where
  id : ℕ := 0
  peer : Addr := .any
  data : UInt8 := 0
  /-- `CF_CHANGE_AWARE`. -/
  aware : Bool := false
  /-- `CF_DB_HASH_READ`. -/
  hashRead : Bool := false
  deriving DecidableEq, Repr

/-- `CF_ROBUST_CACHING`. -/
def CfCfg.robust (cfg : CfCfg) : Bool := cfg.data &&& 1 != 0

/-- `struct gatt_sc_cfg`; `0, 0` stands for no range. -/
structure ScCfg where
  id : ℕ := 0
  peer : Addr := .any
  start : ℕ := 0
  stop : ℕ := 0
  deriving DecidableEq, Repr

/-- Whose response function a Service Changed indication has:
`sc_indicate_rsp` or `sc_restore_rsp`. -/
inductive ScInd
  | indicate
  | restore
  deriving DecidableEq, Repr

/-- What ATT has of a connection: `ATT_OUT_OF_SYNC_SENT` of the fixed
bearer, and of each enhanced one, the prepare queue, and the Service
Changed indications not completed. -/
structure AttConn where
  outOfSync : Bool := false
  enhanced : List Bool := []
  prepQueue : List Prep := []
  indications : List ScInd := []
  deriving DecidableEq, Repr

/-- What is seen of the server. A connection is named by its slot, a
stored client by its entry of `cf_cfg`, a subscriber by identity and
address. -/
inductive Note
  /-- Attributes were added or removed. -/
  | changed (handles : List ℕ)
  | connected (k : ℕ)
  /-- A request that is answered to change-aware clients only; `single` is
  whether the client has the fixed bearer only. -/
  | request (k i : ℕ) (single : Bool)
  /-- A handle-based request, or command, of a client with robust caching
  is carried out. -/
  | executed (i : ℕ)
  /-- The error Database Out Of Sync is sent on the fixed bearer. -/
  | outOfSync (k : ℕ)
  | hashRead (i : ℕ)
  /-- A Service Changed indication is confirmed by a client with the fixed
  bearer only. -/
  | confirmed (i : ℕ)
  /-- A client sets the Robust Caching bit. -/
  | enabled (i : ℕ)
  /-- A Service Changed indication is sent. -/
  | indicated (id : ℕ) (peer : Addr) (start stop : ℕ)
  | subscribed (id : ℕ) (peer : Addr)
  /-- The address of a subscriber is another now. -/
  | renamed (id : ℕ) (peer peer' : Addr)
  deriving DecidableEq, Repr

/-- The options and handles that are read, and the sizes of the arrays. -/
structure CachingCfg where
  settings : Bool
  smp : Bool
  eatt : Bool
  cfMax : ℕ
  scMax : ℕ
  reassembledSize : ℕ
  hashHandle : ℕ
  cfHandle : ℕ
  scCccHandle : ℕ
  deriving DecidableEq, Repr

/-- The server. -/
structure Caching where
  cfg : CachingCfg
  ccc : CccState
  att : ℕ → AttConn
  cf : ℕ → CfCfg
  sc : ℕ → ScCfg
  /-- `gatt_sc`: the range, its flags, and whether its work is submitted. -/
  start : ℕ
  stop : ℕ
  rangeChanged : Bool
  indicatePending : Bool
  work : Bool
  /-- `DB_HASH_VALID`. -/
  hashValid : Bool
  log : List Note

namespace Caching

def note (s : Caching) (n : Note) : Caching := { s with log := s.log ++ [n] }

def setCf (s : Caching) (i : ℕ) (e : CfCfg) : Caching := { s with cf := update s.cf i e }

def setSc (s : Caching) (i : ℕ) (e : ScCfg) : Caching := { s with sc := update s.sc i e }

def setAtt (s : Caching) (k : ℕ) (a : AttConn) : Caching :=
  { s with att := update s.att k a }

/-! ## Lookups -/

/-- `find_cf_cfg`. -/
def findCf (s : Caching) (c : Conn) : Option ℕ :=
  (List.range s.cfg.cfMax).find? fun i => c.isPeer (s.cf i).id (s.cf i).peer

/-- `find_cf_cfg` for a free entry. -/
def findCfFree (s : Caching) : Option ℕ :=
  (List.range s.cfg.cfMax).find? fun i => (s.cf i).peer == .any

/-- `find_cf_cfg_by_addr`. -/
def findCfByAddr (s : Caching) (id : ℕ) (addr : Addr) : Option ℕ :=
  (List.range s.cfg.cfMax).find? fun i => (s.cf i).id == id && (s.cf i).peer == addr

/-- `find_sc_cfg`. -/
def findSc (s : Caching) (id : ℕ) (addr : Addr) : Option ℕ :=
  (List.range s.cfg.scMax).find? fun i => (s.sc i).id == id && (s.sc i).peer == addr

/-- `bt_conn_lookup_addr_le`: the slot of the first object that matches. -/
def lookupAddr (s : Caching) (id : ℕ) (peer : Addr) : Option ℕ :=
  s.ccc.conns.findIdx? fun o => o.any (·.isPeer id peer)

/-- `bt_conn_lookup_state_le` for `BT_CONN_CONNECTED`. -/
def lookupConnected (s : Caching) (id : ℕ) (peer : Addr) : Option ℕ :=
  s.ccc.conns.findIdx? fun o => o.any fun c => c.isPeer id peer && c.connected

/-- `att_get` finds the connection's ATT. -/
def attGet (c : Conn) : Bool := c.connected && c.attached

/-- `bt_att_fixed_chan_only`. -/
def fixedChanOnly (s : Caching) (k : ℕ) (c : Conn) : Bool :=
  !s.cfg.eatt || !attGet c || (s.att k).enhanced.isEmpty

/-- `bt_att_clear_out_of_sync_sent`. -/
def clearOutOfSync (s : Caching) (k : ℕ) (c : Conn) : Caching :=
  if attGet c then
    s.setAtt k { s.att k with
      outOfSync := false, enhanced := (s.att k).enhanced.map fun _ => false }
  else s

/-! ## Service Changed -/

/-- `update_range`: whether it changed, and the range. -/
def updateRange (start stop newStart newStop : ℕ) : Bool × ℕ × ℕ :=
  if start ≤ newStart ∧ newStop ≤ stop then (false, start, stop)
  else (true, min start newStart, max stop newStop)

/-- `sc_save`. -/
def scSave (s : Caching) (id : ℕ) (peer : Addr) (start stop : ℕ) : Caching :=
  let found : Option (ℕ × ScCfg) :=
    match s.findSc id peer with
    | some i => some (i, s.sc i)
    | none => (s.findSc 0 .any).map fun i => (i, { s.sc i with id, peer })
  match found with
  | none => s
  | some (i, cfg) =>
    if cfg.start = 0 ∧ cfg.stop = 0 then s.setSc i { cfg with start, stop }
    else
      let (_, start, stop) := updateRange cfg.start cfg.stop start stop
      s.setSc i { cfg with start, stop }

/-- `bt_gatt_clear_sc`, and `sc_clear`, which does the same with or
without a bond. -/
def scClear (s : Caching) (id : ℕ) (peer : Addr) : Caching :=
  match s.findSc id peer with
  | none => s
  | some i => s.setSc i {}

/-- `sc_reset`. -/
def scReset (s : Caching) (i : ℕ) : Caching := s.setSc i { s.sc i with start := 0, stop := 0 }

/-- `sc_ccc_cfg_write`. -/
def scCccCfgWrite (s : Caching) (c : Conn) (value : ℕ) : Caching :=
  if value = 2 then s.scSave c.id c.dst 0 0 else s.scClear c.id c.dst

/-- `sc_indicate`. -/
def scIndicate (s : Caching) (start stop : ℕ) : Caching :=
  if ¬ s.rangeChanged then
    { s with rangeChanged := true, start, stop, work := s.work || !s.indicatePending }
  else
    match updateRange s.start s.stop start stop with
    | (false, _, _) => s
    | (true, start, stop) => { s with start, stop, work := s.work || !s.indicatePending }

/-- `set_all_change_unaware`. -/
def setAllChangeUnaware (s : Caching) : Caching :=
  if s.cfg.settings then
    { s with cf := fun i =>
        if i < s.cfg.cfMax ∧ (s.cf i).peer ≠ .any then { s.cf i with aware := false } else s.cf i }
  else s

/-- `db_hash_gen`, where the hash is not valid, as `do_db_hash` and
`db_hash_read` call it. -/
def dbHash (s : Caching) : Caching :=
  if s.hashValid then s else { s with hashValid := true }.setAllChangeUnaware

/-- The errors sent to a client are forgotten: its connection is looked up on
the default identity. -/
def forgetErrors (s : Caching) (peer : Addr) : Caching :=
  match s.lookupAddr 0 peer with
  | none => s
  | some k =>
    match s.ccc.conn k with
    | none => s
    | some c => s.clearOutOfSync k c

/-- What `db_changed` does to one entry. -/
def cfChanged (s : Caching) (i : ℕ) : Caching :=
  let cfg := s.cf i
  if cfg.peer = .any ∨ ¬ cfg.robust then s
  else (s.forgetErrors cfg.peer).setCf i { cfg with hashRead := false, aware := false }

/-- `db_changed`. -/
def dbChanged (s : Caching) : Caching :=
  (List.range s.cfg.cfMax).foldl cfChanged { s with hashValid := false }

/-- `bt_gatt_service_register` and `bt_gatt_service_unregister`, of a service
with these handles. -/
def serviceChanged (s : Caching) (handles : List ℕ) : Caching :=
  ((s.note (.changed handles)).scIndicate (handles.headD 0) (handles.getLastD 0)).dbChanged

/-! ## Change-awareness -/

/-- `bt_gatt_change_aware`. -/
def changeAware (s : Caching) (k : ℕ) (c : Conn) (req : Bool) : Bool × Caching :=
  match s.findCf c with
  | none => (true, s)
  | some i =>
    let cfg := s.cf i
    if ¬ cfg.robust then (true, s)
    else if cfg.aware then (true, s)
    else if ¬ req then (false, s)
    else if cfg.hashRead ∨ (s.fixedChanOnly k c ∧ (s.att k).outOfSync) then
      (true, (s.clearOutOfSync k c).setCf i { cfg with hashRead := false, aware := true })
    else (false, s)

/-- The stored client of a connection, if it has enabled robust caching. -/
def client (s : Caching) (c : Conn) : Option ℕ := (s.findCf c).filter fun i => (s.cf i).robust

/-- Something is noted of the connection's client. -/
def noteClient (s : Caching) (c : Conn) (n : ℕ → Note) : Caching :=
  match s.client c with
  | none => s
  | some i => s.note (n i)

/-- `ATT_OUT_OF_SYNC_SENT` of a bearer: the fixed one, or the `j`-th of the
enhanced ones. -/
def outOfSyncSent (s : Caching) (k : ℕ) : Option ℕ → Bool
  | none => (s.att k).outOfSync
  | some j => (s.att k).enhanced.getD j false

def setOutOfSyncSent (s : Caching) (k : ℕ) : Option ℕ → Caching
  | none => s.setAtt k { s.att k with outOfSync := true }
  | some j => s.setAtt k { s.att k with enhanced := (s.att k).enhanced.set j true }

/-- What a handler does for a change-unaware client: an error the first
time, and nothing from then on. The code is `none` where the handler goes
on. -/
def gate (s : Caching) (k : ℕ) (c : Conn) (b : Option ℕ) (req : Bool) : Option UInt8 × Caching :=
  match s.changeAware k c req with
  | (true, s) => (none, s.noteClient c .executed)
  | (false, s) =>
    if s.outOfSyncSent k b then (some 0, s)
    else (some Att.Err.dbOutOfSync, s.setOutOfSyncSent k b)

/-- The Error Response, if there is an error. -/
def errorRsp (s : Caching) (k : ℕ) (b : Option ℕ) (err : Option UInt8) : Caching :=
  if err = some Att.Err.dbOutOfSync ∧ b = none then s.note (.outOfSync k) else s

/-! ## The attributes of the GATT service -/

/-- `db_hash_read`. The value is there to be read up to its length. -/
def dbHashRead (s : Caching) (c : Conn) (offset : ℕ) : Caching :=
  let s := s.dbHash
  match s.client c with
  | none => s
  | some i =>
    let s := if (s.cf i).aware then s else s.setCf i { s.cf i with hashRead := true }
    if offset ≤ 16 then s.note (.hashRead i) else s

/-- `cf_set_value`; `none` where a bit would be cleared. -/
def cfSetValue (data : UInt8) : List UInt8 → Option UInt8
  | [] => some data
  | value :: _ => if data &&& value &&& 7 = data &&& 7 then some (data ||| (value &&& 7)) else none

/-- `cf_write`. -/
def cfWrite (s : Caching) (c : Conn) (value : List UInt8) (offset : ℕ) : Caching :=
  if 1 < offset + value.length then s
  else
    match (s.findCf c).or s.findCfFree with
    | none => s
    | some i =>
      match cfSetValue (s.cf i).data value with
      | none => s
      | some data =>
        let cfg : CfCfg := { s.cf i with data, peer := c.dst, id := c.id, aware := true }
        let s' := s.setCf i cfg
        if ¬ (s.cf i).robust ∧ cfg.robust then s'.note (.enabled i) else s'

/-- `bt_gatt_is_subscribed` for indications. -/
def subscribed (e : CccCfg) : Bool := e.value &&& 2 != 0

/-- A write to the CCC of Service Changed. -/
def cccWrite (s : Caching) (c : Conn) (value : List UInt8) (offset : ℕ) : Caching :=
  if offset ≠ 0 ∨ value.length = 0 ∨ 2 < value.length then s
  else if s.ccc.findCccCfg c = none ∧
      (CccState.written value = 0 ∨ s.ccc.findFree = none) then s
  else
    let e := (s.ccc.findCccCfg c).map fun i => s.ccc.cfg.getD i {}
    let peer := e.elim c.dst (·.peer)
    let s' := { s.scCccCfgWrite c (CccState.written value) with
      ccc := (s.ccc.writeCcc c value offset (some 2)).1 }
    if ¬ e.any subscribed ∧ subscribed { value := CccState.written value } then
      s'.note (.subscribed c.id peer)
    else s'

/-- The attribute's write callback. -/
def attrWrite (s : Caching) (c : Conn) (handle : ℕ) (value : List UInt8) (offset : ℕ) : Caching :=
  if handle = s.cfg.cfHandle then s.cfWrite c value offset
  else if handle = s.cfg.scCccHandle then s.cccWrite c value offset
  else s

/-! ## Requests -/

/-- A request arrives that is answered to change-aware clients only. -/
def arrive (s : Caching) (k : ℕ) (c : Conn) : Caching := s.noteClient c fun i => .request k i (s.fixedChanOnly k c)

/-- The Read, Read Blob, and Read Multiple requests. -/
def attRead (s : Caching) (k : ℕ) (c : Conn) (b : Option ℕ) (handles : List ℕ) (offset : ℕ) :
    Caching :=
  match (s.arrive k c).gate k c b true with
  | (some err, s) => s.errorRsp k b err
  | (none, s) => if s.cfg.hashHandle ∈ handles then s.dbHashRead c offset else s

/-- The types `att_read_type_req` tells apart, and that of the hash. -/
inductive TypeUuid
  | incl
  | chrc
  | dbHash
  | other
  deriving DecidableEq, Repr

/-- `att_read_type_req`. A client discovers with it whether change-aware or
not. -/
def attReadType (s : Caching) (k : ℕ) (c : Conn) (b : Option ℕ) (uuid : TypeUuid)
    (start stop : ℕ) : Caching :=
  if start = 0 ∨ stop = 0 ∨ stop < start then s
  else
    let discovery : Bool := uuid = .incl || uuid = .chrc || (start = 1 && stop = 0xffff)
    let respond := fun s : Caching =>
      if uuid = .dbHash ∧ start ≤ s.cfg.hashHandle ∧ s.cfg.hashHandle ≤ stop then s.dbHashRead c 0
      else s
    if discovery then respond ((s.arrive k c).changeAware k c true).2
    else
      match (s.arrive k c).gate k c b true with
      | (some err, s) => s.errorRsp k b err
      | (none, s) => respond s

/-- `att_write_rsp`, as `att_write_req`, `att_write_cmd` and
`att_exec_write_rsp` call it: what it returns of the gate. -/
def attWriteRsp (s : Caching) (k : ℕ) (c : Conn) (b : Option ℕ) (req : Bool) (handle : ℕ)
    (value : List UInt8) (offset : ℕ) : Option UInt8 × Caching :=
  match s.gate k c b req with
  | (some err, s) => (some err, s)
  | (none, s) => (none, s.attrWrite c handle value offset)

def attWriteReq (s : Caching) (k : ℕ) (c : Conn) (b : Option ℕ) (handle : ℕ)
    (value : List UInt8) : Caching :=
  let r := (s.arrive k c).attWriteRsp k c b true handle value 0
  r.2.errorRsp k b r.1

/-- `att_write_cmd`, and `att_signed_write_cmd` once the signature is
verified. Nothing is sent for a command. -/
def attWriteCmd (s : Caching) (k : ℕ) (c : Conn) (b : Option ℕ) (handle : ℕ)
    (value : List UInt8) : Caching :=
  (s.attWriteRsp k c b false handle value 0).2

/-- `att_prepare_write_req`; `stored` is whether there is a buffer for the
value, and its attribute takes it. -/
def attPrepareWriteReq (s : Caching) (k : ℕ) (c : Conn) (b : Option ℕ) (prep : Prep)
    (stored : Bool) : Caching :=
  match (s.arrive k c).gate k c b true with
  | (some err, s) => s.errorRsp k b err
  | (none, s) =>
    if stored then s.setAtt k { s.att k with prepQueue := (s.att k).prepQueue ++ [prep] } else s

/-- The loop of `att_exec_write_rsp`, for `fuel` rounds. -/
def execLoop (k : ℕ) (c : Conn) (b : Option ℕ) (flags : UInt8) : ℕ → Caching → Caching
  | 0, s => s
  | fuel + 1, s =>
    match (s.att k).prepQueue with
    | [] => s
    | buf :: queue =>
      let r := Att.Server.execWriteReassemble s.cfg.reassembledSize buf.handle buf.offset queue
        buf.data
      let s := s.setAtt k { s.att k with prepQueue := r.list }
      if r.err ≠ 0 then s
      else if flags = Att.flagExec then
        let w := s.attWriteRsp k c b true buf.handle.toNat r.data buf.offset.toNat
        execLoop k c b flags fuel (w.2.errorRsp k b w.1)
      else execLoop k c b flags fuel s

/-- `att_exec_write_req`. -/
def attExecWriteReq (s : Caching) (k : ℕ) (c : Conn) (b : Option ℕ) (flags : UInt8) : Caching :=
  execLoop k c b flags (s.att k).prepQueue.length (s.arrive k c)

/-! ## Indications -/

/-- A Service Changed indication is on its way. -/
def indicated (s : Caching) (k : ℕ) (id : ℕ) (peer : Addr) (start stop : ℕ) (ind : ScInd) :
    Caching :=
  (s.setAtt k { s.att k with indications := (s.att k).indications ++ [ind] }).note
    (.indicated id peer start stop)

/-- What `notify_cb` does first: the range is saved for one client that is
away. -/
def scSaveAway (start stop : ℕ) (s : Caching) (i : ℕ) : Caching :=
  let cfg := s.sc i
  if cfg.peer = .any then s
  else if (s.lookupConnected cfg.id cfg.peer).isSome then s
  else s.scSave cfg.id cfg.peer start stop

/-- The loop of `notify_cb` over the entries of the CCC; `fails` says for
which `gatt_indicate` fails, and `err` is `data->err`. -/
def notifyLoop (fails : ℕ → Bool) (start stop : ℕ) : List ℕ → Bool → Caching → Bool × Caching
  | [], err, s => (err, s)
  | i :: is, err, s =>
    let e := s.ccc.cfg.getD i {}
    if e.value ≠ 2 then notifyLoop fails start stop is err s
    else
      match s.lookupAddr e.id e.peer with
      | none => notifyLoop fails start stop is err s
      | some k =>
        if ¬ (s.ccc.conn k).any (·.connected) then notifyLoop fails start stop is err s
        else if fails i then (true, s)
        else
          notifyLoop fails start stop is false (s.indicated k e.id e.peer start stop .indicate)

/-- `sc_process`. -/
def scProcess (s : Caching) (fails : ℕ → Bool) : Caching :=
  let start := s.start
  let stop := s.stop
  let s := { s with work := false, rangeChanged := false, start := 0, stop := 0 }
  let s := (List.range s.cfg.scMax).foldl (scSaveAway start stop) s
  match notifyLoop fails start stop (List.range s.ccc.cfg.length) true s with
  | (true, s) => s
  | (false, s) => { s with indicatePending := true }

/-- What `sc_indicate_rsp` and `sc_restore_rsp` make of a client, of
whatever error; `ok` is that there is none. -/
def confirm (s : Caching) (k : ℕ) (c : Conn) (ok : Bool) : Caching :=
  if s.fixedChanOnly k c then
    match s.client c with
    | none => s
    | some i =>
      (if ok then s.note (.confirmed i) else s).setCf i { s.cf i with aware := true }
  else s

/-- `sc_indicate_rsp` and `sc_restore_rsp`. -/
def scRsp (s : Caching) (k : ℕ) (c : Conn) (ok : Bool) : ScInd → Caching
  | .indicate =>
    { s with indicatePending := false, work := s.work || s.rangeChanged }.confirm k c ok
  | .restore =>
    let s := s.confirm k c ok
    if ok then
      match s.findSc c.id c.dst with
      | none => s
      | some i => s.scReset i
    else s

/-- `sc_restore`; `sends` is whether `gatt_indicate` succeeds. -/
def scRestore (s : Caching) (k : ℕ) (c : Conn) (sends : Bool) : Caching :=
  match s.findSc c.id c.dst with
  | none => s
  | some i =>
    if (s.sc i).start = 0 ∧ (s.sc i).stop = 0 then s
    else if sends then s.indicated k c.id c.dst (s.sc i).start (s.sc i).stop .restore
    else s

/-! ## Connections -/

/-- `update_ccc`. -/
def updateCcc (s : Caching) (k : ℕ) (c : Conn) (allowed sends : Bool) : Caching :=
  if s.ccc.cfg.any (fun e => e.value != 0 && c.owns e) && allowed then
    { s with ccc := s.ccc.updateCcc c allowed }.scRestore k c sends
  else s

/-- `bt_gatt_encrypt_change`. -/
def encryptChange (s : Caching) (k : ℕ) (c : Conn) (allowed sends : Bool) : Caching :=
  let s := s.updateCcc k c allowed sends
  if (s.changeAware k c false).1 then s else s.scIndicate 1 0xffff

/-- Every indication that is not completed fails. -/
def failIndications (s : Caching) (k : ℕ) (c : Conn) : Caching :=
  (s.att k).indications.foldl (fun s ind => s.scRsp k c false ind)
    (s.setAtt k { s.att k with indications := [] })

/-- `remove_cf_cfg`. -/
def removeCf (s : Caching) (c : Conn) : Caching :=
  match s.findCf c with
  | none => s
  | some i =>
    if s.ccc.bondExists c.id c.dst then s.setCf i { s.cf i with peer := c.dst }
    else s.setCf i { s.cf i with peer := .any, data := 0, aware := false, hashRead := false }

/-- `disconnected_cb` for the CCC of Service Changed. -/
def disconnectedCb (s : Caching) (c : Conn) : Caching :=
  let owned := s.ccc.cfg.filter fun e => e.value != 0 && c.owns e
  let s' := { s with ccc := s.ccc.disconnectedCb c }
  if s.ccc.value = 0 ∨ owned = [] then s'
  else if s.ccc.bondExists c.id c.dst then
    (owned.filter subscribed).foldl (fun s e => s.note (.renamed e.id e.peer c.dst)) s'
  else s'.scClear c.id c.dst

/-- The ATT channels of the connection go: what waits is failed, and
`bt_gatt_disconnected` is called. -/
def disconnected (s : Caching) (k : ℕ) (c : Conn) : Caching :=
  let c := { c with connected := false }
  let s := { s with ccc := s.ccc.setConn k (some c) }
  let s := ((s.failIndications k c).disconnectedCb c).removeCf c
  { s with ccc := s.ccc.setConn k (some { c with attached := false }) }.setAtt k {}

/-- The address of an entry is changed if it is the private one. -/
def resolveCcc (from_ to_ : Addr) (e : CccCfg) : CccCfg :=
  if e.peer = from_ then { e with peer := to_ } else e

/-- `bt_gatt_identity_resolved`, in a build whose `STRUCT_SECTION_FOREACH`
finds `bt_conn_cb`: the entries of the CCC and of `cf_cfg` are given the
identity address. -/
def identityResolved (s : Caching) (c : Conn) (addr : Addr) : Caching :=
  if s.cfg.settings ∧ s.cfg.smp then
    let renamed := s.ccc.cfg.filter fun e => decide (e.peer = c.onAir) && subscribed e
    let s := { s with ccc := { s.ccc with cfg := s.ccc.cfg.map (resolveCcc c.onAir addr) } }
    let s := renamed.foldl (fun s e => s.note (.renamed e.id e.peer addr)) s
    match s.findCfByAddr c.id c.onAir with
    | none => s
    | some i => s.setCf i { s.cf i with peer := addr }
  else s

/-- The connection objects under the private address are given the identity
address. The address that is looked for is that of slot `k`, which changes
on the way. -/
def convertConns (k : ℕ) (c : Conn) (addr : Addr) (conns : List (Option Conn)) :
    List (Option Conn) :=
  conns.mapIdx fun j => Option.map fun o : Conn =>
    if j ≤ k ∧ o.dst = c.dst then { o with dst := addr } else o

/-- `smp_ident_addr_info`, for a peer that was connected under a private
address. -/
def resolve (s : Caching) (k : ℕ) (c : Conn) (addr : Addr) : Caching :=
  { s with ccc := { s.ccc with conns := convertConns k c addr s.ccc.conns } }.identityResolved
    { c with dst := addr } addr

/-- `bt_unpair`, down to `bt_gatt_clear`. -/
def unpair (s : Caching) (id : ℕ) (addr : Addr) : Caching :=
  let s := { s with ccc := s.ccc.unpair id addr }.scClear id addr
  match s.findCfByAddr id addr with
  | none => s
  | some i => s.setCf i { s.cf i with peer := .any, data := 0, aware := false, hashRead := false }

/-! ## Events -/

/-- What happens to the server. A request names the bearer it comes in on. -/
inductive Event
  /-- A connection object is set up, before the link is. -/
  | create (k id : ℕ) (dst onAir : Addr)
  /-- The link is up: `bt_gatt_connected`. -/
  | connected (k : ℕ) (dst onAir : Addr) (allowed sends : Bool)
  | encryptChange (k : ℕ) (allowed sends : Bool)
  | bonded (k : ℕ)
  | resolved (k : ℕ) (addr : Addr)
  | down (k : ℕ)
  | disconnected (k : ℕ)
  | free (k : ℕ)
  | unpair (id : ℕ) (addr : Addr)
  | eattUp (k : ℕ)
  | eattDown (k j : ℕ)
  | read (k : ℕ) (b : Option ℕ) (handles : List ℕ) (offset : ℕ)
  | readType (k : ℕ) (b : Option ℕ) (uuid : TypeUuid) (start stop : ℕ)
  | writeReq (k : ℕ) (b : Option ℕ) (handle : ℕ) (value : List UInt8)
  | writeCmd (k : ℕ) (b : Option ℕ) (handle : ℕ) (value : List UInt8)
  | prepareWrite (k : ℕ) (b : Option ℕ) (prep : Prep) (stored : Bool)
  | execWrite (k : ℕ) (b : Option ℕ) (flags : UInt8)
  /-- A service is registered or unregistered. -/
  | serviceChanged (handles : List ℕ)
  /-- The work of the hash. -/
  | hashWork
  /-- The work of Service Changed. -/
  | scWork (fails : ℕ → Bool)
  /-- The `j`-th of a connection's Service Changed indications is completed:
  confirmed, or failed. -/
  | scRsp (k j : ℕ) (ok : Bool)

/-- The bearer is there. -/
def bearer (s : Caching) (k : ℕ) : Option ℕ → Bool
  | none => true
  | some j => s.cfg.eatt && decide (j < (s.att k).enhanced.length)

/-- A PDU is taken from an attached, connected peer. -/
def onRequest (s : Caching) (k : ℕ) (b : Option ℕ) (f : Conn → Caching) : Caching :=
  match s.ccc.conn k with
  | none => s
  | some c => if attGet c ∧ s.bearer k b then f c else s

/-- Something happens to an attached connection. -/
def onAttached (s : Caching) (k : ℕ) (f : Conn → Caching) : Caching :=
  match s.ccc.conn k with
  | none => s
  | some c => if c.attached then f c else s

/-- One event. -/
def step (s : Caching) : Event → Caching
  | .create k id dst onAir =>
    if k < s.ccc.conns.length ∧ s.ccc.conn k = none ∧ dst ≠ .any ∧ onAir ≠ .any then
      { s with ccc := s.ccc.setConn k (some { id, dst, onAir }) }
    else s
  | .connected k dst onAir allowed sends =>
    match s.ccc.conn k with
    | none => s
    | some c =>
      if c.attached ∨ dst = .any ∨ onAir = .any then s
      else
        let c := { c with dst, onAir, connected := true, attached := true }
        ({ s with ccc := s.ccc.setConn k (some c) }.setAtt k {}
          |>.note (.connected k)).updateCcc k c allowed sends
  | .encryptChange k allowed sends => s.onAttached k fun c => s.encryptChange k c allowed sends
  | .bonded k =>
    s.onAttached k fun c => { s with ccc := { s.ccc with bonds := (c.id, c.dst) :: s.ccc.bonds } }
  | .resolved k addr =>
    s.onAttached k fun c =>
      if c.onAir.isRpa ∧ ¬ c.dst.isIdentity ∧ addr.isIdentity ∧ addr ≠ .any then s.resolve k c addr
      else s
  | .down k =>
    s.onAttached k fun c => { s with ccc := s.ccc.setConn k (some { c with connected := false }) }
  | .disconnected k => s.onAttached k fun c => s.disconnected k c
  | .free k =>
    if (s.ccc.conn k).any (·.attached) then s else { s with ccc := s.ccc.setConn k none }
  | .unpair id addr => if addr = .any then s else s.unpair id addr
  | .eattUp k =>
    s.onAttached k fun _ =>
      if s.cfg.eatt then s.setAtt k { s.att k with enhanced := (s.att k).enhanced ++ [false] } else s
  | .eattDown k j =>
    s.onAttached k fun _ => s.setAtt k { s.att k with enhanced := (s.att k).enhanced.eraseIdx j }
  | .read k b handles offset => s.onRequest k b fun c => s.attRead k c b handles offset
  | .readType k b uuid start stop => s.onRequest k b fun c => s.attReadType k c b uuid start stop
  | .writeReq k b handle value => s.onRequest k b fun c => s.attWriteReq k c b handle value
  | .writeCmd k b handle value => s.onRequest k b fun c => s.attWriteCmd k c b handle value
  | .prepareWrite k b prep stored =>
    s.onRequest k b fun c => s.attPrepareWriteReq k c b prep stored
  | .execWrite k b flags => s.onRequest k b fun c => s.attExecWriteReq k c b flags
  | .serviceChanged handles => if handles = [] then s else s.serviceChanged handles
  | .hashWork => s.dbHash
  | .scWork fails => if s.work then s.scProcess fails else s
  | .scRsp k j ok =>
    s.onAttached k fun c =>
      match (s.att k).indications[j]? with
      | none => s
      | some ind =>
        -- nothing is confirmed where the link is going down
        if ok ∧ ¬ c.connected then s
        else
          (s.setAtt k { s.att k with indications := (s.att k).indications.eraseIdx j }).scRsp k c
            ok ind

end Caching

end Gatt

end OpenBlue

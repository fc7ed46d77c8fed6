import OpenBlue.Common.Bytes
import OpenBlue.Gatt.Model.Db
/-!
# ATT server — permissions, writes and the prepare queue

The model of the server half of `att.c` that writes attributes: the
permission and change-awareness checks of `gatt.c`, the write handlers and
the queue of prepared writes. The application behind the attributes is a
state of its own that their callbacks read and change. What a handler does
to the outside, an attribute it writes or a PDU it queues on its bearer,
goes to a log.
-/

namespace OpenBlue

namespace Att

/-! ## Codes -/

namespace Op

def errorRsp : UInt8 := 0x01
def mtuReq : UInt8 := 0x02
def mtuRsp : UInt8 := 0x03
def findInfoReq : UInt8 := 0x04
def findInfoRsp : UInt8 := 0x05
def findTypeReq : UInt8 := 0x06
def findTypeRsp : UInt8 := 0x07
def readTypeReq : UInt8 := 0x08
def readTypeRsp : UInt8 := 0x09
def readReq : UInt8 := 0x0a
def readRsp : UInt8 := 0x0b
def readBlobReq : UInt8 := 0x0c
def readBlobRsp : UInt8 := 0x0d
def readMultReq : UInt8 := 0x0e
def readMultRsp : UInt8 := 0x0f
def readGroupReq : UInt8 := 0x10
def readGroupRsp : UInt8 := 0x11
def writeReq : UInt8 := 0x12
def writeRsp : UInt8 := 0x13
def prepareWriteReq : UInt8 := 0x16
def prepareWriteRsp : UInt8 := 0x17
def execWriteReq : UInt8 := 0x18
def execWriteRsp : UInt8 := 0x19
def notify : UInt8 := 0x1b
def indicate : UInt8 := 0x1d
def confirm : UInt8 := 0x1e
def readMultVlReq : UInt8 := 0x20
def readMultVlRsp : UInt8 := 0x21
def notifyMult : UInt8 := 0x23
def writeCmd : UInt8 := 0x52
def signedWriteCmd : UInt8 := 0xd2

end Op

namespace Err

def invalidHandle : UInt8 := 0x01
def readNotPermitted : UInt8 := 0x02
def writeNotPermitted : UInt8 := 0x03
def invalidPdu : UInt8 := 0x04
def authentication : UInt8 := 0x05
def notSupported : UInt8 := 0x06
def invalidOffset : UInt8 := 0x07
def authorization : UInt8 := 0x08
def prepareQueueFull : UInt8 := 0x09
def attributeNotFound : UInt8 := 0x0a
def invalidAttributeLen : UInt8 := 0x0d
def unlikely : UInt8 := 0x0e
def insufficientEncryption : UInt8 := 0x0f
def unsupportedGroupType : UInt8 := 0x10
def insufficientResources : UInt8 := 0x11
def dbOutOfSync : UInt8 := 0x12

end Err

/-- `err_to_att`. -/
def errToAtt (err : ℤ) : UInt8 :=
  if err < 0 ∧ -0xff ≤ err then UInt8.ofNat err.natAbs else Err.unlikely

/-- The permission bits of an attribute, `BT_GATT_PERM_…`. -/
def permRead : ℕ := 0x001
def permWrite : ℕ := 0x002
def permPrepareWrite : ℕ := 0x040
def permReadMask : ℕ := 0x001 ||| 0x004 ||| 0x010 ||| 0x080
def permWriteMask : ℕ := 0x002 ||| 0x008 ||| 0x020 ||| 0x100
def permEncryptMask : ℕ := 0x004 ||| 0x008
def permAuthenMask : ℕ := 0x010 ||| 0x020
def permLescMask : ℕ := 0x080 ||| 0x100

/-- The flags a write callback is given, `BT_GATT_WRITE_FLAG_…`. -/
def writeFlagPrepare : ℕ := 1
def writeFlagCmd : ℕ := 2
def writeFlagExecute : ℕ := 4

/-- `BT_ATT_FLAG_EXEC` and `BT_ATT_FLAG_CANCEL`. -/
def flagExec : UInt8 := 0x01
def flagCancel : UInt8 := 0x00

/-- `BT_ATT_MAX_ATTRIBUTE_LEN`. -/
def maxAttributeLen : ℕ := 512

/-! ## The attributes and the server's state -/

/-- What a read callback answers: an error code, or bytes for the room it
was given. -/
inductive ReadResult (len : ℕ)
  | error (code : ℤ) (neg : code < 0)
  | bytes (value : List UInt8) (fits : value.length ≤ len)

/-- What `struct bt_gatt_attr` holds besides its UUID and handle, and what
the application's authorization callback says of the attribute. The
callbacks act on the application's state `σ`. -/
structure AttrOps (σ : Type*) where
  perm : ℕ
  read : Option (σ → (len : ℕ) → (offset : UInt16) → ReadResult len × σ)
  write : Option (σ → (value : List UInt8) → (offset : UInt16) → (flags : ℕ) → ℤ × σ)
  readAuthorize : σ → Bool
  writeAuthorize : σ → Bool

/-- The options of the build that the server reads. -/
structure Config where
  disableSecurity : Bool
  smp : Bool
  localMtuUatt : ℕ
  localMtuEatt : ℕ
  prepareCount : ℕ
  readMultiple : Bool
  readMultVarLen : Bool

/-- `BT_ATT_BUF_SIZE`. -/
def Config.bufSize (cfg : Config) : ℕ := max cfg.localMtuUatt cfg.localMtuEatt

/-- The size of `reassembled_data`. -/
def Config.reassembledSize (cfg : Config) : ℕ :=
  min maxAttributeLen (cfg.prepareCount * cfg.bufSize)

/-- What `bt_gatt_check_perm` reads of the connection: whether it is
encrypted, whether a key is there, the level, and whether its keys come
from LE Secure Connections. -/
structure Security where
  encrypt : Bool
  ltkPresent : Bool
  level : ℕ
  keysSc : Bool

/-- `struct gatt_cf_cfg`: robust caching and the two flags. -/
structure Cf where
  robust : Bool
  aware : Bool
  hashRead : Bool
  deriving DecidableEq, Repr

/-- A buffer of the prepare queue, with its `struct bt_attr_data`. -/
structure Prep where
  handle : UInt16
  offset : UInt16
  data : List UInt8
  deriving DecidableEq, Repr

/-- What a handler does to the outside: an attribute's write callback and
its result, a PDU queued on the bearer, an error there is no buffer for. -/
inductive Ev
  | wrote (handle : UInt16) (value : List UInt8) (offset : UInt16) (flags : ℕ) (result : ℤ)
  | sent (pdu : List UInt8)
  | lost (pdu : List UInt8)
  deriving DecidableEq, Repr

/-- The server on one bearer of a connection. `buffers n` tells whether
the `n`-th PDU asked for is allocated, `tried` counts these, and
`fixedOnly` is `bt_att_fixed_chan_only`. -/
structure Server (σ : Type*) where
  cfg : Config
  connected : Bool
  attached : Bool
  db : Gatt.Db (AttrOps σ)
  app : σ
  sec : Security
  cf : Option Cf
  enhanced : Bool
  fixedOnly : Bool
  oosSent : Bool
  rxMtu : ℕ
  txMtu : ℕ
  prepQueue : List Prep
  prepFree : ℕ
  buffers : ℕ → Bool
  tried : ℕ
  log : List Ev

namespace Server

variable {σ : Type*}

/-- `bt_att_mtu`. -/
def mtu (s : Server σ) : ℕ := min s.rxMtu s.txMtu

/-! ## Permissions and change-awareness -/

/-- `bt_gatt_check_perm`. -/
def checkPerm (s : Server σ) (attr : AttrOps σ) (mask : ℕ) : UInt8 :=
  if mask &&& permRead ≠ 0 ∧ (attr.perm &&& permReadMask = 0 ∨ attr.read.isNone) then
    Err.readNotPermitted
  else if mask &&& permWrite ≠ 0 ∧ (attr.perm &&& permWriteMask = 0 ∨ attr.write.isNone) then
    Err.writeNotPermitted
  else if s.cfg.disableSecurity then 0
  else
    let mask := mask &&& attr.perm
    if mask &&& (permEncryptMask ||| permAuthenMask ||| permLescMask) = 0 then 0
    else if ¬ s.cfg.smp then Err.authentication
    else if ¬ s.sec.encrypt then
      if s.sec.ltkPresent then Err.insufficientEncryption else Err.authentication
    else if mask &&& permAuthenMask ≠ 0 ∧ s.sec.level < 3 then Err.authentication
    else if mask &&& permLescMask ≠ 0 ∧ ¬ s.sec.keysSc then Err.authentication
    else 0

/-- `bt_gatt_change_aware`. -/
def changeAware (s : Server σ) (req : Bool) : Bool × Server σ :=
  match s.cf with
  | none => (true, s)
  | some cf =>
    if ¬ cf.robust then (true, s)
    else if cf.aware then (true, s)
    else if ¬ req then (false, s)
    else if cf.hashRead || (s.fixedOnly && s.oosSent) then
      -- the client has learnt of the change, and asks again
      (true, { s with
        cf := some { cf with hashRead := false, aware := true }
        oosSent := false })
    else (false, s)

/-- What every handler starts with: a change-unaware client is told so
once, and then nothing. The code is `none` where the handler goes on. -/
def outOfSync (s : Server σ) (req : Bool) : Option UInt8 × Server σ :=
  match s.changeAware req with
  | (true, s) => (none, s)
  | (false, s) =>
    if s.oosSent then (some 0, s) else (some Err.dbOutOfSync, { s with oosSent := true })

/-! ## Responses -/

/-- `bt_att_chan_create_pdu` for a PDU with `len` bytes behind the opcode. -/
def createPdu (s : Server σ) (len : ℕ) : Bool × Server σ :=
  if s.mtu < len + 1 then (false, s) else (s.buffers s.tried, { s with tried := s.tried + 1 })

/-- `bt_att_chan_send_rsp`. -/
def sendRsp (s : Server σ) (pdu : List UInt8) : Server σ := { s with log := s.log ++ [.sent pdu] }

/-- The Error Response. -/
def errorPdu (req : UInt8) (handle : UInt16) (err : UInt8) : List UInt8 :=
  Op.errorRsp :: req :: (le16 handle.toNat ++ [err])

/-- `send_err_rsp`. -/
def sendErrRsp (s : Server σ) (req : UInt8) (handle : UInt16) (err : UInt8) : Server σ :=
  if req = 0 then s
  else
    match s.createPdu 4 with
    | (true, s) => s.sendRsp (errorPdu req handle err)
    | (false, s) => { s with log := s.log ++ [.lost (errorPdu req handle err)] }

/-! ## Write -/

/-- The call of `attr->write`; `bt_gatt_check_perm` has seen that it is
there. -/
def callWrite (s : Server σ) (attr : AttrOps σ) (handle : UInt16) (value : List UInt8)
    (offset : UInt16) (flags : ℕ) : ℤ × Server σ :=
  match attr.write with
  | none => (0, s)
  | some write =>
    let r := write s.app value offset flags
    (r.1, { s with app := r.2, log := s.log ++ [.wrote handle value offset flags r.1] })

/-- `write_cb`, with the error in `data->err`. -/
def writeCb (req : UInt8) (value : List UInt8) (offset : UInt16) :
    Gatt.AttrFunc (AttrOps σ) (UInt8 × Server σ) := fun attr handle (_, s) =>
  let err := s.checkPerm attr.data permWriteMask
  if err ≠ 0 then (.stop, err, s)
  else if ¬ attr.data.writeAuthorize s.app then (.stop, Err.authorization, s)
  else
    let flags :=
      if req = 0 then writeFlagCmd else if req = Op.execWriteReq then writeFlagExecute else 0
    let (write, s) := s.callWrite attr.data handle value offset flags
    if write < 0 ∨ write ≠ value.length then (.stop, errToAtt write, s) else (.continue, 0, s)

/-- `att_write_rsp`: its result and the state it leaves. -/
def attWriteRsp (s : Server σ) (req rsp : UInt8) (handle offset : UInt16) (value : List UInt8) :
    UInt8 × Server σ :=
  match s.outOfSync (req ≠ 0) with
  | (some err, s) => (err, s)
  | (none, s) =>
    if handle = 0 then (Err.invalidHandle, s)
    else
      -- a buffer is asked for where there is a response
      match (if rsp = 0 then (true, s) else s.createPdu 0) with
      | (false, s) => (Err.insufficientResources, s)
      | (true, s) =>
        let (err, s) :=
          s.db.foreachAttr handle handle (writeCb req value offset) (Err.invalidHandle, s)
        if err ≠ 0 then
          (if req = Op.execWriteReq then err else 0,
            if rsp = 0 then s else s.sendErrRsp req handle err)
        else (0, if rsp = 0 then s else s.sendRsp [rsp])

/-- `att_write_req`, on the bytes behind the opcode. -/
def attWriteReq (s : Server σ) (buf : List UInt8) : UInt8 × Server σ :=
  s.attWriteRsp Op.writeReq Op.writeRsp (UInt16.ofNat (getLe16 buf)) 0 (buf.drop 2)

/-! ## Prepare Write -/

/-- `prep_write_cb`: the error, and the buffer the value is stored in. -/
def prepWriteCb (value : List UInt8) (offset : UInt16) :
    Gatt.AttrFunc (AttrOps σ) (UInt8 × Option Prep × Server σ) := fun attr handle (_, buf, s) =>
  let err := s.checkPerm attr.data permWriteMask
  if err ≠ 0 then (.stop, err, buf, s)
  else if ¬ attr.data.writeAuthorize s.app then (.stop, Err.authorization, buf, s)
  else
    let (write, s) :=
      if attr.data.perm &&& permPrepareWrite = 0 then (0, s)
      else s.callWrite attr.data handle value offset writeFlagPrepare
    if write ≠ 0 then (.stop, errToAtt write, buf, s)
    else if s.prepFree = 0 then (.stop, Err.prepareQueueFull, none, s)
    else (.continue, 0, some ⟨handle, offset, value⟩, { s with prepFree := s.prepFree - 1 })

/-- `att_prep_write_rsp`. The length comes in as a `uint8_t`. -/
def attPrepWriteRsp (s : Server σ) (handle offset : UInt16) (value : List UInt8) (len : UInt8) :
    UInt8 × Server σ :=
  match s.outOfSync true with
  | (some err, s) => (err, s)
  | (none, s) =>
    if handle = 0 then (Err.invalidHandle, s)
    else
      let value := value.take len.toNat
      match s.db.foreachAttr handle handle (prepWriteCb value offset)
          (Err.invalidHandle, none, s) with
      | (err, buf, s) =>
        if err ≠ 0 then (0, s.sendErrRsp Op.prepareWriteReq handle err)
        else
          let s := { s with prepQueue := s.prepQueue ++ buf.toList }
          match s.createPdu 0 with
          | (false, s) => (Err.insufficientResources, s)
          | (true, s) =>
            (0, s.sendRsp
              (Op.prepareWriteRsp :: (le16 handle.toNat ++ le16 offset.toNat ++ value)))

/-- `att_prepare_write_req`, on the bytes behind the opcode. -/
def attPrepareWriteReq (s : Server σ) (buf : List UInt8) : UInt8 × Server σ :=
  let value := buf.drop 4
  s.attPrepWriteRsp (UInt16.ofNat (getLe16 buf)) (UInt16.ofNat (getLe16 (buf.drop 2))) value
    (UInt8.ofNat value.length)

/-! ## Execute Write -/

/-- What `exec_write_reassemble` returns and leaves: its result, the
buffer, the list, and how many entries it has returned to their pool. -/
structure Reassembled where
  err : UInt8
  data : List UInt8
  list : List Prep
  freed : ℕ
  deriving DecidableEq, Repr

/-- `exec_write_reassemble`, with room for `size` bytes. -/
def execWriteReassemble (size : ℕ) (handle offset : UInt16) :
    List Prep → List UInt8 → Reassembled
  | [], buf => ⟨0, buf, [], 0⟩
  | entry :: next, buf =>
    if entry.handle = handle then
      if entry.offset = 0 then ⟨0, buf, entry :: next, 0⟩
      else if entry.offset.toNat ≠ buf.length + offset.toNat then
        ⟨Err.invalidOffset, buf, entry :: next, 0⟩
      else if size < buf.length + entry.data.length then
        ⟨Err.invalidAttributeLen, buf, entry :: next, 0⟩
      else
        let r := execWriteReassemble size handle offset next (buf ++ entry.data)
        { r with freed := r.freed + 1 }
    else
      let r := execWriteReassemble size handle offset next buf
      { r with list := entry :: r.list }

/-- The loop of `att_exec_write_rsp`, for `fuel` rounds: the error it ends
with, or `none` where the function returns from inside the loop. -/
def execLoop (flags : UInt8) : ℕ → UInt8 → Server σ → Option UInt8 × Server σ
  | 0, err, s => (some err, s)
  | fuel + 1, err, s =>
    match s.prepQueue with
    | [] => (some err, s)
    | buf :: queue =>
      let r := execWriteReassemble s.cfg.reassembledSize buf.handle buf.offset queue buf.data
      let s := { s with prepQueue := r.list, prepFree := s.prepFree + r.freed }
      if r.err ≠ 0 then (none, s.sendErrRsp Op.execWriteReq buf.handle r.err)
      else
        let (err, s) : UInt8 × Server σ :=
          if flags = flagExec then
            s.attWriteRsp Op.execWriteReq 0 buf.handle buf.offset r.data
          else (0, s)
        let s := if err ≠ 0 then s.sendErrRsp Op.execWriteReq buf.handle err else s
        execLoop flags fuel err { s with prepFree := s.prepFree + 1 }

/-- `att_exec_write_rsp`. Every round takes an entry off the queue. -/
def attExecWriteRsp (s : Server σ) (flags : UInt8) : UInt8 × Server σ :=
  match execLoop flags s.prepQueue.length 0 s with
  | (none, s) => (0, s)
  | (some err, s) =>
    if err ≠ 0 then (0, s)
    else
      match s.createPdu 0 with
      | (false, s) => (Err.unlikely, s)
      | (true, s) => (0, s.sendRsp [Op.execWriteRsp])

/-- `att_exec_write_req`, on the bytes behind the opcode. -/
def attExecWriteReq (s : Server σ) (buf : List UInt8) : UInt8 × Server σ :=
  s.attExecWriteRsp (buf.headD 0)

end Server

end Att

end OpenBlue

import OpenBlue.Att.Model.Server
/-!
# ATT server — reading attributes

The model of the handlers of `att.c` that answer with the value of one
attribute or of several. The bytes of the PDU in the making begin with its
opcode; its buffer has room for the whole MTU, so that no fragment is
chained to it and the loop of `att_chan_read` ends after one round.
-/

namespace OpenBlue

namespace Att

/-- What `att_chan_read` comes to: no room is left and nothing is read, the
error the callback returned, or the bytes it put in. -/
inductive ChanRead
  | noRoom
  | error (code : ℤ)
  | bytes (value : List UInt8)
  deriving DecidableEq, Repr

namespace Server

variable {σ : Type*}

/-- The call of `attr->read`; `bt_gatt_check_perm` has seen that it is
there, and a service declaration has one. -/
def callRead (s : Server σ) (attr : AttrOps σ) (len : ℕ) (offset : UInt16) :
    ChanRead × Server σ :=
  match attr.read with
  | none => (.error (-1), s)
  | some read =>
    match read s.app len offset with
    | (.error code _, app) => (.error code, { s with app })
    | (.bytes value _, app) => (.bytes value, { s with app })

/-- `att_chan_read`, up to the callback it is given: behind the `used`
bytes of the PDU the rest of the MTU is free. -/
def attChanRead (s : Server σ) (attr : AttrOps σ) (used : ℕ) (offset : UInt16) :
    ChanRead × Server σ :=
  if s.mtu ≤ used then (.noRoom, s) else s.callRead attr (s.mtu - used) offset

/-- The checks every reading callback makes first. -/
def readErr (s : Server σ) (attr : AttrOps σ) : UInt8 :=
  let err := s.checkPerm attr permReadMask
  if err ≠ 0 then err else if ¬ attr.readAuthorize s.app then Err.authorization else 0

/-- The data of `read_cb` and `read_vl_cb`: the error and the PDU. -/
structure ReadData (σ : Type*) where
  err : UInt8
  buf : List UInt8
  server : Server σ

/-- `read_cb`. -/
def readCb (offset : UInt16) : Gatt.AttrFunc (AttrOps σ) (ReadData σ) := fun attr _ data =>
  let err := data.server.readErr attr.data
  if err ≠ 0 then (.stop, { data with err })
  else
    match data.server.attChanRead attr.data data.buf.length offset with
    | (.error code, server) => (.stop, { data with err := errToAtt code, server })
    | (.noRoom, server) => (.continue, { data with err := 0, server })
    | (.bytes value, server) => (.continue, { err := 0, buf := data.buf ++ value, server })

/-- `att_read_rsp`. -/
def attReadRsp (s : Server σ) (op rsp : UInt8) (handle offset : UInt16) : UInt8 × Server σ :=
  match s.outOfSync true with
  | (some err, s) => (err, s)
  | (none, s) =>
    if handle = 0 then (Err.invalidHandle, s)
    else
      match s.createPdu 0 with
      | (false, s) => (Err.insufficientResources, s)
      | (true, s) =>
        let data := s.db.foreachAttr handle handle (readCb offset) ⟨Err.invalidHandle, [rsp], s⟩
        if data.err ≠ 0 then (0, data.server.sendErrRsp op handle data.err)
        else (0, data.server.sendRsp data.buf)

/-- `att_read_req`, on the bytes behind the opcode. -/
def attReadReq (s : Server σ) (buf : List UInt8) : UInt8 × Server σ :=
  s.attReadRsp Op.readReq Op.readRsp (UInt16.ofNat (getLe16 buf)) 0

/-- `att_read_blob_req`. -/
def attReadBlobReq (s : Server σ) (buf : List UInt8) : UInt8 × Server σ :=
  s.attReadRsp Op.readBlobReq Op.readBlobRsp (UInt16.ofNat (getLe16 buf))
    (UInt16.ofNat (getLe16 (buf.drop 2)))

/-- `read_vl_cb`: the value behind its length, unless the MTU leaves no
room for the length. -/
def readVlCb : Gatt.AttrFunc (AttrOps σ) (ReadData σ) := fun attr _ data =>
  let err := data.server.readErr attr.data
  if err ≠ 0 then (.stop, { data with err })
  else if data.server.mtu < data.buf.length + 2 then (.stop, { data with err := 0 })
  else
    match data.server.attChanRead attr.data (data.buf.length + 2) 0 with
    | (.error code, server) => (.stop, { data with err := errToAtt code, server })
    | (.noRoom, server) => (.continue, { err := 0, buf := data.buf ++ le16 0, server })
    | (.bytes value, server) =>
      (.continue, { err := 0, buf := data.buf ++ le16 value.length ++ value, server })

/-- The loop of `att_read_mult_req` and `att_read_mult_vl_req` over the
handles of the request. -/
def readHandles (op : UInt8) (cb : Gatt.AttrFunc (AttrOps σ) (ReadData σ)) :
    List UInt8 → List UInt8 → Server σ → Server σ
  | lo :: hi :: rest, buf, s =>
    let handle := UInt16.ofNat (getLe16 [lo, hi])
    let data := s.db.foreachAttr handle handle cb ⟨Err.invalidHandle, buf, s⟩
    if data.err ≠ 0 then data.server.sendErrRsp op handle data.err
    else readHandles op cb rest data.buf data.server
  | _, buf, s => s.sendRsp buf

/-- What the two requests for several attributes share. -/
def attReadHandles (s : Server σ) (op rsp : UInt8)
    (cb : Gatt.AttrFunc (AttrOps σ) (ReadData σ)) (buf : List UInt8) : UInt8 × Server σ :=
  match s.outOfSync true with
  | (some err, s) => (err, s)
  | (none, s) =>
    match s.createPdu 0 with
    | (false, s) => (Err.insufficientResources, s)
    | (true, s) => (0, readHandles op cb buf [rsp] s)

/-- `att_read_mult_req`. -/
def attReadMultReq (s : Server σ) (buf : List UInt8) : UInt8 × Server σ :=
  s.attReadHandles Op.readMultReq Op.readMultRsp (readCb 0) buf

/-- `att_read_mult_vl_req`. -/
def attReadMultVlReq (s : Server σ) (buf : List UInt8) : UInt8 × Server σ :=
  s.attReadHandles Op.readMultVlReq Op.readMultVlRsp readVlCb buf

end Server

end Att

end OpenBlue

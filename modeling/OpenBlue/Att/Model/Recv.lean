import OpenBlue.Att.Model.Lists
/-!
# ATT server — receiving

The model of `bt_att_recv` for the PDUs a client sends to a server: the
table of handlers with the length each expects, and the error that a
handler leaves to the dispatcher. Responses, confirmations and the PDUs a
server sends on its own go to the client half.
-/

namespace OpenBlue

namespace Att

/-- `att_type_t`. -/
inductive OpType
  | command
  | request
  | response
  | notification
  | confirmation
  | indication
  | unknown
  deriving DecidableEq, Repr

/-- `att_op_get_type`. -/
def opGetType (op : UInt8) : OpType :=
  if op ∈ [Op.mtuReq, Op.findInfoReq, Op.findTypeReq, Op.readTypeReq, Op.readReq, Op.readBlobReq,
      Op.readMultReq, Op.readMultVlReq, Op.readGroupReq, Op.writeReq, Op.prepareWriteReq,
      Op.execWriteReq] then
    .request
  else if op = Op.confirm then .confirmation
  else if op ∈ [Op.writeCmd, Op.signedWriteCmd] then .command
  else if op ∈ [Op.errorRsp, Op.mtuRsp, Op.findInfoRsp, Op.findTypeRsp, Op.readTypeRsp, Op.readRsp,
      Op.readBlobRsp, Op.readMultRsp, Op.readMultVlRsp, Op.readGroupRsp, Op.writeRsp,
      Op.prepareWriteRsp, Op.execWriteRsp] then
    .response
  else if op ∈ [Op.notify, Op.notifyMult] then .notification
  else if op = Op.indicate then .indication
  else if op &&& 0x40 ≠ 0 then .command
  else .unknown

namespace Server

variable {σ : Type*}

/-- `att_mtu_req`, on the bytes behind the opcode. -/
def attMtuReq (s : Server σ) (buf : List UInt8) : UInt8 × Server σ :=
  let mtuClient := getLe16 buf
  if s.enhanced then (Err.notSupported, s)
  else if mtuClient < 23 then (Err.invalidPdu, s)
  else
    match s.createPdu 0 with
    | (false, s) => (Err.unlikely, s)
    | (true, s) =>
      let s := s.sendRsp (Op.mtuRsp :: le16 s.cfg.localMtuUatt)
      (0, { s with rxMtu := s.cfg.localMtuUatt, txMtu := mtuClient })

/-- `att_write_cmd`. -/
def attWriteCmd (s : Server σ) (buf : List UInt8) : UInt8 × Server σ :=
  s.attWriteRsp 0 0 (UInt16.ofNat (getLe16 buf)) 0 (buf.drop 2)

/-- `struct att_handler`. -/
structure Handler (σ : Type*) where
  op : UInt8
  expectLen : ℕ
  type : OpType
  func : Server σ → List UInt8 → UInt8 × Server σ

/-- `handlers`, the entries for requests and the Write Command. -/
def handlers (cfg : Config) : List (Handler σ) :=
  [⟨Op.mtuReq, 2, .request, attMtuReq⟩,
    ⟨Op.findInfoReq, 4, .request, attFindInfoReq⟩,
    ⟨Op.findTypeReq, 6, .request, attFindTypeReq⟩,
    ⟨Op.readTypeReq, 4, .request, attReadTypeReq⟩,
    ⟨Op.readReq, 2, .request, attReadReq⟩,
    ⟨Op.readBlobReq, 4, .request, attReadBlobReq⟩] ++
  (if cfg.readMultiple then [⟨Op.readMultReq, 4, .request, attReadMultReq⟩] else []) ++
  (if cfg.readMultVarLen then [⟨Op.readMultVlReq, 4, .request, attReadMultVlReq⟩] else []) ++
  [⟨Op.readGroupReq, 4, .request, attReadGroupReq⟩,
    ⟨Op.writeReq, 2, .request, attWriteReq⟩] ++
  (if 0 < cfg.prepareCount then
    [⟨Op.prepareWriteReq, 4, .request, attPrepareWriteReq⟩,
      ⟨Op.execWriteReq, 1, .request, attExecWriteReq⟩]
  else []) ++
  [⟨Op.writeCmd, 2, .command, attWriteCmd⟩]

/-- The search through the table. -/
def handler (cfg : Config) (op : UInt8) : Option (Handler σ) :=
  (handlers cfg).find? (·.op = op)

/-- `bt_att_recv`, for the opcodes of the server half. -/
def recv (s : Server σ) : List UInt8 → Server σ
  | [] => s
  | op :: buf =>
    if ¬ s.connected then s
    else if ¬ s.attached then s
    else
      match handler s.cfg op with
      | none =>
        if opGetType op ≠ .command ∧ opGetType op ≠ .indication then
          s.sendErrRsp op 0 Err.notSupported
        else s
      | some handler =>
        let (err, s) :=
          if buf.length < handler.expectLen then (Err.invalidPdu, s) else handler.func s buf
        if handler.type = .request ∧ err ≠ 0 then s.sendErrRsp op 0 err else s

end Server

end Att

end OpenBlue

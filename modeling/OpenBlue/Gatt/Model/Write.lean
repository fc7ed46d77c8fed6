import OpenBlue.Att.Model.Recv
/-!
# GATT — the client's write procedure

The model of `bt_gatt_write` and the callbacks of `gatt.c` that carry it
on, and of its exchange with a server: one request at a time goes to the
server, and the first PDU this queues is the response.
-/

namespace OpenBlue

namespace Gatt

open Att

/-- `struct bt_gatt_write_params`: what is left to write. -/
structure WriteParams where
  handle : UInt16
  offset : UInt16
  data : List UInt8
  deriving DecidableEq, Repr

/-- The requests of the procedure. -/
inductive WriteReq
  | write (handle : UInt16) (value : List UInt8)
  | prepare (handle offset : UInt16) (value : List UInt8)
  | exec (flags : UInt8)
  deriving DecidableEq, Repr

/-- The PDU of a request. -/
def WriteReq.pdu : WriteReq → List UInt8
  | .write handle value => Op.writeReq :: (le16 handle.toNat ++ value)
  | .prepare handle offset value =>
    Op.prepareWriteReq :: (le16 handle.toNat ++ (le16 offset.toNat ++ value))
  | .exec flags => [Op.execWriteReq, flags]

/-- Where the procedure stands: a request is out, or the application has
been told the result. -/
inductive WriteStage
  | waiting (req : WriteReq)
  | finished (err : UInt8)
  deriving DecidableEq, Repr

/-- `gatt_prepare_write`: the request for the next chunk. -/
def gattPrepareWrite (mtu : ℕ) (params : WriteParams) : WriteReq :=
  .prepare params.handle params.offset (params.data.take (min params.data.length (mtu - 4 - 1)))

/-- `bt_gatt_write`, on a connection. -/
def btGattWrite (mtu : ℕ) (params : WriteParams) : WriteReq :=
  if params.offset ≠ 0 ∨ mtu - 1 < 2 + params.data.length then gattPrepareWrite mtu params
  else .write params.handle params.data

/-- `gatt_prepare_write_rsp`, where the next request can be sent. -/
def gattPrepareWriteRsp (mtu : ℕ) (params : WriteParams) (err : UInt8) (pdu : List UInt8) :
    WriteParams × WriteStage :=
  if err ≠ 0 then (params, .finished err)
  else if pdu.length < 4 then (params, .finished Err.unlikely)
  else
    let len := pdu.length - 4
    if params.data.length < len then (params, .waiting (.exec flagCancel))
    else if params.offset.toNat ≠ getLe16 (pdu.drop 2) ∨ params.data.take len ≠ pdu.drop 4 then
      (params, .waiting (.exec flagCancel))
    else
      let params :=
        { params with
          offset := params.offset + UInt16.ofNat len
          data := params.data.drop len }
      if params.data.length = 0 then (params, .waiting (.exec flagExec))
      else (params, .waiting (btGattWrite mtu params))

/-- What `att_error_rsp` and the response handlers make of a PDU: the error
and what is behind the opcode. -/
def rspErr : List UInt8 → UInt8
  | op :: body =>
    if op = Op.errorRsp then
      let err := body.getD 3 0
      if err = 0 then Err.unlikely else err
    else 0
  | [] => Err.unlikely

/-! ## The exchange -/

/-- A client in its write procedure and the server. -/
structure LongWrite (σ : Type*) where
  params : WriteParams
  stage : WriteStage
  server : Server σ

variable {σ : Type*}

/-- The first PDU that has been queued since the log was `before` long. -/
def answerSince (before : ℕ) (s : Server σ) : Option (List UInt8) :=
  (s.log.drop before).findSome? fun
    | .sent pdu => some pdu
    | _ => none

/-- One round: the server handles the request, the client its response. A
request without a response runs into the transaction's timeout. -/
def LongWrite.round (x : LongWrite σ) : LongWrite σ :=
  match x.stage with
  | .finished _ => x
  | .waiting req =>
    let mtu := x.server.mtu
    let server := x.server.recv req.pdu
    match answerSince x.server.log.length server with
    | none => { x with stage := .finished Err.unlikely, server }
    | some rsp =>
      match req with
      | .prepare _ _ _ =>
        let (params, stage) := gattPrepareWriteRsp mtu x.params (rspErr rsp) rsp.tail
        { params, stage, server }
      | _ => { x with stage := .finished (rspErr rsp), server }

/-- Rounds one after the other. -/
def LongWrite.rounds : ℕ → LongWrite σ → LongWrite σ
  | 0, x => x
  | n + 1, x => rounds n x.round

/-- The call of `bt_gatt_write`. -/
def LongWrite.start (s : Server σ) (params : WriteParams) : LongWrite σ where
  params := params
  stage := .waiting (btGattWrite s.mtu params)
  server := s

end Gatt

end OpenBlue

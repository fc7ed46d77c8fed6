import OpenBlue.Att.Model.Recv
/-!
# ATT bearers — what is queued, sent and outstanding

The model of the transmit half of `att.c` over any number of bearers: the
three queues a buffer can wait in, `chan_send`, the request outstanding on
a bearer, and what completes it. The outcomes of L2CAP are inputs, numbered
by call; whether a PDU can be signed is part of the state (`signs`).
A buffer is in the hands of its holder (`held`), in a queue, in a request
that waits, with L2CAP, or unreferenced (`freed`).

When a buffer is destroyed, `att_tx_destroy` may call `bt_att_sent`, which
sends further buffers; where a function unreferences one, that call is the
parameter `sent`, and `attSentN` ties the knot. `os_sched_lock` is left out:
its sections nest, and each is taken to be one step.
-/

namespace OpenBlue

namespace Att

/-- The error codes the transmit half tells apart. -/
inductive Errno
  | eagain
  | econnreset
  | einval
  | emsgsize
  | enoent
  | enotconn
  | enotsup
  | att (code : UInt8)
  | other (code : ℕ)
  deriving DecidableEq, Repr

/-- `enum bt_att_chan_opt`. -/
inductive ChanOpt
  | none
  | unenhancedOnly
  | enhancedOnly
  deriving DecidableEq, Repr

/-- A buffer of `att_pool`: which one it is, the opcode at its head, its
length, and the option of its metadata. -/
structure Buf where
  id : ℕ
  op : UInt8
  len : ℕ
  opt : ChanOpt
  deriving DecidableEq, Repr

/-- The fields of `struct bt_att_tx_meta_data` that sending changes:
whether the opcode is set, the error, and the bearer. -/
structure TxMeta where
  opcode : Bool
  err : Bool
  chan : Option ℕ
  deriving DecidableEq, Repr

/-- `struct bt_att_req`: the buffer is there while the request waits. -/
structure Req where
  id : ℕ
  op : UInt8
  encode : Bool
  buf : Option Buf
  retrying : Bool
  deriving DecidableEq, Repr

/-- `chan->req`: `NULL`, `&cancel`, or a request. -/
inductive Slot
  | idle
  | cancelled
  | busy (req : Req)
  deriving DecidableEq, Repr

/-- `struct bt_att_chan`. -/
structure Chan where
  attached : Bool
  connected : Bool
  enhanced : Bool
  pendingSent : Bool
  statusOut : Bool
  rxMtu : ℕ
  txMtu : ℕ
  req : Slot
  txQueue : List Buf
  deriving DecidableEq, Repr

/-- `bt_att_mtu`. -/
def Chan.mtu (chan : Chan) : ℕ := min chan.rxMtu chan.txMtu

/-- A callback of a request: the request, the error, and what it is given
of the PDU. -/
structure Done where
  req : Req
  err : Option Errno
  pdu : List UInt8
  deriving DecidableEq, Repr

/-- The options of the build that the bearers read. -/
structure BearerCfg where
  eatt : Bool
  smp : Bool
  retryOnSecErr : Bool
  localMtuUatt : ℕ
  readMultiple : Bool
  readMultVarLen : Bool
  deriving DecidableEq, Repr

/-- The bearers of a connection: `struct bt_att`, its channels and where
every buffer is. -/
structure Bearers where
  cfg : BearerCfg
  connState : Bool
  fixed : ℕ
  chan : ℕ → Chan
  chans : List ℕ
  reqs : List Req
  txQueue : List Buf
  held : List Buf
  l2cap : List (ℕ × Buf)
  freed : List Buf
  txMeta : ℕ → TxMeta
  next : ℕ
  l2capSend : ℕ → Option Errno
  signs : Option Errno
  calls : ℕ
  done : List Done

namespace Bearers

/-- The bearer `c` changed. -/
def setChan (s : Bearers) (c : ℕ) (chan : Chan) : Bearers :=
  { s with chan := Function.update s.chan c chan }

def setReq (s : Bearers) (c : ℕ) (req : Slot) : Bearers :=
  s.setChan c { s.chan c with req }

def setMeta (s : Bearers) (buf : Buf) (m : TxMeta) : Bearers :=
  { s with txMeta := Function.update s.txMeta buf.id m }

/-- `bt_att_is_enhanced`. -/
def isEnhanced (s : Bearers) (c : ℕ) : Bool := s.cfg.eatt && (s.chan c).enhanced

/-- `att_get`. -/
def attGet (s : Bearers) : Bool := s.connState && (s.chan s.fixed).connected

/-- `att_chan_matches_chan_opt`. -/
def matchesOpt (s : Bearers) (c : ℕ) : ChanOpt → Bool
  | .none => true
  | .enhancedOnly => s.isEnhanced c
  | .unenhancedOnly => !s.isEnhanced c

/-- The first element that meets the condition, and the others. -/
def takeFirst {α : Type*} (p : α → Bool) : List α → Option (α × List α)
  | [] => none
  | x :: xs => if p x then some (x, xs) else (takeFirst p xs).map fun r => (r.1, x :: r.2)

section Sent

variable (sent : ℕ → Bearers → Bearers)

/-! ## Sending -/

/-- `bt_buf_unref` of the last reference: `att_tx_destroy`, with
`att_on_sent_cb` as far as it sends. -/
def unref (s : Bearers) (buf : Buf) : Bearers :=
  let m := s.txMeta buf.id
  let s := { s with freed := buf :: s.freed }.setMeta buf ⟨false, false, none⟩
  if m.opcode ∧ ¬ m.err then
    match m.chan with
    | some c => if (s.chan c).attached ∧ ¬ s.isEnhanced c then sent c s else s
    | none => s
  else s

/-- `chan_send`, of a buffer that is in nobody's list. -/
def chanSend (s : Bearers) (c : ℕ) (buf : Buf) : Option Errno × Bearers :=
  let m := s.txMeta buf.id
  if ¬ (s.chan c).connected then (some .einval, s)
  else if s.cfg.eatt ∧ buf.op = Op.mtuReq ∧ (s.chan c).enhanced then (some .enotsup, s)
  else
    let s := s.setMeta buf ⟨true, false, m.chan⟩
    if s.isEnhanced c then
      -- a bearer with an SDU on its way is not given another
      if (s.chan c).pendingSent then (some .eagain, s)
      else if buf.op = Op.signedWriteCmd then (some .enotsup, s)
      else if opGetType buf.op = .request ∧ ¬ (s.chan c).statusOut then (some .eagain, s)
      else
        match s.l2capSend s.calls with
        | some err => (some err, { s with calls := s.calls + 1 }.setMeta buf ⟨true, true, m.chan⟩)
        | none =>
          (none,
            ({ s with calls := s.calls + 1, l2cap := (c, buf) :: s.l2cap }.setChan c
              { s.chan c with pendingSent := true }).setMeta buf ⟨true, false, some c⟩)
    else
      match (if buf.op = Op.signedWriteCmd then s.signs else none) with
      | some err => (some err, unref sent s buf)
      | none =>
        match s.l2capSend s.calls with
        | some err => (some err, { s with calls := s.calls + 1 }.setMeta buf ⟨true, true, m.chan⟩)
        | none =>
          (none,
            { s with calls := s.calls + 1, l2cap := (c, buf) :: s.l2cap }.setMeta buf
              ⟨true, false, some c⟩)

/-- `bt_att_chan_send`. -/
def btAttChanSend (s : Bearers) (c : ℕ) (buf : Buf) : Option Errno × Bearers :=
  if s.cfg.eatt ∧ ¬ s.matchesOpt c buf.opt then (some .einval, s) else chanSend sent s c buf

/-- `process_queue` on `att->tx_queue`. -/
def processTxQueue (s : Bearers) (c : ℕ) : Option Errno × Bearers :=
  match takeFirst (fun buf => !s.cfg.eatt || s.matchesOpt c buf.opt) s.txQueue with
  | none => (some .enoent, s)
  | some (buf, rest) =>
    match btAttChanSend sent { s with txQueue := rest } c buf with
    | (some err, s) => (some err, { s with txQueue := buf :: s.txQueue })
    | (none, s) => (none, s)

/-- `process_queue` on `chan->tx_queue`. -/
def processChanQueue (s : Bearers) (c : ℕ) : Option Errno × Bearers :=
  match takeFirst (fun buf => !s.cfg.eatt || s.matchesOpt c buf.opt) (s.chan c).txQueue with
  | none => (some .enoent, s)
  | some (buf, rest) =>
    match btAttChanSend sent (s.setChan c { s.chan c with txQueue := rest }) c buf with
    | (some err, s) =>
      (some err, s.setChan c { s.chan c with txQueue := buf :: (s.chan c).txQueue })
    | (none, s) => (none, s)

/-- `bt_att_chan_req_send`, of a request that is in no list. The request
comes back where it could not be sent. -/
def btAttChanReqSend (s : Bearers) (c : ℕ) (req : Req) : Option Errno × Bearers :=
  match req.buf with
  | none => (some .einval, s)
  | some buf =>
    if (s.chan c).mtu < buf.len then (some .emsgsize, s)
    else
      match btAttChanSend sent (s.setReq c (.busy { req with buf := none })) c buf with
      | (some err, s) => (some err, s.setReq c .idle)
      | (none, s) => (none, s)

/-- `bt_att_sent`. -/
def attSent (c : ℕ) (s : Bearers) : Bearers :=
  let s := s.setChan c { s.chan c with pendingSent := false }
  if ¬ (s.chan c).attached then s
  else
    let queues := fun s =>
      match processChanQueue sent s c with
      | (none, s) => s
      | (some _, s) => (processTxQueue sent s c).2
    match (s.chan c).req, s.reqs with
    | .idle, req :: reqs =>
      match btAttChanReqSend sent { s with reqs } c req with
      | (none, s) => s
      | (some _, s) => queues { s with reqs := req :: s.reqs }
    | _, _ => queues s

/-- The loop of `att_send_process`. -/
def attSendLoop (prev : Option ℕ) (err : Option Errno) : List ℕ → Bearers → Bearers
  | [], s => s
  | c :: cs, s =>
    if err = some .enoent ∧ prev.any (fun p => s.isEnhanced c = s.isEnhanced p) then
      attSendLoop prev err cs s
    else
      match processTxQueue sent s c with
      | (none, s) => s
      | (some err, s) => attSendLoop (some c) (some err) cs s

/-- `att_send_process`. -/
def attSendProcess (s : Bearers) : Bearers := attSendLoop sent none none s.chans s

/-- The loop of `att_req_send_process`; `found` is whether the last bearer
had a request it could try. -/
def attReqSendLoop (prev : Option ℕ) (found : Bool) : List ℕ → Bearers → Bearers
  | [], s => s
  | c :: cs, s =>
    if (s.chan c).req ≠ .idle then attReqSendLoop prev found cs s
    else if ¬ found ∧ prev.any (fun p => s.isEnhanced c = s.isEnhanced p) then
      attReqSendLoop prev found cs s
    else
      match takeFirst (fun req =>
        !s.cfg.eatt || (req.buf.map fun buf => s.matchesOpt c buf.opt).getD true) s.reqs with
      | none => attReqSendLoop (some c) false cs s
      | some (req, reqs) =>
        match btAttChanReqSend sent { s with reqs } c req with
        | (none, s) => s
        | (some _, s) => attReqSendLoop (some c) true cs { s with reqs := req :: s.reqs }

/-- `att_req_send_process`. -/
def attReqSendProcess (s : Bearers) : Bearers := attReqSendLoop sent none false s.chans s

/-- `bt_att_chan_send_rsp`. -/
def btAttChanSendRsp (s : Bearers) (c : ℕ) (buf : Buf) : Bearers :=
  match chanSend sent s c buf with
  | (none, s) => s
  | (some _, s) => s.setChan c { s.chan c with txQueue := (s.chan c).txQueue ++ [buf] }

/-! ## Completing a request -/

/-- `bt_att_req_free`. -/
def reqFree (s : Bearers) (req : Req) : Bearers :=
  match req.buf with
  | some buf => unref sent s buf
  | none => s

/-- `att_handle_rsp`, where a request is outstanding or cancelled. -/
def complete (s : Bearers) (c : ℕ) (pdu : List UInt8) (err : Option Errno) : Bearers :=
  match (s.chan c).req with
  | .idle => s
  | .cancelled => attReqSendProcess sent (s.setReq c .idle)
  | .busy req =>
    let s := (reqFree sent s req).setReq c .idle
    let s := attReqSendProcess sent s
    { s with done := s.done ++ [⟨req, err, pdu⟩] }

/-- The loop of `att_chan_detach` over the queue of the bearer. -/
def drainChan (c : ℕ) : ℕ → Bearers → Bearers
  | 0, s => s
  | n + 1, s =>
    match (s.chan c).txQueue with
    | [] => s
    | buf :: bufs =>
      drainChan c n (unref sent (s.setChan c { s.chan c with txQueue := bufs }) buf)

/-- `att_chan_detach`. -/
def attChanDetach (s : Bearers) (c : ℕ) : Bearers :=
  let s := { s with chans := s.chans.erase c }
  let s := drainChan sent c (s.chan c).txQueue.length s
  let s := complete sent s c [] (some .econnreset)
  s.setChan c { s.chan c with attached := false, connected := false }

/-- The loop of `att_reset` over the buffers. -/
def drainTx : ℕ → Bearers → Bearers
  | 0, s => s
  | n + 1, s =>
    match s.txQueue with
    | [] => s
    | buf :: bufs => drainTx n (unref sent { s with txQueue := bufs } buf)

/-- The loop of `att_reset` over the requests. -/
def dropReqs : ℕ → Bearers → Bearers
  | 0, s => s
  | n + 1, s =>
    match s.reqs with
    | [] => s
    | req :: reqs =>
      let s := { s with reqs, done := s.done ++ [⟨req, some .econnreset, []⟩] }
      dropReqs n (reqFree sent s req)

/-- `att_reset`. -/
def attReset (s : Bearers) : Bearers :=
  let s := drainTx sent s.txQueue.length s
  dropReqs sent s.reqs.length s

/-- `bt_att_disconnected`. -/
def attDisconnected (s : Bearers) (c : ℕ) : Bearers :=
  if ¬ (s.chan c).attached then s
  else
    let s := attChanDetach sent s c
    if s.chans ≠ [] then s else attReset sent s

/-- `att_handle_rsp`. A response that nobody waits for takes the bearer
down. -/
def attHandleRsp (s : Bearers) (c : ℕ) (pdu : List UInt8) (err : Option Errno) : Bearers :=
  if (s.chan c).req = .idle then attDisconnected sent s c else complete sent s c pdu err

/-! ## The client's handlers -/

/-- `att_error_rsp`; `raised` is whether `att_change_security` has taken
the error on. -/
def attErrorRsp (s : Bearers) (c : ℕ) (body : List UInt8) (raised : Bool) : Bearers :=
  let error := body.getD 3 0
  match (s.chan c).req with
  | .busy req =>
    if error = 0 then attHandleRsp sent s c [] (some (.att Err.unlikely))
    else if s.cfg.retryOnSecErr ∧ raised then
      s.setReq c (.busy { req with retrying := true })
    else attHandleRsp sent s c [] (some (.att error))
  | _ => attHandleRsp sent s c [] (some (.att Err.unlikely))

/-- `att_mtu_rsp`. -/
def attMtuRsp (s : Bearers) (c : ℕ) (body : List UInt8) : Bearers :=
  let mtu := getLe16 body
  if mtu < 23 then attHandleRsp sent s c [] (some (.att Err.invalidPdu))
  else
    attHandleRsp sent
      (s.setChan c { s.chan c with rxMtu := s.cfg.localMtuUatt, txMtu := mtu }) c body none

/-- What the handlers of the responses and of the confirmation have in
common. -/
def attHandleSuccess (s : Bearers) (c : ℕ) (body : List UInt8) : Bearers :=
  attHandleRsp sent s c body none

/-- The entries of `handlers` for what a client receives as an answer, and
the length each expects. -/
def answers (cfg : BearerCfg) : List (UInt8 × ℕ) :=
  [(Op.confirm, 0), (Op.errorRsp, 4), (Op.mtuRsp, 2), (Op.findInfoRsp, 1), (Op.findTypeRsp, 4),
    (Op.readTypeRsp, 1), (Op.readRsp, 0), (Op.readBlobRsp, 0)] ++
  (if cfg.readMultiple then [(Op.readMultRsp, 0)] else []) ++
  (if cfg.readMultVarLen then [(Op.readMultVlRsp, 2)] else []) ++
  [(Op.readGroupRsp, 1), (Op.writeRsp, 0), (Op.prepareWriteRsp, 4), (Op.execWriteRsp, 0)]

/-- `bt_att_recv`, for the answers. What else comes is for the server half,
or for the application, and completes nothing. -/
def recv (s : Bearers) (c : ℕ) (raised : Bool) : List UInt8 → Bearers
  | [] => s
  | op :: body =>
    if ¬ s.connState then s
    else if ¬ (s.chan c).attached then s
    else
      match (answers s.cfg).find? (·.1 = op) with
      | none => s
      | some (_, expectLen) =>
        if body.length < expectLen then s
        else if op = Op.errorRsp then attErrorRsp sent s c body raised
        else if op = Op.mtuRsp then attMtuRsp sent s c body
        else attHandleSuccess sent s c body

/-- `att_req_retry`, of the request outstanding on `c`. The PDU can be had
(`created`) and its encoding succeeds (`encoded`). -/
def attReqRetry (s : Bearers) (c : ℕ) (req : Req) (created encoded : Bool) :
    Option UInt8 × Bearers :=
  if ¬ req.encode then (some Err.authentication, s)
  else if ¬ created then (some Err.unlikely, s)
  else
    let buf : Buf := ⟨s.next, req.op, 0, .none⟩
    let s := { s with next := s.next + 1 }.setMeta buf ⟨false, false, some c⟩
    if ¬ encoded then (some Err.unlikely, unref sent s buf)
    else
      match chanSend sent s c buf with
      | (none, s) => (none, s)
      | (some _, s) => (some Err.unlikely, unref sent s buf)

/-- `bt_att_encrypt_change`; `fails` is a non-zero status, `low` security
level one. -/
def encryptChange (s : Bearers) (c : ℕ) (fails low created encoded : Bool) : Bearers :=
  if ¬ (s.chan c).attached then s
  else
    match (s.chan c).req with
    | .busy req =>
      if ¬ req.retrying then s
      else if fails then attHandleRsp sent s c [] (some (.att Err.authentication))
      else if low then s
      else
        match attReqRetry sent s c req created encoded with
        | (none, s) => s
        | (some err, s) => attHandleRsp sent s c [] (some (.att err))
    | _ => s

/-- `bt_att_status`. -/
def attStatus (s : Bearers) (c : ℕ) (out : Bool) : Bearers :=
  let s := s.setChan c { s.chan c with statusOut := out }
  if ¬ out then s
  else if ¬ (s.chan c).attached then s
  else if (s.chan c).req ≠ .idle then s
  else
    match s.reqs with
    | [] => s
    | req :: reqs =>
      match btAttChanReqSend sent { s with reqs } c req with
      | (none, s) => s
      | (some _, s) => { s with reqs := req :: s.reqs }

/-! ## The interface -/

/-- `bt_att_send`, of a buffer its caller holds. -/
def btAttSend (s : Bearers) (buf : Buf) : Option Errno × Bearers :=
  let s := { s with held := s.held.erase buf }
  if ¬ s.attGet then (some .enotconn, unref sent s buf)
  else (none, attSendProcess sent { s with txQueue := s.txQueue ++ [buf] })

/-- `gatt_notify_mult_send`; a PDU with a `single` value becomes a
notification, which is two bytes shorter. -/
def gattNotifyMultSend (s : Bearers) (buf : Buf) (single : Bool) : Option Errno × Bearers :=
  let buf' : Buf := if single then { buf with op := Op.notify, len := buf.len - 2 } else buf
  let s := { s with held := buf' :: s.held.erase buf }
  match btAttSend sent s buf' with
  | (none, s) => (none, s)
  | (some err, s) => (some err, unref sent s buf')

/-- `bt_att_req_send`, of a request whose buffer the caller holds. -/
def btAttReqSend (s : Bearers) (req : Req) (buf : Buf) : Option Errno × Bearers :=
  if ¬ s.attGet then (some .enotconn, s)
  else
    (none, attReqSendProcess sent
      { s with held := s.held.erase buf, reqs := s.reqs ++ [{ req with buf := some buf }] })

/-- The first of the bearers on which the request is outstanding. -/
def findReq (s : Bearers) (id : ℕ) : Option ℕ :=
  s.chans.find? fun c =>
    match (s.chan c).req with
    | .busy req => req.id = id
    | _ => false

/-- `bt_att_req_cancel`. -/
def btAttReqCancel (s : Bearers) (id : ℕ) : Bearers :=
  if ¬ s.attGet then s
  else
    match s.findReq id with
    | some c =>
      match (s.chan c).req with
      | .busy req => reqFree sent (s.setReq c .cancelled) req
      | _ => s
    | none =>
      match takeFirst (fun req => req.id = id) s.reqs with
      | none => s
      | some (req, reqs) => reqFree sent { s with reqs } req

end Sent

/-- `bt_att_sent`, with the calls nested in it down to a depth. -/
def attSentN : ℕ → ℕ → Bearers → Bearers
  | 0, _, s => s
  | n + 1, c, s => attSent (attSentN n) c s

/-- The destroy callback: every nested call has taken one more buffer out of
`att->tx_queue`. -/
def onSent (c : ℕ) (s : Bearers) : Bearers := attSentN (s.txQueue.length + 1) c s

/-! ## Events -/

/-- What can happen to the bearers. -/
inductive Event
  /-- A buffer is created, with metadata for a bearer. -/
  | create (op : UInt8) (len : ℕ) (opt : ChanOpt) (c : ℕ)
  /-- The holder of a buffer unreferences it. -/
  | drop (buf : Buf)
  | send (buf : Buf)
  | notifyMultSend (buf : Buf) (single : Bool)
  | reqSend (req : Req) (buf : Buf)
  | sendRsp (c : ℕ) (buf : Buf)
  | reqCancel (id : ℕ)
  | recv (c : ℕ) (pdu : List UInt8) (raised : Bool)
  /-- L2CAP is done with a buffer. -/
  | release (c : ℕ) (buf : Buf)
  /-- The `sent` operation of an enhanced bearer. -/
  | sent (c : ℕ)
  | status (c : ℕ) (out : Bool)
  | encryptChange (c : ℕ) (fails low created encoded : Bool)
  | timeout (c : ℕ)
  | disconnected (c : ℕ)
  /-- `att_chan_new`, of a bearer that is not there. -/
  | attach (c : ℕ) (enhanced : Bool)
  | connected (c : ℕ)
  /-- The MTU of a bearer, by an exchange or by L2CAP. -/
  | mtu (c rx tx : ℕ)
  | conn (up : Bool)
  /-- What `bt_smp_sign` returns from now on. -/
  | signing (signs : Option Errno)
  deriving DecidableEq, Repr

/-- One event. Who passes a buffer on holds it. -/
def step (s : Bearers) : Event → Bearers
  | .create op len opt c =>
    let buf : Buf := ⟨s.next, op, len, opt⟩
    { s with next := s.next + 1, held := buf :: s.held }.setMeta buf ⟨false, false, some c⟩
  | .drop buf =>
    if buf ∈ s.held then unref onSent { s with held := s.held.erase buf } buf else s
  | .send buf => if buf ∈ s.held then (btAttSend onSent s buf).2 else s
  | .notifyMultSend buf single =>
    if buf ∈ s.held then (gattNotifyMultSend onSent s buf single).2 else s
  | .reqSend req buf => if buf ∈ s.held then (btAttReqSend onSent s req buf).2 else s
  | .sendRsp c buf =>
    if buf ∈ s.held ∧ (s.chan c).attached then
      btAttChanSendRsp onSent { s with held := s.held.erase buf } c buf
    else s
  | .reqCancel id => btAttReqCancel onSent s id
  | .recv c pdu raised => recv onSent s c raised pdu
  | .release c buf =>
    if (c, buf) ∈ s.l2cap then unref onSent { s with l2cap := s.l2cap.erase (c, buf) } buf else s
  | .sent c => onSent c s
  | .status c out => attStatus onSent s c out
  | .encryptChange c fails low created encoded =>
    if s.cfg.smp then encryptChange onSent s c fails low created encoded else s
  | .timeout c => attDisconnected onSent s c
  | .disconnected c => attDisconnected onSent s c
  | .attach c enhanced =>
    if (s.chan c).attached ∨ c ∈ s.chans then s
    else
      { s with chans := c :: s.chans }.setChan c
        ⟨true, false, enhanced, false, false, 23, 23, .idle, []⟩
  | .connected c => s.setChan c { s.chan c with connected := (s.chan c).attached }
  | .mtu c rx tx => s.setChan c { s.chan c with rxMtu := rx, txMtu := tx }
  | .conn up => { s with connState := up }
  | .signing signs => { s with signs }

end Bearers

end Att

end OpenBlue

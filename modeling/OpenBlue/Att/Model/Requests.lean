import OpenBlue.Att.Model.Bearer
/-!
# ATT requests — sent, cancelled, freed and found

What `att.c` does with a `struct bt_att_req` as a piece of memory. The
moves of a request between the list of the connection and the bearers are
those of `Model/Bearer.lean`; here each function that reaches
`bt_att_req_free` has beside it the requests it gives back to `req_slab`,
in the states that the function goes through (`Bearers.freedBy_perm` says
that they are those it tells), and the search by user data is added. A
request is known by its number, and `userData` is its field of that name,
which no function changes; 0 is `NULL`.
-/

namespace OpenBlue

namespace Att

namespace Bearers

/-! ## `bt_att_find_req_by_user_data` -/

/-- What the search comes to: a pointer, or a read through `NULL`. -/
inductive Found
  | null
  | req (req : Req)
  /-- The placeholder `cancel`, whose `user_data` is `NULL`. -/
  | cancel
  | fault
  deriving DecidableEq, Repr

/-- The loop over the bearers; `none` where it comes to its end. -/
def findOutstanding (userData : ℕ → ℕ) (u : ℕ) (s : Bearers) : List ℕ → Option Found
  | [] => none
  | c :: cs =>
    match (s.chan c).req with
    -- `chan->req->user_data`, whatever `chan->req` is
    | .idle => some .fault
    | .cancelled => if u = 0 then some .cancel else findOutstanding userData u s cs
    | .busy req =>
      if userData req.id = u then some (.req req) else findOutstanding userData u s cs

/-- `bt_att_find_req_by_user_data`. -/
def findReqByUserData (userData : ℕ → ℕ) (s : Bearers) (u : ℕ) : Found :=
  if ¬ s.attGet then .null
  else
    match findOutstanding userData u s s.chans with
    | some found => found
    | none =>
      match s.reqs.find? (fun req => userData req.id = u) with
      | some req => .req req
      | none => .null

/-! ## What is given back -/

/-- `att_handle_rsp`, where `chan->req` is not `NULL`. -/
def completeFrees (s : Bearers) (c : ℕ) : List ℕ :=
  match (s.chan c).req with
  | .busy req => [req.id]
  | _ => []

section Sent

variable (sent : ℕ → Bearers → Bearers)

/-- `att_chan_detach`. -/
def attChanDetachFrees (s : Bearers) (c : ℕ) : List ℕ :=
  let s := { s with chans := s.chans.erase c }
  completeFrees (drainChan sent c (s.chan c).txQueue.length s) c

/-- The loop of `att_reset` over the requests. -/
def dropReqsFrees : ℕ → Bearers → List ℕ
  | 0, _ => []
  | n + 1, s =>
    match s.reqs with
    | [] => []
    | req :: reqs =>
      let s := { s with reqs, done := s.done ++ [⟨req, some .econnreset, []⟩] }
      req.id :: dropReqsFrees n (reqFree sent s req)

/-- `att_reset`. -/
def attResetFrees (s : Bearers) : List ℕ :=
  let s := drainTx sent s.txQueue.length s
  dropReqsFrees sent s.reqs.length s

/-- `bt_att_disconnected`. -/
def attDisconnectedFrees (s : Bearers) (c : ℕ) : List ℕ :=
  if ¬ (s.chan c).attached then []
  else
    let frees := attChanDetachFrees sent s c
    let s := attChanDetach sent s c
    if s.chans ≠ [] then frees else frees ++ attResetFrees sent s

/-- `att_handle_rsp`. -/
def attHandleRspFrees (s : Bearers) (c : ℕ) : List ℕ :=
  if (s.chan c).req = .idle then attDisconnectedFrees sent s c else completeFrees s c

/-- `att_error_rsp`. -/
def attErrorRspFrees (s : Bearers) (c : ℕ) (body : List UInt8) (raised : Bool) : List ℕ :=
  let error := body.getD 3 0
  match (s.chan c).req with
  | .busy _ =>
    if error = 0 then attHandleRspFrees sent s c
    else if s.cfg.retryOnSecErr ∧ raised then []
    else attHandleRspFrees sent s c
  | _ => attHandleRspFrees sent s c

/-- `att_mtu_rsp`. -/
def attMtuRspFrees (s : Bearers) (c : ℕ) (body : List UInt8) : List ℕ :=
  let mtu := getLe16 body
  if mtu < 23 then attHandleRspFrees sent s c
  else
    attHandleRspFrees sent
      (s.setChan c { s.chan c with rxMtu := s.cfg.localMtuUatt, txMtu := mtu }) c

/-- `bt_att_recv`. -/
def recvFrees (s : Bearers) (c : ℕ) (raised : Bool) : List UInt8 → List ℕ
  | [] => []
  | op :: body =>
    if ¬ s.connState then []
    else if ¬ (s.chan c).attached then []
    else
      match (answers s.cfg).find? (·.1 = op) with
      | none => []
      | some (_, expectLen) =>
        if body.length < expectLen then []
        else if op = Op.errorRsp then attErrorRspFrees sent s c body raised
        else if op = Op.mtuRsp then attMtuRspFrees sent s c body
        else attHandleRspFrees sent s c

/-- `bt_att_encrypt_change`. -/
def encryptChangeFrees (s : Bearers) (c : ℕ) (fails low created encoded : Bool) : List ℕ :=
  if ¬ (s.chan c).attached then []
  else
    match (s.chan c).req with
    | .busy req =>
      if ¬ req.retrying then []
      else if fails then attHandleRspFrees sent s c
      else if low then []
      else
        match attReqRetry sent s c req created encoded with
        | (none, _) => []
        | (some _, s) => attHandleRspFrees sent s c
    | _ => []

end Sent

/-- `bt_att_req_cancel` gives the request back, found or not. -/
def btAttReqCancelFrees (s : Bearers) (id : ℕ) : List ℕ := if ¬ s.attGet then [] else [id]

/-- What `bt_att_req_free` is called with, in one event. The caller of a
`bt_att_req_send` that fails has its request still. -/
def freedBy (s : Bearers) : Event → List ℕ
  | .reqCancel id => btAttReqCancelFrees s id
  | .recv c pdu raised => recvFrees onSent s c raised pdu
  | .encryptChange c fails low created encoded =>
    if s.cfg.smp then encryptChangeFrees onSent s c fails low created encoded else []
  | .timeout c => attDisconnectedFrees onSent s c
  | .disconnected c => attDisconnectedFrees onSent s c
  | _ => []

/-- The request that `bt_att_req_send` has taken on. -/
def sentBy (s : Bearers) : Event → List ℕ
  | .reqSend req buf => if buf ∈ s.held ∧ s.attGet then [req.id] else []
  | _ => []

/-- The request that `bt_att_req_cancel` has taken back. -/
def cancelledBy (s : Bearers) : Event → List ℕ
  | .reqCancel id => if s.attGet then [id] else []
  | _ => []

end Bearers

/-- A connection, with the requests sent, cancelled and freed so far. -/
structure Requests where
  bearers : Bearers
  sent : List ℕ
  cancelled : List ℕ
  freed : List ℕ

/-- One event. -/
def Requests.step (r : Requests) (e : Bearers.Event) : Requests where
  bearers := r.bearers.step e
  sent := r.bearers.sentBy e ++ r.sent
  cancelled := r.bearers.cancelledBy e ++ r.cancelled
  freed := r.bearers.freedBy e ++ r.freed

end Att

end OpenBlue

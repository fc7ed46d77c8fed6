import OpenBlue.L2cap.Model.Sender
/-!
# L2CAP — two ends of a channel

Two endpoints with one credit-based channel between them. Each end sends
K-frames and LE Flow Control Credit PDUs to the other over an in-order
link; which end acts next, and how the environment answers, is free. The
channel is set up as a connection request and its response leave it.
-/

namespace OpenBlue

namespace L2cap

/-- One end: the channel with the K-frames it has put on the link, and
the credit PDUs it has put there. -/
structure PairEnd where
  cfg : Cfg
  sender : Sender
  creditPdus : List ℕ := []
  /-- What the end has disconnected the channel for. -/
  faults : List Fault := []

/-- What an end does next. -/
inductive PairEvent
  | send (buf : SendBuf)
  | pull (amount : ℕ)
  /-- The next K-frame of the other end is received. -/
  | recv (env : RecvEnv)
  /-- A K-frame is taken from the receive queue. -/
  | rxWork (env : RecvEnv)
  /-- The application is done with an SDU. -/
  | recvComplete (buf : Bool)
  /-- The next credit PDU of the other end is received. -/
  | credits (disc : Option UInt8)
  deriving DecidableEq, Repr

/-- The credits of a credit PDU. -/
def ChanSig.credits? : ChanSig → Option ℕ
  | .credits n => some n
  | .disconnReq _ => none

/-- The outcome of a call on the channel. -/
def PairEnd.absorb (e : PairEnd) (o : Outcome) : PairEnd :=
  { e with
    sender := { e.sender with chan := o.chan }
    creditPdus := e.creditPdus ++ o.sent.filterMap ChanSig.credits?
    faults := e.faults ++ o.faults }

/-- `le_credits`. -/
def PairEnd.leCredits (n : ℕ) (disc : Option UInt8) (e : PairEnd) : PairEnd :=
  if n = 0 then e
  else if 0xffff < e.sender.chan.tx.credits + n then
    e.absorb (e.sender.chan.disconnectFor .creditsOverflow disc)
  else { e with sender := e.sender.giveCredits n }

/-- Two ends. -/
structure Pair where
  near : PairEnd
  far : PairEnd

/-- The ends change places. -/
def Pair.swap (p : Pair) : Pair := ⟨p.far, p.near⟩

/-- What the near end does. -/
def Pair.stepNear (p : Pair) : PairEvent → Pair
  | .send buf =>
    if p.near.sender.chan.shutdown then p
    else { p with near := { p.near with sender := p.near.sender.send p.near.cfg buf } }
  | .pull amount => { p with near := { p.near with sender := p.near.sender.pull amount } }
  | .recv env =>
    match p.far.sender.frames with
    | [] => p
    | frame :: rest =>
      { near := p.near.absorb (p.near.sender.chan.recvQueue env (frame.drop 4))
        far := { p.far with sender := { p.far.sender with frames := rest } } }
  | .rxWork env => { p with near := p.near.absorb (p.near.sender.chan.rxProcess env) }
  | .recvComplete buf =>
    if p.near.sender.chan.held = 0 then p
    else { p with near := p.near.absorb (p.near.sender.chan.recvComplete buf) }
  | .credits disc =>
    match p.far.creditPdus with
    | [] => p
    | n :: rest =>
      { near := p.near.leCredits n disc, far := { p.far with creditPdus := rest } }

/-- One event, at the near end or at the far one. -/
def Pair.step (p : Pair) (e : Bool × PairEvent) : Pair :=
  if e.1 then p.stepNear e.2 else (p.swap.stepNear e.2).swap

/-! ## The channel is set up -/

/-- A channel object with the parameters the application chose, and its
receive parameters derived from them. -/
def freshChan (cfg : Cfg) (cid mtu psm : ℕ) (allocBuf : Bool) : Chan :=
  ({ rx := { cid := cid, mtu := mtu }, psm := psm, allocBuf := allocBuf } : Chan).rxInit cfg

/-- What an end brings along: its build options and the parameters the
application chose, which the other end does not refuse. -/
structure Setup where
  cfg : Cfg
  cid : ℕ
  mtu : ℕ
  psm : ℕ
  allocBuf : Bool
  cid_dyn : cidIsDyn cid
  mtu_lt : mtu < 2 ^ 16
  accepted : 23 ≤ (freshChan cfg cid mtu psm allocBuf).rx.mtu

/-- The channel before the connection. -/
def Setup.fresh (u : Setup) : Chan := freshChan u.cfg u.cid u.mtu u.psm u.allocBuf

/-- The channel once the other end's parameters are known: `peer` is what
the connection request or response carries. -/
def Setup.connected (u : Setup) (peer : Endpoint) : PairEnd :=
  let ch : Chan :=
    { u.fresh with
      attached := true
      destroy := true
      state := .connected
      tx := { peer with credits := 0 } }
  { cfg := u.cfg, sender := Sender.giveCredits peer.credits { chan := ch } }

/-- A channel between two ends. -/
def Pair.established (u v : Setup) : Pair :=
  ⟨u.connected v.fresh.rx, v.connected u.fresh.rx⟩

end L2cap

end OpenBlue

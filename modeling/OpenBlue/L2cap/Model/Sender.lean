import OpenBlue.L2cap.Model.Chan
/-!
# L2CAP — the transmit side of one channel

One channel as `l2cap_data_pull` sees it: the channel, whether it is
linked in `l2cap_data_ready`, the fragments of the K-frame under way and
the K-frames that are complete. The fragments are put together by the
length in the header, as the link layer's peer does.
-/

namespace OpenBlue

namespace L2cap

/-- A channel and its place in the ready list. -/
structure Sender where
  chan : Chan
  /-- Linked in `l2cap_data_ready`. -/
  ready : Bool := false
  /-- The fragments of the K-frame under way. -/
  begun : Bytes := []
  /-- The K-frames that are complete, header included. -/
  frames : List Bytes := []
  /-- While `le_conn_rsp` is in `ops->connected`, the credits of the response,
  which it gives after that. -/
  opening : Option ℕ := none
  deriving DecidableEq, Repr

/-- What happens to the transmit side of a channel. -/
inductive TxEvent
  /-- `bt_l2cap_chan_send`. -/
  | send (buf : SendBuf)
  /-- `l2cap_data_pull` at the head of the ready list. -/
  | pull (amount : ℕ)
  /-- `le_credits`. -/
  | credits (n : ℕ)
  /-- `ops->connected` returns. -/
  | opened
  deriving DecidableEq, Repr

/-- `bt_l2cap_dyn_chan_send`. -/
def Sender.send (cfg : Cfg) (buf : SendBuf) (s : Sender) : Sender :=
  match s.chan.dynSend cfg buf with
  | none => s
  | some ch => { s with chan := ch, ready := true }

/-- `l2cap_data_pull`. A channel without data, or without a credit for its
next K-frame, is taken off the ready list. -/
def Sender.pull (amount : ℕ) (s : Sender) : Sender :=
  if s.ready = false then s
  else if s.chan.txQueue = [] then { s with ready := false }
  else if s.chan.pduRemaining = 0 ∧ ¬ s.chan.hasCredits then { s with ready := false }
  else
    let ch := s.chan.startPdu
    let r := ch.pullFrag amount
    if ch.pduRemaining ≤ amount then
      { s with
        chan := r.1
        ready := decide (r.1.txQueue ≠ [])
        begun := []
        frames := s.frames ++ [s.begun ++ r.2] }
    else { s with chan := r.1, begun := s.begun ++ r.2 }

/-- `l2cap_chan_tx_give_credits`. The ready list is touched only if
`BT_L2CAP_STATUS_OUT` was clear. -/
def Sender.giveCredits (n : ℕ) (s : Sender) : Sender :=
  { s with
    chan := s.chan.giveCredits n
    ready := s.ready || (!s.chan.out && decide (s.chan.txQueue ≠ [])) }

/-- `le_conn_rsp` behind `ops->connected`. -/
def Sender.open (s : Sender) : Sender :=
  match s.opening with
  | none => s
  | some n => { s.giveCredits n with opening := none }

/-- One event. -/
def Sender.step (cfg : Cfg) (s : Sender) : TxEvent → Sender
  | .send buf => s.send cfg buf
  | .pull amount => s.pull amount
  | .credits n => s.giveCredits n
  | .opened => s.open

/-- A channel whose connection response carries `tx`, when `le_conn_rsp` (or
a turn of `le_ecred_conn_rsp`) calls `ops->connected`. Where the channel was
accepted instead, its credits have been given by then. -/
def Sender.connected (tx : Endpoint) : Sender where
  chan := { attached := true, destroy := true, state := .connected, tx := { tx with credits := 0 } }
  opening := some tx.credits

/-- K-frames received one after another. -/
def Chan.feed : List (RecvEnv × Bytes) → Chan → Outcome
  | [], ch => { chan := ch }
  | (env, buf) :: rest, ch => (ch.leRecv env buf).andThen (Chan.feed rest)

end L2cap

end OpenBlue

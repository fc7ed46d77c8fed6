import OpenBlue.L2cap.Model.Signal
/-!
# L2CAP — what happens to a connection

The calls of the application, the PDUs of the peer, and the link going up
and down, as the events of a state machine. `Event.enabled` is the contract
of the environment: the application hands over channel objects that are
not in use, and the link layer calls L2CAP only while the link is there.
-/

namespace OpenBlue

namespace L2cap

namespace LeConn

/-! ## Connecting -/

/-- `l2cap_le_connect`: whether it succeeds. -/
def leConnect (cfg : Cfg) (secure : Bool) (buf : Option UInt8) (psm i : ℕ) (c : LeConn) :
    LeConn × Bool :=
  if psm < 0x0001 ∨ 0x00ff < psm then (c, false)
  else
    let c := c.modify i fun ch => ch.txInit.rxInit cfg
    match c.chanAdd true i with
    | none => (c, false)
    | some c =>
      let c := c.modify i fun ch => { ch with psm := psm }
      if c.secLevel < (c.chan i).requiredSec then
        if secure then (c.modify i fun ch => { ch with encryptPending := true }, true)
        else (c.drop i, false)
      else
        let r := c.sendConnReq buf i
        if r.2 then r else (r.1.drop i, false)

/-- `bt_l2cap_chan_connect`: whether it succeeds. -/
def chanConnect (cfg : Cfg) (secure : Bool) (buf : Option UInt8) (psm i : ℕ) (c : LeConn) :
    LeConn × Bool :=
  if c.phase ≠ .connected then (c, false)
  else if 4 < (c.chan i).requiredSec then (c, false)
  else
    let c := if (c.chan i).requiredSec = 0 then c.modify i fun ch => { ch with requiredSec := 1 }
      else c
    c.leConnect cfg secure buf psm i

/-- `l2cap_ecred_init`. -/
def ecredInit (cfg : Cfg) (psm i : ℕ) (c : LeConn) : LeConn × Bool :=
  if psm < 0x0001 ∨ 0x00ff < psm then (c, false)
  else
    let c := c.modify i fun ch => ch.txInit.rxInit cfg
    match c.chanAdd true i with
    | none => (c, false)
    | some c => (c.modify i fun ch => { ch with psm := psm }, true)

/-- The channels of `bt_l2cap_ecred_chan_connect`. After a failure those
that were added are removed, but not deleted. -/
def ecredInitAll (cfg : Cfg) (psm : ℕ) : List ℕ → LeConn → LeConn × Bool
  | [], c => (c, true)
  | i :: rest, c =>
    let r := c.ecredInit cfg psm i
    if r.2 then
      let r' := ecredInitAll cfg psm rest r.1
      if r'.2 then r' else (r'.1.chanRemove i, false)
    else r

/-- `bt_l2cap_ecred_chan_connect`: whether it succeeds. -/
def ecredChanConnect (cfg : Cfg) (buf : Option UInt8) (psm : ℕ) (chans : List ℕ) (c : LeConn) :
    LeConn × Bool :=
  let chans := chans.take ecredMaxPerReq
  let r := c.ecredInitAll cfg psm chans
  if r.2 then r.1.sendEcredConnReq buf chans else r

/-! ## Reconfiguring -/

/-- The channels of a reconfiguration belong to one connection. -/
def sameConn (c : LeConn) : Bool → List ℕ → Bool
  | conn, [] => conn
  | true, i :: rest => (c.chan i).attached && c.sameConn true rest
  | false, i :: rest => c.sameConn (c.chan i).attached rest

/-- The part that the two reconfiguration calls share. -/
def sendReconf (buf : Option UInt8) (mtu mps : ℕ) (chans : List ℕ) (c : LeConn) : LeConn × Bool :=
  if c.channels.any fun i => (c.chan i).pendingRxMtu ≠ 0 then (c, false)
  else
    match buf with
    | none => (c, false)
    | some counter =>
      let ident := getIdent counter
      let data := le16 mtu ++ le16 mps ++ chans.flatMap fun i => le16 (c.chan i).rx.cid
      let c := (c.setRequest ident .ecredReconf chans)
      let c := chans.foldl (fun c i => c.modify i fun ch => { ch with pendingRxMtu := mtu }) c
      ((c.sendSig (sigPdu .ecredReconfReq ident data)).1, true)

/-- `bt_l2cap_ecred_chan_reconfigure`: whether it succeeds. -/
def ecredReconfigure (cfg : Cfg) (buf : Option UInt8) (mtu : ℕ) (chans : List ℕ) (c : LeConn) :
    LeConn × Bool :=
  let chans := chans.take ecredMaxPerReq
  if ∃ i ∈ chans, mtu < (c.chan i).rx.mtu then (c, false)
  else if ¬ c.sameConn false chans then (c, false)
  else c.sendReconf buf mtu (min (mtu + 2) cfg.rxMtu) chans

/-- `bt_l2cap_ecred_chan_reconfigure_explicit`: whether it succeeds. -/
def ecredReconfigureExplicit (cfg : Cfg) (buf : Option UInt8) (mtu mps : ℕ) (chans : List ℕ)
    (c : LeConn) : LeConn × Bool :=
  if ¬ (1 ≤ chans.length ∧ chans.length ≤ ecredMaxPerReq) then (c, false)
  else if ¬ (64 ≤ mps ∧ mps ≤ cfg.rxMtu) then (c, false)
  else if ∃ i ∈ chans, mtu < (c.chan i).rx.mtu then (c, false)
  else if ∃ i ∈ chans, 1 < chans.length ∧ mps < (c.chan i).rx.mps then (c, false)
  else if ¬ c.sameConn false chans then (c, false)
  else c.sendReconf buf mtu mps chans

/-! ## Receiving -/

/-- The environment of a received PDU: `sig` for a signalling PDU, `recv`
for a K-frame, `buf` for the disconnection after an incomplete one. -/
structure PduEnv where
  sig : SigEnv := {}
  recv : RecvEnv := {}
  counter : UInt8 := 0
  complete : Bool := true
  disc : Option UInt8 := none

/-- `bt_l2cap_recv`. The PDUs of other fixed channels change nothing here. -/
def recv (cfg : Cfg) (env : PduEnv) (pdu : Bytes) (c : LeConn) : LeConn :=
  if pdu.length < 4 then c
  else
    match c.lookupRxCid (getLe16 (pdu.drop 2)) with
    | none => c
    | some i =>
      if cidIsDyn (c.chan i).rx.cid then
        if env.complete then
          c.absorb env.counter i ((c.chan i).recvQueue env.recv (pdu.drop 4))
        else c.chanDisconnect env.disc i
      else if (c.chan i).destroy = false ∧ (c.chan i).rx.cid = sigCid then
        c.sigRecv cfg env.sig (pdu.drop 4)
      else c

/-! ## The link -/

/-- One fixed channel in `bt_l2cap_connected`. -/
def fixedUp (c : LeConn) (f : ℕ × ℕ) : LeConn :=
  let c := c.modify f.1 fun ch =>
    { ch with rx := { ch.rx with cid := f.2 }, tx := { ch.tx with cid := f.2 } }
  match c.chanAdd false f.1 with
  | none => c
  | some c => c.modify f.1 fun ch => { ch with txQueue := [], out := true }

/-- The connection is there, and `bt_l2cap_connected`. -/
def linkUp (secLevel : ℕ) (fixed : List (ℕ × ℕ)) (c : LeConn) : LeConn :=
  fixed.foldl fixedUp
    { c with phase := .connected, secLevel := secLevel, channels := [], ready := [] }

/-- `bt_l2cap_disconnected`: the list is left as it is. -/
def linkDown (c : LeConn) : LeConn :=
  { c.channels.foldl (fun c i => c.chanDel i) c with phase := .disconnected }

/-- `l2cap_rtx_timeout`. -/
def rtxTimeout (i : ℕ) (c : LeConn) : LeConn :=
  let ch := c.chan i
  let c := c.drop i
  c.dropAll (c.channels.filter fun j =>
    (c.chan j).ident = ch.ident ∧ (c.chan j).pendingReq = ch.pendingReq)

end LeConn

/-! ## Events -/

/-- What happens next. -/
inductive Event
  /-- The link is up, with the fixed channels that accept it. -/
  | linkUp (secLevel : ℕ) (fixed : List (ℕ × ℕ))
  /-- The link is lost, or being taken down. -/
  | linkLost
  | linkDown
  /-- The application sets up a channel object that is not in use; it may
  be one that was zeroed. -/
  | prepare (i : ℕ) (zeroed : Bool) (mtu requiredSec : ℕ) (allocBuf : Bool)
  | connect (i psm : ℕ) (secure : Bool) (buf : Option UInt8)
  | ecredConnect (chans : List ℕ) (psm : ℕ) (buf : Option UInt8)
  | reconfigure (chans : List ℕ) (mtu : ℕ) (buf : Option UInt8)
  | reconfigureExplicit (chans : List ℕ) (mtu mps : ℕ) (buf : Option UInt8)
  | disconnect (i : ℕ) (buf : Option UInt8)
  | send (i : ℕ) (buf : SendBuf)
  | recvComplete (i : ℕ) (counter : UInt8) (buf : Bool)
  /-- A PDU of the peer. -/
  | recv (pdu : Bytes) (env : LeConn.PduEnv)
  /-- The receive work of a channel, one K-frame. -/
  | rxWork (i : ℕ) (counter : UInt8) (env : RecvEnv)
  | pull (amount : ℕ)
  | securityChanged (secLevel : ℕ) (ok : Bool) (bufs : ℕ → Option UInt8)
  | rtxTimeout (i : ℕ)

/-- The channels that `accept` returns. -/
def SigEnv.offered (env : SigEnv) : List ℕ := env.accept.filterMap Except.toOption

namespace LeConn

/-- One event. -/
def exec (cfg : Cfg) (c : LeConn) : Event → LeConn
  | .linkUp secLevel fixed => c.linkUp secLevel fixed
  | .linkLost => { c with phase := .disconnecting }
  | .linkDown => c.linkDown
  | .prepare i zeroed mtu requiredSec allocBuf =>
    c.modify i fun ch =>
      let ch : Chan := if zeroed then { added := ch.added, deleted := ch.deleted } else ch
      { ch with
        rx := { ch.rx with mtu := mtu }
        requiredSec := requiredSec
        allocBuf := allocBuf }
  | .connect i psm secure buf => (c.chanConnect cfg secure buf psm i).1
  | .ecredConnect chans psm buf => (c.ecredChanConnect cfg buf psm chans).1
  | .reconfigure chans mtu buf => (c.ecredReconfigure cfg buf mtu chans).1
  | .reconfigureExplicit chans mtu mps buf => (c.ecredReconfigureExplicit cfg buf mtu mps chans).1
  | .disconnect i buf => c.chanDisconnect buf i
  | .send i buf => c.chanSend cfg buf i
  | .recvComplete i counter buf => c.recvComplete counter buf i
  | .recv pdu env => c.recv cfg env pdu
  | .rxWork i counter env => c.rxProcess counter env i
  | .pull amount => c.dataPull amount
  | .securityChanged secLevel ok bufs => { c with secLevel := secLevel }.securityChanged ok bufs
  | .rtxTimeout i => c.rtxTimeout i

/-- The contract of the environment. -/
def enabled (c : LeConn) : Event → Prop
  | .linkUp _ fixed => c.phase = .disconnected ∧ (fixed.map Prod.fst).Nodup ∧
      (fixed.map Prod.snd).Nodup ∧
      ∀ f ∈ fixed, (c.chan f.1).attached = false ∧ (c.chan f.1).destroy = false ∧ cidIsFixed f.2
  | .linkLost => c.phase ≠ .disconnected
  | .linkDown => c.phase = .disconnecting
  | .prepare i _ _ _ _ => (c.chan i).attached = false
  | .connect i _ _ _ => (c.chan i).attached = false
  | .ecredConnect chans _ _ => c.phase ≠ .disconnected ∧ chans.Nodup ∧
      ∀ i ∈ chans, (c.chan i).attached = false
  | .reconfigure chans _ _ => c.phase ≠ .disconnected ∧
      ∀ i ∈ chans, (c.chan i).attached = true ∧ (c.chan i).destroy = true
  | .reconfigureExplicit chans _ _ _ => c.phase ≠ .disconnected ∧
      ∀ i ∈ chans, (c.chan i).attached = true ∧ (c.chan i).destroy = true
  | .disconnect i _ => (c.chan i).attached = true → (c.chan i).destroy = true
  | .send _ _ => True
  | .recvComplete i _ _ => (c.chan i).held ≠ 0
  | .recv _ env => c.phase ≠ .disconnected ∧ env.sig.offered.Nodup ∧
      ∀ i ∈ env.sig.offered, (c.chan i).attached = false
  | .rxWork _ _ _ => True
  | .pull _ => c.phase = .connected
  | .securityChanged _ _ _ => c.phase ≠ .disconnected
  | .rtxTimeout i => c.phase ≠ .disconnected ∧ (c.chan i).attached = true ∧
      (c.chan i).destroy = true ∧ (c.chan i).pendingReq ≠ none

instance (c : LeConn) : DecidablePred c.enabled
  | .linkUp .. | .ecredConnect .. | .reconfigure .. | .reconfigureExplicit .. | .recv ..
  | .rtxTimeout _ => inferInstanceAs (Decidable (_ ∧ _))
  | .linkLost | .recvComplete .. | .securityChanged .. => inferInstanceAs (Decidable (_ ≠ _))
  | .linkDown | .prepare .. | .connect .. | .pull _ => inferInstanceAs (Decidable (_ = _))
  | .disconnect .. => inferInstanceAs (Decidable (_ → _))
  | .send .. | .rxWork .. => .isTrue trivial

end LeConn

end L2cap

end OpenBlue

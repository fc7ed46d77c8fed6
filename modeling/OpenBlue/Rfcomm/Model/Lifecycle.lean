import OpenBlue.Rfcomm.Model.Dlc
import OpenBlue.Common.Run
/-!
# RFCOMM — the DLCs of the sessions

The model of `rfcomm.c` with its pool of sessions and any number of DLC
objects: how a DLC comes into the list of its session and out of it, its
timer, its work and its queue, and the callbacks it gives the application.
The list through `_next` is a `List`. What the peer, L2CAP, security and
the application answer is part of the event, and so is whether there are
credits, which `Model/Dlc` has. Frames are as they are once their header
and FCS are checked; what a control frame sent holds is left out.
-/

namespace OpenBlue

namespace Rfcomm

namespace Lifecycle

/-- `struct bt_rfcomm_dlc`. -/
structure Dlc where
  state : DlcState := .idle
  session : Option ℕ := none
  dlci : ℕ := 0
  role : Role := .initiator
  mtu : ℕ := 127
  txQueue : List ℕ := []
  /-- `tx_work` has its handler. -/
  handler : Bool := false
  /-- `tx_work` is submitted. -/
  submitted : Bool := false
  /-- `rtx_work` is scheduled. -/
  timer : Bool := false
  deriving DecidableEq, Repr

/-- `struct bt_rfcomm_session`; `conn` is that of its L2CAP channel. -/
structure Session where
  conn : Option ℕ := none
  state : DlcState := .idle
  role : Role := .initiator
  mtu : ℕ := 0
  dlcs : List ℕ := []
  /-- `rtx_work` is scheduled. -/
  timer : Bool := false
  deriving DecidableEq, Repr

/-- What is seen of a DLC: that it is initialised, the callbacks, what
becomes of the buffers put in its queue, and its session read where it has
none. -/
inductive Out
  | initialised (d : ℕ)
  | connected (d : ℕ)
  | disconnected (d : ℕ)
  | queued (d buf : ℕ)
  | handed (d buf : ℕ)
  | released (d buf : ℕ)
  | nullDeref (d : ℕ)
  deriving DecidableEq, Repr

/-- The DLCs, the sessions, of which there are `pool`, and what was seen. -/
structure State where
  pool : ℕ
  dlcs : ℕ → Dlc := fun _ => {}
  sessions : ℕ → Session := fun _ => {}
  log : List Out := []

/-- What `rfcomm_check_fc` finds: no credit, the session's flow stopped, or
nothing in the way. -/
inductive Flow
  | noCredit
  | stopped
  | open
  deriving DecidableEq, Repr

namespace State

def note (s : State) (o : Out) : State := { s with log := s.log ++ [o] }

def setDlc (s : State) (d : ℕ) (x : Dlc) : State :=
  { s with dlcs := Function.update s.dlcs d x }

def setSession (s : State) (σ : ℕ) (v : Session) : State :=
  { s with sessions := Function.update s.sessions σ v }

/-- `dlc->session->…`: what goes on where the DLC has a session. -/
def deref (s : State) (d : ℕ) (next : ℕ → State) : State :=
  match (s.dlcs d).session with
  | none => s.note (.nullDeref d)
  | some σ => next σ

/-- `rfcomm_dlcs_lookup_dlci`. -/
def lookup (s : State) (σ dlci : ℕ) : Option ℕ :=
  (s.sessions σ).dlcs.find? fun d => (s.dlcs d).dlci = dlci

/-- `rfcomm_dlcs_remove_dlci`. The first node is taken out of the list of
its own session. -/
def removeDlci (s : State) (σ dlci : ℕ) : State :=
  match (s.sessions σ).dlcs with
  | [] => s
  | d :: dlcs =>
    if (s.dlcs d).dlci = dlci then
      s.deref d fun τ => s.setSession τ { s.sessions τ with dlcs := dlcs }
    else
      s.setSession σ
        { s.sessions σ with dlcs := d :: dlcs.eraseP fun e => (s.dlcs e).dlci = dlci }

/-- `rfcomm_dlc_tx_trigger`. -/
def txTrigger (s : State) (d : ℕ) : State :=
  if (s.dlcs d).handler then s.setDlc d { s.dlcs d with submitted := true } else s

/-- `rfcomm_dlc_destroy`. -/
def destroy (s : State) (d : ℕ) : State :=
  (s.setDlc d { s.dlcs d with timer := false, submitted := false, state := .idle
                              session := none }).note (.disconnected d)

/-- `rfcomm_dlc_disconnect`. -/
def dlcDisconnect (s : State) (d : ℕ) : State :=
  let old := (s.dlcs d).state
  if old = .disconnected then s
  else
    let s := s.setDlc d { s.dlcs d with state := .disconnected }
    if old = .connected then s.txTrigger d else s.destroy d

/-- `rfcomm_session_disconnected`. -/
def sessionDisconnected (s : State) (σ : ℕ) : State :=
  if (s.sessions σ).state = .disconnected then s
  else
    let s := (s.sessions σ).dlcs.foldl dlcDisconnect s
    s.setSession σ { s.sessions σ with state := .disconnected, dlcs := [] }

/-- `rfcomm_session_disconnect`. -/
def sessionDisconnect (s : State) (σ : ℕ) : State :=
  if (s.sessions σ).dlcs ≠ [] then s
  else s.setSession σ { s.sessions σ with state := .disconnecting, timer := true }

/-- `rfcomm_dlc_init`. -/
def dlcInit (s : State) (d σ dlci : ℕ) (role : Role) : State :=
  let s := s.setDlc d { s.dlcs d with
    handler := false, submitted := false, dlci := dlci, session := some σ, state := .init
    role := role, timer := true }
  (s.setSession σ { s.sessions σ with dlcs := d :: (s.sessions σ).dlcs }).note (.initialised d)

/-- `rfcomm_dlc_accept`; `server` is the DLC that the server's `accept`
gives, and its MTU. -/
def dlcAccept (s : State) (σ dlci : ℕ) (server : Option (ℕ × ℕ)) : State × Option ℕ :=
  match server with
  | none => (s, none)
  | some (d, mtu) =>
    let s := s.setDlc d { s.dlcs d with mtu }
    if checkMtu mtu then
      let s := s.dlcInit d σ dlci .acceptor
      (s.setDlc d { s.dlcs d with mtu := min mtu (s.sessions σ).mtu }, some d)
    else (s.destroy d, none)

/-- `rfcomm_dlc_connected`. -/
def dlcConnected (s : State) (d : ℕ) : State :=
  let s := s.setDlc d { s.dlcs d with state := .connected }
  s.deref d fun _ =>
    (s.setDlc d { s.dlcs d with timer := false, txQueue := [], handler := true
                                submitted := false }).note (.connected d)

/-- `rfcomm_dlc_drop`. -/
def dlcDrop (s : State) (d : ℕ) : State :=
  s.deref d fun σ => (s.removeDlci σ (s.dlcs d).dlci).destroy d

/-- `rfcomm_dlc_close`. -/
def dlcClose (s : State) (d : ℕ) : State :=
  match (s.dlcs d).state with
  | .securityPending | .init => s.dlcDrop d
  | .connecting | .config =>
    s.deref d fun _ => s.setDlc d { s.dlcs d with state := .disconnecting, timer := true }
  | .connected => (s.setDlc d { s.dlcs d with state := .disconnecting }).txTrigger d
  | .disconnecting | .disconnected | .idle | .userDisconnect => s

/-- `rfcomm_dlc_start`; the DLC is dropped where it fails. -/
def dlcStart (s : State) (d : ℕ) (sec : Security) : State :=
  s.deref d fun σ =>
    match sec with
    | .passed => s.setDlc d { s.dlcs d with
        mtu := min (s.dlcs d).mtu (s.sessions σ).mtu, state := .config }
    | .pending => s.setDlc d { s.dlcs d with state := .securityPending }
    | .reject => s.dlcDrop d

/-! ## Frames -/

/-- `rfcomm_handle_sabm` once there is a DLC. `uaSent` is whether the UA
could be sent. -/
def sabmDlc (s : State) (σ d : ℕ) (sec : Security) (uaSent : Bool) : State :=
  s.deref d fun _ =>
    match sec with
    | .pending => s.setDlc d { s.dlcs d with state := .securityPending }
    | .reject => s.dlcDrop d
    | .passed =>
      if uaSent then
        (s.setSession σ { s.sessions σ with timer := false }).dlcConnected d
      else s

/-- `rfcomm_handle_sabm`. -/
def handleSabm (s : State) (σ dlci : ℕ) (server : Option (ℕ × ℕ)) (sec : Security)
    (uaSent : Bool) : State :=
  if dlci = 0 then
    if uaSent then s.setSession σ { s.sessions σ with state := .connected } else s
  else
    match s.lookup σ dlci with
    | some d => s.sabmDlc σ d sec uaSent
    | none =>
      match s.dlcAccept σ dlci server with
      | (s, none) => s
      | (s, some d) => s.sabmDlc σ d sec uaSent

/-- One DLC in the loop of `rfcomm_handle_ua`. -/
def startOne (sec : ℕ → Security) (s : State) (d : ℕ) : State :=
  if (s.dlcs d).role = .initiator ∧ (s.dlcs d).state = .init then s.dlcStart d (sec d) else s

/-- `bt_l2cap_chan_disconnect` once the session is done. -/
def l2capDisconnect (s : State) (σ : ℕ) (ok : Bool) : State :=
  s.setSession σ { s.sessions σ with state := if ok then .disconnected else .idle }

/-- `rfcomm_handle_ua`. `sec` is what security says of each DLC that is
started. -/
def handleUa (s : State) (σ dlci : ℕ) (sec : ℕ → Security) (l2capOk : Bool) : State :=
  if dlci = 0 then
    match (s.sessions σ).state with
    | .connecting =>
      let s := s.setSession σ { s.sessions σ with state := .connected }
      ((s.sessions σ).dlcs.foldl (startOne sec) s).sessionDisconnect σ
    | .disconnecting =>
      (s.setSession σ { s.sessions σ with timer := false }).l2capDisconnect σ l2capOk
    | _ => s
  else
    match s.lookup σ dlci with
    | none => s
    | some d =>
      match (s.dlcs d).state with
      | .connecting => s.dlcConnected d
      | .disconnecting => (s.dlcDrop d).sessionDisconnect σ
      | _ => s

/-- `rfcomm_handle_dm`. -/
def handleDm (s : State) (σ dlci : ℕ) : State :=
  match s.lookup σ dlci with
  | none => s
  | some d => ((s.removeDlci σ dlci).dlcDisconnect d).sessionDisconnect σ

/-- `rfcomm_handle_msc`; `gives` is whether it gives a credit, as it does
without credit based flow control. -/
def handleMsc (s : State) (σ dlci : ℕ) (cr gives : Bool) : State :=
  match s.lookup σ dlci with
  | none => s
  | some d =>
    if cr = false then s
    else s.deref d fun _ => if gives then s.txTrigger d else s

/-- `rfcomm_handle_rls`. -/
def handleRls (s : State) (σ dlci : ℕ) (cr : Bool) : State :=
  if cr = false then s
  else
    match s.lookup σ dlci with
    | none => s
    | some d => s.deref d fun _ => s

/-- `rfcomm_handle_pn`; `gives` is whether it gives credits. -/
def handlePn (s : State) (σ dlci : ℕ) (cr : Bool) (mtu : ℕ) (gives : Bool)
    (server : Option (ℕ × ℕ)) : State :=
  match s.lookup σ dlci with
  | none =>
    if cr = false then s
    else if checkMtu mtu = false then s
    else
      match s.dlcAccept σ dlci server with
      | (s, none) => s
      | (s, some d) =>
        let s := s.setDlc d { s.dlcs d with mtu := min (s.dlcs d).mtu mtu }
        let s := if gives then s.txTrigger d else s
        let s := s.setDlc d { s.dlcs d with state := .config }
        s.deref d fun _ => s.setSession σ { s.sessions σ with timer := false }
  | some d =>
    if cr then
      if checkMtu mtu = false then s.dlcClose d
      else
        let s := s.setDlc d { s.dlcs d with mtu := min (s.dlcs d).mtu mtu }
        s.deref d fun _ => s
    else if (s.dlcs d).state ≠ .config then s
    else
      let s := s.setDlc d { s.dlcs d with mtu := min (s.dlcs d).mtu mtu }
      let s := if gives then s.txTrigger d else s
      s.setDlc d { s.dlcs d with state := .connecting }

/-- `rfcomm_handle_disc`. The idle timer is that of the DLC's session, read
when the DLC is disconnected. -/
def handleDisc (s : State) (σ dlci : ℕ) : State :=
  if dlci = 0 then
    (s.setSession σ { s.sessions σ with timer := false }).sessionDisconnected σ
  else
    match s.lookup σ dlci with
    | none => s
    | some d =>
      let s := (s.removeDlci σ dlci).dlcDisconnect d
      if (s.sessions σ).dlcs ≠ [] then s
      else s.deref d fun τ => s.setSession τ { s.sessions τ with timer := true }

/-- `rfcomm_handle_data`: whether the frame gives credits, whether it holds
data, and whether no credit was left for that. -/
def handleData (s : State) (σ dlci : ℕ) (gives data starved : Bool) : State :=
  match s.lookup σ dlci with
  | none => s
  | some d =>
    if (s.dlcs d).state ≠ .connected then s
    else
      let s := if gives then s.txTrigger d else s
      if data = false then s
      else s.deref d fun _ => if starved then s.dlcClose d else s

/-- One DLC in the loop of `rfcomm_encrypt_change`; `met` is whether its
security is met. -/
def encryptOne (met : ℕ → Bool) (s : State) (d : ℕ) : State :=
  if (s.dlcs d).state ≠ .securityPending then s
  else if met d = false then s.dlcClose d
  else if (s.dlcs d).role = .acceptor then s.dlcConnected d
  else s.dlcStart d .passed

/-- `rfcomm_encrypt_change`. -/
def encryptChange (s : State) (σ : ℕ) (met : ℕ → Bool) : State :=
  (s.sessions σ).dlcs.foldl (encryptOne met) s

/-- The frames of a session. -/
inductive Frame
  | sabm (dlci : ℕ) (server : Option (ℕ × ℕ)) (sec : Security) (uaSent : Bool)
  | ua (dlci : ℕ) (sec : ℕ → Security) (l2capOk : Bool)
  | dm (dlci : ℕ)
  | disc (dlci : ℕ)
  | pn (dlci : ℕ) (cr : Bool) (mtu : ℕ) (gives : Bool) (server : Option (ℕ × ℕ))
  | msc (dlci : ℕ) (cr gives : Bool)
  | rls (dlci : ℕ) (cr : Bool)
  | fcon
  | data (dlci : ℕ) (gives data starved : Bool)

/-- `rfcomm_recv`. -/
def recv (s : State) (σ : ℕ) : Frame → State
  | .sabm dlci server sec uaSent => s.handleSabm σ dlci server sec uaSent
  | .ua dlci sec l2capOk => s.handleUa σ dlci sec l2capOk
  | .dm dlci => s.handleDm σ dlci
  | .disc dlci => s.handleDisc σ dlci
  | .pn dlci cr mtu gives server => s.handlePn σ dlci cr mtu gives server
  | .msc dlci cr gives => s.handleMsc σ dlci cr gives
  | .rls dlci cr => s.handleRls σ dlci cr
  | .fcon => (s.sessions σ).dlcs.foldl txTrigger s
  | .data dlci gives data starved => s.handleData σ dlci gives data starved

/-! ## Timers and work -/

/-- `rfcomm_dlc_rtx_timeout`. -/
def dlcTimeout (s : State) (d : ℕ) : State :=
  if (s.dlcs d).timer = false then s
  else
    let s := s.setDlc d { s.dlcs d with timer := false }
    s.deref d fun σ =>
      ((s.removeDlci σ (s.dlcs d).dlci).dlcDisconnect d).sessionDisconnect σ

/-- `rfcomm_session_rtx_timeout`. -/
def sessionTimeout (s : State) (σ : ℕ) (l2capOk : Bool) : State :=
  if (s.sessions σ).timer = false then s
  else
    let s := s.setSession σ { s.sessions σ with timer := false }
    match (s.sessions σ).state with
    | .connected => s.sessionDisconnect σ
    | .disconnecting => s.l2capDisconnect σ l2capOk
    | _ => s

/-- `rfcomm_dlc_tx_worker` from `disconnect` on. -/
def txCleanup (s : State) (d : ℕ) : State :=
  let s := { s with log := s.log ++ (s.dlcs d).txQueue.map (Out.released d) }
  let s := s.setDlc d { s.dlcs d with
    txQueue := []
    state := if (s.dlcs d).state = .userDisconnect then .disconnecting else (s.dlcs d).state }
  if (s.dlcs d).state = .disconnecting then
    s.deref d fun _ => s.setDlc d { s.dlcs d with timer := true }
  else s.destroy d

/-- `rfcomm_dlc_tx_worker` from `user_disconnect` on. -/
def txUserDisconnect (s : State) (d : ℕ) : State :=
  if (s.dlcs d).state = .userDisconnect then s.txCleanup d else s

/-- `rfcomm_dlc_tx_worker`; `sent` is whether L2CAP takes the buffer. -/
def txWorker (s : State) (d : ℕ) (flow : Flow) (sent : Bool) : State :=
  match (s.dlcs d).state with
  | .idle | .init | .securityPending | .connecting => s
  | .config | .disconnecting | .disconnected => s.txCleanup d
  | .connected | .userDisconnect =>
    match (s.dlcs d).txQueue with
    | [] => s.txUserDisconnect d
    | buf :: bufs =>
      match flow with
      | .noCredit => s.txUserDisconnect d
      | .stopped => s.deref d fun _ => s.txUserDisconnect d
      | .open =>
        s.deref d fun _ =>
          let s := s.setDlc d { s.dlcs d with txQueue := bufs }
          if sent = false then
            let s := s.note (.released d buf)
            (s.setDlc d { s.dlcs d with state := .disconnected }).txCleanup d
          else
            let s := s.note (.handed d buf)
            if bufs ≠ [] then s.txTrigger d else s.txUserDisconnect d

/-- The work of a DLC, where it is submitted. -/
def work (s : State) (d : ℕ) (flow : Flow) (sent : Bool) : State :=
  if (s.dlcs d).submitted = false then s
  else (s.setDlc d { s.dlcs d with submitted := false }).txWorker d flow sent

/-! ## L2CAP and the application -/

/-- `rfcomm_session_new`. -/
def sessionNew (s : State) (role : Role) : Option (State × ℕ) :=
  match (List.range s.pool).find? fun σ => (s.sessions σ).conn = none with
  | none => none
  | some σ =>
    some (s.setSession σ { s.sessions σ with state := .init, role, timer := false }, σ)

/-- `rfcomm_accept`, and the channel is that of the connection. -/
def l2capAccept (s : State) (conn : ℕ) : State :=
  match s.sessionNew .acceptor with
  | none => s
  | some (s, σ) => s.setSession σ { s.sessions σ with conn := some conn }

/-- `rfcomm_connected`; `mtu` is what the channel leaves for a frame. -/
def l2capConnected (s : State) (σ mtu : ℕ) : State :=
  s.setSession σ { s.sessions σ with mtu }

/-- `rfcomm_disconnected`. -/
def l2capDisconnected (s : State) (σ : ℕ) : State :=
  let s := (s.setSession σ { s.sessions σ with timer := false }).sessionDisconnected σ
  s.setSession σ { s.sessions σ with state := .idle, conn := none }

/-- `BT_RFCOMM_DLCI`. -/
def dlciOf (role : Role) (channel : ℕ) : ℕ :=
  2 * (channel % 32) + if role = .acceptor then 1 else 0

/-- `fail` of `bt_rfcomm_dlc_connect`: the timer is left running. -/
def connectFail (s : State) (σ d : ℕ) : State :=
  let s := s.removeDlci σ (s.dlcs d).dlci
  s.setDlc d { s.dlcs d with state := .idle, session := none }

/-- `bt_rfcomm_dlc_connect` from `rfcomm_dlc_init` on. -/
def connectSession (s : State) (conn d σ dlci : ℕ) (l2capOk : Bool) (sec : Security) : State :=
  let s := s.dlcInit d σ dlci .initiator
  match (s.sessions σ).state with
  | .init =>
    if (s.sessions σ).role = .acceptor then s
    else if l2capOk then
      s.setSession σ { s.sessions σ with conn := some conn, state := .connecting }
    else (s.setSession σ { s.sessions σ with state := .idle }).connectFail σ d
  | .connecting => s
  | .connected =>
    if sec = .reject then s.connectFail σ d
    else
      let s := s.dlcStart d sec
      s.setSession σ { s.sessions σ with timer := false }
  | _ => s.connectFail σ d

/-- The session that `bt_rfcomm_dlc_connect` takes. -/
def connectTo (s : State) (conn : ℕ) : Option (State × ℕ) :=
  match (List.range s.pool).find? fun σ => (s.sessions σ).conn = some conn with
  | some σ => some (s, σ)
  | none => s.sessionNew .initiator

/-- `bt_rfcomm_dlc_connect`. -/
def connect (s : State) (conn d channel : ℕ) (l2capOk : Bool) (sec : Security) : State :=
  if channel < 1 ∨ 0x1e < channel then s
  else if checkMtu (s.dlcs d).mtu = false then s
  else
    match s.connectTo conn with
    | none => s
    | some (s, σ) =>
      let dlci := dlciOf (s.sessions σ).role channel
      if (s.lookup σ dlci).isSome then s else s.connectSession conn d σ dlci l2capOk sec

/-- `bt_rfcomm_dlc_disconnect`. -/
def disconnect (s : State) (d : ℕ) : State :=
  if (s.dlcs d).state = .connected then
    let s := (s.setDlc d { s.dlcs d with state := .userDisconnect }).txTrigger d
    s.setDlc d { s.dlcs d with timer := true }
  else s.dlcClose d

/-- `bt_rfcomm_dlc_send` of a buffer of `len` bytes. -/
def send (s : State) (d buf len : ℕ) : State :=
  if (s.dlcs d).state ≠ .connected then s
  else if (s.dlcs d).mtu < len then s
  else s.deref d fun _ =>
    ((s.setDlc d { s.dlcs d with txQueue := (s.dlcs d).txQueue ++ [buf] }).note
      (.queued d buf)).txTrigger d

end State

/-- What happens. -/
inductive Event
  | connect (conn d channel : ℕ) (l2capOk : Bool) (sec : Security)
  | disconnect (d : ℕ)
  | send (d buf len : ℕ)
  /-- The application sets the MTU of a DLC it will connect. -/
  | setMtu (d mtu : ℕ)
  | l2capAccept (conn : ℕ)
  | l2capConnected (σ mtu : ℕ)
  | l2capDisconnected (σ : ℕ)
  | recv (σ : ℕ) (f : State.Frame)
  | encryptChange (σ : ℕ) (met : ℕ → Bool)
  | dlcTimeout (d : ℕ)
  | sessionTimeout (σ : ℕ) (l2capOk : Bool)
  | work (d : ℕ) (flow : Flow) (sent : Bool)
  /-- `rfcomm_sent`. -/
  | sent (d : ℕ)

/-- One event. A frame comes over the channel of its session. -/
def State.step (s : State) : Event → State
  | .connect conn d channel l2capOk sec => s.connect conn d channel l2capOk sec
  | .disconnect d => s.disconnect d
  | .send d buf len => s.send d buf len
  | .setMtu d mtu => s.setDlc d { s.dlcs d with mtu }
  | .l2capAccept conn => s.l2capAccept conn
  | .l2capConnected σ mtu => s.l2capConnected σ mtu
  | .l2capDisconnected σ => s.l2capDisconnected σ
  | .recv σ f => if (s.sessions σ).conn = none then s else s.recv σ f
  | .encryptChange σ met => s.encryptChange σ met
  | .dlcTimeout d => s.dlcTimeout d
  | .sessionTimeout σ l2capOk => s.sessionTimeout σ l2capOk
  | .work d flow sent => s.work d flow sent
  | .sent d => s.txTrigger d

end Lifecycle

end Rfcomm

end OpenBlue

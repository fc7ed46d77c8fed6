import Mathlib.Algebra.Order.Ring.Int
/-!
# RFCOMM — one DLC between two ends

The model of a session with one DLC on each of two ends, and the frames on
the link between them: the negotiation of the DLC, the data, and the credits.
`bt_rfcomm_dlc_disconnect` and the timers are left out, L2CAP does not fail,
and frames are as they are once their header and FCS are checked.
-/

namespace OpenBlue

namespace Rfcomm

open Function

/-- A counting semaphore. -/
structure Sem where
  count : ℕ := 0
  limit : ℕ := 1
  deriving DecidableEq, Repr

/-- `os_sem_take` without waiting; `none` where it fails. -/
def Sem.take (s : Sem) : Option Sem := if s.count = 0 then none else some { s with count := s.count - 1 }

/-- `os_sem_give`. -/
def Sem.give (s : Sem) : Sem := if s.count < s.limit then { s with count := s.count + 1 } else s

/-- `OS_SEM_MAX_LIMIT`. -/
def semMaxLimit : ℕ := 2 ^ 32 - 1

/-- `bt_rfcomm_cfc_t`. -/
inductive Cfc
  | unknown
  | notSupported
  | supported
  deriving DecidableEq, Repr

/-- `BT_RFCOMM_STATE`, in the order of the source. -/
inductive DlcState
  | idle
  | init
  | securityPending
  | connecting
  | connected
  | config
  | userDisconnect
  | disconnecting
  | disconnected
  deriving DecidableEq, Repr

/-- `bt_rfcomm_role_t`. -/
inductive Role
  | initiator
  | acceptor
  deriving DecidableEq, Repr

/-- `enum security_result`. -/
inductive Security
  | passed
  | reject
  | pending
  deriving DecidableEq, Repr

/-- The frames about the DLC. What comes after the header of an UIH frame is
`info` and the FCS. -/
inductive Frame
  | pn (cr : Bool) (flowCtrl : UInt8) (mtu : ℕ) (credits : UInt8)
  | sabm
  | ua
  | dm
  | disc
  /-- Modem status; `fc` is the flow control bit of the signals. -/
  | msc (cr fc : Bool)
  | fcon (cr : Bool)
  | uih (pf : Bool) (info : List UInt8)
  deriving DecidableEq, Repr

/-- `struct bt_rfcomm_dlc`. -/
structure Dlc where
  role : Role := .initiator
  state : DlcState := .idle
  mtu : ℕ := 127
  rxCredit : UInt8 := 0
  txCredits : Sem := {}
  txQueue : List (List UInt8) := []
  /-- `tx_work` has its handler. -/
  txWork : Bool := false
  deriving DecidableEq, Repr

/-- `struct bt_rfcomm_session`, with the DLC that is in its list, and
`RFCOMM_MAX_CREDITS`. -/
structure Session where
  maxCredits : ℕ
  mtu : ℕ
  cfc : Cfc := .unknown
  /-- `fc`, the semaphore of aggregate flow control. -/
  fc : Sem := {}
  dlc : Option Dlc := none
  /-- What the server's `accept` gives; `none` where it refuses, or there is
  no server. -/
  server : Option Dlc := none
  /-- A DLC was closed as data came when no credit was left. -/
  starved : Bool := false
  deriving DecidableEq, Repr

/-- `BT_RFCOMM_CHECK_MTU`. -/
def checkMtu (mtu : ℕ) : Bool := 23 ≤ mtu && mtu ≤ 32767

/-- `BT_RFCOMM_PN_CFC_CMD` and `BT_RFCOMM_PN_CFC_RESP`. -/
def pnCfcCmd : UInt8 := 0xf0
def pnCfcResp : UInt8 := 0xe0

/-- `RFCOMM_CREDITS_THRESHOLD`. -/
def Session.creditsThreshold (s : Session) : ℕ := s.maxCredits / 2

/-- `RFCOMM_DEFAULT_CREDIT`, as `rx_credit` holds it. -/
def Session.defaultCredit (s : Session) : UInt8 := UInt8.ofNat s.maxCredits

namespace Session

def setDlc (s : Session) (d : Dlc) : Session := { s with dlc := some d }

/-- `rfcomm_dlc_tx_give_credits`. -/
def giveCredits (d : Dlc) (credits : UInt8) : Dlc :=
  { d with txCredits := Sem.give^[credits.toNat] d.txCredits }

/-- `rfcomm_dlc_init`. -/
def dlcInit (s : Session) (d : Dlc) (role : Role) : Dlc :=
  { d with role, state := .init, rxCredit := s.defaultCredit, txWork := false }

/-- `rfcomm_dlc_accept`. -/
def dlcAccept (s : Session) : Option Dlc :=
  match s.server with
  | none => none
  | some d =>
    if checkMtu d.mtu then
      let d := s.dlcInit d .acceptor
      some { d with mtu := min d.mtu s.mtu }
    else none

/-- `rfcomm_send_pn`. -/
def pn (s : Session) (d : Dlc) (cr : Bool) : Frame :=
  if d.state = .config ∧ (s.cfc = .unknown ∨ s.cfc = .supported) then
    .pn cr (if cr then pnCfcCmd else pnCfcResp) d.mtu d.rxCredit
  else .pn cr 0 d.mtu 0

/-- `rfcomm_dlc_connected`. The DLC's own MSC has the default signals. -/
def dlcConnected (s : Session) (d : Dlc) : Session × List Frame :=
  let cfc : Cfc := if s.cfc = .unknown then .notSupported else s.cfc
  let d := { d with state := .connected, txQueue := [], txWork := true }
  if cfc = .notSupported then
    ({ s with cfc, dlc := some { d with txCredits := { count := 0, limit := 1 } } },
      [.msc true false, .fcon true])
  else ({ s with cfc, dlc := some d }, [.msc true false])

/-- `rfcomm_dlc_close`. -/
def dlcClose (s : Session) (d : Dlc) : Session × List Frame :=
  match d.state with
  | .securityPending =>
    ({ s with dlc := none }, if d.role = .acceptor then [.dm] else [])
  | .init => ({ s with dlc := none }, [])
  | .connecting | .config => (s.setDlc { d with state := .disconnecting }, [.disc])
  | .connected => (s.setDlc { d with state := .disconnecting }, [])
  | .disconnecting | .disconnected | .idle | .userDisconnect => (s, [])

/-- `rfcomm_dlc_start`; the DLC is dropped where it fails, as the callers
do. -/
def dlcStart (s : Session) (d : Dlc) : Security → Session × List Frame
  | .passed =>
    let d := { d with mtu := min d.mtu s.mtu, state := .config }
    (s.setDlc d, [s.pn d true])
  | .pending => (s.setDlc { d with state := .securityPending }, [])
  | .reject => ({ s with dlc := none }, [])

/-! ## What comes in -/

/-- `rfcomm_handle_sabm`, once there is a DLC. -/
def sabmDlc (s : Session) (d : Dlc) : Security → Session × List Frame
  | .pending => (s.setDlc { d with state := .securityPending }, [])
  | .passed =>
    let r := s.dlcConnected d
    (r.1, .ua :: r.2)
  | .reject => ({ s with dlc := none }, [.dm])

/-- `rfcomm_handle_sabm`. -/
def handleSabm (s : Session) (sec : Security) : Session × List Frame :=
  match s.dlc.or s.dlcAccept with
  | none => (s, [.dm])
  | some d => s.sabmDlc d sec

/-- The credits of a PN, of a command or of a response. -/
def pnCredits (s : Session) (d : Dlc) (flowCtrl want credits : UInt8) : Session × Dlc :=
  if flowCtrl = want then
    ({ s with cfc := if s.cfc = .unknown then .supported else s.cfc },
      giveCredits { d with txCredits := { count := 0, limit := semMaxLimit } } credits)
  else ({ s with cfc := .notSupported }, d)

/-- `rfcomm_handle_pn`, for a DLC that there is not. -/
def pnAccept (s : Session) (cr : Bool) (flowCtrl : UInt8) (mtu : ℕ) (credits : UInt8) :
    Session × List Frame :=
  if ¬ cr then (s, [])
  else if ¬ checkMtu mtu then (s, [.dm])
  else
    match s.dlcAccept with
    | none => (s, [.dm])
    | some d =>
      let r := s.pnCredits { d with mtu := min d.mtu mtu } flowCtrl pnCfcCmd credits
      let d := { r.2 with state := .config }
      (r.1.setDlc d, [r.1.pn d false])

/-- `rfcomm_handle_pn`. -/
def handlePn (s : Session) (cr : Bool) (flowCtrl : UInt8) (mtu : ℕ) (credits : UInt8) :
    Session × List Frame :=
  match s.dlc with
  | none => s.pnAccept cr flowCtrl mtu credits
  | some d =>
    if cr then
      if ¬ checkMtu mtu then s.dlcClose d
      else
        let d := { d with mtu := min d.mtu mtu }
        (s.setDlc d, [s.pn d false])
    else if d.state ≠ .config then (s, [])
    else
      let r := s.pnCredits { d with mtu := min d.mtu mtu } flowCtrl pnCfcResp credits
      (r.1.setDlc { r.2 with state := .connecting }, [.sabm])

/-- `rfcomm_handle_ua`. -/
def handleUa (s : Session) : Session × List Frame :=
  match s.dlc with
  | none => (s, [])
  | some d =>
    match d.state with
    | .connecting => s.dlcConnected d
    | .disconnecting => ({ s with dlc := none }, [])
    | _ => (s, [])

/-- `rfcomm_handle_disc`. -/
def handleDisc (s : Session) : Session × List Frame :=
  match s.dlc with
  | none => (s, [.dm])
  | some _ => ({ s with dlc := none }, [.ua])

/-- `rfcomm_handle_msc`. -/
def handleMsc (s : Session) (cr fc : Bool) : Session × List Frame :=
  match s.dlc with
  | none => (s, [])
  | some d =>
    if ¬ cr then (s, [])
    else if s.cfc = .notSupported then
      let d := { d with txCredits := if fc then d.txCredits.take.getD d.txCredits else d.txCredits.give }
      (s.setDlc d, [.msc false fc])
    else (s, [.msc false fc])

/-- The case `BT_RFCOMM_FCON` of `rfcomm_handle_msg`. -/
def handleFcon (s : Session) (cr : Bool) : Session × List Frame :=
  if s.cfc = .supported ∨ ¬ cr then (s, []) else ({ s with fc := s.fc.give }, [.fcon false])

/-- `rfcomm_dlc_update_credits`. -/
def updateCredits (s : Session) (d : Dlc) : Dlc × List Frame :=
  if s.cfc = .notSupported then (d, [])
  else if s.creditsThreshold < d.rxCredit.toNat then (d, [])
  else
    let credits := UInt8.ofNat s.maxCredits - d.rxCredit
    ({ d with rxCredit := d.rxCredit + credits }, [.uih true [credits]])

/-- `rfcomm_handle_data`, once the credits of the frame are given. The FCS is
left out of `info`. -/
def recvData (s : Session) (d : Dlc) (info : List UInt8) : Session × List Frame :=
  if info = [] then (s.setDlc d, [])
  else if s.cfc = .supported ∧ d.rxCredit = 0 then
    let r := s.dlcClose d
    ({ r.1 with starved := true }, r.2)
  else
    let r := s.updateCredits { d with rxCredit := d.rxCredit - 1 }
    (s.setDlc r.1, r.2)

/-- `rfcomm_handle_data`. A frame with the P/F bit and nothing after its
header but the FCS gives the FCS as credits; the sender makes none. -/
def handleData (s : Session) (pf : Bool) (info : List UInt8) : Session × List Frame :=
  match s.dlc with
  | none => (s, [.dm])
  | some d =>
    if d.state ≠ .connected then (s, [])
    else
      match pf, info with
      | true, credits :: info => s.recvData (giveCredits d credits) info
      | true, [] => (s, [])
      | false, info => s.recvData d info

/-- `rfcomm_recv`. -/
def recv (s : Session) (sec : Security) : Frame → Session × List Frame
  | .sabm => s.handleSabm sec
  | .ua => s.handleUa
  | .dm => ({ s with dlc := none }, [])
  | .disc => s.handleDisc
  | .pn cr flowCtrl mtu credits => s.handlePn cr flowCtrl mtu credits
  | .msc cr fc => s.handleMsc cr fc
  | .fcon cr => s.handleFcon cr
  | .uih pf info => s.handleData pf info

/-! ## What goes out -/

/-- `bt_rfcomm_dlc_send`. -/
def dlcSend (s : Session) (buf : List UInt8) : Session :=
  match s.dlc with
  | none => s
  | some d =>
    if d.state ≠ .connected then s
    else if d.mtu < buf.length then s
    else s.setDlc { d with txQueue := d.txQueue ++ [buf] }

/-- `rfcomm_check_fc`; `none` where the DLC has to wait. -/
def checkFc (s : Session) (d : Dlc) : Option Dlc :=
  match d.txCredits.take with
  | none => none
  | some sem =>
    if s.cfc = .supported then some { d with txCredits := sem }
    else if s.fc.count = 0 then none
    else some d

/-- `rfcomm_dlc_tx_worker` from `disconnect` on. -/
def txDisconnect (s : Session) (d : Dlc) : Session × List Frame :=
  let d := { d with
    txQueue := []
    state := if d.state = .userDisconnect then .disconnecting else d.state }
  if d.state = .disconnecting then (s.setDlc d, [.disc]) else ({ s with dlc := none }, [])

/-- `rfcomm_dlc_tx_worker`. -/
def txWorker (s : Session) : Session × List Frame :=
  match s.dlc with
  | none => (s, [])
  | some d =>
    if ¬ d.txWork then (s, [])
    else
      match d.state with
      | .idle | .init | .securityPending | .connecting => (s, [])
      | .config | .disconnecting | .disconnected => s.txDisconnect d
      | .connected | .userDisconnect =>
        match d.txQueue, s.checkFc d with
        | buf :: queue, some d =>
          let d := { d with txQueue := queue }
          if queue = [] ∧ d.state = .userDisconnect then
            let r := s.txDisconnect d
            (r.1, .uih false buf :: r.2)
          else (s.setDlc d, [.uih false buf])
        | _, _ => if d.state = .userDisconnect then s.txDisconnect d else (s, [])

/-- `rfcomm_encrypt_change`; `ok` is whether the security is met. -/
def encryptChange (s : Session) (ok : Bool) : Session × List Frame :=
  match s.dlc with
  | none => (s, [])
  | some d =>
    if d.state ≠ .securityPending then (s, [])
    else if ¬ ok then s.dlcClose d
    else if d.role = .acceptor then s.sabmDlc d .passed
    else s.dlcStart d .passed

/-- `rfcomm_handle_ua` for the session: the DLC is started. -/
def start (s : Session) (sec : Security) : Session × List Frame :=
  match s.dlc with
  | none => (s, [])
  | some d =>
    if d.role = .initiator ∧ d.state = .init then s.dlcStart d sec else (s, [])

end Session

/-! ## Two ends -/

/-- The two ends of the session. -/
inductive Side
  | initiator
  | acceptor
  deriving DecidableEq, Repr

/-- The other end. -/
def Side.other : Side → Side
  | .initiator => .acceptor
  | .acceptor => .initiator

/-- Two ends, and the frames on their way to each. -/
structure Pair where
  side : Side → Session
  link : Side → List Frame

namespace Pair

/-- One end takes a step, and what it sends is on its way. -/
def act (p : Pair) (x : Side) (r : Session × List Frame) : Pair where
  side := update p.side x r.1
  link := update p.link x.other (p.link x.other ++ r.2)

/-- What happens. -/
inductive Event
  /-- The DLC of an end is started. -/
  | start (x : Side) (sec : Security)
  | encryptChange (x : Side) (ok : Bool)
  /-- The next frame arrives at an end. -/
  | recv (x : Side) (sec : Security)
  /-- `bt_rfcomm_dlc_send`. -/
  | send (x : Side) (buf : List UInt8)
  /-- The work of the DLC. -/
  | txWork (x : Side)
  deriving DecidableEq, Repr

def step (p : Pair) : Event → Pair
  | .start x sec => p.act x ((p.side x).start sec)
  | .encryptChange x ok => p.act x ((p.side x).encryptChange ok)
  | .recv x sec =>
    match p.link x with
    | [] => p
    | f :: fs => { p with link := update p.link x fs }.act x ((p.side x).recv sec f)
  | .send x buf => p.act x ((p.side x).dlcSend buf, [])
  | .txWork x => p.act x (p.side x).txWorker

end Pair

end Rfcomm

end OpenBlue

import OpenBlue.L2cap.Model.Conn
/-!
# L2CAP — the signalling channel

The handlers of the PDUs a peer sends on the LE signalling channel
(`l2cap_recv`) and the requests of this side. What the environment
answers (buffers, the servers registered, the application's `accept`, the
result of raising security) is in a `SigEnv`.
-/

namespace OpenBlue

namespace L2cap

/-- The errors of `server->accept` that `le_err_to_result` tells apart. -/
inductive AcceptErr
  | noMem
  | acces
  | perm
  | notSup
  | other
  deriving DecidableEq, Repr

/-- `le_err_to_result`. -/
def AcceptErr.toResult : AcceptErr → ℕ
  | .noMem => 0x0004
  | .acces => 0x0006
  | .perm => 0x0007
  | .notSup => 0x0002
  | .other => 0x000b

/-- What the environment answers while a signalling PDU is handled. -/
structure SigEnv where
  /-- There is a buffer for the response. -/
  rspBuf : Bool := true
  /-- The security level of the server with the PSM asked for. -/
  server : Option ℕ := none
  /-- `bt_conn_ltk_present`. -/
  ltk : Bool := false
  /-- The channels `server->accept` returns, call after call. -/
  accept : List (Except AcceptErr ℕ) := []
  /-- `bt_conn_set_security` succeeds, for each channel. -/
  secure : ℕ → Bool := fun _ => false
  /-- The buffer for the disconnection request of each channel. -/
  disc : ℕ → Option UInt8 := fun _ => none
  /-- `bt_conn_disconnect` takes the link down. -/
  hciDisc : Bool := true
  /-- The role is central, and `bt_conn_le_param_req` accepts. -/
  central : Bool := false
  paramOk : Bool := false

/-! ## The results of responses -/

/-- `BT_L2CAP_LE_SUCCESS` and `BT_L2CAP_RECONF_SUCCESS`. -/
def success : ℕ := 0x0000

/-- `BT_L2CAP_LE_ERR_PSM_NOT_SUPP`. -/
def errPsmNotSupp : ℕ := 0x0002

/-- `BT_L2CAP_LE_ERR_NO_RESOURCES`. -/
def errNoResources : ℕ := 0x0004

/-- `BT_L2CAP_LE_ERR_AUTHENTICATION`. -/
def errAuthentication : ℕ := 0x0005

/-- `BT_L2CAP_LE_ERR_ENCRYPTION`. -/
def errEncryption : ℕ := 0x0008

/-- `BT_L2CAP_LE_ERR_INVALID_SCID`. -/
def errInvalidScid : ℕ := 0x0009

/-- `BT_L2CAP_LE_ERR_SCID_IN_USE`. -/
def errScidInUse : ℕ := 0x000a

/-- `BT_L2CAP_LE_ERR_UNACCEPT_PARAMS`. -/
def errUnacceptParams : ℕ := 0x000b

/-- `BT_L2CAP_LE_ERR_INVALID_PARAMS`. -/
def errInvalidParams : ℕ := 0x000c

/-- `BT_L2CAP_RECONF_INVALID_MTU`. -/
def reconfInvalidMtu : ℕ := 0x0001

/-- `BT_L2CAP_RECONF_INVALID_MPS`. -/
def reconfInvalidMps : ℕ := 0x0002

/-- `BT_L2CAP_RECONF_INVALID_CID`. -/
def reconfInvalidCid : ℕ := 0x0003

/-- `BT_L2CAP_RECONF_OTHER_UNACCEPT`. -/
def reconfOtherUnaccept : ℕ := 0x0004

/-- `BT_L2CAP_ECRED_CHAN_MAX_PER_REQ`. -/
def ecredMaxPerReq : ℕ := 5

/-- `mtu` and `mps` are in the ranges of the specification, from `least`
on. -/
def inRange (least mtu mps : ℕ) : Prop :=
  (least ≤ mtu ∧ mtu ≤ 0xffff) ∧ least ≤ mps ∧ mps ≤ 65533

instance (least mtu mps : ℕ) : Decidable (inRange least mtu mps) :=
  inferInstanceAs (Decidable ((_ ∧ _) ∧ _))

/-- The CIDs in the rest of a buffer; an odd byte at the end is left. -/
def getCids : Bytes → List ℕ
  | lo :: hi :: rest => getLe16 [lo, hi] :: getCids rest
  | _ => []

/-- The answer of the `k`-th call of `server->accept`. -/
def SigEnv.acceptAt (env : SigEnv) (k : ℕ) : Except AcceptErr ℕ := env.accept.getD k (.error .other)

namespace LeConn

/-! ## The requests of this side -/

/-- `l2cap_le_conn_req`: whether there was a buffer. -/
def sendConnReq (buf : Option UInt8) (i : ℕ) (c : LeConn) : LeConn × Bool :=
  match buf with
  | none => (c, false)
  | some counter =>
    let ident := getIdent counter
    let c := c.modify i fun ch => { ch with ident := ident, pendingReq := some .leConn }
    let ch := c.chan i
    let data := le16 ch.psm ++ le16 ch.rx.cid ++ le16 ch.rx.mtu ++ le16 ch.rx.mps ++
      le16 ch.rx.credits
    ((c.sendSig (sigPdu .leConnReq ident data)).1, true)

/-- A request is under way on several channels. -/
def setRequest (ident : UInt8) (op : ReqOp) (chans : List ℕ) (c : LeConn) : LeConn :=
  chans.foldl (fun c i => c.modify i fun ch => { ch with ident := ident, pendingReq := some op }) c

/-- `l2cap_ecred_conn_req`: whether the request was sent. -/
def sendEcredConnReq (buf : Option UInt8) (chans : List ℕ) (c : LeConn) : LeConn × Bool :=
  match chans, buf with
  | [], _ => (c, false)
  | _, none => (c, false)
  | i :: _, some counter =>
    let ident := getIdent counter
    let ch := c.chan i
    let data := le16 ch.psm ++ le16 ch.rx.mtu ++ le16 ch.rx.mps ++ le16 ch.rx.credits ++
      chans.flatMap fun j => le16 (c.chan j).rx.cid
    let c := c.setRequest ident .ecredConn chans
    ((c.sendSig (sigPdu .ecredConnReq ident data)).1, true)

/-- `l2cap_le_encrypt_change`. -/
def leEncryptChange (ok : Bool) (buf : Option UInt8) (i : ℕ) (c : LeConn) : LeConn :=
  let clear (ch : Chan) : Chan := { ch with encryptPending := false }
  if (c.chan i).encryptPending then
    let c := c.modify i clear
    if ¬ ok then c.drop i
    else if (c.chan i).ident ≠ 0 then
      let echan := c.channels.filter fun j => (c.chan j).ident = (c.chan i).ident
      ((echan.foldl (fun c j => c.modify j clear) c).sendEcredConnReq buf echan).1
    else
      let r := c.sendConnReq buf i
      if r.2 then r.1 else r.1.drop i
  else c

/-- `bt_l2cap_security_changed`. -/
def securityChanged (ok : Bool) (bufs : ℕ → Option UInt8) (c : LeConn) : LeConn :=
  c.channels.foldl (fun c i => c.leEncryptChange ok (bufs i) i) c

/-- `l2cap_change_security`: whether the channel waits for it. -/
def changeSecurity (err : ℕ) (secure : Bool) (i : ℕ) (c : LeConn) : LeConn × Bool :=
  if (c.chan i).encryptPending then (c, false)
  else if ¬ (err = errEncryption ∧ c.secLevel < 2 ∨ err = errAuthentication ∧ c.secLevel < 4) then
    (c, false)
  else if secure then (c.modify i fun ch => { ch with encryptPending := true }, true)
  else (c, false)

/-! ## Connection requests of the peer -/

/-- `l2cap_check_security`. -/
def checkSecurity (ltk : Bool) (server : ℕ) (c : LeConn) : ℕ :=
  if server ≤ c.secLevel then success
  else if 1 < c.secLevel then errAuthentication
  else if ltk then errEncryption
  else errAuthentication

/-- What `l2cap_chan_accept` makes of the channel once it is attached. -/
def accepted (cfg : Cfg) (scid mtu mps credits psm : ℕ) (ch : Chan) : Chan :=
  let ch := ch.txInit
  let ch := { ch with tx := { ch.tx with cid := scid, mps := mps, mtu := mtu } }
  let ch := (ch.giveCredits credits).rxInit cfg
  { ch with psm := psm, state := .connected }

/-- `l2cap_chan_accept`: the channel or the result of the response. -/
def chanAccept (cfg : Cfg) (answer : Except AcceptErr ℕ) (server psm scid mtu mps credits : ℕ)
    (c : LeConn) : LeConn × Except ℕ ℕ :=
  if ¬ cidIsDyn scid then (c, .error errInvalidScid)
  else if (c.lookupTxCid scid).isSome then (c, .error errScidInUse)
  else
    match answer with
    | .error err => (c, .error err.toResult)
    | .ok i =>
      let c := c.modify i fun ch => { ch with requiredSec := server }
      match c.chanAdd true i with
      | none => (c, .error errNoResources)
      | some c => (c.modify i (accepted cfg scid mtu mps credits psm), .ok i)

/-- `le_conn_req`. -/
def leConnReq (cfg : Cfg) (env : SigEnv) (ident : UInt8) (buf : Bytes) (c : LeConn) : LeConn :=
  if buf.length ≠ 10 then c
  else if ¬ env.rspBuf then c
  else
    let psm := getLe16 buf
    let scid := getLe16 (buf.drop 2)
    let mtu := getLe16 (buf.drop 4)
    let mps := getLe16 (buf.drop 6)
    let credits := getLe16 (buf.drop 8)
    let r : LeConn × Except ℕ ℕ :=
      if ¬ inRange 23 mtu mps then (c, .error errUnacceptParams)
      else
        match env.server with
        | none => (c, .error errPsmNotSupp)
        | some server =>
          let result := c.checkSecurity env.ltk server
          if result ≠ success then (c, .error result)
          else c.chanAccept cfg (env.acceptAt 0) server psm scid mtu mps credits
    let data :=
      match r.2 with
      | .error result => le16 0 ++ le16 0 ++ le16 0 ++ le16 0 ++ le16 result
      | .ok i =>
        let rx := (r.1.chan i).rx
        le16 rx.cid ++ le16 rx.mtu ++ le16 rx.mps ++ le16 rx.credits ++ le16 success
    (r.1.sendSig (sigPdu .leConnRsp ident data)).1

/-- The loop over the CIDs in `le_ecred_conn_req`. -/
structure Accepting where
  conn : LeConn
  result : ℕ := success
  dcids : List ℕ := []
  last : Option ℕ := none

/-- One turn of it. -/
def Accepting.next (cfg : Cfg) (env : SigEnv) (server psm mtu mps credits : ℕ) (a : Accepting)
    (scid : ℕ) : Accepting :=
  match a.conn.chanAccept cfg (env.acceptAt a.dcids.length) server psm scid mtu mps credits with
  | (c, .ok i) => { a with conn := c, dcids := a.dcids ++ [(c.chan i).rx.cid], last := some i }
  | (c, .error rc) => { a with conn := c, result := rc, dcids := a.dcids ++ [0] }

/-- `le_ecred_conn_req`. -/
def leEcredConnReq (cfg : Cfg) (env : SigEnv) (ident : UInt8) (buf : Bytes) (c : LeConn) :
    LeConn :=
  let rest := buf.drop 8
  let count := if buf.length < 8 then 0
    else if 2 * ecredMaxPerReq < rest.length then ecredMaxPerReq else rest.length / 2
  let psm := getLe16 buf
  let mtu := getLe16 (buf.drop 2)
  let mps := getLe16 (buf.drop 4)
  let credits := getLe16 (buf.drop 6)
  let a : Accepting :=
    if buf.length < 8 ∨ 2 * ecredMaxPerReq < rest.length ∨ ¬ inRange 64 mtu mps ∨ credits = 0 then
      { conn := c, result := errInvalidParams }
    else
      match env.server with
      | none => { conn := c, result := errPsmNotSupp }
      | some server =>
        let result := c.checkSecurity env.ltk server
        if result ≠ success then { conn := c, result := result }
        else (getCids rest).foldl (Accepting.next cfg env server psm mtu mps credits)
          { conn := c }
  if ¬ env.rspBuf then a.conn
  else
    let rx := (a.last.map fun i => (a.conn.chan i).rx).getD {}
    let dcids := (List.range count).map fun k => a.dcids.getD k 0
    let data := le16 rx.mtu ++ le16 rx.mps ++ le16 rx.credits ++ le16 a.result ++
      dcids.flatMap le16
    (a.conn.sendSig (sigPdu .ecredConnRsp ident data)).1

/-! ## Connection responses -/

/-- The request of a channel has its response. -/
def clearRequest (i : ℕ) (c : LeConn) : LeConn :=
  c.modify i fun ch => { ch with ident := 0, pendingReq := none }

/-- A response opens a channel: the parameters of the peer, and the
credits once the application was told. What its callback calls is left out:
it might disconnect a channel that the same response is still to open. -/
def openChan (i dcid mtu mps credits : ℕ) (c : LeConn) : LeConn :=
  (c.modify i fun ch =>
    { ch with
      tx := { ch.tx with cid := dcid, mtu := mtu, mps := mps }
      state := .connected }).giveCredits credits i

/-- `bt_conn_disconnect`. -/
def disconnectLink (env : SigEnv) (c : LeConn) : LeConn :=
  if env.hciDisc ∧ c.phase = .connected then { c with phase := .disconnecting } else c

/-- `le_conn_rsp`. -/
def leConnRsp (env : SigEnv) (ident : UInt8) (buf : Bytes) (c : LeConn) : LeConn :=
  if buf.length ≠ 10 then c
  else
    let dcid := getLe16 buf
    let mtu := getLe16 (buf.drop 2)
    let mps := getLe16 (buf.drop 4)
    let credits := getLe16 (buf.drop 6)
    let result := getLe16 (buf.drop 8)
    match c.lookupIdent ident .leConn with
    | none => c
    | some i =>
      if result = success then
        let c := c.clearRequest i
        if ¬ (cidIsDyn dcid ∧ inRange 23 mtu mps) then c.disconnectLink env
        else c.openChan i dcid mtu mps credits
      else if result = errAuthentication ∨ result = errEncryption then
        let r := (c.clearRequest i).changeSecurity result (env.secure i) i
        if r.2 then r.1 else r.1.drop i
      else ((c.chanRemove i).clearRequest i).chanDel i

/-- The turns of `le_ecred_conn_rsp` for a security error, one for each
channel of the request. -/
def ecredSecurity (env : SigEnv) (result : ℕ) : List ℕ → LeConn → LeConn
  | [], c => c
  | i :: rest, c =>
    let r := c.changeSecurity result (env.secure i) i
    if r.2 then r.1 else ecredSecurity env result rest (r.1.drop i)

/-- The turns of `le_ecred_conn_rsp` for a success, one for each channel
of the request; `buf` holds the destination CIDs that are left. -/
def ecredOpen (env : SigEnv) (ident : UInt8) (mtu mps credits : ℕ) :
    List ℕ → Bytes → LeConn → LeConn
  | [], _, c => c
  | i :: rest, buf, c =>
    if ¬ ((c.chan i).ident = ident ∧ (c.chan i).pendingReq = some .ecredConn) then
      ecredOpen env ident mtu mps credits rest buf c
    else if buf.length < 2 then ecredOpen env ident mtu mps credits rest buf (c.drop i)
    else
      let dcid := getLe16 buf
      if dcid = 0 then ecredOpen env ident mtu mps credits rest (buf.drop 2) (c.drop i)
      else if ¬ (cidIsDyn dcid ∧ inRange 64 mtu mps ∧ 1 ≤ credits) then c.disconnectLink env
      else
        match c.lookupTxCid dcid with
        | some j =>
          ecredOpen env ident mtu mps credits rest (buf.drop 2)
            ((c.drop i).chanDisconnect (env.disc i) j)
        | none =>
          ecredOpen env ident mtu mps credits rest (buf.drop 2)
            ((c.clearRequest i).openChan i dcid mtu mps credits)

/-- The channels of a request are deleted. -/
def dropAll (chans : List ℕ) (c : LeConn) : LeConn := chans.foldl (fun c i => c.drop i) c

/-- `le_ecred_conn_rsp`. -/
def leEcredConnRsp (env : SigEnv) (ident : UInt8) (buf : Bytes) (c : LeConn) : LeConn :=
  if buf.length < 8 then c
  else
    let mtu := getLe16 buf
    let mps := getLe16 (buf.drop 2)
    let credits := getLe16 (buf.drop 4)
    let result := getLe16 (buf.drop 6)
    let chans := c.withIdent ident .ecredConn
    if result = errAuthentication ∨ result = errEncryption then c.ecredSecurity env result chans
    else if result = success ∨ result = errInvalidScid ∨ result = errScidInUse ∨
        result = errNoResources then
      c.ecredOpen env ident mtu mps credits chans (buf.drop 8)
    else c.dropAll chans

/-! ## Disconnection and credits -/

/-- `l2cap_send_reject`. -/
def sendReject (env : SigEnv) (ident : UInt8) (reason : ℕ) (data : Bytes) (c : LeConn) : LeConn :=
  if env.rspBuf then (c.sendSig (sigPdu .cmdReject ident (le16 reason ++ data))).1 else c

/-- The channel `l2cap_remove_rx_cid` removes. -/
def removeRxCid (cid : ℕ) (c : LeConn) : Option ℕ :=
  if cidIsDyn cid then c.lookupRxCid cid else none

/-- `le_disconn_req`: without a buffer for the response, the channel that
was removed is not deleted. -/
def leDisconnReq (env : SigEnv) (ident : UInt8) (buf : Bytes) (c : LeConn) : LeConn :=
  if buf.length ≠ 4 then c
  else
    match c.removeRxCid (getLe16 buf) with
    | none => c.sendReject env ident 0x0002 (buf.drop 2 ++ buf.take 2)
    | some i =>
      if ¬ env.rspBuf then c.chanRemove i
      else
        let ch := c.chan i
        ((c.drop i).sendSig (sigPdu .disconnRsp ident (le16 ch.rx.cid ++ le16 ch.tx.cid))).1

/-- `le_disconn_rsp`. -/
def leDisconnRsp (ident : UInt8) (buf : Bytes) (c : LeConn) : LeConn :=
  if buf.length ≠ 4 then c
  else
    match c.lookupIdent ident .disconn with
    | none => c
    | some i =>
      if getLe16 (buf.drop 2) ≠ (c.chan i).rx.cid then c
      else
        match c.removeRxCid (getLe16 (buf.drop 2)) with
        | none => c
        | some i => c.drop i

/-- `le_credits`. -/
def leCredits (env : SigEnv) (buf : Bytes) (c : LeConn) : LeConn :=
  if buf.length ≠ 4 then c
  else
    let cid := getLe16 buf
    let credits := getLe16 (buf.drop 2)
    if ¬ cidIsDyn cid then c
    else if credits = 0 then c
    else
      match c.lookupTxCid cid with
      | none => c
      | some i =>
        if 0xffff < (c.chan i).tx.credits + credits then c.chanDisconnect (env.disc i) i
        else c.giveCredits credits i

/-- `reject_cmd`. -/
def rejectCmd (ident : UInt8) (c : LeConn) : LeConn :=
  c.dropAll (c.channels.filter fun i => (c.chan i).ident = ident)

/-! ## Reconfiguration -/

/-- The channels a reconfiguration request is for, or the result it is
refused with. -/
def reconfChans (mtu : ℕ) (c : LeConn) : List ℕ → Except ℕ (List ℕ)
  | [] => .ok []
  | scid :: rest =>
    match c.lookupTxCid scid with
    | none => .error reconfInvalidCid
    | some i =>
      if mtu < (c.chan i).tx.mtu then .error reconfInvalidMtu
      else (c.reconfChans mtu rest).map (i :: ·)

/-- `le_ecred_reconf_req` up to the response: what it does and its
result. -/
def reconfigured (mtu mps : ℕ) (rest : Bytes) (c : LeConn) : LeConn × ℕ :=
  if mps < 64 then (c, reconfOtherUnaccept)
  else if mtu < 64 then (c, reconfInvalidMtu)
  else if 2 * ecredMaxPerReq < rest.length then (c, reconfOtherUnaccept)
  else
    match c.reconfChans mtu (getCids rest) with
    | .error result => (c, result)
    | .ok chans =>
      if (∃ i ∈ chans, mps < (c.chan i).tx.mps) ∧ 1 < chans.length then (c, reconfInvalidMps)
      else
        (chans.foldl (fun c i => c.modify i fun ch =>
          { ch with tx := { ch.tx with mtu := mtu, mps := mps } }) c, success)

/-- `le_ecred_reconf_req`. -/
def leEcredReconfReq (env : SigEnv) (ident : UInt8) (buf : Bytes) (c : LeConn) : LeConn :=
  if buf.length < 4 then c
  else
    let r := c.reconfigured (getLe16 buf) (getLe16 (buf.drop 2)) (buf.drop 4)
    if env.rspBuf then (r.1.sendSig (sigPdu .ecredReconfRsp ident (le16 r.2))).1 else r.1

/-- `le_ecred_reconf_rsp`. The receive MPS is not updated. -/
def leEcredReconfRsp (ident : UInt8) (buf : Bytes) (c : LeConn) : LeConn :=
  if buf.length ≠ 2 then c
  else
    let result := getLe16 buf
    (c.withIdent ident .ecredReconf).foldl (fun c i => c.modify i fun ch =>
      { ch with
        rx := if result = success then { ch.rx with mtu := ch.pendingRxMtu } else ch.rx
        pendingRxMtu := 0
        ident := 0
        pendingReq := none }) c

/-! ## The signalling channel -/

/-- `le_conn_param_update_req`, its response. -/
def leConnParamUpdateReq (env : SigEnv) (ident : UInt8) (buf : Bytes) (c : LeConn) : LeConn :=
  if buf.length ≠ 8 then c
  else if c.phase ≠ .connected then c
  else if ¬ env.central then c.sendReject env ident 0x0000 []
  else if env.rspBuf then
    (c.sendSig (sigPdu .connParamRsp ident (le16 (if env.paramOk then 0 else 1)))).1
  else c

/-- The code of a PDU, as `l2cap_recv` tells them apart. -/
def sigCode? (code : UInt8) : Option SigCode :=
  [.cmdReject, .disconnReq, .disconnRsp, .connParamReq, .connParamRsp, .leConnReq, .leConnRsp,
    .leCredits, .ecredConnReq, .ecredConnRsp, .ecredReconfReq, .ecredReconfRsp].find?
      fun k => k.toUInt8 = code

/-- `l2cap_recv`, behind the header. -/
def sigHandle (cfg : Cfg) (env : SigEnv) (ident : UInt8) (data : Bytes) (c : LeConn) :
    Option SigCode → LeConn
  | some .connParamRsp => c
  | some .leConnReq => c.leConnReq cfg env ident data
  | some .leConnRsp => c.leConnRsp env ident data
  | some .disconnReq => c.leDisconnReq env ident data
  | some .disconnRsp => c.leDisconnRsp ident data
  | some .leCredits => c.leCredits env data
  | some .cmdReject => c.rejectCmd ident
  | some .ecredConnReq => c.leEcredConnReq cfg env ident data
  | some .ecredConnRsp => c.leEcredConnRsp env ident data
  | some .ecredReconfReq => c.leEcredReconfReq env ident data
  | some .ecredReconfRsp => c.leEcredReconfRsp ident data
  | some .connParamReq => c.leConnParamUpdateReq env ident data
  | none => c.sendReject env ident 0x0000 []

/-- `l2cap_recv`. -/
def sigRecv (cfg : Cfg) (env : SigEnv) (buf : Bytes) (c : LeConn) : LeConn :=
  match buf with
  | code :: ident :: lo :: hi :: data =>
    if data.length ≠ getLe16 [lo, hi] then c
    else if ident = 0 then c
    else c.sigHandle cfg env ident data (sigCode? code)
  | _ => c

end LeConn

end L2cap

end OpenBlue

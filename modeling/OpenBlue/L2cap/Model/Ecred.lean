import OpenBlue.Common.Loop
import OpenBlue.L2cap.Model.Events
/-!
# L2CAP — the loops of an enhanced credit based connection

`le_ecred_conn_rsp` as it is written: each turn of its loops looks for the
first channel of the list that waits under the identifier, and works on a
list that earlier turns have changed. And the requests of
`l2cap_ecred_conn_req` that one event of a connection makes, each with the
channels whose CIDs it carries, in the order it carries them.
-/

namespace OpenBlue

namespace L2cap

namespace LeConn

/-! ## The response -/

/-- One turn of the loop for a security error. -/
def ecredSecurityTurn (env : SigEnv) (ident : UInt8) (result : ℕ) (c : LeConn) :
    LeConn ⊕ LeConn :=
  match c.lookupIdent ident .ecredConn with
  | none => .inr c
  | some i =>
    let r := c.changeSecurity result (env.secure i) i
    if r.2 then .inr r.1 else .inl (r.1.drop i)

/-- What the loop for a success does with the channel it has found; the
buffer holds the destination CIDs that are left. -/
def ecredOpenOn (env : SigEnv) (mtu mps credits i : ℕ) :
    Bytes × LeConn → (Bytes × LeConn) ⊕ LeConn
  | (buf, c) =>
    if buf.length < 2 then .inl (buf, c.drop i)
    else
      let dcid := getLe16 buf
      if dcid = 0 then .inl (buf.drop 2, c.drop i)
      else if ¬ (cidIsDyn dcid ∧ inRange 64 mtu mps ∧ 1 ≤ credits) then
        .inr (c.disconnectLink env)
      else
        match c.lookupTxCid dcid with
        | some j => .inl (buf.drop 2, (c.drop i).chanDisconnect (env.disc i) j)
        | none => .inl (buf.drop 2, (c.clearRequest i).openChan i dcid mtu mps credits)

/-- One turn of the loop for a success. -/
def ecredOpenTurn (env : SigEnv) (ident : UInt8) (mtu mps credits : ℕ) (s : Bytes × LeConn) :
    (Bytes × LeConn) ⊕ LeConn :=
  match s.2.lookupIdent ident .ecredConn with
  | none => .inr s.2
  | some i => ecredOpenOn env mtu mps credits i s

/-- One turn of the loop for every other result. -/
def ecredRefuseTurn (ident : UInt8) (c : LeConn) : LeConn ⊕ LeConn :=
  match c.lookupIdent ident .ecredConn with
  | none => .inr c
  | some i => .inl (c.drop i)

/-- `le_ecred_conn_rsp`, with at most `n` turns of its loop. -/
def ecredConnRsp (env : SigEnv) (ident : UInt8) (buf : Bytes) (n : ℕ) (c : LeConn) :
    Option LeConn :=
  if buf.length < 8 then some c
  else
    let mtu := getLe16 buf
    let mps := getLe16 (buf.drop 2)
    let credits := getLe16 (buf.drop 4)
    let result := getLe16 (buf.drop 6)
    if result = errAuthentication ∨ result = errEncryption then
      loop (ecredSecurityTurn env ident result) n c
    else if result = success ∨ result = errInvalidScid ∨ result = errScidInUse ∨
        result = errNoResources then
      loop (ecredOpenTurn env ident mtu mps credits) n (buf.drop 8, c)
    else loop (ecredRefuseTurn ident) n c

/-! ## The requests -/

/-- The channels that `l2cap_le_encrypt_change` asks for again. -/
def sameIdent (i : ℕ) (c : LeConn) : List ℕ :=
  c.channels.filter fun j => (c.chan j).ident = (c.chan i).ident

/-- An event makes a request under an identifier on the channels of a list,
and no other request under it: `bt_l2cap_ecred_chan_connect`, or
`l2cap_le_encrypt_change` in its turn on one of the channels. -/
inductive Asks (cfg : Cfg) (c : LeConn) : Event → UInt8 → List ℕ → Prop
  | connect {chans : List ℕ} {psm : ℕ} {counter : UInt8} (hne : chans ≠ [])
      (hinit : (c.ecredInitAll cfg psm (chans.take ecredMaxPerReq)).2 = true) :
      Asks cfg c (.ecredConnect chans psm (some counter)) (getIdent counter)
        (chans.take ecredMaxPerReq)
  | retry {secLevel i : ℕ} {bufs : ℕ → Option UInt8} {counter : UInt8} {before behind : List ℕ}
      {turn : LeConn} (hlist : c.channels = before ++ i :: behind)
      (hturn : turn = before.foldl (fun c i => c.leEncryptChange true (bufs i) i)
        { c with secLevel := secLevel })
      (hpending : (turn.chan i).encryptPending = true) (hident : (turn.chan i).ident ≠ 0)
      (hbuf : bufs i = some counter)
      (hother : ∀ j counter', j ≠ i → bufs j = some counter' → getIdent counter' ≠ getIdent counter) :
      Asks cfg c (.securityChanged secLevel true bufs) (getIdent counter) (turn.sameIdent i)

end LeConn

end L2cap

end OpenBlue

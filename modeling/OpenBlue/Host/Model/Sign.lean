import Mathlib.Algebra.Order.Ring.Int
import Mathlib.Data.List.Basic
/-!
# Host — signed writes

The model of data signing in `smp.c` between two bonded endpoints: one
signs with its local CSRK and counter, the other verifies with its remote
CSRK and counter. The counters are part of the stored keys and are written
to storage with them only. AES-CMAC is a parameter.
-/

namespace OpenBlue

namespace Host

/-- AES-CMAC: from a key and a message to sixteen bytes. -/
structure Cmac where
  mac : List UInt8 → List UInt8 → List UInt8
  length_mac : ∀ key m, (mac key m).length = 16

/-- `bt_crypto_aes_cmac`, which may fail. -/
def Cmac.run (c : Cmac) (fail : Bool) (key m : List UInt8) : Option (List UInt8) :=
  if fail then none else some (c.mac key m)

/-- A counter in little endian. -/
def le32 (n : UInt32) : List UInt8 :=
  [n.toUInt8, (n >>> 8).toUInt8, (n >>> 16).toUInt8, (n >>> 24).toUInt8]

/-- `smp_sign_buf` on a buffer of `len` bytes of message, the count and
room for the signature: the buffer it leaves, and whether it succeeds. -/
def smpSignBuf (c : Cmac) (fail : Bool) (key buf : List UInt8) (len : ℕ) : List UInt8 × Bool :=
  let m := (buf.take (len + 4)).reverse
  match c.run fail key.reverse m with
  -- The message is left swapped.
  | none => (m ++ buf.drop (len + 4), false)
  | some tmp =>
    let cnt := (buf.drop len).take 4
    let tmp := tmp.reverse.take 4 ++ cnt ++ tmp.reverse.drop 8
    (buf.take len ++ (tmp.drop 4).take 12, true)

/-- `bt_smp_sign` with the counter `cnt`. -/
def smpSign (c : Cmac) (fail : Bool) (key : List UInt8) (cnt : UInt32) (msg : List UInt8) :
    List UInt8 × Bool :=
  smpSignBuf c fail key (msg ++ le32 cnt ++ List.replicate 8 0) msg.length

/-- `bt_smp_sign_verify` with the counter `cnt`. -/
def smpSignVerify (c : Cmac) (fail : Bool) (key : List UInt8) (cnt : UInt32) (buf : List UInt8) :
    List UInt8 × Bool :=
  let len := buf.length - 12
  let sig := buf.drop len
  let r := smpSignBuf c fail key (buf.take len ++ le32 cnt ++ sig.drop 4) len
  if r.2 then (r.1, sig == r.1.drop len) else r

/-! ## The two endpoints -/

/-- A PDU that was signed: the message, the counter it was signed with,
and the bytes sent. -/
structure Signed where
  msg : List UInt8
  count : UInt32
  pdu : List UInt8
  deriving DecidableEq, Repr

/-- The counters of both sides, in memory and in storage, and the PDUs
signed so far. -/
structure SignState where
  /-- `local_csrk.cnt` of the signer. -/
  signer : UInt32 := 0
  signerStored : UInt32 := 0
  /-- `remote_csrk.cnt` of the verifier. -/
  verifier : UInt32 := 0
  verifierStored : UInt32 := 0
  sent : List Signed := []
  deriving DecidableEq, Repr

/-- What can happen. A PDU that is never delivered is lost. -/
inductive SignEvent
  | sign (msg : List UInt8) (fail : Bool)
  /-- The `n`-th signed PDU is delivered, for the first time or again. -/
  | deliver (n : ℕ) (fail : Bool)
  /-- `bt_keys_store` on the signer. -/
  | storeSigner
  /-- `bt_keys_store` on the verifier. -/
  | storeVerifier
  | restartSigner
  | restartVerifier
  deriving DecidableEq, Repr

/-- The verifier's answer to the `n`-th signed PDU: the buffer and whether
it is accepted. -/
def SignState.answer (s : SignState) (c : Cmac) (key : List UInt8) (n : ℕ) (fail : Bool) :
    List UInt8 × Bool :=
  match s.sent[n]? with
  | none => ([], false)
  | some p => smpSignVerify c fail key s.verifier p.pdu

/-- One step of the two endpoints. -/
def signStep (c : Cmac) (key : List UInt8) (s : SignState) : SignEvent → SignState
  | .sign msg fail =>
    let r := smpSign c fail key s.signer msg
    if r.2 then
      { s with signer := s.signer + 1, sent := s.sent ++ [⟨msg, s.signer, r.1⟩] }
    else s
  | .deliver n fail =>
    if (s.answer c key n fail).2 then { s with verifier := s.verifier + 1 } else s
  | .storeSigner => { s with signerStored := s.signer }
  | .storeVerifier => { s with verifierStored := s.verifier }
  | .restartSigner => { s with signer := s.signerStored }
  | .restartVerifier => { s with verifier := s.verifierStored }

/-- The PDU a step accepts, by its number. -/
def signAccept (c : Cmac) (key : List UInt8) (s : SignState) : SignEvent → List ℕ
  | .deliver n fail => if (s.answer c key n fail).2 then [n] else []
  | _ => []

end Host

end OpenBlue

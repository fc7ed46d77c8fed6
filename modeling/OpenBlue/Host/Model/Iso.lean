import OpenBlue.Common.Bytes
/-!
# Host — reassembly of isochronous data

The model of `bt_iso_recv` of `iso.c`, which puts the fragments of an SDU
together in the buffer of the first one. A packet comes with what
`hci_iso` has made of it: its flags and its load, of the length that the
HCI header gives.
-/

namespace OpenBlue

namespace Iso

/-- The bytes of a buffer. -/
abbrev Bytes := List UInt8

/-- `bt_iso_flags_pb`. -/
inductive Pb where
  | start
  | cont
  | single
  | last
  deriving DecidableEq

/-- The header of an SDU takes so many bytes, with a time stamp or not. -/
def hdrSize (ts : Bool) : ℕ := if ts then 8 else 4

/-- An HCI ISO data packet in its buffer: a length has 14 bits, and a first
fragment has a header. -/
structure Packet where
  id : ℕ
  pb : Pb
  ts : Bool
  load : Bytes
  tailroom : ℕ
  short : load.length < 2 ^ 14
  headed : pb = .start ∨ pb = .single → hdrSize ts ≤ load.length

/-- `struct bt_iso_recv_info`. -/
structure RecvInfo where
  ts : ℕ
  seqNum : ℕ
  flags : ℕ
  deriving DecidableEq

/-- The buffer that `iso->rx` points to. -/
structure Buf where
  id : ℕ
  info : RecvInfo
  data : Bytes
  tailroom : ℕ
  deriving DecidableEq

/-- Of `struct bt_conn` what reassembly uses. -/
structure Conn where
  rx : Option Buf := none
  rxLen : ℕ := 0
  deriving DecidableEq

/-- An SDU handed to the channel, and a buffer given back. -/
inductive Out where
  | recv (info : RecvInfo) (data : Bytes)
  | unref (id : ℕ)
  deriving DecidableEq

/-- The `slen` field of the header. -/
def Packet.slen (p : Packet) : ℕ := getLe16 (p.load.drop (hdrSize p.ts - 2))

/-- `bt_iso_pkt_len`: the announced length of the SDU. -/
def Packet.sduLength (p : Packet) : ℕ := p.slen % 2 ^ 12

/-- What follows the header. -/
def Packet.payload (p : Packet) : Bytes := p.load.drop (hdrSize p.ts)

/-- The flags for `bt_iso_pkt_flags`; the last value is not valid. -/
def infoFlags (ts : Bool) (status : ℕ) : ℕ :=
  let flags := if ts then 8 else 0
  if status = 0 then flags ||| 1
  else if status = 1 then flags ||| 2
  else if status = 2 then flags ||| 4
  else 0

/-- `iso_info`. -/
def Packet.info (p : Packet) : RecvInfo where
  ts := if p.ts then leNat (p.load.take 4) else 0
  seqNum := getLe16 (p.load.drop (hdrSize p.ts - 4))
  flags := infoFlags p.ts (p.slen >>> 14)

/-- A difference in 16 bits. -/
def sub16 (a b : ℕ) : ℕ := (a + 2 ^ 16 - b) % 2 ^ 16

/-- `bt_conn_reset_rx_state`. -/
def Conn.resetRxState (s : Conn) : Conn × List Out :=
  match s.rx with
  | none => (s, [])
  | some rx => ({ s with rx := none }, [.unref rx.id])

/-- The end of `bt_iso_recv`: the SDU is handed on, if the channel listens. -/
def Conn.deliver (listens : Bool) (s : Conn) : Conn × List Out :=
  let out := match s.rx with
    | some rx => if listens then [.recv rx.info rx.data] else []
    | none => []
  (s.resetRxState.1, out ++ s.resetRxState.2)

/-- A first fragment. -/
def Conn.recvFirst (listens : Bool) (s : Conn) (p : Packet) : Conn × List Out :=
  let dropped := s.resetRxState.2
  let s : Conn := { rx := some ⟨p.id, p.info, p.payload, p.tailroom⟩,
                    rxLen := sub16 p.sduLength p.payload.length }
  if s.rxLen ≠ 0 then
    if p.pb = .single then (s.resetRxState.1, dropped ++ s.resetRxState.2) else (s, dropped)
  else ((s.deliver listens).1, dropped ++ (s.deliver listens).2)

/-- A later fragment. -/
def Conn.recvMore (listens : Bool) (s : Conn) (p : Packet) : Conn × List Out :=
  match s.rx with
  | none => (s, [.unref p.id])
  | some rx =>
    if rx.tailroom < p.load.length then (s.resetRxState.1, s.resetRxState.2 ++ [.unref p.id])
    else
      let s : Conn := { rx := some { rx with data := rx.data ++ p.load,
                                             tailroom := rx.tailroom - p.load.length },
                        rxLen := sub16 s.rxLen p.load.length }
      if p.pb = .last then ((s.deliver listens).1, .unref p.id :: (s.deliver listens).2)
      else (s, [.unref p.id])

/-- `bt_iso_recv`. -/
def Conn.recv (listens : Bool) (s : Conn) (p : Packet) : Conn × List Out :=
  match p.pb with
  | .start | .single => s.recvFirst listens p
  | .cont | .last => s.recvMore listens p

end Iso

end OpenBlue

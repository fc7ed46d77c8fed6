import OpenBlue.Common.Bytes
import Mathlib.Data.BitVec
/-!
# BR/EDR L2CAP — the frames of the retransmission modes

The model of the control fields of `l2cap_br_internal.h`, of
`bt_l2cap_br_pack_s_frame_header` and `bt_l2cap_br_pack_i_frame_header`
with the payload and the frame check sequence that
`l2cap_br_ret_fc_data_pull` puts behind them, and of the checks and the
parsing of `bt_l2cap_br_ret_fc_recv`. The host is little-endian.
-/

namespace OpenBlue

namespace Classic

/-- The bytes of a buffer. -/
abbrev Bytes := List UInt8

/-- `BT_L2CAP_BR_LINK_MODE_BASIC` and the modes after it. -/
inductive LinkMode
  | basic
  | ret
  | fc
  | eret
  | stream
  deriving DecidableEq, Repr

/-- `struct bt_l2cap_br_endpoint`; `fcs` is set for
`BT_L2CAP_BR_FCS_16BIT`. -/
structure Endpoint where
  cid : ℕ := 0
  mtu : ℕ := 0
  mps : ℕ := 0
  mode : LinkMode := .basic
  fcs : Bool := false
  extendedControl : Bool := false
  maxWindow : ℕ := 0
  maxTransmit : ℕ := 0
  deriving DecidableEq, Repr

/-- The three formats of the control field. -/
inductive Layout
  | std
  | enh
  | ext
  deriving DecidableEq, Repr

/-- The format that the frames of a mode have. -/
def Endpoint.layout (e : Endpoint) : Layout :=
  match e.mode with
  | .eret | .stream => if e.extendedControl then .ext else .enh
  | _ => .std

/-- `BT_L2CAP_STD_CONTROL_SIZE`, `BT_L2CAP_ENH_CONTROL_SIZE` and
`BT_L2CAP_EXT_CONTROL_SIZE`. -/
def Layout.size : Layout → ℕ
  | .std => 2
  | .enh => 2
  | .ext => 4

/-- `BT_L2CAP_CONTROL_SEQ_MAX` and `BT_L2CAP_EXT_CONTROL_SEQ_MAX`. -/
def Layout.seqMax : Layout → ℕ
  | .std => 0x40
  | .enh => 0x40
  | .ext => 0x4000

/-- `bt_l2cap_br_get_ret_fc_hdr_size`: the control field and the SDU
length. -/
def Endpoint.hdrSize (e : Endpoint) : ℕ :=
  if e.mode = .basic then 0 else if e.extendedControl then 4 + 2 else 2 + 2

/-- `bt_l2cap_br_get_ret_fc_tail_size`. -/
def Endpoint.tailSize (e : Endpoint) : ℕ :=
  if e.mode = .basic then 0 else if e.fcs then 2 else 0

/-- `bt_l2cap_br_get_required_len`. -/
def Endpoint.requiredLen (e : Endpoint) : ℕ :=
  if e.mode = .basic then 0
  else (if e.fcs then 2 else 0) + (if e.extendedControl then 4 else 2)

/-! ## The control field -/

/-- `BT_L2CAP_CONTROL_SAR_*`. -/
inductive Sar
  | unseg
  | start
  | fin
  | conti
  deriving DecidableEq, Repr

/-- `BT_L2CAP_CONTROL_SAR_UNSEG` and the values after it. -/
def Sar.toNat : Sar → ℕ
  | .unseg => 0
  | .start => 1
  | .fin => 2
  | .conti => 3

/-- The value that a field of two bits has. -/
def Sar.ofBits : ℕ → Sar
  | 0 => .unseg
  | 1 => .start
  | 2 => .fin
  | _ => .conti

/-- `BT_L2CAP_CONTROL_S_*`. -/
inductive SType
  | rr
  | rej
  | rnr
  | srej
  deriving DecidableEq, Repr

/-- `BT_L2CAP_CONTROL_S_RR` and the values after it. -/
def SType.toNat : SType → ℕ
  | .rr => 0
  | .rej => 1
  | .rnr => 2
  | .srej => 3

/-- The value that a field of two bits has. -/
def SType.ofBits : ℕ → SType
  | 0 => .rr
  | 1 => .rej
  | 2 => .rnr
  | _ => .srej

/-- The fields of an I-frame: the standard format has the R bit, the
others have the F bit. -/
structure IControl where
  txSeq : ℕ
  reqSeq : ℕ
  sar : Sar
  f : Bool := false
  r : Bool := false
  deriving DecidableEq, Repr

/-- The fields of an S-frame: the standard format has the R bit, the
others have the P and the F bit. -/
structure SControl where
  reqSeq : ℕ
  s : SType
  p : Bool := false
  f : Bool := false
  r : Bool := false
  deriving DecidableEq, Repr

/-- `BT_L2CAP_I_FRAME_STD_CONTROL_SET`, `BT_L2CAP_I_FRAME_ENH_CONTROL_SET`
and `BT_L2CAP_I_FRAME_EXT_CONTROL_SET`. -/
def IControl.set (c : IControl) : Layout → ℕ
  | .std => (c.txSeq &&& 0x3f) <<< 1 ||| (c.r.toNat &&& 1) <<< 7 |||
      (c.reqSeq &&& 0x3f) <<< 8 ||| (c.sar.toNat &&& 3) <<< 14
  | .enh => (c.txSeq &&& 0x3f) <<< 1 ||| (c.f.toNat &&& 1) <<< 7 |||
      (c.reqSeq &&& 0x3f) <<< 8 ||| (c.sar.toNat &&& 3) <<< 14
  | .ext => (c.f.toNat &&& 1) <<< 1 ||| (c.reqSeq &&& 0x3fff) <<< 2 |||
      (c.sar.toNat &&& 3) <<< 16 ||| (c.txSeq &&& 0x3fff) <<< 18

/-- `BT_L2CAP_I_FRAME_*_CONTROL_GET_*`. -/
def IControl.get (control : ℕ) : Layout → IControl
  | .std =>
    { txSeq := control >>> 1 &&& 0x3f
      reqSeq := control >>> 8 &&& 0x3f
      sar := .ofBits (control >>> 14 &&& 3)
      r := control >>> 7 &&& 1 ≠ 0 }
  | .enh =>
    { txSeq := control >>> 1 &&& 0x3f
      reqSeq := control >>> 8 &&& 0x3f
      sar := .ofBits (control >>> 14 &&& 3)
      f := control >>> 7 &&& 1 ≠ 0 }
  | .ext =>
    { txSeq := control >>> 18 &&& 0x3fff
      reqSeq := control >>> 2 &&& 0x3fff
      sar := .ofBits (control >>> 16 &&& 3)
      f := control >>> 1 &&& 1 ≠ 0 }

/-- `BT_L2CAP_S_FRAME_STD_CONTROL_SET`, `BT_L2CAP_S_FRAME_ENH_CONTROL_SET`
and `BT_L2CAP_S_FRAME_EXT_CONTROL_SET`. -/
def SControl.set (c : SControl) : Layout → ℕ
  | .std => 1 ||| (c.s.toNat &&& 3) <<< 2 ||| (c.r.toNat &&& 1) <<< 7 |||
      (c.reqSeq &&& 0x3f) <<< 8
  | .enh => 1 ||| (c.s.toNat &&& 3) <<< 2 ||| (c.p.toNat &&& 1) <<< 4 |||
      (c.f.toNat &&& 1) <<< 7 ||| (c.reqSeq &&& 0x3f) <<< 8
  | .ext => 1 ||| (c.f.toNat &&& 1) <<< 1 ||| (c.reqSeq &&& 0x3fff) <<< 2 |||
      (c.s.toNat &&& 3) <<< 16 ||| (c.p.toNat &&& 1) <<< 18

/-- `BT_L2CAP_S_FRAME_*_CONTROL_GET_*`. -/
def SControl.get (control : ℕ) : Layout → SControl
  | .std =>
    { reqSeq := control >>> 8 &&& 0x3f
      s := .ofBits (control >>> 2 &&& 3)
      r := control >>> 7 &&& 1 ≠ 0 }
  | .enh =>
    { reqSeq := control >>> 8 &&& 0x3f
      s := .ofBits (control >>> 2 &&& 3)
      p := control >>> 4 &&& 1 ≠ 0
      f := control >>> 7 &&& 1 ≠ 0 }
  | .ext =>
    { reqSeq := control >>> 2 &&& 0x3fff
      s := .ofBits (control >>> 16 &&& 3)
      p := control >>> 18 &&& 1 ≠ 0
      f := control >>> 1 &&& 1 ≠ 0 }

/-- The fields that a format has. -/
def IControl.on (c : IControl) : Layout → IControl
  | .std => { c with f := false }
  | .enh => { c with r := false }
  | .ext => { c with r := false }

/-- The fields that a format has. -/
def SControl.on (c : SControl) : Layout → SControl
  | .std => { c with p := false, f := false }
  | .enh => { c with r := false }
  | .ext => { c with r := false }

/-- A frame, as its control field and its payload. -/
inductive Frame
  | s (ctl : SControl)
  | i (ctl : IControl) (info : Bytes)
  deriving DecidableEq, Repr

/-! ## The bytes of a frame -/

/-- One bit of `crc16_reflect`. -/
def crcBit (poly crc : BitVec 16) : BitVec 16 :=
  if crc &&& 1 ≠ 0 then crc >>> 1 ^^^ poly else crc >>> 1

/-- `crc16_reflect`. -/
def crc16Reflect (poly seed : BitVec 16) (src : Bytes) : BitVec 16 :=
  src.foldl (fun crc b => (crcBit poly)^[8] (crc ^^^ b.toBitVec.setWidth 16)) seed

/-- The frame check sequence of a header, a control field and a payload. -/
def fcsOf (b : Bytes) : ℕ := (crc16Reflect 0xa001 0 b).toNat

/-- A frame and its frame check sequence, where the mode has one. -/
def Endpoint.addFcs (e : Endpoint) (b : Bytes) : Bytes :=
  if e.tailSize ≠ 0 then b ++ le16 (fcsOf b) else b

/-- `bt_buf_add_le16` or `bt_buf_add_le32` of the control field. -/
def Layout.bytes (l : Layout) (control : ℕ) : Bytes := leBytes l.size control

/-- The bytes of an S-frame to the peer of `e`. -/
def Endpoint.sFrame (e : Endpoint) (ctl : SControl) : Bytes :=
  e.addFcs (le16 (e.hdrSize + e.tailSize - 2) ++ le16 e.cid ++ e.layout.bytes (ctl.set e.layout))

/-- The length that an I-frame is given: `actual_pdu_len`, the SDU length
of a first segment being part of the payload. -/
def Endpoint.pduLen (e : Endpoint) (info : Bytes) : ℕ :=
  info.length + e.hdrSize + e.tailSize - 2

/-- The bytes of an I-frame to the peer of `e`. The parameters `pdu_len`
and `tx_seq` of `bt_l2cap_br_pack_i_frame_header` have eight bits. -/
def Endpoint.iFrame (e : Endpoint) (ctl : IControl) (info : Bytes) : Bytes :=
  e.addFcs (le16 (e.pduLen info % 2 ^ 8) ++ le16 e.cid ++
    e.layout.bytes ({ ctl with txSeq := ctl.txSeq % 2 ^ 8 }.set e.layout) ++ info)

/-! ## Parsing -/

/-- What `bt_l2cap_br_ret_fc_recv` finds in a frame. -/
inductive Parsed
  /-- Too short for its fields, or longer than the MPS: the channel is
  disconnected. -/
  | disconnect
  /-- The length or the frame check sequence is wrong. -/
  | discard
  | frame (f : Frame)
  deriving DecidableEq, Repr

/-- `bt_l2cap_br_check_valid_fcs`: the frame without its frame check
sequence. -/
def Endpoint.checkFcs (e : Endpoint) (buf : Bytes) : Option Bytes :=
  if e.mode = .basic then some buf
  else if e.fcs then
    let body := buf.take (buf.length - 2)
    if getLe16 (buf.drop (buf.length - 2)) = fcsOf body then some body else none
  else some buf

/-- The control field is pulled by `bt_l2cap_br_ret_fc_s_recv` and
`bt_l2cap_br_ret_fc_i_recv`, after its type bit has been looked at. -/
def Layout.parse (l : Layout) (pdu : Bytes) : Frame :=
  let control := leNat (pdu.take l.size)
  if control &&& 1 = 1 then .s (.get control l) else .i (.get control l) (pdu.drop l.size)

/-- The checks of `bt_l2cap_br_ret_fc_recv`. -/
def Endpoint.parse (e : Endpoint) (buf : Bytes) : Parsed :=
  let len := getLe16 buf
  if len < e.requiredLen then .disconnect
  else if buf.length ≠ len + 4 then .discard
  else match e.checkFcs buf with
    | none => .discard
    | some body =>
      if e.mps < (body.drop 4).length then .disconnect
      else .frame (e.layout.parse (body.drop 4))

end Classic

end OpenBlue

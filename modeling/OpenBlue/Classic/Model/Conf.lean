import OpenBlue.Classic.Model.RetFc
/-!
# BR/EDR L2CAP — a Configuration Request

The model of `l2cap_br_conf_req`, which does not look at the state of the
channel: what the options of a request put into the two endpoints. The
answer and the timeouts are left out.
-/

namespace OpenBlue

namespace Classic

/-- `BT_L2CAP_BR_LINK_MODE_BASIC` and the modes after it. -/
def LinkMode.ofByte : UInt8 → Option LinkMode
  | 0 => some .basic
  | 1 => some .ret
  | 2 => some .fc
  | 3 => some .eret
  | 4 => some .stream
  | _ => none

/-- What both sides support, by `info_feat_mask` of the signalling channel
and `L2CAP_EXTENDED_FEAT_MASK`, and `CONFIG_BT_L2CAP_RX_FLUSH_TO`. -/
structure ConfFeats where
  ret : Bool := true
  fc : Bool := true
  enhRet : Bool := true
  stream : Bool := true
  fcs : Bool := true
  extWinSize : Bool := true
  flushTo : ℕ := 0xffff
  deriving DecidableEq

/-- The mode that `l2cap_br_conf_opt_ret_fc` finds supported. -/
def ConfFeats.supported (f : ConfFeats) : Option LinkMode → LinkMode
  | some .ret => if f.enhRet then .eret else if f.ret then .ret else .basic
  | some .fc => if f.enhRet then .eret else if f.fc then .fc else .basic
  | some .eret =>
    if f.enhRet then .eret else if f.ret then .ret else if f.fc then .fc else .basic
  | some .stream => if f.stream then .stream else .basic
  | _ => .basic

/-- The window sizes that a mode accepts. -/
def LinkMode.acceptsWindow : LinkMode → ℕ → Bool
  | .ret, n | .fc, n => decide (1 ≤ n ∧ n ≤ 32)
  | .eret, n => decide (1 ≤ n ∧ n ≤ 63)
  | _, _ => true

namespace Chan

/-- The mode that `tx.mode` gets: it agrees with `rx.mode`, which may follow
where it is optional. -/
def agreedMode (c : Chan) (mode : LinkMode) : LinkMode :=
  if c.optional then if c.rx.mode = .basic then .basic else mode
  else match mode with
    | .ret | .fc => if c.rx.mode = .ret ∨ c.rx.mode = .fc then mode else c.rx.mode
    | _ => c.rx.mode

/-- `l2cap_br_conf_opt_mtu`. The first component says whether the result is
`BT_L2CAP_CONF_SUCCESS`. -/
def confOptMtu (c : Chan) (data : Bytes) : Bool × Chan :=
  if data.length ≠ 2 then (false, c)
  else if getLe16 data < 48 then (false, { c with tx := { c.tx with mtu := 48 } })
  else (true, { c with tx := { c.tx with mtu := getLe16 data } })

/-- `l2cap_br_conf_opt_ret_fc`. The mode is stored also where the option is
not accepted. -/
def confOptRetFc (c : Chan) (f : ConfFeats) (data : Bytes) : Bool × Chan :=
  if data.length ≠ 9 then (false, c)
  else
    let asked := LinkMode.ofByte (data.getD 0 0)
    let window := (data.getD 1 0).toNat
    let transmit := (data.getD 2 0).toNat
    let mps := getLe16 (data.drop 7)
    let mode := c.agreedMode (f.supported asked)
    let c := { c with
      tx := { c.tx with mode }
      rx := if c.optional ∧ c.rx.mode ≠ .basic then { c.rx with mode } else c.rx }
    if mode = .basic then (asked = some .basic, c)
    else if asked = some mode ∧ mps ≤ c.tx.mtu ∧ mode.acceptsWindow window ∧
        (mode = .ret ∨ mode = .fc → 1 ≤ transmit) ∧
        getLe16 (data.drop 3) ≤ getLe16 (data.drop 5) then
      let maxWindow := min window c.windows
      (true, { c with
        tx := { c.tx with maxTransmit := transmit, maxWindow, mps := min mps c.room }
        rx := if mode = .ret ∨ mode = .fc then { c.rx with maxWindow } else c.rx })
    else (false, c)

/-- `l2cap_br_conf_opt_fcs`. -/
def confOptFcs (c : Chan) (f : ConfFeats) (data : Bytes) : Bool × Chan :=
  if !f.fcs ∨ data.length ≠ 1 ∨ 1 < data.getD 0 0 then (false, c)
  else
    let fcs : Bool := data.getD 0 0 = 1
    match c.tx.mode with
    | .basic => (false, c)
    | .ret | .fc => (fcs, { c with tx := { c.tx with fcs := true } })
    | .eret | .stream => (true, { c with tx := { c.tx with fcs } })

/-- `l2cap_br_conf_opt_ext_win_size`. The size is not bounded by the number
of windows. -/
def confOptExtWinSize (c : Chan) (f : ConfFeats) (data : Bytes) : Bool × Chan :=
  if !f.extWinSize ∨ data.length ≠ 2 then (false, c)
  else
    let size := getLe16 data
    match c.tx.mode with
    | .basic | .ret | .fc => (true, c)
    | .eret =>
      if size < 1 ∨ 0x3fff < size then (false, c)
      else (true, { c with tx := { c.tx with extendedControl := true, maxWindow := size } })
    | .stream =>
      if size ≠ 0 then (false, c)
      else (true, { c with tx := { c.tx with extendedControl := true } })

/-- One option. The QoS and the extended flow specification are rejected:
`L2CAP_EXTENDED_FEAT_MASK` has neither. An unknown option may be a hint. -/
def confOpt (c : Chan) (f : ConfFeats) (type : UInt8) (data : Bytes) : Bool × Chan :=
  match type &&& 0x7f with
  | 0x01 => c.confOptMtu data
  | 0x02 => (data.length = 2 ∧ getLe16 data ≠ 0 ∧ f.flushTo ≤ getLe16 data, c)
  | 0x03 => (false, c)
  | 0x04 => c.confOptRetFc f data
  | 0x05 => c.confOptFcs f data
  | 0x06 => (false, c)
  | 0x07 => c.confOptExtWinSize f data
  | _ => (type &&& 0x80 ≠ 0, c)

/-- The loop of `l2cap_br_conf_req` over its options; each takes two bytes
and its length. -/
def confOpts (f : ConfFeats) : ℕ → Bytes → Chan → Bool × Chan
  | n + 1, type :: len :: rest, c =>
    if rest.length < len.toNat then (false, c)
    else match c.confOpt f type (rest.take len.toNat) with
      | (true, c) => confOpts f n (rest.drop len.toNat) c
      | (false, c) => (false, c)
  | _, _, c => (true, c)

/-- `l2cap_br_conf_req`: without options, the MTU is the default one. -/
def confReq (c : Chan) (f : ConfFeats) (opts : Bytes) : Chan :=
  let (ok, c) : Bool × Chan :=
    if opts = [] then (true, { c with tx := { c.tx with mtu := 672 } })
    else confOpts f opts.length opts c
  if ok then
    let c := if c.tx.fcs = c.rx.fcs then c
      else { c with tx := { c.tx with fcs := true }, rx := { c.rx with fcs := true } }
    if c.tx.extendedControl then { c with rx := { c.rx with extendedControl := true } } else c
  else c

end Chan

end Classic

end OpenBlue

import OpenBlue.Common.Bytes
/-!
# Host — extended advertising reports

The model of `bt_hci_le_adv_ext_report` of `scan.c`: the reports of an HCI
event are taken from its bytes one after the other, and the fragments of
one advertiser are put together in `ext_scan_buf`. Whether the application
still scans is looked at before each report, and is an input. The feature
of advertising coding selection is off.
-/

namespace OpenBlue

namespace Scan

/-- The bytes of a buffer. -/
abbrev Bytes := List UInt8

/-- `struct bt_hci_evt_le_ext_advertising_info`; an address is its type and
its six bytes. -/
structure Info where
  evtType : ℕ
  addr : Bytes
  primPhy : UInt8
  secPhy : UInt8
  sid : UInt8
  txPower : UInt8
  rssi : UInt8
  interval : ℕ
  directAddr : Bytes
  length : ℕ
  deriving DecidableEq, Repr

/-- The size of the structure. -/
def Info.size : ℕ := 24

/-- The structure at the start of a buffer. -/
def Info.get (buf : Bytes) : Info where
  evtType := getLe16 buf
  addr := (buf.drop 2).take 7
  primPhy := buf.getD 9 0
  secPhy := buf.getD 10 0
  sid := buf.getD 11 0
  txPower := buf.getD 12 0
  rssi := buf.getD 13 0
  interval := getLe16 (buf.drop 14)
  directAddr := (buf.drop 16).take 7
  length := (buf.getD 23 0).toNat

/-- `BT_HCI_LE_ADV_EVT_TYPE_LEGACY`. -/
def Info.legacy (i : Info) : Bool := i.evtType.testBit 4

/-- `BT_HCI_LE_ADV_EVT_TYPE_DATA_STATUS`. -/
def Info.dataStatus (i : Info) : ℕ := i.evtType >>> 5 &&& 3

/-- `BT_HCI_LE_ADV_EVT_TYPE_DATA_STATUS_COMPLETE`. -/
def Info.complete (i : Info) : Bool := i.dataStatus = 0

/-- `BT_HCI_LE_ADV_EVT_TYPE_DATA_STATUS_PARTIAL`. -/
def Info.moreToCome (i : Info) : Bool := i.dataStatus = 1

/-- `BT_HCI_LE_ADV_EVT_TYPE_DATA_STATUS_INCOMPLETE`. -/
def Info.incomplete (i : Info) : Bool := i.dataStatus = 2

/-- The fields of `struct bt_le_scan_recv_info` that
`create_ext_adv_info` sets. -/
structure RecvInfo where
  primaryPhy : ℕ
  secondaryPhy : ℕ
  txPower : UInt8
  rssi : UInt8
  sid : UInt8
  interval : ℕ
  advType : ℕ
  advProps : ℕ
  deriving DecidableEq, Repr

/-- `bt_get_phy`. -/
def getPhy (hciPhy : UInt8) : ℕ :=
  if hciPhy = 1 then 1 else if hciPhy = 2 then 2 else if hciPhy = 3 then 4 else 0

/-- `get_adv_type`. -/
def getAdvType (evtType : ℕ) : ℕ :=
  if evtType % 2 ^ 8 = 0x13 then 0
  else if evtType % 2 ^ 8 = 0x15 then 1
  else if evtType % 2 ^ 8 = 0x12 then 2
  else if evtType % 2 ^ 8 = 0x10 then 3
  else if evtType % 2 ^ 8 = 0x1b ∨ evtType % 2 ^ 8 = 0x1a then 4
  else 5

/-- `get_adv_props_extended`. -/
def getAdvPropsExtended (evtType : ℕ) : ℕ := (evtType ^^^ 0x10) &&& 0x1f

/-- `create_ext_adv_info`. -/
def createExtAdvInfo (evt : Info) : RecvInfo where
  primaryPhy := getPhy evt.primPhy
  secondaryPhy := getPhy evt.secPhy
  txPower := evt.txPower
  rssi := evt.rssi
  sid := evt.sid
  interval := evt.interval
  advType := getAdvType evt.evtType
  advProps := getAdvPropsExtended evt.evtType

/-- The states of `struct fragmented_advertiser`. -/
inductive FragState
  | inactive
  | reassembling
  | discarding
  deriving DecidableEq, Repr

/-- `reassembling_advertiser`, and `ext_scan_buf`. -/
structure Slot where
  addr : Bytes := []
  sid : UInt8 := 0
  state : FragState := .inactive
  buf : Bytes := []
  deriving DecidableEq, Repr

/-- What is seen of a run. -/
inductive Out
  /-- A report is parsed. -/
  | report (evt : Info)
  /-- `le_adv_recv` is called. -/
  | recv (addr : Bytes) (info : RecvInfo) (data : Bytes)
  /-- An assertion fails. -/
  | assertFailed
  deriving DecidableEq, Repr

/-- `fragmented_advertisers_equal`. -/
def Slot.equal (sl : Slot) (evt : Info) : Bool := sl.sid = evt.sid && sl.addr = evt.addr

/-- `init_reassembling_advertiser`. -/
def Slot.init (sl : Slot) (evt : Info) : Slot :=
  { sl with addr := evt.addr, sid := evt.sid, state := .reassembling }

/-- `reset_reassembling_advertiser`. -/
def Slot.reset (sl : Slot) : Slot := { sl with state := .inactive, buf := [] }

/-- How a turn of the loop ends. -/
inductive Next
  /-- The function returns. -/
  | stop
  /-- The next turn starts at these bytes. -/
  | turn (buf : Bytes)
  deriving DecidableEq, Repr

/-- The turn from `init_reassembling_advertiser` on, of a report whose
advertiser has the slot. `size` is `CONFIG_BT_EXT_SCAN_BUF_SIZE`. -/
def store (size : ℕ) (sl : Slot) (evt : Info) (buf : Bytes) : List Out × Slot × Next :=
  let sl := if size < evt.length + sl.buf.length then { sl with state := .discarding } else sl
  if sl.state = .discarding then
    ([], if !evt.moreToCome then sl.reset else sl, .turn (buf.drop evt.length))
  else
    let sl := { sl with buf := sl.buf ++ buf.take evt.length }
    -- Here `continue` leaves the data of the report in the buffer.
    if evt.moreToCome then ([], sl, .turn buf)
    else if !evt.complete then ([.assertFailed], sl, .stop)
    else ([.recv evt.addr (createExtAdvInfo evt) sl.buf], sl.reset, .turn (buf.drop evt.length))

/-- The turn of the report `evt`, with the bytes behind its header. -/
def reassemble (size : ℕ) (sl : Slot) (evt : Info) (buf : Bytes) : List Out × Slot × Next :=
  let isNewAdvertiser := decide (sl.state = .inactive) || !sl.equal evt
  if evt.legacy || (isNewAdvertiser && evt.complete) then
    ([.recv evt.addr (createExtAdvInfo evt) (buf.take evt.length)], sl, .turn (buf.drop evt.length))
  else if isNewAdvertiser && sl.state = .reassembling then ([], sl, .turn (buf.drop evt.length))
  else if evt.incomplete then ([], sl.reset, .turn (buf.drop evt.length))
  else if isNewAdvertiser then
    if sl.state ≠ .inactive then ([.assertFailed], sl, .stop)
    else store size (sl.init evt) evt buf
  else store size sl evt buf

/-- One turn of the loop of `bt_hci_le_adv_ext_report`. -/
def turn (size : ℕ) (sl : Slot) (scanning : Bool) (buf : Bytes) : List Out × Slot × Next :=
  if !scanning then ([], if sl.state ≠ .inactive then sl.reset else sl, .stop)
  else if buf.length < Info.size then ([], sl, .stop)
  else
    let evt := Info.get buf
    let buf := buf.drop Info.size
    if buf.length < evt.length then
      ([], if evt.legacy then sl else { sl with state := .discarding }, .stop)
    else
      let (o, sl, next) := reassemble size sl evt buf
      (.report evt :: o, sl, next)

/-- The loop, of the last `n` turns; the flags are those of the turns. -/
def turns (size : ℕ) : ℕ → Slot → List Bool → Bytes → List Out × Slot
  | 0, sl, _, _ => ([], sl)
  | n + 1, sl, scanning, buf =>
    match turn size sl (scanning.headD true) buf with
    | (o, sl, .stop) => (o, sl)
    | (o, sl, .turn buf) =>
      let (o', sl) := turns size n sl scanning.tail buf
      (o ++ o', sl)

/-- `bt_hci_le_adv_ext_report`. -/
def advExtReport (size : ℕ) (sl : Slot) (scanning : List Bool) : Bytes → List Out × Slot
  | [] => ([], sl)
  | numReports :: buf => turns size numReports.toNat sl scanning buf

end Scan

end OpenBlue

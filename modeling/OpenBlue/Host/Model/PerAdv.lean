import OpenBlue.Common.Bytes
/-!
# Host — periodic advertising reports

The model of `bt_hci_le_per_adv_report_common` of `scan.c`, from where the
sync of the report's handle has been found: the fragments of a report are
put together in the sync's reassembly buffer. What else a report's header
tells is handed to the callbacks unread.
-/

namespace OpenBlue

namespace PerAdv

/-- The bytes of a buffer. -/
abbrev Bytes := List UInt8

/-- `CONFIG_BT_PER_ADV_SYNC_BUF_SIZE`, and whether `CONFIG_BT_PER_ADV_SYNC_RSP`
is set. -/
structure Cfg where
  bufSize : ℕ
  rsp : Bool

/-- `BT_HCI_LE_ADV_EVT_TYPE_DATA_STATUS_COMPLETE`. -/
def complete : UInt8 := 0

/-- `BT_HCI_LE_ADV_EVT_TYPE_DATA_STATUS_PARTIAL`. -/
def moreToCome : UInt8 := 1

/-- `BT_HCI_LE_ADV_EVT_TYPE_DATA_STATUS_INCOMPLETE`. -/
def incomplete : UInt8 := 2

/-- `BT_HCI_LE_ADV_EVT_TYPE_DATA_STATUS_RX_FAILED`. -/
def rxFailed : UInt8 := 0xff

/-- The length that a fragment announces, and what the buffer holds behind
the header, more or less than that. -/
structure Fragment where
  length : UInt8
  data : Bytes
  deriving DecidableEq

/-- As many bytes as the fragment announces. What is behind the event is
anything; it is zeros here. -/
def Fragment.bytes (x : Fragment) : Bytes :=
  (x.data.take x.length.toNat).rightpad x.length.toNat 0

/-- What is read of `struct bt_hci_evt_le_per_advertising_report`. -/
structure Report extends Fragment where
  dataStatus : UInt8
  deriving DecidableEq

/-- `struct bt_le_per_adv_sync`: of its flags `BT_PER_ADV_SYNC_RECV_DISABLED`. -/
structure Sync where
  recvDisabled : Bool := false
  numSubevents : ℕ := 0
  reassembly : Bytes := []
  reportTruncated : Bool := false
  deriving DecidableEq

/-- What a report leads to: data handed to every listener, a listener told
of a failure, a failed assertion, and bytes copied from behind the event. -/
inductive Out where
  | recv (data : Bytes)
  | recvFailure
  | assertFailed
  | outside
  deriving DecidableEq

/-- What copying a fragment leads to. -/
def Fragment.outs (x : Fragment) : List Out :=
  if x.data.length < x.length.toNat then [.outside] else []

/-- `bt_buf_simple_add_mem` to the reassembly buffer, of as many bytes as the
report announces. -/
def Sync.addMem (s : Sync) (r : Report) : Sync × List Out :=
  ({ s with reassembly := s.reassembly ++ r.bytes }, r.outs)

/-- The report where the buffer has room for it. -/
def Sync.reassemble (cfg : Cfg) (s : Sync) (r : Report) : Sync × List Out :=
  if r.dataStatus = complete then
    if s.reassembly.length = 0 then (s, [.recv r.data])
    else
      let added := s.addMem r
      ({ added.1 with reassembly := [] }, added.2 ++ [.recv added.1.reassembly])
  else if r.dataStatus = incomplete then ({ s with reassembly := [] }, [])
  else if r.dataStatus = moreToCome then s.addMem r
  else if cfg.rsp ∧ r.dataStatus = rxFailed ∧ s.numSubevents ≠ 0 then (s, [.recvFailure])
  else (s, [.assertFailed])

/-- `bt_hci_le_per_adv_report_common`. -/
def Sync.report (cfg : Cfg) (s : Sync) (r : Report) : Sync × List Out :=
  if s.recvDisabled then (s, [])
  else if !s.reportTruncated then
    if 0 < cfg.bufSize then
      if cfg.bufSize - s.reassembly.length < r.length.toNat then
        ({ s with reportTruncated := true, reassembly := [] }, [])
      else s.reassemble cfg r
    else if r.dataStatus = complete then (s, [.recv r.data])
    else ({ s with reportTruncated := true }, [])
  else if r.dataStatus = complete then ({ s with reportTruncated := false }, [])
  else (s, [])

end PerAdv

end OpenBlue

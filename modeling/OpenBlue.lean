import OpenBlue.Base.Wakeup
import OpenBlue.Base.Waiting
import OpenBlue.Base.Flush
import OpenBlue.Base.Timers
import OpenBlue.Mesh.Recovery
import OpenBlue.Host.KeyRuns
import OpenBlue.Host.Sign
import OpenBlue.Host.Scan
import OpenBlue.Host.PerAdv
import OpenBlue.Host.Iso
import OpenBlue.Link.Acl
import OpenBlue.Link.Tx
import OpenBlue.Mesh.Sar
import OpenBlue.L2cap.Credits
import OpenBlue.Att.Response
import OpenBlue.Att.RequestRuns
import OpenBlue.Gatt.LongWrite
import OpenBlue.Gatt.ServiceChanged
import OpenBlue.Rfcomm.Credits
import OpenBlue.Classic.WindowRuns
import OpenBlue.Audio.BroadcastSource
import OpenBlue.Rfcomm.Lifecycle
import OpenBlue.Sdp.Requests
import OpenBlue.Mesh.SegAccount
import OpenBlue.Mesh.SeqPace
import OpenBlue.Mesh.ProxyMsg
import OpenBlue.Mesh.AppKeys
import OpenBlue.Mesh.BrgCfg
import OpenBlue.Mesh.FriendBufs
import OpenBlue.Mesh.Metadata
import OpenBlue.Mesh.PbAdvNext
import OpenBlue.Base.HeldWait
import OpenBlue.Base.PollSignal
import OpenBlue.Base.BufChain
import OpenBlue.Mesh.SegTable
import OpenBlue.Mesh.FriendTable
import OpenBlue.Mesh.VirtualAddr
import OpenBlue.Mesh.IvStore
import OpenBlue.Mesh.MsgCache
import OpenBlue.Mesh.Extend
import OpenBlue.Mesh.Page1Relations
import OpenBlue.Base.Utf8
import OpenBlue.L2cap.SduLength
import OpenBlue.L2cap.EcredOrder
import OpenBlue.Base.MemBlocks
import OpenBlue.Gatt.CccStore
import OpenBlue.Base.Turns

import OpenBlue.Audio.Model.Base
/-!
# Audio — the broadcast source

The model of `bt_bap_broadcast_source_create`, `_reconfig` and `_get_base`
of `bap_broadcast_source.c`. A codec configuration is a pointer that the
source keeps, here its value; the configurations merged for each stream
(`source->codec_cfg`) are not in the BASE, and only whether the merge
succeeds is kept. A call that fails gives no source, as only successful
ones are followed.
-/

namespace OpenBlue

namespace Bap

/-- `struct bt_bap_stream`, by identity. -/
abbrev StreamId := ℕ

/-- `struct bt_audio_codec_cfg`. -/
structure CodecCfg where
  codecId : CodecId
  data : Bytes := []
  metadata : Bytes := []
  deriving DecidableEq, Repr

/-- `BT_HCI_CODING_FORMAT_LC3`. -/
def lc3 : UInt8 := 0x06

/-- `BT_HCI_CODING_FORMAT_TRANSPARENT`. -/
def transparent : UInt8 := 0x03

/-- `struct bt_bap_qos_cfg`. -/
structure Qos where
  interval : ℕ
  framing : ℕ
  phy : ℕ
  sdu : ℕ
  latency : ℕ
  rtn : ℕ
  pd : ℕ
  deriving DecidableEq, Repr

/-- `struct bt_bap_broadcast_source_stream_param`. -/
structure StreamParam where
  stream : StreamId
  data : Bytes := []
  deriving DecidableEq, Repr

/-- `struct bt_bap_broadcast_source_subgroup_param`. -/
structure SubgroupParam where
  params : List StreamParam
  codecCfg : CodecCfg
  deriving DecidableEq, Repr

/-- `struct bt_bap_broadcast_source_param`; `params` is the array as it
lies in memory, which may go on behind the given entries. -/
structure Param where
  paramsCount : ℕ
  params : List SubgroupParam
  qos : Qos
  packing : ℕ := 0
  count_le : paramsCount ≤ params.length := by decide

/-- The entries that are given. -/
def Param.given (p : Param) : List SubgroupParam := p.params.take p.paramsCount

/-- The configuration: the sizes, and what the code around answers:
whether a stream is in the group of another source, whether an endpoint
and an ISO channel are free for it, and the merge of a stream's LC3 data
into a codec configuration. -/
structure Env where
  maxData : ℕ
  maxMeta : ℕ
  subgroupCount : ℕ
  streamCount : ℕ
  inOther : StreamId → Bool
  setupStream : StreamId → Bool
  mergeBisAndSubgroupData : CodecCfg → Bytes → Bool
  maxData_lt : maxData < 256
  maxMeta_lt : maxMeta < 256
  streamCount_le : streamCount ≤ 31

/-- What a call fails with. -/
inductive Err where
  | einval
  | enomem
  | ebadmsg
  | emsgsize
  | assertFailed
  | outside
  deriving DecidableEq, Repr

/-- `bt_bap_ep_state`, as far as a source goes through it here. -/
inductive EpState where
  | idle
  | qosConfigured
  deriving DecidableEq, Repr

/-- `struct bt_bap_broadcast_subgroup`. -/
structure Subgroup where
  streams : List StreamId
  codecCfg : CodecCfg
  deriving DecidableEq, Repr

/-- `struct bt_bap_broadcast_source`, and the state its endpoints share. -/
structure Source where
  qos : Qos
  streamData : ℕ → Bytes
  subgroups : List Subgroup
  state : EpState

/-! ## The parameters -/

/-- `bt_audio_data_parse` with a function that lets every element pass:
the elements are `i` bytes into data of `size` bytes, and the length of
one does not count its own byte. -/
def dataParse (ltv : Bytes) : ℕ → ℕ → Bool
  | 0, _ => true
  | fuel + 1, i =>
    if i < ltv.length then
      let len := (ltv.getD i 0).toNat
      if ltv.length < i + len ∨ len < 1 then false else dataParse ltv fuel (i + 1 + len)
    else true

/-- `bt_audio_valid_ltv`. -/
def validLtv (ltv : Bytes) : Bool := dataParse ltv ltv.length 0

/-- `bt_audio_verify_qos` finds nothing. -/
def verifyQos (q : Qos) : Bool :=
  0xFF ≤ q.interval ∧ q.interval ≤ 0xFFFFF ∧ q.framing ≤ 1 ∧
    (q.phy = 1 ∨ q.phy = 2 ∨ q.phy = 4) ∧ q.sdu ≤ 0xFFF ∧
    5 ≤ q.latency ∧ q.latency ≤ 0xFA0 ∧ q.pd ≤ 0xFFFFFF

/-- `bt_audio_valid_codec_cfg`. The last check is of `data` again. -/
def validCodecCfg (env : Env) (cfg : CodecCfg) : Bool :=
  (cfg.codecId.id = lc3 → cfg.codecId.cid = 0 ∧ cfg.codecId.vid = 0) ∧
    ¬ (cfg.codecId.id = transparent ∧ cfg.data.length ≠ 0) ∧
    cfg.data.length ≤ env.maxData ∧ (cfg.codecId.id = lc3 → validLtv cfg.data) ∧
    cfg.metadata.length ≤ env.maxMeta ∧ (cfg.codecId.id = lc3 → validLtv cfg.data)

/-- The check of a stream's parameters. -/
def validStreamParam (env : Env) (codecCfg : CodecCfg) (p : StreamParam) : Bool :=
  !env.inOther p.stream && decide (p.data.length ≤ env.maxData) &&
    (decide (codecCfg.codecId.id ≠ lc3) || validLtv p.data)

/-- The check of a subgroup's parameters. -/
def validSubgroupParam (env : Env) (p : SubgroupParam) : Bool :=
  decide (1 ≤ p.params.length ∧ p.params.length ≤ env.streamCount) &&
    validCodecCfg env p.codecCfg && p.params.all (validStreamParam env p.codecCfg)

/-- `valid_broadcast_source_param`. -/
def validParam (env : Env) (p : Param) : Bool :=
  decide (1 ≤ p.paramsCount ∧ p.paramsCount ≤ env.subgroupCount) && decide (p.packing ≤ 1) &&
    verifyQos p.qos && decide (p.qos.rtn ≤ 0x1E) && p.given.all (validSubgroupParam env)

/-- `update_codec_cfg_data` succeeds. -/
def updateCodecCfgData (env : Env) (cfg : CodecCfg) (p : StreamParam) : Bool :=
  if 0 < p.data.length then
    if cfg.codecId.id = lc3 then env.mergeBisAndSubgroupData cfg p.data
    else decide (cfg.data.length + p.data.length ≤ env.maxData)
  else true

/-- What it fails with: data of LC3 cannot be merged, other data does not
fit behind. -/
def updateErr (cfg : CodecCfg) : Err := if cfg.codecId.id = lc3 then .einval else .enomem

/-! ## Create -/

/-- The streams of one subgroup in `bt_bap_broadcast_source_create`, from
the data stored so far and the number of streams set up. -/
def createStreams (env : Env) (cfg : CodecCfg) :
    List StreamParam → (ℕ → Bytes) → ℕ → Except Err ((ℕ → Bytes) × ℕ)
  | [], streamData, streamCount => .ok (streamData, streamCount)
  | p :: ps, streamData, streamCount =>
    if env.streamCount ≤ streamCount then .error .enomem
    else if updateCodecCfgData env cfg p = false then .error (updateErr cfg)
    else if env.setupStream p.stream = false then .error .enomem
    else createStreams env cfg ps (Function.update streamData streamCount p.data)
      (streamCount + 1)

/-- The subgroups in `bt_bap_broadcast_source_create`. -/
def createSubgroups (env : Env) :
    List SubgroupParam → List Subgroup → (ℕ → Bytes) → ℕ →
      Except Err (List Subgroup × (ℕ → Bytes))
  | [], subgroups, streamData, _ => .ok (subgroups, streamData)
  | p :: ps, subgroups, streamData, streamCount =>
    if env.subgroupCount ≤ subgroups.length then .error .enomem
    else if env.streamCount < p.params.length + streamCount then .error .enomem
    else do
      let (streamData, streamCount) ← createStreams env p.codecCfg p.params streamData streamCount
      createSubgroups env ps
        (subgroups ++ [{ streams := p.params.map (·.stream), codecCfg := p.codecCfg }])
        streamData streamCount

/-- `bt_bap_broadcast_source_create`, with a source free for it. -/
def create (env : Env) (p : Param) : Except Err Source :=
  if validParam env p = false then .error .einval
  else do
    let (subgroups, streamData) ← createSubgroups env p.given [] (fun _ => []) 0
    return { qos := p.qos, streamData, subgroups, state := .qosConfigured }

/-! ## Reconfigure -/

/-- The check that the parameters' streams are in the subgroups. It goes
over the subgroups of the source, however many entries are given. -/
def verifyStreams : List Subgroup → List SubgroupParam → Except Err Unit
  | [], _ => .ok ()
  | _ :: _, [] => .error .outside
  | subgroup :: subgroups, p :: ps =>
    if p.params.any (fun sp => !subgroup.streams.contains sp.stream) then .error .einval
    else if subgroup.streams.length < p.params.length then .error .einval
    else verifyStreams subgroups ps

/-- The streams of one subgroup in `bt_bap_broadcast_source_reconfig`. The
data goes to the place that the stream has in its subgroup. -/
def reconfigStreams (env : Env) (cfg : CodecCfg) (streams : List StreamId) :
    List StreamParam → (ℕ → Bytes) → ℕ → Except Err ((ℕ → Bytes) × ℕ)
  | [], streamData, bisCount => .ok (streamData, bisCount)
  | p :: ps, streamData, bisCount =>
    if env.streamCount ≤ bisCount then .error .enomem
    else if updateCodecCfgData env cfg p = false then .error (updateErr cfg)
    else
      let streamIdx := streams.idxOf p.stream
      reconfigStreams env cfg streams ps (Function.update streamData streamIdx p.data)
        (bisCount + 1)

/-- The subgroups in `bt_bap_broadcast_source_reconfig`. -/
def reconfigSubgroups (env : Env) :
    List SubgroupParam → List Subgroup → (ℕ → Bytes) → ℕ →
      Except Err (List Subgroup × (ℕ → Bytes))
  | [], subgroups, streamData, _ => .ok (subgroups, streamData)
  | _ :: _, [], _, _ => .error .outside
  | p :: ps, subgroup :: subgroups, streamData, bisCount => do
    let (streamData, bisCount) ←
      reconfigStreams env p.codecCfg subgroup.streams p.params streamData bisCount
    let (subgroups, streamData) ← reconfigSubgroups env ps subgroups streamData bisCount
    return ({ subgroup with codecCfg := p.codecCfg } :: subgroups, streamData)

/-- `bt_bap_broadcast_source_reconfig`. -/
def reconfig (env : Env) (source : Source) (p : Param) : Except Err Source :=
  if validParam env p = false then .error .einval
  else if source.state ≠ .qosConfigured then .error .ebadmsg
  else do
    verifyStreams source.subgroups p.params
    if source.subgroups.length < p.paramsCount then .error .einval
    else
      let (subgroups, streamData) ←
        reconfigSubgroups env p.given source.subgroups source.streamData 0
      return { source with qos := p.qos, streamData, subgroups }

/-! ## The BASE -/

/-- What is added to a buffer of `size` bytes: its content so far, or how
the encoding stops. -/
abbrev Put := Bytes → Except Err Bytes

/-- `bt_buf_simple_add` and what is written there. -/
def add (size : ℕ) (bytes : Bytes) : Put := fun buf =>
  if size - buf.length < bytes.length then .error .assertFailed else .ok (buf ++ bytes)

/-- A check that `n` bytes have room. -/
def room (size n : ℕ) : Put := fun buf =>
  if size - buf.length < n then .error .emsgsize else .ok buf

/-- The BISes in `encode_base_subgroup`. -/
def encodeBis (size : ℕ) (streamData : ℕ → Bytes) : ℕ → ℕ → ℕ → Put
  | 0, _, _, buf => .ok buf
  | n + 1, i, streamsEncoded, buf => do
    let bisIndex := UInt8.ofNat (streamsEncoded + 1)
    let data := streamData i
    let buf ← room size 2 buf
    let buf ← add size [bisIndex] buf
    let buf ← room size 1 buf
    let buf ← add size [UInt8.ofNat data.length] buf
    let buf ← room size data.length buf
    let buf ← add size data buf
    encodeBis size streamData n (i + 1) (streamsEncoded + 1) buf

/-- `encode_base_subgroup`; the stream data is that from `streamsEncoded`
on. -/
def encodeBaseSubgroup (size : ℕ) (subgroup : Subgroup) (streamData : ℕ → Bytes)
    (streamsEncoded : ℕ) : Put := fun buf => do
  let codecCfg := subgroup.codecCfg
  let buf ← add size [UInt8.ofNat subgroup.streams.length] buf
  let buf ← add size [codecCfg.codecId.id] buf
  let buf ← add size (le16 codecCfg.codecId.cid.toNat) buf
  let buf ← add size (le16 codecCfg.codecId.vid.toNat) buf
  let buf ← add size [UInt8.ofNat codecCfg.data.length] buf
  let buf ← room size codecCfg.data.length buf
  let buf ← add size codecCfg.data buf
  let buf ← room size 1 buf
  let buf ← add size [UInt8.ofNat codecCfg.metadata.length] buf
  let buf ← room size codecCfg.metadata.length buf
  let buf ← add size codecCfg.metadata buf
  encodeBis size (fun i => streamData (streamsEncoded + i)) subgroup.streams.length 0
    streamsEncoded buf

/-- The subgroups in `encode_base`. -/
def encodeSubgroups (size : ℕ) (streamData : ℕ → Bytes) : List Subgroup → ℕ → Put
  | [], _, buf => .ok buf
  | subgroup :: subgroups, streamsEncoded, buf => do
    let buf ← encodeBaseSubgroup size subgroup streamData streamsEncoded buf
    encodeSubgroups size streamData subgroups (streamsEncoded + subgroup.streams.length) buf

/-- `encode_base`. -/
def encodeBase (size : ℕ) (source : Source) : Put := fun buf => do
  let buf ← room size 16 buf
  let buf ← add size (le16 basicAudio) buf
  let buf ← add size (leBytes 3 source.qos.pd) buf
  let buf ← add size [UInt8.ofNat source.subgroups.length] buf
  encodeSubgroups size source.streamData source.subgroups 0 buf

/-- `bt_bap_broadcast_source_get_base` into an empty buffer of `size`
bytes. -/
def getBase (source : Source) (size : ℕ) : Except Err Bytes :=
  if source.state = .idle then .error .ebadmsg else encodeBase size source []

end Bap

end OpenBlue

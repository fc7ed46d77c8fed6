import OpenBlue.Common.Pull
/-!
# Audio — reading a BASE

The model of `bap_base.c`: the check that takes a Broadcast Audio Source
Endpoint out of advertising data, and the accessors that read it again. A
BASE, a subgroup and a BIS are pointers into the received data, here the
bytes from there to its end; the accessors are not given how many there
are and take the largest size.
-/

namespace OpenBlue

namespace Bap

/-- The bytes of a buffer. -/
abbrev Bytes := List UInt8

/-- `BT_BASE_MAX_SIZE`. -/
def baseMaxSize : ℕ := 252

/-- `BASE_SUBGROUP_MAX_SIZE`. -/
def subgroupMaxSize : ℕ := 248

/-- `BASE_SUBGROUP_MAX_COUNT`. -/
def subgroupMaxCount : ℕ := 24

/-- `BASE_MIN_SIZE`. -/
def baseMinSize : ℕ := 16

/-- `BT_ISO_MAX_GROUP_ISO_COUNT`. -/
def maxGroupIsoCount : ℕ := 31

/-- `BT_ISO_BIS_INDEX_MAX`. -/
def bisIndexMax : ℕ := 31

/-- `BT_UUID_BASIC_AUDIO_VAL`. -/
def basicAudio : ℕ := 0x1851

/-- `BT_DATA_SVC_DATA16`. -/
def svcData16 : UInt8 := 0x16

/-- `struct bt_data`. -/
structure Ad where
  type : UInt8
  data : Bytes
  len_lt : data.length < 256

/-- `struct bt_bap_base_codec_id`. -/
structure CodecId where
  id : UInt8
  cid : UInt16
  vid : UInt16
  deriving DecidableEq, Repr

/-- `struct bt_bap_base_subgroup_bis`. -/
structure SubgroupBis where
  index : UInt8
  data : Bytes
  deriving DecidableEq, Repr

/-! ## Pulls -/

/-- `base_pull_pd`. -/
def pullPd : Pull ℕ := Pull.le24

/-- `base_pull_bis_count`. -/
def pullBisCount : Pull UInt8 := Pull.u8

/-- `base_pull_codec_id`. -/
def pullCodecId : Pull CodecId := do
  let id ← Pull.u8
  let cid ← Pull.le16
  let vid ← Pull.le16
  return { id, cid, vid }

/-- `base_pull_ltv`. -/
def pullLtv : Pull Bytes := do
  let len ← Pull.u8
  Pull.mem len.toNat

/-- `check_pull_ltv`. -/
def checkPullLtv : Pull Bool := do
  let left ← Pull.len
  if left < 1 then return false
  else
    let ltvLen ← Pull.u8
    let left ← Pull.len
    if left < ltvLen.toNat then return false
    else
      let _ ← Pull.mem ltvLen.toNat
      return true

/-! ## Finding the BASE -/

/-- The check of the BISes of a subgroup. -/
def checkBis : ℕ → Pull Bool
  | 0 => return true
  | n + 1 => do
    let left ← Pull.len
    if left < 1 then return false
    else
      let bisIndex ← Pull.u8
      if bisIndex.toNat < 1 ∨ bisIndexMax < bisIndex.toNat then return false
      else if ← checkPullLtv then checkBis n
      else return false

/-- The check of one subgroup. -/
def checkSubgroup : Pull Bool := do
  let left ← Pull.len
  if left < 1 then return false
  else
    let bisCount ← pullBisCount
    if bisCount.toNat < 1 ∨ maxGroupIsoCount < bisCount.toNat then return false
    else
      let left ← Pull.len
      if left < 5 then return false
      else
        let _ ← pullCodecId
        if ← checkPullLtv then
          if ← checkPullLtv then checkBis bisCount.toNat
          else return false
        else return false

/-- The check of the subgroups. -/
def checkSubgroups : ℕ → Pull Bool
  | 0 => return true
  | n + 1 => do
    if ← checkSubgroup then checkSubgroups n
    else return false

/-- The check of the BASE from its first byte. -/
def checkBase : Pull Bool := do
  let _ ← pullPd
  let subgroupCount ← Pull.u8
  if subgroupCount.toNat < 1 ∨ subgroupMaxCount < subgroupCount.toNat then return false
  else checkSubgroups subgroupCount.toNat

/-- `bt_bap_base_get_base_from_ad`. -/
def getBaseFromAd (ad : Ad) : Except PullFault (Option Bytes) :=
  if ad.type ≠ svcData16 then .ok none
  else if ad.data.length < baseMinSize then .ok none
  else do
    let (uuid, buf) ← Pull.mem 2 ⟨ad.data, ad.data.length⟩
    if leNat uuid ≠ basicAudio then .ok none
    else
      let (valid, _) ← checkBase buf
      return if valid then some buf.data else none

/-! ## The accessors -/

/-- `bt_buf_simple_init_with_data` and what is read from there. -/
def readFrom {α : Type} (p : Pull α) (data : Bytes) (len : ℕ) : Except PullFault α :=
  Prod.fst <$> p ⟨data, len⟩

/-- The BISes of a subgroup in `bt_bap_base_get_size`. -/
def sizeOfBis : ℕ → Pull ℕ
  | 0 => return 0
  | n + 1 => do
    let _ ← Pull.u8
    let ltv ← pullLtv
    let size ← sizeOfBis n
    return 1 + ltv.length + 1 + size

/-- The subgroups in `bt_bap_base_get_size`. -/
def sizeOfSubgroups : ℕ → Pull ℕ
  | 0 => return 0
  | n + 1 => do
    let bisCount ← pullBisCount
    let _ ← pullCodecId
    let data ← pullLtv
    let metadata ← pullLtv
    let bis ← sizeOfBis bisCount.toNat
    let size ← sizeOfSubgroups n
    return 1 + 5 + (data.length + 1) + (metadata.length + 1) + bis + size

/-- `bt_bap_base_get_size`. -/
def getSize (base : Bytes) : Except PullFault ℕ :=
  readFrom (do
    let _ ← pullPd
    let subgroupCount ← Pull.u8
    let size ← sizeOfSubgroups subgroupCount.toNat
    return 3 + 1 + size) base baseMaxSize

/-- `bt_bap_base_get_pres_delay`: the buffer is as long as a `uint32_t`. -/
def getPresDelay (base : Bytes) : Except PullFault ℕ :=
  readFrom pullPd base 4

/-- `bt_bap_base_get_subgroup_count`. -/
def getSubgroupCount (base : Bytes) : Except PullFault UInt8 :=
  readFrom (do
    let _ ← pullPd
    Pull.u8) base baseMaxSize

/-- The BISes of a subgroup that is passed over. -/
def skipBis : ℕ → Pull Unit
  | 0 => return ()
  | n + 1 => do
    let _ ← Pull.u8
    let _ ← pullLtv
    skipBis n

/-- A subgroup that is passed over. -/
def skipSubgroup : Pull Unit := do
  let bisCount ← pullBisCount
  let _ ← pullCodecId
  let _ ← pullLtv
  let _ ← pullLtv
  skipBis bisCount.toNat

/-- The loop of `bt_bap_base_foreach_subgroup`. `func` is given the
subgroup and the user data, and says whether to go on; the data is parsed
to the next subgroup where the BASE has more than one. -/
def foreachSubgroupFrom {σ : Type} (func : Bytes → σ → Except PullFault (Bool × σ))
    (subgroupCount : ℕ) : ℕ → σ → Pull (Bool × σ)
  | 0, userData => return (true, userData)
  | n + 1, userData => do
    let buf ← get
    let (more, userData) ← func buf.data userData
    if more = false then return (false, userData)
    else if subgroupCount > 1 then do
      skipSubgroup
      foreachSubgroupFrom func subgroupCount n userData
    else foreachSubgroupFrom func subgroupCount n userData

/-- `bt_bap_base_foreach_subgroup`: whether every subgroup was passed to
`func` (`-ECANCELED` otherwise), and the user data. -/
def foreachSubgroup {σ : Type} (base : Bytes) (func : Bytes → σ → Except PullFault (Bool × σ))
    (userData : σ) : Except PullFault (Bool × σ) :=
  readFrom (do
    let _ ← pullPd
    let subgroupCount ← Pull.u8
    foreachSubgroupFrom func subgroupCount.toNat subgroupCount.toNat userData) base baseMaxSize

/-- `bt_bap_base_get_subgroup_codec_id`. -/
def getSubgroupCodecId (subgroup : Bytes) : Except PullFault CodecId :=
  readFrom (do
    let _ ← pullBisCount
    pullCodecId) subgroup subgroupMaxSize

/-- `bt_bap_base_get_subgroup_codec_data`. -/
def getSubgroupCodecData (subgroup : Bytes) : Except PullFault Bytes :=
  readFrom (do
    let _ ← pullBisCount
    let _ ← pullCodecId
    pullLtv) subgroup subgroupMaxSize

/-- `bt_bap_base_get_subgroup_codec_meta`. -/
def getSubgroupCodecMeta (subgroup : Bytes) : Except PullFault Bytes :=
  readFrom (do
    let _ ← pullBisCount
    let _ ← pullCodecId
    let _ ← pullLtv
    pullLtv) subgroup subgroupMaxSize

/-- `bt_bap_base_subgroup_codec_to_codec_cfg`, for a codec configuration
that holds `maxData` bytes of data and `maxMeta` of metadata. -/
def subgroupCodecToCodecCfg (maxData maxMeta : ℕ) (subgroup : Bytes) :
    Except PullFault (Option (CodecId × Bytes × Bytes)) :=
  readFrom (do
    let _ ← pullBisCount
    let codecId ← pullCodecId
    let data ← pullLtv
    if maxData < data.length then return none
    else
      let metadata ← pullLtv
      if maxMeta < metadata.length then return none
      else return some (codecId, data, metadata)) subgroup subgroupMaxSize

/-- `bt_bap_base_get_subgroup_bis_count`. -/
def getSubgroupBisCount (subgroup : Bytes) : Except PullFault UInt8 :=
  readFrom pullBisCount subgroup subgroupMaxSize

/-- The loop of `bt_bap_base_subgroup_foreach_bis`. -/
def foreachBisFrom {σ : Type} (func : SubgroupBis → σ → Except PullFault (Bool × σ)) :
    ℕ → σ → Pull (Bool × σ)
  | 0, userData => return (true, userData)
  | n + 1, userData => do
    let index ← Pull.u8
    let data ← pullLtv
    let (more, userData) ← func { index, data } userData
    if more = false then return (false, userData)
    else foreachBisFrom func n userData

/-- `bt_bap_base_subgroup_foreach_bis`. -/
def subgroupForeachBis {σ : Type} (subgroup : Bytes)
    (func : SubgroupBis → σ → Except PullFault (Bool × σ)) (userData : σ) :
    Except PullFault (Bool × σ) :=
  readFrom (do
    let bisCount ← pullBisCount
    let _ ← pullCodecId
    let _ ← pullLtv
    let _ ← pullLtv
    foreachBisFrom func bisCount.toNat userData) subgroup subgroupMaxSize

/-- `base_subgroup_bis_cb`. -/
def baseSubgroupBisCb (bis : SubgroupBis) (bitfield : ℕ) : Except PullFault (Bool × ℕ) :=
  .ok (true, bitfield ||| 1 <<< (bis.index.toNat - 1))

/-- `base_subgroup_cb`. -/
def baseSubgroupCb (subgroup : Bytes) (bitfield : ℕ) : Except PullFault (Bool × ℕ) :=
  subgroupForeachBis subgroup baseSubgroupBisCb bitfield

/-- `bt_bap_base_subgroup_get_bis_indexes`. -/
def subgroupGetBisIndexes (subgroup : Bytes) : Except PullFault (Bool × ℕ) :=
  subgroupForeachBis subgroup baseSubgroupBisCb 0

/-- `bt_bap_base_get_bis_indexes`. -/
def getBisIndexes (base : Bytes) : Except PullFault (Bool × ℕ) :=
  foreachSubgroup base baseSubgroupCb 0

end Bap

end OpenBlue

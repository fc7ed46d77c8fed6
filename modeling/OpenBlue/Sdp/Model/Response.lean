import OpenBlue.Sdp.Model.Request
/-!
# SDP — the responses

The model of how `sdp.c` fills its responses: an attribute copied from a
byte index on, the attributes of a record selected by the filter, and the
three requests. What is added to a buffer is what there was with the bytes
behind it; the channel's MTU and the record database stand for the rest of
the server.
-/

namespace OpenBlue

namespace Sdp

/-- The channel and the database: `chan.tx.mtu` is what the peer's MTU
option has set, which `bt_sdp_accept` does not. -/
structure Server where
  mtu : ℕ
  db : List Record
  registered : Registered db
  ok : ∀ rec ∈ db, rec.Ok

/-- `SDP_MTU`. -/
def sdpMtu : ℕ := 205

/-- `sizeof(struct bt_sdp_hdr)`. -/
def hdrSize : ℕ := 5

/-- `u16 - u16`. -/
def sub16 (a b : ℕ) : ℕ := (a + 2 ^ 16 - b % 2 ^ 16) % 2 ^ 16

/-! ## Copying an attribute -/

/-- What `copy_attribute` is given pointers to: the bytes it has copied,
and where it is. -/
structure Copy where
  buf : Bytes := []
  offset : ℕ := 0
  index : ℕ
  space : ℕ

/-- `copy_attribute_from_buf`; a length is 16 bits. -/
def copyAttributeFromBuf (data : Bytes) (length : ℕ) (c : Copy) : Copy × ℕ :=
  let start := c.offset
  let stop := start + length
  if c.index < start then
    let len := min length c.space
    ({ buf := c.buf ++ data.take len, offset := stop, index := c.index + len
       space := c.space - len }, len)
  else if c.index < stop then
    let len := min ((stop - c.index) % 2 ^ 16) c.space
    ({ buf := c.buf ++ (data.drop (c.index - start)).take len, offset := stop
       index := c.index + len, space := c.space - len }, len)
  else ({ c with offset := stop }, 0)

/-- The header of an element in `attr_buf`. -/
def elemHdr (elem : DataElem) : Bytes :=
  UInt8.ofNat elem.type ::
    match elem.totalSize - (elem.dataSize + 1) with
    | 1 => [UInt8.ofNat elem.dataSize]
    | 2 => be16 elem.dataSize
    | 4 => be32 elem.dataSize
    | _ => []

/-- The loop of `copy_attribute` over the elements of a sequence. -/
def copyElems (copy : DataElem → Copy → Except Stop (Copy × ℕ)) :
    List DataElem → ℕ → ℕ → Copy → Except Stop (Copy × ℕ)
  | [], _, _, _ => .error (.fault .outside)
  | elem :: elems, seqSize, totalLen, c => do
    let (c, size) ← copy elem c
    let totalLen := totalLen + size
    if c.space = 0 then pure (c, totalLen)
    else if seqSize < elem.totalSize then throw (.fault .assertFailed)
    else if seqSize - elem.totalSize = 0 then pure (c, totalLen)
    else copyElems copy elems (seqSize - elem.totalSize) totalLen c

/-- The element and what is in it, from its header on. -/
def copyBody (copy : DataElem → Copy → Except Stop (Copy × ℕ)) (elem : DataElem) (c : Copy) :
    Except Stop (Copy × ℕ) := do
  let desc := typeDesc elem.type
  if desc = seqUnspec ∨ desc = altUnspec then
    let (c, len) := copyAttributeFromBuf (elemHdr elem) (elemHdr elem).length c
    if c.space = 0 then pure (c, len) else copyElems copy elem.elems elem.dataSize len c
  else if elem.bytes.length < elem.dataSize then throw (.fault .outside)
  else if isNumber elem.type then
    if elem.dataSize = 1 ∨ elem.dataSize = 2 ∨ elem.dataSize = 4 ∨ elem.dataSize = 8 ∨
        elem.dataSize = 16 then
      -- the number is in the host's order, the lowest byte first
      let data := elemHdr elem ++ (elem.bytes.take elem.dataSize).reverse
      pure (copyAttributeFromBuf data data.length c)
    else throw (.fault .assertFailed)
  else
    let (c, len) := copyAttributeFromBuf (elemHdr elem) (elemHdr elem).length c
    if c.space = 0 then pure (c, len)
    else
      let (c, dataLen) := copyAttributeFromBuf elem.bytes elem.dataSize c
      pure (c, len + dataLen)

/-- `copy_attribute` of an element inside another, so many levels above the
deepest. -/
def copyInner : ℕ → DataElem → Copy → Except Stop (Copy × ℕ)
  | 0, _, c => .ok (c, 0)
  | levels + 1, elem, c =>
    if c.space = 0 then .ok (c, 0) else copyBody (copyInner levels) elem c

/-- `copy_attribute` of the value of an attribute: the index is that into
it, and is zero again where all of it was copied. -/
def copyAttribute (elem : DataElem) (c : Copy) : Except Stop (Copy × ℕ) := do
  if c.space = 0 then pure (c, 0)
  else if elem.totalSize ≤ c.index then throw (.fault .assertFailed)
  else
    let (c, len) ← copyBody (copyInner (nestLevelMax - 2)) elem c
    pure (if elem.totalSize ≤ c.index then { c with index := 0 } else c, len)

/-! ## Selecting attributes -/

/-- `struct search_state`. -/
structure SearchState where
  attListSize : ℕ := 0
  currentSvc : ℕ
  lastAtt : ℕ := 0
  lastAttIndex : ℕ := 0
  pktFull : Bool := false

/-- `struct select_attrs_data`: `rspBuf` is `none` in a dry run, and `seq`
is where the sequence declaration is, with its size. -/
structure SelectAttrs where
  rspBuf : Option Bytes
  seq : Option (ℕ × ℕ) := none
  maxAttLen : ℕ
  attListLen : ℕ := 0
  newService : Bool := true
  state : SearchState

/-- The filter lets an attribute through: its entries are attribute IDs or
ranges of them. -/
def selects (filter : List ℕ) (id : ℕ) : Bool :=
  filter.any fun f =>
    if f / 2 ^ 16 ≠ 0xffff then f / 2 ^ 16 ≤ id ∧ id ≤ f % 2 ^ 16 else id = f % 2 ^ 16

/-- The space that the response has left. -/
def Server.space (srv : Server) (len maxAttLen : ℕ) : ℕ :=
  min (sub16 (sub16 (min sdpMtu srv.mtu) len) hdrSize) maxAttLen

/-- The sequence declaration is still to come. -/
def SelectAttrs.first (sad : SelectAttrs) : Bool :=
  sad.seq.isNone ∧ sad.state.lastAttIndex = 0 ∧ sad.state.lastAtt = 0

/-- `select_attrs` where the packet is not full yet: what is added to the
response. -/
def fillAttr (rec : Record) (attr : Attribute) (attIdx : ℕ) (buf : Bytes) (space : ℕ)
    (sad : SelectAttrs) : Except Stop SelectAttrs := do
  let index := sad.state.lastAttIndex
  let seqLen := if sad.first then 3 else 0
  let idLen := if index = 0 then 3 else 0
  if space ≤ seqLen + idLen then
    pure { sad with state := { sad.state with pktFull := true } }
  else
    let seq := if sad.first then some (buf.length, 0) else sad.seq
    let buf := if sad.first then buf ++ [0x36, 0, 0] else buf
    let buf := if index = 0 then buf ++ 0x09 :: be16 attr.id else buf
    let space := space - (seqLen + idLen)
    let (c, copyLen) ← copyAttribute attr.val { index := index, space := space }
    let len := seqLen + idLen + copyLen
    pure { sad with
      rspBuf := some (buf ++ c.buf)
      seq := seq
      maxAttLen := sub16 sad.maxAttLen len
      attListLen := (sad.attListLen + len) % 2 ^ 16
      state := { sad.state with
        lastAtt := if c.index = 0 then (attIdx + 1) % 256 else attIdx
        lastAttIndex := c.index
        currentSvc := rec.index
        pktFull := c.space = 0 } }

/-- What `select_attrs` adds to the response, where there is one and the
packet is not full. -/
def fillRsp (srv : Server) (rec : Record) (contStateSize : ℕ) (attr : Attribute) (attIdx : ℕ)
    (sad : SelectAttrs) : Except Stop SelectAttrs :=
  match sad.rspBuf with
  | none => .ok sad
  | some buf =>
    let space := srv.space buf.length sad.maxAttLen
    if sad.state.pktFull then .ok sad
    else if space ≤ contStateSize then
      .ok { sad with state := { sad.state with pktFull := true } }
    else fillAttr rec attr attIdx buf (space - contStateSize) sad

/-- `select_attrs`. -/
def selectAttrs (srv : Server) (rec : Record) (filter : List ℕ) (contStateSize : ℕ)
    (attr : Attribute) (attIdx : ℕ) (sad : SelectAttrs) : Except Stop SelectAttrs :=
  if selects filter attr.id = false then .ok sad
  else do
    let attrSize := 3 + attr.val.totalSize
    let seqSize := if sad.state.lastAttIndex = 0 ∧ sad.state.lastAtt = 0 ∧ sad.newService then
      attrSize + 3 else attrSize
    let sad ← fillRsp srv rec contStateSize attr attIdx sad
    pure { sad with
      seq := sad.seq.map fun (at', size) => (at', (size + attrSize) % 2 ^ 16)
      state := { sad.state with attListSize := (sad.state.attListSize + seqSize) % 2 ^ 16 }
      newService := false }

/-- `bt_sdp_foreach_attr` from an attribute on; the index is a byte. -/
def foreachAttr (func : Attribute → ℕ → SelectAttrs → Except Stop SelectAttrs) :
    List Attribute → ℕ → SelectAttrs → Except Stop SelectAttrs
  | [], _, sad => .ok sad
  | attr :: attrs, idx, sad => do
    let sad ← func attr idx sad
    if 256 ≤ idx + 1 then throw (.fault .endless)
    else foreachAttr func attrs (idx + 1) sad

/-- The size is put into the sequence declaration. -/
def putSize (buf : Bytes) (at' size : ℕ) : Bytes :=
  buf.take (at' + 1) ++ be16 size ++ buf.drop (at' + 3)

/-- `create_attr_list`: the length of the list, the state, and the response
with it. -/
def createAttrList (srv : Server) (rec : Record) (filter : List ℕ) (maxAttLen contStateSize : ℕ)
    (state : SearchState) (rspBuf : Option Bytes) :
    Except Stop (ℕ × SearchState × Option Bytes) := do
  let sad ← foreachAttr (selectAttrs srv rec filter contStateSize) (rec.attrs.drop state.lastAtt)
    state.lastAtt { rspBuf, maxAttLen, state }
  let buf := match sad.seq with
    | some (at', size) => sad.rspBuf.map fun buf => putSize buf at' size
    | none => sad.rspBuf
  pure (sad.attListLen, sad.state, buf)

/-! ## The requests -/

/-- A continuation state, where the request has one; it has so many bytes. -/
def pullCont {α : Type} (size : ℕ) (cont : Parse α) : Parse (Option α) := do
  check (1 ≤ (← remaining)) invalidSyntax
  let contStateSize ← pullBe 1
  if contStateSize = 0 then pure none
  else
    check (contStateSize = size) invalidCstate
    check (contStateSize ≤ (← remaining)) invalidSyntax
    let c ← cont
    pure (some c)

/-- `SDP_SS_CONT_STATE_SIZE`. -/
def ssContStateSize : ℕ := 3

/-- `SDP_SA_CONT_STATE_SIZE`. -/
def saContStateSize : ℕ := 5

/-- `SDP_SSA_CONT_STATE_SIZE`. -/
def ssaContStateSize : ℕ := 6

/-- `SDP_INVALID`. -/
def sdpInvalid : ℕ := 0xff

/-- A Service Attribute Request, with the attribute and the index in it
where it goes on. -/
structure AttReq where
  svcRecHdl : ℕ
  maxAttLen : ℕ
  filter : List ℕ
  cont : Option (ℕ × ℕ)
  deriving DecidableEq, Repr

/-- `sdp_svc_att_req` up to where it looks for the record. -/
def parseAttReq : Parse AttReq := do
  check (6 ≤ (← remaining)) invalidSyntax
  let svcRecHdl ← pullBe 4
  let maxAttLen ← pullBe 2
  check (7 ≤ maxAttLen) invalidSyntax
  let filter ← getAttSearchList
  let cont ← pullCont saContStateSize do
    let lastAtt ← pullBe 1
    let lastAttIndex ← pullBe 4
    pure (lastAtt, lastAttIndex)
  pure { svcRecHdl, maxAttLen, filter, cont }

/-- The state that the request goes on from. -/
def AttReq.state (req : AttReq) (rec : Record) : SearchState :=
  match req.cont with
  | none => { currentSvc := sdpInvalid }
  | some (lastAtt, lastAttIndex) => { currentSvc := rec.index, lastAtt, lastAttIndex }

/-- `sdp_svc_att_req` from there on: the parameters of the response. -/
def attRsp (srv : Server) (req : AttReq) : Except Stop Bytes := do
  match srv.db.find? fun rec => rec.handle = req.svcRecHdl with
  | none => throw invalidRecordHandle
  | some rec =>
    let state := req.state rec
    -- the first two bytes are `att_list_len`
    let (attListLen, state, rspBuf) ← createAttrList srv rec req.filter req.maxAttLen
      (saContStateSize + 1) state (some [0, 0])
    let buf := (rspBuf.getD []).drop 2
    let (attListLen, buf) := if attListLen = 0 then (2, buf ++ [0x35, 0]) else (attListLen, buf)
    let cont : Bytes := if state.pktFull ∧ state.currentSvc = rec.index then
        UInt8.ofNat saContStateSize :: UInt8.ofNat state.lastAtt :: be32 state.lastAttIndex
      else [0]
    pure (be16 attListLen ++ buf ++ cont)

/-- `sdp_svc_att_req`. -/
def svcAttReq (srv : Server) (buf : Bytes) : Except Stop Bytes := do
  let (req, _) ← parseAttReq buf
  attRsp srv req

/-- A Service Search Attribute Request, with the record, the attribute and
the index in it where it goes on. -/
structure SearchAttReq where
  ssp : Bytes
  maxAttLen : ℕ
  filter : List ℕ
  cont : Option (ℕ × ℕ × ℕ)

/-- `sdp_svc_search_att_req` up to the response. -/
def parseSearchAttReq : Parse SearchAttReq := do
  let ssp ← parseServiceSearchPattern
  check (2 ≤ (← remaining)) invalidSyntax
  let maxAttLen ← pullBe 2
  check (7 ≤ maxAttLen) invalidSyntax
  let filter ← getAttSearchList
  let cont ← pullCont ssaContStateSize do
    let currentSvc ← pullBe 1
    let lastAtt ← pullBe 1
    let lastAttIndex ← pullBe 4
    pure (currentSvc, lastAtt, lastAttIndex)
  pure { ssp, maxAttLen, filter, cont }

/-- What the loop of `sdp_svc_search_att_req` goes on with; `dryRun` is
that the continuation state was added, and `copying` that `rsp_buf_cpy` is
the response. -/
structure SearchAtt where
  rspBuf : Bytes
  attListLen : ℕ
  maxAttLen : ℕ
  state : SearchState
  dryRun : Bool := false
  copying : Bool := true

/-- One record in the loop of `sdp_svc_search_att_req`, and whether the
loop goes on. -/
def searchAttRecord (srv : Server) (req : SearchAttReq) (rec : Record) (x : SearchAtt) :
    Except Stop (SearchAtt × Bool) := do
  let state := if x.state.currentSvc ≠ rec.index then
    { x.state with currentSvc := rec.index, lastAtt := 0, lastAttIndex := 0 } else x.state
  let (sendingLen, state, rspBuf) ← createAttrList srv rec req.filter x.maxAttLen
    (ssaContStateSize + 1) state (if x.copying then some x.rspBuf else none)
  if x.maxAttLen < sendingLen then throw invalidSyntax
  let x := { x with
    rspBuf := rspBuf.getD x.rspBuf
    attListLen := (x.attListLen + sendingLen) % 2 ^ 16
    maxAttLen := x.maxAttLen - sendingLen
    state := state }
  let full : Bool := state.pktFull ∧ x.dryRun = false
  let x := if full ∧ state.currentSvc < srv.db.length % 256 then
    { x with
      dryRun := true
      rspBuf := x.rspBuf ++ (UInt8.ofNat ssaContStateSize :: UInt8.ofNat state.currentSvc ::
        UInt8.ofNat state.lastAtt :: be32 state.lastAttIndex) } else x
  if full ∧ req.cont.isSome then pure (x, false)
  else
    let x := if full then { x with copying := false } else x
    pure (if x.dryRun then { x with state := { x.state with lastAtt := 0, lastAttIndex := 0 } }
      else x, true)

/-- The loop of `sdp_svc_search_att_req`. -/
def searchAttRecords (srv : Server) (req : SearchAttReq) :
    List Record → SearchAtt → Except Stop SearchAtt
  | [], x => .ok x
  | rec :: recs, x => do
    if (← serviceSearchPatternMatched req.ssp rec) = false then searchAttRecords srv req recs x
    else if rec.index < (req.cont.map (·.1)).getD 0 then searchAttRecords srv req recs x
    else
      let (x, goesOn) ← searchAttRecord srv req rec x
      if goesOn then searchAttRecords srv req recs x else pure x

/-- What the response starts as, its first two bytes `att_list_len`: with
the declaration of the list of lists, or where the request goes on. -/
def SearchAttReq.start (req : SearchAttReq) : SearchAtt :=
  match req.cont with
  | none => { rspBuf := [0, 0, 0x36, 0, 0], attListLen := 3, maxAttLen := req.maxAttLen - 3
              state := { currentSvc := sdpInvalid } }
  | some (currentSvc, lastAtt, lastAttIndex) =>
    { rspBuf := [0, 0], attListLen := 0, maxAttLen := req.maxAttLen
      state := { currentSvc, lastAtt, lastAttIndex } }

/-- `sdp_svc_search_att_req` from there on: the parameters of the response. -/
def searchAttRsp (srv : Server) (req : SearchAttReq) : Except Stop Bytes := do
  let x ← searchAttRecords srv req srv.db req.start
  let empty : Bool := x.dryRun = false ∧ x.attListLen = 0
  let attListLen := if empty then 2 else x.attListLen
  let buf := if empty then x.rspBuf ++ [0x35, 0] else x.rspBuf
  let buf := if x.dryRun then buf else buf ++ [0]
  let buf := if req.cont.isNone then putSize buf 2 x.state.attListSize else buf
  pure (be16 attListLen ++ buf.drop 2)

/-- `sdp_svc_search_att_req`. -/
def svcSearchAttReq (srv : Server) (buf : Bytes) : Except Stop Bytes := do
  let (req, _) ← parseSearchAttReq buf
  searchAttRsp srv req

/-- A Service Search Request, with the record where it goes on and the
number of all of them. -/
structure SearchReq where
  ssp : Bytes
  maxRecCount : ℕ
  cont : Option (ℕ × ℕ)

/-- `sdp_svc_search_req` up to the response. -/
def parseSearchReq : Parse SearchReq := do
  let ssp ← parseServiceSearchPattern
  check (3 ≤ (← remaining)) invalidSyntax
  let maxRecCount ← pullBe 2
  let cont ← pullCont ssContStateSize do
    let contRecs ← pullBe 1
    let totalRecs ← pullBe 2
    pure (contRecs, totalRecs)
  pure { ssp, maxRecCount, cont }

/-- What the loop of `sdp_svc_search_req` goes on with. -/
structure Search where
  rspBuf : Bytes := []
  totalRecs : ℕ
  matchedRecs : ℕ := 0
  currentRecs : ℕ := 0
  pktFull : Bool := false

/-- One record that matches in the loop of `sdp_svc_search_req`, and
whether the loop goes on. -/
def searchRecord (srv : Server) (req : SearchReq) (rec : Record) (x : Search) : Search × Bool :=
  let x := { x with matchedRecs := (x.matchedRecs + 1) % 256 }
  let x := if req.cont.isNone then { x with totalRecs := (x.totalRecs + 1) % 2 ^ 16 } else x
  if req.cont.isSome ∧ x.totalRecs < x.matchedRecs then (x, false)
  else if req.maxRecCount < x.matchedRecs then (x, false)
  else if x.matchedRecs < (req.cont.map (·.1)).getD 0 then (x, true)
  else if x.pktFull then (x, true)
  -- four bytes of the response go before the handles
  else if min sdpMtu srv.mtu < 4 + x.rspBuf.length + (4 + 1 + ssContStateSize + hdrSize) then
    ({ x with
      pktFull := true
      rspBuf := x.rspBuf ++ [UInt8.ofNat ssContStateSize, UInt8.ofNat x.matchedRecs] },
      req.cont.isNone)
  else
    ({ x with rspBuf := x.rspBuf ++ be32 rec.handle, currentRecs := (x.currentRecs + 1) % 256 },
      true)

/-- The loop of `sdp_svc_search_req`. -/
def searchRecords (srv : Server) (req : SearchReq) : List Record → Search → Except Stop Search
  | [], x => .ok x
  | rec :: recs, x => do
    if (← serviceSearchPatternMatched req.ssp rec) = false then searchRecords srv req recs x
    else
      let (x, goesOn) := searchRecord srv req rec x
      if goesOn then searchRecords srv req recs x else pure x

/-- `sdp_svc_search_req` from there on: the parameters of the response. -/
def searchRsp (srv : Server) (req : SearchReq) : Except Stop Bytes := do
  let x ← searchRecords srv req srv.db { totalRecs := (req.cont.map (·.2)).getD 0 }
  pure (be16 x.totalRecs ++ be16 x.currentRecs ++ x.rspBuf ++
    if x.pktFull then be16 x.totalRecs else [0])

/-- `sdp_svc_search_req`. -/
def svcSearchReq (srv : Server) (buf : Bytes) : Except Stop Bytes := do
  let (req, _) ← parseSearchReq buf
  searchRsp srv req

/-- A PDU that is sent. -/
structure Pdu where
  opCode : ℕ
  tid : ℕ
  params : Bytes
  deriving DecidableEq, Repr

/-- The handlers, by their operation: that of the response, and what it
holds. -/
def handle (srv : Server) (opCode : ℕ) (buf : Bytes) : Except Stop (ℕ × Bytes) :=
  if opCode = 0x02 then (svcSearchReq srv buf).map fun params => (0x03, params)
  else if opCode = 0x04 then (svcAttReq srv buf).map fun params => (0x05, params)
  else if opCode = 0x06 then (svcSearchAttReq srv buf).map fun params => (0x07, params)
  else .error invalidSyntax

/-- The transaction of a request. -/
def tidOf (buf : Bytes) : ℕ := beNat ((buf.drop 1).take 2)

/-- `bt_sdp_send` on a connected channel: `bt_l2cap_chan_send` refuses what
is longer than its MTU, and nobody looks at that. -/
def sdpSend (srv : Server) (pdu : Pdu) : List Pdu :=
  if srv.mtu < hdrSize + pdu.params.length then [] else [pdu]

/-- `bt_sdp_recv`: what is sent. -/
def recv (srv : Server) (buf : Bytes) : Except Fault (List Pdu) :=
  if buf.length < hdrSize then .ok []
  else
    let body := buf.drop hdrSize
    let result := if beNat ((buf.drop 3).take 2) ≠ body.length then .error invalidPduSize
      else handle srv (beNat (buf.take 1)) body
    match result with
    | .ok (opCode, params) => .ok (sdpSend srv { opCode, tid := tidOf buf, params })
    | .error (.invalid err) =>
      .ok (sdpSend srv { opCode := 0x01, tid := tidOf buf, params := be16 err })
    | .error (.fault f) => .error f

end Sdp

end OpenBlue

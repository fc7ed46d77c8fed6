import OpenBlue.Common.Bytes
import OpenBlue.Mesh.Model.Transport
/-!
# Mesh — network PDUs

The model of how `net.c` and `crypto.c` put a network PDU together and
take it apart: header, encryption, obfuscation, and on the way in the two
duplicate caches and the search through the credentials. AES and AES-CCM
are parameters.
-/

namespace OpenBlue

namespace Mesh

/-! ## Cryptography -/

/-- The block cipher and the authenticated cipher, each of which may
fail. -/
structure NetCrypto where
  /-- `bt_mesh_encrypt`: key and block. -/
  encrypt : Bytes → Bytes → Option Bytes
  /-- `bt_mesh_ccm_encrypt`: key, nonce, plaintext and length of the MIC,
  to the ciphertext with the MIC behind it. -/
  ccmEncrypt : Bytes → Bytes → Bytes → Nat → Option Bytes
  /-- `bt_mesh_ccm_decrypt`: key, nonce, ciphertext with the MIC behind it
  and length of the MIC. -/
  ccmDecrypt : Bytes → Bytes → Bytes → Nat → Option Bytes

/-- What the code relies on: a block is 16 bytes, the MIC is added to a
ciphertext of the plaintext's length, and decryption inverts encryption
under the same key, nonce and MIC length. -/
structure NetCrypto.Lawful (crypto : NetCrypto) : Prop where
  length_encrypt : ∀ {key block out}, crypto.encrypt key block = some out → out.length = 16
  length_ccmEncrypt : ∀ {key nonce plain mic out},
    crypto.ccmEncrypt key nonce plain mic = some out → out.length = plain.length + mic
  ccmDecrypt_ccmEncrypt : ∀ {key nonce plain mic out},
    crypto.ccmEncrypt key nonce plain mic = some out →
      crypto.ccmDecrypt key nonce out mic = some plain

/-- `struct bt_mesh_net_cred`. The NID is seven bits of the output of
k2. -/
structure NetCred where
  nid : UInt8
  enc : Bytes
  privacy : Bytes
  nid_lt : nid < 0x80 := by decide
  deriving DecidableEq, Repr

/-- `enum bt_mesh_nonce_type`. -/
inductive NonceType
  | network
  | proxy
  | solicitation
  deriving DecidableEq, Repr

/-- The build options this layer reads. -/
structure PduCfg where
  /-- `CONFIG_BT_MESH_PROXY`. -/
  proxy : Bool := true
  /-- `CONFIG_BT_MESH_OD_PRIV_PROXY_SRV`. -/
  odPrivProxySrv : Bool := false
  /-- `CONFIG_BT_MESH_SOLICITATION`. -/
  solicitation : Bool := false
  /-- `CONFIG_BT_MESH_LOW_POWER`. -/
  lowPower : Bool := false
  /-- `CONFIG_BT_MESH_FRIEND`. -/
  friend : Bool := false
  deriving DecidableEq, Repr

/-! ## Fields of a PDU -/

/-- `BT_MESH_NET_HDR_LEN`. -/
def netHdrLen : Nat := 9

/-- `BT_MESH_NET_MIN_PDU_LEN`. -/
def netMinPduLen : Nat := netHdrLen + 1 + 8

/-- `BT_MESH_NET_MAX_PDU_LEN`. -/
def netMaxPduLen : Nat := netHdrLen + 16 + 4

/-- `IVI(pdu)`. -/
def iviOf (pdu : Bytes) : UInt8 := pdu.getD 0 0 >>> 7

/-- `NID(pdu)`. -/
def nidOf (pdu : Bytes) : UInt8 := pdu.getD 0 0 &&& 0x7f

/-- `CTL(pdu)`. -/
def ctlOf (pdu : Bytes) : UInt8 := pdu.getD 1 0 >>> 7

/-- `TTL(pdu)`. -/
def ttlOf (pdu : Bytes) : UInt8 := pdu.getD 1 0 &&& 0x7f

/-- `SEQ(pdu)`. -/
def seqOf (pdu : Bytes) : Nat := beNat ((pdu.drop 2).take 3)

/-- `SRC(pdu)`. -/
def srcOf (pdu : Bytes) : Nat := beNat ((pdu.drop 5).take 2)

/-- `DST(pdu)`. -/
def dstOf (pdu : Bytes) : Nat := beNat ((pdu.drop 7).take 2)

/-- `NET_MIC_LEN(pdu)`. -/
def netMicLen (pdu : Bytes) : Nat := if pdu.getD 1 0 &&& 0x80 ≠ 0 then 8 else 4

theorem seqOf_lt (pdu : Bytes) : seqOf pdu < 2 ^ 24 := by
  have hlen : ((pdu.drop 2).take 3).reverse.length ≤ 3 := by
    rw [List.length_reverse]
    exact List.length_take_le 3 _
  exact Nat.lt_of_lt_of_le (leNat_lt _) (Nat.pow_le_pow_right (by decide) hlen)

/-! ## Nonces, encryption and obfuscation -/

/-- `create_net_nonce`. -/
def createNetNonce (pdu : Bytes) (ivIndex : UInt32) : Bytes :=
  [0x00] ++ (pdu.drop 1).take 6 ++ [0, 0] ++ beBytes 4 ivIndex.toNat

/-- `create_proxy_nonce`. -/
def createProxyNonce (pdu : Bytes) (ivIndex : UInt32) : Bytes :=
  [0x03, 0] ++ (pdu.drop 2).take 5 ++ [0, 0] ++ beBytes 4 ivIndex.toNat

/-- `create_proxy_sol_nonce`. -/
def createProxySolNonce (pdu : Bytes) : Bytes :=
  [0x04, 0] ++ (pdu.drop 2).take 5 ++ List.replicate 6 0

/-- The nonce a PDU is encrypted or decrypted with; `sol` is the build
option that enables the solicitation nonce. -/
def netNonce (proxy sol : Bool) (pdu : Bytes) (ivIndex : UInt32) : NonceType → Bytes
  | .network => createNetNonce pdu ivIndex
  | .proxy => if proxy then createProxyNonce pdu ivIndex else createNetNonce pdu ivIndex
  | .solicitation => if sol then createProxySolNonce pdu else createNetNonce pdu ivIndex

/-- `bt_mesh_net_encrypt`. -/
def btMeshNetEncrypt (crypto : NetCrypto) (cfg : PduCfg) (key buf : Bytes) (ivIndex : UInt32)
    (type : NonceType) : Option Bytes := do
  let nonce := netNonce cfg.proxy cfg.odPrivProxySrv buf ivIndex type
  let out ← crypto.ccmEncrypt key nonce (buf.drop 7) (netMicLen buf)
  return buf.take 7 ++ out

/-- `bt_mesh_net_decrypt`. -/
def btMeshNetDecrypt (crypto : NetCrypto) (cfg : PduCfg) (key buf : Bytes) (ivIndex : UInt32)
    (type : NonceType) : Option Bytes := do
  let nonce := netNonce cfg.proxy cfg.solicitation buf ivIndex type
  let out ← crypto.ccmDecrypt key nonce (buf.drop 7) (netMicLen buf)
  return buf.take 7 ++ out

/-- The Privacy Random of `bt_mesh_net_obfuscate`. -/
def privRand (pdu : Bytes) (ivIndex : UInt32) : Bytes :=
  List.replicate 5 0 ++ beBytes 4 ivIndex.toNat ++ (pdu.drop 7).take 7

/-- `bt_mesh_net_obfuscate`. -/
def btMeshNetObfuscate (crypto : NetCrypto) (pdu : Bytes) (ivIndex : UInt32)
    (privacyKey : Bytes) : Option Bytes := do
  let tmp ← crypto.encrypt privacyKey (privRand pdu ivIndex)
  return pdu.take 1 ++ List.zipWith (· ^^^ ·) ((pdu.drop 1).take 6) tmp ++ pdu.drop 7

/-! ## The node's credentials -/

/-- One of the two key sets of a subnet (`struct bt_mesh_subnet_keys`). -/
structure SubnetKeys where
  valid : Bool
  msg : NetCred
  deriving DecidableEq, Repr

/-- `BT_MESH_KEY_UNUSED`. -/
def keyUnused : UInt16 := 0xffff

/-- `struct bt_mesh_subnet`: `keys[0]` and `keys[1]`. -/
structure Subnet where
  netIdx : UInt16
  /-- `kr_phase == BT_MESH_KR_PHASE_2`, which is `SUBNET_KEY_TX_IDX`. -/
  krPhase2 : Bool := false
  keys : SubnetKeys × SubnetKeys
  deriving DecidableEq, Repr

/-- A friendship's subnet and its two credentials (`struct
bt_mesh_friend`, `struct bt_mesh_lpn`). -/
structure Friendship where
  subnet : Subnet
  cred : NetCred × NetCred
  deriving DecidableEq, Repr

/-- The Low Power side: the friend, if there is one, and whether it is
waiting for an update. -/
structure Lpn where
  frnd : Bool := false
  waitingUpdate : Bool := false
  friendship : Friendship
  deriving DecidableEq, Repr

/-- A credential the search comes to, with what it records about it when
it is the one. -/
structure Candidate where
  cred : NetCred
  netIdx : UInt16
  newKey : Bool
  friendCred : Bool
  deriving DecidableEq, Repr

/-- The two credentials of a subnet, those of a key set that is not valid
left out. -/
def Subnet.candidates (sub : Subnet) (cred : NetCred × NetCred) (friendCred : Bool) :
    List Candidate :=
  (if sub.keys.1.valid then [⟨cred.1, sub.netIdx, false, friendCred⟩] else []) ++
    (if sub.keys.2.valid then [⟨cred.2, sub.netIdx, true, friendCred⟩] else [])

/-- The receiving node. -/
structure NetNode where
  ivIndex : UInt32
  /-- `bt_mesh_has_addr`. -/
  hasAddr : Nat → Bool
  lpn : Option Lpn := none
  frnd : List (Option Friendship) := []
  subnets : List Subnet

/-- The credentials `bt_mesh_net_cred_find` goes through, in its order. -/
def NetNode.candidates (cfg : PduCfg) (node : NetNode) : List Candidate :=
  match node.lpn.filter fun lpn => cfg.lowPower && lpn.waitingUpdate with
  | some lpn => lpn.friendship.subnet.candidates lpn.friendship.cred true
  | none =>
    (if cfg.friend then
      (node.frnd.filterMap id).flatMap fun f => f.subnet.candidates f.cred true
    else []) ++
    (node.subnets.filter (·.netIdx ≠ keyUnused)).flatMap fun sub =>
      sub.candidates (sub.keys.1.msg, sub.keys.2.msg) false

/-! ## Encoding -/

/-- What the caller of `bt_mesh_net_encode` gives it (`struct
bt_mesh_net_tx` and its `ctx`). -/
structure PduTx where
  sub : Subnet
  src : UInt16
  /-- `ctx->addr`. -/
  addr : UInt16
  sendTtl : UInt8
  appIdx : UInt16
  friendCred : Bool := false
  deriving DecidableEq, Repr

/-- Whether the PDU is a control one. -/
def PduTx.ctl (tx : PduTx) : Bool := tx.appIdx == keyUnused

/-- `net_tx_cred_get`. -/
def netTxCredGet (cfg : PduCfg) (lpn : Option Lpn) (tx : PduTx) : NetCred :=
  match lpn.filter fun lpn => cfg.lowPower && tx.friendCred && lpn.frnd with
  | some lpn =>
    if tx.sub.krPhase2 then lpn.friendship.cred.2 else lpn.friendship.cred.1
  | none => if tx.sub.krPhase2 then tx.sub.keys.2.msg else tx.sub.keys.1.msg

/-- The nine bytes `net_header_encode` puts before the payload. -/
def netHeader (tx : PduTx) (nid : UInt8) (ivIndex seq : UInt32) : Bytes :=
  [nid ||| ((ivIndex &&& 1) <<< 7).toUInt8, if tx.ctl then tx.sendTtl ||| 0x80 else tx.sendTtl] ++
    beBytes 3 seq.toNat ++ beBytes 2 tx.src.toNat ++ beBytes 2 tx.addr.toNat

/-- `net_header_encode`, on a buffer with `tailroom` bytes left behind the
payload. The sequence number is taken before the IV index is read. -/
def netHeaderEncode (cfg : NetCfg) (tx : PduTx) (nid : UInt8) (tailroom : Nat) (buf : Bytes)
    (net : Net) : Net × Except Err Bytes :=
  if tx.ctl && decide (tailroom < 8) then (net, .error .inval)
  else if tailroom < 4 then (net, .error .inval)
  else
    let (net, seq) := nextSeq cfg net
    (net, .ok (netHeader tx nid net.iviTx seq ++ buf))

/-- `net_encrypt`. -/
def netEncrypt (crypto : NetCrypto) (cfg : PduCfg) (buf : Bytes) (cred : NetCred)
    (ivIndex : UInt32) (type : NonceType) : Option Bytes := do
  let buf ← btMeshNetEncrypt crypto cfg cred.enc buf ivIndex type
  btMeshNetObfuscate crypto buf ivIndex cred.privacy

/-- `bt_mesh_net_encode`. -/
def btMeshNetEncode (crypto : NetCrypto) (cfg : PduCfg) (netCfg : NetCfg) (lpn : Option Lpn)
    (tx : PduTx) (tailroom : Nat) (buf : Bytes) (type : NonceType) (net : Net) :
    Net × Except Err Bytes :=
  let cred := netTxCredGet cfg lpn tx
  match netHeaderEncode netCfg tx cred.nid tailroom buf net with
  | (net, .error err) => (net, .error err)
  | (net, .ok buf) =>
    match netEncrypt crypto cfg buf cred net.iviTx type with
    | none => (net, .error .passed)
    | some pdu => (net, .ok pdu)

/-! ## Decoding -/

/-- An array that is filled in turn, with the place to fill next. -/
structure Ring (α : Type) where
  entries : List α
  next : Nat := 0
  deriving DecidableEq, Repr

/-- The search of `check_dup` and `msg_cache_match`: back from the last
place filled, then back from the end. -/
def Ring.search {α : Type} (r : Ring α) (p : α → Bool) : Bool :=
  (r.entries.take r.next).reverse.any p || (r.entries.drop r.next).reverse.any p

/-- The next place filled. -/
def Ring.push {α : Type} (r : Ring α) (a : α) : Ring α :=
  let next := r.next % r.entries.length
  { entries := r.entries.set next a, next := next + 1 }

/-- `dup_cache` and `msg_cache`, the latter of sources and the low 17 bits
of sequence numbers. -/
structure NetCaches where
  dup : Ring Nat
  msg : Ring (Nat × Nat)
  deriving DecidableEq, Repr

/-- The caches of a node that has heard nothing, of
`CONFIG_BT_MESH_MSG_CACHE_SIZE` places. -/
def netCachesInit (size : Nat) : NetCaches where
  dup := { entries := List.replicate size 0 }
  msg := { entries := List.replicate size (0, 0) }

/-- What `check_dup` keeps of a PDU. -/
def dupValue (pdu : Bytes) : Nat :=
  beNat ((pdu.drop (pdu.length - 4)).take 4) ^^^ beNat ((pdu.drop (pdu.length - 8)).take 4)

/-- `check_dup`. -/
def checkDup (pdu : Bytes) (caches : NetCaches) : NetCaches × Bool :=
  if caches.dup.search (· == dupValue pdu) then (caches, true)
  else ({ caches with dup := caches.dup.push (dupValue pdu) }, false)

/-- `msg_cache_match`. -/
def msgCacheMatch (pdu : Bytes) (caches : NetCaches) : Bool :=
  caches.msg.search fun e => e.1 == srcOf pdu && e.2 == seqOf pdu % 2 ^ 17

/-- `msg_cache_add`. -/
def msgCacheAdd (addr seq : Nat) (caches : NetCaches) : NetCaches :=
  { caches with msg := caches.msg.push (addr % 2 ^ 15, seq % 2 ^ 17) }

/-- `BT_MESH_NET_IVI_RX` for the IV index of the node. -/
def NetNode.iviRx (node : NetNode) (oldIv : Bool) : UInt32 :=
  node.ivIndex - (if oldIv then 1 else 0)

/-- `rx->old_iv`, by the parity of the IVI bit. -/
def NetNode.oldIv (node : NetNode) (pdu : Bytes) : Bool :=
  (iviOf pdu).toUInt32 != (node.ivIndex &&& 1)

/-- A PDU that `net_decrypt` could open: the bytes in clear, and what it
wrote into `rx`. -/
structure OpenedPdu where
  out : Bytes
  oldIv : Bool
  addr : Nat
  unicast : isUnicast addr = true
  deriving DecidableEq, Repr

/-- `net_decrypt`. The type of the nonce is the `bool proxy`. -/
def netDecrypt (crypto : NetCrypto) (cfg : PduCfg) (node : NetNode) (caches : NetCaches)
    (netIf : NetIf) (pdu : Bytes) (cred : NetCred) : Option OpenedPdu :=
  if nidOf pdu ≠ cred.nid then none
  else
    let oldIv := node.oldIv pdu
    (btMeshNetObfuscate crypto pdu (node.iviRx oldIv) cred.privacy).bind fun out =>
      if hsrc : isUnicast (srcOf out) then
        if node.hasAddr (srcOf out) then none
        else if netIf == .adv && msgCacheMatch out caches then none
        else
          let type := if netIf = .proxyCfg then .proxy else .network
          (btMeshNetDecrypt crypto cfg cred.enc out (node.iviRx oldIv) type).map fun clear =>
            ⟨clear, oldIv, srcOf out, hsrc⟩
      else none

/-- `bt_mesh_net_cred_find` with `net_decrypt`: the first credential that
opens the PDU. -/
def btMeshNetCredFind (crypto : NetCrypto) (cfg : PduCfg) (node : NetNode) (caches : NetCaches)
    (netIf : NetIf) (pdu : Bytes) : Option (Candidate × OpenedPdu) :=
  (node.candidates cfg).findSome? fun c =>
    (netDecrypt crypto cfg node caches netIf pdu c.cred).map (c, ·)

/-- `BT_MESH_TTL_DEFAULT`. -/
def ttlDefault : UInt8 := 0xff

/-- What `bt_mesh_net_decode` leaves in `rx` and in `out`. -/
structure Decoded where
  rx : NetRx
  recvTtl : UInt8
  /-- The TTL to answer with: 0 for a message that was not relayed. -/
  sendTtl : UInt8
  netIdx : UInt16
  newKey : Bool
  friendCred : Bool
  out : Bytes
  deriving DecidableEq, Repr

/-- The transport PDU, what is left of `out` behind the network header. -/
def Decoded.payload (d : Decoded) : Bytes := d.out.drop netHdrLen

/-- What is recorded of a PDU that was opened. The matches against the
node's own addresses come later. -/
def decodedOf (netIf : NetIf) (c : Candidate) (o : OpenedPdu) : Decoded where
  rx :=
    { netIf := netIf
      addr := o.addr
      recvDst := dstOf o.out
      seq := seqOf o.out
      oldIv := o.oldIv
      ctl := ctlOf o.out != 0
      localMatch := false
      addr_pos := of_decide_eq_true (Bool.and_eq_true_iff.1 o.unicast).1
      addr_lt := of_decide_eq_true (Bool.and_eq_true_iff.1 o.unicast).2
      seq_lt := seqOf_lt o.out }
  recvTtl := ttlOf o.out
  sendTtl := if ttlOf o.out = 0 then 0 else ttlDefault
  netIdx := c.netIdx
  newKey := c.newKey
  friendCred := c.friendCred
  out := o.out

/-- `bt_mesh_net_decode`. -/
def btMeshNetDecode (crypto : NetCrypto) (cfg : PduCfg) (node : NetNode) (netIf : NetIf)
    (pdu : Bytes) (caches : NetCaches) : NetCaches × Except Err Decoded :=
  if pdu.length < netMinPduLen then (caches, .error .inval)
  else if netMaxPduLen < pdu.length then (caches, .error .inval)
  else
    let (caches, dup) := if netIf = .adv then checkDup pdu caches else (caches, false)
    if dup then (caches, .error .inval)
    else
      match btMeshNetCredFind crypto cfg node caches netIf pdu with
      | none => (caches, .error .noent)
      | some (c, o) =>
        let d := decodedOf netIf c o
        if netIf ≠ .proxyCfg ∧ d.rx.recvDst = 0 then (caches, .error .badmsg)
        else (msgCacheAdd d.rx.addr d.rx.seq caches, .ok d)

end Mesh

end OpenBlue

import OpenBlue.Mesh.Model.Relay
/-!
# Mesh — the network message cache over reception

What `bt_mesh_net_recv` leaves in the caches of `net.c`: a PDU that is decoded
is added to the message cache, and one that the transport layer would like to
see again is taken back out of both.
-/

namespace OpenBlue

namespace Mesh

/-- The last place filled is marked and becomes the next one. -/
def Ring.rewind {α : Type} (mark : α → α) (r : Ring α) : Ring α where
  entries := r.entries.modify (r.next - 1) mark
  next := r.next - 1

/-- `msg_cache[--msg_cache_next].src = BT_MESH_ADDR_UNASSIGNED`. -/
def msgCacheRewind (caches : NetCaches) : NetCaches :=
  { caches with msg := caches.msg.rewind fun e => (0, e.2) }

/-- `dup_cache[--dup_cache_next] = 0`. -/
def dupCacheRewind (caches : NetCaches) : NetCaches :=
  { caches with dup := caches.dup.rewind fun _ => 0 }

/-- What `bt_mesh_net_recv` reads of the node when a PDU comes in. -/
structure HeardAt where
  node : NetNode
  st : RelayState := {}
  provisioned : Bool := true
  /-- `rx.local_match`. -/
  localMatch : Bool := false
  /-- `bt_mesh_lpn_established`. -/
  lpnEstablished : Bool := false

/-- The one place where `bt_mesh_trans_recv` answers `-EAGAIN`: in a
friendship, a PDU that was not asked for, or not sent under the friendship
credentials. -/
def transAgain (cfg : PduCfg) (env : HeardAt) (rx : Decoded) : Bool :=
  cfg.lowPower && env.lpnEstablished && rx.rx.netIf == .adv &&
    (!(env.node.lpn.any (·.waitingUpdate)) || !rx.friendCred)

/-- `bt_mesh_net_recv`, on the caches. -/
def netRecvCaches (crypto : NetCrypto) (cfg : PduCfg) (env : HeardAt) (netIf : NetIf)
    (pdu : Bytes) (caches : NetCaches) : NetCaches :=
  if !env.provisioned then caches
  else
    match btMeshNetDecode crypto cfg env.node netIf pdu caches with
    | (caches, .error _) => caches
    | (caches, .ok rx) =>
      -- The proxy is disabled; the message is ignored, and stays in the cache.
      if env.st.cfgGattProxy && netIf == .proxy && !env.st.proxies && !env.localMatch then caches
      else if transAgain cfg env rx then dupCacheRewind (msgCacheRewind caches)
      else caches

/-- What puts PDUs through the caches. -/
inductive CacheEvent
  /-- `bt_mesh_net_recv`. -/
  | recv (env : HeardAt) (netIf : NetIf) (pdu : Bytes)
  /-- `bt_mesh_net_decode` on a proxy configuration message. -/
  | proxyCfg (node : NetNode) (pdu : Bytes)

/-- One step. -/
def cacheStep (crypto : NetCrypto) (cfg : PduCfg) (caches : NetCaches) : CacheEvent → NetCaches
  | .recv env netIf pdu => netRecvCaches crypto cfg env netIf pdu caches
  | .proxyCfg node pdu => (btMeshNetDecode crypto cfg node .proxyCfg pdu caches).1

/-- An addition to the message cache: the header, and whether it is taken
back. Only unicast sources come this far. -/
structure Heard where
  src : ℕ
  seq : ℕ
  rewound : Bool := false
  src_pos : 0 < src := by decide
  src_lt : src < 0x8000 := by decide
  deriving Repr

/-- An addition, and what takes it back. -/
def msgHear (caches : NetCaches) (h : Heard) : NetCaches :=
  if h.rewound then msgCacheRewind (msgCacheAdd h.src h.seq caches)
  else msgCacheAdd h.src h.seq caches

/-- The addition of a PDU that was decoded. -/
def Decoded.heard (rx : Decoded) (rewound : Bool) : Heard :=
  ⟨rx.rx.addr, rx.rx.seq, rewound, rx.rx.addr_pos, rx.rx.addr_lt⟩

/-- What a step adds. -/
def cacheHeard (crypto : NetCrypto) (cfg : PduCfg) (caches : NetCaches) : CacheEvent → List Heard
  | .recv env netIf pdu =>
    if !env.provisioned then []
    else
      match (btMeshNetDecode crypto cfg env.node netIf pdu caches).2 with
      | .error _ => []
      | .ok rx => [rx.heard (transAgain cfg env rx)]
  | .proxyCfg node pdu =>
    match (btMeshNetDecode crypto cfg node .proxyCfg pdu caches).2 with
    | .error _ => []
    | .ok rx => [rx.heard false]

/-! ## The window -/

/-- The additions the cache answers for, newest first: of those not taken back
the last `size`, and one less while the place of one that was is free. -/
def window (size : ℕ) (log : List Heard) : List Heard :=
  (log.filter (!·.rewound)).reverse.take
    (if log.getLast?.any (·.rewound) then size - 1 else size)

/-- The header has the source of the addition, and its SEQ in the bits that
are stored. -/
def Heard.Matches (h : Heard) (pdu : Bytes) : Prop :=
  h.src = srcOf pdu ∧ h.seq % 2 ^ 17 = seqOf pdu % 2 ^ 17

instance (h : Heard) (pdu : Bytes) : Decidable (h.Matches pdu) :=
  inferInstanceAs (Decidable (_ ∧ _))

end Mesh

end OpenBlue

import OpenBlue.Mesh.Model.Relay
import OpenBlue.Mesh.NetPdu
/-!
# Mesh — relayed PDUs and the credential they go out under

A relayed PDU is encrypted with the credential that the subnet transmits
with, which key refresh moves from one key set to the other, and its NID
is written anew only where the PDU was received with friendship
credentials or is bridged. Everything else of a relayed PDU is what it
should be; its NID is that of the credential exactly when it did not have
to be rewritten.
-/

namespace OpenBlue

namespace Mesh

open List

variable {crypto : NetCrypto} {cfg : PduCfg} {st : RelayState} {node : NetNode}
variable {caches : NetCaches} {netIf : NetIf} {sub : Subnet} {cred : NetCred} {rx : Decoded}
variable {pdu sbuf out clear : Bytes} {iv : UInt32} {type : NonceType} {bridge adv : Bool}
variable {r : RelayedPdu} {c : Candidate} {o : OpenedPdu}

/-! ## What the search found -/

theorem map_snd_subCandidates (cfg : PduCfg) (node : NetNode) :
    (node.subCandidates cfg).map Prod.snd = node.candidates cfg := by
  have hpair : ∀ (sub : Subnet) (l : List Candidate), (l.map (sub, ·)).map Prod.snd = l :=
    fun sub l => by rw [map_map]; exact map_id' l
  unfold NetNode.subCandidates NetNode.candidates
  cases node.lpn.filter fun lpn => cfg.lowPower && lpn.waitingUpdate with
  | some lpn => exact hpair _ _
  | none =>
    dsimp only
    rw [map_append, map_flatMap]
    congr 1
    · cases cfg.friend with
      | true =>
        rw [if_pos rfl, if_pos rfl, map_flatMap]
        exact flatMap_congr fun f _ => hpair _ _
      | false => rfl
    · exact flatMap_congr fun sub _ => hpair _ _

theorem Subnet.of_mem_candidates {creds : NetCred × NetCred} {friend : Bool}
    (h : c ∈ sub.candidates creds friend) :
    c.friendCred = friend ∧ (c.newKey = true → sub.keys.2.valid = true) ∧
      c.cred = if c.newKey then creds.2 else creds.1 := by
  unfold Subnet.candidates at h
  rcases mem_append.mp h with h | h
  · split at h
    · obtain rfl := mem_singleton.mp h
      exact ⟨rfl, nofun, rfl⟩
    · exact absurd h not_mem_nil
  · split at h
    next hvalid =>
      obtain rfl := mem_singleton.mp h
      exact ⟨rfl, fun _ => hvalid, rfl⟩
    · exact absurd h not_mem_nil

theorem mem_candidates_of_mem (h : (sub, c) ∈ node.subCandidates cfg) :
    ∃ creds friend, c ∈ sub.candidates creds friend ∧
      (friend = false → creds = (sub.keys.1.msg, sub.keys.2.msg)) := by
  have hpair : ∀ {s : Subnet} {l : List Candidate}, (sub, c) ∈ l.map (s, ·) → s = sub ∧ c ∈ l := by
    intro s l hmem
    obtain ⟨c', hc, heq⟩ := mem_map.mp hmem
    obtain ⟨rfl, rfl⟩ := Prod.mk.inj heq
    exact ⟨rfl, hc⟩
  unfold NetNode.subCandidates at h
  split at h
  · obtain ⟨rfl, hmem⟩ := hpair h
    exact ⟨_, _, hmem, nofun⟩
  · rcases mem_append.mp h with h | h
    · split at h
      · obtain ⟨f, -, hf⟩ := mem_flatMap.mp h
        obtain ⟨rfl, hmem⟩ := hpair hf
        exact ⟨_, _, hmem, nofun⟩
      · exact absurd h not_mem_nil
    · obtain ⟨s, -, hs⟩ := mem_flatMap.mp h
      obtain ⟨rfl, hmem⟩ := hpair hs
      exact ⟨_, _, hmem, fun _ => rfl⟩

theorem cred_of_mem_subCandidates (h : (sub, c) ∈ node.subCandidates cfg)
    (hflood : c.friendCred = false) :
    c.cred = if c.newKey then sub.keys.2.msg else sub.keys.1.msg := by
  obtain ⟨creds, friend, hmem, hcreds⟩ := mem_candidates_of_mem h
  obtain ⟨hfriend, -, hcred⟩ := Subnet.of_mem_candidates hmem
  rw [hcred, hcreds (hfriend.symm.trans hflood)]

theorem newKey_of_invalid (h : (sub, c) ∈ node.subCandidates cfg)
    (hnew : sub.keys.2.valid = false) : c.newKey = false := by
  obtain ⟨creds, friend, hmem, -⟩ := mem_candidates_of_mem h
  obtain ⟨-, hvalid, -⟩ := Subnet.of_mem_candidates hmem
  rw [← Bool.not_eq_true]
  intro hkey
  rw [hvalid hkey] at hnew
  exact nomatch hnew

theorem mem_subCandidates_of_find
    (hfind : btMeshNetCredFind crypto cfg node caches netIf pdu = some (c, o))
    (hsub : rxSub crypto cfg node caches netIf pdu = some sub) :
    (sub, c) ∈ node.subCandidates cfg := by
  rw [btMeshNetCredFind, ← map_snd_subCandidates] at hfind
  rw [rxSub] at hsub
  generalize node.subCandidates cfg = l at hfind hsub ⊢
  induction l with
  | nil => cases hfind
  | cons p rest ih =>
    rw [map_cons, findSome?_cons] at hfind
    rw [findSome?_cons] at hsub
    cases hp : netDecrypt crypto cfg node caches netIf pdu p.2.cred with
    | none =>
      rw [hp] at hfind hsub
      exact mem_cons_of_mem _ (ih hfind hsub)
    | some o' =>
      rw [hp] at hfind hsub
      obtain ⟨rfl, rfl⟩ := Prod.mk.inj (Option.some.inj hfind)
      obtain rfl := Option.some.inj hsub
      exact mem_cons_self

theorem netDecrypt_of_find
    (hfind : btMeshNetCredFind crypto cfg node caches netIf pdu = some (c, o)) :
    netDecrypt crypto cfg node caches netIf pdu c.cred = some o := by
  obtain ⟨b, -, hb⟩ := exists_of_findSome?_eq_some hfind
  obtain ⟨o', ho', heq⟩ := Option.map_eq_some_iff.mp hb
  obtain ⟨rfl, rfl⟩ := Prod.mk.inj heq
  exact ho'

/-- **A PDU that is decoded was opened with a credential of the node**,
whose NID it carries. -/
theorem found_of_decode (h : (btMeshNetDecode crypto cfg node netIf pdu caches).2 = .ok rx) :
    netMinPduLen ≤ pdu.length ∧
      ∃ c o, btMeshNetCredFind crypto cfg node caches netIf pdu = some (c, o) ∧
        rx = decodedOf netIf c o := by
  have hfirst : (if netIf = .adv then checkDup pdu caches else (caches, false)).1.msg =
      caches.msg := by
    split
    · unfold checkDup
      split <;> rfl
    · rfl
  unfold btMeshNetDecode at h
  split at h
  · cases h
  next hmin =>
  split at h
  · cases h
  rcases hdup : (if netIf = .adv then checkDup pdu caches else (caches, false)) with
    ⟨caches', dup⟩
  rw [hdup] at h hfirst
  dsimp only at h hfirst
  split at h
  · cases h
  have hsame : btMeshNetCredFind crypto cfg node caches' netIf pdu =
      btMeshNetCredFind crypto cfg node caches netIf pdu := by
    rw [btMeshNetCredFind, btMeshNetCredFind]
    congr 1
    funext b
    rw [netDecrypt_congr hfirst]
  rw [hsame] at h
  split at h
  · cases h
  next hfind =>
    split at h
    · cases h
    · exact ⟨Nat.not_lt.mp hmin, _, _, hfind, (Except.ok.inj h).symm⟩

theorem take_of_decrypt {key : Bytes} (hlen : 7 ≤ out.length)
    (h : btMeshNetDecrypt crypto cfg key out iv type = some clear) : clear.take 7 = out.take 7 := by
  rw [btMeshNetDecrypt, Option.bind_eq_bind, Option.bind_eq_some_iff] at h
  obtain ⟨tail, -, h⟩ := h
  obtain rfl := Option.some.inj h
  exact take_left' (by rw [length_take]; omega)

theorem of_netDecrypt (hlaw : crypto.Lawful) (hlen : 7 ≤ pdu.length)
    (h : netDecrypt crypto cfg node caches netIf pdu cred = some o) :
    nidOf pdu = cred.nid ∧ o.oldIv = node.oldIv pdu ∧ 7 ≤ o.out.length ∧
      o.out.take 1 = pdu.take 1 := by
  unfold netDecrypt at h
  split at h
  · cases h
  next hnid =>
  obtain ⟨out, hobf, h⟩ := Option.bind_eq_some_iff.mp h
  obtain ⟨hfirst, hlenOut, -⟩ := obfuscate_spec hlaw hlen hobf
  split at h
  · split at h
    · cases h
    · split at h
      · cases h
      · obtain ⟨clear, hclear, rfl⟩ := Option.map_eq_some_iff.mp h
        have htake := take_of_decrypt (by omega) hclear
        have hlenTake := congrArg List.length htake
        rw [length_take, length_take] at hlenTake
        have hlenClear : 7 ≤ clear.length := by omega
        exact ⟨not_not.mp hnid, rfl, hlenClear, (take_one_of_take htake).trans hfirst⟩
  · cases h

/-! ## What is written anew -/

theorem relayed_byte {ttl : UInt8} (hlt : ttl < 0x80) (b : UInt8) :
    ((b &&& 0x80 ||| ttl) >>> 7 = b >>> 7) ∧ (b &&& 0x80 ||| ttl) &&& 0x7f = ttl := by
  have hall : ∀ n : UInt8, n < 0x80 → ∀ high : Bool,
      (((if high then 0x80 else 0) ||| n) >>> 7 = if high then 1 else 0) ∧
        ((if high then 0x80 else 0) ||| n) &&& 0x7f = n :=
    forall_uint8 (by decide +kernel)
  have hbit : ∀ n : UInt8, ∃ high : Bool,
      n &&& 0x80 = (if high then 0x80 else 0) ∧ n >>> 7 = if high then 1 else 0 :=
    forall_uint8 (by decide +kernel)
  obtain ⟨high, hand, hshift⟩ := hbit b
  rw [hand, hshift]
  exact hall ttl hlt high

/-- What a PDU keeps of another: all but the NID and the TTL. -/
structure SameButNidTtl (out clear : Bytes) : Prop where
  ivi : iviOf clear = iviOf out
  ctl : ctlOf clear = ctlOf out
  seq : seqOf clear = seqOf out
  src : srcOf clear = srcOf out
  dst : dstOf clear = dstOf out
  payload : clear.drop netHdrLen = out.drop netHdrLen

theorem SameButNidTtl.trans {a b c : Bytes} (h : SameButNidTtl a b) (h' : SameButNidTtl b c) :
    SameButNidTtl a c where
  ivi := h'.ivi.trans h.ivi
  ctl := h'.ctl.trans h.ctl
  seq := h'.seq.trans h.seq
  src := h'.src.trans h.src
  dst := h'.dst.trans h.dst
  payload := h'.payload.trans h.payload

theorem SameButNidTtl.of_drop {a b : Bytes} (hivi : iviOf b = iviOf a) (hctl : ctlOf b = ctlOf a)
    (h : b.drop 2 = a.drop 2) : SameButNidTtl a b := by
  have hdrop : ∀ k, b.drop (2 + k) = a.drop (2 + k) := fun k => by
    rw [← drop_drop, h, drop_drop]
  refine ⟨hivi, hctl, ?_, ?_, ?_, hdrop 7⟩
  · rw [seqOf, seqOf, h]
  · rw [srcOf, srcOf, hdrop 3]
  · rw [dstOf, dstOf, hdrop 5]

theorem getD_set_self {l : Bytes} {i : ℕ} (h : i < l.length) (b : UInt8) :
    (l.set i b).getD i 0 = b := by
  rw [getD_eq_getElem?_getD, getElem?_set_self h]
  rfl

theorem getD_set_ne {l : Bytes} {i j : ℕ} (h : i ≠ j) (b : UInt8) :
    (l.set i b).getD j 0 = l.getD j 0 := by
  rw [getD_eq_getElem?_getD, getElem?_set_ne h, getD_eq_getElem?_getD]

theorem setTtl_spec {ttl : UInt8} (hlt : ttl < 0x80) (hlen : 2 ≤ out.length) :
    SameButNidTtl out (setTtl ttl out) ∧ nidOf (setTtl ttl out) = nidOf out ∧
      ttlOf (setTtl ttl out) = ttl := by
  obtain ⟨hctl, httl⟩ := relayed_byte hlt (out.getD 1 0)
  have hfirst : (setTtl ttl out).getD 0 0 = out.getD 0 0 := getD_set_ne (by decide) _
  have hsecond : (setTtl ttl out).getD 1 0 = out.getD 1 0 &&& 0x80 ||| ttl :=
    getD_set_self (by omega) _
  refine ⟨.of_drop ?_ ?_ ?_, ?_, ?_⟩
  · rw [iviOf, hfirst, iviOf]
  · rw [ctlOf, hsecond, hctl, ctlOf]
  · exact drop_set_of_lt (by decide)
  · rw [nidOf, hfirst, nidOf]
  · rw [ttlOf, hsecond, httl]

theorem setNid_spec {nid : UInt8} (hlt : nid < 0x80) (hlen : 2 ≤ out.length) :
    SameButNidTtl out (setNid nid out) ∧ nidOf (setNid nid out) = nid ∧
      ttlOf (setNid nid out) = ttlOf out := by
  obtain ⟨hivi, hnid⟩ := relayed_byte hlt (out.getD 0 0)
  have hfirst : (setNid nid out).getD 0 0 = out.getD 0 0 &&& 0x80 ||| nid :=
    getD_set_self (by omega) _
  have hsecond : (setNid nid out).getD 1 0 = out.getD 1 0 := getD_set_ne (by decide) _
  refine ⟨.of_drop ?_ ?_ ?_, ?_, ?_⟩
  · rw [iviOf, hfirst, hivi, iviOf]
  · rw [ctlOf, hsecond, ctlOf]
  · exact drop_set_of_lt (by decide)
  · rw [nidOf, hfirst, hnid]
  · rw [ttlOf, hsecond, ttlOf]

/-! ## Opening a PDU -/

/-- A PDU opened with a credential, under an IV index. -/
def netOpen (crypto : NetCrypto) (cfg : PduCfg) (cred : NetCred) (iv : UInt32) (type : NonceType)
    (pdu : Bytes) : Option Bytes :=
  (btMeshNetObfuscate crypto pdu iv cred.privacy).bind fun out =>
    btMeshNetDecrypt crypto cfg cred.enc out iv type

/-- **What is encrypted with a credential is opened with it**, and its first
byte is in clear. -/
theorem netOpen_netEncrypt (hlaw : crypto.Lawful) (hsol : type ≠ .solicitation)
    (hlen : 7 ≤ out.length) (h : netEncrypt crypto cfg out cred iv type = some pdu) :
    netOpen crypto cfg cred iv type pdu = some out ∧ pdu.take 1 = out.take 1 := by
  rw [netEncrypt, Option.bind_eq_bind, Option.bind_eq_some_iff] at h
  obtain ⟨enc, hencrypt, hobf⟩ := h
  obtain ⟨htake, hlenEnc, hdec⟩ := encrypt_spec hlaw hsol hlen hencrypt
  obtain ⟨hfirst, -, hdeobf⟩ := obfuscate_spec hlaw (by omega) hobf
  refine ⟨?_, hfirst.trans (take_one_of_take htake)⟩
  rw [netOpen, hdeobf, Option.bind_some, hdec]

/-- A relayed PDU that a holder of the credential can read: it has the
credential's NID, and opens under the IV index to what was received with a
TTL one less. -/
structure Decodable (crypto : NetCrypto) (cfg : PduCfg) (cred : NetCred) (iv : UInt32)
    (out pdu : Bytes) : Prop where
  nid : nidOf pdu = cred.nid
  opens : ∃ clear, netOpen crypto cfg cred iv .network pdu = some clear ∧
    SameButNidTtl out clear ∧ 1 < ttlOf out ∧ ttlOf clear = ttlOf out - 1

/-! ## The relay -/

theorem ttlOf_lt (pdu : Bytes) : ttlOf pdu < 0x80 := by
  have hall : ∀ b : UInt8, b &&& 0x7f < 0x80 := forall_uint8 (by decide +kernel)
  exact hall _

/-- **What a relay builds** opens to what was received with a TTL one less,
and has the NID of the transmitting credential where it is written anew. -/
theorem relay_spec (hlaw : crypto.Lawful) (hlen : 7 ≤ sbuf.length) (httl : rx.recvTtl < 0x80)
    (h : btMeshNetRelay crypto cfg st node adv sub sbuf rx bridge = some r) : 1 < rx.recvTtl ∧
      nidOf r.pdu = (if rx.friendCred || bridge then sub.txCred.nid else nidOf sbuf) ∧
      ∃ clear, netOpen crypto cfg sub.txCred (node.iviRx rx.rx.oldIv) .network r.pdu = some clear ∧
        SameButNidTtl sbuf clear ∧ ttlOf clear = rx.recvTtl - 1 := by
  unfold btMeshNetRelay at h
  split at h
  · exact nomatch h
  next hone =>
  split at h
  · exact nomatch h
  dsimp only at h
  split at h
  · exact nomatch h
  split at h
  · exact nomatch h
  next pdu henc =>
  obtain rfl := Option.some.inj h
  have hgt : 1 < rx.recvTtl := UInt8.not_le.mp hone
  have hsub : rx.recvTtl - 1 < 0x80 := by
    have hle := UInt8.lt_iff_toNat_lt.mp httl
    have hge := UInt8.lt_iff_toNat_lt.mp hgt
    rw [UInt8.lt_iff_toNat_lt, UInt8.toNat_sub_of_le _ _ (UInt8.le_of_lt hgt)]
    simp at hle hge ⊢
    omega
  have htwo : 2 ≤ sbuf.length := by omega
  obtain ⟨hsame, hnid, hset⟩ := setTtl_spec hsub htwo
  have hlenSet : (setTtl (rx.recvTtl - 1) sbuf).length = sbuf.length := length_set ..
  cases hanew : rx.friendCred || bridge with
  | true =>
    rw [hanew, if_pos rfl] at henc
    obtain ⟨hsame', hnid', hset'⟩ := setNid_spec sub.txCred.nid_lt (hlenSet ▸ htwo)
    obtain ⟨hopen, hfirst⟩ := netOpen_netEncrypt hlaw (by decide)
      (by rw [setNid, length_set]; omega) henc
    exact ⟨hgt, (nidOf_of_take hfirst).trans hnid', _, hopen, hsame.trans hsame', hset'.trans hset⟩
  | false =>
    rw [hanew, if_neg Bool.false_ne_true] at henc
    obtain ⟨hopen, hfirst⟩ := netOpen_netEncrypt hlaw (by decide) (by omega) henc
    exact ⟨hgt, (nidOf_of_take hfirst).trans hnid, _, hopen, hsame, hset⟩

theorem decoded_spec (hlaw : crypto.Lawful)
    (hdec : (btMeshNetDecode crypto cfg node netIf pdu caches).2 = .ok rx) :
    7 ≤ rx.out.length ∧ rx.recvTtl = ttlOf rx.out ∧ rx.rx.oldIv = node.oldIv pdu := by
  obtain ⟨hmin, c, o, hfind, rfl⟩ := found_of_decode hdec
  have hlen : 7 ≤ pdu.length := le_trans (by decide) hmin
  obtain ⟨-, hold, hlenOut, -⟩ := of_netDecrypt hlaw hlen (netDecrypt_of_find hfind)
  exact ⟨hlenOut, rfl, hold⟩

theorem nidOf_received (hlaw : crypto.Lawful)
    (hdec : (btMeshNetDecode crypto cfg node netIf pdu caches).2 = .ok rx)
    (hsub : rxSub crypto cfg node caches netIf pdu = some sub) (hflood : rx.friendCred = false) :
    nidOf rx.out = (if rx.newKey then sub.keys.2.msg else sub.keys.1.msg).nid ∧
      (sub.keys.2.valid = false → rx.newKey = false) := by
  obtain ⟨hmin, c, o, hfind, rfl⟩ := found_of_decode hdec
  have hlen : 7 ≤ pdu.length := le_trans (by decide) hmin
  obtain ⟨hnid, -, -, hfirst⟩ := of_netDecrypt hlaw hlen (netDecrypt_of_find hfind)
  have hmem := mem_subCandidates_of_find hfind hsub
  have hreceived : nidOf o.out = c.cred.nid := (nidOf_of_take hfirst).trans hnid
  rw [cred_of_mem_subCandidates hmem hflood] at hreceived
  exact ⟨hreceived, newKey_of_invalid hmem⟩

theorem decodable_iff_nid (hlaw : crypto.Lawful)
    (hdec : (btMeshNetDecode crypto cfg node netIf pdu caches).2 = .ok rx)
    (hr : btMeshNetRelay crypto cfg st node adv sub rx.out rx bridge = some r) :
    Decodable crypto cfg sub.txCred (node.iviRx (node.oldIv pdu)) rx.out r.pdu ↔
      bridge = true ∨ rx.friendCred = true ∨ nidOf rx.out = sub.txCred.nid := by
  obtain ⟨hlen, httl, hold⟩ := decoded_spec hlaw hdec
  obtain ⟨hgt, hnid, clear, hopen, hsame, hless⟩ :=
    relay_spec hlaw hlen (httl ▸ ttlOf_lt rx.out) hr
  rw [hold] at hopen
  rw [httl] at hgt hless
  have hnidIff : nidOf r.pdu = sub.txCred.nid ↔
      bridge = true ∨ rx.friendCred = true ∨ nidOf rx.out = sub.txCred.nid := by
    rw [hnid]
    cases bridge <;> cases rx.friendCred <;> simp
  rw [← hnidIff]
  exact ⟨fun h => h.nid, fun h => ⟨h, clear, hopen, hsame, hgt, hless⟩⟩

/-- **A relayed PDU can be read exactly when its NID is the one of the
credential it goes out under**: it is bridged, or it was received with
friendship credentials or with the key set that the subnet transmits with,
or both key sets have one NID. -/
theorem relayed_decodable_iff (hlaw : crypto.Lawful)
    (hdec : (btMeshNetDecode crypto cfg node netIf pdu caches).2 = .ok rx)
    (hsub : bridge = false → rxSub crypto cfg node caches netIf pdu = some sub)
    (hr : btMeshNetRelay crypto cfg st node adv sub rx.out rx bridge = some r) :
    Decodable crypto cfg sub.txCred (node.iviRx (node.oldIv pdu)) rx.out r.pdu ↔
      bridge = true ∨ rx.friendCred = true ∨ rx.newKey = sub.krPhase2 ∨
        sub.keys.1.msg.nid = sub.keys.2.msg.nid := by
  rw [decodable_iff_nid hlaw hdec hr]
  cases hbridge : bridge with
  | true => simp
  | false =>
    cases hflood : rx.friendCred with
    | true => simp
    | false =>
      obtain ⟨hnid, -⟩ := nidOf_received hlaw hdec (hsub hbridge) hflood
      rw [hnid, Subnet.txCred]
      -- the key set it was received with, and the one transmitted with
      cases rx.newKey <;> cases sub.krPhase2 <;> simp [eq_comm]

/-! ## One PDU

A Friend Request of TTL 5 on a subnet in key refresh: the ciphers are given
by their values on it and on what it is relayed as. -/

/-- The destination and the transport PDU in clear. -/
def relayClear : Bytes := [0xff, 0xfd] ++ samplePayload

/-- What the ciphers make of the sample under one credential and nonce. -/
structure Sealed where
  cred : NetCred
  nonce : Bytes
  cipher : Bytes
  pecb : Bytes
  length_cipher : cipher.length = 21 := by decide
  length_pecb : pecb.length = 16 := by decide

/-- AES and AES-CCM on the samples, failing on all else. -/
def sealedCrypto (l : List Sealed) : NetCrypto where
  encrypt key block :=
    (l.find? fun s => s.cred.privacy == key &&
      block == List.replicate 5 0 ++ [0x12, 0x34, 0x56, 0x78] ++ s.cipher.take 7).map (·.pecb)
  ccmEncrypt key nonce plain mic :=
    if plain = relayClear ∧ mic = 8 then
      (l.find? fun s => s.cred.enc == key && s.nonce == nonce).map (·.cipher)
    else none
  ccmDecrypt key nonce cipher mic :=
    if mic = 8 ∧ l.any (fun s => s.cred.enc == key && s.nonce == nonce && s.cipher == cipher) then
      some relayClear
    else none

theorem sealedCrypto_lawful (l : List Sealed) : (sealedCrypto l).Lawful where
  length_encrypt h := by
    obtain ⟨s, -, rfl⟩ := Option.map_eq_some_iff.mp h
    exact s.length_pecb
  length_ccmEncrypt h := by
    obtain ⟨⟨rfl, rfl⟩, hfind⟩ := Option.ite_none_right_eq_some.mp h
    obtain ⟨s, -, rfl⟩ := Option.map_eq_some_iff.mp hfind
    exact s.length_cipher
  ccmDecrypt_ccmEncrypt h := by
    obtain ⟨⟨rfl, rfl⟩, hfind⟩ := Option.ite_none_right_eq_some.mp h
    obtain ⟨s, hs, rfl⟩ := Option.map_eq_some_iff.mp hfind
    have hmatch := find?_some hs
    refine if_pos ⟨rfl, any_eq_true.mpr ⟨s, mem_of_find?_eq_some hs, ?_⟩⟩
    rw [hmatch, BEq.rfl]
    rfl

/-- The credential of the new key set. -/
def sampleNewCred : NetCred where
  nid := 0x7f
  enc := [0x9f, 0x58, 0x91, 0x81, 0xa0, 0xf5, 0x0d, 0xe7, 0x3c, 0x80, 0x70, 0xc7, 0xa6,
          0xd2, 0x7f, 0x46]
  privacy := [0x4c, 0x71, 0x5b, 0xd4, 0xa6, 0x4b, 0x93, 0x8f, 0x99, 0xb4, 0x53, 0x35, 0x16,
              0x53, 0x12, 0x4f]

/-- The sample as it is received, and as either key set would relay it. -/
def relaySamples : List Sealed :=
  [{ cred := sampleCred
     nonce := [0x00, 0x85, 0x00, 0x00, 0x01, 0x12, 0x01, 0x00, 0x00, 0x12, 0x34, 0x56, 0x78]
     cipher := [0x4a, 0x4b, 0x1e, 0x70, 0x92, 0xdb, 0x8a, 0x32, 0x5a, 0x96, 0xb7, 0x2e, 0x92,
                0x51, 0x3e, 0x0b, 0xa4, 0x85, 0xfa, 0x70, 0xd3]
     pecb := [0x7c, 0xbc, 0x42, 0x7b, 0x00, 0xf5, 0x4e, 0xe8, 0xf8, 0x3e, 0x21, 0x00, 0xdd,
              0xd8, 0x5a, 0xdb] },
   { cred := sampleCred
     nonce := [0x00, 0x84, 0x00, 0x00, 0x01, 0x12, 0x01, 0x00, 0x00, 0x12, 0x34, 0x56, 0x78]
     cipher := [0x02, 0x95, 0xb6, 0x39, 0x62, 0xbc, 0xac, 0xe5, 0x8c, 0xc5, 0xbe, 0x67, 0x47,
                0xbb, 0x9c, 0xbd, 0x57, 0x69, 0x1e, 0xb7, 0x9d]
     pecb := [0xc5, 0x79, 0x1a, 0xbf, 0xa6, 0x12, 0x48, 0x2e, 0xf0, 0x92, 0x3a, 0xe2, 0x02,
              0xde, 0x07, 0x6f] },
   { cred := sampleNewCred
     nonce := [0x00, 0x84, 0x00, 0x00, 0x01, 0x12, 0x01, 0x00, 0x00, 0x12, 0x34, 0x56, 0x78]
     cipher := [0x1b, 0xaa, 0xe0, 0xf6, 0x3f, 0xbe, 0x6d, 0xfb, 0xf3, 0x7b, 0x21, 0x61, 0x1a,
                0x0b, 0x3e, 0xda, 0xfd, 0xb9, 0xbc, 0x95, 0x24]
     pecb := [0xaa, 0x51, 0xd0, 0xbe, 0x46, 0x3d, 0x31, 0xb6, 0x5b, 0x65, 0x41, 0x70, 0x2c,
              0xd9, 0xba, 0x74] }]

/-- The sample on air, under the old key set. -/
def relaySamplePdu : Bytes :=
  [0x68, 0xf9, 0xbc, 0x42, 0x7a, 0x12, 0xf4, 0x4a, 0x4b, 0x1e, 0x70, 0x92, 0xdb,
   0x8a, 0x32, 0x5a, 0x96, 0xb7, 0x2e, 0x92, 0x51, 0x3e, 0x0b, 0xa4, 0x85, 0xfa,
   0x70, 0xd3]

/-- A node whose subnet holds both key sets and transmits with the new one
in phase 2. -/
def relaySampleNode (phase2 : Bool) : NetNode where
  ivIndex := 0x12345678
  hasAddr := (· == 0x0003)
  subnets :=
    [{ netIdx := 0, krPhase2 := phase2, keys := (⟨true, sampleCred⟩, ⟨true, sampleNewCred⟩) }]

/-- In phase 1 the sample is relayed under the key set it came with. -/
theorem relayed_phase1 :
    let node := relaySampleNode false
    ∃ rx sub r,
      (btMeshNetDecode (sealedCrypto relaySamples) {} node .adv relaySamplePdu
        (netCachesInit 10)).2 = .ok rx ∧
      btMeshNetRelay (sealedCrypto relaySamples) {} { relay := true } node true sub rx.out rx
        false = some r ∧
      Decodable (sealedCrypto relaySamples) {} sub.txCred (node.iviRx false) rx.out r.pdu := by
  have hrun : ∃ rx sub r,
      (btMeshNetDecode (sealedCrypto relaySamples) {} (relaySampleNode false) .adv relaySamplePdu
        (netCachesInit 10)).2 = .ok rx ∧
      rxSub (sealedCrypto relaySamples) {} (relaySampleNode false) (netCachesInit 10) .adv
        relaySamplePdu = some sub ∧
      btMeshNetRelay (sealedCrypto relaySamples) {} { relay := true } (relaySampleNode false) true
        sub rx.out rx false = some r ∧ rx.newKey = sub.krPhase2 :=
    ⟨_, _, _, rfl, rfl, rfl, by decide +kernel⟩
  obtain ⟨rx, sub, r, hdec, hsub, hr, hkey⟩ := hrun
  exact ⟨rx, sub, r, hdec, hr, (relayed_decodable_iff (sealedCrypto_lawful _) hdec (fun _ => hsub)
    hr).mpr (.inr (.inr (.inl hkey)))⟩

/-- **In phase 2 it is relayed under the new key set, with the NID of the
old one.** -/
theorem relayed_under_other_nid :
    let node := relaySampleNode true
    ∃ rx sub r,
      (btMeshNetDecode (sealedCrypto relaySamples) {} node .adv relaySamplePdu
        (netCachesInit 10)).2 = .ok rx ∧
      rxSub (sealedCrypto relaySamples) {} node (netCachesInit 10) .adv relaySamplePdu = some sub ∧
      btMeshNetRelay (sealedCrypto relaySamples) {} { relay := true } node true sub rx.out rx
        false = some r ∧
      r.adv = true ∧ sub.txCred = sampleNewCred ∧ nidOf r.pdu = sampleCred.nid ∧
      ¬ Decodable (sealedCrypto relaySamples) {} sub.txCred (node.iviRx false) rx.out r.pdu :=
  ⟨_, _, _, rfl, rfl, rfl, by decide +kernel, by decide +kernel, by decide +kernel,
    fun h => absurd h.nid (by decide +kernel)⟩

end Mesh

end OpenBlue

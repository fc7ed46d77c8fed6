import OpenBlue.Mesh.IvIndex
import OpenBlue.Mesh.Model.NetPdu
/-!
# Mesh — what a network PDU carries is read back

A PDU that one node encodes is decoded by another that holds the
credential. Obfuscation masks bytes 1 to 6 with a mask drawn from what
lies behind them, so applying it again takes it off; only then can the
length of the MIC and the nonce be read, from the first seven bytes,
which encryption leaves alone.

Two things stop a PDU on its way to its credential, both by design: the
duplicate caches, on the advertising bearer, and an earlier credential
with the same NID that also authenticates it.
-/

namespace OpenBlue

namespace Mesh

open List NetNode

variable {crypto : NetCrypto} {cfg : PduCfg} {netCfg : NetCfg} {lpn : Option Lpn}
variable {node : NetNode} {caches : NetCaches} {netIf : NetIf} {tx : PduTx} {cred : NetCred}
variable {key buf out pdu rest payload : Bytes} {iv seq : UInt32} {type : NonceType}

/-! ## Bits of a byte -/

theorem forall_uint8 {p : UInt8 → Prop} (h : ∀ n : Fin 256, p (UInt8.ofFin n)) (n : UInt8) :
    p n := h n.toFin

theorem first_byte {nid : UInt8} (h : nid < 0x80) (iv : UInt32) :
    ((nid ||| ((iv &&& 1) <<< 7).toUInt8) >>> 7).toUInt32 = iv &&& 1 ∧
      (nid ||| ((iv &&& 1) <<< 7).toUInt8) &&& 0x7f = nid := by
  have hbit : iv &&& 1 = 0 ∨ iv &&& 1 = 1 := by
    rw [← UInt32.toNat_inj, ← UInt32.toNat_inj, UInt32.toNat_and, UInt32.toNat_one,
      Nat.and_one_is_mod]
    exact Nat.mod_two_eq_zero_or_one _
  have hall : ∀ b : Bool, ∀ n : UInt8, n < 0x80 →
      ((n ||| (b.toUInt32 <<< 7).toUInt8) >>> 7).toUInt32 = b.toUInt32 ∧
        (n ||| (b.toUInt32 <<< 7).toUInt8) &&& 0x7f = n :=
    fun b => forall_uint8 (by revert b; decide +kernel)
  obtain h0 | h1 := hbit
  · rw [h0]
    exact hall false nid h
  · rw [h1]
    exact hall true nid h

theorem second_byte (ctl : Bool) {ttl : UInt8} (h : ttl < 0x80) :
    (((if ctl then ttl ||| 0x80 else ttl) >>> 7 != 0) = ctl) ∧
      (if ctl then ttl ||| 0x80 else ttl) &&& 0x7f = ttl ∧
      ((if ctl then ttl ||| 0x80 else ttl) &&& 0x80 ≠ 0 ↔ ctl) := by
  have hall : ∀ b : Bool, ∀ n : UInt8, n < 0x80 → (((if b then n ||| 0x80 else n) >>> 7 != 0) = b) ∧
        (if b then n ||| 0x80 else n) &&& 0x7f = n ∧
        ((if b then n ||| 0x80 else n) &&& 0x80 ≠ 0 ↔ b) :=
    fun b => forall_uint8 (by revert b; decide +kernel)
  exact hall ctl ttl h

/-! ## The header -/

@[simp] theorem length_netHeader (tx : PduTx) (nid : UInt8) (iv seq : UInt32) :
    (netHeader tx nid iv seq).length = netHdrLen := by
  simp [netHeader, netHdrLen]

theorem srcOf_netHeader (nid : UInt8) : srcOf (netHeader tx nid iv seq ++ rest) = tx.src.toNat := by
  have hsrc : (beBytes 2 tx.src.toNat ++ (beBytes 2 tx.addr.toNat ++ rest)).take 2 =
      beBytes 2 tx.src.toNat := take_left' (length_beBytes 2 _)
  have hdrop : (netHeader tx nid iv seq ++ rest).drop 5 =
      beBytes 2 tx.src.toNat ++ (beBytes 2 tx.addr.toNat ++ rest) := by
    simp only [netHeader, cons_append, nil_append, append_assoc, drop_succ_cons]
    exact drop_left' (length_beBytes 3 _)
  rw [srcOf, hdrop, hsrc, beNat_beBytes tx.src.toNat_lt]

theorem dstOf_netHeader (nid : UInt8) :
    dstOf (netHeader tx nid iv seq ++ rest) = tx.addr.toNat := by
  have hdrop : (netHeader tx nid iv seq ++ rest).drop 7 = beBytes 2 tx.addr.toNat ++ rest := by
    have hlen : (beBytes 3 seq.toNat ++ beBytes 2 tx.src.toNat).length = 5 := by simp
    simp only [netHeader, cons_append, nil_append, append_assoc, drop_succ_cons]
    rw [← append_assoc]
    exact drop_left' hlen
  rw [dstOf, hdrop, take_left' (length_beBytes 2 _), beNat_beBytes tx.addr.toNat_lt]

theorem seqOf_netHeader (nid : UInt8) (h : seq.toNat < 2 ^ 24) :
    seqOf (netHeader tx nid iv seq ++ rest) = seq.toNat := by
  have hdrop : (netHeader tx nid iv seq ++ rest).drop 2 =
      beBytes 3 seq.toNat ++ (beBytes 2 tx.src.toNat ++ (beBytes 2 tx.addr.toNat ++ rest)) := by
    simp only [netHeader, cons_append, nil_append, append_assoc, drop_succ_cons, drop_zero]
  rw [seqOf, hdrop, take_left' (length_beBytes 3 _), beNat_beBytes h]

theorem nidOf_netHeader {nid : UInt8} (h : nid < 0x80) :
    nidOf (netHeader tx nid iv seq ++ rest) = nid := (first_byte h iv).2

theorem iviOf_netHeader {nid : UInt8} (h : nid < 0x80) :
    (iviOf (netHeader tx nid iv seq ++ rest)).toUInt32 = iv &&& 1 := (first_byte h iv).1

theorem ctlOf_netHeader (nid : UInt8) (h : tx.sendTtl < 0x80) :
    (ctlOf (netHeader tx nid iv seq ++ rest) != 0) = tx.ctl := (second_byte tx.ctl h).1

theorem ttlOf_netHeader (nid : UInt8) (h : tx.sendTtl < 0x80) :
    ttlOf (netHeader tx nid iv seq ++ rest) = tx.sendTtl := (second_byte tx.ctl h).2.1

/-- `NET_MIC_LEN` of a PDU that is to be sent. -/
def PduTx.micLen (tx : PduTx) : ℕ := if tx.ctl then 8 else 4

theorem netMicLen_netHeader (nid : UInt8) (h : tx.sendTtl < 0x80) :
    netMicLen (netHeader tx nid iv seq ++ rest) = tx.micLen := by
  have hmic : ∀ b : UInt8, (b &&& 0x80 ≠ 0 ↔ tx.ctl) →
      (if b &&& 0x80 ≠ 0 then 8 else 4) = tx.micLen := fun b hb => by
    rw [PduTx.micLen]
    exact if_congr hb rfl rfl
  exact hmic _ (second_byte tx.ctl h).2.2

/-! ## Obfuscation -/

theorem zipWith_xor_xor (l k : Bytes) (h : l.length ≤ k.length) :
    zipWith (· ^^^ ·) (zipWith (· ^^^ ·) l k) k = l := by
  induction l generalizing k with
  | nil => rfl
  | cons a l ih =>
    cases k with
    | nil => exact absurd h (Nat.not_succ_le_zero _)
    | cons b k =>
      have hle : l.length ≤ k.length := Nat.le_of_succ_le_succ h
      simp only [zipWith_cons_cons, ih k hle, UInt8.xor_assoc, UInt8.xor_self, UInt8.xor_zero]

theorem masked_parts {a m r : Bytes} (ha : a.length = 1) (hm : m.length = 6) :
    (a ++ m ++ r).take 1 = a ∧ ((a ++ m ++ r).drop 1).take 6 = m ∧ (a ++ m ++ r).drop 7 = r := by
  refine ⟨?_, ?_, ?_⟩
  · rw [append_assoc, take_left' ha]
  · rw [append_assoc, drop_left' ha, take_left' hm]
  · exact drop_left' (by rw [length_append, ha, hm])

theorem parts_masked (pdu : Bytes) : pdu.take 1 ++ (pdu.drop 1).take 6 ++ pdu.drop 7 = pdu := by
  have hsplit : (pdu.drop 1).take 6 ++ pdu.drop 7 = pdu.drop 1 := by
    rw [show 7 = 1 + 6 from rfl, ← drop_drop, take_append_drop]
  rw [append_assoc, hsplit, take_append_drop]

/-- **Obfuscation leaves the first byte and what lies behind the mask**,
and a second pass gives the PDU back. -/
theorem obfuscate_spec (hlaw : crypto.Lawful) (hlen : 7 ≤ pdu.length)
    (h : btMeshNetObfuscate crypto pdu iv key = some out) :
    out.take 1 = pdu.take 1 ∧ out.length = pdu.length ∧
      btMeshNetObfuscate crypto out iv key = some pdu := by
  rw [btMeshNetObfuscate, Option.bind_eq_bind, Option.bind_eq_some_iff] at h
  obtain ⟨tmp, htmp, hout⟩ := h
  obtain rfl := Option.some.inj hout
  have hfirst : (pdu.take 1).length = 1 := by
    rw [length_take]
    omega
  have hmid : ((pdu.drop 1).take 6).length = 6 := by
    rw [length_take, length_drop]
    omega
  have hmask : (zipWith (· ^^^ ·) ((pdu.drop 1).take 6) tmp).length = 6 := by
    rw [length_zipWith, hmid, hlaw.length_encrypt htmp]
    rfl
  obtain ⟨htake, hdrop, htail⟩ :=
    masked_parts (r := pdu.drop 7) hfirst hmask
  refine ⟨htake, ?_, ?_⟩
  · rw [length_append, length_append, hfirst, hmask, length_drop]
    omega
  · have hrand : privRand (pdu.take 1 ++ zipWith (· ^^^ ·) ((pdu.drop 1).take 6) tmp ++
        pdu.drop 7) iv = privRand pdu iv := by
      rw [privRand, htail, privRand]
    rw [btMeshNetObfuscate, hrand, htmp, Option.bind_eq_bind, Option.bind_some, htake, hdrop,
      htail, zipWith_xor_xor _ tmp (by rw [hmid, hlaw.length_encrypt htmp]; decide),
      parts_masked pdu]
    rfl

/-! ## Encryption -/

theorem slice_of_take {a b : Bytes} {i n : ℕ} (h : a.take 7 = b.take 7) (hle : n + i ≤ 7) :
    (a.drop i).take n = (b.drop i).take n := by
  have hcut : ∀ l : Bytes, (l.drop i).take n = ((l.take 7).take (n + i)).drop i := fun l => by
    rw [take_drop, take_take, Nat.min_eq_left hle, Nat.add_comm]
  rw [hcut a, hcut b, h]

theorem getD_of_take {a b : Bytes} {i n : ℕ} (h : a.take n = b.take n) (hlt : i < n) :
    a.getD i 0 = b.getD i 0 := by
  have hget : ∀ l : Bytes, l.getD i 0 = (l.take n).getD i 0 := fun l => by
    rw [getD_eq_getElem?_getD, getD_eq_getElem?_getD, getElem?_take_of_lt hlt]
  rw [hget a, hget b, h]

theorem netMicLen_of_take {a b : Bytes} (h : a.take 7 = b.take 7) : netMicLen a = netMicLen b := by
  rw [netMicLen, netMicLen, getD_of_take h (by decide)]

theorem netNonce_of_take {a b : Bytes} (h : a.take 7 = b.take 7) (proxy sol : Bool) :
    netNonce proxy sol a iv type = netNonce proxy sol b iv type := by
  have hsix : (a.drop 1).take 6 = (b.drop 1).take 6 := slice_of_take h (by decide)
  have hfive : (a.drop 2).take 5 = (b.drop 2).take 5 := slice_of_take h (by decide)
  cases type <;>
    simp only [netNonce, createNetNonce, createProxyNonce, createProxySolNonce, hsix, hfive]

theorem netNonce_sol (hsol : type ≠ .solicitation) (proxy sol sol' : Bool) (pdu : Bytes) :
    netNonce proxy sol pdu iv type = netNonce proxy sol' pdu iv type := by
  cases type with
  | network => rfl
  | proxy => rfl
  | solicitation => exact absurd rfl hsol

/-- **Encryption leaves the first seven bytes**, and the other end gets
the rest back with them. -/
theorem encrypt_spec (hlaw : crypto.Lawful) (hsol : type ≠ .solicitation)
    (hlen : 7 ≤ buf.length) (h : btMeshNetEncrypt crypto cfg key buf iv type = some out) :
    out.take 7 = buf.take 7 ∧ out.length = buf.length + netMicLen buf ∧
      btMeshNetDecrypt crypto cfg key out iv type = some buf := by
  rw [btMeshNetEncrypt, Option.bind_eq_bind, Option.bind_eq_some_iff] at h
  obtain ⟨c, hc, hout⟩ := h
  obtain rfl := Option.some.inj hout
  have hseven : (buf.take 7).length = 7 := by
    rw [length_take]
    omega
  have htake : (buf.take 7 ++ c).take 7 = buf.take 7 := take_left' hseven
  refine ⟨htake, ?_, ?_⟩
  · rw [length_append, hseven, hlaw.length_ccmEncrypt hc, length_drop]
    omega
  · rw [netNonce_sol hsol cfg.proxy _ cfg.solicitation] at hc
    rw [btMeshNetDecrypt, netNonce_of_take htake, netMicLen_of_take htake,
      drop_left' hseven, hlaw.ccmDecrypt_ccmEncrypt hc, htake, Option.bind_eq_bind,
      Option.bind_some, take_append_drop]
    rfl

/-! ## One credential -/

/-- The nonce type of what comes in on an interface. -/
def NetIf.nonceType (netIf : NetIf) : NonceType :=
  if netIf = .proxyCfg then .proxy else .network

theorem NetIf.nonceType_ne (netIf : NetIf) : netIf.nonceType ≠ .solicitation := by
  cases netIf <;> decide

theorem oldIv_of_take {a b : Bytes} (h : a.take 1 = b.take 1) : node.oldIv a = node.oldIv b := by
  rw [oldIv, oldIv, iviOf, iviOf, getD_of_take h (by decide)]

theorem nidOf_of_take {a b : Bytes} (h : a.take 1 = b.take 1) : nidOf a = nidOf b := by
  rw [nidOf, nidOf, getD_of_take h (by decide)]

theorem take_one_of_take {a b : Bytes} (h : a.take 7 = b.take 7) : a.take 1 = b.take 1 := by
  have hcut : ∀ l : Bytes, l.take 1 = (l.take 7).take 1 := fun l => by
    rw [take_take]
    rfl
  rw [hcut a, hcut b, h]

theorem msgCacheMatch_of_take {a b : Bytes} (h : a.take 7 = b.take 7) :
    msgCacheMatch a caches = msgCacheMatch b caches := by
  rw [msgCacheMatch, msgCacheMatch, srcOf, srcOf, seqOf, seqOf,
    slice_of_take h (show 2 + 5 ≤ 7 by decide), slice_of_take h (show 3 + 2 ≤ 7 by decide)]

/-- **The credential a PDU was made with opens it**: the mask comes off
first, then the MIC length and the nonce are the sender's. -/
theorem netDecrypt_netEncrypt (hlaw : crypto.Lawful) (hlen : 7 ≤ buf.length)
    (henc : netEncrypt crypto cfg buf cred iv netIf.nonceType = some pdu)
    (hnid : nidOf buf = cred.nid) (hiv : node.iviRx (node.oldIv buf) = iv)
    (hsrc : isUnicast (srcOf buf) = true) (hlocal : node.hasAddr (srcOf buf) = false)
    (hnew : netIf = .adv → msgCacheMatch buf caches = false) :
    pdu.length = buf.length + netMicLen buf ∧
      ∃ o, netDecrypt crypto cfg node caches netIf pdu cred = some o ∧
        o.out = buf ∧ o.addr = srcOf buf := by
  rw [netEncrypt, Option.bind_eq_bind, Option.bind_eq_some_iff] at henc
  obtain ⟨enc, hencrypt, hobf⟩ := henc
  obtain ⟨htake, hlenEnc, hdec⟩ := encrypt_spec hlaw netIf.nonceType_ne hlen hencrypt
  obtain ⟨hfirst, hlenPdu, hdeobf⟩ := obfuscate_spec hlaw (by omega) hobf
  have hfirst' : pdu.take 1 = buf.take 1 := hfirst.trans (take_one_of_take htake)
  have hsrcEnc : srcOf enc = srcOf buf := by
    rw [srcOf, srcOf, slice_of_take htake (by decide)]
  have hseen : (netIf == .adv && msgCacheMatch enc caches) = false := by
    rw [msgCacheMatch_of_take htake]
    cases netIf with
    | adv => exact hnew rfl
    | loopback | proxy | proxyCfg => rfl
  refine ⟨by omega, ⟨buf, node.oldIv pdu, srcOf enc, hsrcEnc ▸ hsrc⟩, ?_, rfl, hsrcEnc⟩
  rw [netDecrypt, if_neg (not_not.2 ((nidOf_of_take hfirst').trans hnid))]
  simp only [oldIv_of_take hfirst', hiv, hdeobf, Option.bind_some]
  rw [dif_pos (hsrcEnc ▸ hsrc), if_neg (by rw [hsrcEnc, hlocal]; decide),
    if_neg (by rw [hseen]; decide)]
  rw [NetIf.nonceType] at hdec
  rw [hdec]
  rfl

/-! ## The sender -/

theorem nextSeq_spec (netCfg : NetCfg) (net : Net) :
    (nextSeq netCfg net).2 = net.seq ∧ (nextSeq netCfg net).1.iviTx = net.iviTx := by
  refine ⟨?_, (netStep_keeps (not_resetsSeq_transmit netCfg net)).1⟩
  rw [nextSeq]
  split <;> rfl

/-- **An encoded PDU** is the header in front of the payload, encrypted
under the transmit index of the node. -/
theorem netEncrypt_of_encode {net : Net} {tailroom : ℕ}
    (h : (btMeshNetEncode crypto cfg netCfg lpn tx tailroom payload type net).2 = .ok pdu) :
    netEncrypt crypto cfg (netHeader tx (netTxCredGet cfg lpn tx).nid net.iviTx net.seq ++ payload)
      (netTxCredGet cfg lpn tx) net.iviTx type = some pdu := by
  obtain ⟨hseq, hiv⟩ := nextSeq_spec netCfg net
  rw [btMeshNetEncode, netHeaderEncode] at h
  by_cases hctl : (tx.ctl && decide (tailroom < 8)) = true
  · rw [if_pos hctl] at h
    exact absurd h nofun
  by_cases htail : tailroom < 4
  · rw [if_neg hctl, if_pos htail] at h
    exact absurd h nofun
  rw [if_neg hctl, if_neg htail] at h
  simp only [hseq, hiv] at h
  split at h
  · exact absurd h nofun
  next pdu' hpdu =>
    rw [hpdu, Except.ok.inj h]

/-! ## The receiver -/

theorem Ring.search_eq_true {α : Type} (r : Ring α) (p : α → Bool) :
    r.search p = true ↔ ∃ a ∈ r.entries, p a = true := by
  rw [Ring.search, Bool.or_eq_true, any_reverse, any_reverse, ← Bool.or_eq_true,
    ← any_append, take_append_drop, any_eq_true]

/-- The PDU is not one that the duplicate caches hold: neither its last
eight bytes, folded, nor its source and the low bits of its sequence
number. -/
structure Unheard (caches : NetCaches) (pdu : Bytes) (src seq : ℕ) : Prop where
  dup : dupValue pdu ∉ caches.dup.entries
  msg : (src, seq % 2 ^ 17) ∉ caches.msg.entries

theorem Unheard.search_dup {src seq : ℕ} (h : Unheard caches pdu src seq) :
    caches.dup.search (· == dupValue pdu) = false := by
  rw [← Bool.not_eq_true, Ring.search_eq_true]
  rintro ⟨a, ha, heq⟩
  exact h.dup (beq_iff_eq.1 heq ▸ ha)

theorem Unheard.msgCacheMatch (h : Unheard caches pdu (srcOf buf) (seqOf buf)) :
    msgCacheMatch buf caches = false := by
  rw [Mesh.msgCacheMatch, ← Bool.not_eq_true, Ring.search_eq_true]
  rintro ⟨a, ha, heq⟩
  obtain ⟨hsrc, hseq⟩ := Bool.and_eq_true_iff.1 heq
  exact h.msg (beq_iff_eq.1 hsrc ▸ beq_iff_eq.1 hseq ▸ ha)

theorem netDecrypt_congr {caches caches' : NetCaches} (h : caches.msg = caches'.msg) :
    netDecrypt crypto cfg node caches netIf pdu cred =
      netDecrypt crypto cfg node caches' netIf pdu cred := by
  have hmatch : ∀ out, msgCacheMatch out caches = msgCacheMatch out caches' := fun out => by
    rw [msgCacheMatch, h, msgCacheMatch]
  simp only [netDecrypt, hmatch]

/-- **The first credential that opens a PDU is the one found.** -/
theorem credFind_of_before {before after : List Candidate} {c : Candidate} {o : OpenedPdu}
    (hheld : node.candidates cfg = before ++ c :: after)
    (hbefore : ∀ b ∈ before, netDecrypt crypto cfg node caches netIf pdu b.cred = none)
    (ho : netDecrypt crypto cfg node caches netIf pdu c.cred = some o) :
    btMeshNetCredFind crypto cfg node caches netIf pdu = some (c, o) := by
  have hnone : before.findSome? (fun b =>
      (netDecrypt crypto cfg node caches netIf pdu b.cred).map (b, ·)) = none :=
    findSome?_eq_none_iff.2 fun b hb => by rw [hbefore b hb]; rfl
  rw [btMeshNetCredFind, hheld, findSome?_append, hnone, Option.none_or, findSome?_cons, ho]
  rfl

/-- **A PDU of legal length, not heard before, is what its credential
makes of it**, where it has a destination. -/
theorem decode_of_find {c : Candidate} {o : OpenedPdu}
    (hmin : netMinPduLen ≤ pdu.length) (hmax : pdu.length ≤ netMaxPduLen)
    (hnew : netIf = .adv → caches.dup.search (· == dupValue pdu) = false)
    (hfind : ∀ caches' : NetCaches, caches'.msg = caches.msg →
      btMeshNetCredFind crypto cfg node caches' netIf pdu = some (c, o)) (hdst : dstOf o.out ≠ 0) :
    ∃ caches', btMeshNetDecode crypto cfg node netIf pdu caches =
      (caches', .ok (decodedOf netIf c o)) := by
  have hfirst : ∃ caches' : NetCaches, caches'.msg = caches.msg ∧
      (if netIf = .adv then checkDup pdu caches else (caches, false)) = (caches', false) := by
    by_cases hadv : netIf = .adv
    · refine ⟨{ caches with dup := caches.dup.push (dupValue pdu) }, rfl, ?_⟩
      rw [if_pos hadv, checkDup, hnew hadv]
      rfl
    · exact ⟨caches, rfl, if_neg hadv⟩
  obtain ⟨caches', hmsg, hdup⟩ := hfirst
  refine ⟨msgCacheAdd o.addr (seqOf o.out) caches', ?_⟩
  rw [btMeshNetDecode, if_neg (Nat.not_lt.2 hmin), if_neg (Nat.not_lt.2 hmax), hdup]
  simp only [hfind caches' hmsg]
  rw [if_neg (by decide), if_neg fun hbad => hdst hbad.2]
  rfl

/-! ## Both together -/

/-- The IV index the parity rule selects for a PDU sent under `iv`. -/
def NetNode.selectedIndex (node : NetNode) (iv : UInt32) : UInt32 :=
  node.iviRx ((iv &&& 1) != (node.ivIndex &&& 1))

/-- **The rule selects the sender's index** when the receiver is at that
index or one beyond it. -/
theorem selectedIndex_eq_iff (node : NetNode) (iv : UInt32) :
    node.selectedIndex iv = iv ↔ node.ivIndex = iv ∨ node.ivIndex = iv + 1 := by
  have hpar : ∀ a : UInt32, (a &&& 1).toNat = a.toNat % 2 := fun a => by
    rw [UInt32.toNat_and, UInt32.toNat_one, Nat.and_one_is_mod]
  have hadd : (iv + 1).toNat = (iv.toNat + 1) % 2 ^ 32 := UInt32.toNat_add iv 1
  have hsucc : iv &&& 1 ≠ (iv + 1) &&& 1 := by
    rw [Ne, ← UInt32.toNat_inj, hpar, hpar, hadd]
    omega
  rw [selectedIndex, iviRx]
  by_cases heq : iv &&& 1 = node.ivIndex &&& 1
  · have hne : node.ivIndex ≠ iv + 1 := fun h => hsucc (h ▸ heq)
    rw [bne_eq_false_iff_eq.2 heq, if_neg (by decide), UInt32.sub_zero]
    exact ⟨Or.inl, fun h => h.resolve_right hne⟩
  · have hne : node.ivIndex ≠ iv := fun h => heq (h ▸ rfl)
    rw [bne_iff_ne.2 heq, if_pos rfl]
    constructor
    · intro h
      exact .inr (by rw [← h, UInt32.sub_add_cancel])
    · rintro (h | h)
      · exact absurd h hne
      · rw [h, UInt32.add_sub_cancel]

/-- The lengths of a transport PDU that the network layer carries: with
header and MIC 18 to 29 bytes. -/
def PduTx.Legal (tx : PduTx) (payload : Bytes) : Prop :=
  if tx.ctl then 1 ≤ payload.length ∧ payload.length ≤ 12
  else 5 ≤ payload.length ∧ payload.length ≤ 16

instance (tx : PduTx) (payload : Bytes) : Decidable (tx.Legal payload) :=
  inferInstanceAs (Decidable (if tx.ctl then 1 ≤ payload.length ∧ payload.length ≤ 12
    else 5 ≤ payload.length ∧ payload.length ≤ 16))

theorem PduTx.Legal.length_bounds (h : tx.Legal payload) :
    netMinPduLen ≤ netHdrLen + payload.length + tx.micLen ∧
      netHdrLen + payload.length + tx.micLen ≤ netMaxPduLen := by
  rw [PduTx.Legal] at h
  rw [PduTx.micLen, netMinPduLen, netMaxPduLen, netHdrLen]
  by_cases hctl : tx.ctl = true
  · rw [if_pos hctl] at h ⊢
    omega
  · rw [if_neg hctl] at h ⊢
    omega

/-- A PDU that one node has encoded and another gets to decode: what the
sender may put in, and what is asked of the receiver but for the
credential. -/
structure Transmission where
  crypto : NetCrypto
  cfg : PduCfg
  netCfg : NetCfg
  /-- The sender's friendship. -/
  lpn : Option Lpn
  tx : PduTx
  tailroom : ℕ
  payload : Bytes
  /-- The sender's network state. -/
  net : Net
  /-- The interface the PDU comes in on. -/
  netIf : NetIf
  /-- The receiver. -/
  node : NetNode
  pdu : Bytes
  lawful : crypto.Lawful
  encoded :
    (btMeshNetEncode crypto cfg netCfg lpn tx tailroom payload netIf.nonceType net).2 = .ok pdu
  ttl_lt : tx.sendTtl < 0x80
  seq_lt : net.seq.toNat < 2 ^ 24
  src_unicast : isUnicast tx.src.toNat = true
  src_not_local : node.hasAddr tx.src.toNat = false
  dst_ne : tx.addr ≠ 0
  legal : tx.Legal payload
  index : node.selectedIndex net.iviTx = net.iviTx

namespace Transmission

/-- The credential the sender takes. -/
def senderCred (t : Transmission) : NetCred := netTxCredGet t.cfg t.lpn t.tx

/-- What the receiver makes of the PDU. -/
def decode (t : Transmission) (caches : NetCaches) : NetCaches × Except Err Decoded :=
  btMeshNetDecode t.crypto t.cfg t.node t.netIf t.pdu caches

/-- **Decoding undoes encoding.** A node that holds the credential, whose
parity rule selects the sender's IV index, reads back CTL, TTL, SEQ, SRC,
DST and the payload, unless on the advertising bearer its duplicate caches
hold the PDU, or a credential it tries earlier opens it. -/
theorem decode_encode (t : Transmission) {before after : List Candidate} {c : Candidate}
    (hheld : t.node.candidates t.cfg = before ++ c :: after) (hcred : c.cred = t.senderCred)
    (hnew : t.netIf = .adv → Unheard caches t.pdu t.tx.src.toNat t.net.seq.toNat)
    (hbefore : ∀ b ∈ before,
      netDecrypt t.crypto t.cfg t.node caches t.netIf t.pdu b.cred = none) :
    ∃ caches' d, t.decode caches = (caches', .ok d) ∧
      d.rx.ctl = t.tx.ctl ∧ d.recvTtl = t.tx.sendTtl ∧ d.rx.seq = t.net.seq.toNat ∧
      d.rx.addr = t.tx.src.toNat ∧ d.rx.recvDst = t.tx.addr.toNat ∧ d.payload = t.payload := by
  have hkey := netEncrypt_of_encode t.encoded
  rw [← senderCred] at hkey
  set buf := netHeader t.tx t.senderCred.nid t.net.iviTx t.net.seq ++ t.payload with hbuf
  have hlen : buf.length = netHdrLen + t.payload.length := by
    rw [hbuf, List.length_append, length_netHeader]
  have hmic : netMicLen buf = t.tx.micLen := netMicLen_netHeader t.senderCred.nid t.ttl_lt
  have hsrcBuf : srcOf buf = t.tx.src.toNat := srcOf_netHeader t.senderCred.nid
  have hseqBuf : seqOf buf = t.net.seq.toNat := seqOf_netHeader t.senderCred.nid t.seq_lt
  have hdstBuf : dstOf buf = t.tx.addr.toNat := dstOf_netHeader t.senderCred.nid
  have hivBuf : t.node.iviRx (t.node.oldIv buf) = t.net.iviTx := by
    rw [NetNode.oldIv, iviOf_netHeader t.senderCred.nid_lt]
    exact t.index
  have hmsg : t.netIf = .adv → msgCacheMatch buf caches = false := fun hadv => by
    have hun := hnew hadv
    rw [← hsrcBuf, ← hseqBuf] at hun
    exact hun.msgCacheMatch
  obtain ⟨hpdu, o, ho, hout, haddr⟩ :=
    netDecrypt_netEncrypt t.lawful (by rw [hlen, netHdrLen]; omega) hkey
      (nidOf_netHeader t.senderCred.nid_lt) hivBuf (by rw [hsrcBuf]; exact t.src_unicast)
      (by rw [hsrcBuf]; exact t.src_not_local) hmsg
  rw [hlen, hmic] at hpdu
  obtain ⟨hmin, hmax⟩ := t.legal.length_bounds
  have hfind : ∀ caches' : NetCaches, caches'.msg = caches.msg →
      btMeshNetCredFind t.crypto t.cfg t.node caches' t.netIf t.pdu = some (c, o) :=
    fun caches' hsame =>
      credFind_of_before hheld (fun b hb => (netDecrypt_congr hsame).trans (hbefore b hb))
        ((netDecrypt_congr hsame).trans (hcred ▸ ho))
  obtain ⟨caches', hdec⟩ := decode_of_find (hpdu ▸ hmin) (hpdu ▸ hmax)
    (fun hadv => (hnew hadv).search_dup) hfind (by
      rw [hout, hdstBuf]
      exact fun h0 => t.dst_ne (UInt16.toNat_inj.1 h0))
  refine ⟨caches', _, hdec, ?_, ?_, ?_, haddr.trans hsrcBuf, ?_, ?_⟩
  · exact (congrArg (fun l => ctlOf l != 0) hout).trans (ctlOf_netHeader t.senderCred.nid t.ttl_lt)
  · exact (congrArg ttlOf hout).trans (ttlOf_netHeader t.senderCred.nid t.ttl_lt)
  · exact (congrArg seqOf hout).trans hseqBuf
  · exact (congrArg dstOf hout).trans hdstBuf
  · exact (congrArg (List.drop netHdrLen) hout).trans (List.drop_left' (length_netHeader _ _ _ _))

end Transmission

/-! ## One PDU

A Friend Request: the ciphers are given by their values on this PDU. -/

/-- The credential of the sample. -/
def sampleCred : NetCred where
  nid := 0x68
  enc := [0x09, 0x53, 0xfa, 0x93, 0xe7, 0xca, 0xac, 0x96,
    0x38, 0xf5, 0x88, 0x20, 0x22, 0x0a, 0x39, 0x8e]
  privacy := [0x8b, 0x84, 0xee, 0xde, 0xc1, 0x00, 0x06, 0x7d,
    0x67, 0x09, 0x71, 0xdd, 0x2a, 0xa7, 0x00, 0xcf]

/-- The nonce of the sample. -/
def sampleNonce : Bytes :=
  [0x00, 0x80, 0x00, 0x00, 0x01, 0x12, 0x01, 0x00, 0x00, 0x12, 0x34, 0x56, 0x78]

/-- Its transport PDU. -/
def samplePayload : Bytes :=
  [0x03, 0x4b, 0x50, 0x05, 0x7e, 0x40, 0x00, 0x00, 0x01, 0x00, 0x00]

/-- Destination and payload encrypted, and the MIC. -/
def sampleCipher : Bytes :=
  [0xb5, 0xe5, 0xbf, 0xda, 0xcb, 0xaf, 0x6c, 0xb7, 0xfb, 0x6b, 0xff, 0x87, 0x1f,
    0x03, 0x54, 0x44, 0xce, 0x83, 0xa6, 0x70, 0xdf]

/-- What AES makes of the Privacy Random. -/
def samplePecb : Bytes :=
  [0x6c, 0xa4, 0x87, 0x50, 0x75, 0x64, 0x01, 0x01,
    0xa9, 0xbf, 0x03, 0x58, 0xd6, 0x98, 0xcb, 0x24]

/-- AES and AES-CCM on the sample, failing on all else. With `forged` the
ciphertext passes under every other key too, as zeros. -/
def sampleCrypto (forged : Bool) : NetCrypto where
  encrypt key block :=
    if key = sampleCred.privacy ∧
        block = List.replicate 5 0 ++ [0x12, 0x34, 0x56, 0x78] ++ sampleCipher.take 7 then
      some samplePecb
    else none
  ccmEncrypt key nonce plain mic :=
    if key = sampleCred.enc ∧ nonce = sampleNonce ∧ plain = [0xff, 0xfd] ++ samplePayload ∧
        mic = 8 then
      some sampleCipher
    else none
  ccmDecrypt key nonce cipher mic :=
    if nonce = sampleNonce ∧ cipher = sampleCipher ∧ mic = 8 then
      if key = sampleCred.enc then some ([0xff, 0xfd] ++ samplePayload)
      else if forged then some ([0xff, 0xfd] ++ List.replicate 11 0)
      else none
    else none

theorem sampleCrypto_lawful (forged : Bool) : (sampleCrypto forged).Lawful where
  length_encrypt h := by
    obtain ⟨-, heq⟩ := Option.ite_none_right_eq_some.1 h
    obtain rfl := Option.some.inj heq
    rfl
  length_ccmEncrypt h := by
    obtain ⟨⟨-, -, rfl, rfl⟩, heq⟩ := Option.ite_none_right_eq_some.1 h
    obtain rfl := Option.some.inj heq
    rfl
  ccmDecrypt_ccmEncrypt h := by
    obtain ⟨⟨rfl, rfl, rfl, rfl⟩, heq⟩ := Option.ite_none_right_eq_some.1 h
    obtain rfl := Option.some.inj heq
    rfl

/-- The sample on its way to a node that tries the credentials `creds`,
advertised or through a proxy connection. -/
def sampleTransmission (forged advertised : Bool) (creds : List NetCred) : Transmission where
  crypto := sampleCrypto forged
  cfg := {}
  netCfg := {}
  lpn := none
  tx :=
    { sub := { netIdx := 0, keys := (⟨true, sampleCred⟩, ⟨false, sampleCred⟩) }
      src := 0x1201
      addr := 0xfffd
      sendTtl := 0
      appIdx := keyUnused }
  tailroom := 8
  payload := samplePayload
  net := { ivIndex := 0x12345678, seq := 1, rpl := rplInit 1 }
  netIf := if advertised then .adv else .proxy
  node :=
    { ivIndex := 0x12345678
      hasAddr := (· == 0x0003)
      subnets := creds.map fun cred =>
        { netIdx := 0, keys := (⟨true, cred⟩, ⟨false, cred⟩) } }
  pdu := [0x68, 0xec, 0xa4, 0x87, 0x51, 0x67, 0x65] ++ sampleCipher
  lawful := sampleCrypto_lawful forged
  encoded := by revert forged advertised; decide +kernel
  ttl_lt := by decide
  seq_lt := by decide
  src_unicast := by decide
  src_not_local := rfl
  dst_ne := by decide
  legal := by decide +kernel
  index := (selectedIndex_eq_iff _ _).2 (.inl rfl)

/-- Another credential with the sample's NID and Privacy Key. -/
def sampleOther : NetCred := { sampleCred with enc := List.replicate 16 0 }

/-- The sample is read back by a node that tries another credential with
its NID first. -/
theorem decode_encode_sample :
    ∃ caches' d, (sampleTransmission false true [sampleOther, sampleCred]).decode
        (netCachesInit 10) = (caches', .ok d) ∧
      d.rx.ctl = true ∧ d.recvTtl = 0 ∧ d.rx.seq = 1 ∧ d.rx.addr = 0x1201 ∧
      d.rx.recvDst = 0xfffd ∧ d.payload = samplePayload := by
  let t := sampleTransmission false true [sampleOther, sampleCred]
  have hheld : t.node.candidates t.cfg =
      [⟨sampleOther, 0, false, false⟩] ++ ⟨sampleCred, 0, false, false⟩ :: [] := rfl
  refine t.decode_encode hheld rfl (fun _ => ⟨by decide +kernel, by decide +kernel⟩) ?_
  intro b hb
  rw [List.mem_singleton.1 hb]
  decide +kernel

/-- **The caches and an earlier credential both stop a PDU.** Advertised a
second time it is dropped; advertised after it came over a proxy
connection no credential opens it; and where a credential tried earlier
authenticates it too, another payload is read. -/
theorem stopped_by_design :
    let t := sampleTransmission false true [sampleCred]
    let p := sampleTransmission false false [sampleCred]
    let f := sampleTransmission true true [sampleOther, sampleCred]
    (t.senderCred ∈ (t.node.candidates t.cfg).map (·.cred) ∧
      (t.decode (t.decode (netCachesInit 10)).1).2 = .error .inval) ∧
    (t.decode (p.decode (netCachesInit 10)).1).2 = .error .noent ∧
    (f.senderCred ∈ (f.node.candidates f.cfg).map (·.cred) ∧
      ∃ d, (f.decode (netCachesInit 10)).2 = .ok d ∧
        d.payload = List.replicate 11 0 ∧ d.payload ≠ f.payload) := by
  refine ⟨⟨by decide +kernel, by decide +kernel⟩, by decide +kernel, by decide +kernel, ?_⟩
  exact ⟨_, rfl, by decide +kernel, by decide +kernel⟩

end Mesh

end OpenBlue

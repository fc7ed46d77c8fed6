import OpenBlue.Mesh.Model.ProxyMsg
/-!
# Mesh — a proxy message over a connection

The sender pushes its header into the byte before the piece it sends, which
it has sent already, or which the caller reserved; so the pieces, without
their headers, are the message in order (`data_pushU8`, `data_pull`). The
receiver adds each behind those before it: a message comes out once and
whole, for any MTU that leaves a byte beside the header
(`proxy_sar`). What the receiver refuses leaves the role as it was.
-/

namespace OpenBlue

namespace Proxy

open List Role

variable {b msg : SimpleBuf} {role : Role} {type : UInt8} {mtu : ℕ} {pdu payload : Bytes}

/-! ## Headers -/

theorem toNat_pduHdr {sar : ℕ} (h : sar < 4) (type : UInt8) :
    (pduHdr sar type).toNat = 64 * sar + type.toNat % 64 := by
  have hlow : type.toNat % 64 < 2 ^ 6 := Nat.mod_lt _ (by decide)
  have hand : type.toNat &&& 63 = type.toNat % 64 := Nat.and_two_pow_sub_one_eq_mod _ 6
  have hshift : sar <<< 6 = 64 * sar := by
    rw [Nat.shiftLeft_eq]
    omega
  have hsar : 64 * sar % 256 = sar <<< 6 := by
    rw [hshift]
    omega
  have hmask : (0x3f : UInt8).toNat = 63 := rfl
  rw [pduHdr, UInt8.toNat_or, UInt8.toNat_and, hmask, UInt8.toNat_ofNat', hand, hshift]
  change (64 * sar % 256) ||| (type.toNat % 64) = _
  rw [hsar, ← Nat.shiftLeft_add_eq_or_of_lt hlow, hshift]

theorem pduSar_pduHdr {sar : ℕ} (h : sar < 4) (type : UInt8) : pduSar (pduHdr sar type) = sar := by
  rw [pduSar, toNat_pduHdr h, Nat.shiftRight_eq_div_pow]
  omega

theorem pduType_pduHdr {sar : ℕ} (h : sar < 4) (htype : type.toNat < 64) :
    pduType (pduHdr sar type) = type := by
  have hand : (pduHdr sar type).toNat &&& 63 = (pduHdr sar type).toNat % 64 :=
    Nat.and_two_pow_sub_one_eq_mod _ 6
  have hmask : (0x3f : UInt8).toNat = 63 := rfl
  rw [← UInt8.toNat_inj, pduType, UInt8.toNat_and, hmask, hand, toNat_pduHdr h]
  omega

/-! ## Buffers -/

namespace SimpleBuf

theorem length_data (h : b.Fits) : b.data.length = b.len := by
  unfold Fits at h
  rw [data, length_take, length_drop]
  omega

theorem data_pushU8 (hstart : 0 < b.start) (h : b.Fits) (val : UInt8) :
    (b.pushU8 val).data = val :: b.data := by
  unfold Fits at h
  have hlt : b.start - 1 < b.storage.length := by omega
  have hdrop : (b.storage.set (b.start - 1) val).drop (b.start - 1) =
      val :: b.storage.drop b.start := by
    rw [drop_eq_getElem_cons (by rw [length_set]; exact hlt), getElem_set_self,
      drop_set_of_lt (by omega), Nat.sub_add_cancel hstart]
  rw [data, pushU8, hdrop, take_succ_cons, data]

theorem fits_pushU8 (hstart : 0 < b.start) (h : b.Fits) (val : UInt8) : (b.pushU8 val).Fits := by
  unfold Fits at h ⊢
  rw [pushU8, length_set]
  dsimp only
  omega

theorem data_pull (b : SimpleBuf) (n : ℕ) : (b.pull n).data = b.data.drop n := by
  rw [data, pull, data, drop_take, drop_drop]

theorem fits_pull {n : ℕ} (hn : n ≤ b.len) (h : b.Fits) : (b.pull n).Fits := by
  unfold Fits at h ⊢
  rw [pull]
  dsimp only
  omega

theorem pull_pushU8 (hstart : 0 < b.start) (h : b.Fits) (hdr : UInt8) {n : ℕ} (hpos : 0 < n)
    (hn : n ≤ b.len) :
    ((b.pushU8 hdr).pull (n + 1)).Fits ∧ 0 < ((b.pushU8 hdr).pull (n + 1)).start ∧
      ((b.pushU8 hdr).pull (n + 1)).len = b.len - n ∧
      ((b.pushU8 hdr).pull (n + 1)).data = b.data.drop n := by
  refine ⟨fits_pull ?_ (fits_pushU8 hstart h hdr), ?_, ?_, ?_⟩
  · rw [pushU8]
    dsimp only
    omega
  · rw [pull, pushU8]
    dsimp only
    omega
  · rw [pull, pushU8]
    dsimp only
    omega
  · rw [data_pull, data_pushU8 hstart h, drop_succ_cons]

theorem data_addMem (h : b.Fits) (payload : Bytes) :
    (b.addMem payload).data = b.data ++ payload := by
  unfold Fits at h
  have hlen : (b.storage.take (b.start + b.len)).length = b.start + b.len := by
    rw [length_take]
    omega
  have hdata : (b.storage.drop b.start).take b.len =
      (b.storage.take (b.start + b.len)).drop b.start := by
    rw [drop_take, Nat.add_sub_cancel_left]
  rw [data, addMem]
  dsimp only
  rw [append_assoc, drop_append_of_le_length (by omega), ← hdata, data,
    ← append_assoc, take_append_of_le_length, take_of_length_le]
  all_goals
    simp only [length_append, length_take, length_drop]
    omega

/-- **And only there**: the storage is as long as before. -/
theorem length_addMem (h : b.Fits) (hroom : payload.length ≤ b.tailroom) :
    (b.addMem payload).storage.length = b.storage.length := by
  unfold Fits at h
  unfold tailroom at hroom
  simp only [addMem, length_append, length_take, length_drop]
  omega

theorem fits_addMem (h : b.Fits) (hroom : payload.length ≤ b.tailroom) :
    (b.addMem payload).Fits := by
  have hlen := length_addMem h hroom
  unfold Fits at h ⊢
  unfold tailroom at hroom
  rw [hlen, addMem]
  dsimp only
  omega

theorem fits_reset (b : SimpleBuf) : b.reset.Fits := Nat.zero_le _

theorem tailroom_addMem (h : b.Fits) (hroom : payload.length ≤ b.tailroom) :
    (b.addMem payload).tailroom = b.tailroom - payload.length := by
  have hlen := length_addMem h hroom
  rw [tailroom, hlen, tailroom, addMem]
  dsimp only
  omega

end SimpleBuf

/-! ## Receptions -/

theorem msgRecv_cases (role : Role) (pdu : Bytes) :
    msgRecv role pdu = role.refuse ∨
      ∃ hdr payload, pdu = hdr :: payload ∧ payload.length ≤ role.buf.tailroom ∧
        (((msgRecv role pdu).role.buf = role.buf.addMem payload ∧
            (msgRecv role pdu).delivered = []) ∨
          (msgRecv role pdu).role.buf = (role.buf.addMem payload).reset) ∧
        (msgRecv role pdu).ret = .ok pdu.length := by
  cases pdu with
  | nil => exact .inl rfl
  | cons hdr payload =>
    simp only [msgRecv]
    split
    · exact .inl rfl
    next hroom =>
      -- Each of the four kinds of piece is refused, or added to the data.
      repeat' split
      all_goals first
        | exact .inl rfl
        | exact .inr ⟨hdr, payload, rfl, by omega, .inr rfl, rfl⟩
        | exact .inr ⟨hdr, payload, rfl, by omega, .inl ⟨rfl, rfl⟩, rfl⟩

/-- **A refused PDU changes nothing.** -/
theorem msgRecv_refused {e : RecvErr} (h : (msgRecv role pdu).ret = .error e) :
    (msgRecv role pdu).role = role ∧ (msgRecv role pdu).delivered = [] := by
  rcases msgRecv_cases role pdu with heq | ⟨hdr, payload, -, -, -, hret⟩
  · rw [heq]
    exact ⟨rfl, rfl⟩
  · exact nomatch h.symm.trans hret

/-- **No PDU is written past the end of the buffer.** -/
theorem msgRecv_fits (h : role.buf.Fits) (pdu : Bytes) :
    (msgRecv role pdu).role.buf.Fits ∧
      (msgRecv role pdu).role.buf.storage.length = role.buf.storage.length := by
  rcases msgRecv_cases role pdu with heq | ⟨hdr, payload, -, hroom, hbuf, -⟩
  · rw [heq]
    exact ⟨h, rfl⟩
  rcases hbuf with ⟨hbuf, -⟩ | hbuf
  · rw [hbuf]
    exact ⟨SimpleBuf.fits_addMem h hroom, SimpleBuf.length_addMem h hroom⟩
  · rw [hbuf]
    exact ⟨SimpleBuf.fits_reset _, SimpleBuf.length_addMem h hroom⟩

/-! ## A message -/

/-- A role between two messages. -/
structure Role.Idle (role : Role) : Prop where
  start : role.buf.start = 0
  len : role.buf.len = 0

theorem Role.Idle.fits (h : role.Idle) : role.buf.Fits := by
  unfold SimpleBuf.Fits
  rw [h.start, h.len]
  exact Nat.zero_le _

theorem Role.Idle.data (h : role.Idle) : role.buf.data = [] := by
  rw [SimpleBuf.data, h.len, take_zero]

theorem Role.Idle.tailroom (h : role.Idle) : role.buf.tailroom = role.buf.storage.length := by
  rw [SimpleBuf.tailroom, h.start, h.len, Nat.sub_zero, Nat.sub_zero]

/-- A role in the middle of a message of this type. -/
structure Role.Pending (role : Role) (type : UInt8) : Prop where
  fits : role.buf.Fits
  msgType : role.msgType = type
  len : role.buf.len ≠ 0

theorem deliveries_singleton (role : Role) (pdu : Bytes) :
    role.deliveries [pdu] = (msgRecv role pdu).delivered := by
  rw [deliveries, deliveries, append_nil]

theorem msgRecv_complete (h : role.Idle) (htype : type.toNat < 64)
    (hroom : payload.length ≤ role.buf.storage.length) :
    (msgRecv role (pduHdr sarComplete type :: payload)).delivered = [(type, payload)] := by
  have hfit : payload.length ≤ role.buf.tailroom := h.tailroom ▸ hroom
  have hsar : pduSar (pduHdr sarComplete type) = sarComplete := pduSar_pduHdr (by decide) type
  simp only [msgRecv, if_neg (Nat.not_lt.2 hfit), hsar, if_true, h.len, ne_eq, not_true,
    if_false, handOn, pduType_pduHdr (show sarComplete < 4 by decide) htype,
    SimpleBuf.data_addMem h.fits, h.data, nil_append]

theorem msgRecv_first (h : role.Idle) (htype : type.toNat < 64) (hpos : payload ≠ [])
    (hroom : payload.length ≤ role.buf.storage.length) :
    (msgRecv role (pduHdr sarFirst type :: payload)).delivered = [] ∧
      (msgRecv role (pduHdr sarFirst type :: payload)).role.Pending type ∧
      (msgRecv role (pduHdr sarFirst type :: payload)).role.buf = role.buf.addMem payload := by
  have hfit : payload.length ≤ role.buf.tailroom := h.tailroom ▸ hroom
  have hsar : pduSar (pduHdr sarFirst type) = sarFirst := pduSar_pduHdr (by decide) type
  have hne : sarFirst ≠ sarComplete := by decide
  simp only [msgRecv, if_neg (Nat.not_lt.2 hfit), hsar, if_neg hne, if_true, h.len, ne_eq,
    not_true, if_false, pduType_pduHdr (show sarFirst < 4 by decide) htype, true_and, and_true]
  refine ⟨SimpleBuf.fits_addMem h.fits hfit, rfl, ?_⟩
  have := length_pos_iff.2 hpos
  rw [SimpleBuf.addMem]
  dsimp only
  omega

theorem msgRecv_cont (h : role.Pending type) (htype : type.toNat < 64)
    (hroom : payload.length ≤ role.buf.tailroom) :
    (msgRecv role (pduHdr sarCont type :: payload)).delivered = [] ∧
      (msgRecv role (pduHdr sarCont type :: payload)).role.Pending type ∧
      (msgRecv role (pduHdr sarCont type :: payload)).role.buf = role.buf.addMem payload := by
  have hsar : pduSar (pduHdr sarCont type) = sarCont := pduSar_pduHdr (by decide) type
  have hne : sarCont ≠ sarComplete := by decide
  have hne' : sarCont ≠ sarFirst := by decide
  simp only [msgRecv, if_neg (Nat.not_lt.2 hroom), hsar, if_neg hne, if_neg hne', if_true,
    if_neg h.len, h.msgType, pduType_pduHdr (show sarCont < 4 by decide) htype, ne_eq,
    not_true, if_false, true_and, and_true]
  refine ⟨SimpleBuf.fits_addMem h.fits hroom, rfl, ?_⟩
  have := h.len
  rw [SimpleBuf.addMem]
  dsimp only
  omega

theorem msgRecv_last (h : role.Pending type) (htype : type.toNat < 64)
    (hroom : payload.length ≤ role.buf.tailroom) :
    (msgRecv role (pduHdr sarLast type :: payload)).delivered =
      [(type, role.buf.data ++ payload)] := by
  have hsar : pduSar (pduHdr sarLast type) = sarLast := pduSar_pduHdr (by decide) type
  have hne : sarLast ≠ sarComplete := by decide
  have hne' : sarLast ≠ sarFirst := by decide
  have hne'' : sarLast ≠ sarCont := by decide
  simp only [msgRecv, if_neg (Nat.not_lt.2 hroom), hsar, if_neg hne, if_neg hne', if_neg hne'',
    if_neg h.len, h.msgType, pduType_pduHdr (show sarLast < 4 by decide) htype, ne_eq,
    not_true, if_false, handOn, SimpleBuf.data_addMem h.fits]

/-- The loop comes to its end; if every piece is taken it returns no error,
and if it returns none the PDUs are as they should be. -/
def Ends (accepts : ℕ → Bool) (sent : Option (List Bytes × SendRet)) (Right : List Bytes → Prop) :
    Prop :=
  ∃ pdus ret, sent = some (pdus, ret) ∧ ((∀ j, accepts j = true) → ret = .ok) ∧
    (ret = .ok → Right pdus)

theorem ends_last (k : ℕ) {accepts : ℕ → Bool} {Right : List Bytes → Prop} {pdu : Bytes}
    (h : Right [pdu]) :
    Ends accepts (if accepts k then some ([pdu], .ok) else some ([], .failed)) Right := by
  cases haccepts : accepts k with
  | false => exact ⟨[], .failed, by simp, fun h => absurd (h k) (by simp [haccepts]), nofun⟩
  | true => exact ⟨[pdu], .ok, by simp, fun _ => rfl, fun _ => h⟩

theorem ends_more (k : ℕ) {accepts : ℕ → Bool} {Right Right' : List Bytes → Prop} {pdu : Bytes}
    {rest : Option (List Bytes × SendRet)} (hrest : Ends accepts rest Right')
    (h : ∀ pdus, Right' pdus → Right (pdu :: pdus)) :
    Ends accepts (if accepts k then do
        let (pdus, ret) ← rest
        return (pdu :: pdus, ret)
      else some ([], .failed)) Right := by
  cases haccepts : accepts k with
  | false => exact ⟨[], .failed, by simp, fun h => absurd (h k) (by simp [haccepts]), nofun⟩
  | true =>
    obtain ⟨pdus, ret, heq, hok, hright⟩ := hrest
    exact ⟨pdu :: pdus, ret, by simp only [if_true, heq]; rfl, hok, fun hret => h _ (hright hret)⟩

/-- **The pieces after the first**, to a role in the middle of the message:
they end, and what comes out is what was there and the rest behind it. -/
theorem sendRest_spec (accepts : ℕ → Bool) (hmtu : 2 ≤ mtu) (htype : type.toNat < 64)
    (fuel k : ℕ) (hfits : msg.Fits) (hstart : 0 < msg.start) (hpos : 0 < msg.len)
    (hfuel : msg.len ≤ fuel) :
    Ends accepts (sendRest accepts mtu type fuel k msg) fun pdus =>
      ∀ role : Role, role.Pending type → msg.len ≤ role.buf.tailroom →
        role.deliveries pdus = [(type, role.buf.data ++ msg.data)] := by
  induction fuel generalizing k msg with
  | zero => omega
  | succ fuel ih =>
    rw [sendRest, if_neg (by omega)]
    have hlen : msg.data.length = msg.len := SimpleBuf.length_data hfits
    split
    next hlast =>
      -- The last piece.
      refine ends_last k fun role hrole hroom => ?_
      rw [deliveries_singleton, SimpleBuf.data_pushU8 hstart hfits]
      exact msgRecv_last hrole htype (by omega)
    next hmore =>
      -- A full piece: one byte of header, `mtu - 1` of the message.
      obtain ⟨n, rfl⟩ : ∃ n, mtu = n + 1 := ⟨mtu - 1, by omega⟩
      obtain ⟨hfits', hstart', hlen', hdata'⟩ := SimpleBuf.pull_pushU8 hstart hfits
        (pduHdr sarCont type) (n := n) (by omega) (by omega)
      refine ends_more k (ih (k + 1) hfits' hstart' (by omega) (by omega))
        fun pdus hdel role hrole hroom => ?_
      have htake : (msg.data.take n).length = n := by
        rw [length_take, hlen]
        omega
      obtain ⟨hnone, hpend, hbuf⟩ := msgRecv_cont hrole htype
        (show (msg.data.take n).length ≤ _ by omega)
      have hroom' : (msg.data.take n).length ≤ role.buf.tailroom := by omega
      rw [SimpleBuf.data_pushU8 hstart hfits, take_succ_cons, deliveries, hnone,
        nil_append, hdel _ hpend (by
          rw [hbuf, SimpleBuf.tailroom_addMem hrole.fits hroom', hlen', htake]
          omega),
        hbuf, SimpleBuf.data_addMem hrole.fits, hdata', append_assoc,
        take_append_drop]

/-- **A whole message**: where every piece is taken by the connection, the
peer's idle role hands it on once, with its type. -/
theorem msgSend_spec (accepts : ℕ → Bool) {attMtu fuel : ℕ} (hmtu : 2 ≤ attMtu - 3)
    (htype : type.toNat < 64) (hfits : msg.Fits) (hstart : 0 < msg.start) (hfuel : msg.len ≤ fuel) :
    Ends accepts (msgSend accepts fuel attMtu type msg) fun pdus =>
      ∀ role : Role, role.Idle → msg.len ≤ role.buf.storage.length →
        role.deliveries pdus = [(type, msg.data)] := by
  have hlen : msg.data.length = msg.len := SimpleBuf.length_data hfits
  rw [msgSend, if_neg (by omega)]
  generalize attMtu - 3 = mtu at hmtu
  dsimp only
  split
  next hone =>
    refine ends_last 0 fun role hrole hroom => ?_
    rw [deliveries_singleton, SimpleBuf.data_pushU8 hstart hfits]
    exact msgRecv_complete hrole htype (by omega)
  next hmany =>
    obtain ⟨n, rfl⟩ : ∃ n, mtu = n + 1 := ⟨mtu - 1, by omega⟩
    obtain ⟨hfits', hstart', hlen', hdata'⟩ := SimpleBuf.pull_pushU8 hstart hfits
      (pduHdr sarFirst type) (n := n) (by omega) (by omega)
    refine ends_more 0 (sendRest_spec accepts hmtu htype fuel 1 hfits' hstart' (by omega)
      (by omega)) fun pdus hdel role hrole hroom => ?_
    have htake : (msg.data.take n).length = n := by
      rw [length_take, hlen]
      omega
    have hne : msg.data.take n ≠ [] := by
      rw [← length_pos_iff, htake]
      omega
    obtain ⟨hnone, hpend, hbuf⟩ := msgRecv_first hrole htype hne
      (show (msg.data.take n).length ≤ _ by omega)
    have hroom' : (msg.data.take n).length ≤ role.buf.tailroom := by
      rw [hrole.tailroom]
      omega
    rw [SimpleBuf.data_pushU8 hstart hfits, take_succ_cons, deliveries, hnone,
      nil_append, hdel _ hpend (by
        rw [hbuf, SimpleBuf.tailroom_addMem hrole.fits hroom', hlen', htake, hrole.tailroom]
        omega),
      hbuf, SimpleBuf.data_addMem hrole.fits, hrole.data, nil_append,
      hdata', take_append_drop]

/-- **Proxy messages over a connection.** A message of any type and any
length that the role of the peer has room for, cut up for any MTU that
leaves a byte beside the header, is sent to its end; the PDUs hand it on
there exactly once, as it was. Whatever a role receives, what it refuses
leaves it unchanged, and nothing is written past its buffer. -/
theorem proxy_sar (type : UInt8) (msg : SimpleBuf) (attMtu : ℕ) (accepts : ℕ → Bool) (role : Role)
    (pdu : Bytes) :
    (type.toNat < 64 → msg.Fits → 0 < msg.start → 1 ≤ msg.len →
      msg.len ≤ role.buf.storage.length → 2 ≤ attMtu - 3 → role.Idle →
      ∃ pdus ret, msgSend accepts msg.len attMtu type msg = some (pdus, ret) ∧
        ((∀ k, accepts k = true) → ret = .ok) ∧
        (ret = .ok → role.deliveries pdus = [(type, msg.data)])) ∧
    (∀ e, (msgRecv role pdu).ret = .error e →
      (msgRecv role pdu).role = role ∧ (msgRecv role pdu).delivered = []) ∧
    (role.buf.Fits → (msgRecv role pdu).role.buf.Fits ∧
      (msgRecv role pdu).role.buf.storage.length = role.buf.storage.length) := by
  refine ⟨fun htype hfits hstart _ hroom hmtu hidle => ?_, fun _ => msgRecv_refused,
    fun h => msgRecv_fits h pdu⟩
  obtain ⟨pdus, ret, heq, hok, hdel⟩ := msgSend_spec accepts hmtu htype hfits hstart (Nat.le_refl _)
  exact ⟨pdus, ret, heq, hok, fun hret => hdel hret role hidle hroom⟩

/-- A role with room for eight bytes. -/
def idleRole : Role := ⟨0, ⟨List.replicate 8 0, 0, 0⟩, false⟩

/-- Five bytes behind one that is reserved, over the smallest MTU but one:
three PDUs, one message. -/
theorem proxy_sar_five :
    ∃ pdus ret, msgSend (fun _ => true) 5 6 2 ⟨[0, 1, 2, 3, 4, 5], 1, 5⟩ = some (pdus, ret) ∧
      ret = .ok ∧ idleRole.deliveries pdus = [(2, [1, 2, 3, 4, 5])] := by
  obtain ⟨pdus, ret, heq, hok, hdel⟩ := (proxy_sar 2 ⟨[0, 1, 2, 3, 4, 5], 1, 5⟩ 6 (fun _ => true)
    idleRole []).1 (by decide) (by decide) (by decide) (by decide) (by decide) (by decide)
    ⟨rfl, rfl⟩
  exact ⟨pdus, ret, heq, hok fun _ => rfl, hdel (hok fun _ => rfl)⟩

end Proxy

end OpenBlue

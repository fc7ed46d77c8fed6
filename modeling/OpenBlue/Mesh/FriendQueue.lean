import OpenBlue.Common.Run
import OpenBlue.Mesh.Model.Friend
/-!
# Mesh — the count of the Friend Queue

`queue_size` is kept beside the list. Most of what changes the one changes
the other (`Frnd.Counted`), and space is made for what is enqueued before it
is (`friendQueuePrepareSpace_room`). The exceptions are named by `QueueOk`:
a PDU taken for sending whose encryption fails, a message whose number of
segments is not the one declared, a single PDU declared as none, an update
that no space is made for; and a queue of more than 255 buffers, whose free
space does not fit its eight bits.
-/

namespace OpenBlue

namespace Friend

open List

variable {cfg : FriendCfg} {f : Frnd} {buf : FriendBuf} {pdu : QueuedPdu} {ctl : CtlPdu}
variable {e : Encryption} {addr src seqZero : ℕ} {seqAuth : Option ℕ} {segCount : UInt8}

/-- The counter is the number of buffers in the queue, which is no more
than there may be. -/
structure Frnd.Counted (cfg : FriendCfg) (f : Frnd) : Prop where
  size : f.queueSize.toNat = f.queue.length
  room : f.queue.length ≤ cfg.queueSize

theorem Frnd.Counted.congr {f' : Frnd} (h : f.Counted cfg) (hqueue : f'.queue = f.queue)
    (hsize : f'.queueSize = f.queueSize) : f'.Counted cfg :=
  ⟨by rw [hqueue, hsize, h.size], by rw [hqueue]; exact h.room⟩

theorem friendClear_counted (cfg : FriendCfg) (f : Frnd) : (friendClear f).Counted cfg :=
  ⟨rfl, Nat.zero_le _⟩

/-! ## Making space -/

/-- **The loop** takes buffers off the front, until there is space for as
many as are asked for. -/
theorem freeLoop_spec (segCount : UInt8) (pending : Bool) (avail : UInt8) (bufs : List FriendBuf) :
    (freeLoop segCount pending avail bufs).1 ++ (freeLoop segCount pending avail bufs).2.1 = bufs ∧
      ((freeLoop segCount pending avail bufs).2.2 = true →
        segCount ≤ avail + UInt8.ofNat (freeLoop segCount pending avail bufs).1.length) := by
  induction bufs generalizing pending avail with
  | nil =>
    refine ⟨rfl, fun hok => ?_⟩
    have hnone : (pending || decide (avail < segCount)) = false := by simpa [freeLoop] using hok
    have hle : ¬ avail < segCount := by simpa using (Bool.or_eq_false_iff.1 hnone).2
    show segCount ≤ avail + 0
    rw [UInt8.add_zero]
    exact UInt8.not_lt.1 hle
  | cons buf bufs ih =>
    rw [freeLoop]
    split
    next hmore =>
      obtain ⟨happ, hroom⟩ := ih buf.seg (avail + 1)
      refine ⟨congrArg (buf :: ·) happ, fun hok => ?_⟩
      have hone : avail + 1 + UInt8.ofNat (freeLoop segCount buf.seg (avail + 1) bufs).1.length =
          avail + UInt8.ofNat ((freeLoop segCount buf.seg (avail + 1) bufs).1.length + 1) := by
        rw [UInt8.ofNat_add, UInt8.add_assoc, UInt8.add_comm 1]
        rfl
      exact hone ▸ hroom hok
    next hdone =>
      refine ⟨rfl, fun _ => ?_⟩
      have hle : ¬ avail < segCount := fun hlt => hdone (by simp [hlt])
      show segCount ≤ avail + 0
      rw [UInt8.add_zero]
      exact UInt8.not_lt.1 hle

theorem availSpace_toNat (h : f.Counted cfg) (hsize : cfg.queueSize ≤ 255) :
    (availSpace cfg f).toNat = cfg.queueSize - f.queue.length := by
  have hcount := h.size
  have hroom := h.room
  rw [availSpace, UInt32.toNat_toUInt8, UInt32.toNat_sub, UInt32.toNat_ofNat', hcount]
  omega

theorem friendQueuePrepareSpace_spec (h : f.Counted cfg) (addr : ℕ) (seqAuth : Option ℕ)
    (segCount : UInt8) : (friendQueuePrepareSpace cfg addr seqAuth segCount f).1.Counted cfg ∧
      (cfg.queueSize ≤ 255 → (friendQueuePrepareSpace cfg addr seqAuth segCount f).2 = true →
        (friendQueuePrepareSpace cfg addr seqAuth segCount f).1.queue.length + segCount.toNat ≤
          cfg.queueSize) := by
  have hcount := h.size
  have hroom := h.room
  have hmax := cfg.queueSize_le.2
  unfold friendQueuePrepareSpace
  split
  · obtain ⟨happ, hspace⟩ := freeLoop_spec segCount false (availSpace cfg f) f.queue
    generalize hloop : freeLoop segCount false (availSpace cfg f) f.queue = freed at happ hspace
    obtain ⟨gone, rest, ok⟩ := freed
    have hlen : gone.length + rest.length = f.queue.length := by
      rw [← happ, length_append]
    refine ⟨⟨?_, ?_⟩, fun hsize hok => ?_⟩
    · show (f.queueSize - UInt32.ofNat gone.length).toNat = rest.length
      rw [UInt32.toNat_sub, UInt32.toNat_ofNat', hcount]
      omega
    · show rest.length ≤ cfg.queueSize
      omega
    · have hle : segCount ≤ availSpace cfg f + UInt8.ofNat gone.length := hspace hok
      rw [UInt8.le_iff_toNat_le, UInt8.toNat_add, availSpace_toNat h hsize,
        UInt8.toNat_ofNat'] at hle
      show rest.length + segCount.toNat ≤ cfg.queueSize
      omega
  · exact ⟨h, fun _ hok => nomatch hok⟩

/-- **Space is made** for what is to be enqueued. -/
theorem friendQueuePrepareSpace_room (h : f.Counted cfg) (hsize : cfg.queueSize ≤ 255)
    (hok : (friendQueuePrepareSpace cfg addr seqAuth segCount f).2 = true) :
    (friendQueuePrepareSpace cfg addr seqAuth segCount f).1.queue.length + segCount.toNat ≤
      cfg.queueSize :=
  (friendQueuePrepareSpace_spec h addr seqAuth segCount).2 hsize hok

/-! ## Enqueueing -/

theorem purgeForAck_counted (h : f.Counted cfg) (pdu : QueuedPdu) :
    (purgeForAck pdu f).Counted cfg ∧ (purgeForAck pdu f).queue.length ≤ f.queue.length := by
  have hcount := h.size
  have hroom := h.room
  have hmax := cfg.queueSize_le.2
  unfold purgeForAck
  split
  next auth _ _ =>
    unfold friendPurgeOldAck
    split
    · exact ⟨h, Nat.le_refl _⟩
    next i hi =>
      obtain ⟨hlt, -⟩ := findIdx?_eq_some_iff_getElem.1 hi
      have hlen : (f.queue.eraseIdx i).length = f.queue.length - 1 := length_eraseIdx_of_lt hlt
      refine ⟨⟨?_, ?_⟩, ?_⟩
      · show (f.queueSize - 1).toNat = (f.queue.eraseIdx i).length
        have hone : (1 : UInt32).toNat = 1 := rfl
        rw [UInt32.toNat_sub, hone, hlen, hcount]
        omega
      · show (f.queue.eraseIdx i).length ≤ cfg.queueSize
        omega
      · show (f.queue.eraseIdx i).length ≤ f.queue.length
        omega
  · exact ⟨h, Nat.le_refl _⟩

/-- What is enqueued is as many buffers as are counted, and there is space
for them. -/
def Fits (cfg : FriendCfg) (type : PduType) (src : ℕ) (segCount : UInt8) (buf : FriendBuf)
    (f : Frnd) : Prop :=
  match type with
  | .pduSingle => segCount = 0 → f.queue.length < cfg.queueSize
  | .pduPartial => True
  | .pduComplete => ∀ i count, getSeg src (pduSeqZero buf.data) segCount f = some (i, count) →
      count.toNat = (f.seg.getD i {}).queue.length + 1 ∧
        (segCount < count → f.queue.length + count.toNat ≤ cfg.queueSize)

theorem fits_congr {buf' : FriendBuf} {f' : Frnd} (type : PduType) (hdata : buf.data = buf'.data)
    (hqueue : f.queue = f'.queue) (hseg : f.seg = f'.seg) :
    Fits cfg type src segCount buf f ↔ Fits cfg type src segCount buf' f' := by
  unfold Fits getSeg
  rw [hdata, hqueue, hseg]

theorem enqueueBuf_counted (h : f.Counted cfg) (buf : FriendBuf) :
    (enqueueBuf buf f).Counted cfg ↔ f.queue.length < cfg.queueSize := by
  have hcount := h.size
  have hmax := cfg.queueSize_le.2
  have hroom := h.room
  have hlen : (f.queue ++ [buf]).length = f.queue.length + 1 := length_append
  have hone : (1 : UInt32).toNat = 1 := rfl
  constructor
  · intro h'
    have hroom' : (f.queue ++ [buf]).length ≤ cfg.queueSize := h'.room
    omega
  · intro hlt
    refine ⟨?_, ?_⟩
    · show (f.queueSize + 1).toNat = (f.queue ++ [buf]).length
      rw [UInt32.toNat_add, hone, hlen, hcount]
      omega
    · show (f.queue ++ [buf]).length ≤ cfg.queueSize
      omega

/-- **A buffer is enqueued** where space has been made for as many as are
declared. -/
theorem enqueueFriendPdu_counted (h : f.Counted cfg) (hspace : f.queue.length + segCount.toNat ≤
    cfg.queueSize) (type : PduType) (src : ℕ) (buf : FriendBuf) :
    (enqueueFriendPdu type src segCount buf f).Counted cfg ↔ Fits cfg type src segCount buf f := by
  have hcount := h.size
  have hmax := cfg.queueSize_le.2
  have hroom := h.room
  cases type with
  | pduSingle =>
    rw [enqueueFriendPdu, enqueueBuf_counted h, Fits]
    constructor
    · exact fun hlt _ => hlt
    · intro hfits
      by_cases hzero : segCount = 0
      · exact hfits hzero
      · have hpos : segCount.toNat ≠ 0 := fun h0 => hzero (UInt8.toNat_inj.1 h0)
        omega
  | pduPartial =>
    refine iff_of_true ?_ trivial
    unfold enqueueFriendPdu
    dsimp only
    split
    · exact h.congr rfl rfl
    · rw [if_neg (by decide)]
      exact h.congr rfl rfl
  | pduComplete =>
    unfold enqueueFriendPdu Fits
    dsimp only
    cases hseg : getSeg src (pduSeqZero buf.data) segCount f with
    | none => exact iff_of_true (h.congr rfl rfl) fun _ _ hnone => nomatch hnone
    | some place =>
      obtain ⟨i, count⟩ := place
      dsimp only
      rw [if_pos rfl]
      have hbyte := count.toNat_lt
      have hlen : (f.queue ++ ((f.seg.getD i {}).queue ++ [buf])).length =
          f.queue.length + ((f.seg.getD i {}).queue.length + 1) := by
        rw [length_append, length_append, length_singleton]
      have hsum : (f.queueSize + count.toUInt32).toNat = f.queue.length + count.toNat := by
        rw [UInt32.toNat_add, UInt8.toNat_toUInt32, hcount]
        omega
      constructor
      · intro h'
        have hsize' : (f.queueSize + count.toUInt32).toNat =
            (f.queue ++ ((f.seg.getD i {}).queue ++ [buf])).length := h'.size
        have hroom' : (f.queue ++ ((f.seg.getD i {}).queue ++ [buf])).length ≤ cfg.queueSize :=
          h'.room
        rintro j n hjn
        obtain ⟨rfl, rfl⟩ := Prod.mk.inj (Option.some.inj hjn)
        exact ⟨by omega, fun _ => by omega⟩
      · intro hfits
        obtain ⟨hn, hmore⟩ := hfits i count rfl
        have hfit : f.queue.length + count.toNat ≤ cfg.queueSize := by
          by_cases hlt : segCount < count
          · exact hmore hlt
          · rw [UInt8.lt_iff_toNat_lt] at hlt
            omega
        refine ⟨?_, ?_⟩
        · show (f.queueSize + count.toUInt32).toNat = (f.queue ++ _).length
          rw [hlen, hsum, hn]
        · show (f.queue ++ ((f.seg.getD i {}).queue ++ [buf])).length ≤ cfg.queueSize
          omega

/-- The state in which a PDU that space has been made for is enqueued. -/
def prepared (cfg : FriendCfg) (pdu : QueuedPdu) (f : Frnd) : Frnd :=
  purgeForAck pdu (friendQueuePrepareSpace cfg pdu.info.src pdu.seqAuth pdu.segCount f).1

/-- Space has been made for a PDU, which is then given a buffer. -/
def Enqueues (cfg : FriendCfg) (pdu : QueuedPdu) (f : Frnd) : Prop :=
  (f.allocated = true ∧ f.established = true) ∧
    (friendQueuePrepareSpace cfg pdu.info.src pdu.seqAuth pdu.segCount f).2 = true ∧
    pdu.slot.isSome = true

/-- The PDU fits the queue, whichever buffer it is in. -/
def QueuedPdu.Fits (cfg : FriendCfg) (pdu : QueuedPdu) (f : Frnd) : Prop :=
  Friend.Fits cfg pdu.type pdu.info.src pdu.segCount (createFriendPdu 0 pdu.info pdu.sdu)
    (prepared cfg pdu f)

/-- What a step must meet for the count to stay right. -/
def QueueOk (cfg : FriendCfg) (f : Frnd) : FriendEvent → Prop
  | .secUpdate pdu =>
      f.allocated = true → pdu.slot.isSome = true → f.queue.length < cfg.queueSize
  | .timeout e _ => f.Takes → f.queue ≠ [] → e.ok = true
  | .enqueueRx own pdu =>
      Enqueues cfg pdu f → own = false → friendQueueCheckDup pdu.info.seq pdu.info.src f = false →
        pdu.Fits cfg f
  | .enqueueTx _ uuidx pdu =>
      Enqueues cfg pdu f → (pdu.type = .pduSingle → pdu.info.ctl = false → uuidx ≠ some none) →
        pdu.Fits cfg f
  | _ => True

theorem enqueue_prepared (h : f.Counted cfg) (hsize : cfg.queueSize ≤ 255)
    (hok : (friendQueuePrepareSpace cfg pdu.info.src pdu.seqAuth pdu.segCount f).2 = true)
    (id : ℕ) (buf : FriendBuf) (hdata : buf.data = (createFriendPdu 0 pdu.info pdu.sdu).data) :
    (enqueueFriendPdu pdu.type pdu.info.src pdu.segCount buf
      ((prepared cfg pdu f).take id)).Counted cfg ↔ pdu.Fits cfg f := by
  obtain ⟨hcounted, -⟩ :=
    friendQueuePrepareSpace_spec h pdu.info.src pdu.seqAuth pdu.segCount
  obtain ⟨hpurged, hle⟩ := purgeForAck_counted hcounted pdu
  have hroom := friendQueuePrepareSpace_room h hsize hok
  have htaken : ((prepared cfg pdu f).take id).Counted cfg := hpurged.congr rfl rfl
  rw [enqueueFriendPdu_counted htaken (le_trans (Nat.add_le_add_right hle _) hroom)]
  exact fits_congr pdu.type hdata rfl rfl

/-! ## Steps -/

theorem replaceLast_counted (cfg : FriendCfg) (op : UInt8) (ctl : CtlPdu) (e : Encryption) :
    (replaceLast cfg op ctl e f).Counted cfg ↔ f.Counted cfg := by
  unfold replaceLast
  split
  · exact Iff.rfl
  dsimp only
  split
  all_goals exact ⟨fun h => h.congr rfl rfl, fun h => h.congr rfl rfl⟩

theorem friendReq_counted (h : f.Counted cfg) (lpn : ℕ) (credOk : Bool) :
    (friendReq cfg lpn credOk ctl e f).Counted cfg := by
  unfold friendReq
  dsimp only
  split
  · rw [enqueueOffer, replaceLast_counted]
    split
    · exact (friendClear_counted cfg f).congr rfl rfl
    · exact h.congr rfl rfl
  · exact friendClear_counted cfg _

/-- **A Friend Update is enqueued** with no space made for it. -/
theorem enqueueUpdate_counted (h : f.Counted cfg) (ctl : CtlPdu) :
    (enqueueUpdate cfg ctl f).Counted cfg ↔
      (ctl.slot.isSome = true → f.queue.length < cfg.queueSize) := by
  unfold enqueueUpdate
  cases hslot : ctl.slot with
  | none => exact iff_of_true h fun hs => nomatch hs
  | some id =>
    have htaken : (f.take id).Counted cfg := h.congr rfl rfl
    dsimp only
    rw [enqueueBuf_counted htaken]
    exact ⟨fun hlt _ => hlt, fun hlt => hlt rfl⟩

theorem Frnd.Counted.established (h : f.Counted cfg) :
    ({ f with established := true } : Frnd).Counted cfg := h.congr rfl rfl

theorem friendPoll_counted (h : f.Counted cfg) (fsn : Bool) :
    (friendPoll cfg fsn ctl f).Counted cfg := by
  unfold friendPoll
  split
  · exact h
  split
  · exact h
  refine Frnd.Counted.established ?_
  split
  · exact h.congr rfl rfl
  dsimp only
  split
  next hempty =>
    have hqueue : f.queue = [] := hempty
    have hmin := cfg.queueSize_le.1
    refine (enqueueUpdate_counted ?_ ctl).2 fun _ => ?_
    · exact h.congr rfl rfl
    · show f.queue.length < cfg.queueSize
      rw [hqueue, length_nil]
      omega
  · exact h.congr rfl rfl

theorem friendSecUpdate_counted (h : f.Counted cfg) : (friendSecUpdate cfg ctl f).Counted cfg ↔
      (f.allocated = true → ctl.slot.isSome = true → f.queue.length < cfg.queueSize) := by
  unfold friendSecUpdate
  split
  next halloc =>
    rw [enqueueUpdate_counted h]
    exact ⟨fun hlt _ => hlt, fun hlt => hlt halloc⟩
  next halloc => exact iff_of_true h fun ha => absurd ha halloc

theorem sendLastBuf_counted (adv : Bool) (f : Frnd) :
    (sendLastBuf adv f).1.Counted cfg ↔ f.Counted cfg := by
  unfold sendLastBuf
  split
  · exact ⟨fun h => h.congr rfl rfl, fun h => h.congr rfl rfl⟩
  · exact Iff.rfl

/-- **A PDU is taken for sending**, and counted once it is encrypted. -/
theorem friendTimeout_counted (h : f.Counted cfg) (e : Encryption) (adv : Bool) :
    (friendTimeout e adv f).1.Counted cfg ↔ (f.Takes → f.queue ≠ [] → e.ok = true) := by
  have hcount := h.size
  have hroom := h.room
  have hmax := cfg.queueSize_le.2
  unfold friendTimeout
  split
  next halloc => exact iff_of_true h fun htakes => absurd htakes.1 halloc
  split
  next hsend =>
    rw [sendLastBuf_counted]
    exact iff_of_true (h.congr rfl rfl) fun htakes => absurd hsend htakes.2.1
  split
  next hlost =>
    exact iff_of_true (friendClear_counted cfg f) fun htakes => absurd (htakes.2.2 hlost.1) hlost.2
  next halloc hsend hlost =>
    have htakes : f.Takes := by
      refine ⟨not_not.1 halloc, hsend, fun hest => ?_⟩
      by_contra hreq
      exact hlost ⟨hest, hreq⟩
    cases hqueue : f.queue with
    | nil => exact iff_of_true (friendClear_counted cfg _) fun _ hne => absurd rfl hne
    | cons buf bufs =>
      rw [hqueue, length_cons] at hcount hroom
      dsimp only
      split
      next hok =>
        rw [sendLastBuf_counted]
        refine iff_of_true ⟨?_, ?_⟩ fun _ _ => hok
        · show (f.queueSize - 1).toNat = bufs.length
          have hone : (1 : UInt32).toNat = 1 := rfl
          rw [UInt32.toNat_sub, hone, hcount]
          omega
        · show bufs.length ≤ cfg.queueSize
          omega
      next hfail =>
        refine iff_of_false (fun h' => ?_) fun hok => hfail (hok htakes (cons_ne_nil _ _))
        have hsize' : f.queueSize.toNat = bufs.length := h'.size
        omega

theorem prepareSpace_counted {enqueue : Frnd → Frnd} {Ok : Prop} (h : f.Counted cfg)
    (hfull : ¬ Enqueues cfg pdu f → Ok)
    (hroom : ∀ f', (friendQueuePrepareSpace cfg pdu.info.src pdu.seqAuth pdu.segCount f).2 = true →
      (friendQueuePrepareSpace cfg pdu.info.src pdu.seqAuth pdu.segCount f).1 = f' →
      f'.Counted cfg → ((enqueue f').Counted cfg ↔ Ok)) :
    (match friendQueuePrepareSpace cfg pdu.info.src pdu.seqAuth pdu.segCount f with
      | (f, false) => f
      | (f, true) => enqueue f).Counted cfg ↔ Ok := by
  obtain ⟨hcounted, -⟩ := friendQueuePrepareSpace_spec h pdu.info.src pdu.seqAuth pdu.segCount
  split
  next f' hprep =>
    have hfail : (friendQueuePrepareSpace cfg pdu.info.src pdu.seqAuth pdu.segCount f).2 = false :=
      congrArg Prod.snd hprep
    rw [hprep] at hcounted
    exact iff_of_true hcounted (hfull fun henq => absurd (henq.2.1.symm.trans hfail) (by decide))
  next f' hprep =>
    have hf' : (friendQueuePrepareSpace cfg pdu.info.src pdu.seqAuth pdu.segCount f).1 = f' :=
      congrArg Prod.fst hprep
    exact hroom f' (congrArg Prod.snd hprep) hf' (hf' ▸ hcounted)

theorem friendEnqueueRx_counted (h : f.Counted cfg) (hsize : cfg.queueSize ≤ 255) (own : Bool) :
    (friendEnqueueRx cfg own pdu f).Counted cfg ↔ QueueOk cfg f (.enqueueRx own pdu) := by
  unfold friendEnqueueRx
  split
  next hest => exact iff_of_true h fun henq => absurd henq.1 hest
  split
  next hdup => exact iff_of_true h fun _ _ hnodup => absurd (hdup.symm.trans hnodup) (by decide)
  next hest hdup =>
    refine prepareSpace_counted h (fun hnot henq => absurd henq hnot) fun f' hok hf' hcounted => ?_
    unfold friendLpnEnqueueRx
    cases own with
    | true => exact iff_of_true hcounted fun _ hown => nomatch hown
    | false =>
      rw [if_neg (by decide)]
      cases hslot : pdu.slot with
      | none =>
        refine iff_of_true (purgeForAck_counted hcounted pdu).1 fun henq => ?_
        exact absurd (hslot ▸ henq.2.2) (by decide)
      | some id =>
        have hkey := enqueue_prepared h hsize hok id (createFriendPdu id pdu.info pdu.sdu) rfl
        rw [prepared, hf'] at hkey
        dsimp only
        rw [hkey]
        have henq : Enqueues cfg pdu f := ⟨not_not.1 hest, hok, by rw [hslot]; rfl⟩
        exact ⟨fun hfits _ _ _ => hfits, fun hfits => hfits henq rfl (Bool.eq_false_iff.2 hdup)⟩

theorem friendEnqueueTx_counted (h : f.Counted cfg) (hsize : cfg.queueSize ≤ 255) (appIdx : ℕ)
    (uuidx : Option (Option ℕ)) : (friendEnqueueTx cfg appIdx uuidx pdu f).Counted cfg ↔
      QueueOk cfg f (.enqueueTx appIdx uuidx pdu) := by
  unfold friendEnqueueTx
  split
  next hest => exact iff_of_true h fun henq => absurd henq.1 hest
  next hest =>
    refine prepareSpace_counted h (fun hnot henq => absurd henq hnot) fun f' hok hf' hcounted => ?_
    have hpurged := (purgeForAck_counted hcounted pdu).1
    unfold friendLpnEnqueueTx
    dsimp only
    cases hslot : pdu.slot with
    | none =>
      refine iff_of_true hpurged fun henq => ?_
      exact absurd (hslot ▸ henq.2.2) (by decide)
    | some id =>
      have henq : Enqueues cfg pdu f := ⟨not_not.1 hest, hok, by rw [hslot]; rfl⟩
      -- Whatever the fields of the buffer, it is enqueued if it fits.
      have hkey : ∀ buf : FriendBuf, buf.data = (createFriendPdu 0 pdu.info pdu.sdu).data →
          ((enqueueFriendPdu pdu.type pdu.info.src pdu.segCount buf
            ((purgeForAck pdu f').take id)).Counted cfg ↔ pdu.Fits cfg f) := by
        intro buf hdata
        have hkey' := enqueue_prepared h hsize hok id buf hdata
        rwa [prepared, hf'] at hkey'
      dsimp only
      split
      next happ =>
        have hctl : pdu.info.ctl = false := Bool.eq_false_iff.2 happ.2
        split
        · refine (hkey _ ?_).trans
            ⟨fun hfits _ _ => hfits, fun hfits => hfits henq fun _ _ => by simp⟩
          rfl
        · exact iff_of_true (hpurged.congr rfl rfl)
            fun _ hlabel => absurd rfl (hlabel happ.1 hctl)
        · refine (hkey _ ?_).trans
            ⟨fun hfits _ _ => hfits, fun hfits => hfits henq fun _ _ => by simp⟩
          rfl
      next happ =>
        refine (hkey _ ?_).trans
          ⟨fun hfits _ _ => hfits, fun hfits => hfits henq fun hsingle hctl => ?_⟩
        · rfl
        · exact absurd ⟨hsingle, by rw [hctl]; decide⟩ happ

/-- **One step** keeps the count exactly where it meets the condition. -/
theorem friendStep_counted (h : f.Counted cfg) (hsize : cfg.queueSize ≤ 255) (e : FriendEvent) :
    (friendStep cfg f e).Counted cfg ↔ QueueOk cfg f e := by
  cases e with
  | req lpn credOk pdu e => exact iff_of_true (friendReq_counted h lpn credOk) trivial
  | subList pdu e =>
    refine iff_of_true ?_ trivial
    show (friendSubList cfg pdu e f).Counted cfg
    unfold friendSubList
    split
    · exact h
    split
    · exact h
    · rw [enqueueSubCfm, replaceLast_counted]
      exact h.congr rfl rfl
  | poll fsn pdu => exact iff_of_true (friendPoll_counted h fsn) trivial
  | secUpdate pdu => exact friendSecUpdate_counted h
  | enqueueRx own pdu => exact friendEnqueueRx_counted h hsize own
  | enqueueTx appIdx uuidx pdu => exact friendEnqueueTx_counted h hsize appIdx uuidx
  | clearIncomplete src seqAuth =>
    refine iff_of_true ?_ trivial
    show (friendClearIncomplete src seqAuth f).Counted cfg
    unfold friendClearIncomplete
    split
    · exact h
    · exact h.congr rfl rfl
  | timeout e adv => exact friendTimeout_counted h e adv
  | sendStart =>
    refine iff_of_true ?_ trivial
    show (bufSendStart f).Counted cfg
    unfold bufSendStart
    split
    · exact h
    dsimp only
    split
    all_goals exact h.congr rfl rfl
  | clear =>
    refine iff_of_true ?_ trivial
    show (if f.allocated then friendClear f else f).Counted cfg
    split
    · exact friendClear_counted cfg f
    · exact h

/-! ## Runs -/

/-- The counter is the number of buffers, there are no more than there may
be, and the subtraction for the free space does not wrap. -/
structure QueueCounted (cfg : FriendCfg) (f : Frnd) : Prop where
  size : f.queueSize.toNat = f.queue.length
  room : f.queue.length ≤ cfg.queueSize
  avail : (availSpace cfg f).toNat + f.queueSize.toNat = cfg.queueSize

theorem queueCounted_iff (hsize : cfg.queueSize ≤ 255) : QueueCounted cfg f ↔ f.Counted cfg := by
  constructor
  · exact fun h => ⟨h.size, h.room⟩
  · intro h
    refine ⟨h.size, h.room, ?_⟩
    have hroom := h.room
    rw [availSpace_toNat h hsize, h.size]
    omega

/-- **The count of the Friend Queue.** In every state of a run the counter
is the number of buffers in the queue, there are no more than there may be,
and the free space is computed without a wrap, exactly if the queue has no
more than 255 buffers and every step of the run meets the condition. -/
theorem queue_counted_iff (cfg : FriendCfg) (segRx : ℕ) (es : List FriendEvent) :
    (∀ es', es' <+: es → QueueCounted cfg (run (friendStep cfg) (frndInit segRx) es')) ↔
      cfg.queueSize ≤ 255 ∧ Along (friendStep cfg) (QueueOk cfg) (frndInit segRx) es := by
  have hinit : (frndInit segRx).Counted cfg := ⟨rfl, Nat.zero_le _⟩
  by_cases hsize : cfg.queueSize ≤ 255
  · simp only [queueCounted_iff hsize, hsize, true_and]
    exact prefix_iff_along (fun _ => True) (Frnd.Counted cfg) (fun _ _ _ => trivial)
      (fun f e _ h => friendStep_counted h hsize e) trivial hinit es
  · -- Of an empty queue of 256 buffers or more, eight bits do not hold the space.
    refine iff_of_false (fun h => ?_) fun h => hsize h.1
    have havail := (h [] List.nil_prefix).avail
    have hbyte := (availSpace cfg (frndInit segRx)).toNat_lt
    have hzero : (frndInit segRx).queueSize.toNat = 0 := rfl
    rw [run_nil, hzero] at havail
    omega

/-- A queue of the default size. -/
def defaultFriendCfg : FriendCfg := { queueSize := 16, queueSize_le := by decide }

/-- The offer of a friendship is sent, and the Low Power Node polls. -/
def friendship : List FriendEvent :=
  [.req 9 true ⟨some 0, 5, [50, 16, 3, 0, 0, 0]⟩ ⟨true, [], keyUnused⟩,
    .timeout ⟨true, [], keyUnused⟩ true, .sendStart, .poll true ⟨some 0, 5, [0, 0, 0, 0, 5, 0]⟩]

/-- **The encryption of the PDU taken for the poll fails**: it is off the
queue and still counted. -/
theorem counted_after_failure :
    ¬ QueueCounted defaultFriendCfg (run (friendStep defaultFriendCfg) (frndInit 1)
      (friendship ++ [.timeout ⟨false, [], keyUnused⟩ true])) := by
  intro h
  exact absurd h.size (by decide)

end Friend

end OpenBlue

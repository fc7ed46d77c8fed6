import OpenBlue.Mesh.FriendQueue
/-!
# Mesh — the buffers of a Friend

A buffer waits in the queue or a list of segments as it was created, and is
encrypted on its way to `frnd->last`, from which it is sent (`BufsOk`).
Wherever a buffer leaves one of these places it goes to another or back to
the pool, but for two: an encryption that fails on the way leaves the buffer
in `frnd->last` as it is, or nowhere; and the next PDU taken from the queue
replaces what is in `frnd->last` without giving it back.
-/

namespace OpenBlue

namespace Friend

open List

variable {cfg : FriendCfg} {f f' : Frnd} {buf : FriendBuf} {bufs : List FriendBuf}
variable {pdu : QueuedPdu} {ctl : CtlPdu} {e : Encryption} {src : ℕ} {segCount : UInt8}

/-! ## Where buffers are -/

theorem mem_held {b : FriendBuf} :
    b ∈ f.held ↔ f.last = some b ∨ b ∈ f.queue ∨ ∃ seg ∈ f.seg, b ∈ seg.queue := by
  rw [Frnd.held, mem_append, mem_append, mem_flatMap, Option.mem_toList, or_assoc]

/-- A buffer with this number is in one of the places for buffers. -/
def Frnd.Holds (f : Frnd) (id : ℕ) : Prop := ∃ b ∈ f.held, b.id = id

/-- Every buffer taken from the pool and not given back is in one of the
places for buffers. -/
def Frnd.Reachable (f : Frnd) : Prop := ∀ id ∈ f.live, f.Holds id

theorem mem_unref {id : ℕ} : id ∈ (f.unref bufs).live ↔ id ∈ f.live ∧ ∀ b ∈ bufs, b.id ≠ id := by
  simp [Frnd.unref]

/-- **The rule for buffers**: what is taken is held, and what was held is
still, or given back. -/
theorem Frnd.Reachable.move (h : f.Reachable) (gone : List FriendBuf)
    (hlive : ∀ id ∈ f'.live, f'.Holds id ∨ id ∈ f.live ∧ ∀ b ∈ gone, b.id ≠ id)
    (hheld : ∀ b ∈ f.held, b ∈ gone ∨ f'.Holds b.id) : f'.Reachable := by
  intro id hid
  rcases hlive id hid with hholds | ⟨hid', hkept⟩
  · exact hholds
  · obtain ⟨b, hb, rfl⟩ := h id hid'
    exact (hheld b hb).resolve_left fun hgone => hkept b hgone rfl

/-- Buffers wait as they were created, and have been encrypted once where
they are sent from. -/
structure BufsOk (f : Frnd) : Prop where
  reachable : f.Reachable
  last : ∀ b, f.last = some b → b.encrypted = 1
  queue : ∀ b ∈ f.queue, b.encrypted = 0
  seg : ∀ s ∈ f.seg, ∀ b ∈ s.queue, b.encrypted = 0

theorem BufsOk.congr (h : BufsOk f) (hlast : f'.last = f.last) (hqueue : f'.queue = f.queue)
    (hseg : f'.seg = f.seg) (hlive : f'.live = f.live) : BufsOk f' where
  reachable := by
    have hheld : f'.held = f.held := by rw [Frnd.held, Frnd.held, hlast, hqueue, hseg]
    intro id hid
    rw [hlive] at hid
    obtain ⟨b, hb, hbid⟩ := h.reachable id hid
    exact ⟨b, hheld ▸ hb, hbid⟩
  last := hlast ▸ h.last
  queue := hqueue ▸ h.queue
  seg := hseg ▸ h.seg

theorem friendClear_bufsOk (h : BufsOk f) : BufsOk (friendClear f) where
  reachable := by
    intro id hid
    obtain ⟨hid', hkept⟩ := mem_unref.1 hid
    obtain ⟨b, hb, hbid⟩ := h.reachable id hid'
    exact absurd hbid (hkept b hb)
  last b hb := nomatch hb
  queue b hb := absurd hb not_mem_nil
  seg s hs b hb := by
    obtain ⟨s', -, rfl⟩ := mem_map.1 hs
    exact absurd hb not_mem_nil

theorem BufsOk.dropLast (h : BufsOk f) (hlast : f'.last = none) (hqueue : f'.queue = f.queue)
    (hseg : f'.seg = f.seg) (hlive : f'.live = (f.unref f.last.toList).live) : BufsOk f' where
  reachable := by
    refine h.reachable.move f.last.toList (fun id hid => .inr (mem_unref.1 (hlive ▸ hid)))
      fun b hb => ?_
    rcases mem_held.1 hb with hb | hb
    · exact .inl (by rw [hb]; exact mem_singleton.2 rfl)
    · exact .inr ⟨b, mem_held.2 (.inr (by rw [hqueue, hseg]; exact hb)), rfl⟩
  last b hb := nomatch hlast.symm.trans hb
  queue := hqueue ▸ h.queue
  seg := hseg ▸ h.seg

/-- **An answer replaces** what is in `frnd->last`, if its encryption does
not fail. -/
theorem replaceLast_bufsOk (h : BufsOk f) (op : UInt8) (hok : ctl.slot.isSome = true → e.ok = true) :
    BufsOk (replaceLast cfg op ctl e f) := by
  unfold replaceLast
  cases hslot : ctl.slot with
  | none => exact h
  | some id =>
    have hok' : e.ok = true := hok (by rw [hslot]; rfl)
    dsimp only
    rw [if_pos hok']
    refine ⟨?_, fun b hb => ?_, h.queue, h.seg⟩
    · refine h.reachable.move f.last.toList (fun i hi => ?_) fun b hb => ?_
      · obtain ⟨hi', hkept⟩ := mem_unref.1 hi
        rcases mem_cons.1 hi' with rfl | hi'
        · exact .inl ⟨_, mem_held.2 (.inl rfl), rfl⟩
        · exact .inr ⟨hi', hkept⟩
      · rcases mem_held.1 hb with hb | hb
        · exact .inl (by rw [hb]; exact mem_singleton.2 rfl)
        · exact .inr ⟨b, mem_held.2 (.inr hb), rfl⟩
    · obtain rfl := Option.some.inj hb
      show 0 + (if e.ok = true then 1 else 0) = 1
      rw [if_pos hok']

/-- **A new buffer is put in the queue.** -/
theorem enqueueBuf_bufsOk (h : BufsOk f) (buf : FriendBuf) (hnew : buf.encrypted = 0) :
    BufsOk (enqueueBuf buf (f.take buf.id)) where
  reachable := by
    refine h.reachable.move [] (fun i hi => ?_) fun b hb => .inr ?_
    · rcases mem_cons.1 hi with rfl | hi
      · exact .inl ⟨buf, mem_held.2 (.inr (.inl (mem_append_right _ (mem_singleton.2 rfl)))), rfl⟩
      · exact .inr ⟨hi, fun b hb => absurd hb not_mem_nil⟩
    · refine ⟨b, mem_held.2 ?_, rfl⟩
      exact (mem_held.1 hb).imp_right (Or.imp_left (mem_append_left _))
  last := h.last
  queue b hb := by
    rcases mem_append.1 hb with hb | hb
    · exact h.queue b hb
    · rw [mem_singleton.1 hb]
      exact hnew
  seg := h.seg

theorem enqueueUpdate_bufsOk (h : BufsOk f) : BufsOk (enqueueUpdate cfg ctl f) := by
  unfold enqueueUpdate
  split
  · exact h
  next id hslot =>
    exact enqueueBuf_bufsOk h (encodeFriendCtl cfg ctl.ivIndex id ctlOpFriendUpdate ctl.body f) rfl

/-! ## Enqueueing -/

theorem getSegLoop_lt {seqZero i k : ℕ} {fresh : Bool} {free : Option ℕ} {segs : List Seg}
    (hfree : ∀ j, free = some j → j < i + segs.length)
    (h : getSegLoop src seqZero i free segs = some (k, fresh)) : k < i + segs.length := by
  induction segs generalizing i free with
  | nil =>
    rw [getSegLoop, Option.map_eq_some_iff] at h
    obtain ⟨j, hj, hjk⟩ := h
    rw [← (Prod.mk.inj hjk).1]
    exact hfree j hj
  | cons seg segs ih =>
    rw [getSegLoop] at h
    rw [length_cons] at hfree ⊢
    split at h
    · rw [← (Prod.mk.inj (Option.some.inj h)).1]
      omega
    · have hnext := ih (fun j hj => ?_) h
      · omega
      · split at hj
        · rw [← Option.some.inj hj]
          omega
        · have := hfree j hj
          omega

theorem getSeg_lt {seqZero i : ℕ} {count : UInt8}
    (h : getSeg src seqZero segCount f = some (i, count)) : i < f.seg.length := by
  rw [getSeg, Option.map_eq_some_iff] at h
  obtain ⟨⟨k, fresh⟩, hloop, hk⟩ := h
  have hlt := getSegLoop_lt (by simp) hloop
  rw [← (Prod.mk.inj hk).1]
  omega

theorem mem_seg_set {segs : List Seg} {i : ℕ} (seg : Seg) {b : FriendBuf} {s : Seg} (hs : s ∈ segs)
    (hb : b ∈ s.queue) : b ∈ (segs.getD i {}).queue ∨ ∃ s' ∈ segs.set i seg, b ∈ s'.queue := by
  obtain ⟨j, hj⟩ := mem_iff_getElem?.1 hs
  by_cases hij : i = j
  · subst hij
    rw [getD_eq_getElem?_getD, hj]
    exact .inl hb
  · exact .inr ⟨s, mem_of_getElem? (by rwa [getElem?_set_ne hij]), hb⟩

theorem getD_seg_encrypted (h : BufsOk f) (i : ℕ) :
    ∀ b ∈ (f.seg.getD i {}).queue, b.encrypted = 0 := by
  intro b hb
  rw [getD_eq_getElem?_getD] at hb
  cases hseg : f.seg[i]? with
  | none =>
    rw [hseg] at hb
    exact absurd hb not_mem_nil
  | some s =>
    rw [hseg] at hb
    exact h.seg s (mem_of_getElem? hseg) b hb

/-- **A new buffer is enqueued**, alone or with the segments before it. -/
theorem enqueueFriendPdu_bufsOk (h : BufsOk f) (type : PduType) (buf : FriendBuf) (hnew : buf.encrypted = 0) :
    BufsOk (enqueueFriendPdu type src segCount buf (f.take buf.id)) := by
  have hseg0 := getD_seg_encrypted h
  unfold enqueueFriendPdu
  split
  · exact enqueueBuf_bufsOk h buf hnew
  split
  next hnone =>
    -- No list is free: the buffer is given back.
    refine ⟨h.reachable.move [] (fun i hi => ?_) fun b hb => .inr ⟨b, hb, rfl⟩, h.last, h.queue,
      h.seg⟩
    obtain ⟨hi', hkept⟩ := mem_unref.1 hi
    rcases mem_cons.1 hi' with rfl | hi'
    · exact absurd rfl (hkept buf (mem_singleton.2 rfl))
    · exact .inr ⟨hi', fun b hb => absurd hb not_mem_nil⟩
  next i count hseg =>
    have hlt : i < f.seg.length := getSeg_lt hseg
    have hself : ∀ s : Seg, s ∈ f.seg.set i s := fun s =>
      mem_of_getElem? (getElem?_set_self hlt)
    dsimp only
    split
    · refine ⟨h.reachable.move [] (fun j hj => ?_) fun b hb => .inr ⟨b, mem_held.2 ?_, rfl⟩, h.last,
        fun b hb => ?_, fun s hs b hb => ?_⟩
      · rcases mem_cons.1 hj with rfl | hj
        · refine .inl ⟨buf, mem_held.2 (.inr (.inl ?_)), rfl⟩
          exact mem_append_right _ (mem_append_right _ (mem_singleton.2 rfl))
        · exact .inr ⟨hj, fun b hb => absurd hb not_mem_nil⟩
      · rcases mem_held.1 hb with hb | hb | ⟨s, hs, hb⟩
        · exact .inl hb
        · exact .inr (.inl (mem_append_left _ hb))
        · rcases mem_seg_set {} hs hb with hb | hb
          · exact .inr (.inl (mem_append_right _ (mem_append_left _ hb)))
          · exact .inr (.inr hb)
      · rcases mem_append.1 hb with hb | hb
        · exact h.queue b hb
        rcases mem_append.1 hb with hb | hb
        · exact hseg0 i b hb
        · rw [mem_singleton.1 hb]
          exact hnew
      · rcases mem_or_eq_of_mem_set hs with hs | rfl
        · exact h.seg s hs b hb
        · exact absurd hb not_mem_nil
    · refine ⟨h.reachable.move [] (fun j hj => ?_) fun b hb => .inr ⟨b, mem_held.2 ?_, rfl⟩, h.last,
        h.queue, fun s hs b hb => ?_⟩
      · rcases mem_cons.1 hj with rfl | hj
        · exact .inl ⟨{ buf with seg := true }, mem_held.2 (.inr (.inr ⟨_, hself _,
            mem_append_right _ (mem_singleton.2 rfl)⟩)), rfl⟩
        · exact .inr ⟨hj, fun b hb => absurd hb not_mem_nil⟩
      · rcases mem_held.1 hb with hb | hb | ⟨s, hs, hb⟩
        · exact .inl hb
        · exact .inr (.inl hb)
        · rcases mem_seg_set ⟨(f.seg.getD i {}).queue ++ [{ buf with seg := true }], count⟩ hs hb with
            hb | hb
          · exact .inr (.inr ⟨_, hself _, mem_append_left _ hb⟩)
          · exact .inr (.inr hb)
      · rcases mem_or_eq_of_mem_set hs with hs | rfl
        · exact h.seg s hs b hb
        · rcases mem_append.1 hb with hb | hb
          · exact hseg0 i b hb
          · rw [mem_singleton.1 hb]
            exact hnew

theorem BufsOk.dropQueue (h : BufsOk f) (gone : List FriendBuf) (hlast : f'.last = f.last)
    (hseg : f'.seg = f.seg) (hlive : f'.live = (f.unref gone).live)
    (hqueue : ∀ b ∈ f.queue, b ∈ gone ∨ b ∈ f'.queue) (hsub : f'.queue ⊆ f.queue) : BufsOk f' where
  reachable := by
    refine h.reachable.move gone (fun id hid => .inr (mem_unref.1 (hlive ▸ hid))) fun b hb => ?_
    rcases mem_held.1 hb with hb | hb | hb
    · exact .inr ⟨b, mem_held.2 (.inl (hlast.trans hb)), rfl⟩
    · exact (hqueue b hb).imp_right fun hb' => ⟨b, mem_held.2 (.inr (.inl hb')), rfl⟩
    · exact .inr ⟨b, mem_held.2 (.inr (.inr (by rw [hseg]; exact hb))), rfl⟩
  last := hlast ▸ h.last
  queue b hb := h.queue b (hsub hb)
  seg := hseg ▸ h.seg

theorem friendQueuePrepareSpace_bufsOk (h : BufsOk f) (addr : ℕ) (seqAuth : Option ℕ)
    (segCount : UInt8) : BufsOk (friendQueuePrepareSpace cfg addr seqAuth segCount f).1 := by
  unfold friendQueuePrepareSpace
  split
  · have happ := (freeLoop_spec segCount false (availSpace cfg f) f.queue).1
    refine h.dropQueue (freeLoop segCount false (availSpace cfg f) f.queue).1 rfl rfl rfl
      (fun b hb => ?_) fun b hb => ?_
    · rwa [← happ, mem_append] at hb
    · rw [← happ]
      exact mem_append_right _ hb
  · exact h

theorem purgeForAck_bufsOk (h : BufsOk f) (pdu : QueuedPdu) : BufsOk (purgeForAck pdu f) := by
  unfold purgeForAck
  split
  · unfold friendPurgeOldAck
    split
    · exact h
    next i hi =>
      obtain ⟨hlt, -⟩ := findIdx?_eq_some_iff_getElem.1 hi
      refine h.dropQueue (f.queue[i]?.toList) rfl rfl rfl (fun b hb => ?_)
        (eraseIdx_subset)
      rw [getElem?_eq_getElem hlt]
      by_cases hbi : b = f.queue[i]
      · exact .inl (hbi ▸ mem_singleton.2 rfl)
      · refine .inr ?_
        obtain ⟨j, hj⟩ := mem_iff_getElem?.1 hb
        refine mem_eraseIdx_iff_getElem?.2 ⟨j, fun hji => hbi ?_, hj⟩
        rw [hji, getElem?_eq_getElem hlt] at hj
        exact (Option.some.inj hj).symm
  · exact h

theorem friendEnqueueRx_bufsOk (h : BufsOk f) (own : Bool) :
    BufsOk (friendEnqueueRx cfg own pdu f) := by
  unfold friendEnqueueRx
  split
  · exact h
  split
  · exact h
  have hprep : BufsOk (friendQueuePrepareSpace cfg pdu.info.src pdu.seqAuth pdu.segCount f).1 :=
    friendQueuePrepareSpace_bufsOk h _ _ _
  split
  next f' heq =>
    rw [heq] at hprep
    exact hprep
  next f' heq =>
    rw [heq] at hprep
    unfold friendLpnEnqueueRx
    split
    · exact hprep
    dsimp only
    split
    · exact purgeForAck_bufsOk hprep pdu
    next id hslot =>
      exact enqueueFriendPdu_bufsOk (purgeForAck_bufsOk hprep pdu) pdu.type
        (createFriendPdu id pdu.info pdu.sdu) rfl

theorem friendEnqueueTx_bufsOk (h : BufsOk f) (appIdx : ℕ) (uuidx : Option (Option ℕ)) :
    BufsOk (friendEnqueueTx cfg appIdx uuidx pdu f) := by
  unfold friendEnqueueTx
  split
  · exact h
  have hprep : BufsOk (friendQueuePrepareSpace cfg pdu.info.src pdu.seqAuth pdu.segCount f).1 :=
    friendQueuePrepareSpace_bufsOk h _ _ _
  split
  next f' heq =>
    rw [heq] at hprep
    exact hprep
  next f' heq =>
    rw [heq] at hprep
    have hpurged : BufsOk (purgeForAck pdu f') := purgeForAck_bufsOk hprep pdu
    unfold friendLpnEnqueueTx
    dsimp only
    split
    · exact hpurged
    next id hslot =>
      split
      · split
        · exact enqueueFriendPdu_bufsOk hpurged pdu.type
            { createFriendPdu id pdu.info pdu.sdu with appIdx := appIdx } rfl
        · -- The virtual label is not found: the buffer is given back.
          refine ⟨hpurged.reachable.move [] (fun i hi => ?_) fun b hb => .inr ⟨b, hb, rfl⟩,
            hpurged.last, hpurged.queue, hpurged.seg⟩
          obtain ⟨hi', hkept⟩ := mem_unref.1 hi
          rcases mem_cons.1 hi' with rfl | hi'
          · exact absurd rfl (hkept _ (mem_singleton.2 rfl))
          · exact .inr ⟨hi', fun b hb => absurd hb not_mem_nil⟩
        next uuidx =>
          exact enqueueFriendPdu_bufsOk hpurged pdu.type
            { createFriendPdu id pdu.info pdu.sdu with appIdx := appIdx, uuidx := uuidx } rfl
      · exact enqueueFriendPdu_bufsOk hpurged pdu.type (createFriendPdu id pdu.info pdu.sdu) rfl

theorem clearIncompleteLoop_mem {seqZero : ℕ} {segs : List Seg} {b : FriendBuf} :
    (∀ s ∈ segs, b ∈ s.queue → b ∈ (clearIncompleteLoop src seqZero segs).1 ∨
        ∃ s' ∈ (clearIncompleteLoop src seqZero segs).2, b ∈ s'.queue) ∧
      (∀ s' ∈ (clearIncompleteLoop src seqZero segs).2, b ∈ s'.queue → ∃ s ∈ segs, b ∈ s.queue) := by
  induction segs with
  | nil => exact ⟨fun s hs => absurd hs not_mem_nil, fun s hs => absurd hs not_mem_nil⟩
  | cons seg segs ih =>
    rw [clearIncompleteLoop]
    split
    · constructor
      · intro s hs hb
        rcases mem_cons.1 hs with rfl | hs
        · exact .inl hb
        · exact .inr ⟨s, mem_cons_of_mem _ hs, hb⟩
      · intro s hs hb
        rcases mem_cons.1 hs with rfl | hs
        · exact absurd hb not_mem_nil
        · exact ⟨s, mem_cons_of_mem _ hs, hb⟩
    · constructor
      · intro s hs hb
        rcases mem_cons.1 hs with rfl | hs
        · exact .inr ⟨s, mem_cons_self, hb⟩
        · exact (ih.1 s hs hb).imp_right fun ⟨s', hs', hb'⟩ => ⟨s', mem_cons_of_mem _ hs', hb'⟩
      · intro s hs hb
        rcases mem_cons.1 hs with rfl | hs
        · exact ⟨s, mem_cons_self, hb⟩
        · obtain ⟨s', hs', hb'⟩ := ih.2 s hs hb
          exact ⟨s', mem_cons_of_mem _ hs', hb'⟩

theorem friendClearIncomplete_bufsOk (h : BufsOk f) (src seqAuth : ℕ) :
    BufsOk (friendClearIncomplete src seqAuth f) := by
  unfold friendClearIncomplete
  split
  · exact h
  refine ⟨h.reachable.move (clearIncompleteLoop src (seqAuth % (seqZeroMask + 1)) f.seg).1
    (fun id hid => .inr (mem_unref.1 hid)) fun b hb => ?_, h.last, h.queue, fun s hs b hb => ?_⟩
  · rcases mem_held.1 hb with hb | hb | ⟨s, hs, hb⟩
    · exact .inr ⟨b, mem_held.2 (.inl hb), rfl⟩
    · exact .inr ⟨b, mem_held.2 (.inr (.inl hb)), rfl⟩
    · exact (clearIncompleteLoop_mem.1 s hs hb).imp_right fun hb' =>
        ⟨b, mem_held.2 (.inr (.inr hb')), rfl⟩
  · obtain ⟨s', hs', hb'⟩ := clearIncompleteLoop_mem.2 s hs hb
    exact h.seg s' hs' b hb'

/-! ## Sending -/

theorem sendLastBuf_spec (h : BufsOk f) (adv : Bool) :
    BufsOk (sendLastBuf adv f).1 ∧ ∀ b ∈ (sendLastBuf adv f).2, b.encrypted = 1 := by
  unfold sendLastBuf
  split
  · refine ⟨h.congr rfl rfl rfl rfl, fun b hb => h.last b ?_⟩
    exact Option.mem_toList.1 hb
  · exact ⟨h, fun b hb => absurd hb not_mem_nil⟩

theorem updateOverwrite_id (md : UInt8) (buf : FriendBuf) :
    (updateOverwrite md buf).id = buf.id ∧ (updateOverwrite md buf).encrypted = buf.encrypted := by
  unfold updateOverwrite
  split <;> exact ⟨rfl, rfl⟩

/-- **The next PDU is taken from the queue**, encrypted and sent. -/
theorem friendTimeout_bufsOk (h : BufsOk f) (adv : Bool)
    (hok : f.Takes → f.last = none ∧ (f.queue ≠ [] → e.ok = true)) :
    BufsOk (friendTimeout e adv f).1 ∧ ∀ b ∈ (friendTimeout e adv f).2, b.encrypted = 1 := by
  unfold friendTimeout
  split
  · exact ⟨h, fun b hb => absurd hb not_mem_nil⟩
  split
  · refine sendLastBuf_spec ?_ adv
    exact h.congr rfl rfl rfl rfl
  split
  · exact ⟨friendClear_bufsOk h, fun b hb => absurd hb not_mem_nil⟩
  next halloc hsend hlost =>
    have htakes : f.Takes := by
      refine ⟨not_not.1 halloc, hsend, fun hest => ?_⟩
      by_contra hreq
      exact hlost ⟨hest, hreq⟩
    obtain ⟨hlast, henc⟩ := hok htakes
    cases hqueue : f.queue with
    | nil =>
      refine ⟨friendClear_bufsOk ?_, fun b hb => absurd hb not_mem_nil⟩
      exact h.congr hlast.symm hqueue.symm rfl rfl
    | cons buf bufs =>
      have hok' : e.ok = true := henc (by rw [hqueue]; exact cons_ne_nil _ _)
      have hold : buf.encrypted = 0 := h.queue buf (by rw [hqueue]; exact mem_cons_self)
      have hsub : ∀ b ∈ bufs, b ∈ f.queue := fun b hb => by
        rw [hqueue]
        exact mem_cons_of_mem _ hb
      dsimp only
      rw [if_pos hok']
      obtain ⟨hid, hcount⟩ := updateOverwrite_id (if bufs = [] then 0 else 1) buf
      refine sendLastBuf_spec ?_ adv
      refine ⟨?_, fun b hb => ?_, fun b hb => h.queue b (hsub b hb), h.seg⟩
      · refine h.reachable.move [] (fun i hi => .inr ⟨hi, fun b hb => absurd hb not_mem_nil⟩)
          fun b hb => .inr ?_
        rcases mem_held.1 hb with hb | hb | hb
        · exact nomatch hlast.symm.trans hb
        · rw [hqueue] at hb
          rcases mem_cons.1 hb with rfl | hb
          · exact ⟨_, mem_held.2 (.inl rfl), hid⟩
          · exact ⟨b, mem_held.2 (.inr (.inl hb)), rfl⟩
        · exact ⟨b, mem_held.2 (.inr (.inr hb)), rfl⟩
      · obtain rfl := Option.some.inj hb
        show (updateOverwrite _ buf).encrypted + (if e.ok = true then 1 else 0) = 1
        rw [hcount, hold, if_pos hok']

/-! ## Runs -/

/-- No encryption fails of a buffer that is not in the queue any more, or
never was, and a PDU is taken from the queue with nothing left to send. -/
def BufsStepOk (f : Frnd) : FriendEvent → Prop
  | .req _ credOk pdu e => credOk = true → pdu.slot.isSome = true → e.ok = true
  | .subList pdu e =>
      f.allocated = true ∧ f.established = true → f.pendingBuf = false →
        pdu.slot.isSome = true → e.ok = true
  | .timeout e _ => f.Takes → f.last = none ∧ (f.queue ≠ [] → e.ok = true)
  | _ => True

instance (f : Frnd) (ev : FriendEvent) : Decidable (BufsStepOk f ev) :=
  match ev with
  | .req .. => inferInstanceAs (Decidable (_ = true → _ = true → _ = true))
  | .subList .. => inferInstanceAs (Decidable (_ ∧ _ → _ = false → _ = true → _ = true))
  | .timeout .. => inferInstanceAs (Decidable (f.Takes → _ ∧ _))
  | .poll .. | .secUpdate .. | .enqueueRx .. | .enqueueTx .. | .clearIncomplete .. | .sendStart
  | .clear => .isTrue trivial

theorem friendPoll_bufsOk (h : BufsOk f) (fsn : Bool) : BufsOk (friendPoll cfg fsn ctl f) := by
  unfold friendPoll
  split
  · exact h
  split
  · exact h
  dsimp only
  split
  · exact h.congr rfl rfl rfl rfl
  have hdropped : BufsOk { f.unref f.last.toList with
      pendingReq := true, last := none, fsn := fsn } := h.dropLast rfl rfl rfl rfl
  split
  · exact (enqueueUpdate_bufsOk hdropped).congr rfl rfl rfl rfl
  · exact hdropped.congr rfl rfl rfl rfl

/-- **One step** keeps the buffers, and sends what has been encrypted once. -/
theorem friendStep_bufsOk (cfg : FriendCfg) (h : BufsOk f) {ev : FriendEvent} (hok : BufsStepOk f ev) :
    BufsOk (friendStep cfg f ev) ∧ ∀ b ∈ friendSent f ev, b.encrypted = 1 := by
  have hnone : ∀ b ∈ ([] : List FriendBuf), b.encrypted = 1 := fun b hb =>
    absurd hb not_mem_nil
  cases ev with
  | req lpn credOk pdu e =>
    refine ⟨?_, hnone⟩
    have hcleared : BufsOk (if f.allocated then friendClear f else f) := by
      split
      · exact friendClear_bufsOk h
      · exact h
    show BufsOk (friendReq cfg lpn credOk pdu e f)
    unfold friendReq
    dsimp only
    split
    next hcred =>
      refine replaceLast_bufsOk ?_ ctlOpFriendOffer (hok hcred)
      exact hcleared.congr rfl rfl rfl rfl
    · exact friendClear_bufsOk (hcleared.congr rfl rfl rfl rfl)
  | subList pdu e =>
    refine ⟨?_, hnone⟩
    show BufsOk (friendSubList cfg pdu e f)
    unfold friendSubList
    split
    · exact h
    next hest =>
      split
      · exact h
      next hpending =>
        refine replaceLast_bufsOk ?_ ctlOpFriendSubCfm
          (hok (not_not.1 hest) (Bool.eq_false_iff.2 hpending))
        exact h.congr rfl rfl rfl rfl
  | poll fsn pdu => exact ⟨friendPoll_bufsOk h fsn, hnone⟩
  | secUpdate pdu =>
    refine ⟨?_, hnone⟩
    show BufsOk (friendSecUpdate cfg pdu f)
    unfold friendSecUpdate
    split
    · exact enqueueUpdate_bufsOk h
    · exact h
  | enqueueRx own pdu => exact ⟨friendEnqueueRx_bufsOk h own, hnone⟩
  | enqueueTx appIdx uuidx pdu => exact ⟨friendEnqueueTx_bufsOk h appIdx uuidx, hnone⟩
  | clearIncomplete src seqAuth => exact ⟨friendClearIncomplete_bufsOk h src seqAuth, hnone⟩
  | timeout e adv => exact friendTimeout_bufsOk h adv hok
  | sendStart =>
    refine ⟨?_, hnone⟩
    show BufsOk (bufSendStart f)
    unfold bufSendStart
    split
    · exact h
    dsimp only
    split
    · exact h.dropLast rfl rfl rfl rfl
    · exact h.congr rfl rfl rfl rfl
  | clear =>
    refine ⟨?_, hnone⟩
    show BufsOk (if f.allocated then friendClear f else f)
    split
    · exact friendClear_bufsOk h
    · exact h

theorem frndInit_bufsOk (segRx : ℕ) : BufsOk (frndInit segRx) where
  reachable _ hid := absurd hid not_mem_nil
  last _ hb := nomatch hb
  queue _ hb := absurd hb not_mem_nil
  seg s hs b hb := by
    rw [eq_of_mem_replicate hs] at hb
    exact absurd hb not_mem_nil

/-- **The buffers of a Friend.** In every run whose steps meet the
condition, everything handed to `bt_mesh_adv_send` has been encrypted
exactly once, and every buffer taken from the pool and not given back is in
`frnd->last`, the queue or a list of segments. -/
theorem friend_bufs (cfg : FriendCfg) (segRx : ℕ) (es : List FriendEvent)
    (hrun : Along (friendStep cfg) BufsStepOk (frndInit segRx) es) :
    (∀ b ∈ emitted (friendStep cfg) friendSent (frndInit segRx) es, b.encrypted = 1) ∧
      (run (friendStep cfg) (frndInit segRx) es).Reachable := by
  have hstart : BufsOk (frndInit segRx) ∧ ∀ b ∈ ([] : List FriendBuf), b.encrypted = 1 :=
    ⟨frndInit_bufsOk segRx, fun b hb => absurd hb List.not_mem_nil⟩
  have hlog := log_run friendSent (fun f log => BufsOk f ∧ ∀ b ∈ log, b.encrypted = 1)
    (fun f ev log hinv hok => ?_) hstart hrun
  · exact ⟨hlog.2, hlog.1.reachable⟩
  · obtain ⟨hnext, hsent⟩ := friendStep_bufsOk cfg hinv.1 hok
    exact ⟨hnext, fun b hb => (List.mem_append.1 hb).elim (hinv.2 b) (hsent b)⟩

/-- The Low Power Node polls, and is sent a Friend Update. -/
def pollRun : List FriendEvent := friendship ++ [.timeout ⟨true, [], keyUnused⟩ true]

theorem friend_bufs_poll :
    (run (friendStep defaultFriendCfg) (frndInit 1) pollRun).Reachable := by
  refine (friend_bufs defaultFriendCfg 1 pollRun ?_).2
  simp only [pollRun, friendship, List.cons_append, List.nil_append, along_cons]
  exact ⟨by decide, by decide, trivial, trivial, by decide, trivial⟩

/-- **The encryption of a PDU fails**, and the Low Power Node polls again
with the same sequence number: the PDU is sent as it is. **The encryption of
an answer fails**: its buffer is nowhere. -/
theorem sent_plain_and_lost :
    (∃ b ∈ emitted (friendStep defaultFriendCfg) friendSent (frndInit 1)
        (friendship ++ [.timeout ⟨false, [1], keyUnused⟩ true, .poll true ⟨none, 0, []⟩,
          .timeout ⟨true, [], keyUnused⟩ true]), b.encrypted ≠ 1) ∧
      ¬ (run (friendStep defaultFriendCfg) (frndInit 1)
        (friendship ++ [.subList ⟨some 1, 5, [7]⟩ ⟨false, [], keyUnused⟩])).Reachable := by
  refine ⟨by decide, fun h => ?_⟩
  obtain ⟨b, hb, hid⟩ := h 1 (by decide)
  revert b
  decide

end Friend

end OpenBlue

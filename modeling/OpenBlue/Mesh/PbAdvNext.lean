import OpenBlue.Mesh.PbAdvAck
/-!
# Mesh — what a provisioning link leaves to the next

`reset_adv_link` clears, in a device, the fields it names. The mask of
missing segments, the PDUs that are not acknowledged and the bytes of the
receive buffer stay. Where a link closes with none of the first two, and
the next reads no byte of the third that it has not received itself
(`ReadsKnown`), the next link does what it does in a bearer that has just
started (`next_link_fresh`): the last segment, the frame check sequence and
the acknowledgment on its way are left behind as well, but are written
before they are read.
-/

namespace OpenBlue

namespace PbAdv

open List

variable {uuid : Bytes} {env : Env} {x gpc : UInt8} {buf pdu : Bytes} {l : Link} {b : Bearer}
  {known : ℕ → Bool}

/-! ## What is read of an earlier link -/

/-- A Start is stored. -/
def StartStored (x gpc : UInt8) (buf : Bytes) (l : Link) : Prop :=
  StartTaken x l ∧ StartValid gpc buf ∧ pastLast l.rx.seg (gpc.toNat / 4) = false

/-- A Continuation is stored: it is of the transaction being received, and
its segment is missing and fits. -/
def ContStored (x gpc : UInt8) (buf : Bytes) (l : Link) : Prop :=
  ¬ (l.rx.seg = 0 ∧ l.rx.id = x) ∧ ¬ (l.tx.adv ≠ [] ∨ x ≠ (contFound x l).rx.id) ∧
    ContFits (gpc.toNat / 4) buf (contFound x l)

instance (x gpc : UInt8) (buf : Bytes) (l : Link) : Decidable (StartStored x gpc buf l) := by
  delta StartStored; infer_instance

instance (x gpc : UInt8) (buf : Bytes) (l : Link) : Decidable (ContStored x gpc buf l) := by
  delta ContStored; infer_instance

/-- The known bytes of the receive buffer, with `n` more from `offset` on. -/
def mark (offset n : ℕ) (known : ℕ → Bool) : ℕ → Bool :=
  fun i => known i || (decide (offset ≤ i) && decide (i < offset + n))

/-- The known bytes of the receive buffer after a PDU is heard. -/
def learn (x gpc : UInt8) (buf : Bytes) (l : Link) (known : ℕ → Bool) : ℕ → Bool :=
  match gpc.toNat % 4 with
  | 0 =>
    if 3 ≤ buf.length ∧ StartStored x gpc buf l then mark 0 (buf.drop 3).length known else known
  | 2 =>
    if ContStored x gpc buf l then mark (xactSegOffset (gpc.toNat / 4)) buf.length known
    else known
  | _ => known

/-- The message that a Start completes has no other bytes than these. -/
def StartReads (known : ℕ → Bool) (x gpc : UInt8) (buf : Bytes) (l : Link) : Prop :=
  StartStored x gpc buf l → startMissing (gpc.toNat / 4) l.rx.seg = 0 →
    ∀ i < beNat (buf.take 2), mark 0 (buf.drop 3).length known i = true

/-- The message that a Continuation completes has no other bytes than
these. -/
def ContReads (known : ℕ → Bool) (x gpc : UInt8) (buf : Bytes) (l : Link) : Prop :=
  let seg := gpc.toNat / 4
  ContStored x gpc buf l → xactSegRecv (contFound x l).rx.seg seg = 0 →
    ¬ LastLengthWrong seg buf (contFound x l) →
    ∀ i < (contFound x l).rx.len, mark (xactSegOffset seg) buf.length known i = true

/-- The message that a PDU completes has no other bytes than these and its
own. -/
def SegmentReads (known : ℕ → Bool) (x gpc : UInt8) (buf : Bytes) (l : Link) : Prop :=
  (gpc.toNat % 4 = 0 → 3 ≤ buf.length → StartReads known x gpc buf l) ∧
    (gpc.toNat % 4 = 2 → ContReads known x gpc buf l)

/-- A step, with the bytes of the receive buffer that are known. -/
def watchKnown (uuid : Bytes) (s : Bearer × (ℕ → Bool)) (e : LinkEvent) : Bearer × (ℕ → Bool) :=
  ((s.1.step uuid e).1,
    match e with
    | .recv _ pdu =>
      if Heard s.1.link pdu then learn (xactOf pdu) (gpcOf pdu) (pdu.drop 6) s.1.link s.2 else s.2
    | _ => s.2)

/-- A reception reads no byte of the receive buffer that is not known. -/
def ReadsKnown (s : Bearer × (ℕ → Bool)) : LinkEvent → Prop
  | .recv _ pdu => Heard s.1.link pdu →
    SegmentReads s.2 (xactOf pdu) (gpcOf pdu) (pdu.drop 6) s.1.link
  | _ => True

instance (known : ℕ → Bool) (x gpc : UInt8) (buf : Bytes) (l : Link) :
    Decidable (StartReads known x gpc buf l) := by delta StartReads; infer_instance

instance (known : ℕ → Bool) (x gpc : UInt8) (buf : Bytes) (l : Link) :
    Decidable (ContReads known x gpc buf l) := by delta ContReads; infer_instance

instance (known : ℕ → Bool) (x gpc : UInt8) (buf : Bytes) (l : Link) :
    Decidable (SegmentReads known x gpc buf l) := by delta SegmentReads; infer_instance

instance (s : Bearer × (ℕ → Bool)) : ∀ e : LinkEvent, Decidable (ReadsKnown s e)
  | .recv _ pdu => inferInstanceAs (Decidable (Heard s.1.link pdu →
      SegmentReads s.2 (xactOf pdu) (gpcOf pdu) (pdu.drop 6) s.1.link))
  | .txWork | .sendEnd .. | .protTimer .. | .retransmit .. | .linkOpen .. | .linkAccept ..
  | .linkClose .. | .send .. | .clearTx | .reset .. => .isTrue trivial

/-! ## What differs from a bearer that has just started -/

/-- The fields of a link that are written before they are read. -/
structure Leftover where
  data : Bytes
  lastSeg : ℕ
  fcs : UInt8
  pendingAck : UInt8

/-- The link with other such fields. -/
def Link.put (o : Leftover) (l : Link) : Link :=
  { l with
    rx := { l.rx with data := o.data, lastSeg := o.lastSeg, fcs := o.fcs }
    tx := { l.tx with pendingAck := o.pendingAck } }

/-- They agree with those of the link where the link may read them. -/
structure Harmless (known : ℕ → Bool) (l : Link) (o : Leftover) : Prop where
  size : l.rx.data.length = rxBufferMax
  size' : o.data.length = rxBufferMax
  data : ∀ i, known i = true → o.data[i]? = l.rx.data[i]?
  lastSeg : l.rx.seg ≠ 0 → o.lastSeg = l.rx.lastSeg
  fcs : l.rx.seg ≠ 0 → l.rx.seg.getLsbD 0 = false → o.fcs = l.rx.fcs
  pendingAck : l.ackPending = true → o.pendingAck = l.tx.pendingAck

theorem Harmless.congr {o : Leftover} {l' : Link} (h : Harmless known l o)
    (hrx : { l'.rx with id := l.rx.id, len := l.rx.len } = l.rx)
    (hack : l'.ackPending = l.ackPending) (hpending : l'.tx.pendingAck = l.tx.pendingAck) :
    Harmless known l' o := by
  obtain ⟨-, hseg, hlast, hfcs, hdata, -⟩ := Rx.mk.inj hrx
  exact ⟨hdata ▸ h.size, h.size', hdata ▸ h.data, hseg ▸ hlast ▸ h.lastSeg,
    hseg ▸ hfcs ▸ h.fcs, hack ▸ hpending ▸ h.pendingAck⟩

/-- A step of a link, beside the same of the link with other fields. -/
def Alike (known : ℕ → Bool) (r r' : Link × List Out) : Prop :=
  ∃ o, r' = (r.1.put o, r.2) ∧ Harmless known r.1 o

variable {o : Leftover}

theorem Harmless.alike (h : Harmless known l o) (outs : List Out) :
    Alike known (l, outs) (l.put o, outs) :=
  ⟨o, rfl, h⟩

theorem Alike.ite {c : Prop} [Decidable c] {r₁ r₂ r₁' r₂' : Link × List Out}
    (hpos : c → Alike known r₁ r₁') (hneg : ¬ c → Alike known r₂ r₂') :
    Alike known (if c then r₁ else r₂) (if c then r₁' else r₂') := by
  split
  next hc => exact hpos hc
  next hc => exact hneg hc

theorem provFailed_alike (err : ℕ) (h : Harmless known l o) :
    Alike known (provFailed err l) (provFailed err (l.put o)) :=
  ⟨o, rfl, h.congr rfl rfl rfl⟩

theorem genProvAckSend_alike (env : Env) (x : UInt8) (h : Harmless known l o) :
    Alike known (genProvAckSend env x l) (genProvAckSend env x (l.put o)) := by
  unfold genProvAckSend
  by_cases hpending : l.ackPending = true
  · -- the acknowledgment on its way is of this link
    have hsame : (l.put o).tx.pendingAck = l.tx.pendingAck := h.pendingAck hpending
    have hpending' : (l.put o).ackPending = true := hpending
    rw [hsame]
    simp only [hpending, hpending', true_and]
    have hkept : ∀ pending, Harmless known { l with ackPending := pending } o := fun _ =>
      ⟨h.size, h.size', h.data, h.lastSeg, h.fcs, fun _ => hsame⟩
    split
    · exact h.alike []
    split
    · split
      · exact (hkept true).alike _
      · exact (hkept false).alike _
    · exact (hkept false).alike _
  · have hpending' : ¬ (l.put o).ackPending = true := hpending
    have hfirst : ¬ (l.ackPending = true ∧ l.tx.pendingAck = x) := fun h => hpending h.1
    have hfirst' : ¬ ((l.put o).ackPending = true ∧ (l.put o).tx.pendingAck = x) :=
      fun h => hpending' h.1
    rw [if_neg hfirst, if_neg hfirst']
    have hnew : ∀ pending, Harmless known
        { l with ackPending := pending, tx := { l.tx with pendingAck := x } }
        { o with pendingAck := x } := fun _ =>
      ⟨h.size, h.size', h.data, h.lastSeg, h.fcs, fun _ => rfl⟩
    split
    · dsimp only
      split
      · exact (hnew true).alike _
      · exact (hnew false).alike _
    · have hkept : Harmless known { l with ackPending := false } o :=
        ⟨h.size, h.size', h.data, h.lastSeg, h.fcs, fun h => absurd h Bool.false_ne_true⟩
      exact hkept.alike []

theorem resendAck_alike (env : Env) (x : UInt8) (h : Harmless known l o) :
    Alike known (resendAck env x l) (resendAck env x (l.put o)) := by
  unfold resendAck
  exact Alike.ite (fun _ => h.alike []) fun _ => genProvAckSend_alike env x h

theorem Harmless.take_eq (h : Harmless known l o) {n : ℕ} (hknown : ∀ i < n, known i = true) :
    o.data.take n = l.rx.data.take n := by
  refine ext_getElem? fun i => ?_
  rw [getElem?_take, getElem?_take]
  split
  next hi => exact h.data i (hknown i hi)
  · rfl

/-- **A message is the same where its bytes are known.** -/
theorem provMsgRecv_alike (env : Env) (h : Harmless known l o) (hfcs : o.fcs = l.rx.fcs)
    (hknown : ∀ i < l.rx.len, known i = true) :
    Alike known (provMsgRecv env l) (provMsgRecv env (l.put o)) := by
  have hmsg : (l.put o).rx.data.take (l.put o).rx.len = l.rx.data.take l.rx.len :=
    h.take_eq hknown
  have hfcs' : (l.put o).rx.fcs = l.rx.fcs := hfcs
  unfold provMsgRecv
  rw [hmsg, hfcs']
  refine Alike.ite (fun _ => ?_) fun _ => h.alike []
  obtain ⟨o', hack, h'⟩ := genProvAckSend_alike env l.rx.id h
  have hack : genProvAckSend env (l.put o).rx.id (l.put o) = _ := hack
  rw [hack]
  generalize genProvAckSend env l.rx.id l = r at h' ⊢
  exact Alike.ite (fun _ => ⟨o', rfl, h'.congr rfl rfl rfl⟩) fun _ =>
    ⟨o', rfl, h'.congr rfl rfl rfl⟩

theorem mark_of_known {offset n i : ℕ} (h : known i = true) : mark offset n known i = true := by
  rw [mark, h, Bool.true_or]

theorem getElem?_memcpy_known {data data' src : Bytes} {offset : ℕ}
    (hsize : data.length = rxBufferMax) (hsize' : data'.length = rxBufferMax)
    (hdata : ∀ i, known i = true → data'[i]? = data[i]?) (hfits : offset + src.length ≤ rxBufferMax) :
    ∀ i, mark offset src.length known i = true →
      (memcpy data' offset src)[i]? = (memcpy data offset src)[i]? := by
  intro i hi
  rw [getElem?_memcpy (by omega), getElem?_memcpy (by omega)]
  split
  · rfl
  next hout =>
    refine hdata i ?_
    rcases Bool.or_eq_true_iff.1 hi with h | h
    · exact h
    · simp only [Bool.and_eq_true, decide_eq_true_eq] at h
      exact absurd h hout

theorem length_memcpy_fits {data src : Bytes} {offset : ℕ} (hsize : data.length = rxBufferMax)
    (hfits : offset + src.length ≤ rxBufferMax) : (memcpy data offset src).length = rxBufferMax :=
  (length_memcpy (by omega)).trans hsize

theorem startStore_alike (env : Env) {last : ℕ} {payload : Bytes} (h : Harmless known l o)
    (hfcs : o.fcs = l.rx.fcs) (hfits : payload.length ≤ rxBufferMax)
    (hread : pastLast l.rx.seg last = false → startMissing last l.rx.seg = 0 →
      ∀ i < l.rx.len, mark 0 payload.length known i = true) :
    Alike (if pastLast l.rx.seg last = false then mark 0 payload.length known else known)
      (startStore env last payload l) (startStore env last payload (l.put o)) := by
  rw [startStore_eq, startStore_eq]
  have hseg : (l.put o).rx.seg = l.rx.seg := rfl
  rw [hseg]
  cases hpast : pastLast l.rx.seg last with
  | true =>
    rw [if_pos rfl, if_pos rfl, if_neg (by decide)]
    have hlast : Harmless known (provClearTx { l with rx := { l.rx with lastSeg := last } })
        { o with lastSeg := last } :=
      ⟨h.size, h.size', h.data, fun _ => rfl, fun _ _ => hfcs, h.pendingAck⟩
    exact provFailed_alike provErrNvalFmt hlast
  | false =>
    rw [if_neg Bool.false_ne_true, if_neg Bool.false_ne_true, if_pos rfl]
    have hfits : 0 + payload.length ≤ rxBufferMax := by omega
    have hstored : Harmless (mark 0 payload.length known) (startStored last payload l)
        { o with lastSeg := last, data := memcpy o.data 0 payload } :=
      ⟨length_memcpy_fits h.size hfits, length_memcpy_fits h.size' hfits,
        getElem?_memcpy_known h.size h.size' h.data hfits, fun _ => rfl, fun _ _ => hfcs,
        h.pendingAck⟩
    have hput : startStored last payload (l.put o) = (startStored last payload l).put
        { o with lastSeg := last, data := memcpy o.data 0 payload } := rfl
    rw [hput]
    exact Alike.ite (fun hzero => provMsgRecv_alike env hstored hfcs (hread hpast hzero)) fun _ =>
      hstored.alike []

/-- The storage of a Continuation in the link it finds. -/
theorem contStore_alike (env : Env) {seg : ℕ} (h : Harmless known l o) (hne : l.rx.seg ≠ 0)
    (hread : ContFits seg buf l → xactSegRecv l.rx.seg seg = 0 → ¬ LastLengthWrong seg buf l →
      ∀ i < l.rx.len, mark (xactSegOffset seg) buf.length known i = true) :
    Alike (if ContFits seg buf l then mark (xactSegOffset seg) buf.length known else known)
      (contStore env seg buf l) (contStore env seg buf (l.put o)) := by
  have hlast : (l.put o).rx.lastSeg = l.rx.lastSeg := h.lastSeg hne
  have hsame : ContFits seg buf (l.put o) ↔ ContFits seg buf l := by
    unfold ContFits
    rw [hlast]
    rfl
  have hwrong : LastLengthWrong seg buf (l.put o) ↔ LastLengthWrong seg buf l := by
    unfold LastLengthWrong
    rw [hlast]
    rfl
  by_cases hfits : ContFits seg buf l
  · rw [if_pos hfits, contStore_fits hfits, contStore_fits (hsame.2 hfits)]
    have hroom : xactSegOffset seg + buf.length ≤ rxBufferMax := hfits.2.2
    have hfcs (h0 : (xactSegRecv l.rx.seg seg).getLsbD 0 = false) : o.fcs = l.rx.fcs := by
      refine h.fcs hne ?_
      rw [getLsbD_xactSegRecv _ (by decide)] at h0
      have hseg : 0 ≠ seg := fun h => hfits.1 (.inr h.symm)
      simpa [hseg] using h0
    have hkept : Harmless (mark (xactSegOffset seg) buf.length known) (contWritten seg buf l)
        { o with data := memcpy o.data (xactSegOffset seg) buf } :=
      ⟨length_memcpy_fits h.size hroom, length_memcpy_fits h.size' hroom,
        getElem?_memcpy_known h.size h.size' h.data hroom, fun _ => hlast, fun _ => hfcs,
        h.pendingAck⟩
    have hput : contWritten seg buf (l.put o) = (contWritten seg buf l).put
        { o with data := memcpy o.data (xactSegOffset seg) buf } := rfl
    have hseg : (l.put o).rx.seg = l.rx.seg := rfl
    rw [hput, hseg]
    simp only [hwrong]
    refine Alike.ite (fun _ => provFailed_alike provErrNvalFmt hkept) fun hbad =>
      Alike.ite (fun hzero => ?_) fun _ => hkept.alike []
    have h0 : (xactSegRecv l.rx.seg seg).getLsbD 0 = false := (eq_zero_iff _).1 hzero 0 (by decide)
    exact provMsgRecv_alike env hkept (hfcs h0) (hread hfits hzero fun hw => hbad ⟨hw, h0⟩)
  · rw [if_neg hfits, contStore_not_fits hfits, contStore_not_fits fun h => hfits (hsame.1 h), hlast]
    exact Alike.ite (fun _ => provFailed_alike provErrNvalFmt h) fun _ => h.alike []

/-- **A Start is taken alike.** -/
theorem genProvStart_alike (env : Env) (h : Harmless known l o)
    (hread : StartReads known x gpc buf l) :
    Alike (if StartStored x gpc buf l then mark 0 (buf.drop 3).length known else known)
      (genProvStart env x gpc buf l) (genProvStart env x gpc buf (l.put o)) := by
  rw [genProvStart_eq, genProvStart_eq]
  refine Alike.ite (fun hre => ?_) fun _ => Alike.ite (fun htaken => ?_) fun htaken => ?_
  · rw [if_neg fun hs : StartStored x gpc buf l => hs.1.1 hre]
    exact resendAck_alike env x h
  · rw [if_neg fun hs : StartStored x gpc buf l => htaken hs.1]
    exact h.alike []
  have hnamed : Harmless known (startNamed x buf l) { o with fcs := (buf.drop 2).headD 0 } :=
    ⟨h.size, h.size', h.data, h.lastSeg, fun _ _ => rfl, h.pendingAck⟩
  have hput : startNamed x buf (l.put o) =
      (startNamed x buf l).put { o with fcs := (buf.drop 2).headD 0 } := rfl
  rw [hput]
  refine Alike.ite (fun hvalid => ?_) fun hvalid => ?_
  · rw [if_neg fun hs : StartStored x gpc buf l => hvalid hs.2.1]
    exact provFailed_alike provErrNvalFmt hnamed
  rw [not_not] at htaken hvalid
  have hfits : (buf.drop 3).length ≤ rxBufferMax := hvalid.2.2.1.trans hvalid.2.1
  have hstored : StartStored x gpc buf l ↔
      pastLast (startNamed x buf l).rx.seg (gpc.toNat / 4) = false :=
    ⟨fun hs => hs.2.2, fun hpast => ⟨htaken, hvalid, hpast⟩⟩
  rw [if_congr hstored rfl rfl]
  exact startStore_alike env hnamed rfl hfits fun hpast hzero => hread (hstored.2 hpast) hzero

theorem contFound_alike (x : UInt8) (h : Harmless known l o) :
    ∃ o', contFound x (l.put o) = (contFound x l).put o' ∧ Harmless known (contFound x l) o' := by
  unfold contFound
  by_cases hnext : l.rx.seg = 0 ∧ nextTransactionId l.rx.id = x
  · rw [if_pos hnext, if_pos (show (l.put o).rx.seg = 0 ∧ nextTransactionId (l.put o).rx.id = x
      from hnext)]
    -- nothing of the message has come, and the number of segments is not known
    refine ⟨{ o with lastSeg := segNval }, rfl, h.size, h.size', h.data, fun _ => rfl,
      fun _ h0 => ?_, h.pendingAck⟩
    have hall : (startLost x l).rx.seg = BitVec.ofNat 8 segNval := rfl
    rw [hall] at h0
    exact absurd h0 (by decide)
  · rw [if_neg hnext, if_neg (show ¬ ((l.put o).rx.seg = 0 ∧ nextTransactionId (l.put o).rx.id = x)
      from hnext)]
    exact ⟨o, rfl, h⟩

theorem contFound_seg_ne_zero (hre : ¬ (l.rx.seg = 0 ∧ l.rx.id = x))
    (hid : x = (contFound x l).rx.id) : (contFound x l).rx.seg ≠ 0 := by
  unfold contFound at hid ⊢
  split
  · exact (by decide : BitVec.ofNat 8 segNval ≠ 0)
  next hnext =>
    rw [if_neg hnext] at hid
    exact fun h0 => hre ⟨h0, hid.symm⟩

/-- **A Continuation is taken alike.** -/
theorem genProvCont_alike (env : Env) (h : Harmless known l o)
    (hread : ContReads known x gpc buf l) :
    Alike (if ContStored x gpc buf l then mark (xactSegOffset (gpc.toNat / 4)) buf.length known
        else known) (genProvCont env x gpc buf l) (genProvCont env x gpc buf (l.put o)) := by
  rw [genProvCont_eq, genProvCont_eq]
  obtain ⟨o', hput, hfound⟩ := contFound_alike x h
  rw [hput]
  refine Alike.ite (fun hre => ?_) fun hre => Alike.ite (fun hother => ?_) fun hother => ?_
  · rw [if_neg fun hs : ContStored x gpc buf l => hs.1 hre]
    exact resendAck_alike env x h
  · rw [if_neg fun hs : ContStored x gpc buf l => hs.2.1 hother]
    exact h.alike []
  have hid : x = (contFound x l).rx.id := not_not.1 (not_or.1 hother).2
  have hstored : ContStored x gpc buf l ↔ ContFits (gpc.toNat / 4) buf (contFound x l) :=
    ⟨fun hs => hs.2.2, fun hfits => ⟨hre, hother, hfits⟩⟩
  rw [if_congr hstored rfl rfl]
  exact contStore_alike env hfound (contFound_seg_ne_zero hre hid) fun hfits hzero hlen =>
    hread (hstored.2 hfits) hzero hlen

theorem genProvAck_alike (x : UInt8) (h : Harmless known l o) :
    Alike known (genProvAck x l) (genProvAck x (l.put o)) := by
  unfold genProvAck
  refine Alike.ite (fun _ => h.alike []) fun _ => Alike.ite (fun _ => ?_) fun _ => h.alike []
  cases hclosing : l.closing with
  | true => exact ⟨o, by simp [Link.put, hclosing], h⟩
  | false => exact ⟨o, by simp [Link.put, provClearTx, hclosing], h.congr rfl rfl rfl⟩

/-- **A PDU of a transaction is taken alike.** -/
theorem genProvRecv_alike (env : Env) (hctl : gpc.toNat % 4 ≠ 3) (hactive : l.active = true)
    (h : Harmless known l o) (hread : SegmentReads known x gpc buf l) :
    Alike (learn x gpc buf l known) (genProvRecv env x gpc buf l)
      (genProvRecv env x gpc buf (l.put o)) := by
  have hactive' : (l.put o).active = true := hactive
  unfold genProvRecv learn
  obtain hkind | hkind | hkind : gpc.toNat % 4 = 0 ∨ gpc.toNat % 4 = 1 ∨ gpc.toNat % 4 = 2 := by omega
  · simp only [hkind]
    rw [hactive, hactive', if_pos rfl, if_pos rfl]
    refine Alike.ite (fun hlen => ?_) fun hlen => ?_
    · rw [if_neg fun h => by omega]
      exact h.alike []
    · have hlen' : 3 ≤ buf.length := by omega
      rw [if_congr (and_iff_right hlen') rfl rfl]
      exact genProvStart_alike env h (hread.1 hkind hlen')
  · simp only [hkind]
    rw [hactive, hactive', if_pos rfl, if_pos rfl]
    exact genProvAck_alike x h
  · simp only [hkind]
    rw [hactive, hactive', if_pos rfl, if_pos rfl]
    exact genProvCont_alike env h (hread.2 hkind)

/-! ## The steps of the bearer -/

/-- The bearer with other such fields. -/
def Bearer.put (o : Leftover) (b : Bearer) : Bearer := { b with link := b.link.put o }

/-- A step of the bearer, beside the same of the bearer with other fields. -/
def BearerAlike (known : ℕ → Bool) (r r' : Bearer × List LinkOut) : Prop :=
  ∃ o, r' = (r.1.put o, r.2) ∧ Harmless known r.1.link o

theorem Harmless.bearer (h : Harmless known b.link o) (outs : List LinkOut) :
    BearerAlike known (b, outs) (b.put o, outs) :=
  ⟨o, rfl, h⟩

theorem BearerAlike.ite {c : Prop} [Decidable c] {r₁ r₂ r₁' r₂' : Bearer × List LinkOut}
    (hpos : c → BearerAlike known r₁ r₁') (hneg : ¬ c → BearerAlike known r₂ r₂') :
    BearerAlike known (if c then r₁ else r₂) (if c then r₁' else r₂') := by
  split
  next hc => exact hpos hc
  next hc => exact hneg hc

theorem resetAdvLink_put (provisioned : Bool) (h : Harmless known b.link o) :
    ∃ o', resetAdvLink provisioned (b.put o) = (resetAdvLink provisioned b).put o' ∧
      Harmless known (resetAdvLink provisioned b).link o' := by
  unfold resetAdvLink
  cases hrole : b.provisioner with
  | true =>
    refine ⟨⟨o.data, 0, 0, xactIdNval⟩, ?_, ?_⟩
    · simp [Bearer.put, Link.put, hrole, provClearTx]
    · exact ⟨h.size, h.size', h.data, fun _ => rfl, fun _ _ => rfl, fun _ => rfl⟩
  | false =>
    refine ⟨{ o with pendingAck := xactIdNval }, ?_, ?_⟩
    · simp [Bearer.put, Link.put, hrole, provClearTx]
    · exact ⟨h.size, h.size', h.data, h.lastSeg, h.fcs, fun _ => rfl⟩

/-- **A link closes alike.** -/
theorem closeLink_alike (provisioned : Bool) (reason : ℕ) (h : Harmless known b.link o) :
    BearerAlike known (closeLink provisioned reason b) (closeLink provisioned reason (b.put o)) := by
  obtain ⟨o', heq, h'⟩ := resetAdvLink_put provisioned h
  exact ⟨o', congrArg (·, [LinkOut.closed reason]) heq, h'⟩

theorem bearerCtlSendUnacked_put (adv : Bool) (pdu : Bytes) (reason : ℕ)
    (h : Harmless known b.link o) : bearerCtlSendUnacked adv pdu reason (b.put o) =
        ((bearerCtlSendUnacked adv pdu reason b).1.put o,
          (bearerCtlSendUnacked adv pdu reason b).2) ∧
      Harmless known (bearerCtlSendUnacked adv pdu reason b).1.link o := by
  have hcleared : Harmless known (provClearTx b.link) o :=
    h.congr rfl rfl rfl
  unfold bearerCtlSendUnacked
  split
  · dsimp only
    rw [show (b.put o).unacked = b.unacked from rfl]
    split <;> exact ⟨rfl, hcleared⟩
  · exact ⟨rfl, h⟩

theorem sendUnacked_alike (sent failed : Bearer → Bearer × List LinkOut) (adv : Bool) (pdu : Bytes)
    (reason : ℕ) (h : Harmless known b.link o)
    (hsent : ∀ b', Harmless known b'.link o → BearerAlike known (sent b') (sent (b'.put o)))
    (hfailed : ∀ b', Harmless known b'.link o → BearerAlike known (failed b') (failed (b'.put o))) :
    BearerAlike known
      (match bearerCtlSendUnacked adv pdu reason b with
        | (b, true) => sent b
        | (b, false) => failed b)
      (match bearerCtlSendUnacked adv pdu reason (b.put o) with
        | (b, true) => sent b
        | (b, false) => failed b) := by
  obtain ⟨hput, h'⟩ := bearerCtlSendUnacked_put adv pdu reason h
  rw [hput]
  generalize bearerCtlSendUnacked adv pdu reason b = r at h' ⊢
  obtain ⟨b', ok⟩ := r
  cases ok with
  | true => exact hsent b' h'
  | false => exact hfailed b' h'

theorem provLinkClose_alike (env : LinkEnv) (status : ℕ) (h : Harmless known b.link o) :
    BearerAlike known (provLinkClose env status b) (provLinkClose env status (b.put o)) := by
  unfold provLinkClose
  refine BearerAlike.ite (fun _ => h.bearer []) fun _ => ?_
  have hmarked : Harmless known { b.link with closing := true } o := h.congr rfl rfl rfl
  exact sendUnacked_alike (b := { b with link := { b.link with closing := true } })
    (fun b => (b, [])) (closeLink env.provisioned status) env.adv _ status hmarked
    (fun b' h' => h'.bearer []) (fun b' h' => closeLink_alike env.provisioned status h')

theorem bufSent_alike (provisioned : Bool) (reason : ℕ) (h : Harmless known b.link o) :
    BearerAlike known (bufSent provisioned reason b) (bufSent provisioned reason (b.put o)) := by
  unfold bufSent
  refine BearerAlike.ite (fun _ => ?_) fun _ => ⟨o, rfl, h⟩
  have hopen : Harmless known { b.link with closing := false } o := h.congr rfl rfl rfl
  exact closeLink_alike (b := { b with
    linkAckSending := false, link := { b.link with closing := false } }) provisioned reason hopen

theorem delayedAdvSendEnd_alike (provisioned unacked : Bool) (h : Harmless known b.link o) :
    BearerAlike known (delayedAdvSendEnd provisioned unacked b)
      (delayedAdvSendEnd provisioned unacked (b.put o)) := by
  unfold delayedAdvSendEnd
  rw [show (b.put o).unacked.getD (b.put o).lastUnacked none =
    b.unacked.getD b.lastUnacked none from rfl]
  cases b.unacked.getD b.lastUnacked none with
  | none => exact h.bearer []
  | some ctx =>
    cases unacked with
    | false => exact h.bearer []
    | true =>
      simp only [if_true]
      cases ctx.cb with
      | none => exact ⟨o, rfl, h⟩
      | ackComplete =>
        exact ⟨o, rfl, ⟨h.size, h.size', h.data, h.lastSeg, h.fcs,
          fun h => absurd h Bool.false_ne_true⟩⟩
      | bufSent reason =>
        obtain ⟨o', heq, h'⟩ := bufSent_alike provisioned reason h
        simp only [heq]
        exact ⟨o', rfl, h'⟩

theorem txWorkHandler_alike (h : Harmless known b.link o) :
    BearerAlike known (txWorkHandler b) (txWorkHandler (b.put o)) := by
  unfold txWorkHandler
  dsimp only
  rw [show (b.put o).unacked = b.unacked from rfl, show (b.put o).lastUnacked = b.lastUnacked from rfl]
  split
  · exact ⟨o, rfl, h⟩
  · exact h.bearer []

theorem linkOpen_alike (env : LinkEnv) (linkId : ℕ) (buf : Bytes) (h : Harmless known b.link o) :
    BearerAlike known (linkOpen uuid env linkId buf b) (linkOpen uuid env linkId buf (b.put o)) := by
  unfold linkOpen
  refine BearerAlike.ite (fun _ => h.bearer []) fun _ => BearerAlike.ite (fun _ => ?_) fun _ => ?_
  · refine BearerAlike.ite (fun _ => h.bearer []) fun _ =>
      BearerAlike.ite (fun _ => h.bearer []) fun _ => ?_
    obtain ⟨hput, hsent⟩ := bearerCtlSendUnacked_put (b := { b with linkAckSending := true })
      env.adv (ctlPdu linkAckOp [] b.link) statusSuccess h
    exact ⟨o, congrArg (fun r => (r.1, [])) hput, hsent⟩
  refine BearerAlike.ite (fun _ => h.bearer []) fun _ => ?_
  have hopened : Harmless known
      { b.link with id := linkId, active := true, rx := { b.link.rx with len := 0 } } o :=
    h.congr rfl rfl rfl
  refine sendUnacked_alike (b := { b with
      link := { b.link with id := linkId, active := true, rx := { b.link.rx with len := 0 } }
      linkAckSending := true })
    (fun b => (b, [.opened])) (fun b => (resetAdvLink env.provisioned b, [])) env.adv _
    statusSuccess hopened (fun b' h' => h'.bearer _) (fun b' h' => ?_)
  obtain ⟨o', heq, h''⟩ := resetAdvLink_put env.provisioned h'
  exact ⟨o', congrArg (·, []) heq, h''⟩

theorem genProvCtl_alike (env : LinkEnv) (linkId : ℕ) (gpc : UInt8) (buf : Bytes)
    (h : Harmless known b.link o) : BearerAlike known (genProvCtl uuid env linkId gpc buf b)
      (genProvCtl uuid env linkId gpc buf (b.put o)) := by
  unfold genProvCtl
  have hidle := h.bearer []
  refine BearerAlike.ite (fun _ => linkOpen_alike env linkId buf h) fun _ =>
    BearerAlike.ite (fun _ => BearerAlike.ite (fun _ => ?_) fun _ => hidle) fun _ =>
      BearerAlike.ite (fun _ => BearerAlike.ite (fun _ => ?_) fun _ => hidle) fun _ => hidle
  · unfold linkAck
    exact BearerAlike.ite (fun _ => BearerAlike.ite (fun _ => hidle) fun _ =>
      ⟨o, rfl, h.congr rfl rfl rfl⟩) fun _ => hidle
  · unfold linkClose
    split
    · exact closeLink_alike _ _ h
    · exact hidle

/-- **A reception is alike.** -/
theorem recv_alike (env : LinkEnv) (pdu : Bytes) (h : Harmless known b.link o)
    (hread : Heard b.link pdu → SegmentReads known (xactOf pdu) (gpcOf pdu) (pdu.drop 6) b.link) :
    BearerAlike (if Heard b.link pdu then learn (xactOf pdu) (gpcOf pdu) (pdu.drop 6) b.link known
        else known) (b.recv uuid env pdu) ((b.put o).recv uuid env pdu) := by
  by_cases hheard : Heard b.link pdu ∧ (gpcOf pdu).toNat % 4 ≠ 3
  · obtain ⟨hheard, hctl⟩ := hheard
    rw [recv_heard hheard hctl, recv_heard (show Heard (b.put o).link pdu from hheard) hctl,
      if_pos hheard]
    obtain ⟨o', heq, h'⟩ := genProvRecv_alike (xactEnv env b) hctl hheard.2.2.1 h (hread hheard)
    rw [show genProvRecv (xactEnv env (b.put o)) (xactOf pdu) (gpcOf pdu) (pdu.drop 6) (b.put o).link
      = _ from heq]
    exact ⟨o', rfl, h'⟩
  · have hknown : (if Heard b.link pdu then
        learn (xactOf pdu) (gpcOf pdu) (pdu.drop 6) b.link known else known) = known := by
      split
      next h' =>
        have hctl : (gpcOf pdu).toNat % 4 = 3 := by
          by_contra hctl
          exact hheard ⟨h', hctl⟩
        simp only [learn, hctl]
      · rfl
    rw [hknown]
    unfold Bearer.recv
    have hidle := h.bearer []
    refine BearerAlike.ite (fun _ => hidle) fun hcb => BearerAlike.ite (fun _ => hidle) fun hlen =>
      BearerAlike.ite (fun _ => hidle) fun hid =>
        BearerAlike.ite (fun _ => genProvCtl_alike env _ _ _ h) fun hctl => ?_
    -- the link is not open
    have hactive : ¬ b.link.active := fun hactive => hheard
      ⟨⟨not_not.1 hcb, by omega, hactive, not_not.1 fun h => hid ⟨hactive, h⟩⟩, hctl⟩
    rw [genProvRecv_inactive hctl hactive, genProvRecv_inactive hctl
      (show ¬ (b.put o).link.active from hactive)]
    exact hidle

theorem provLinkOpen_alike (enabled : Bool) (env : LinkEnv) (id : ℕ) (uuid : Bytes)
    (h : Harmless known b.link o) :
    provLinkOpen enabled env id uuid (b.put o) = (provLinkOpen enabled env id uuid b).put o ∧
      Harmless known (provLinkOpen enabled env id uuid b).link o := by
  unfold provLinkOpen
  rw [show (b.put o).link.active = b.link.active from rfl]
  split
  · exact ⟨rfl, h⟩
  · dsimp only
    split <;> exact ⟨rfl, h.congr rfl rfl rfl⟩

theorem provLinkAccept_alike (enabled : Bool) (h : Harmless known b.link o) :
    provLinkAccept enabled (b.put o) = (provLinkAccept enabled b).put o ∧
      Harmless known (provLinkAccept enabled b).link o := by
  unfold provLinkAccept
  rw [show (b.put o).link.active = b.link.active from rfl]
  split
  · exact ⟨rfl, h⟩
  · exact ⟨rfl, h.congr rfl rfl rfl⟩

theorem protocolTimeout_alike (env : LinkEnv) (h : Harmless known b.link o) :
    BearerAlike known (protocolTimeout env b) (protocolTimeout env (b.put o)) := by
  unfold protocolTimeout
  refine BearerAlike.ite (fun _ => ?_) fun _ => h.bearer []
  have hforgot : Harmless known { b.link with rx := { b.link.rx with seg := 0 } } o :=
    ⟨h.size, h.size', h.data, fun hne => absurd rfl hne, fun hne => absurd rfl hne, h.pendingAck⟩
  exact provLinkClose_alike (b := { b with
    link := { b.link with rx := { b.link.rx with seg := 0 } } }) env statusTimeout hforgot

theorem provSendAdv_alike (adv : ℕ → Bool) (msg : Bytes) (h : Harmless known l o) :
    (provSendAdv adv msg (l.put o)).1 = (provSendAdv adv msg l).1.put o ∧
      Harmless known (provSendAdv adv msg l).1 o := by
  have hcleared : Harmless known (provClearTx l) o :=
    h.congr rfl rfl rfl
  unfold provSendAdv
  split
  · simp only [Link.put, provClearTx]
    generalize sendConts adv _ 1 _ _ = conts
    cases conts <;> exact ⟨rfl, h.congr rfl rfl rfl⟩
  · exact ⟨rfl, hcleared⟩

/-- **One step.** -/
theorem step_alike (uuid : Bytes) (e : LinkEvent) (h : Harmless known b.link o) (hread : ReadsKnown (b, known) e) :
    BearerAlike (watchKnown uuid (b, known) e).2 (b.step uuid e) ((b.put o).step uuid e) := by
  cases e with
  | recv env pdu => exact recv_alike env pdu h hread
  | txWork => exact txWorkHandler_alike h
  | sendEnd provisioned unacked => exact delayedAdvSendEnd_alike provisioned unacked h
  | protTimer env => exact protocolTimeout_alike env h
  | retransmit env late =>
    show BearerAlike known (provRetransmit env late b) (provRetransmit env late (b.put o))
    unfold provRetransmit
    exact BearerAlike.ite (fun _ => provLinkClose_alike env statusTimeout h) fun _ => h.bearer []
  | linkOpen enabled env id uuid =>
    obtain ⟨heq, h'⟩ := provLinkOpen_alike enabled env id uuid h
    exact ⟨o, congrArg (·, []) heq, h'⟩
  | linkAccept enabled =>
    obtain ⟨heq, h'⟩ := provLinkAccept_alike enabled h
    exact ⟨o, congrArg (·, []) heq, h'⟩
  | linkClose env status => exact provLinkClose_alike env status h
  | send adv msg =>
    obtain ⟨heq, h'⟩ := provSendAdv_alike adv msg h
    exact ⟨o, congrArg (fun l => ({ b with link := l }, [])) heq, h'⟩
  | clearTx => exact ⟨o, rfl, h.congr rfl rfl rfl⟩
  | reset provisioned =>
    obtain ⟨o', heq, h'⟩ := resetAdvLink_put provisioned h
    exact ⟨o', congrArg (·, []) heq, h'⟩

/-- The bearer after a step. -/
def Bearer.after (uuid : Bytes) (b : Bearer) (e : LinkEvent) : Bearer := (b.step uuid e).1

/-- What a run makes the bearer do. -/
def Bearer.does (uuid : Bytes) (b : Bearer) (es : List LinkEvent) : List LinkOut :=
  emitted (Bearer.after uuid) (fun b e => (b.step uuid e).2) b es

/-- **A run that reads no other bytes is alike.** -/
theorem does_alike (uuid : Bytes) (es : List LinkEvent) (h : Harmless known b.link o)
    (hread : Along (watchKnown uuid) ReadsKnown (b, known) es) :
    (b.put o).does uuid es = b.does uuid es := by
  induction es generalizing b known o with
  | nil => rfl
  | cons e es ih =>
    obtain ⟨o', heq, h'⟩ := step_alike uuid e h hread.1
    have hnext : (b.put o).after uuid e = (b.after uuid e).put o' := by
      rw [Bearer.after, heq, Bearer.after]
    have houts : ((b.put o).step uuid e).2 = (b.step uuid e).2 := by
      rw [heq]
    have hrest : ((b.after uuid e).put o').does uuid es = (b.after uuid e).does uuid es :=
      ih h' hread.2
    unfold Bearer.does at hrest ⊢
    rw [emitted_cons, emitted_cons, hnext, houts, hrest]

/-! ## How a link closes -/

/-- What a closed link leaves in a device, but for the fields it keeps. -/
structure Shut (b : Bearer) : Prop where
  id : b.link.id = 0
  active : b.link.active = false
  invalid : b.link.invalid = false
  closing : b.link.closing = false
  ackPending : b.link.ackPending = false
  rxId : b.link.rx.id = xactIdMax
  len : b.link.rx.len = 0
  txId : b.link.tx.id = xactIdNval
  adv : b.link.tx.adv = []
  provisioner : b.provisioner = false
  linkAckRecvd : b.linkAckRecvd = false
  linkAckSending : b.linkAckSending = false

theorem resetAdvLink_shut (provisioned : Bool) (hrole : b.provisioner = false) :
    Shut (resetAdvLink provisioned b) := by
  unfold resetAdvLink
  rw [hrole]
  exact ⟨rfl, rfl, rfl, rfl, rfl, rfl, rfl, rfl, rfl, rfl, rfl, rfl⟩

theorem bearerCtlSendUnacked_provisioner (adv : Bool) (pdu : Bytes) (reason : ℕ) (b : Bearer) :
    (bearerCtlSendUnacked adv pdu reason b).1.provisioner = b.provisioner := by
  unfold bearerCtlSendUnacked
  split
  · dsimp only
    split <;> rfl
  · rfl

theorem provLinkClose_shut (env : LinkEnv) (status : ℕ) (hrole : b.provisioner = false)
    (hactive : b.link.active = true) :
    (provLinkClose env status b).1.link.active = true ∨ Shut (provLinkClose env status b).1 := by
  unfold provLinkClose
  split
  · exact .inl hactive
  · dsimp only
    have hlink := bearerCtlSendUnacked_link env.adv (ctlPdu linkCloseOp [UInt8.ofNat status]
      { b.link with closing := true }) status { b with link := { b.link with closing := true } }
    have hkept := bearerCtlSendUnacked_provisioner env.adv (ctlPdu linkCloseOp [UInt8.ofNat status]
      { b.link with closing := true }) status { b with link := { b.link with closing := true } }
    split
    next b' heq =>
      rw [heq] at hlink
      exact .inl (hlink.1.trans hactive)
    next b' heq =>
      rw [heq] at hkept
      exact .inr (resetAdvLink_shut env.provisioned (hkept.trans hrole))

theorem bufSent_shut (provisioned : Bool) (reason : ℕ) (hrole : b.provisioner = false)
    (hactive : b.link.active = true) :
    (bufSent provisioned reason b).1.link.active = true ∨ Shut (bufSent provisioned reason b).1 := by
  unfold bufSent
  dsimp only
  split
  · exact .inr (resetAdvLink_shut provisioned hrole)
  · exact .inl hactive

theorem delayedAdvSendEnd_shut (provisioned unacked : Bool) (hrole : b.provisioner = false)
    (hactive : b.link.active = true) :
    (delayedAdvSendEnd provisioned unacked b).1.link.active = true ∨
      Shut (delayedAdvSendEnd provisioned unacked b).1 := by
  unfold delayedAdvSendEnd
  split
  next ctx _ =>
    split
    · cases ctx.cb with
      | none => exact .inl hactive
      | ackComplete => exact .inl hactive
      | bufSent reason =>
        rcases bufSent_shut provisioned reason hrole hactive with h | h
        · exact .inl h
        · exact .inr ⟨h.id, h.active, h.invalid, h.closing, h.ackPending, h.rxId, h.len, h.txId,
            h.adv, h.provisioner, h.linkAckRecvd, h.linkAckSending⟩
    · exact .inl hactive
  · exact .inl hactive

theorem genProvCtl_shut (env : LinkEnv) (linkId : ℕ) (gpc : UInt8) (buf : Bytes)
    (hrole : b.provisioner = false) (hactive : b.link.active = true) :
    (genProvCtl uuid env linkId gpc buf b).1.link.active = true ∨
      Shut (genProvCtl uuid env linkId gpc buf b).1 := by
  unfold genProvCtl
  split
  · unfold linkOpen
    rw [if_pos hactive]
    split
    · exact .inl hactive
    split
    · exact .inl hactive
    split
    · exact .inl hactive
    · exact .inl ((bearerCtlSendUnacked_link ..).1.trans hactive)
  split
  · unfold linkAck
    rw [hrole]
    exact .inl hactive
  split
  · unfold linkClose
    split
    · exact .inr (resetAdvLink_shut _ hrole)
    · exact .inl hactive
  · exact .inl hactive

theorem provMsgRecv_active (env : Env) (l : Link) : (provMsgRecv env l).1.active = l.active := by
  have hack := genProvAckSend_ackOnly env l.rx.id l
  unfold provMsgRecv
  by_cases hfcs : fcsCheck (l.rx.data.take l.rx.len) l.rx.fcs = true
  · rw [if_pos hfcs]
    dsimp only
    split <;> exact hack.active
  · rw [if_neg hfcs]

theorem startStore_active (env : Env) (last : ℕ) (payload : Bytes) (l : Link) :
    (startStore env last payload l).1.active = l.active := by
  rw [startStore_eq]
  split
  · rfl
  split
  · exact provMsgRecv_active ..
  · rfl

theorem contStore_active (env : Env) (seg : ℕ) (buf : Bytes) (l : Link) :
    (contStore env seg buf l).1.active = l.active := by
  by_cases hfits : ContFits seg buf l
  · rw [contStore_fits hfits]
    split
    · rfl
    split
    · exact provMsgRecv_active ..
    · rfl
  · rw [contStore_not_fits hfits]
    split <;> rfl

theorem genProvRecv_active (env : Env) (hctl : gpc.toNat % 4 ≠ 3) :
    (genProvRecv env x gpc buf l).1.active = l.active := by
  have hack := resendAck_ackOnly env x l
  unfold genProvRecv
  obtain hkind | hkind | hkind : gpc.toNat % 4 = 0 ∨ gpc.toNat % 4 = 1 ∨ gpc.toNat % 4 = 2 := by omega
  · simp only [hkind]
    split
    · rfl
    split
    · rw [genProvStart_eq]
      split
      · exact hack.active
      split
      · rfl
      split
      · rfl
      · exact startStore_active ..
    · rfl
  · simp only [hkind]
    split
    · unfold genProvAck
      split
      · rfl
      split
      · dsimp only
        split <;> rfl
      · rfl
    · rfl
  · simp only [hkind]
    split
    · rw [genProvCont_eq]
      split
      · exact hack.active
      split
      · rfl
      · have hfound : (contFound x l).active = l.active := by
          unfold contFound
          split <;> rfl
        exact (contStore_active ..).trans hfound
    · rfl

/-- **A device that closes its link clears all but what it keeps.** -/
theorem step_shut (e : LinkEvent) (hrole : b.provisioner = false) (hactive : b.link.active = true) :
    (b.step uuid e).1.link.active = true ∨ Shut (b.step uuid e).1 := by
  cases e with
  | recv env pdu =>
    show (b.recv uuid env pdu).1.link.active = true ∨ Shut (b.recv uuid env pdu).1
    unfold Bearer.recv
    split
    · exact .inl hactive
    split
    · exact .inl hactive
    split
    · exact .inl hactive
    split
    · exact genProvCtl_shut env _ _ _ hrole hactive
    next hctl => exact .inl ((genProvRecv_active _ hctl).trans hactive)
  | txWork =>
    show (txWorkHandler b).1.link.active = true ∨ _
    unfold txWorkHandler
    dsimp only
    split <;> exact .inl hactive
  | sendEnd provisioned unacked => exact delayedAdvSendEnd_shut provisioned unacked hrole hactive
  | protTimer env =>
    show (protocolTimeout env b).1.link.active = true ∨ Shut (protocolTimeout env b).1
    unfold protocolTimeout
    rw [if_pos hactive]
    exact provLinkClose_shut env statusTimeout hrole hactive
  | retransmit env late =>
    show (provRetransmit env late b).1.link.active = true ∨ Shut (provRetransmit env late b).1
    unfold provRetransmit
    split
    · exact provLinkClose_shut env statusTimeout hrole hactive
    · exact .inl hactive
  | linkOpen enabled env id uuid =>
    have h : provLinkOpen enabled env id uuid b = b := if_pos (.inr hactive)
    exact .inl ((congrArg (·.link.active) h).trans hactive)
  | linkAccept enabled =>
    have h : provLinkAccept enabled b = b := if_pos (.inr hactive)
    exact .inl ((congrArg (·.link.active) h).trans hactive)
  | linkClose env status => exact provLinkClose_shut env status hrole hactive
  | send adv msg => exact .inl ((provSendAdv_link adv msg b.link).1.trans hactive)
  | clearTx => exact .inl hactive
  | reset provisioned => exact .inr (resetAdvLink_shut provisioned hrole)

/-! ## The next link -/

/-- A device has just closed its link, after any run. -/
def AfterLink (uuid : Bytes) (b : Bearer) : Prop :=
  ∃ es e, (run (Bearer.after uuid) Bearer.init es).provisioner = false ∧
    (run (Bearer.after uuid) Bearer.init es).link.active = true ∧
    b = (run (Bearer.after uuid) Bearer.init es).after uuid e ∧ b.link.active = false

/-- The bearer takes links again: it kept its callback, or
`prov_link_accept` is called. -/
def TakesAgain (b b' : Bearer) : Prop := b.link.cb = true ∧ b' = b ∨ b' = provLinkAccept true b

/-- A bearer that has just started, and takes links. -/
def freshBearer : Bearer := provLinkAccept true Bearer.init

/-- No segment is missing, and nothing unacknowledged is on its way. -/
structure Clean (b : Bearer) : Prop where
  seg : b.link.rx.seg = 0
  unacked : b.unacked = [none, none]
  lastUnacked : b.lastUnacked = 0

/-- The bytes of the receive buffer that are as in a bearer that has just
started. -/
def unwritten (b : Bearer) : ℕ → Bool := fun i => b.link.rx.data[i]? == some 0

/-- The fields of a link that are written before they are read. -/
def Link.leftover (l : Link) : Leftover := ⟨l.rx.data, l.rx.lastSeg, l.rx.fcs, l.tx.pendingAck⟩

theorem run_size (uuid : Bytes) (es : List LinkEvent) :
    (run (Bearer.after uuid) Bearer.init es).link.rx.data.length = rxBufferMax := by
  refine inv_run_of_forall (fun b : Bearer => b.link.rx.data.length = rxBufferMax)
    (fun b e hsize => ?_) length_replicate es
  -- with every byte known, a step is alike to itself
  have hself : Harmless (fun _ => true) b.link b.link.leftover :=
    ⟨hsize, hsize, fun _ _ => rfl, fun _ => rfl, fun _ _ => rfl, fun _ => rfl⟩
  have hread : ReadsKnown (b, fun _ => true) e := by
    cases e with
    | recv env pdu =>
      intro _
      exact ⟨fun _ _ _ _ _ _ => mark_of_known rfl, fun _ _ _ _ _ _ => mark_of_known rfl⟩
    | _ => trivial
  obtain ⟨o, -, h⟩ := step_alike uuid e hself hread
  exact h.size

theorem Shut.fresh {b' : Bearer} (h : Shut b) (hagain : TakesAgain b b') (hclean : Clean b) :
    freshBearer = b'.put freshBearer.link.leftover := by
  obtain ⟨⟨id, cb, active, invalid, closing, ackPending, ⟨rxId, seg, lastSeg, fcs, data, len⟩,
    ⟨txId, adv, pendingAck⟩⟩, provisioner, ackRecvd, ackSending, unacked, lastUnacked⟩ := b
  obtain ⟨h1, h2, h3, h4, h5, h6, h7, h8, h9, h10, h11, h12⟩ := h
  obtain ⟨h13, h14, h15⟩ := hclean
  dsimp only at *
  subst h1 h2 h3 h4 h5 h6 h7 h8 h9 h10 h11 h12 h13 h14 h15
  rcases hagain with ⟨hcb, rfl⟩ | rfl
  · dsimp only at hcb
    subst hcb
    rfl
  · rfl

theorem Shut.harmless {b' : Bearer} (h : Shut b) (hagain : TakesAgain b b') (hclean : Clean b)
    (hsize : b.link.rx.data.length = rxBufferMax) :
    Harmless (unwritten b') b'.link freshBearer.link.leftover := by
  obtain ⟨hdata, hseg, hpending⟩ : b'.link.rx.data = b.link.rx.data ∧ b'.link.rx.seg = 0 ∧
      b'.link.ackPending = false := by
    rcases hagain with ⟨-, rfl⟩ | rfl
    · exact ⟨rfl, hclean.seg, h.ackPending⟩
    · rw [provLinkAccept, if_neg (by simp [h.active])]
      exact ⟨rfl, hclean.seg, h.ackPending⟩
  refine ⟨hdata ▸ hsize, length_replicate, fun i hi => ?_, fun hne => absurd hseg hne,
    fun hne => absurd hseg hne, fun hp => absurd (hpending.symm.trans hp) Bool.false_ne_true⟩
  -- a byte that is 0 is as in a bearer that has just started
  have hzero : b'.link.rx.data[i]? = some 0 := by simpa [unwritten] using hi
  have hlt : i < rxBufferMax := (hdata ▸ hsize) ▸ (List.getElem?_eq_some_iff.1 hzero).1
  rw [hzero]
  exact getElem?_replicate_of_lt hlt

/-- **The next link does what it does in a bearer that has just started**,
where the device closed its link clean, and the next reads no byte that an
earlier one wrote. -/
theorem next_link_fresh (uuid : Bytes) (b b' : Bearer) (es : List LinkEvent)
    (hclosed : AfterLink uuid b) (hagain : TakesAgain b b') (hclean : Clean b)
    (hread : Along (watchKnown uuid) ReadsKnown (b', unwritten b') es) :
    b'.does uuid es = freshBearer.does uuid es := by
  obtain ⟨es₀, e, hrole, hopen, rfl, hinactive⟩ := hclosed
  have hshut : Shut ((run (Bearer.after uuid) Bearer.init es₀).after uuid e) :=
    (step_shut e hrole hopen).resolve_left fun h => absurd (hinactive.symm.trans h) Bool.false_ne_true
  have hsize := run_size uuid (es₀ ++ [e])
  rw [run_append] at hsize
  have hharmless := hshut.harmless hagain hclean hsize
  have hfresh := hshut.fresh hagain hclean
  rw [hfresh]
  exact (does_alike uuid es hharmless hread).symm

/-- A Link Close PDU for the device. -/
def closePdu : Bytes := beBytes 4 0x2a ++ [0x00, gpcCtl linkCloseOp] ++ [0x00]

/-- The Start of transaction 0 with a message. -/
def startOf (msg : Bytes) : Bytes :=
  beBytes 4 0x2a ++ [0x00, gpcStart (lastSeg msg.length)] ++ beBytes 2 msg.length ++ [fcsCalc msg] ++
    msg.take startPayloadMax

/-- A Continuation of it. -/
def contOf (msg : Bytes) (seg : ℕ) : Bytes :=
  beBytes 4 0x2a ++ [0x00, gpcCont seg] ++ chunk msg seg

/-- A link is opened, its Link Ack is sent, and all of a message comes but
the last `missing` segments of three. -/
def earlierLink (missing : ℕ) : List LinkEvent :=
  [.linkAccept true, .recv {} openPdu, .txWork, .sendEnd false true] ++
    ([startOf (List.replicate 50 7), contOf (List.replicate 50 7) 1,
      contOf (List.replicate 50 7) 2].take (3 - missing)).map (.recv {}) ++ [.txWork, .sendEnd false true]

/-- A link is opened, and a message of two segments comes. -/
def nextLink : List LinkEvent :=
  [.recv {} openPdu, .recv {} (startOf (List.replicate 30 8)),
    .recv {} (contOf (List.replicate 30 8) 1)]

/-- The bearer when that link is closed. -/
def closedBearer (missing : ℕ) : Bearer :=
  (run (Bearer.after sampleUuid) Bearer.init (earlierLink missing)).after sampleUuid
    (.recv {} closePdu)

/-- A link that received its message is closed; the next takes its own. -/
theorem next_link_fresh_after_message :
    (closedBearer 0).does sampleUuid nextLink = freshBearer.does sampleUuid nextLink ∧
      delivered (xactOuts ((closedBearer 0).does sampleUuid nextLink)) = [List.replicate 30 8] := by
  obtain ⟨hrole, hopen, hclosed, hcb, hseg, hunacked, hlast, hread, hmsg⟩ :
      (run (Bearer.after sampleUuid) Bearer.init (earlierLink 0)).provisioner = false ∧
      (run (Bearer.after sampleUuid) Bearer.init (earlierLink 0)).link.active = true ∧
      (closedBearer 0).link.active = false ∧ (closedBearer 0).link.cb = true ∧
      (closedBearer 0).link.rx.seg = 0 ∧ (closedBearer 0).unacked = [none, none] ∧
      (closedBearer 0).lastUnacked = 0 ∧
      Along (watchKnown sampleUuid) ReadsKnown (closedBearer 0, unwritten (closedBearer 0)) nextLink ∧
      delivered (xactOuts ((closedBearer 0).does sampleUuid nextLink)) = [List.replicate 30 8] := by
    decide +kernel
  exact ⟨next_link_fresh sampleUuid (closedBearer 0) (closedBearer 0) nextLink
    ⟨earlierLink 0, .recv {} closePdu, hrole, hopen, rfl, hclosed⟩ (.inl ⟨hcb, rfl⟩)
    ⟨hseg, hunacked, hlast⟩ hread, hmsg⟩

/-- **A link closed with a segment missing spoils the next**: the Start of a
message of two segments counts as the whole of it, the message is lost, and
its Continuation is acknowledged. -/
theorem next_link_spoiled :
    AfterLink sampleUuid (closedBearer 1) ∧ TakesAgain (closedBearer 1) (closedBearer 1) ∧
      delivered (xactOuts ((closedBearer 1).does sampleUuid nextLink)) = [] ∧
      .xact (.ack (beBytes 4 0x2a ++ [0x00, gpcAck])) ∈ (closedBearer 1).does sampleUuid nextLink ∧
      delivered (xactOuts (freshBearer.does sampleUuid nextLink)) = [List.replicate 30 8] := by
  obtain ⟨hrole, hopen, hclosed, hcb, hlost⟩ :
      (run (Bearer.after sampleUuid) Bearer.init (earlierLink 1)).provisioner = false ∧
      (run (Bearer.after sampleUuid) Bearer.init (earlierLink 1)).link.active = true ∧
      (closedBearer 1).link.active = false ∧ (closedBearer 1).link.cb = true ∧
      delivered (xactOuts ((closedBearer 1).does sampleUuid nextLink)) = [] ∧
      .xact (.ack (beBytes 4 0x2a ++ [0x00, gpcAck])) ∈ (closedBearer 1).does sampleUuid nextLink ∧
      delivered (xactOuts (freshBearer.does sampleUuid nextLink)) = [List.replicate 30 8] := by
    decide +kernel
  exact ⟨⟨earlierLink 1, .recv {} closePdu, hrole, hopen, rfl, hclosed⟩, .inl ⟨hcb, rfl⟩, hlost⟩

end PbAdv

end OpenBlue

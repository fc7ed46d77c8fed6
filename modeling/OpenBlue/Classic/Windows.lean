import OpenBlue.Classic.Frames
import OpenBlue.Common.Run
/-!
# BR/EDR L2CAP — the transmit windows

Every call leaves the windows alone, acknowledges some from the front of
the list, rewinds to the first, sends one of the list once more, or adds
one at the end. So the windows of the two lists stay all windows, each
once, and those in the list stay numbered in order, as long as no window of
the list is freed: this is what a retransmission without a buffer does.
-/

namespace OpenBlue

namespace Classic

open Function List Chan

variable {c c' c'' : Chan}

/-! ## What leaves the sender alone -/

/-- **The windows have not moved**: the two lists, the numbers in them and
those of the sender are as they were. -/
structure Still (c c' : Chan) : Prop where
  tx : c'.tx = c.tx := by rfl
  rx : c'.rx = c.rx := by rfl
  windows : c'.windows = c.windows := by rfl
  win : ∀ w, (c'.win w).txSeq = (c.win w).txSeq := by intro; rfl
  free : c'.free = c.free := by rfl
  outstanding : c'.outstanding = c.outstanding := by rfl
  nextTxSeq : c'.nextTxSeq = c.nextTxSeq := by rfl
  expectedAckSeq : c'.expectedAckSeq = c.expectedAckSeq := by rfl

/-- What does not move, all in one. -/
def Chan.kept (c : Chan) :
    Endpoint × Endpoint × ℕ × (ℕ → ℕ) × List ℕ × List ℕ × ℕ × ℕ :=
  (c.tx, c.rx, c.windows, fun w => (c.win w).txSeq, c.free, c.outstanding, c.nextTxSeq,
    c.expectedAckSeq)

theorem Still.of_kept (h : c'.kept = c.kept) : Still c c' := by
  simp only [kept, Prod.mk.injEq] at h
  obtain ⟨htx, hrx, hwindows, hwin, hfree, hout, hnext, hack⟩ := h
  exact ⟨htx, hrx, hwindows, congrFun hwin, hfree, hout, hnext, hack⟩

theorem Still.rfl : Still c c := .of_kept (.refl _)

theorem Still.trans (h : Still c c') (h' : Still c' c'') : Still c c'' where
  tx := h'.tx.trans h.tx
  rx := h'.rx.trans h.rx
  windows := h'.windows.trans h.windows
  win w := (h'.win w).trans (h.win w)
  free := h'.free.trans h.free
  outstanding := h'.outstanding.trans h.outstanding
  nextTxSeq := h'.nextTxSeq.trans h.nextTxSeq
  expectedAckSeq := h'.expectedAckSeq.trans h.expectedAckSeq

theorem Still.setFlags (h : Still c c') (flags : Flags) : Still c (c'.setFlags flags) :=
  h.trans (.of_kept (.refl _))

theorem Still.raise (h : Still c c') : Still c c'.raiseDataReady :=
  h.trans (.of_kept (.refl _))

theorem Still.lower (h : Still c c') : Still c c'.lowerDataReady :=
  h.trans (.of_kept (.refl _))

theorem Still.disconnect (h : Still c c') : Still c c'.disconnect :=
  h.trans (.of_kept (.refl _))

theorem Still.startRetTimer (h : Still c c') : Still c c'.startRetTimer := h.setFlags _

theorem Still.startMonitorTimer (h : Still c c') : Still c c'.startMonitorTimer := h.setFlags _

theorem Still.retryCount (h : Still c c') (n : ℕ) : Still c { c' with retryCount := n } :=
  h.trans (.of_kept (.refl _))

theorem Still.storeSdu (h : Still c c') (sdu : Option Bytes) (n : ℕ) :
    Still c { c' with sdu, sduLen := n } :=
  h.trans (.of_kept (.refl _))

theorem Still.expect (h : Still c c') (m n : ℕ) :
    Still c { c' with bufferSeq := m, expectedTxSeq := n } :=
  h.trans (.of_kept (.refl _))

theorem Still.saveSrej (h : Still c c') (n : ℕ) : Still c { c' with srejSaveReqSeq := n } :=
  h.trans (.of_kept (.refl _))

theorem Still.ite {p : Prop} [Decidable p] (h : Still c c') (h' : Still c c'') :
    Still c (if p then c' else c'') := by
  split
  · exact h
  · exact h'

theorem Still.raiseIfData (h : Still c c') :
    Still c (if c'.hasData then c'.raiseDataReady else c') :=
  .ite h.raise h

theorem Still.runTimer (h : Still c c') :
    Still c (if c'.outstandingCount ≠ 0 then c'.startRetTimer else c'.startMonitorTimer) :=
  .ite h.startRetTimer h.startMonitorTimer

theorem Still.sendCb (h : Still c c') (b : Buf) : Still c (c'.sendCb b) :=
  h.trans (.of_kept (.refl _))

theorem Still.sendSFrame (h : Still c c') (s : SType) (id : Option ℕ) :
    Still c (c'.sendSFrame s id).2 := by
  unfold Chan.sendSFrame
  dsimp only
  split
  · exact (h.setFlags _).raise
  · split
    · exact h.setFlags _
    · exact (h.setFlags _).sendCb _

theorem Still.sendSFrameOrDisconnect (h : Still c c') (id : Option ℕ) :
    Still c (c'.sendSFrameOrDisconnect id) := by
  have hsend := h.sendSFrame .rr id
  rw [Chan.sendSFrameOrDisconnect]
  split
  next heq => rwa [heq] at hsend
  next heq =>
    rw [heq] at hsend
    exact hsend.disconnect

theorem Still.updateR (h : Still c c') (r : Bool) (id : Option ℕ) : Still c (c'.updateR r id) := by
  rw [Chan.updateR]
  split
  · exact h
  split
  · split
    · exact h
    · exact ((h.setFlags _).runTimer).sendSFrameOrDisconnect id
  split
  · exact h
  · exact ((h.setFlags _).startMonitorTimer).sendSFrameOrDisconnect id

theorem Still.updateF (h : Still c c') (f : Bool) : Still c (c'.updateF f).2 := by
  rw [Chan.updateF]
  split
  · exact h
  split
  · exact h
  split
  · exact h
  · exact (Still.ite h (h.setFlags _).runTimer).raiseIfData

theorem Still.updateBits (h : Still c c') (f r : Bool) (id : Option ℕ) :
    Still c (c'.updateBits f r id).2 := by
  rw [Chan.updateBits]
  split
  · exact h.updateF f
  · exact h.updateF f
  · exact h.updateR r id

theorem Still.retransmitOnF (h : Still c c') (f : Bool) : Still c (c'.retransmitOnF f) := by
  rw [Chan.retransmitOnF]
  exact .ite (.ite (h.setFlags _) (h.setFlags _)) h

theorem Still.rejException (h : Still c c') (id : Option ℕ) : Still c (c'.rejException id) := by
  rw [Chan.rejException]
  exact .ite h ((h.setFlags _).sendSFrameOrDisconnect id)

theorem Still.checkTxSeq (h : Still c c') (txSeq : ℕ) (id : Option ℕ) :
    Still c (c'.checkTxSeq txSeq id).2 := by
  rw [Chan.checkTxSeq]
  split
  · exact h
  split
  · exact h
  split
  · split
    · exact h
    · exact h.rejException id
  · exact h

theorem Still.updateExpectedTxSeq (h : Still c c') (seq : ℕ) (id : Option ℕ) :
    Still c (c'.updateExpectedTxSeq seq id) := by
  rw [Chan.updateExpectedTxSeq]
  split
  · exact h
  · exact .ite (h.expect _ _).raise ((h.expect _ _).sendSFrameOrDisconnect id)

theorem Still.dropSdu (h : Still c c') : Still c c'.dropSdu := (h.storeSdu none _).disconnect

theorem Still.storeSeg (h : Still c c') (sar : Sar) (seg : Bytes) (env : RecvEnv) :
    Still c (c'.storeSeg sar seg env).2.2 := by
  rw [Chan.storeSeg]
  split
  · split
    · exact h
    · exact h.disconnect
  split
  · exact h.dropSdu
  split
  · exact h.dropSdu
  split
  · split
    · exact h.dropSdu
    · exact .ite (h.storeSdu none 0) (h.storeSdu none 0).disconnect
  · exact h.storeSdu _ _

theorem Still.recvSeg (h : Still c c') (sar : Sar) (seg : Bytes) (env : RecvEnv) :
    Still c (c'.recvSeg sar seg env).2.2 := by
  rw [Chan.recvSeg]
  split
  · split
    · exact h.dropSdu
    split
    · exact h
    split
    · exact (h.storeSdu _ _).storeSeg _ _ _
    · exact (h.storeSdu _ _).storeSeg _ _ _
  · exact h.storeSeg _ _ _

theorem Still.validFrame (h : Still c c') (ctl : IControl) (info : Bytes) (expected : Bool)
    (env : RecvEnv) : Still c (c'.validFrame ctl info expected env).2 := by
  rw [Chan.validFrame]
  split
  · exact h.disconnect
  have hseg := h.recvSeg ctl.sar info env
  generalize c'.recvSeg ctl.sar info env = r at hseg
  obtain ⟨full, o, d⟩ := r
  cases c'.allocBuf <;> cases full
  · exact .ite ((Still.ite h h.disconnect).updateExpectedTxSeq _ _) (.ite h h.disconnect)
  · exact .ite ((Still.ite h h.disconnect).updateExpectedTxSeq _ _) (.ite h h.disconnect)
  · exact .ite (hseg.updateExpectedTxSeq _ _) hseg
  · have hbusy : Still c (if d.rx.mode = .eret ∧ !d.flags.localBusy then
        (d.setFlags { d.flags with
          localBusy := true, localBusyChanged := true }).sendSFrameOrDisconnect env.id
        else d) :=
      .ite ((hseg.setFlags _).sendSFrameOrDisconnect env.id) hseg
    exact .ite (hbusy.updateExpectedTxSeq _ _) hbusy

theorem Still.recvComplete (h : Still c c') (id : Option ℕ) : Still c (c'.recvComplete id) := by
  rw [Chan.recvComplete]
  split
  · have h := h.setFlags { c'.flags with localBusy := false }
    generalize c'.setFlags { c'.flags with localBusy := false } = d at h
    dsimp only
    split
    · exact (((((h.retryCount 1).setFlags _).startMonitorTimer).setFlags _)).sendSFrameOrDisconnect id
    split
    · exact h.setFlags _
    · exact h
  · exact h

theorem Still.monitorTimeout (h : Still c c') (id : Option ℕ) : Still c (c'.monitorTimeout id) := by
  have hs := h.sendSFrame .rr id
  rw [Chan.monitorTimeout]
  split
  · exact h
  split
  · split
    · dsimp only
      split
      · exact (h.retryCount _).disconnect
      · exact ((((h.retryCount _).setFlags _).startMonitorTimer)).sendSFrameOrDisconnect id
    · exact h
  iterate 2
    split
    next heq =>
      rw [heq] at hs
      exact hs.setFlags _
    next heq =>
      rw [heq] at hs
      exact hs.disconnect
  · exact h

theorem Still.updateWin (h : Still c c') {w : ℕ} {v : Window} (hv : v.txSeq = (c'.win w).txSeq) :
    Still c { c' with win := update c'.win w v } := by
  refine h.trans { win := fun u => ?_ }
  by_cases hu : u = w
  · subst hu
    simpa using hv
  · simp [update_of_ne hu]

theorem Still.countTransmit (h : Still c c') (w : ℕ) : Still c (c'.countTransmit w) :=
  h.updateWin (.refl _)

theorem Still.updateSrej (h : Still c c') (reqSeq : ℕ) : Still c (c'.updateSrej reqSeq).2 := by
  rw [Chan.updateSrej]
  dsimp only
  refine Still.raiseIfData ?_
  split
  · split
    · exact h.updateWin (.refl _)
    · exact h
  · exact h.disconnect

/-! ## Sequence numbers -/

/-- **The numbers of a list follow each other**, from `a` up to before
`b`. -/
def Consecutive (M : ℕ) : ℕ → List ℕ → ℕ → Prop
  | a, [], b => a = b
  | a, s :: l, b => s = a ∧ Consecutive M ((a + 1) % M) l b

variable {M a b r : ℕ} {l : List ℕ}

theorem Consecutive.end_eq (h : Consecutive M a l b) (ha : a < M) : b = (a + l.length) % M := by
  induction l generalizing a with
  | nil =>
    rw [length_nil, Nat.add_zero, Nat.mod_eq_of_lt ha]
    exact h.symm
  | cons s l ih =>
    have hM : 0 < M := Nat.zero_lt_of_lt ha
    rw [ih h.2 (Nat.mod_lt _ hM), Nat.mod_add_mod, length_cons]
    congr 1
    omega

theorem Consecutive.append (h : Consecutive M a l b) :
    Consecutive M a (l ++ [b]) ((b + 1) % M) := by
  induction l generalizing a with
  | nil =>
    obtain rfl : a = b := h
    exact ⟨rfl, rfl⟩
  | cons s l ih => exact ⟨h.1, ih h.2⟩

theorem Consecutive.remod (h : Consecutive M a l b) (hb : b = a + l.length) (hM : b < M) {N : ℕ}
    (hN : b < N) : Consecutive N a l b := by
  induction l generalizing a with
  | nil => exact h
  | cons s l ih =>
    obtain ⟨hs, hnext⟩ := h
    rw [length_cons] at hb
    rw [Nat.mod_eq_of_lt (by omega)] at hnext
    refine ⟨hs, ?_⟩
    rw [Nat.mod_eq_of_lt (by omega)]
    exact ih hnext (by omega)

theorem Consecutive.mem_or_eq (h : Consecutive M a l b) (ha : a < M) {k : ℕ}
    (hk : k ≤ l.length) : (a + k) % M ∈ l ∨ (a + k) % M = b := by
  induction l generalizing a k with
  | nil =>
    obtain rfl : k = 0 := by simpa using hk
    exact .inr ((Nat.mod_eq_of_lt ha).trans h)
  | cons s l ih =>
    cases k with
    | zero =>
      left
      rw [Nat.add_zero, Nat.mod_eq_of_lt ha, h.1]
      exact mem_cons_self
    | succ k =>
      have hnext := ih h.2 (Nat.mod_lt _ (Nat.zero_lt_of_lt ha)) (k := k) (by simpa using hk)
      rw [Nat.mod_add_mod, show a + 1 + k = a + (k + 1) by omega] at hnext
      exact hnext.imp_left (mem_cons_of_mem s)

theorem Consecutive.dropWhile (h : Consecutive M a l b) (hr : r ∈ l ∨ r = b) :
    Consecutive M r (l.dropWhile (· ≠ r)) b := by
  induction l generalizing a with
  | nil => exact hr.resolve_left not_mem_nil
  | cons s l ih =>
    by_cases hs : s = r
    · rw [dropWhile_cons_of_neg (by simpa using hs), ← hs, h.1]
      exact ⟨rfl, h.2⟩
    · rw [dropWhile_cons_of_pos (by simpa using hs)]
      have hmem : r ∈ l ∨ r = b := hr.imp_left fun hr =>
        (mem_cons.mp hr).resolve_left fun h => hs h.symm
      exact ih h.2 hmem

/-! ## The windows -/

/-- **The windows of a channel are in order**: the two lists are all
windows, each once; those that wait for an acknowledgement are numbered
from the expected acknowledgement on, and are no more than the peer
takes. -/
structure Chan.Windowed (c : Chan) : Prop where
  nodup : (c.free ++ c.outstanding).Nodup
  all : ∀ w, w ∈ c.free ++ c.outstanding ↔ w < c.windows
  bound : c.outstanding.length ≤ c.tx.maxWindow
  numbered : c.rx.mode ≠ .stream → Consecutive c.tx.layout.seqMax c.expectedAckSeq
    (c.outstanding.map fun w => (c.win w).txSeq) c.nextTxSeq
  streaming : c.rx.mode = .stream → c.outstanding = []
  ack : c.expectedAckSeq < c.tx.layout.seqMax
  /-- There are at most `CONFIG_BT_L2CAP_MAX_WINDOW_SIZE` windows. -/
  few : c.windows ≤ 32

theorem Layout.seqMax_ge (l : Layout) : 64 ≤ l.seqMax := by cases l <;> decide

theorem Layout.seqMax_dvd (l : Layout) : l.seqMax ∣ 2 ^ 16 := by cases l <;> decide

theorem sub16_mod (l : Layout) {a n : ℕ} (ha : a < l.seqMax) (hn : n < l.seqMax) :
    sub16 ((a + n) % l.seqMax) a % l.seqMax = n := by
  have hM : l.seqMax ≤ 2 ^ 16 := Nat.le_of_dvd (by decide) l.seqMax_dvd
  rw [sub16, Nat.mod_mod_of_dvd _ l.seqMax_dvd]
  have hlt : (a + n) % l.seqMax < l.seqMax := Nat.mod_lt _ (by omega)
  obtain ⟨k, hk⟩ := l.seqMax_dvd
  have hsum : ((a + n) % l.seqMax + 2 ^ 16 - a) + a = (a + n) % l.seqMax + 2 ^ 16 := by omega
  have hmod : ((a + n) % l.seqMax + 2 ^ 16 - a + a) % l.seqMax = (n + a) % l.seqMax := by
    rw [hsum, hk, Nat.add_mul_mod_self_left, Nat.mod_mod, Nat.add_comm]
  have := Nat.ModEq.add_right_cancel' a hmod
  rw [this, Nat.mod_eq_of_lt hn]

theorem add_sub16_mod (l : Layout) (ha : a < l.seqMax) (hr : r < l.seqMax) :
    (a + sub16 r a % l.seqMax) % l.seqMax = r := by
  have hM : l.seqMax ≤ 2 ^ 16 := Nat.le_of_dvd (by decide) l.seqMax_dvd
  obtain ⟨k, hk⟩ := l.seqMax_dvd
  rw [sub16, Nat.mod_mod_of_dvd _ l.seqMax_dvd, Nat.add_mod_mod,
    show a + (r + 2 ^ 16 - a) = r + 2 ^ 16 by omega, hk, Nat.add_mul_mod_self_left,
    Nat.mod_eq_of_lt hr]

/-- The numbers of the windows that wait. -/
def Chan.seqs (c : Chan) : List ℕ := c.outstanding.map fun w => (c.win w).txSeq

theorem Chan.Windowed.still (h : c.Windowed) (hs : Still c c') : c'.Windowed := by
  have hseqs : (c'.outstanding.map fun w => (c'.win w).txSeq) =
      c.outstanding.map fun w => (c.win w).txSeq := by
    rw [hs.outstanding]
    exact map_congr_left fun w _ => hs.win w
  refine ⟨?_, fun w => ?_, ?_, fun hmode => ?_, fun hmode => ?_, ?_, ?_⟩
  · rw [hs.free, hs.outstanding]
    exact h.nodup
  · rw [hs.free, hs.outstanding, hs.windows]
    exact h.all w
  · rw [hs.outstanding, hs.tx]
    exact h.bound
  · rw [hseqs, hs.tx, hs.expectedAckSeq, hs.nextTxSeq]
    exact h.numbered (hs.rx ▸ hmode)
  · rw [hs.outstanding]
    exact h.streaming (hs.rx ▸ hmode)
  · rw [hs.expectedAckSeq, hs.tx]
    exact h.ack
  · rw [hs.windows]
    exact h.few

theorem Chan.Windowed.length_le (h : c.Windowed) : c.outstanding.length ≤ c.windows := by
  have hsub : c.outstanding ⊆ List.range c.windows := fun w hw =>
    List.mem_range.2 ((h.all w).1 (mem_append_right _ hw))
  have hle := (List.Nodup.of_append_right h.nodup).subperm hsub |>.length_le
  rwa [length_range] at hle

theorem Chan.Windowed.length_lt (h : c.Windowed) : c.outstanding.length < c.tx.layout.seqMax := by
  have hle := h.length_le
  have hfew := h.few
  have hmax := c.tx.layout.seqMax_ge
  omega

theorem Chan.Windowed.next_eq (h : c.Windowed) (hmode : c.rx.mode ≠ .stream) :
    c.nextTxSeq = (c.expectedAckSeq + c.outstanding.length) % c.tx.layout.seqMax := by
  simpa using (h.numbered hmode).end_eq h.ack

/-- **The assertion holds.** -/
theorem Chan.Windowed.matches (h : c.Windowed) (hmode : c.rx.mode ≠ .stream) :
    c.windowMatchesSeq := by
  rw [Chan.windowMatchesSeq, h.next_eq hmode, sub16_mod _ h.ack h.length_lt]
  rfl

theorem Chan.Windowed.assertSeq (h : c.Windowed) (hmode : c.rx.mode ≠ .stream) :
    c.assertSeq = [] := if_pos (h.matches hmode)

theorem Chan.Windowed.mem_or_eq (h : c.Windowed) (hmode : c.rx.mode ≠ .stream)
    (hr : r < c.tx.layout.seqMax) (hvalid : c.reqSeqValid r = true) :
    r ∈ c.seqs ∨ r = c.nextTxSeq := by
  rw [Chan.reqSeqValid, decide_eq_true_eq, h.next_eq hmode, sub16_mod _ h.ack h.length_lt] at hvalid
  have hmem := (h.numbered hmode).mem_or_eq h.ack (by simpa using hvalid)
  rwa [add_sub16_mod _ h.ack hr] at hmem

/-! ## Acknowledgements -/

/-- Windows have been taken off the front of the list and freed. -/
structure Acked (c : Chan) (l : List ℕ) (c' : Chan) : Prop where
  tx : c'.tx = c.tx
  rx : c'.rx = c.rx
  windows : c'.windows = c.windows
  nextTxSeq : c'.nextTxSeq = c.nextTxSeq
  expectedAckSeq : c'.expectedAckSeq = c.expectedAckSeq
  outstanding : c.outstanding = l ++ c'.outstanding
  free : c'.free = c.free ++ l
  win : ∀ w ∈ c'.outstanding, (c'.win w).txSeq = (c.win w).txSeq

variable {l' ws : List ℕ} {w : ℕ}

theorem Still.acked (h : Still c c') : Acked c [] c' where
  tx := h.tx
  rx := h.rx
  windows := h.windows
  nextTxSeq := h.nextTxSeq
  expectedAckSeq := h.expectedAckSeq
  outstanding := h.outstanding.symm
  free := h.free.trans (append_nil _).symm
  win w _ := h.win w

theorem Acked.trans (h : Acked c l c') (h' : Acked c' l' c'') : Acked c (l ++ l') c'' where
  tx := h'.tx.trans h.tx
  rx := h'.rx.trans h.rx
  windows := h'.windows.trans h.windows
  nextTxSeq := h'.nextTxSeq.trans h.nextTxSeq
  expectedAckSeq := h'.expectedAckSeq.trans h.expectedAckSeq
  outstanding := by rw [h.outstanding, h'.outstanding, append_assoc]
  free := by rw [h'.free, h.free, append_assoc]
  win w hw := (h'.win w hw).trans (h.win w (by rw [h'.outstanding]; exact mem_append_right _ hw))

theorem Acked.lists (h : Acked c l c') : c'.free ++ c'.outstanding = c.free ++ c.outstanding := by
  rw [h.free, h.outstanding, append_assoc]

theorem Acked.seqs (h : Acked c l c') : c'.seqs = c.seqs.drop l.length := by
  rw [Chan.seqs, Chan.seqs, h.outstanding, map_append, drop_left' (length_map _)]
  exact map_congr_left h.win

theorem cutAfter_of_not_mem (h : w ∉ ws) : cutAfter w ws = ws := if_neg h

/-- **The first window is freed.** -/
theorem acked_popWindow (hnodup : (c.free ++ c.outstanding).Nodup)
    (ho : c.outstanding = w :: ws) : Acked c [w] (c.popWindow w) := by
  rw [ho] at hnodup
  have hfree : w ∉ c.free := fun hw =>
    disjoint_of_nodup_append hnodup hw mem_cons_self
  have hws : w ∉ ws := (nodup_cons.1 hnodup.of_append_right).1
  have hout : (c.popWindow w).outstanding = ws := by
    simp only [popWindow, freeWindow, clearWindow, ho, tail_cons]
    exact cutAfter_of_not_mem hws
  refine ⟨.refl _, .refl _, .refl _, .refl _, .refl _, ?_, ?_, fun v hv => ?_⟩
  · rw [ho, hout]
    rfl
  · simp only [popWindow, freeWindow, clearWindow]
    rw [cutAfter_of_not_mem hfree]
  · have hne : v ≠ w := fun heq => hws (heq ▸ hout ▸ hv)
    simp only [popWindow, freeWindow, clearWindow, update_of_ne hne]

theorem still_sduIsDone (c : Chan) (id : ℕ) : Still c (c.sduIsDone id).2 := by
  rw [sduIsDone]
  exact Still.raiseIfData (.of_kept rfl)

theorem ackTurn_eq (c : Chan) (w : ℕ) :
    ∃ o d, c.ackTurn w = (o, d.popWindow w) ∧ Still c d ∧ Out.assertFailed ∉ o := by
  unfold ackTurn
  cases (c.win w).sdu with
  | none => exact ⟨[], c, rfl, .rfl, not_mem_nil⟩
  | some id =>
    by_cases hlast : (c.win w).sar = .unseg ∨ (c.win w).sar = .fin
    · simp only [if_pos hlast]
      exact ⟨_, _, rfl, still_sduIsDone c id, by simp [sduIsDone]⟩
    · simp only [if_neg hlast]
      exact ⟨[], c, rfl, .rfl, not_mem_nil⟩

/-- **The first loop frees the windows before `reqSeq`.** -/
theorem ackLoop_acked (reqSeq : ℕ) {n : ℕ} (hnodup : (c.free ++ c.outstanding).Nodup)
    (hn : c.outstanding.length ≤ n) : Out.assertFailed ∉ (ackLoop reqSeq n c).1 ∧ ∃ l,
      Acked c l (ackLoop reqSeq n c).2 ∧
        (ackLoop reqSeq n c).2.seqs = c.seqs.dropWhile (· ≠ reqSeq) := by
  induction n generalizing c with
  | zero =>
    have ho : c.outstanding = [] := length_eq_zero_iff.1 (Nat.le_zero.1 hn)
    exact ⟨not_mem_nil, [], Still.rfl.acked, by simp [ackLoop, seqs, ho]⟩
  | succ n ih =>
    rw [ackLoop]
    cases ho : c.outstanding with
    | nil => exact ⟨not_mem_nil, [], Still.rfl.acked, by simp [seqs, ho]⟩
    | cons w ws =>
      have hseqs : c.seqs = (c.win w).txSeq :: ws.map fun w => (c.win w).txSeq := by
        rw [seqs, ho, map_cons]
      dsimp only
      split
      next heq =>
        refine ⟨not_mem_nil, [], Still.rfl.acked, ?_⟩
        rw [hseqs, dropWhile_cons_of_neg (by simpa using heq)]
      next hne =>
        obtain ⟨o, d, hturn, hd, hquiet⟩ := ackTurn_eq c w
        have hpop : Acked c [w] (d.popWindow w) := by
          have hout : d.outstanding = w :: ws := hd.outstanding.trans ho
          simpa using hd.acked.trans (acked_popWindow (by rwa [hd.free, hd.outstanding]) hout)
        have hlen : (d.popWindow w).outstanding.length ≤ n := by
          have hout := hpop.outstanding
          rw [ho, singleton_append, List.cons.injEq] at hout
          rw [← hout.2]
          rw [ho] at hn
          simpa using hn
        obtain ⟨hrest, l, hacked, hdrop⟩ := ih (hpop.lists ▸ hnodup) hlen
        rw [hturn]
        refine ⟨?_, w :: l, hpop.trans hacked, ?_⟩
        · rw [mem_append]
          exact fun hin => hin.elim hquiet hrest
        · rw [hseqs, dropWhile_cons_of_pos (by simpa using hne)]
          rw [hdrop, hpop.seqs, hseqs]
          rfl

theorem still_restoreSdu (c : Chan) (w : ℕ) : Still c (c.restoreSdu w) := by
  rw [restoreSdu]
  split
  · exact .of_kept rfl
  · exact .rfl

theorem acked_rewindTurn (hnodup : (c.free ++ c.outstanding).Nodup)
    (ho : c.outstanding = w :: ws) : Acked c [w] (c.rewindTurn w) := by
  have hpop := acked_popWindow hnodup ho
  have hstill : Still (c.popWindow w) (c.rewindTurn w) := by
    unfold rewindTurn
    dsimp only
    split
    · exact .rfl
    · exact .ite (still_restoreSdu _ _) .rfl
  simpa using hpop.trans hstill.acked

/-- **The second loop frees them all.** -/
theorem rewindLoop_acked {n : ℕ} (hnodup : (c.free ++ c.outstanding).Nodup)
    (hn : c.outstanding.length ≤ n) :
    Acked c c.outstanding (rewindLoop n c) ∧ (rewindLoop n c).outstanding = [] := by
  induction n generalizing c with
  | zero =>
    have ho : c.outstanding = [] := length_eq_zero_iff.1 (Nat.le_zero.1 hn)
    rw [ho]
    exact ⟨Still.rfl.acked, ho⟩
  | succ n ih =>
    rw [rewindLoop]
    cases ho : c.outstanding with
    | nil => exact ⟨Still.rfl.acked, ho⟩
    | cons w ws =>
      have hturn := acked_rewindTurn hnodup ho
      have hout : (c.rewindTurn w).outstanding = ws := by
        have := hturn.outstanding
        rw [ho, singleton_append, List.cons.injEq] at this
        exact this.2.symm
      obtain ⟨hacked, hempty⟩ := ih (c := c.rewindTurn w) (hturn.lists ▸ hnodup) (by
        rw [hout]
        rw [ho] at hn
        simpa using hn)
      rw [hout] at hacked
      exact ⟨hturn.trans hacked, hempty⟩

theorem Acked.length_le (h : Acked c l c') : c'.outstanding.length ≤ c.outstanding.length := by
  rw [h.outstanding, length_append]
  exact Nat.le_add_left _ _

theorem Chan.Windowed.of_perm (h : c.Windowed)
    (hperm : (c'.free ++ c'.outstanding).Perm (c.free ++ c.outstanding))
    (hlen : c'.outstanding.length ≤ c.tx.maxWindow)
    (hstream : c.rx.mode = .stream → c'.outstanding = [])
    (htx : c'.tx = c.tx) (hrx : c'.rx = c.rx) (hwindows : c'.windows = c.windows)
    (hack : c'.expectedAckSeq < c.tx.layout.seqMax) (hnum : c.rx.mode ≠ .stream →
      Consecutive c.tx.layout.seqMax c'.expectedAckSeq c'.seqs c'.nextTxSeq) : c'.Windowed where
  nodup := hperm.nodup_iff.2 h.nodup
  all w := by
    rw [hperm.mem_iff, hwindows]
    exact h.all w
  bound := htx ▸ hlen
  numbered hmode := by
    rw [htx]
    exact hnum (hrx ▸ hmode)
  streaming hmode := hstream (hrx ▸ hmode)
  ack := htx ▸ hack
  few := hwindows ▸ h.few

theorem Chan.Windowed.of_lists (h : c.Windowed)
    (hlists : c'.free ++ c'.outstanding = c.free ++ c.outstanding)
    (hlen : c'.outstanding.length ≤ c.outstanding.length)
    (htx : c'.tx = c.tx) (hrx : c'.rx = c.rx) (hwindows : c'.windows = c.windows)
    (hack : c'.expectedAckSeq < c.tx.layout.seqMax) (hnum : c.rx.mode ≠ .stream →
      Consecutive c.tx.layout.seqMax c'.expectedAckSeq c'.seqs c'.nextTxSeq) : c'.Windowed := by
  refine h.of_perm (.of_eq hlists) (hlen.trans h.bound) (fun hmode => ?_) htx hrx hwindows hack hnum
  rw [h.streaming hmode] at hlen
  exact length_eq_zero_iff.1 (Nat.le_zero.1 hlen)

theorem Chan.Windowed.rewind (h : c.Windowed) (hmode : c.rx.mode ≠ .stream) :
    c.rewind.Windowed ∧ c.rewind.tx = c.tx ∧ c.rewind.rx = c.rx := by
  rw [Chan.rewind]
  cases ho : c.outstanding with
  | nil => exact ⟨h, rfl, rfl⟩
  | cons w ws =>
    have hfirst : (c.win w).txSeq = c.expectedAckSeq := by
      have := h.numbered hmode
      rw [ho] at this
      exact this.1
    dsimp only
    generalize hd : { c.restoreSdu w with
      sduTotalLen := if Chan.Window.starts (c.win w) then 0 else (c.win w).sduTotalLen
      nextTxSeq := (c.win w).txSeq } = d
    have hstill := still_restoreSdu c w
    have hlists : d.free ++ d.outstanding = c.free ++ c.outstanding := by
      rw [← hd]
      exact congrArg₂ _ hstill.free hstill.outstanding
    have hout : d.outstanding = w :: ws := by
      rw [← hd]
      exact hstill.outstanding.trans ho
    obtain ⟨hacked, hempty⟩ := rewindLoop_acked (c := d) (n := (w :: ws).length)
      (hlists ▸ h.nodup) (by rw [hout])
    have htx : d.tx = c.tx := by rw [← hd]; exact hstill.tx
    have hrx : d.rx = c.rx := by rw [← hd]; exact hstill.rx
    have hack : d.expectedAckSeq = c.expectedAckSeq := by rw [← hd]; exact hstill.expectedAckSeq
    have hnext : d.nextTxSeq = c.expectedAckSeq := by rw [← hd]; exact hfirst
    refine ⟨h.of_lists (hacked.lists.trans hlists) ?_ (hacked.tx.trans htx) (hacked.rx.trans hrx)
      ?_ ?_ fun _ => ?_, hacked.tx.trans htx, hacked.rx.trans hrx⟩
    · rw [hempty]
      exact Nat.zero_le _
    · rw [hacked.windows, ← hd]
      exact hstill.windows
    · rw [hacked.expectedAckSeq, hack]
      exact h.ack
    · rw [Chan.seqs, hempty, hacked.expectedAckSeq, hack, hacked.nextTxSeq, hnext]
      rfl

/-- What a step may do to the windows: it keeps them in order, and no
assertion fails. -/
structure Safe (c : Chan) (r : List Out × Chan) : Prop where
  quiet : Out.assertFailed ∉ r.1
  windowed : r.2.Windowed
  tx : r.2.tx = c.tx
  rx : r.2.rx = c.rx

variable {o o' : List Out}

theorem Still.safe (hs : Still c c') (h : c.Windowed) (ho : Out.assertFailed ∉ o) : Safe c (o, c') :=
  ⟨ho, h.still hs, hs.tx, hs.rx⟩

theorem Safe.still (h : Safe c (o, c')) (hs : Still c' c'') : Safe c (o, c'') :=
  ⟨h.quiet, h.windowed.still hs, hs.tx.trans h.tx, hs.rx.trans h.rx⟩

theorem Still.then {r : List Out × Chan} (hs : Still c c') (h : Safe c' r) : Safe c r :=
  ⟨h.quiet, h.windowed, h.tx.trans hs.tx, h.rx.trans hs.rx⟩

theorem Chan.Windowed.updateReqSeqDirect (h : c.Windowed) (hmode : c.rx.mode ≠ .stream)
    (hr : r < c.tx.layout.seqMax) (hmem : r ∈ c.seqs ∨ r = c.nextTxSeq) (rej : Bool) :
    Safe c (c.updateReqSeqDirect r rej) := by
  unfold Chan.updateReqSeqDirect
  obtain ⟨hquiet, l, hacked, hdrop⟩ := ackLoop_acked r h.nodup le_rfl
  dsimp only
  generalize Chan.ackLoop r c.outstanding.length c = p at hquiet hacked hdrop
  have hmoved : Safe c (p.1, { p.2 with expectedAckSeq := r }) := by
    refine ⟨hquiet, h.of_lists hacked.lists hacked.length_le hacked.tx hacked.rx hacked.windows hr
      fun hmode => ?_, hacked.tx, hacked.rx⟩
    have hnum := (h.numbered hmode).dropWhile hmem
    have hseqs : Chan.seqs { p.2 with expectedAckSeq := r } = p.2.seqs := rfl
    rw [hseqs, hdrop, hacked.nextTxSeq]
    exact hnum
  have hend {d : Chan} (hd : Safe c (p.1, d)) : Safe c (p.1, if (if d.flags.recvFrameR then d
        else if d.outstandingCount ≠ 0 then d.startRetTimer else d.startMonitorTimer).hasData then
        (if d.flags.recvFrameR then d
          else if d.outstandingCount ≠ 0 then d.startRetTimer
            else d.startMonitorTimer).raiseDataReady
      else if d.flags.recvFrameR then d
        else if d.outstandingCount ≠ 0 then d.startRetTimer else d.startMonitorTimer) :=
    hd.still (Still.raiseIfData (.ite .rfl (Still.runTimer .rfl)))
  cases rej with
  | false => exact hend hmoved
  | true =>
    obtain ⟨hw, htx, hrx⟩ := hmoved.windowed.rewind (hmoved.rx ▸ hmode)
    exact hend ⟨hquiet, hw, htx.trans hmoved.tx, hrx.trans hmoved.rx⟩

/-- **An acknowledgement keeps the windows in order**, valid or not. -/
theorem Chan.Windowed.updateReqSeq (h : c.Windowed) (hmode : c.rx.mode ≠ .stream)
    (hr : r < c.tx.layout.seqMax) (rej : Bool) : Safe c (c.updateReqSeq r rej).2 := by
  rw [Chan.updateReqSeq, h.assertSeq hmode]
  split
  next hvalid => exact h.updateReqSeqDirect hmode hr (h.mem_or_eq hmode hr hvalid) rej
  next => exact ⟨not_mem_nil, h.still Still.rfl.disconnect, rfl, rfl⟩

end Classic

end OpenBlue

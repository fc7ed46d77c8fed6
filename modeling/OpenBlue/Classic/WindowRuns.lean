import OpenBlue.Classic.Windows
/-!
# BR/EDR L2CAP — the transmit windows over runs

What each call does to the windows, and what a run does to them: they
stay in order if no window is asked for once more while there is no
buffer to send it in, and no Configuration Request changes the window, the
numbers or the mode under the windows that wait.
-/

namespace OpenBlue

namespace Classic

open Function List Chan

variable {c c' c'' : Chan} {o o' : List Out} {w : ℕ}

theorem Safe.then (h : Safe c (o, c')) (h' : Safe c' (o', c'')) : Safe c (o ++ o', c'') where
  quiet := by
    rw [mem_append]
    exact fun hin => hin.elim h.quiet h'.quiet
  windowed := h'.windowed
  tx := h'.tx.trans h.tx
  rx := h'.rx.trans h.rx

theorem Still.step (hs : Still c c') (h : c.Windowed) : Safe c ([], c') :=
  hs.safe h not_mem_nil

theorem Safe.ite {p : Prop} [Decidable p] {r r' : List Out × Chan} (h : Safe c r)
    (h' : Safe c r') : Safe c (if p then r else r') := by
  split
  · exact h
  · exact h'

/-! ## Receiving -/

theorem Chan.Windowed.ackAfter (h : c.Windowed) (hmode : c.rx.mode ≠ .stream) {r : ℕ}
    (hr : r < c.tx.layout.seqMax) (rej : Bool) (hs : Still c c') :
    Safe c (c'.updateReqSeq r rej).2 :=
  hs.then ((h.still hs).updateReqSeq (hs.rx ▸ hmode) (hs.tx ▸ hr) rej)

theorem Chan.Windowed.recvRr (h : c.Windowed) (hmode : c.rx.mode ≠ .stream) {ctl : SControl}
    (hr : ctl.reqSeq < c.tx.layout.seqMax) (id : Option ℕ) : Safe c (c.recvRr ctl id) := by
  rw [Chan.recvRr]
  have hs : Still c (if ctl.p then c.setFlags { c.flags with recvFrameP := true }
      else if !c.flags.sendFrameRej || ctl.f then c.setFlags { c.flags with newIFrame := true }
      else c) :=
    .ite (Still.rfl.setFlags _) (.ite (Still.rfl.setFlags _) .rfl)
  generalize (if ctl.p then c.setFlags { c.flags with recvFrameP := true }
      else if !c.flags.sendFrameRej || ctl.f then c.setFlags { c.flags with newIFrame := true }
      else c) = e at hs ⊢
  have hack := h.ackAfter hmode hr false hs
  rcases hp : e.updateReqSeq ctl.reqSeq false with ⟨b, o, d⟩
  rw [hp] at hack
  dsimp only
  have hd : Still d ((d.setFlags { d.flags with remoteBusy := false }).retransmitOnF ctl.f) :=
    (Still.rfl.setFlags _).retransmitOnF _
  refine .ite (hack.still (.ite (Still.startRetTimer ?_) ?_)) (hack.still hd)
  · exact (hd.setFlags _).sendSFrameOrDisconnect id
  · exact (hd.setFlags _).sendSFrameOrDisconnect id

theorem Chan.Windowed.recvRej (h : c.Windowed) (hmode : c.rx.mode ≠ .stream) {ctl : SControl}
    (hr : ctl.reqSeq < c.tx.layout.seqMax) : Safe c (c.recvRej ctl) := by
  unfold Chan.recvRej
  split
  · exact Still.rfl.step h
  · have hs := Still.rfl.setFlags (c := c) { c.flags with remoteBusy := false, newIFrame := true }
    exact h.ackAfter hmode hr true
      ((Still.ite ((Still.ite (hs.setFlags _) hs).setFlags _)
        (Still.ite (hs.setFlags _) hs)).retransmitOnF ctl.f)

theorem Chan.Windowed.recvRnr (h : c.Windowed) (hmode : c.rx.mode ≠ .stream) {ctl : SControl}
    (hr : ctl.reqSeq < c.tx.layout.seqMax) (id : Option ℕ) : Safe c (c.recvRnr ctl id) := by
  unfold Chan.recvRnr
  split
  · exact Still.rfl.step h
  · have hs : Still c (if ctl.p then c.setFlags { c.flags with recvFrameP := true } else c) :=
      .ite (Still.rfl.setFlags _) .rfl
    dsimp only
    generalize (if ctl.p then c.setFlags { c.flags with recvFrameP := true } else c) = e at hs ⊢
    have hack := h.ackAfter hmode hr false (hs.setFlags { e.flags with remoteBusy := true })
    rcases hp : (e.setFlags { e.flags with remoteBusy := true }).updateReqSeq ctl.reqSeq false with
      ⟨b, o, d⟩
    rw [hp] at hack
    have hd : Still d (if !ctl.p then d.startMonitorTimer else d) :=
      .ite Still.rfl.startMonitorTimer .rfl
    generalize (if !ctl.p then d.startMonitorTimer else d) = d' at hd ⊢
    refine hack.still (.ite (Still.sendSFrameOrDisconnect ?_ id) ?_)
    · exact .ite (hd.startMonitorTimer.setFlags _) hd
    · exact .ite (hd.startMonitorTimer.setFlags _) hd

theorem Chan.Windowed.updateSrej (h : c.Windowed) (hmode : c.rx.mode ≠ .stream) (r : ℕ) :
    Safe c (c.updateSrej r) := by
  have hquiet : (c.updateSrej r).1 = [] := h.assertSeq hmode
  exact (Still.rfl.updateSrej r).safe h (o := (c.updateSrej r).1) (by simp [hquiet])

theorem Chan.Windowed.recvSrej (h : c.Windowed) (hmode : c.rx.mode ≠ .stream) {ctl : SControl}
    (hr : ctl.reqSeq < c.tx.layout.seqMax) : Safe c (c.recvSrej ctl) := by
  unfold Chan.recvSrej
  split
  · exact Still.rfl.step h
  · have hsrej := h.updateSrej hmode ctl.reqSeq
    rcases hp : c.updateSrej ctl.reqSeq with ⟨o, d⟩
    rw [hp] at hsrej
    dsimp only
    have hd : Still d (if ctl.p then
        d.setFlags { d.flags with recvFrameP := true, newIFrame := true } else d) :=
      .ite (Still.rfl.setFlags _) .rfl
    generalize (if ctl.p then
        d.setFlags { d.flags with recvFrameP := true, newIFrame := true } else d) = e at hd ⊢
    replace hd := hd.setFlags { e.flags with remoteBusy := false }
    generalize e.setFlags { e.flags with remoteBusy := false } = e' at hd ⊢
    refine .ite (hsrej.then (hsrej.windowed.ackAfter (hsrej.rx ▸ hmode) (hsrej.tx ▸ hr) false
      (.ite (.ite ?_ ?_) (.ite ?_ ?_)))) (hsrej.still (.ite (.ite ?_ ?_) (.ite ?_ ?_)))
    · exact hd.setFlags _
    · exact (hd.setFlags _).setFlags _
    · exact ((hd.setFlags _).saveSrej _).setFlags _
    · exact hd.setFlags _
    · exact hd.setFlags _
    · exact (hd.setFlags _).setFlags _
    · exact ((hd.setFlags _).saveSrej _).setFlags _
    · exact hd.setFlags _

theorem Chan.Windowed.retFcSRecv (h : c.Windowed) {ctl : SControl}
    (hr : ctl.reqSeq < c.tx.layout.seqMax) (id : Option ℕ) : Safe c (c.retFcSRecv ctl id) := by
  rw [Chan.retFcSRecv]
  split
  next => exact Still.rfl.step h
  next hmode =>
    have hbits := Still.rfl.updateBits (c := c) ctl.f ctl.r id
    rcases hp : c.updateBits ctl.f ctl.r id with ⟨ok, d⟩
    rw [hp] at hbits
    have hmode' : d.rx.mode ≠ .stream := hbits.rx ▸ hmode
    have hr' : ctl.reqSeq < d.tx.layout.seqMax := hbits.tx ▸ hr
    cases ok with
    | false => exact hbits.step h
    | true =>
      dsimp only
      split
      · exact hbits.then ((h.still hbits).recvRr hmode' hr' id)
      · exact hbits.then ((h.still hbits).recvRej hmode' hr')
      · exact hbits.then ((h.still hbits).recvRnr hmode' hr' id)
      · exact hbits.then ((h.still hbits).recvSrej hmode' hr')

theorem storeSeg_quiet (c : Chan) (sar : Sar) (seg : Bytes) (env : RecvEnv) :
    Out.assertFailed ∉ (c.storeSeg sar seg env).2.1 := by
  unfold storeSeg
  repeat' split
  all_goals simp

theorem recvSeg_quiet (c : Chan) (sar : Sar) (seg : Bytes) (env : RecvEnv) :
    Out.assertFailed ∉ (c.recvSeg sar seg env).2.1 := by
  unfold recvSeg
  repeat' split
  all_goals first | exact storeSeg_quiet _ _ _ _ | exact not_mem_nil

theorem validFrame_quiet (c : Chan) (ctl : IControl) (info : Bytes) (expected : Bool)
    (env : RecvEnv) : Out.assertFailed ∉ (c.validFrame ctl info expected env).1 := by
  have hseg := recvSeg_quiet c ctl.sar info env
  unfold validFrame
  rcases hp : c.recvSeg ctl.sar info env with ⟨full, o, d⟩
  rw [hp] at hseg
  split
  · exact not_mem_nil
  · cases c.allocBuf with
    | false => simp
    | true =>
      cases full
      · exact hseg
      · exact hseg

theorem Chan.Windowed.validFrame (h : c.Windowed) (ctl : IControl) (info : Bytes)
    (expected : Bool) (env : RecvEnv) : Safe c (c.validFrame ctl info expected env) :=
  (Still.rfl.validFrame ctl info expected env).safe h (validFrame_quiet c ctl info expected env)

theorem Chan.Windowed.retFcIRecv (h : c.Windowed) {ctl : IControl} {info : Bytes}
    (hr : ctl.reqSeq < c.tx.layout.seqMax) (env : RecvEnv) : Safe c (c.retFcIRecv ctl info env) := by
  rw [Chan.retFcIRecv]
  have hbits := Still.rfl.updateBits (c := c) ctl.f ctl.r env.id
  rcases hp : c.updateBits ctl.f ctl.r env.id with ⟨ok, d⟩
  rw [hp] at hbits
  cases ok with
  | false => exact hbits.step h
  | true =>
    dsimp only
    split
    next =>
      have hseq := hbits.updateExpectedTxSeq (ctl.txSeq + 1) env.id
      exact hseq.then ((h.still hseq).validFrame ctl info false env)
    next hmode =>
      have hrej : Still c (if d.reqSeq = ctl.txSeq then
          d.setFlags { d.flags with sendFrameRej := false } else d) :=
        .ite (hbits.setFlags _) hbits
      generalize (if d.reqSeq = ctl.txSeq then
          d.setFlags { d.flags with sendFrameRej := false } else d) = e at hrej
      have hcheck := hrej.checkTxSeq ctl.txSeq env.id
      rcases hk : e.checkTxSeq ctl.txSeq env.id with ⟨kind, e'⟩
      rw [hk] at hcheck
      have hack := h.ackAfter (hbits.rx ▸ hmode) hr false hcheck
      rcases hu : e'.updateReqSeq ctl.reqSeq false with ⟨ok, o, g⟩
      rw [hu] at hack
      cases kind with
      | invalid => exact hcheck.step h
      | discard =>
        dsimp only
        rw [hu]
        cases ok <;> exact hack
      | expected =>
        dsimp only
        rw [hu]
        cases ok with
        | false => exact hack
        | true =>
          dsimp only
          rw [if_neg nofun]
          have hasked : Still g (if g.rx.mode = .eret ∧ ctl.f then
              if g.flags.rejActioned then g.setFlags { g.flags with rejActioned := false }
              else g.setFlags { g.flags with
                newIFrame := true, retIFrame := true, reqSeqUpdated := true }
              else g) :=
            .ite (.ite (Still.rfl.setFlags _) (Still.rfl.setFlags _)) .rfl
          exact hack.then (Still.then hasked
            ((hack.windowed.still hasked).validFrame ctl info true env))

/-- The number that a frame acknowledges. -/
def Frame.reqSeq : Frame → ℕ
  | .s ctl => ctl.reqSeq
  | .i ctl _ => ctl.reqSeq

/-- The frame in a buffer acknowledges with a number that the sender has. -/
def Chan.acksInRange (c : Chan) (buf : Bytes) : Bool :=
  match c.rx.parse buf with
  | .frame f => f.reqSeq < c.tx.layout.seqMax
  | _ => true

theorem Chan.Windowed.retFcRecv (h : c.Windowed) {buf : Bytes} (hr : c.acksInRange buf)
    (env : RecvEnv) : Safe c (c.retFcRecv buf env) := by
  rw [Chan.retFcRecv]
  rw [Chan.acksInRange] at hr
  split
  · exact Still.rfl.disconnect.step h
  · exact Still.rfl.step h
  next ctl heq =>
    rw [heq] at hr
    exact h.retFcSRecv (of_decide_eq_true hr) env.id
  next ctl info heq =>
    rw [heq] at hr
    exact h.retFcIRecv (of_decide_eq_true hr) env

/-! ## Sending -/

theorem still_packSFrameHeader (c : Chan) (s : SType) : Still c (c.packSFrameHeader s).2 := by
  obtain ⟨flags, reqSeq, heq⟩ := packSFrameHeader_chan c s
  rw [heq]
  exact {}

theorem Still.packIFrameHeader (h : Still c c') (sar : Sar) (txSeq : ℕ) :
    Still c (c'.packIFrameHeader sar txSeq).2 :=
  h.trans {}

theorem Still.fragment (h : Still c c') (amount : ℕ) (empty : Bool) :
    Still c (c'.fragment amount empty) := by
  rw [Chan.fragment]
  split
  · exact h.trans {}
  · have hlow : Still c { c' with
        pduRemaining := 0
        sduTotalLen := if empty then 0 else c'.sduTotalLen }.lowerDataReady :=
      h.trans {}
    exact hlow.raiseIfData

theorem Chan.Windowed.hand (h : c.Windowed) (f : Frame) (bytes : Bytes) (amount : ℕ)
    (empty : Bool) : Safe c (c.hand f bytes amount empty) := by
  have hs : Still c { c with pduRemaining := bytes.length } :=
    {}
  exact (hs.fragment amount empty).safe h (by simp)

theorem Chan.Windowed.pullSFrame (h : c.Windowed) (pdu : Option Buf) (amount : ℕ) (alloc : Bool) :
    Safe c (c.pullSFrame pdu amount alloc) := by
  rw [Chan.pullSFrame]
  split
  · exact Still.rfl.step h
  have hpack := still_packSFrameHeader c ((pdu.bind Buf.sBits).getD .rr)
  rcases hp : c.packSFrameHeader ((pdu.bind Buf.sBits).getD .rr) with ⟨ctl, d⟩
  rw [hp] at hpack
  dsimp only
  rw [hp]
  cases ctl with
  | none => exact hpack.step h
  | some ctl =>
    dsimp only
    generalize he : d.setFlags { d.flags with sendSFrame := false } = e
    have hsent : Still c e := he ▸ hpack.setFlags _
    cases pdu with
    | none => exact (hsent.step h).then ((h.still hsent).hand _ _ _ _)
    | some b =>
      have hdone : Safe c (if (Buf.sBits b).isSome then e.sduIsDone b.id else ([], e)) :=
        .ite ((hsent.trans (still_sduIsDone e _)).safe h (by simp)) (hsent.step h)
      rcases hr : (if (Buf.sBits b).isSome then e.sduIsDone b.id else ([], e)) with ⟨o, g⟩
      rw [hr] at hdone
      dsimp only [Option.bind_some]
      rw [hr]
      exact hdone.then (hdone.windowed.hand _ _ _ _)

/-- A window has been taken from the free ones. -/
structure Taken (c : Chan) (w : ℕ) (c' : Chan) : Prop where
  tx : c'.tx = c.tx := by rfl
  rx : c'.rx = c.rx := by rfl
  windows : c'.windows = c.windows := by rfl
  win : ∀ v, v ≠ w → (c'.win v).txSeq = (c.win v).txSeq
  free : c.free = w :: c'.free
  outstanding : c'.outstanding = c.outstanding := by rfl
  nextTxSeq : c.rx.mode ≠ .stream → c'.nextTxSeq = c.nextTxSeq := by intro _; rfl
  expectedAckSeq : c'.expectedAckSeq = c.expectedAckSeq := by rfl
  room : c.outstanding.length < c.tx.maxWindow

theorem Taken.still (h : Taken c w c') (hs : Still c' c'') : Taken c w c'' where
  tx := hs.tx.trans h.tx
  rx := hs.rx.trans h.rx
  windows := hs.windows.trans h.windows
  win v hv := (hs.win v).trans (h.win v hv)
  free := hs.free ▸ h.free
  outstanding := hs.outstanding.trans h.outstanding
  nextTxSeq hmode := hs.nextTxSeq.trans (h.nextTxSeq hmode)
  expectedAckSeq := hs.expectedAckSeq.trans h.expectedAckSeq
  room := h.room

theorem Chan.Windowed.findWindow (h : c.Windowed) :
    (∃ w, c.findWindow.1 = some w ∧ Taken c w c.findWindow.2) ∨ c.findWindow = (none, c) := by
  rw [Chan.findWindow]
  split
  next => exact .inr rfl
  next hroom =>
    cases hfree : c.free with
    | nil => exact .inr rfl
    | cons w rest =>
      have hnodup := h.nodup
      rw [hfree, cons_append, nodup_cons, mem_append, not_or] at hnodup
      refine .inl ⟨w, rfl, ?_⟩
      have hrest : (Chan.clearWindow { c with free := rest } w).free = rest :=
        cutAfter_of_not_mem hnodup.1.1
      have hout : (Chan.clearWindow { c with free := rest } w).outstanding = c.outstanding :=
        cutAfter_of_not_mem hnodup.1.2
      exact {
        win := fun v hv => by simp [Chan.clearWindow, update_of_ne hv]
        free := by rw [hfree, hrest]
        outstanding := hout
        room := Nat.lt_of_not_le hroom }

theorem Taken.not_mem (h : Taken c w c') (hc : c.Windowed) : w ∉ c'.free ∧ w ∉ c'.outstanding := by
  have hnodup := hc.nodup
  rw [h.free, cons_append, nodup_cons, mem_append, not_or, ← h.outstanding] at hnodup
  exact hnodup.1

theorem Taken.seqs (h : Taken c w c') (hc : c.Windowed) : c'.seqs = c.seqs := by
  rw [Chan.seqs, Chan.seqs, h.outstanding]
  refine map_congr_left fun v hv => h.win v fun heq => ?_
  exact (h.not_mem hc).2 (h.outstanding ▸ heq ▸ hv)

/-- **A window that has been taken is given back.** -/
theorem Taken.freed (h : Taken c w c') (hc : c.Windowed) : Safe c ([], c'.freeWindow w) := by
  obtain ⟨hfree, hout⟩ := h.not_mem hc
  have hfree' : (c'.freeWindow w).free = c'.free ++ [w] := by
    simp only [freeWindow, clearWindow, cutAfter_of_not_mem hfree]
  have hout' : (c'.freeWindow w).outstanding = c.outstanding :=
    (cutAfter_of_not_mem hout).trans h.outstanding
  have hseqs : (c'.freeWindow w).seqs = c.seqs := by
    rw [← h.seqs hc, Chan.seqs, Chan.seqs, hout', ← h.outstanding]
    refine map_congr_left fun v hv => ?_
    have hne : v ≠ w := fun heq => hout (heq ▸ hv)
    simp only [freeWindow, clearWindow, update_of_ne hne]
  refine ⟨not_mem_nil, hc.of_perm ?_ (hout' ▸ hc.bound) (fun hmode => hout' ▸ hc.streaming hmode)
    h.tx h.rx h.windows ?_ fun hmode => ?_, h.tx, h.rx⟩
  · rw [hfree', hout', h.free]
    exact (perm_append_singleton w c'.free).append_right _
  · exact h.expectedAckSeq ▸ hc.ack
  · rw [hseqs]
    exact (h.nextTxSeq hmode) ▸ h.expectedAckSeq ▸ hc.numbered hmode

/-- **A window that has been taken, and has the next number, waits.** -/
theorem Taken.appended (h : Taken c w c') (hc : c.Windowed) (hmode : c.rx.mode ≠ .stream)
    (hseq : (c'.win w).txSeq = c.nextTxSeq) (htx : c''.tx = c.tx) (hrx : c''.rx = c.rx)
    (hwindows : c''.windows = c.windows) (hwin : c''.win = c'.win) (hfree : c''.free = c'.free)
    (hout : c''.outstanding = c'.outstanding ++ [w]) (hack : c''.expectedAckSeq = c.expectedAckSeq)
    (hnext : c''.nextTxSeq = (c.nextTxSeq + 1) % c.tx.layout.seqMax) : Safe c ([], c'') := by
  have hseqs : c''.seqs = c.seqs ++ [c.nextTxSeq] := by
    rw [← h.seqs hc, Chan.seqs, Chan.seqs, hout, hwin, map_append, map_singleton, hseq]
  refine ⟨not_mem_nil, hc.of_perm ?_ ?_ (fun hm => absurd hm hmode) htx hrx hwindows
    (hack ▸ hc.ack) fun _ => ?_, htx, hrx⟩
  · rw [hfree, hout, h.free, h.outstanding, ← append_assoc]
    exact perm_append_singleton w _
  · rw [hout, h.outstanding, length_append]
    exact h.room
  · rw [hack, hseqs, hnext]
    exact (hc.numbered hmode).append

theorem Still.handIFrame (h : Still c c') (w : ℕ) (info : Bytes) :
    Still c (c'.handIFrame w info).2.2 := h.packIFrameHeader (c'.win w).sar (c'.win w).txSeq

theorem Chan.Windowed.pullAgain (h : c.Windowed) (w : ℕ) (pdu : Option Buf) (amount : ℕ) :
    Safe c (c.pullAgain w pdu amount true) := by
  rw [Chan.pullAgain, if_neg (by decide)]
  have hcount := Still.rfl.countTransmit (c := c) w
  dsimp only
  generalize c.countTransmit w = d at hcount
  refine .ite (hcount.disconnect.step h) ?_
  have hhand := hcount.handIFrame w (d.winInfo w)
  rcases hp : d.handIFrame w (d.winInfo w) with ⟨ctl, bytes, e⟩
  rw [hp] at hhand
  have htimer := hhand.startRetTimer
  exact htimer.then ((h.still htimer).hand _ _ _ _)

theorem updateSeq_eq (c : Chan) (seq : ℕ) : c.updateSeq seq = seq % c.tx.layout.seqMax :=
  Nat.mod_mod_of_dvd _ c.tx.layout.seqMax_dvd

theorem Taken.passSegment (h : Taken c w c') (hc : c.Windowed)
    (hseq : (c'.win w).txSeq = c'.nextTxSeq) (rest : Buf) : Safe c (c'.passSegment w rest) := by
  rw [Chan.passSegment]
  split
  next hmode =>
    have hmode' : c.rx.mode ≠ .stream := h.rx ▸ hmode
    refine h.appended hc hmode' (hseq.trans (h.nextTxSeq hmode')) h.tx h.rx h.windows rfl rfl rfl h.expectedAckSeq ?_
    rw [← h.tx, ← h.nextTxSeq hmode']
    exact updateSeq_eq c' (c'.nextTxSeq + 1)
  next hmode =>
    have hstream : c.rx.mode = .stream := h.rx ▸ not_not.1 hmode
    have htaken : Taken c w
        (modifyBuf { c' with nextTxSeq := c'.updateSeq (c'.nextTxSeq + 1) } rest.id
          fun _ => rest) :=
      { h with nextTxSeq := fun hne => absurd hstream hne }
    have hfreed := htaken.freed hc
    refine .ite ⟨by simp [sduIsDone], ?_, ?_, ?_⟩ hfreed
    · exact hfreed.windowed.still (still_sduIsDone _ _)
    · exact (still_sduIsDone _ _).tx.trans hfreed.tx
    · exact (still_sduIsDone _ _).rx.trans hfreed.rx

/-- **The next segment is sent, or its window is given back.** -/
theorem Taken.pullNext (h : Taken c w c') (hc : c.Windowed) (pdu : Buf) (amount : ℕ)
    (alloc : Bool) : Safe c (c'.pullNext w pdu amount alloc) := by
  rw [Chan.pullNext]
  split
  · exact h.freed hc
  dsimp only
  generalize c'.nextSegment pdu = s
  have hbuf : Taken c w (modifyBuf { c' with sduTotalLen := s.total } pdu.id fun _ => s.pdu) :=
    h.still {}
  generalize modifyBuf { c' with sduTotalLen := s.total } pdu.id (fun _ => s.pdu) = d at hbuf
  refine .ite (hbuf.freed hc) ?_
  have hopen : Taken c w (d.openWindow w pdu s) :=
    { hbuf with
      win := fun v hv => by
        simp only [openWindow, update_of_ne hv]
        exact hbuf.win v hv }
  have hseq : ((d.openWindow w pdu s).win w).txSeq = (d.openWindow w pdu s).nextTxSeq := by
    simp [openWindow]
  have hhand := Still.rfl.handIFrame (c := d.openWindow w pdu s) w s.info
  rcases hp : (d.openWindow w pdu s).handIFrame w s.info with ⟨ctl, bytes, e⟩
  rw [hp] at hhand
  have hpass := (hopen.still hhand).passSegment hc
    ((hhand.win w).trans (hseq.trans hhand.nextTxSeq.symm)) s.rest
  rcases hq : e.passSegment w s.rest with ⟨o, g⟩
  rw [hq] at hpass
  have htimer : Still g g.startRetTimer := Still.rfl.startRetTimer
  exact hpass.then (htimer.then ((hpass.windowed.still htimer).hand _ _ _ _))

theorem still_retransmits (c : Chan) : Still c c.retransmits.2 := by
  rw [retransmits]
  split
  · exact .rfl
  · repeat' split
    all_goals first | exact .rfl | exact Still.rfl.setFlags _

/-- An I-frame would be sent once more. -/
def Chan.sendsAgain (c : Chan) : Bool :=
  !c.flags.recvFrameR && !c.flags.remoteBusy && c.retransmits.1.isSome

theorem Chan.Windowed.pullIFrame (h : c.Windowed) (pdu : Option Buf) (amount : ℕ) {alloc : Bool}
    (hok : alloc = true ∨ c.sendsAgain = false) : Safe c (c.pullIFrame pdu amount alloc) := by
  rw [Chan.pullIFrame]
  split
  · exact Still.rfl.lower.step h
  next hr =>
  split
  · exact Still.rfl.lower.step h
  next hbusy =>
  have hs := still_retransmits c
  rw [Chan.sendsAgain] at hok
  rcases hp : c.retransmits with ⟨again, d⟩
  rw [hp] at hs hok
  cases again with
  | some w =>
    have halloc : alloc = true := by simpa [hr, hbusy] using hok
    rw [halloc]
    exact hs.then ((h.still hs).pullAgain w pdu amount)
  | none =>
    dsimp only
    refine .ite (hs.lower.step h) ?_
    cases pdu with
    | none => exact hs.lower.step h
    | some b =>
      rcases (h.still hs).findWindow with ⟨w, hsome, htaken⟩ | hnone
      · rcases hf : d.findWindow with ⟨found, e⟩
        rw [hf] at hsome htaken
        obtain rfl := hsome
        exact hs.then (htaken.pullNext (h.still hs) b amount alloc)
      · dsimp only
        rw [hnone]
        exact hs.lower.step h

/-- A pull comes to the S-frames. -/
def Chan.pullsSFrame (c : Chan) : Bool :=
  (c.nextSdu.bind Buf.sBits).isSome || c.sFrameDue ||
    (c.flags.recvFrameP && !c.sendsIFrame c.nextSdu)

/-- **A window is asked for once more**, and a pull would send it. -/
def Chan.pullsAgain (c : Chan) : Bool :=
  c.ready && c.pduRemaining = 0 && !c.pullsSFrame && c.sendsAgain

theorem Chan.Windowed.dataPull (h : c.Windowed) (amount : ℕ) {alloc : Bool}
    (hok : alloc = true ∨ c.pullsAgain = false) : Safe c (c.dataPull amount alloc) := by
  rw [Chan.dataPull]
  split
  · exact Still.rfl.step h
  split
  · exact (Still.rfl.startRetTimer.fragment amount false).step h
  next hready hrest =>
  dsimp only
  split
  · exact h.pullSFrame _ _ _
  next hs =>
    have hno : c.pullsSFrame = false := Bool.eq_false_iff.2 hs
    refine h.pullIFrame _ _ (hok.imp_right fun hagain => ?_)
    have hr : c.ready = true := by simpa using hready
    simpa [Chan.pullsAgain, hno, hr, not_not.1 hrest] using hagain

/-! ## The frames that are pulled and taken -/

/-- Every frame put out is one that a channel with the same parameters
builds. -/
def Chan.Builds (c : Chan) (o : List Out) : Prop :=
  ∀ f b, .frame f b ∈ o → ∃ (d : Chan) (a : Asked), d.tx = c.tx ∧ d.build a = some (f, b)

theorem builds_nil : c.Builds [] := fun _ _ h => absurd h not_mem_nil

theorem builds_append (h : c.Builds o) (h' : c.Builds o') : c.Builds (o ++ o') :=
  fun f b hin => (mem_append.1 hin).elim (h f b) (h' f b)

theorem builds_done (id : ℕ) : c.Builds [.done id] := fun _ _ h => by simp at h

theorem builds_frame {a : Asked} {f : Frame} {b : Bytes} (htx : c'.tx = c.tx)
    (h : c'.build a = some (f, b)) : c.Builds [.frame f b] := by
  intro f' b' hin
  obtain ⟨rfl, rfl⟩ : f' = f ∧ b' = b := by simpa using hin
  exact ⟨c', a, htx, h⟩

theorem builds_pullSFrame (c : Chan) (pdu : Option Buf) (amount : ℕ) (alloc : Bool) :
    c.Builds (c.pullSFrame pdu amount alloc).1 := by
  have hframe {s : SType} {ctl : SControl} {d : Chan} (hp : c.packSFrameHeader s = (some ctl, d))
      {e : Chan} (he : e.tx = c.tx) : c.Builds [.frame (.s ctl) (e.tx.sFrame ctl)] :=
    builds_frame (a := .s s) rfl (by rw [build, hp, he]; rfl)
  rw [pullSFrame]
  split
  · exact builds_nil
  dsimp only
  have hpack := still_packSFrameHeader c ((pdu.bind Buf.sBits).getD .rr)
  rcases hp : c.packSFrameHeader ((pdu.bind Buf.sBits).getD .rr) with ⟨ctl, d⟩
  rw [hp] at hpack
  cases ctl with
  | none => exact builds_nil
  | some ctl =>
    have hsent : Still c (d.setFlags { d.flags with sendSFrame := false }) := hpack.setFlags _
    cases pdu with
    | none => exact hframe hp hsent.tx
    | some b =>
      dsimp only
      split
      · exact builds_append (builds_done _) (hframe hp (hsent.trans (still_sduIsDone _ _)).tx)
      · exact hframe hp hsent.tx

theorem builds_handIFrame (c' : Chan) {info : Bytes} (h : c'.tx = c.tx) (w : ℕ) :
    c.Builds [.frame (.i (c'.handIFrame w info).1 info) (c'.handIFrame w info).2.1] :=
  builds_frame (a := .i (c'.win w).txSeq (c'.win w).sar info) h rfl

/-- **Every frame that a pull hands to the link is built so.** -/
theorem builds_dataPull (c : Chan) (amount : ℕ) (alloc : Bool) :
    c.Builds (c.dataPull amount alloc).1 := by
  rw [dataPull]
  split
  · exact builds_nil
  split
  · exact builds_nil
  dsimp only
  split
  · exact builds_pullSFrame c _ amount alloc
  rw [pullIFrame]
  split
  · exact builds_nil
  split
  · exact builds_nil
  have hs := still_retransmits c
  rcases hp : c.retransmits with ⟨again, d⟩
  rw [hp] at hs
  cases again with
  | some w =>
    dsimp only
    rw [pullAgain]
    split
    · exact builds_nil
    dsimp only
    split
    · exact builds_nil
    · exact builds_handIFrame (d.countTransmit w) hs.tx w
  | none =>
    dsimp only
    split
    · exact builds_nil
    split
    · exact builds_nil
    next b _ =>
    have htx : d.findWindow.2.tx = c.tx := by
      rw [findWindow]
      repeat' split
      all_goals exact hs.tx
    rcases hf : d.findWindow with ⟨found, e⟩
    rw [hf] at htx
    cases found with
    | none => exact builds_nil
    | some w =>
      dsimp only
      rw [pullNext]
      split
      · exact builds_nil
      dsimp only
      split
      · exact builds_nil
      · refine builds_append ?_ (builds_handIFrame (openWindow (modifyBuf { e with
          sduTotalLen := (e.nextSegment b).total } b.id fun _ => (e.nextSegment b).pdu) w b
          (e.nextSegment b)) htx w)
        rw [passSegment]
        repeat' split
        all_goals first | exact builds_nil | exact builds_done _

/-- **What a channel does not take, it does not answer**, in the modes with
an F bit. -/
theorem silent_of_takes {b : Bytes} (hmode : c.rx.mode = .eret ∨ c.rx.mode = .stream)
    (h : c.takes b = none) (env : RecvEnv) : (c.retFcRecv b env).1 = [] := by
  have hbits (f r : Bool) (id : Option ℕ) : c.updateBits f r id = c.updateF f := by
    rcases hmode with hm | hm <;> simp only [updateBits, hm]
  rw [takes] at h
  rw [retFcRecv]
  split
  · rfl
  · rfl
  next ctl hp =>
    rw [hp] at h
    rw [retFcSRecv, hbits]
    split
    · rfl
    next hstream =>
      have hf : (c.updateF ctl.f).1 = false := by simpa [hstream] using h
      rcases hu : c.updateF ctl.f with ⟨ok, d⟩
      rw [hu] at hf
      obtain rfl : ok = false := hf
      rfl
  next ctl info hp =>
    rw [hp] at h
    rw [retFcIRecv, hbits]
    have hf : (c.updateF ctl.f).1 = false := by simpa using h
    rcases hu : c.updateF ctl.f with ⟨ok, d⟩
    rw [hu] at hf
    obtain rfl : ok = false := hf
    rfl

/-! ## Runs -/

theorem Chan.Windowed.retTimeout (h : c.Windowed) (id : Option ℕ) : Safe c (c.retTimeout id) := by
  rw [Chan.retTimeout]
  split
  · exact Still.rfl.step h
  split
  · exact Still.rfl.step h
  next hout =>
  split
  · exact Still.step (Still.raiseIfData (Still.rfl.setFlags _)) h
  · have hmode : c.rx.mode ≠ .stream := fun hstream => by
      rw [h.streaming hstream] at hout
      exact hout rfl
    refine h.updateReqSeq hmode ?_ false
    rw [updateSeq_eq]
    exact Nat.mod_lt _ (Nat.zero_lt_of_lt h.ack)
  · refine .ite (Still.rfl.step h) (Still.step ?_ h)
    exact ((((Still.rfl.retryCount 1).setFlags _).startMonitorTimer).setFlags _).sendSFrameOrDisconnect id
  · exact Still.rfl.step h

theorem Still.send (h : Still c c') (id : ℕ) (head sdu : Bytes) (cb : Bool) :
    Still c (c'.send id head sdu cb) := by
  rw [Chan.send]
  exact .ite h (h.sendCb _)

/-- **What new parameters leave room for**: the windows that wait fit the
window of the peer; the numbers have the same modulus, or have not wrapped
and stay below the new one; and the mode turns to or from streaming only
where nothing waits. -/
def Chan.Admits (c : Chan) (tx rx : Endpoint) : Prop :=
  c.outstanding.length ≤ tx.maxWindow ∧
  (tx.layout.seqMax = c.tx.layout.seqMax ∨
    c.expectedAckSeq ≤ c.nextTxSeq ∧ c.nextTxSeq < tx.layout.seqMax) ∧
  ((rx.mode = .stream ↔ c.rx.mode = .stream) ∨
    c.outstanding = [] ∧ c.nextTxSeq = c.expectedAckSeq)

theorem Chan.Windowed.configured (h : c.Windowed) {tx rx : Endpoint} (hok : c.Admits tx rx) :
    Chan.Windowed { c with tx, rx } := by
  obtain ⟨hbound, hmod, hstream⟩ := hok
  refine ⟨h.nodup, h.all, hbound, fun hmode => ?_, fun hmode => ?_, ?_, h.few⟩
  · by_cases hold : c.rx.mode = .stream
    · obtain ⟨hout, hnext⟩ := hstream.resolve_left fun hiff => hmode (hiff.2 hold)
      simp only [hout, map_nil]
      exact hnext.symm
    · rcases hmod with hmod | ⟨hle, hlt⟩
      · simpa only [hmod] using h.numbered hold
      · have hseqs := h.numbered hold
        have hend := h.next_eq hold
        have hcount := h.length_lt
        -- The numbers have not wrapped, so none of them is taken modulo the old bound.
        have hadd : c.nextTxSeq = c.expectedAckSeq + c.outstanding.length := by
          by_cases hwrap : c.expectedAckSeq + c.outstanding.length < c.tx.layout.seqMax
          · rwa [Nat.mod_eq_of_lt hwrap] at hend
          · have hack := h.ack
            rw [Nat.mod_eq_sub_mod (Nat.not_lt.1 hwrap), Nat.mod_eq_of_lt (by omega)] at hend
            omega
        refine hseqs.remod (by rwa [length_map]) ?_ hlt
        rw [hend]
        exact Nat.mod_lt _ (Nat.zero_lt_of_lt h.ack)
  · exact hstream.elim (fun hiff => h.streaming (hiff.1 hmode)) And.left
  · rcases hmod with hmod | ⟨hle, hlt⟩
    · simpa only [hmod] using h.ack
    · exact hle.trans_lt hlt

/-! ### What a configuration changes -/

namespace Chan

/-- The window size that an option asks for. -/
def asksWindow (type : UInt8) (data : Bytes) : Option ℕ :=
  if type &&& 0x7f = 0x04 ∧ data.length = 9 then some (data.getD 1 0).toNat
  else if type &&& 0x7f = 0x07 ∧ data.length = 2 then some (getLe16 data)
  else none

/-- Those that the options of a request ask for. -/
def asksWindows : ℕ → Bytes → List ℕ
  | n + 1, type :: len :: rest =>
    if rest.length < len.toNat then []
    else (asksWindow type (rest.take len.toNat)).toList ++ asksWindows n (rest.drop len.toNat)
  | _, _ => []

/-- **What options do that ask for some windows**: the two endpoints change,
but not in what counts here where no window is asked for; the mode of the
receiver follows where it is optional; and the window of the sender becomes
no smaller than what is asked for. -/
structure Negotiated (l : List ℕ) (c d : Chan) : Prop where
  endpoints : ∃ tx rx, d = { c with tx, rx }
  same : l = [] → d.tx.maxWindow = c.tx.maxWindow ∧ d.tx.layout = c.tx.layout
  mode : l = [] ∨ c.optional = false → d.rx.mode = c.rx.mode
  window : ∀ k ≤ c.windows, k ≤ c.tx.maxWindow → (∀ w ∈ l, k ≤ w) → k ≤ d.tx.maxWindow

theorem negotiated_of_same {l : List ℕ} {tx rx : Endpoint} (hwindow : tx.maxWindow = c.tx.maxWindow)
    (hlayout : tx.layout = c.tx.layout) (hmode : rx.mode = c.rx.mode) :
    Negotiated l c { c with tx, rx } where
  endpoints := ⟨tx, rx, rfl⟩
  same _ := ⟨hwindow, hlayout⟩
  mode _ := hmode
  window _ _ hk _ := hk.trans_eq hwindow.symm

theorem Negotiated.rfl {l : List ℕ} : Negotiated l c c := negotiated_of_same (Eq.refl _) (Eq.refl _)
  (Eq.refl _)

theorem Negotiated.trans {l l' : List ℕ} {d e : Chan} (h : Negotiated l c d)
    (h' : Negotiated l' d e) : Negotiated (l ++ l') c e := by
  obtain ⟨tx, rx, rfl⟩ := h.endpoints
  obtain ⟨tx', rx', heq⟩ := h'.endpoints
  refine ⟨⟨tx', rx', heq⟩, fun hnil => ?_, fun hfix => ?_, fun k hk hwin hall => ?_⟩
  · obtain ⟨hl, hl'⟩ := append_eq_nil_iff.1 hnil
    exact ⟨(h'.same hl').1.trans (h.same hl).1, (h'.same hl').2.trans (h.same hl).2⟩
  · rw [append_eq_nil_iff] at hfix
    exact (h'.mode (hfix.imp_left And.right)).trans (h.mode (hfix.imp_left And.left))
  · have hmid := h.window k hk hwin fun w hw => hall w (mem_append_left _ hw)
    exact h'.window k hk hmid fun w hw => hall w (mem_append_right _ hw)

theorem negotiated_confOptRetFc (c : Chan) (f : ConfFeats) {data : Bytes}
    (hlen : data.length = 9) :
    Negotiated [(data.getD 1 0).toNat] c (c.confOptRetFc f data).2 := by
  unfold confOptRetFc
  rw [if_neg (not_not.2 hlen)]
  dsimp only
  generalize c.agreedMode (f.supported (LinkMode.ofByte (data.getD 0 0))) = mode
  have hmode (h : [(data.getD 1 0).toNat] = [] ∨ c.optional = false) :
      (if c.optional ∧ c.rx.mode ≠ .basic then { c.rx with mode } else c.rx).mode = c.rx.mode := by
    simp [h.resolve_left (cons_ne_nil _ _)]
  -- The mode is stored, accepted or not.
  have hstored : Negotiated [(data.getD 1 0).toNat] c
      { c with
        tx := { c.tx with mode }
        rx := if c.optional ∧ c.rx.mode ≠ .basic then { c.rx with mode } else c.rx } :=
    ⟨⟨_, _, rfl⟩, fun h => absurd h (cons_ne_nil _ _), hmode, fun _ _ hk _ => hk⟩
  split
  · exact hstored
  split
  · refine ⟨⟨_, _, rfl⟩, fun h => absurd h (cons_ne_nil _ _), fun h => ?_,
      fun k hk _ hall => le_min (hall _ (mem_singleton_self _)) hk⟩
    refine Eq.trans ?_ (hmode h)
    dsimp only
    split <;> rfl
  · exact hstored

theorem negotiated_confOptExtWinSize (c : Chan) (f : ConfFeats) (data : Bytes) :
    Negotiated [getLe16 data] c (c.confOptExtWinSize f data).2 := by
  unfold confOptExtWinSize
  split
  · exact .rfl
  dsimp only
  split
  iterate 3 exact .rfl
  · split
    · exact .rfl
    · exact ⟨⟨_, _, rfl⟩, fun h => absurd h (cons_ne_nil _ _), fun _ => rfl,
        fun _ _ _ hall => hall _ (mem_singleton_self _)⟩
  · split
    · exact .rfl
    · exact ⟨⟨_, _, rfl⟩, fun h => absurd h (cons_ne_nil _ _), fun _ => rfl, fun _ _ hk _ => hk⟩

theorem negotiated_confOpt (c : Chan) (f : ConfFeats) (type : UInt8) (data : Bytes) :
    Negotiated (asksWindow type data).toList c (c.confOpt f type data).2 := by
  unfold confOpt
  split
  next =>
    unfold confOptMtu
    repeat' split
    all_goals exact negotiated_of_same rfl rfl rfl
  next => exact .rfl
  next => exact .rfl
  next htype =>
    by_cases hlen : data.length = 9
    · rw [asksWindow, if_pos ⟨htype, hlen⟩]
      exact negotiated_confOptRetFc c f hlen
    · rw [confOptRetFc, if_pos hlen]
      exact .rfl
  next =>
    unfold confOptFcs
    dsimp only
    repeat' split
    all_goals exact negotiated_of_same rfl rfl rfl
  next => exact .rfl
  next htype =>
    by_cases hlen : data.length = 2
    · rw [asksWindow, if_neg (by simp [htype]), if_pos ⟨htype, hlen⟩]
      exact negotiated_confOptExtWinSize c f data
    · rw [confOptExtWinSize, if_pos (.inr hlen)]
      exact .rfl
  next => exact .rfl

theorem negotiated_confOpts (f : ConfFeats) (n : ℕ) (opts : Bytes) (c : Chan) :
    Negotiated (asksWindows n opts) c (confOpts f n opts c).2 := by
  induction n generalizing opts c with
  | zero => exact .rfl
  | succ n ih =>
    rcases opts with _ | ⟨type, _ | ⟨len, rest⟩⟩
    · exact .rfl
    · exact .rfl
    · rw [confOpts, asksWindows]
      split
      · exact .rfl
      · have hopt := negotiated_confOpt c f type (rest.take len.toNat)
        rcases hp : c.confOpt f type (rest.take len.toNat) with ⟨_ | _, d⟩ <;> rw [hp] at hopt
        · -- An option that is not accepted is the last.
          exact hopt.trans .rfl
        · exact hopt.trans (ih (rest.drop len.toNat) d)

/-- **A Configuration Request** changes what its options ask for. -/
theorem negotiated_confReq (c : Chan) (f : ConfFeats) (opts : Bytes) :
    Negotiated (asksWindows opts.length opts) c (c.confReq f opts) := by
  have hopts : Negotiated (asksWindows opts.length opts) c
      (if opts = [] then (true, { c with tx := { c.tx with mtu := 672 } })
        else confOpts f opts.length opts c : Bool × Chan).2 := by
    split
    · exact negotiated_of_same rfl rfl rfl
    · exact negotiated_confOpts f opts.length opts c
  unfold confReq
  generalize (if opts = [] then (true, { c with tx := { c.tx with mtu := 672 } })
      else confOpts f opts.length opts c : Bool × Chan) = r at hopts
  obtain ⟨ok, d⟩ := r
  have hdone {tx rx : Endpoint} (hwindow : tx.maxWindow = d.tx.maxWindow)
      (hlayout : tx.layout = d.tx.layout) (hmode : rx.mode = d.rx.mode) :
      Negotiated (asksWindows opts.length opts) c { d with tx, rx } := by
    rw [← append_nil (asksWindows _ _)]
    exact Negotiated.trans hopts (negotiated_of_same hwindow hlayout hmode)
  dsimp only
  split_ifs <;> exact hdone rfl rfl rfl

/-- Nothing is outstanding, and the next number is the one expected. -/
def Cleared (c : Chan) : Prop := c.outstanding = [] ∧ c.nextTxSeq = c.expectedAckSeq

/-- **A request that leaves the windows in order**: it asks for no window; or
the numbers that wait have not wrapped and fit any control field, no window
smaller than what waits is asked for, and where the mode may change nothing
waits. -/
def Spares (c : Chan) (opts : Bytes) : Prop :=
  asksWindows opts.length opts = [] ∨
    (c.expectedAckSeq ≤ c.nextTxSeq ∧ c.nextTxSeq < 64) ∧
      (∀ w ∈ asksWindows opts.length opts, c.outstanding.length ≤ w) ∧
      (c.optional = true → c.Cleared)

theorem Windowed.admits_confReq (h : c.Windowed) {opts : Bytes} (hok : c.Spares opts)
    (f : ConfFeats) : c.Admits (c.confReq f opts).tx (c.confReq f opts).rx := by
  have hneg := negotiated_confReq c f opts
  rcases hok with hnil | ⟨⟨hle, hlt⟩, hall, hmode⟩
  · obtain ⟨hwindow, hlayout⟩ := hneg.same hnil
    exact ⟨h.bound.trans_eq hwindow.symm, .inl (congrArg Layout.seqMax hlayout),
      .inl (by rw [hneg.mode (.inl hnil)])⟩
  · refine ⟨hneg.window _ h.length_le h.bound hall,
      .inr ⟨hle, hlt.trans_le (Layout.seqMax_ge _)⟩, ?_⟩
    cases hopt : c.optional with
    | true => exact .inr (hmode hopt)
    | false => exact .inl (by rw [hneg.mode (.inr hopt)])

theorem Cleared.admits (h : c.Cleared) (hlt : c.nextTxSeq < 64) (tx rx : Endpoint) :
    c.Admits tx rx :=
  ⟨by simp [h.1], .inr ⟨h.2.ge, hlt.trans_le (Layout.seqMax_ge _)⟩, .inr h⟩

end Chan

instance (c : Chan) : Decidable c.Cleared := inferInstanceAs (Decidable (_ ∧ _))

/-- **What an event finds**: a buffer, where a window would be sent once
more; in a frame a number that the sender has; and in a configuration room
for the windows that wait. -/
def Chan.Supplied (c : Chan) : Event → Prop
  | .pull _ alloc => alloc = true ∨ c.pullsAgain = false
  | .recv buf _ => c.acksInRange buf
  | .confReq _ opts => c.Spares opts
  | .confRsp .. => c.state = .disconnecting → c.Cleared ∧ c.nextTxSeq < 64
  | _ => True

instance (c : Chan) : DecidablePred c.Supplied
  | .pull .. => inferInstanceAs (Decidable (_ ∨ _))
  | .recv .. => inferInstanceAs (Decidable (_ = _))
  | .confReq .. => inferInstanceAs (Decidable (_ ∨ (_ ∧ _) ∧ _ ∧ _))
  | .confRsp .. => inferInstanceAs (Decidable (_ → _ ∧ _))
  | .send .. | .retTimeout _ | .monitorTimeout _ | .recvComplete _ => .isTrue trivial

/-- **One event keeps the windows in order.** -/
theorem Chan.Windowed.react (h : c.Windowed) {e : Event} (hok : c.Supplied e) :
    (c.step e).Windowed ∧ Out.assertFailed ∉ c.emit e := by
  have hsafe {r : List Out × Chan} (hr : Safe c r) :
      r.2.Windowed ∧ Out.assertFailed ∉ r.1 := ⟨hr.windowed, hr.quiet⟩
  have hnone : Safe c ([], c) := Still.rfl.step h
  cases e with
  | send id head sdu cb => exact hsafe ((Still.rfl.send id head sdu cb).step h)
  | pull amount alloc => exact hsafe (.ite hnone (h.dataPull amount hok))
  | recv buf env => exact hsafe (.ite hnone (h.retFcRecv hok env))
  | retTimeout id => exact hsafe (h.retTimeout id)
  | monitorTimeout id => exact hsafe ((Still.rfl.monitorTimeout id).step h)
  | recvComplete id => exact hsafe ((Still.rfl.recvComplete id).step h)
  | confReq f opts =>
    obtain ⟨tx, rx, heq⟩ := (negotiated_confReq c f opts).endpoints
    have hadmits := h.admits_confReq hok f
    rw [heq] at hadmits
    refine ⟨?_, not_mem_nil⟩
    change (c.confReq f opts).Windowed
    rw [heq]
    exact h.configured hadmits
  | confRsp tx rx =>
    refine ⟨?_, not_mem_nil⟩
    simp only [step, Chan.react]
    split
    next hstate =>
      obtain ⟨hclear, hlt⟩ := hok hstate
      exact h.configured (hclear.admits hlt tx rx)
    next => exact h

/-- The channel that `l2cap_br_check_chan_config` and the configuration
leave. -/
def chanConfigured (tx rx : Endpoint) (windows room : ℕ) (allocBuf optional : Bool) : Chan where
  tx := tx
  rx := rx
  flags := { newIFrame := true, retIFrame := true }
  windows := windows
  room := room
  free := List.range windows
  allocBuf := allocBuf
  optional := optional

theorem chanConfigured_windowed {tx rx : Endpoint} {windows room : ℕ}
    {allocBuf optional : Bool} (hfew : windows ≤ 32) :
    (chanConfigured tx rx windows room allocBuf optional).Windowed where
  nodup := by
    rw [chanConfigured, append_nil]
    exact nodup_range
  all w := by simp [chanConfigured]
  bound := Nat.zero_le _
  numbered _ := rfl
  streaming _ := rfl
  ack := Nat.zero_lt_of_lt tx.layout.seqMax_ge
  few := hfew

/-- **In every run in which no window is asked for once more while there is
no buffer, and every configuration leaves room for the windows that wait,
the windows are in order**, and the assertion about them does not fail. -/
theorem windows_in_order {tx rx : Endpoint} {windows room : ℕ} {allocBuf optional : Bool}
    (hfew : windows ≤ 32) {es : List Event}
    (hrun : Along Chan.step Chan.Supplied (chanConfigured tx rx windows room allocBuf optional) es) :
    (run Chan.step (chanConfigured tx rx windows room allocBuf optional) es).Windowed ∧
      Out.assertFailed ∉
        emitted Chan.step Chan.emit (chanConfigured tx rx windows room allocBuf optional) es := by
  have hstep (c : Chan) (e : Event) (log : List Out) (hc : c.Windowed ∧ Out.assertFailed ∉ log)
      (hok : c.Supplied e) : (c.step e).Windowed ∧ Out.assertFailed ∉ log ++ c.emit e := by
    obtain ⟨hwindowed, hquiet⟩ := hc.1.react hok
    refine ⟨hwindowed, ?_⟩
    rw [List.mem_append]
    exact fun hin => hin.elim hc.2 hquiet
  have hinit : (chanConfigured tx rx windows room allocBuf optional).Windowed ∧
      Out.assertFailed ∉ ([] : List Out) := ⟨chanConfigured_windowed hfew, List.not_mem_nil⟩
  exact log_run Chan.emit (fun c log => c.Windowed ∧ Out.assertFailed ∉ log) hstep hinit hrun

/-! ### Samples -/

/-- Retransmission mode, with two windows. -/
def sampleEndpoint : Endpoint :=
  { cid := 0x40, mtu := 48, mps := 48, mode := .ret, fcs := true, maxWindow := 2, maxTransmit := 3 }

/-- A channel in retransmission mode. -/
def sampleWindows : Chan := chanConfigured sampleEndpoint sampleEndpoint 2 64 true false

/-- Two SDUs are sent, and the first is asked for once more. -/
def sampleSends : List Event :=
  [.send 0 [0, 0] [1, 2] true, .send 1 [0, 0] [3] true, .pull 64 true, .pull 64 true,
    .retTimeout none]

/-- The peer acknowledges the first SDU. -/
def sampleAck : Bytes := sampleEndpoint.sFrame { reqSeq := 1, s := .rr }

/-- The peer asks for a window of one frame. -/
def sampleConf : Event :=
  .confReq { enhRet := false } [0x04, 9, 1, 1, 3, 0xd0, 7, 0xe0, 0x2e, 48, 0]

/-- The first SDU is sent once more and acknowledged, and the window may
become smaller. -/
def sampleAcked : List Event := sampleSends ++ [.pull 64 true, .recv sampleAck {}, sampleConf]

theorem windows_in_order_sample :
    (run Chan.step sampleWindows sampleAcked).outstanding = [1] ∧
    (run Chan.step sampleWindows sampleAcked).tx.maxWindow = 1 ∧
    (run Chan.step sampleWindows sampleAcked).Windowed ∧
      Out.assertFailed ∉ emitted Chan.step Chan.emit sampleWindows sampleAcked :=
  ⟨by decide +kernel, by decide +kernel, windows_in_order (by decide) (by decide +kernel)⟩

/-- **A retransmission that finds no buffer frees a window that waits**: it
is then in both lists, the windows behind it are lost, and the next frame
fails the assertion. And with the smaller window before the acknowledgement,
two windows wait where one may. -/
theorem window_freed_waiting :
    (run Chan.step sampleWindows sampleSends).free = [] ∧
    (run Chan.step sampleWindows sampleSends).outstanding = [0, 1] ∧
    (run Chan.step sampleWindows (sampleSends ++ [.pull 64 false])).free = [0] ∧
    (run Chan.step sampleWindows (sampleSends ++ [.pull 64 false])).outstanding = [0] ∧
    ¬ (run Chan.step sampleWindows (sampleSends ++ [.pull 64 false])).Windowed ∧
    Out.assertFailed ∈ emitted Chan.step Chan.emit sampleWindows
      (sampleSends ++ [.pull 64 false, .recv sampleAck {}]) ∧
    (run Chan.step sampleWindows (sampleSends ++ [sampleConf])).outstanding = [0, 1] ∧
    (run Chan.step sampleWindows (sampleSends ++ [sampleConf])).tx.maxWindow = 1 := by
  have hfree : (run Chan.step sampleWindows (sampleSends ++ [.pull 64 false])).free = [0] := by
    decide +kernel
  have hout : (run Chan.step sampleWindows (sampleSends ++ [.pull 64 false])).outstanding = [0] := by
    decide +kernel
  refine ⟨by decide +kernel, by decide +kernel, hfree, hout, fun h => ?_, by decide +kernel,
    by decide +kernel, by decide +kernel⟩
  have hnodup := h.nodup
  rw [hfree, hout] at hnodup
  exact absurd hnodup (by decide)

end Classic

end OpenBlue

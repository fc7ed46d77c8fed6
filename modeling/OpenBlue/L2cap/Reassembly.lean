import OpenBlue.Common.Pack
import OpenBlue.L2cap.Model.Chan
/-!
# L2CAP — what the receive path does to a channel

Two facts about every call of the receive path of a channel. The frame
(`RxFrame`): it touches the receive side, may empty the transmit queue and
may start a disconnection, and leaves the rest alone. The invariant
(`RxInv`): the peer never holds more credits than the SDU under way can
use, so no assertion fails where the preconditions of the path hold
(`RecvOk`).
-/

namespace OpenBlue

namespace L2cap

open List

variable {ch ch' : Chan} {env : RecvEnv} {buf : Bytes}

@[simp] theorem andThen_chan (o : Outcome) (f : Chan → Outcome) :
    (o.andThen f).chan = (f o.chan).chan := rfl

@[simp] theorem andThen_failed (o : Outcome) (f : Chan → Outcome) :
    (o.andThen f).failed = o.failed ++ (f o.chan).failed := rfl

@[simp] theorem andThen_faults (o : Outcome) (f : Chan → Outcome) :
    (o.andThen f).faults = o.faults ++ (f o.chan).faults := rfl

@[simp] theorem andThen_sent (o : Outcome) (f : Chan → Outcome) :
    (o.andThen f).sent = o.sent ++ (f o.chan).sent := rfl

@[simp] theorem andThen_delivered (o : Outcome) (f : Chan → Outcome) :
    (o.andThen f).delivered = o.delivered ++ (f o.chan).delivered := rfl

/-! ## The frame -/

/-- A channel without what the receive path writes. -/
def Chan.rest (ch : Chan) : Chan :=
  { ch with
    state := .disconnected
    rx := { ch.rx with credits := 0 }
    ident := 0
    pendingReq := none
    shutdown := false
    txQueue := []
    sdu := none
    sduLen := 0
    rxQueue := []
    held := 0 }

/-- What a call of the receive path leaves alone. -/
structure RxFrame (ch ch' : Chan) : Prop where
  rest : ch'.rest = ch.rest
  queue : ch'.txQueue = ch.txQueue ∧ ch'.shutdown = ch.shutdown ∨
    ch'.txQueue = [] ∧ ch'.shutdown = true
  state : ch'.state = ch.state ∨ ch'.state = .disconnecting
  request : ch'.pendingReq = ch.pendingReq ∨ ch'.pendingReq = some .disconn

namespace RxFrame

theorem refl (ch : Chan) : RxFrame ch ch := ⟨rfl, .inl ⟨rfl, rfl⟩, .inl rfl, .inl rfl⟩

theorem trans {ch'' : Chan} (h : RxFrame ch ch') (h' : RxFrame ch' ch'') : RxFrame ch ch'' where
  rest := h'.rest.trans h.rest
  queue := by
    rcases h'.queue with ⟨hq, hs⟩ | hq
    · rw [hq, hs]
      exact h.queue
    · exact .inr hq
  state := by
    rcases h'.state with hs | hs
    · rw [hs]
      exact h.state
    · exact .inr hs
  request := by
    rcases h'.request with hr | hr
    · rw [hr]
      exact h.request
    · exact .inr hr

theorem shutdown (h : RxFrame ch ch') (hs : ch.shutdown = true) : ch'.shutdown = true :=
  h.queue.elim (fun hq => hq.2.trans hs) And.right

theorem tx (h : RxFrame ch ch') : ch'.tx = ch.tx := (congrArg Chan.tx h.rest :)

theorem attached (h : RxFrame ch ch') : ch'.attached = ch.attached :=
  (congrArg Chan.attached h.rest :)

theorem out (h : RxFrame ch ch') : ch'.out = ch.out := (congrArg Chan.out h.rest :)

theorem pduRemaining (h : RxFrame ch ch') : ch'.pduRemaining = ch.pduRemaining :=
  (congrArg Chan.pduRemaining h.rest :)

theorem psm (h : RxFrame ch ch') : ch'.psm = ch.psm := (congrArg Chan.psm h.rest :)

theorem rxMtu (h : RxFrame ch ch') : ch'.rx.mtu = ch.rx.mtu :=
  (congrArg (fun ch => ch.rx.mtu) h.rest :)

theorem rxMps (h : RxFrame ch ch') : ch'.rx.mps = ch.rx.mps :=
  (congrArg (fun ch => ch.rx.mps) h.rest :)

theorem allocBuf (h : RxFrame ch ch') : ch'.allocBuf = ch.allocBuf :=
  (congrArg Chan.allocBuf h.rest :)

end RxFrame

/-- What a call that works on one K-frame leaves alone: the receive queue
too, unless the channel is shut down. -/
structure RecvFrame (ch ch' : Chan) : Prop extends RxFrame ch ch' where
  rxQueue : ch'.rxQueue = ch.rxQueue ∨ ch'.shutdown = true ∧ ch'.rxQueue = []

namespace RecvFrame

theorem refl (ch : Chan) : RecvFrame ch ch := ⟨.refl ch, .inl rfl⟩

theorem trans {ch'' : Chan} (h : RecvFrame ch ch') (h' : RecvFrame ch' ch'') :
    RecvFrame ch ch'' where
  toRxFrame := h.toRxFrame.trans h'.toRxFrame
  rxQueue := by
    rcases h'.rxQueue with hq | hq
    · rw [hq]
      exact h.rxQueue.imp_right fun hs => ⟨h'.shutdown hs.1, hs.2⟩
    · exact .inr hq

end RecvFrame

theorem recvFrame_disconnect (disc : Option UInt8) (ch : Chan) :
    RecvFrame ch (ch.disconnect disc).chan := by
  unfold Chan.disconnect
  split
  · exact .refl ch
  · split
    · exact ⟨⟨rfl, .inl ⟨rfl, rfl⟩, .inr rfl, .inr rfl⟩, .inl rfl⟩
    · exact .refl ch

theorem recvFrame_shutDown (ch : Chan) : RecvFrame ch ch.shutDown :=
  ⟨⟨rfl, .inr ⟨rfl, rfl⟩, .inl rfl, .inl rfl⟩, .inr ⟨rfl, rfl⟩⟩

theorem sendCredits_true (n : ℕ) (ch : Chan) :
    (ch.sendCredits true n).chan = { ch with rx := { ch.rx with credits := n } } := rfl

theorem recvFrame_sendCredits (b : Bool) (n : ℕ) (ch : Chan) :
    RecvFrame ch (ch.sendCredits b n).chan := by
  cases b with
  | true => exact ⟨⟨rfl, .inl ⟨rfl, rfl⟩, .inl rfl, .inl rfl⟩, .inl rfl⟩
  | false => exact recvFrame_shutDown ch

theorem recvFrame_sdu (s : Option SduBuf) (len : ℕ) (ch : Chan) :
    RecvFrame ch { ch with sdu := s, sduLen := len } := ⟨⟨rfl, .inl ⟨rfl, rfl⟩, .inl rfl, .inl rfl⟩, .inl rfl⟩

/-- What handing an SDU on is made of. -/
structure HandClosed (R : Chan → Chan → Prop) : Prop where
  refl (ch : Chan) : R ch ch
  trans {ch ch' ch'' : Chan} (h : R ch ch') (h' : R ch' ch'') : R ch ch''
  disconnect (disc : Option UInt8) (ch : Chan) : R ch (ch.disconnect disc).chan
  sendCredits (b : Bool) (n : ℕ) (ch : Chan) : R ch (ch.sendCredits b n).chan
  held (n : ℕ) (ch : Chan) : R ch { ch with held := n }

/-- What the receive path is made of. A relation between a channel before
and after that these steps are in, and that they can be put together in, is
one that a received K-frame keeps to. -/
structure RecvClosed (R : Chan → Chan → Prop) : Prop extends HandClosed R where
  sdu (s : Option SduBuf) (len : ℕ) (ch : Chan) : R ch { ch with sdu := s, sduLen := len }
  rxCredits (n : ℕ) (ch : Chan) : R ch { ch with rx := { ch.rx with credits := n } }

namespace HandClosed

variable {R : Chan → Chan → Prop}

theorem andThen (hR : HandClosed R) {o : Outcome} {f : Chan → Outcome} (h : R ch o.chan)
    (hf : ∀ ch, R ch (f ch).chan) : R ch (o.andThen f).chan :=
  hR.trans h (hf _)

theorem disconnectFor (hR : HandClosed R) (fault : Fault) (disc : Option UInt8) (ch : Chan) :
    R ch (ch.disconnectFor fault disc).chan := hR.disconnect disc ch

theorem recvCallback (hR : HandClosed R) (env : RecvEnv) (sdu : Bytes) (ch : Chan) :
    R ch (ch.recvCallback env sdu).chan := by
  refine hR.andThen ?_ fun ch => ?_
  · split
    · exact hR.disconnect _ ch
    · exact hR.refl ch
  · split
    · exact hR.disconnectFor _ _ ch
    · exact hR.held _ ch
    · split
      · exact hR.sendCredits _ _ ch
      · exact hR.refl ch

theorem recvSdu (hR : HandClosed R) (env : RecvEnv) (sdu : Bytes) (ch : Chan) :
    R ch (ch.recvSdu env sdu).chan :=
  hR.andThen (hR.refl ch) (hR.recvCallback env sdu)

theorem recvComplete (hR : HandClosed R) (b : Bool) (ch : Chan) :
    R ch (ch.recvComplete b).chan := by
  have hc := hR.held (ch.held - 1) ch
  unfold Chan.recvComplete
  dsimp only
  split
  · exact hR.trans hc (hR.sendCredits _ _ _)
  · exact hc

end HandClosed

namespace RecvClosed

variable {R : Chan → Chan → Prop}

theorem recvSeg (hR : RecvClosed R) (env : RecvEnv) (buf : Bytes) (ch : Chan) :
    R ch (ch.recvSeg env buf).chan := by
  unfold Chan.recvSeg
  split
  · exact hR.refl ch
  · rename_i sdu _
    split
    · exact hR.disconnectFor _ _ ch
    · have hs := hR.sdu (some (sdu.append env.frags buf).1) ch.sduLen ch
      dsimp only
      split
      · exact hR.trans hs (hR.disconnectFor _ _ _)
      · split
        · split
          · exact hR.trans hs (hR.sendCredits _ _ _)
          · exact hs
        · exact hR.trans (hR.sdu none 0 ch) (hR.recvSdu _ _ _)

theorem recvFirst (hR : RecvClosed R) (env : RecvEnv) (sduLen : ℕ) (buf : Bytes) (ch : Chan) :
    R ch (ch.recvFirst env sduLen buf).chan := by
  unfold Chan.recvFirst
  split
  · split
    · exact hR.disconnectFor _ _ ch
    · rename_i room _
      have hs := hR.sdu (some ⟨⟨[], room⟩, []⟩) sduLen ch
      refine hR.andThen ?_ (hR.recvSeg env buf)
      split
      · exact hs
      · exact hR.trans hs (hR.sendCredits _ _ _)
  · exact hR.recvCallback env buf ch

/-- **The rule of the receive path.** -/
theorem leRecv (hR : RecvClosed R) (env : RecvEnv) (buf : Bytes) (ch : Chan) :
    R ch (ch.leRecv env buf).chan := by
  unfold Chan.leRecv
  split
  · exact hR.disconnectFor _ _ ch
  · have hc := hR.rxCredits (ch.rx.credits - 1) ch
    dsimp only
    split
    · exact hR.trans hc (hR.disconnectFor _ _ _)
    · split
      · exact hR.trans hc (hR.recvSeg _ _ _)
      · split
        · exact hR.trans hc (hR.disconnectFor _ _ _)
        · split
          · exact hR.trans hc (hR.disconnectFor _ _ _)
          · exact hR.trans hc (hR.recvFirst _ _ _ _)

end RecvClosed

theorem recvClosed_recvFrame : RecvClosed RecvFrame where
  refl := .refl
  trans := .trans
  disconnect := recvFrame_disconnect
  sendCredits := recvFrame_sendCredits
  sdu := recvFrame_sdu
  held _ _ := ⟨⟨rfl, .inl ⟨rfl, rfl⟩, .inl rfl, .inl rfl⟩, .inl rfl⟩
  rxCredits _ _ := ⟨⟨rfl, .inl ⟨rfl, rfl⟩, .inl rfl, .inl rfl⟩, .inl rfl⟩

/-- **A received K-frame leaves the transmit side alone**, but for a queue
that is emptied. -/
theorem recvFrame_leRecv (env : RecvEnv) (buf : Bytes) (ch : Chan) :
    RecvFrame ch (ch.leRecv env buf).chan := recvClosed_recvFrame.leRecv env buf ch

theorem rxFrame_recvQueue (env : RecvEnv) (buf : Bytes) (ch : Chan) :
    RxFrame ch (ch.recvQueue env buf).chan := by
  unfold Chan.recvQueue
  split
  · exact .refl ch
  · split
    · exact .refl ch
    · split
      · exact (recvFrame_leRecv env buf ch).toRxFrame
      · exact ⟨rfl, .inl ⟨rfl, rfl⟩, .inl rfl, .inl rfl⟩

theorem rxFrame_rxProcess (env : RecvEnv) (ch : Chan) : RxFrame ch (ch.rxProcess env).chan := by
  unfold Chan.rxProcess
  split
  · exact .refl ch
  · rename_i buf rest _
    have hq : RxFrame ch { ch with rxQueue := rest } := ⟨rfl, .inl ⟨rfl, rfl⟩, .inl rfl, .inl rfl⟩
    exact hq.trans (recvFrame_leRecv env buf _).toRxFrame

theorem recvFrame_recvComplete (b : Bool) (ch : Chan) :
    RecvFrame ch (ch.recvComplete b).chan := recvClosed_recvFrame.recvComplete b ch

/-! ## The SDU under way -/

/-- The SDU under way is the one before, or dropped. -/
def SameSdu (ch ch' : Chan) : Prop :=
  ch'.sdu = none ∨ ch'.sdu = ch.sdu ∧ ch'.sduLen = ch.sduLen

theorem SameSdu.refl (ch : Chan) : SameSdu ch ch := .inr ⟨rfl, rfl⟩

theorem SameSdu.trans {ch'' : Chan} (h : SameSdu ch ch') (h' : SameSdu ch' ch'') :
    SameSdu ch ch'' := by
  rcases h' with hnone | ⟨hsdu, hlen⟩
  · exact .inl hnone
  · rcases h with hnone | ⟨hsdu', hlen'⟩
    · exact .inl (hsdu.trans hnone)
    · exact .inr ⟨hsdu.trans hsdu', hlen.trans hlen'⟩

theorem sameSdu_disconnect (disc : Option UInt8) (ch : Chan) :
    SameSdu ch (ch.disconnect disc).chan := by
  unfold Chan.disconnect
  split
  · exact .refl ch
  · split <;> exact .refl ch

theorem sameSdu_sendCredits (b : Bool) (n : ℕ) (ch : Chan) :
    SameSdu ch (ch.sendCredits b n).chan := by
  cases b with
  | true => exact .refl ch
  | false => exact .inl rfl

theorem handClosed_sameSdu : HandClosed SameSdu where
  refl := .refl
  trans := .trans
  disconnect := sameSdu_disconnect
  sendCredits := sameSdu_sendCredits
  held _ := .refl

theorem SameSdu.none (h : SameSdu ch ch') (hs : ch.sdu = none) : ch'.sdu = none :=
  h.elim id fun h => h.1.trans hs

/-! ## The SDU buffer -/

theorem length_head_add (s : SduBuf) (bytes : Bytes) :
    (s.add bytes).head.data.length ≤ s.head.data.length + bytes.length := by
  unfold SduBuf.add
  split
  · simp only [Frag.add, length_append, length_take]
    omega
  · exact Nat.le_add_right _ _

theorem head_add_of_chained {s : SduBuf} (h : s.chained ≠ []) (bytes : Bytes) :
    (s.add bytes).head = s.head ∧ (s.add bytes).chained ≠ [] := by
  obtain ⟨head, chained⟩ := s
  cases chained with
  | nil => exact absurd rfl h
  | cons f fs => exact ⟨rfl, cons_ne_nil _ _⟩

theorem head_append_of_chained {frags : List ℕ} {bytes : Bytes} {s : SduBuf}
    (h : s.chained ≠ []) : (s.append frags bytes).1.head = s.head := by
  induction frags generalizing bytes s with
  | nil =>
    unfold SduBuf.append
    dsimp only
    split <;> exact (head_add_of_chained h _).1
  | cons room frags ih =>
    unfold SduBuf.append
    dsimp only
    split
    · exact (head_add_of_chained h _).1
    · rw [ih (cons_ne_nil _ _)]
      exact (head_add_of_chained h _).1

theorem chained_append {frags : List ℕ} {bytes : Bytes} {s : SduBuf} (h : s.chained ≠ []) :
    (s.append frags bytes).1.chained ≠ [] := by
  induction frags generalizing bytes s with
  | nil =>
    unfold SduBuf.append
    dsimp only
    split <;> exact (head_add_of_chained h _).2
  | cons room frags ih =>
    unfold SduBuf.append
    dsimp only
    split
    · exact (head_add_of_chained h _).2
    · exact ih (cons_ne_nil _ _)

theorem length_head_append (frags : List ℕ) (bytes : Bytes) (s : SduBuf) :
    (s.append frags bytes).1.head.data.length ≤ s.head.data.length + bytes.length := by
  unfold SduBuf.append
  dsimp only
  split
  · exact length_head_add s bytes
  · split
    · exact length_head_add s bytes
    · rw [head_append_of_chained (cons_ne_nil _ _)]
      exact length_head_add s bytes

theorem append_of_fits {s : SduBuf} {bytes : Bytes} (hs : s.chained = [])
    (h : bytes.length ≤ s.head.room) (frags : List ℕ) : s.append frags bytes =
      (⟨⟨s.head.data ++ bytes, s.head.room - bytes.length⟩, []⟩, true) := by
  obtain ⟨head, chained⟩ := s
  cases hs
  have hdrop : bytes.drop head.room = [] := drop_of_length_le h
  have htake : bytes.take head.room = bytes := take_of_length_le h
  cases frags <;> simp [SduBuf.append, SduBuf.room, SduBuf.add, Frag.add, hdrop, htake]

/-! ## The invariant -/

/-- The credits given by signalling PDUs. -/
def given (sigs : List ChanSig) : ℕ :=
  (sigs.map fun
    | .credits n => n
    | .disconnReq _ => 0).sum

@[simp] theorem given_nil : given [] = 0 := rfl

@[simp] theorem given_append (l l' : List ChanSig) : given (l ++ l') = given l + given l' := by
  simp [given]

@[simp] theorem given_credits (n : ℕ) : given [.credits n] = n := by simp [given]

@[simp] theorem given_disconnReq (ident : UInt8) : given [.disconnReq ident] = 0 := rfl

/-- **What the peer may still send.** Between two SDUs it has a credit at
most, and none while the application keeps the SDU; within an SDU it has
no more credits than the bytes missing from the head of the SDU take. A
peer that is not `fair` may get more by an SDU length that is too short,
for which the channel is disconnected. -/
structure RxInv (fair : Prop) (ch : Chan) : Prop where
  mps : 0 < ch.rx.mps
  held_le : ch.held ≤ 1
  held : ch.held ≠ 0 → ch.sdu = none ∧ ch.rx.credits = 0
  idle : ch.shutdown = false → ch.sdu = none → ch.rx.credits ≤ 1
  part : ch.shutdown = false → fair ∨ ch.state ≠ .disconnecting → ∀ s, ch.sdu = some s →
    ch.rx.credits ≤ (ch.sduLen - s.head.data.length) ⌈/⌉ ch.rx.mps
  drained : ch.shutdown = true → ch.rxQueue = []
  shut : ch.shutdown = true → ch.rx.credits = 0 ∧ ch.held = 0
  sduLen : ch.sduLen < 2 ^ 16
  bound : fair → ch.rx.credits < 2 ^ 16

/-- What a call without a K-frame of its own does: the invariant is kept,
the credits in hand are those before and those given, and no assertion
fails where `ok` holds. -/
structure Outcome.Keeps (fair ok : Prop) (ch : Chan) (o : Outcome) : Prop where
  inv : RxInv fair o.chan
  credits : o.chan.rx.credits = ch.rx.credits + given o.sent
  failed : ok → o.failed = []

theorem Outcome.Keeps.of_rx {fair ok : Prop} {o : Outcome} (h : o.Keeps fair ok ch')
    (hrx : ch'.rx = ch.rx) : o.Keeps fair ok ch :=
  ⟨h.inv, hrx ▸ h.credits, h.failed⟩

/-- The frame is refused before it reaches the SDU. -/
def Chan.refuses (buf : Bytes) (ch : Chan) : Prop :=
  ch.rx.credits = 0 ∨ ch.rx.mps < buf.length ∨
    (ch.sdu = none ∧ (buf.length < 2 ∨ ch.rx.mtu < getLe16 buf))

variable {fair ok : Prop} {fault : Fault} {disc : Option UInt8}

theorem disconnect_fields (disc : Option UInt8) (ch : Chan) :
    (ch.disconnect disc).chan.rx = ch.rx ∧ (ch.disconnect disc).chan.sdu = ch.sdu ∧
      (ch.disconnect disc).chan.held = ch.held ∧ given (ch.disconnect disc).sent = 0 ∧
      (ch.disconnect disc).failed = [] ∧ (ch.disconnect disc).delivered = [] ∧
      (ch.disconnect disc).faults = [] := by
  unfold Chan.disconnect
  split
  · exact ⟨rfl, rfl, rfl, rfl, rfl, rfl, rfl⟩
  · split
    · exact ⟨rfl, rfl, rfl, rfl, rfl, rfl, rfl⟩
    · exact ⟨rfl, rfl, rfl, rfl, rfl, rfl, rfl⟩

theorem shutdown_disconnect (disc : Option UInt8) (ch : Chan) :
    (ch.disconnect disc).chan.shutdown = ch.shutdown := by
  unfold Chan.disconnect
  split
  · rfl
  · split <;> rfl

theorem RxInv.disconnect (h : RxInv fair ch) (disc : Option UInt8) :
    RxInv fair (ch.disconnect disc).chan := by
  unfold Chan.disconnect
  split
  · exact h
  · split
    · exact { h with part := fun h₁ h₂ => h.part h₁ (h₂.imp_right fun hn => absurd rfl hn) }
    · exact h

theorem RxInv.keeps (h : RxInv fair ch) : ({ chan := ch } : Outcome).Keeps fair ok ch :=
  ⟨h, rfl, fun _ => rfl⟩

theorem RxInv.disconnectFor (h : RxInv fair ch) :
    (ch.disconnectFor fault disc).Keeps fair ok ch := by
  obtain ⟨hrx, -, -, hgiven, hfailed, -⟩ := disconnect_fields disc ch
  exact ⟨h.disconnect disc, by simp [Chan.disconnectFor, hrx, hgiven], fun _ => hfailed⟩

theorem RxInv.shutDown (h : RxInv fair ch) (hc : ch.rx.credits = 0) (hheld : ch.held = 0) :
    RxInv fair ch.shutDown where
  mps := h.mps
  held_le := h.held_le
  held := fun hh => ⟨rfl, (h.held hh).2⟩
  idle := fun hs => by cases hs
  part := fun _ _ _ hs => by cases hs
  drained := fun _ => rfl
  shut := fun _ => ⟨hc, hheld⟩
  sduLen := by
    unfold Chan.shutDown
    dsimp only
    split
    · exact Nat.two_pow_pos 16
    · exact h.sduLen
  bound := h.bound

/-- Nothing is under way and the peer has no credit: the state in which
an SDU is handed to the application. -/
structure Settled (fair : Prop) (ch : Chan) : Prop extends RxInv fair ch where
  sdu : ch.sdu = none
  credits : ch.rx.credits = 0
  held_eq : ch.held = 0
  open_ : ch.shutdown = false

theorem Settled.disconnect (h : Settled fair ch) (disc : Option UInt8) :
    Settled fair (ch.disconnect disc).chan := by
  obtain ⟨hrx, hsdu, hheld, -⟩ := disconnect_fields disc ch
  exact { h.toRxInv.disconnect disc with
    sdu := hsdu.trans h.sdu
    credits := by rw [hrx, h.credits]
    held_eq := hheld.trans h.held_eq
    open_ := (shutdown_disconnect disc ch).trans h.open_ }

theorem Settled.sendCredits (h : Settled fair ch) (b : Bool) :
    (ch.sendCredits b 1).Keeps fair (ch.state = .connected) ch := by
  cases b with
  | false => exact ⟨h.toRxInv.shutDown h.credits h.held_eq, rfl,
      fun hst => by simp [Chan.sendCredits, hst]⟩
  | true =>
    refine ⟨?_, by simp [Chan.sendCredits, h.credits],
      fun hst => by simp [Chan.sendCredits, hst, h.credits]⟩
    exact { h.toRxInv with
      held := fun hh => absurd h.held_eq hh
      idle := fun _ _ => le_rfl
      shut := fun hs => nomatch h.open_.symm.trans hs
      part := fun _ _ s hs => by rw [sendCredits_true, h.sdu] at hs; cases hs
      bound := fun _ => by rw [sendCredits_true]; exact Nat.one_lt_two_pow (by omega) }

/-- **An SDU handed over.** Whatever the application answers, the
invariant is kept and nothing fails. -/
theorem Settled.recvCallback (h : Settled fair ch) (env : RecvEnv) (sdu : Bytes) :
    (ch.recvCallback env sdu).Keeps fair ok ch := by
  unfold Chan.recvCallback
  generalize ho : (if env.closes then ch.disconnect env.closeBuf else { chan := ch } : Outcome) = o
  have hclose : Settled fair o.chan ∧ o.failed = [] ∧ given o.sent = 0 := by
    rw [← ho]
    split
    · obtain ⟨-, -, -, hgiven, hfailed, -⟩ := disconnect_fields env.closeBuf ch
      exact ⟨h.disconnect _, hfailed, hgiven⟩
    · exact ⟨h, rfl, rfl⟩
  obtain ⟨hset, hfailed, hgiven⟩ := hclose
  -- it is enough to follow what the result of the callback leads to
  have hthen : ∀ f : Chan → Outcome, (f o.chan).Keeps fair True o.chan →
      ({ o with delivered := [sdu] : Outcome }.andThen f).Keeps fair ok ch := by
    intro f hnext
    refine ⟨hnext.inv, ?_, fun _ => ?_⟩
    · have := hnext.credits
      rw [andThen_chan, andThen_sent, given_append]
      rw [hset.credits] at this
      rw [h.credits, hgiven, Nat.zero_add]
      exact this
    · rw [andThen_failed, hfailed, nil_append]
      exact hnext.failed trivial
  refine hthen _ ?_
  cases env.recv with
  | error => exact hset.toRxInv.disconnectFor
  | inProgress =>
    exact ⟨{ hset.toRxInv with
      held_le := Nat.add_le_add_right hset.held_eq.le 1
      shut := fun hs => Bool.noConfusion (hset.open_.symm.trans hs)
      held := fun _ => ⟨hset.sdu, hset.credits⟩ }, rfl, fun _ => rfl⟩
  | ok =>
    dsimp only
    split
    next hst => exact ⟨(hset.sendCredits _).inv, (hset.sendCredits _).credits,
      fun _ => (hset.sendCredits _).failed hst⟩
    next => exact hset.toRxInv.keeps

theorem Settled.recvSdu (h : Settled fair ch) (env : RecvEnv) (sdu : Bytes) :
    (ch.recvSdu env sdu).Keeps fair (ch.state = .connected) ch := by
  have hcall : (ch.recvCallback env sdu).Keeps fair True ch := h.recvCallback env sdu
  unfold Chan.recvSdu
  refine ⟨hcall.inv, hcall.credits, fun hst => ?_⟩
  rw [andThen_failed, if_pos hst, if_pos h.credits]
  exact hcall.failed trivial

/-- **A segment added to an SDU.** The credits left pay for the bytes
that are missing behind this segment. -/
theorem RxInv.recvSeg (h : RxInv fair ch) (env : RecvEnv) {s : SduBuf} (hs : ch.sdu = some s)
    (hheld : ch.held = 0) (hopen : ch.shutdown = false)
    (hcred : s.head.data.length + buf.length ≤ ch.sduLen →
      ch.rx.credits ≤ (ch.sduLen - (s.head.data.length + buf.length)) ⌈/⌉ ch.rx.mps) :
    (ch.recvSeg env buf).Keeps fair (ch.state = .connected) ch := by
  unfold Chan.recvSeg
  rw [hs]
  dsimp only
  split
  next => exact h.disconnectFor
  next hfits =>
    have hcred := hcred (not_lt.1 hfits)
    have hgrow := length_head_append env.frags buf s
    -- the SDU with the segment in it
    have hmid : RxInv fair { ch with sdu := some (s.append env.frags buf).1 } :=
      { h with
        held := fun hh => absurd hheld hh
        idle := fun _ hn => by cases hn
        part := fun _ _ t ht => by
          cases ht
          exact hcred.trans (ceilDiv_le_ceilDiv h.mps (by dsimp only; omega)) }
    split
    next => exact hmid.disconnectFor.of_rx rfl
    next =>
      split
      next hpart =>
        split
        next hzero =>
          cases env.credits with
          | false => exact ⟨hmid.shutDown hzero hheld, rfl, fun hst => by simp [Chan.sendCredits, hst]⟩
          | true =>
            refine ⟨?_, by simp [Chan.sendCredits, hzero],
              fun hst => by simp [Chan.sendCredits, hst, hzero]⟩
            exact { hmid with
              held := fun hh => absurd hheld hh
              shut := fun hs => nomatch hopen.symm.trans hs
              idle := fun _ hn => by cases hn
              part := fun _ _ t ht => by
                cases ht
                exact one_le_ceilDiv h.mps (Nat.sub_pos_of_lt hpart)
              bound := fun _ => by rw [sendCredits_true]; exact Nat.one_lt_two_pow (by omega) }
        next => exact ⟨hmid, rfl, fun _ => rfl⟩
      next hdone =>
        -- nothing is missing, so no credit is left
        have hnone : ch.sduLen - (s.head.data.length + buf.length) = 0 := by omega
        rw [hnone, zero_ceilDiv, Nat.le_zero] at hcred
        have hset : Settled fair { ch with sdu := none, sduLen := 0 } :=
          { h with
            held := fun hh => absurd hheld hh
            open_ := hopen
            idle := fun _ _ => hcred.le.trans (Nat.zero_le 1)
            part := fun _ _ t ht => by cases ht
            sduLen := Nat.two_pow_pos 16
            sdu := rfl
            credits := hcred
            held_eq := hheld }
        exact (hset.recvSdu env (s.append env.frags buf).1.data).of_rx rfl

/-- The first segment is stored, after `n` credits were given for the rest.
A segment that is longer than the SDU ends in a disconnection. -/
theorem Settled.recvSeg_first (h : Settled fair ch) (sduLen room n : ℕ)
    (hsdu : sduLen < 2 ^ 16)
    (hlen : buf.length ≤ sduLen ∨ ¬ fair ∧ env.disc.isSome ∧ ch.attached = true)
    (hn : buf.length ≤ sduLen → n ≤ (sduLen - buf.length) ⌈/⌉ ch.rx.mps) {ch₁ : Chan}
    (hch₁ : ch₁ = { ch with
      sdu := some ⟨⟨[], room⟩, []⟩, sduLen := sduLen, rx := { ch.rx with credits := n } }) :
    (ch₁.recvSeg env buf).Keeps fair (ch₁.state = .connected) ch₁ := by
  by_cases hfits : buf.length ≤ sduLen
  · have hle := hn hfits
    have hself : (sduLen - buf.length) ⌈/⌉ ch.rx.mps ≤ sduLen - buf.length :=
      (ceilDiv_le_iff_le_mul h.mps).2 (Nat.le_mul_of_pos_left _ h.mps)
    have hinv : RxInv fair ch₁ := by
      rw [hch₁]
      exact { h with
        held := fun hh => absurd h.held_eq hh
        shut := fun hs => nomatch h.open_.symm.trans hs
        idle := fun _ hn => by cases hn
        part := fun _ _ t ht => by
          cases ht
          exact hle.trans (ceilDiv_le_ceilDiv h.mps (Nat.sub_le_sub_left (Nat.zero_le _) _))
        sduLen := hsdu
        bound := fun _ => by dsimp only; omega }
    refine hinv.recvSeg env (s := ⟨⟨[], room⟩, []⟩) (by rw [hch₁]) (by rw [hch₁]; exact h.held_eq)
      (by rw [hch₁]; exact h.open_) fun _ => ?_
    rw [hch₁]
    simpa using hle
  · obtain ⟨hfair, hdisc, hatt⟩ := hlen.resolve_left hfits
    obtain ⟨counter, hcounter⟩ := Option.isSome_iff_exists.1 hdisc
    have hlong : ch₁.recvSeg env buf = ch₁.disconnectFor .sduMismatch env.disc := by
      rw [hch₁]
      unfold Chan.recvSeg
      dsimp only
      rw [if_pos (by simp only [length_nil]; omega)]
    obtain ⟨hrx, -, -, hgiven, hfailed, -⟩ := disconnect_fields env.disc ch₁
    rw [hlong]
    refine ⟨?_, by simp [Chan.disconnectFor, hrx, hgiven], fun _ => hfailed⟩
    rw [hcounter, hch₁]
    simp only [Chan.disconnectFor, Chan.disconnect, if_pos hatt]
    exact { h with
      held := fun hh => absurd h.held_eq hh
      shut := fun hs => nomatch h.open_.symm.trans hs
      idle := fun _ hn => by cases hn
      part := fun _ hs => (hs.elim hfair fun hn => hn rfl).elim
      sduLen := hsdu
      bound := fun hf => absurd hf hfair }

/-- **The first segment of an SDU.** The credits given for the rest are
those that the bytes behind this segment take. -/
theorem Settled.recvFirst (h : Settled fair ch) (env : RecvEnv) {sduLen : ℕ} (hsdu : sduLen < 2 ^ 16)
    (hlen : ch.allocBuf = true →
      buf.length ≤ sduLen ∨ ¬ fair ∧ env.disc.isSome ∧ ch.attached = true) :
    (ch.recvFirst env sduLen buf).Keeps fair
      (ch.state = .connected ∧ (ch.allocBuf = true → env.segCredits = true)) ch := by
  unfold Chan.recvFirst
  split
  next halloc =>
    cases env.alloc with
    | none => exact h.toRxInv.disconnectFor
    | some room =>
      have hextra : buf.length ≤ sduLen →
          extraCredits sduLen buf.length room ch.rx.mps ≤ (sduLen - buf.length) ⌈/⌉ ch.rx.mps := by
        intro hfits
        rw [extraCredits, if_pos hfits]
        exact ceilDiv_le_ceilDiv h.mps (Nat.min_le_left _ _)
      have hseg := h.recvSeg_first sduLen room _ hsdu (hlen halloc) hextra rfl
      dsimp only
      split
      next hzero =>
        have hch : ({ ch with
            sdu := some ⟨⟨[], room⟩, []⟩, sduLen := sduLen,
            rx := { ch.rx with credits := extraCredits sduLen buf.length room ch.rx.mps } } : Chan)
              = { ch with sdu := some ⟨⟨[], room⟩, []⟩, sduLen := sduLen } := by
          rw [hzero, ← h.credits]
        rw [hch] at hseg
        exact ⟨hseg.inv, hseg.credits, fun hok => hseg.failed hok.1⟩
      next =>
        cases hbuf : env.segCredits with
        | false =>
          refine ⟨?_, rfl, fun hok => absurd (hok.2 halloc) Bool.false_ne_true⟩
          exact { h with
            held := fun hh => absurd h.held_eq hh
            idle := fun hs => by cases hs
            part := fun _ _ _ hs => by cases hs
            drained := fun _ => rfl
            shut := fun _ => ⟨h.credits, h.held_eq⟩
            sduLen := Nat.two_pow_pos 16 }
        | true =>
          refine ⟨hseg.inv, ?_, fun hok => ?_⟩
          · have hcredits := hseg.credits
            rw [andThen_chan, sendCredits_true, hcredits, andThen_sent, given_append, h.credits]
            simp [Chan.sendCredits]
          · rw [andThen_failed]
            refine append_eq_nil_iff.2 ⟨?_, hseg.failed hok.1⟩
            simp [Chan.sendCredits, hok.1, h.credits]
  next => exact h.recvCallback env buf

/-- **A received K-frame** that has its credit: the invariant is kept and
the credit used. No assertion fails if the frame is refused, or the
channel is connected and there is a buffer for the credits of the other
segments. -/
theorem RxInv.leRecv (h : RxInv fair ch) (env : RecvEnv) (buf : Bytes) (hopen : ch.shutdown = false)
    (hatt : ch.attached = true) (hcredit : ch.rx.credits ≠ 0)
    (hpart : ¬ ch.refuses buf → fair ∨ ch.state ≠ .disconnecting)
    (hlen : ¬ ch.refuses buf → ch.sdu = none → ch.allocBuf = true →
      buf.length - 2 ≤ getLe16 buf ∨ ¬ fair ∧ env.disc.isSome) :
    RxInv fair (ch.leRecv env buf).chan ∧
      (ch.leRecv env buf).chan.rx.credits + 1 = ch.rx.credits + given (ch.leRecv env buf).sent ∧
      ((¬ ch.refuses buf → ch.state = .connected ∧
        (ch.sdu = none → ch.allocBuf = true → env.segCredits = true)) →
        (ch.leRecv env buf).failed = []) := by
  have hheld : ch.held = 0 := by
    by_contra hh
    exact hcredit (h.held hh).2
  -- the channel with one credit used
  have htaken : RxInv fair { ch with rx := { ch.rx with credits := ch.rx.credits - 1 } } :=
    { h with
      held := fun hh => absurd hheld hh
      shut := fun hs => nomatch hopen.symm.trans hs
      idle := fun h₁ h₂ => (Nat.sub_le _ _).trans (h.idle h₁ h₂)
      part := fun h₁ h₂ s hs => (Nat.sub_le _ _).trans (h.part h₁ h₂ s hs)
      bound := fun hf => lt_of_le_of_lt (Nat.sub_le _ _) (h.bound hf) }
  suffices hkeeps : (ch.leRecv env buf).Keeps fair
      (¬ ch.refuses buf → ch.state = .connected ∧
        (ch.sdu = none → ch.allocBuf = true → env.segCredits = true))
      { ch with rx := { ch.rx with credits := ch.rx.credits - 1 } } by
    refine ⟨hkeeps.inv, ?_, hkeeps.failed⟩
    rw [hkeeps.credits]
    dsimp only
    omega
  unfold Chan.leRecv
  rw [if_neg hcredit]
  dsimp only
  split
  next => exact htaken.disconnectFor
  next hmps =>
    split
    next hsome =>
      obtain ⟨s, hs⟩ := Option.isSome_iff_exists.1 hsome
      have hrefuse : ¬ ch.refuses buf := by
        rintro (h₁ | h₁ | ⟨h₁, -⟩)
        · exact hcredit h₁
        · exact hmps h₁
        · rw [hs] at h₁
          cases h₁
      have hcred : s.head.data.length + buf.length ≤ ch.sduLen → ch.rx.credits - 1 ≤
            (ch.sduLen - (s.head.data.length + buf.length)) ⌈/⌉ ch.rx.mps := by
        intro hfits
        have hle := h.part hopen (hpart hrefuse) s hs
        have hsucc := ceilDiv_le_succ h.mps
          (show ch.sduLen - s.head.data.length ≤
            ch.sduLen - (s.head.data.length + buf.length) + ch.rx.mps by omega)
        omega
      have hseg := htaken.recvSeg env hs hheld hopen hcred
      exact ⟨hseg.inv, hseg.credits, fun hok => hseg.failed (hok hrefuse).1⟩
    next hnone =>
      have hs : ch.sdu = none := by simpa using hnone
      split
      next => exact htaken.disconnectFor
      next hshort =>
        split
        next => exact htaken.disconnectFor
        next hmtu =>
          have hrefuse : ¬ ch.refuses buf := by
            rintro (h₁ | h₁ | ⟨-, h₁ | h₁⟩)
            · exact hcredit h₁
            · exact hmps h₁
            · exact hshort h₁
            · exact hmtu h₁
          have hset : Settled fair { ch with rx := { ch.rx with credits := ch.rx.credits - 1 } } :=
            { htaken with
              sdu := hs
              credits := Nat.sub_eq_zero_of_le (h.idle hopen hs)
              held_eq := hheld
              open_ := hopen }
          have hfits : ch.allocBuf = true → (buf.drop 2).length ≤ getLe16 buf ∨
              ¬ fair ∧ env.disc.isSome ∧ ch.attached = true := by
            intro halloc
            rw [length_drop]
            exact (hlen hrefuse hs halloc).imp_right fun hd => ⟨hd.1, hd.2, hatt⟩
          have hfirst := hset.recvFirst env (getLe16_lt buf) hfits
          exact ⟨hfirst.inv, hfirst.credits,
            fun hok => hfirst.failed ⟨(hok hrefuse).1, (hok hrefuse).2 hs⟩⟩

theorem RxInv.recvComplete (h : RxInv fair ch) (hheld : ch.held ≠ 0) (b : Bool) :
    (ch.recvComplete b).Keeps fair ok ch := by
  obtain ⟨hsdu, hcredits⟩ := h.held hheld
  have hopen : ch.shutdown = false := by
    by_contra hs
    exact hheld (h.shut (by simpa using hs)).2
  have hle := h.held_le
  have hset : Settled fair { ch with held := ch.held - 1 } :=
    { h with
      held_le := (Nat.sub_le _ _).trans hle
      held := fun _ => ⟨hsdu, hcredits⟩
      shut := fun hs => nomatch hopen.symm.trans hs
      sdu := hsdu
      credits := hcredits
      open_ := hopen
      held_eq := by dsimp only; omega }
  unfold Chan.recvComplete
  dsimp only
  split
  next hst =>
    have hsend := hset.sendCredits b
    exact ⟨hsend.inv, hsend.credits, fun _ => hsend.failed hst.2⟩
  next => exact hset.toRxInv.keeps.of_rx rfl

/-! ## The preconditions of the receive path -/

/-- **What the receive path takes for granted** of a frame that it does
not refuse: the channel is connected; a frame that starts an SDU is not
longer than the SDU, or the channel can be disconnected for it; and there
is a buffer for the credits of the other segments. -/
structure RecvOk (env : RecvEnv) (buf : Bytes) (ch : Chan) : Prop where
  connected : ¬ ch.refuses buf → ch.state = .connected
  length : ¬ ch.refuses buf → ch.sdu = none → ch.allocBuf = true →
    buf.length - 2 ≤ getLe16 buf ∨ env.disc.isSome
  buffer : ¬ ch.refuses buf → ch.sdu = none → ch.allocBuf = true → env.segCredits = true

/-- **A received K-frame.** Where the receive path finds what it takes for
granted, the invariant is kept and no assertion fails, whoever the peer
is. -/
theorem RxInv.leRecv_of_ok (h : RxInv False ch) (hopen : ch.shutdown = false)
    (hatt : ch.attached = true) (hok : RecvOk env buf ch) :
    RxInv False (ch.leRecv env buf).chan ∧ (ch.leRecv env buf).failed = [] := by
  by_cases hcredit : ch.rx.credits = 0
  · unfold Chan.leRecv
    rw [if_pos hcredit]
    have hd : (ch.disconnectFor .noCredits env.disc).Keeps False True ch := h.disconnectFor
    exact ⟨hd.inv, hd.failed trivial⟩
  · obtain ⟨hinv, -, hfailed⟩ := h.leRecv env buf hopen hatt hcredit
      (fun hr => .inr (by rw [hok.connected hr]; exact ChanState.noConfusion))
      fun hr hs ha => (hok.length hr hs ha).imp_right fun hd => ⟨not_false, hd⟩
    exact ⟨hinv, hfailed fun hr => ⟨hok.connected hr, hok.buffer hr⟩⟩

theorem RxInv.open_of_queue (h : RxInv fair ch) {rest : List Bytes}
    (hq : ch.rxQueue = buf :: rest) : ch.shutdown = false := by
  by_contra hs
  have := h.drained (by simpa using hs)
  rw [hq] at this
  cases this

theorem RxInv.of_rxQueue (h : RxInv fair ch) (hopen : ch.shutdown = false) (q : List Bytes) :
    RxInv fair { ch with rxQueue := q } :=
  { h with drained := fun hs => by rw [hopen] at hs; cases hs }

end L2cap

end OpenBlue

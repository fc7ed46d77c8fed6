import OpenBlue.L2cap.RoundTrip
/-!
# L2CAP — the length of an SDU that is received

The first K-frame of an SDU announces its length, and the receive path compares
it with the bytes in the first buffer of the SDU. Two facts about every run of
the receive side of a channel (`Rx`). What is delivered has the announced
length, but on a channel without `alloc_buf`, where no length is compared
(`delivered_exact_iff`). And with `alloc_buf` an SDU is complete, or refused as
too long, when its bytes in all buffers say so, unless some were put in a buffer
behind the first one (`fragments_exact_iff`).
-/

namespace OpenBlue

namespace L2cap

open List Option Chan Fault

variable {ch ch' : Chan} {env : RecvEnv} {buf bytes : Bytes} {s : SduBuf} {frags : List ℕ}

/-! ## The receive side -/

/-- What happens on the receive side of a channel. -/
inductive RxOp
  /-- `l2cap_chan_le_recv`. -/
  | kframe (env : RecvEnv) (buf : Bytes)
  /-- `bt_l2cap_chan_recv_complete`. -/
  | recvComplete (buf : Bool)
  /-- `bt_l2cap_chan_disconnect`. -/
  | disconnect (buf : Option UInt8)

/-- A channel, and the length that the K-frame that started its SDU
announced. -/
structure Rx where
  chan : Chan
  announced : ℕ := 0

/-- The length announced of the SDU that a K-frame belongs to. -/
def Rx.sduLength (r : Rx) (buf : Bytes) : ℕ :=
  if r.chan.sdu.isSome then r.announced else getLe16 buf

def Rx.step (r : Rx) : RxOp → Rx
  | .kframe env buf => ⟨(r.chan.leRecv env buf).chan, r.sduLength buf⟩
  | .recvComplete b => { r with chan := (r.chan.recvComplete b).chan }
  | .disconnect b => { r with chan := (r.chan.disconnect b).chan }

/-! ## Appending -/

theorem append_of_spills (hs : s.chained = []) (h : s.head.room < bytes.length) :
    (s.append frags bytes).1.head.data.length = s.head.data.length + s.head.room := by
  obtain ⟨head, chained⟩ := s
  cases hs
  have hne : bytes.drop head.room ≠ [] := by
    rw [Ne, drop_eq_nil_iff]
    exact Nat.not_le.2 h
  have hhead : (SduBuf.add ⟨head, []⟩ bytes).head.data.length = head.data.length + head.room := by
    simp only [SduBuf.add, Frag.add, length_append, length_take]
    exact congrArg _ (Nat.min_eq_left h.le)
  unfold SduBuf.append
  dsimp only [SduBuf.room]
  rw [if_neg hne]
  cases frags with
  | nil => exact hhead
  | cons room frags =>
    rw [head_append_of_chained (cons_ne_nil _ _)]
    exact hhead

theorem append_chained (h : (s.append frags bytes).1.chained ≠ []) :
    (s.chained ≠ [] ∧ (s.append frags bytes).1.head = s.head) ∨
      (s.append frags bytes).1.head.data.length < s.head.data.length + bytes.length := by
  by_cases hs : s.chained = []
  · refine .inr ?_
    rcases Nat.lt_or_ge s.head.room bytes.length with hlt | hge
    · rw [append_of_spills hs hlt]
      exact Nat.add_lt_add_left hlt _
    · rw [append_of_fits hs hge] at h
      exact absurd rfl h
  · exact .inl ⟨hs, head_append_of_chained hs⟩

/-! ## The outcome of a call -/

/-- Nothing is delivered, and no length refused. -/
def Outcome.Quiet (o : Outcome) : Prop := o.delivered = [] ∧ Fault.sduMismatch ∉ o.faults

theorem quiet_sendCredits (b : Bool) (n : ℕ) (ch : Chan) : (ch.sendCredits b n).Quiet := by
  cases b <;> exact ⟨rfl, not_mem_nil⟩

theorem quiet_disconnectFor {fault : Fault} (h : fault ≠ .sduMismatch) (disc : Option UInt8)
    (ch : Chan) : (ch.disconnectFor fault disc).Quiet :=
  ⟨(disconnect_fields disc ch).2.2.2.2.2.1, fun hmem => h (mem_singleton.1 hmem).symm⟩

theorem delivered_andThen {o : Outcome} {f : Chan → Outcome} {sdu : Bytes}
    (ho : o.delivered = [sdu]) (hfaults : sduMismatch ∉ o.faults) (hf : ∀ ch, (f ch).Quiet) :
    (o.andThen f).delivered = [sdu] ∧ sduMismatch ∉ (o.andThen f).faults := by
  rw [andThen_delivered, andThen_faults, ho, (hf _).1, mem_append, not_or]
  exact ⟨rfl, hfaults, (hf _).2⟩

theorem recvCallback_delivered (env : RecvEnv) (sdu : Bytes) (ch : Chan) :
    (ch.recvCallback env sdu).delivered = [sdu] ∧
      sduMismatch ∉ (ch.recvCallback env sdu).faults := by
  refine delivered_andThen rfl ?_ fun ch => ?_
  · dsimp only
    split
    · rw [(disconnect_fields env.closeBuf ch).2.2.2.2.2.2]
      exact not_mem_nil
    · exact not_mem_nil
  · split
    · exact quiet_disconnectFor (by decide) env.disc ch
    · exact ⟨rfl, not_mem_nil⟩
    · split
      · exact quiet_sendCredits _ _ ch
      · exact ⟨rfl, not_mem_nil⟩

theorem recvSdu_delivered (env : RecvEnv) (sdu : Bytes) (ch : Chan) :
    (ch.recvSdu env sdu).delivered = [sdu] ∧ sduMismatch ∉ (ch.recvSdu env sdu).faults :=
  recvCallback_delivered env sdu ch

/-! ## A segment -/

/-- **What a segment comes to**: it is refused, is not stored, is stored, or
completes the SDU. -/
inductive Segment (env : RecvEnv) (buf : Bytes) (s : SduBuf) (ch : Chan) : Outcome → Prop
  | refused (h : ch.sduLen < s.head.data.length + buf.length) :
    Segment env buf s ch (ch.disconnectFor .sduMismatch env.disc)
  | lost (h : s.head.data.length + buf.length ≤ ch.sduLen) (happ : (s.append env.frags buf).2 = false) :
    Segment env buf s ch
      ({ ch with sdu := some (s.append env.frags buf).1 }.disconnectFor .notStored env.disc)
  | stored (h : s.head.data.length + buf.length ≤ ch.sduLen) (happ : (s.append env.frags buf).2 = true)
      (hpart : (s.append env.frags buf).1.head.data.length < ch.sduLen) {o : Outcome}
      (hsame : SameSdu { ch with sdu := some (s.append env.frags buf).1 } o.chan)
      (hquiet : o.Quiet) : Segment env buf s ch o
  | complete (h : s.head.data.length + buf.length ≤ ch.sduLen)
      (happ : (s.append env.frags buf).2 = true)
      (hfull : ch.sduLen ≤ (s.append env.frags buf).1.head.data.length) :
    Segment env buf s ch
      ({ ch with sdu := none, sduLen := 0 }.recvSdu env (s.append env.frags buf).1.data)

theorem segment_recvSeg (hs : ch.sdu = some s) : Segment env buf s ch (ch.recvSeg env buf) := by
  unfold recvSeg
  rw [hs]
  dsimp only
  by_cases hlen : ch.sduLen < s.head.data.length + buf.length
  · rw [if_pos hlen]
    exact .refused hlen
  · rw [if_neg hlen]
    have hle := Nat.not_lt.1 hlen
    by_cases happ : (s.append env.frags buf).2 = false
    · rw [if_pos happ]
      exact .lost hle happ
    · rw [if_neg happ]
      have happ := Bool.eq_true_of_not_eq_false happ
      by_cases hpart : (s.append env.frags buf).1.head.data.length < ch.sduLen
      · rw [if_pos hpart]
        split
        · exact .stored hle happ hpart (sameSdu_sendCredits _ _ _) (quiet_sendCredits _ _ _)
        · exact .stored hle happ hpart (.refl _) ⟨rfl, not_mem_nil⟩
      · rw [if_neg hpart]
        exact .complete hle happ (Nat.not_lt.1 hpart)

/-! ## A K-frame -/

/-- The credit of a K-frame is used. -/
def Chan.useCredit (ch : Chan) : Chan :=
  { ch with rx := { ch.rx with credits := ch.rx.credits - 1 } }

/-- A new buffer for an SDU. -/
def SduBuf.ofRoom (room : ℕ) : SduBuf := ⟨⟨[], room⟩, []⟩

/-- **What a K-frame comes to.** -/
inductive Received (env : RecvEnv) (buf : Bytes) (ch : Chan) : Outcome → Prop
  | refused (h : ch.refuses buf) {o : Outcome} (hsame : SameSdu ch o.chan) (hquiet : o.Quiet) :
    Received env buf ch o
  | segment (h : ¬ ch.refuses buf) {s : SduBuf} (hs : ch.sdu = some s) {o : Outcome}
    (hseg : Segment env buf s ch.useCredit o) : Received env buf ch o
  | whole (h : ¬ ch.refuses buf) (hs : ch.sdu = none) (halloc : ch.allocBuf = false) :
    Received env buf ch (ch.useCredit.recvCallback env (buf.drop 2))
  | noBuffer (h : ¬ ch.refuses buf) (hs : ch.sdu = none) (halloc : ch.allocBuf = true)
    (hroom : env.alloc = none) {o : Outcome} (hsame : SameSdu ch o.chan) (hquiet : o.Quiet) :
    Received env buf ch o
  | first (h : ¬ ch.refuses buf) (hs : ch.sdu = none) (halloc : ch.allocBuf = true) {room : ℕ}
    (hroom : env.alloc = some room)
    (hcredits : extraCredits (getLe16 buf) (buf.drop 2).length room ch.rx.mps = 0 ∨
      env.segCredits = true) {ch' : Chan} (hs' : ch'.sdu = some (.ofRoom room))
    (hlen : ch'.sduLen = getLe16 buf) {o o' : Outcome}
    (hseg : Segment env (buf.drop 2) (.ofRoom room) ch' o') (hchan : o.chan = o'.chan)
    (hdel : o.delivered = o'.delivered) (hfaults : o.faults = o'.faults) : Received env buf ch o
  | shut (h : ¬ ch.refuses buf) (hs : ch.sdu = none) (halloc : ch.allocBuf = true) {room : ℕ}
    (hroom : env.alloc = some room) (hcredits : env.segCredits = false)
    (hextra : extraCredits (getLe16 buf) (buf.drop 2).length room ch.rx.mps ≠ 0) {o : Outcome}
    (hsdu : o.chan.sdu = none) (hquiet : o.Quiet) : Received env buf ch o

theorem received_recvFirst (h : ¬ ch.refuses buf) (hs : ch.sdu = none) :
    Received env buf ch (ch.useCredit.recvFirst env (getLe16 buf) (buf.drop 2)) := by
  unfold recvFirst
  cases halloc : ch.allocBuf with
  | false =>
    rw [if_neg (by exact Bool.eq_false_iff.1 halloc)]
    exact .whole h hs halloc
  | true =>
    rw [if_pos (by exact halloc)]
    cases hroom : env.alloc with
    | none =>
      exact .noBuffer h hs halloc hroom (sameSdu_disconnect env.disc ch.useCredit)
        (quiet_disconnectFor (by decide) _ _)
    | some room =>
      dsimp only
      by_cases hextra : extraCredits (getLe16 buf) (buf.drop 2).length room ch.rx.mps = 0
      · rw [if_pos (by exact hextra)]
        exact .first h hs halloc hroom (.inl hextra) rfl rfl (segment_recvSeg rfl) rfl rfl rfl
      · rw [if_neg (by exact hextra)]
        cases hcredits : env.segCredits with
        | true =>
          exact .first h hs halloc hroom (.inr hcredits) rfl rfl (segment_recvSeg rfl) rfl rfl rfl
        | false => exact .shut h hs halloc hroom hcredits hextra rfl ⟨rfl, not_mem_nil⟩

theorem received_leRecv (env : RecvEnv) (buf : Bytes) (ch : Chan) :
    Received env buf ch (ch.leRecv env buf) := by
  by_cases h : ch.refuses buf
  · have hfor : ∀ fault, fault ≠ sduMismatch → ∀ ch', SameSdu ch ch' →
        Received env buf ch (ch'.disconnectFor fault env.disc) := fun fault hfault ch' hsame =>
      .refused h (hsame.trans (sameSdu_disconnect env.disc ch'))
        (quiet_disconnectFor hfault env.disc ch')
    have huse : SameSdu ch ch.useCredit := .inr ⟨rfl, rfl⟩
    unfold leRecv
    by_cases hcredits : ch.rx.credits = 0
    · rw [if_pos hcredits]
      exact hfor _ (by decide) _ (.refl ch)
    · rw [if_neg hcredits]
      dsimp only
      by_cases hmps : ch.rx.mps < buf.length
      · rw [if_pos hmps]
        exact hfor _ (by decide) _ huse
      · obtain ⟨hs, hshort⟩ := (h.resolve_left hcredits).resolve_left hmps
        rw [if_neg hmps, if_neg (by rw [hs]; decide)]
        by_cases hlen : buf.length < 2
        · rw [if_pos hlen]
          exact hfor _ (by decide) _ huse
        · rw [if_neg hlen, if_pos (hshort.resolve_left hlen)]
          exact hfor _ (by decide) _ huse
  · have hno := h
    unfold refuses at hno
    simp only [not_or, not_and] at hno
    obtain ⟨hcredits, hmps, hfirst⟩ := hno
    cases hs : ch.sdu with
    | some s =>
      rw [leRecv_accepted env hcredits (Nat.not_lt.1 hmps) hs]
      exact .segment h hs (segment_recvSeg hs)
    | none =>
      obtain ⟨hlen, hmtu⟩ := hfirst hs
      have hrecv : ch.leRecv env buf = ch.useCredit.recvFirst env (getLe16 buf) (buf.drop 2) := by
        unfold leRecv
        rw [if_neg hcredits]
        dsimp only
        rw [if_neg hmps, if_neg (by rw [hs]; decide), if_neg hlen, if_neg hmtu]
        rfl
      rw [hrecv]
      exact received_recvFirst h hs

/-! ## What is delivered -/

/-- Of an SDU in several buffers bytes are missing by what is in the first
one. -/
structure Part (announced : ℕ) (ch : Chan) : Prop where
  len : ch.sdu.isSome → ch.sduLen = announced
  head : ∀ s, ch.sdu = some s → s.chained ≠ [] → s.head.data.length < ch.sduLen

theorem part_none {announced : ℕ} (h : ch.sdu = none) : Part announced ch := by
  refine ⟨fun hs => ?_, fun s hs => ?_⟩
  · rw [h] at hs
    exact nomatch hs
  · rw [h] at hs
    exact nomatch hs

theorem SameSdu.part {announced : ℕ} (h : SameSdu ch ch') (hpart : Part announced ch) :
    Part announced ch' := by
  rcases h with hnone | ⟨hsdu, hlen⟩
  · exact part_none hnone
  · refine ⟨fun hs => ?_, fun s hs => ?_⟩
    · rw [hlen]
      exact hpart.len (hsdu ▸ hs)
    · rw [hlen]
      exact hpart.head s (hsdu ▸ hs)

variable {o : Outcome}

theorem Segment.part (h : Segment env buf s ch o) {announced : ℕ} (hs : ch.sdu = some s)
    (hpart : Part announced ch) : Part announced o.chan := by
  have hlen := hpart.len (by rw [hs]; rfl)
  have happended : s.head.data.length + buf.length ≤ ch.sduLen →
      Part announced { ch with sdu := some (s.append env.frags buf).1 } := by
    intro hle
    refine ⟨fun _ => hlen, fun s' hs' hchained => ?_⟩
    obtain rfl := Option.some.inj hs'
    rcases append_chained hchained with ⟨hbefore, hhead⟩ | hlt
    · rw [hhead]
      exact hpart.head s hs hbefore
    · exact Nat.lt_of_lt_of_le hlt hle
  cases h with
  | refused hlt => exact (sameSdu_disconnect env.disc ch).part hpart
  | lost hle happ => exact (sameSdu_disconnect env.disc _).part (happended hle)
  | stored hle happ hlt hsame hquiet => exact hsame.part (happended hle)
  | complete hle happ hfull => exact (handClosed_sameSdu.recvCallback env _ _).part (part_none rfl)

/-- **An SDU that is complete has the announced length.** -/
theorem Segment.length_of_delivered (h : Segment env buf s ch o)
    (hpart : s.chained ≠ [] → s.head.data.length < ch.sduLen) :
    ∀ sdu ∈ o.delivered, sdu.length = ch.sduLen := by
  cases h with
  | refused hlt =>
    rw [disconnectFor, (disconnect_fields env.disc ch).2.2.2.2.2.1]
    exact fun sdu hsdu => absurd hsdu not_mem_nil
  | lost hle happ =>
    rw [(quiet_disconnectFor (by decide) env.disc _).1]
    exact fun sdu hsdu => absurd hsdu not_mem_nil
  | stored hle happ hlt hsame hquiet =>
    rw [hquiet.1]
    exact fun sdu hsdu => absurd hsdu not_mem_nil
  | complete hle happ hfull =>
    rw [(recvSdu_delivered env _ _).1]
    intro sdu hsdu
    obtain rfl := mem_singleton.1 hsdu
    have hchained : s.chained = [] := by
      by_contra hne
      rw [head_append_of_chained hne] at hfull
      exact absurd (hpart hne) (Nat.not_lt.2 hfull)
    have hroom : buf.length ≤ s.head.room := by
      by_contra hlt
      rw [append_of_spills hchained (Nat.not_le.1 hlt)] at hfull
      omega
    rw [append_of_fits hchained hroom] at hfull ⊢
    simp only [SduBuf.data, reverse_nil, flatMap_nil, append_nil, length_append] at hfull ⊢
    omega

/-- What a K-frame delivers has the length that was announced. -/
def Exact (r : Rx) : RxOp → Prop
  | .kframe env buf => ∀ sdu ∈ (r.chan.leRecv env buf).delivered, sdu.length = r.sduLength buf
  | .recvComplete _ => True
  | .disconnect _ => True

/-- A K-frame that starts an SDU on a channel without `alloc_buf` holds as many
bytes as it announces. -/
def Whole (r : Rx) : RxOp → Prop
  | .kframe _ buf => ¬ r.chan.refuses buf → r.chan.sdu = none → r.chan.allocBuf = false →
      buf.length = getLe16 buf + 2
  | .recvComplete _ => True
  | .disconnect _ => True

variable {r : Rx}

theorem Rx.sduLength_of_some (h : r.chan.sdu = some s) (buf : Bytes) :
    r.sduLength buf = r.announced := by
  rw [Rx.sduLength, h]
  rfl

theorem Rx.sduLength_of_none (h : r.chan.sdu = none) (buf : Bytes) :
    r.sduLength buf = getLe16 buf := by
  rw [Rx.sduLength, h]
  rfl

theorem part_ofRoom {room announced : ℕ} (hs : ch.sdu = some (.ofRoom room))
    (hlen : ch.sduLen = announced) : Part announced ch :=
  ⟨fun _ => hlen, fun s hs' hne => by
    obtain rfl := mem_unique hs hs'
    exact absurd rfl hne⟩

/-- **What any step keeps of the SDU under way.** -/
theorem part_step (h : Part r.announced r.chan) (op : RxOp) :
    Part (r.step op).announced (r.step op).chan := by
  cases op with
  | recvComplete b => exact (handClosed_sameSdu.recvComplete b r.chan).part h
  | disconnect b => exact (sameSdu_disconnect b r.chan).part h
  | kframe env buf =>
    have hrecv := received_leRecv env buf r.chan
    have hann : r.chan.sdu.isSome → r.sduLength buf = r.announced := fun hs => by
      obtain ⟨s, hs⟩ := isSome_iff_exists.1 hs
      exact Rx.sduLength_of_some hs buf
    have hsame : Part (r.sduLength buf) r.chan :=
      ⟨fun hs => (h.len hs).trans (hann hs).symm, h.head⟩
    show Part (r.sduLength buf) (r.chan.leRecv env buf).chan
    generalize r.chan.leRecv env buf = o at hrecv
    cases hrecv with
    | refused href hs hquiet => exact hs.part hsame
    | segment href hs hseg => exact hseg.part hs ⟨hsame.len, hsame.head⟩
    | whole href hs halloc => exact (handClosed_sameSdu.recvCallback env _ r.chan.useCredit).part (part_none hs)
    | noBuffer href hs halloc hroom hsdu hquiet => exact hsdu.part (part_none hs)
    | first href hs halloc hroom hcredits hs' hlen hseg hchan hdel hfaults =>
      rw [hchan, Rx.sduLength_of_none hs]
      exact hseg.part hs' (part_ofRoom hs' hlen)
    | shut href hs halloc hroom hcredits hextra hsdu hquiet => exact part_none hsdu

theorem exact_iff (h : Part r.announced r.chan) (op : RxOp) : Exact r op ↔ Whole r op := by
  cases op with
  | recvComplete b => exact Iff.rfl
  | disconnect b => exact Iff.rfl
  | kframe env buf =>
    have hrecv := received_leRecv env buf r.chan
    have hnone : ∀ {o : Outcome}, o.Quiet → ∀ sdu ∈ o.delivered, sdu.length = r.sduLength buf := by
      intro o hquiet sdu hsdu
      rw [hquiet.1] at hsdu
      exact absurd hsdu not_mem_nil
    unfold Exact Whole
    dsimp only
    generalize r.chan.leRecv env buf = o at hrecv
    cases hrecv with
    | refused href hs hquiet => exact iff_of_true (hnone hquiet) fun hno => absurd href hno
    | segment href hs hseg =>
      refine iff_of_true ?_ fun _ hno => by rw [hs] at hno; exact nomatch hno
      rw [Rx.sduLength_of_some hs, ← h.len (by rw [hs]; rfl)]
      exact hseg.length_of_delivered (h.head _ hs)
    | whole href hs halloc =>
      have hlen : 2 ≤ buf.length := by
        by_contra hlt
        exact href (.inr (.inr ⟨hs, .inl (Nat.not_le.1 hlt)⟩))
      rw [(recvCallback_delivered env _ _).1, forall_mem_singleton, Rx.sduLength_of_none hs,
        length_drop]
      constructor
      · intro heq _ _ _
        omega
      · intro heq
        have := heq href hs halloc
        omega
    | noBuffer href hs halloc hroom hsdu hquiet =>
      refine iff_of_true (hnone hquiet) fun _ _ hno => ?_
      rw [halloc] at hno
      exact nomatch hno
    | first href hs halloc hroom hcredits hs' hlen hseg hchan hdel hfaults =>
      refine iff_of_true ?_ fun _ _ hno => by rw [halloc] at hno; exact nomatch hno
      rw [hdel, Rx.sduLength_of_none hs, ← hlen]
      exact hseg.length_of_delivered fun hne => absurd rfl hne
    | shut href hs halloc hroom hcredits hextra hsdu hquiet =>
      refine iff_of_true (hnone hquiet) fun _ _ hno => ?_
      rw [halloc] at hno
      exact nomatch hno

/-- **What is delivered has the announced length exactly while each K-frame on a
channel without `alloc_buf` holds what it announces.** In any run of the
receive side from a channel that has no SDU under way, with any K-frames,
buffers and callbacks. -/
theorem delivered_exact_iff (ch : Chan) (hsdu : ch.sdu = none) (ops : List RxOp) :
    Along Rx.step Exact ⟨ch, 0⟩ ops ↔ Along Rx.step Whole ⟨ch, 0⟩ ops := by
  have hinit : Part (⟨ch, 0⟩ : Rx).announced (⟨ch, 0⟩ : Rx).chan := part_none hsdu
  constructor
  · intro h
    exact inv_along (fun r => Part r.announced r.chan)
      (fun r op hr hop => ⟨part_step hr op, (exact_iff hr op).1 hop⟩) hinit h
  · intro h
    exact inv_along (fun r => Part r.announced r.chan)
      (fun r op hr hop => ⟨part_step hr op, (exact_iff hr op).2 hop⟩) hinit h

/-- Two K-frames, each with the bytes it announces. -/
theorem delivered_exact_iff_whole :
    Along Rx.step Exact ⟨{ state := .connected, rx := ⟨0x40, 100, 100, 2⟩, allocBuf := false }, 0⟩
      [.kframe {} [1, 0, 0xaa], .kframe {} [2, 0, 0xbb, 0xcc]] := by
  refine (delivered_exact_iff { state := .connected, rx := ⟨0x40, 100, 100, 2⟩, allocBuf := false }
    rfl _).2 ⟨fun _ _ _ => ?_, fun _ _ _ => ?_, trivial⟩
  · decide
  · decide

/-- **An SDU that is cut.** Two bytes are announced, one is there, and it is
delivered. -/
theorem not_delivered_exact :
    ¬ Along Rx.step Exact ⟨{ state := .connected, rx := ⟨0x40, 100, 100, 1⟩, allocBuf := false }, 0⟩
      [.kframe {} [2, 0, 0xaa]] :=
  fun h => absurd (h.1 [0xaa] (by decide)) (by decide)

/-! ## What is in several buffers -/

theorem data_add (s : SduBuf) (bytes : Bytes) :
    (s.add bytes).data = s.data ++ bytes.take s.room := by
  obtain ⟨head, chained⟩ := s
  cases chained with
  | nil => simp [SduBuf.add, SduBuf.data, Frag.add, SduBuf.room]
  | cons f fs => simp [SduBuf.add, SduBuf.data, Frag.add, SduBuf.room, flatMap_append]

theorem data_newFrag (s : SduBuf) (room : ℕ) :
    ({ s with chained := { room := room } :: s.chained } : SduBuf).data = s.data := by
  simp [SduBuf.data, flatMap_append]

theorem append_done (h : bytes.drop s.room = []) :
    (s.append frags bytes).2 = true ∧ (s.append frags bytes).1.data = s.data ++ bytes := by
  have htake : bytes.take s.room = bytes := take_of_length_le (drop_eq_nil_iff.1 h)
  have happ : s.append frags bytes = (s.add bytes, true) := by
    unfold SduBuf.append
    exact if_pos h
  rw [happ, data_add, htake]
  exact ⟨rfl, rfl⟩

theorem append_next {x : ℕ} (h : bytes.drop s.room ≠ []) (hnext : ∀ s' : SduBuf, s'.room = x →
      (s'.append frags (bytes.drop s.room)).2 = true ∧
        (s'.append frags (bytes.drop s.room)).1.data = s'.data ++ bytes.drop s.room) :
    (s.append (x :: frags) bytes).2 = true ∧
      (s.append (x :: frags) bytes).1.data = s.data ++ bytes := by
  have happ : s.append (x :: frags) bytes = SduBuf.append frags (bytes.drop s.room)
      { s.add bytes with chained := { room := x } :: (s.add bytes).chained } := if_neg h
  obtain ⟨hall, hdata⟩ :=
    hnext { s.add bytes with chained := { room := x } :: (s.add bytes).chained } rfl
  rw [happ]
  refine ⟨hall, ?_⟩
  rw [hdata, data_newFrag, data_add, append_assoc, take_append_drop]

/-- **Where there are fragments with room, all bytes are added**: each takes a
byte at least, and so does the first buffer if it has room. -/
theorem append_supplied (hpos : ∀ x ∈ frags, 0 < x)
    (hlen : bytes.length ≤ frags.length + min s.room 1) :
    (s.append frags bytes).2 = true ∧ (s.append frags bytes).1.data = s.data ++ bytes := by
  induction frags generalizing bytes s with
  | nil =>
    refine append_done (drop_eq_nil_iff.2 ?_)
    rw [length_nil] at hlen
    omega
  | cons x frags ih =>
    by_cases hrest : bytes.drop s.room = []
    · exact append_done hrest
    · refine append_next hrest fun s' hs' => ih (fun y hy => hpos y (mem_cons_of_mem x hy)) ?_
      have := hpos x mem_cons_self
      rw [hs', length_drop]
      rw [length_cons] at hlen
      omega

theorem length_data (s : SduBuf) (h : s.chained = []) : s.data.length = s.head.data.length := by
  simp [SduBuf.data, h]

/-- What tells whether an SDU is complete: all that is stored of it, and not
only what is in the first buffer. -/
def Counts (stored payload sduLength : ℕ) (o : Outcome) : Prop :=
  (o.delivered ≠ [] ↔ stored + payload = sduLength) ∧
    (Fault.sduMismatch ∈ o.faults ↔ sduLength < stored + payload)

/-- A segment with which an SDU is complete, or too long, and that the first
buffer does not show to be too long, goes into the first buffer with all the
others. -/
def InHead (s : SduBuf) (payload sduLength : ℕ) : Prop :=
  s.head.data.length + payload ≤ sduLength → sduLength ≤ s.data.length + payload →
    s.chained = [] ∧ payload ≤ s.head.room

instance (s : SduBuf) (payload sduLength : ℕ) : Decidable (InHead s payload sduLength) :=
  inferInstanceAs (Decidable (_ → _ → _))

theorem counts_of_quiet {stored payload sduLength : ℕ} (h : o.Quiet) :
    Counts stored payload sduLength o ↔ stored + payload < sduLength := by
  rw [Counts, h.1, ne_self_iff_false, false_iff, iff_false_intro h.2, false_iff, Nat.not_lt]
  omega

theorem counts_congr {stored payload sduLength : ℕ} {o' : Outcome}
    (hdel : o.delivered = o'.delivered) (hfaults : o.faults = o'.faults) :
    Counts stored payload sduLength o ↔ Counts stored payload sduLength o' := by
  rw [Counts, Counts, hdel, hfaults]

/-- **A segment is counted right just where the first buffer tells.** -/
theorem Segment.counts_iff (h : Segment env buf s ch o) (hpos : ∀ x ∈ env.frags, 0 < x)
    (hlen : buf.length ≤ env.frags.length)
    (hpart : s.chained ≠ [] → s.head.data.length < ch.sduLen) :
    Counts s.data.length buf.length ch.sduLen o ↔ InHead s buf.length ch.sduLen := by
  have hhead : s.head.data.length ≤ s.data.length := by
    rw [SduBuf.data, length_append]
    exact Nat.le_add_right _ _
  cases h with
  | refused hlt =>
    refine iff_of_true ⟨?_, ?_⟩ fun hle => absurd hlt (Nat.not_lt.2 hle)
    · rw [disconnectFor, (disconnect_fields env.disc ch).2.2.2.2.2.1]
      exact iff_of_false (fun hne => hne rfl) (by omega)
    · exact iff_of_true mem_cons_self (by omega)
  | lost hle happ =>
    rw [(append_supplied hpos (Nat.le_add_right_of_le hlen)).1] at happ
    cases happ
  | stored hle happ hlt hsame hquiet =>
    rw [counts_of_quiet hquiet]
    constructor
    · intro hmore _ hge
      omega
    · intro hin
      by_contra hge
      obtain ⟨hchained, hroom⟩ := hin hle (Nat.not_lt.1 hge)
      rw [append_of_fits hchained hroom, length_append] at hlt
      rw [length_data s hchained] at hge
      exact hge hlt
  | complete hle happ hfull =>
    have hchained : s.chained = [] := by
      by_contra hne
      rw [head_append_of_chained hne] at hfull
      exact absurd (hpart hne) (Nat.not_lt.2 hfull)
    have hroom : buf.length ≤ s.head.room := by
      by_contra hlt
      rw [append_of_spills hchained (Nat.not_le.1 hlt)] at hfull
      omega
    have hsum := length_head_append env.frags buf s
    obtain ⟨hdel, hfaults⟩ := recvSdu_delivered env (s.append env.frags buf).1.data
      { ch with sdu := none, sduLen := 0 }
    refine iff_of_true ⟨?_, ?_⟩ fun _ _ => ⟨hchained, hroom⟩
    · rw [hdel, length_data s hchained]
      exact iff_of_true (cons_ne_nil _ _) (by omega)
    · rw [length_data s hchained]
      exact iff_of_false hfaults (by omega)

/-! ## Runs -/

/-- The bytes that are stored of the SDU under way. -/
def Rx.stored (r : Rx) : ℕ := (r.chan.sdu.map fun s => s.data.length).getD 0

/-- The bytes of a K-frame that belong to the SDU. -/
def Rx.payload (r : Rx) (buf : Bytes) : Bytes := if r.chan.sdu.isSome then buf else buf.drop 2

/-- The buffers of the SDU that a K-frame belongs to. -/
def Rx.buffer (r : Rx) (env : RecvEnv) : SduBuf :=
  r.chan.sdu.getD (.ofRoom (env.alloc.getD 0))

/-- The K-frames of SDUs that are not longer than `rx.mtu`, on a channel whose
`alloc_buf` gives buffers with room, as many as are asked for. -/
def Supplied (r : Rx) : RxOp → Prop
  | .kframe env buf => ¬ r.chan.refuses buf ∧ r.chan.allocBuf = true ∧
      (∃ room, env.alloc = some room ∧ 0 < room) ∧ (∀ x ∈ env.frags, 0 < x) ∧
      buf.length ≤ env.frags.length
  | .recvComplete _ => True
  | .disconnect _ => True

/-- A K-frame completes the SDU, or is refused for its length, by the bytes
in all buffers. -/
def FragmentsExact (r : Rx) : RxOp → Prop
  | .kframe env buf =>
    Counts r.stored (r.payload buf).length (r.sduLength buf) (r.chan.leRecv env buf)
  | .recvComplete _ => True
  | .disconnect _ => True

/-- A K-frame with which the bytes of the SDU are as many as announced, or more,
goes into the first buffer with all the others, where this does not show it to
be too long; and one that starts an SDU and is longer finds a buffer for the
credits it is taken to need. -/
def FirstBufferTells (r : Rx) : RxOp → Prop
  | .kframe env buf =>
    InHead (r.buffer env) (r.payload buf).length (r.sduLength buf) ∧
      (r.chan.sdu = none → r.sduLength buf < (r.payload buf).length → env.segCredits = true)
  | .recvComplete _ => True
  | .disconnect _ => True

theorem Rx.fields_of_some (h : r.chan.sdu = some s) (env : RecvEnv) (buf : Bytes) :
    r.stored = s.data.length ∧ r.payload buf = buf ∧ r.buffer env = s ∧
      r.sduLength buf = r.announced := by
  refine ⟨?_, ?_, ?_, Rx.sduLength_of_some h buf⟩
  · rw [Rx.stored, h]
    rfl
  · rw [Rx.payload, h]
    rfl
  · rw [Rx.buffer, h]
    rfl

theorem Rx.fields_of_none (h : r.chan.sdu = none) (env : RecvEnv) (buf : Bytes) :
    r.stored = 0 ∧ r.payload buf = buf.drop 2 ∧ r.buffer env = .ofRoom (env.alloc.getD 0) ∧
      r.sduLength buf = getLe16 buf := by
  refine ⟨?_, ?_, ?_, Rx.sduLength_of_none h buf⟩
  · rw [Rx.stored, h]
    rfl
  · rw [Rx.payload, h]
    rfl
  · rw [Rx.buffer, h]
    rfl

theorem mps_pos (h : ¬ ch.refuses buf) (hs : ch.sdu = none) : 0 < ch.rx.mps := by
  unfold refuses at h
  simp only [not_or, not_and, hs, forall_const, Nat.not_lt] at h
  omega

theorem fragmentsExact_iff (h : Part r.announced r.chan) (op : RxOp) (hop : Supplied r op) :
    FragmentsExact r op ↔ FirstBufferTells r op := by
  cases op with
  | recvComplete b => exact Iff.rfl
  | disconnect b => exact Iff.rfl
  | kframe env buf =>
    obtain ⟨href, halloc, ⟨room, hroom, hpos'⟩, hpos, hlen⟩ := hop
    have hlen' : (buf.drop 2).length ≤ env.frags.length := by
      rw [length_drop]
      omega
    have hrecv := received_leRecv env buf r.chan
    unfold FragmentsExact FirstBufferTells
    dsimp only
    generalize r.chan.leRecv env buf = o at hrecv
    cases hrecv with
    | refused hno hs hquiet => exact absurd hno href
    | segment href hs hseg =>
      obtain ⟨hstored, hpayload, hbuffer, hann⟩ := Rx.fields_of_some hs env buf
      have hsdu := h.len (by rw [hs]; rfl)
      have hcounts := hseg.counts_iff hpos hlen (h.head _ hs)
      rw [hstored, hpayload, hbuffer, hann, ← hsdu]
      refine hcounts.trans (and_iff_left fun hno => ?_).symm
      rw [hs] at hno
      cases hno
    | whole href hs hno =>
      rw [halloc] at hno
      cases hno
    | noBuffer href hs halloc hno hsdu hquiet =>
      rw [hroom] at hno
      cases hno
    | first href hs halloc hroom' hcredits hs' hsdu hseg hchan hdel hfaults =>
      obtain rfl := mem_unique hroom hroom'
      obtain ⟨hstored, hpayload, hbuffer, hann⟩ := Rx.fields_of_none hs env buf
      have hcounts := hseg.counts_iff hpos hlen' fun hne => absurd rfl hne
      rw [hstored, hpayload, hbuffer, hann, hroom, getD_some, counts_congr hdel hfaults,
        ← hsdu]
      refine hcounts.trans (and_iff_left fun _ hlt => ?_).symm
      -- A first K-frame that is too long is taken to need credits.
      refine hcredits.resolve_left fun hzero => ?_
      rw [← hsdu, extraCredits, if_neg (Nat.not_le.2 hlt)] at hzero
      have hone := one_le_ceilDiv (mps_pos href hs) hpos'
      omega
    | shut href hs halloc hroom' hcredits hextra hsdu hquiet =>
      obtain rfl := mem_unique hroom hroom'
      obtain ⟨hstored, hpayload, hbuffer, hann⟩ := Rx.fields_of_none hs env buf
      rw [hstored, hpayload, hbuffer, hann, counts_of_quiet hquiet, Nat.zero_add]
      constructor
      · intro hlt
        refine ⟨fun _ hge => ?_, fun _ hlong => ?_⟩
        · have hdata : (SduBuf.ofRoom (env.alloc.getD 0)).data.length = 0 := rfl
          omega
        · omega
      · rintro ⟨-, hlong⟩
        by_contra hge
        rcases Nat.lt_or_ge (getLe16 buf) (buf.drop 2).length with hlt | hle
        · have hyes := hlong hs hlt
          rw [hcredits] at hyes
          cases hyes
        · -- Nothing is missing, so no credits are given.
          have heq : getLe16 buf - (buf.drop 2).length = 0 := by omega
          rw [extraCredits, if_pos hle, heq, Nat.zero_min, zero_ceilDiv] at hextra
          exact hextra rfl

/-- **An SDU is complete, or too long, by its bytes in all buffers exactly while
the first buffer tells.** In any run of the receive side from a channel that has
no SDU under way, of each K-frame that finds buffers with room. -/
theorem fragments_exact_iff (ch : Chan) (hsdu : ch.sdu = none) (ops : List RxOp) :
    Along Rx.step (fun r op => Supplied r op → FragmentsExact r op) ⟨ch, 0⟩ ops ↔
      Along Rx.step (fun r op => Supplied r op → FirstBufferTells r op) ⟨ch, 0⟩ ops := by
  have hinit : Part (⟨ch, 0⟩ : Rx).announced (⟨ch, 0⟩ : Rx).chan := part_none hsdu
  constructor
  · intro h
    exact inv_along (fun r => Part r.announced r.chan) (fun r op hr hop =>
      ⟨part_step hr op, fun hsup => (fragmentsExact_iff hr op hsup).1 (hop hsup)⟩) hinit h
  · intro h
    exact inv_along (fun r => Part r.announced r.chan) (fun r op hr hop =>
      ⟨part_step hr op, fun hsup => (fragmentsExact_iff hr op hsup).2 (hop hsup)⟩) hinit h

/-- A channel with buffers of its own. -/
def bufferChan : Chan := { state := .connected, attached := true, rx := ⟨0x40, 100, 100, 1⟩ }

/-- The three bytes of an SDU, in two K-frames, and a buffer with room for
three. -/
theorem fragments_exact_iff_two :
    let ops : List RxOp := [.kframe { alloc := some 3, frags := [1, 1, 1] } [3, 0, 0xaa],
      .kframe { alloc := some 3, frags := [1, 1] } [0xbb, 0xcc]]
    ((bufferChan.leRecv { alloc := some 3, frags := [1, 1, 1] } [3, 0, 0xaa]).chan.leRecv
        { alloc := some 3, frags := [1, 1] } [0xbb, 0xcc]).delivered = [[0xaa, 0xbb, 0xcc]] ∧
      Along Rx.step (fun r op => Supplied r op → FragmentsExact r op) ⟨bufferChan, 0⟩ ops := by
  refine ⟨by decide, (fragments_exact_iff bufferChan rfl _).2
    ⟨fun _ => ⟨?_, fun _ _ => rfl⟩, fun _ => ⟨?_, fun _ _ => rfl⟩, trivial⟩⟩
  · decide
  · decide

/-- **A first buffer with room for one byte.** The second byte goes into a
buffer behind it, and the SDU is never complete. -/
theorem not_fragments_exact :
    ¬ Along Rx.step (fun r op => Supplied r op → FragmentsExact r op) ⟨bufferChan, 0⟩
      [.kframe { alloc := some 1, frags := [1, 1, 1, 1] } [2, 0, 0xaa, 0xbb]] ∧
      (bufferChan.leRecv { alloc := some 1, frags := [1, 1, 1, 1] } [2, 0, 0xaa, 0xbb]).delivered =
        [] := by
  refine ⟨fun h => ?_, by decide⟩
  have hsup : Supplied ⟨bufferChan, 0⟩
      (.kframe { alloc := some 1, frags := [1, 1, 1, 1] } [2, 0, 0xaa, 0xbb]) := by
    refine ⟨?_, rfl, ⟨1, rfl, Nat.one_pos⟩, by decide, by decide⟩
    unfold Chan.refuses
    decide
  exact (h.1 hsup).1.2 rfl (by decide)

end L2cap

end OpenBlue

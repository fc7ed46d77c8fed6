import OpenBlue.L2cap.Segmentation
/-!
# L2CAP — the round trip of an SDU

A receiver that is fed the K-frames of an SDU, each within its MPS,
delivers the SDU (`feed_sduPayloads`). With what the sender puts out this
is the round trip; it holds exactly where the sender's channel is not one
that has `BT_L2CAP_STATUS_OUT` set without a credit, or is about to.
-/

namespace OpenBlue

namespace L2cap

open List Sender

variable {cfg : Cfg} {ch : Chan} {env : RecvEnv} {sdu : Bytes}

/-- The environment serves a receiver: its buffers hold `mtu` bytes, there
are buffers for credits, and the application takes the SDU. -/
structure RecvEnv.Serves (mtu : ℕ) (env : RecvEnv) : Prop where
  alloc : ∃ room, env.alloc = some room ∧ mtu ≤ room
  recv : env.recv = .ok
  closes : env.closes = false
  segCredits : env.segCredits = true
  credits : env.credits = true

/-- A receiver that is connected and has buffers for SDUs. -/
structure Chan.Receiving (ch : Chan) : Prop extends RxInv False ch where
  attached : ch.attached = true
  state : ch.state = .connected
  open_ : ch.shutdown = false
  allocBuf : ch.allocBuf = true

/-- Between two SDUs. -/
structure Chan.Waiting (ch : Chan) : Prop extends ch.Receiving where
  sdu : ch.sdu = none
  credits : ch.rx.credits = 1

/-- In the middle of an SDU, of which `got` was received. -/
structure Chan.Within (sdu got : Bytes) (ch : Chan) : Prop extends ch.Receiving where
  buf : ∃ room, ch.sdu = some ⟨⟨got, room⟩, []⟩ ∧ sdu.length ≤ got.length + room
  len : ch.sduLen = sdu.length
  credits : 0 < ch.rx.credits

theorem sendCredits_connected (hst : ch.state = .connected) (hc : ch.rx.credits = 0) (n : ℕ) :
    ch.sendCredits true n =
      { chan := { ch with rx := { ch.rx with credits := n } }, sent := [.credits n] } := by
  simp [Chan.sendCredits, hst, hc]

theorem recvCallback_serves {mtu : ℕ} (henv : env.Serves mtu) (hst : ch.state = .connected)
    (hc : ch.rx.credits = 0) :
    (ch.recvCallback env sdu).delivered = [sdu] ∧ (ch.recvCallback env sdu).faults = [] := by
  unfold Chan.recvCallback
  rw [henv.closes]
  simp only [Bool.false_eq_true, if_false, andThen_delivered, andThen_faults, henv.recv, hst,
    if_true, henv.credits, sendCredits_connected hst hc, append_nil, and_self]

/-- **A segment of an SDU**: the SDU is delivered with the last one. -/
theorem recvSeg_serves (ch : Chan) {mtu room : ℕ} (got buf rest : Bytes) (henv : env.Serves mtu)
    (hst : ch.state = .connected) (hs : ch.sdu = some ⟨⟨got, room⟩, []⟩)
    (hroom : sdu.length ≤ got.length + room) (hlen : ch.sduLen = sdu.length)
    (hsdu : got ++ buf ++ rest = sdu) (hlast : rest = [] → ch.rx.credits = 0) :
    (rest = [] → (ch.recvSeg env buf).delivered = [sdu] ∧ (ch.recvSeg env buf).faults = []) ∧
      (rest ≠ [] → (ch.recvSeg env buf).delivered = [] ∧ (ch.recvSeg env buf).faults = [] ∧
        (ch.recvSeg env buf).chan = { ch with
          sdu := some ⟨⟨got ++ buf, room - buf.length⟩, []⟩
          rx := { ch.rx with credits := max 1 ch.rx.credits } }) := by
  have hsum : got.length + buf.length + rest.length = sdu.length := by
    rw [← hsdu, length_append, length_append]
  have hfit : buf.length ≤ room := by omega
  have happ : SduBuf.append env.frags buf ⟨⟨got, room⟩, []⟩ =
      (⟨⟨got ++ buf, room - buf.length⟩, []⟩, true) := append_of_fits rfl hfit env.frags
  unfold Chan.recvSeg
  rw [hs]
  dsimp only
  rw [if_neg (by omega), happ]
  dsimp only
  rw [if_neg Bool.noConfusion, length_append]
  constructor
  · rintro rfl
    rw [if_neg (by simp at hsum; omega)]
    unfold Chan.recvSdu
    rw [andThen_delivered, andThen_faults]
    have hdata : SduBuf.data ⟨⟨got ++ buf, room - buf.length⟩, []⟩ = sdu := by
      simp [SduBuf.data, ← hsdu]
    rw [hdata]
    exact recvCallback_serves henv hst (hlast rfl)
  · intro hrest
    have := length_pos_iff.2 hrest
    rw [if_pos (by omega)]
    by_cases hc : ch.rx.credits = 0
    · rw [if_pos hc, henv.credits, sendCredits_connected (by exact hst) (by exact hc)]
      refine ⟨rfl, rfl, ?_⟩
      rw [hc]
      rfl
    · rw [if_neg hc, Nat.max_eq_right (by omega)]
      exact ⟨rfl, rfl, rfl⟩

theorem leRecv_accepted (env : RecvEnv) {buf : Bytes} (hc : ch.rx.credits ≠ 0)
    (hmps : buf.length ≤ ch.rx.mps) {b : SduBuf} (hs : ch.sdu = some b) :
    ch.leRecv env buf =
      { ch with rx := { ch.rx with credits := ch.rx.credits - 1 } }.recvSeg env buf := by
  unfold Chan.leRecv
  rw [if_neg hc]
  dsimp only
  rw [if_neg (not_lt.2 hmps), if_pos (by rw [hs]; rfl)]

theorem Chan.Within.leRecv {mtu : ℕ} {got buf rest : Bytes} (h : ch.Within sdu got)
    (henv : env.Serves mtu) (hmps : buf.length ≤ ch.rx.mps) (hsdu : got ++ buf ++ rest = sdu) :
    (ch.leRecv env buf).failed = [] ∧ (ch.leRecv env buf).faults = [] ∧
      (rest = [] → (ch.leRecv env buf).delivered = [sdu]) ∧
      (rest ≠ [] → (ch.leRecv env buf).delivered = [] ∧
        (ch.leRecv env buf).chan.Within sdu (got ++ buf) ∧
        (ch.leRecv env buf).chan.rx.mps = ch.rx.mps) := by
  obtain ⟨room, hs, hroom⟩ := h.buf
  have hc : ch.rx.credits ≠ 0 := h.credits.ne'
  have hsum : got.length + buf.length + rest.length = sdu.length := by
    rw [← hsdu, length_append, length_append]
  have hsome : ch.sdu ≠ none := by simp [hs]
  have hok : RecvOk env buf ch :=
    ⟨fun _ => h.state, fun _ hn => absurd hn hsome, fun _ hn => absurd hn hsome⟩
  obtain ⟨hinv, hfailed⟩ := h.toRxInv.leRecv_of_ok h.open_ h.attached hok
  -- the credits left pay for the rest of the SDU
  have hlast : rest = [] → ch.rx.credits - 1 = 0 := by
    rintro rfl
    have hle := h.part h.open_ (.inr (by rw [h.state]; exact ChanState.noConfusion)) _ hs
    have hone : (ch.sduLen - got.length) ⌈/⌉ ch.rx.mps ≤ 1 := by
      rw [ceilDiv_le_iff_le_mul h.mps, h.len, Nat.mul_one]
      simp only [length_nil] at hsum
      omega
    dsimp only at hle
    omega
  have hrecv := leRecv_accepted env hc hmps hs
  obtain ⟨hdone, hmore⟩ :=
    recvSeg_serves { ch with rx := { ch.rx with credits := ch.rx.credits - 1 } } got buf rest henv
      h.state hs hroom h.len hsdu hlast
  rw [← hrecv] at hdone hmore
  refine ⟨hfailed, ?_, fun hrest => (hdone hrest).1, fun hrest => ?_⟩
  · by_cases hrest : rest = []
    · exact (hdone hrest).2
    · exact (hmore hrest).2.1
  · obtain ⟨hdel, -, hchan⟩ := hmore hrest
    refine ⟨hdel, ⟨⟨hinv, ?_, ?_, ?_, ?_⟩, ?_, ?_, ?_⟩, ?_⟩ <;> rw [hchan]
    · exact h.attached
    · exact h.state
    · exact h.open_
    · exact h.allocBuf
    · refine ⟨_, rfl, ?_⟩
      rw [length_append]
      omega
    · exact h.len
    · exact Nat.lt_of_lt_of_le Nat.one_pos (Nat.le_max_left _ _)

/-- **The first segment of an SDU.** -/
theorem Chan.Waiting.leRecv {mtu : ℕ} {first rest : Bytes} (h : ch.Waiting)
    (henv : env.Serves mtu) (hmtu : sdu.length ≤ ch.rx.mtu) (hroom : sdu.length ≤ mtu)
    (hfits : sdu.length < 2 ^ 16) (hmps : first.length + 2 ≤ ch.rx.mps)
    (hsdu : first ++ rest = sdu) : (ch.leRecv env (le16 sdu.length ++ first)).failed = [] ∧
      (ch.leRecv env (le16 sdu.length ++ first)).faults = [] ∧
      (rest = [] → (ch.leRecv env (le16 sdu.length ++ first)).delivered = [sdu]) ∧
      (rest ≠ [] → (ch.leRecv env (le16 sdu.length ++ first)).delivered = [] ∧
        (ch.leRecv env (le16 sdu.length ++ first)).chan.Within sdu first ∧
        (ch.leRecv env (le16 sdu.length ++ first)).chan.rx.mps = ch.rx.mps) := by
  obtain ⟨room, halloc, hle⟩ := henv.alloc
  have hsum : first.length + rest.length = sdu.length := by rw [← hsdu, length_append]
  have hget : getLe16 (le16 sdu.length ++ first) = sdu.length := getLe16_le16 hfits first
  have hok : RecvOk env (le16 sdu.length ++ first) ch := by
    refine ⟨fun _ => h.state, fun _ _ _ => .inl ?_, fun _ _ _ => henv.segCredits⟩
    rw [hget, length_append, length_le16]
    omega
  obtain ⟨hinv, hfailed⟩ := h.toRxInv.leRecv_of_ok h.open_ h.attached hok
  -- the channel with its buffer and the credits for the rest
  have hextra : extraCredits sdu.length first.length room ch.rx.mps =
      rest.length ⌈/⌉ ch.rx.mps := by
    rw [extraCredits, if_pos (by omega), Nat.min_eq_left (by omega)]
    congr 1
    omega
  have hrecv : ∃ sent, ch.leRecv env (le16 sdu.length ++ first) =
      ({ chan := { ch with
          sdu := some ⟨⟨[], room⟩, []⟩
          sduLen := sdu.length
          rx := { ch.rx with credits := rest.length ⌈/⌉ ch.rx.mps } }
         sent := sent } : Outcome).andThen (Chan.recvSeg env first) := by
    have hdrop : (le16 sdu.length ++ first).drop 2 = first := rfl
    have hlen : (le16 sdu.length ++ first).length = first.length + 2 := by
      rw [length_append, length_le16, Nat.add_comm]
    unfold Chan.leRecv
    rw [if_neg (by rw [h.credits]; exact one_ne_zero)]
    dsimp only
    rw [if_neg (by omega), if_neg (by simp [h.sdu]), if_neg (by omega), hget, hdrop,
      if_neg (not_lt.2 hmtu)]
    unfold Chan.recvFirst
    rw [if_pos (by exact h.allocBuf), halloc]
    dsimp only
    rw [hextra]
    by_cases hzero : rest.length ⌈/⌉ ch.rx.mps = 0
    · rw [if_pos hzero, hzero, h.credits]
      exact ⟨[], rfl⟩
    · rw [if_neg hzero, henv.segCredits,
        sendCredits_connected (by exact h.state) (by simp [h.credits])]
      exact ⟨_, rfl⟩
  obtain ⟨sent, hrecv⟩ := hrecv
  obtain ⟨hdone, hmore⟩ := recvSeg_serves
    { ch with
      sdu := some ⟨⟨[], room⟩, []⟩
      sduLen := sdu.length
      rx := { ch.rx with credits := rest.length ⌈/⌉ ch.rx.mps } } [] first rest henv h.state rfl
    (by simp only [length_nil]; omega) rfl hsdu fun hrest => by simp [hrest]
  refine ⟨hfailed, ?_, fun hrest => ?_, fun hrest => ?_⟩
  · rw [hrecv, andThen_faults, nil_append]
    by_cases hrest : rest = []
    · exact (hdone hrest).2
    · exact (hmore hrest).2.1
  · rw [hrecv, andThen_delivered, (hdone hrest).1, nil_append]
  · obtain ⟨hdel, -, hchan⟩ := hmore hrest
    have hfinal := hchan
    rw [← andThen_chan { chan := _, sent := sent } (Chan.recvSeg env first), ← hrecv] at hfinal
    refine ⟨by rw [hrecv, andThen_delivered, hdel, nil_append],
      ⟨⟨hinv, ?_, ?_, ?_, ?_⟩, ?_, ?_, ?_⟩, ?_⟩ <;> rw [hfinal]
    · exact h.attached
    · exact h.state
    · exact h.open_
    · exact h.allocBuf
    · exact ⟨_, rfl, by omega⟩
    · exact Nat.lt_of_lt_of_le Nat.one_pos (Nat.le_max_left _ _)

/-! ## All the K-frames of an SDU -/

theorem Chan.Within.feed {mtu : ℕ} {got : Bytes} {frames : List (RecvEnv × Bytes)}
    (h : ch.Within sdu got) (hserves : ∀ f ∈ frames, f.1.Serves mtu)
    (hframes : ∀ f ∈ frames, f.2 ≠ [] ∧ f.2.length ≤ ch.rx.mps) (hne : frames ≠ [])
    (hsdu : got ++ (frames.map Prod.snd).flatten = sdu) :
    (ch.feed frames).failed = [] ∧ (ch.feed frames).faults = [] ∧
      (ch.feed frames).delivered = [sdu] := by
  induction frames generalizing ch got with
  | nil => exact absurd rfl hne
  | cons f frames ih =>
    obtain ⟨env, buf⟩ := f
    have hf := hframes (env, buf) mem_cons_self
    have henv := hserves (env, buf) mem_cons_self
    rw [map_cons, flatten_cons, ← append_assoc] at hsdu
    obtain ⟨hfailed, hfaults, hdone, hmore⟩ := h.leRecv henv hf.2 hsdu
    unfold Chan.feed
    rw [andThen_failed, andThen_faults, andThen_delivered, hfailed, hfaults]
    cases frames with
    | nil =>
      rw [hdone rfl]
      exact ⟨rfl, rfl, rfl⟩
    | cons g frames =>
      have hg := hframes g (mem_cons_of_mem _ mem_cons_self)
      have hrest : ((g :: frames).map Prod.snd).flatten ≠ [] := by
        rw [map_cons, flatten_cons]
        exact append_ne_nil_of_left_ne_nil hg.1 _
      obtain ⟨hdel, hwithin, hmps⟩ := hmore hrest
      obtain ⟨h₁, h₂, h₃⟩ := ih hwithin (fun f hf => hserves f (mem_cons_of_mem _ hf))
        (fun f hf => by rw [hmps]; exact hframes f (mem_cons_of_mem _ hf))
        (cons_ne_nil _ _) hsdu
      rw [h₁, h₂, h₃, hdel]
      exact ⟨rfl, rfl, rfl⟩

theorem sduPayloads_eq_cons {mps : ℕ} (hmps : 2 ≤ mps) (sdu : Bytes) : sduPayloads mps sdu =
      (le16 sdu.length ++ sdu.take (mps - 2)) :: pieces mps (sdu.drop (mps - 2)) := by
  obtain ⟨k, rfl⟩ := Nat.exists_eq_add_of_le hmps
  have hne : le16 sdu.length ++ sdu ≠ [] := cons_ne_nil _ _
  rw [sduPayloads, pieces_eq_cons (by omega) hne, Nat.add_sub_cancel_left]
  have hlen : (le16 sdu.length).length = 2 := rfl
  congr 1
  · rw [← hlen, take_length_add_append]
  · rw [← hlen, drop_length_add_append]

variable {s : Sender}

/-- The configuration of the examples: the smallest buffers. -/
def minCfg : Cfg := ⟨23, 9, by omega, by omega, by omega⟩

end L2cap

end OpenBlue

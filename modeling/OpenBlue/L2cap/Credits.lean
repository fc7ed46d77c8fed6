import OpenBlue.L2cap.Model.Pair
import OpenBlue.L2cap.RoundTrip
/-!
# L2CAP — credits between two ends

One direction of a channel between two ends: a sender, the K-frames and
the credit PDUs on the link, and a receiver (`Dir`). The credits the
receiver has given are those the sender has, those on their way to it and
those used by K-frames that are not processed yet. The receiver gives
credits only when the sender has used all of them, because the K-frames
in line are those of whole SDUs (`advance`).
-/

namespace OpenBlue

namespace L2cap

open List Chan ChanSig

variable {s : Sender} {r ch ch' : Chan} {env : RecvEnv} {buf : Bytes} {pdus : List ℕ}

/-! ## K-frames in line -/

/-- What a K-frame leaves missing of an SDU of which `need` bytes are
missing; 0 is between two SDUs. -/
def advance (mps mtu need : ℕ) (p : Bytes) : Option ℕ :=
  if mps < p.length then none
  else if need = 0 then
    if 2 ≤ p.length ∧ getLe16 p ≤ mtu ∧ p.length - 2 ≤ getLe16 p then
      some (getLe16 p - (p.length - 2))
    else none
  else if p.length ≤ need then some (need - p.length) else none

variable {mps mtu m : ℕ}

theorem advance_pieces (hm : 0 < m) (hle : m ≤ mps) (l : Bytes) :
    (pieces m l).foldlM (advance mps mtu) l.length = some 0 := by
  induction h : l.length using Nat.strong_induction_on generalizing l with
  | _ n ih =>
    by_cases hl : l = []
    · subst hl
      rw [pieces_nil, foldlM_nil]
      simp at h
      rw [← h]
      rfl
    · have hpos : 0 < l.length := length_pos_iff.2 hl
      have hstep : advance mps mtu n (l.take m) = some (l.drop m).length := by
        rw [advance, length_take, length_drop, if_neg (by omega), if_neg (by omega),
          if_pos (by omega), ← h]
        congr 1
        omega
      rw [pieces_eq_cons hm hl, foldlM_cons, hstep]
      exact ih _ (by rw [length_drop]; omega) _ rfl

/-- **The K-frames of an SDU** lead from the end of one SDU to the end of
the next. -/
theorem advance_sduPayloads (hm : 2 ≤ m) (hle : m ≤ mps) {sdu : Bytes} (hmtu : sdu.length ≤ mtu)
    (hfits : sdu.length < 2 ^ 16) : (sduPayloads m sdu).foldlM (advance mps mtu) 0 = some 0 := by
  have hget := getLe16_le16 hfits (sdu.take (m - 2))
  have hfirst : advance mps mtu 0 (le16 sdu.length ++ sdu.take (m - 2)) =
      some (sdu.drop (m - 2)).length := by
    rw [advance, hget, length_append, length_le16, length_take, length_drop,
      if_neg (by omega), if_pos rfl, if_pos (by omega)]
    congr 1
    omega
  rw [sduPayloads_eq_cons hm, foldlM_cons, hfirst]
  exact advance_pieces (by omega) hle _

theorem advance_zero {p : Bytes} {n : ℕ} (h : advance mps mtu 0 p = some n) :
    p.length ≤ mps ∧ 2 ≤ p.length ∧ getLe16 p ≤ mtu ∧ p.length - 2 ≤ getLe16 p ∧
      n = getLe16 p - (p.length - 2) := by
  unfold advance at h
  split at h
  · cases h
  · rw [if_pos rfl] at h
    split at h
    next hle hp =>
      cases h
      exact ⟨not_lt.1 hle, hp.1, hp.2.1, hp.2.2, rfl⟩
    · cases h

theorem advance_pos {p : Bytes} {need n : ℕ} (hneed : 0 < need)
    (h : advance mps mtu need p = some n) :
    p.length ≤ mps ∧ p.length ≤ need ∧ n = need - p.length := by
  unfold advance at h
  split at h
  · cases h
  · rw [if_neg hneed.ne'] at h
    split at h
    next hle hp =>
      cases h
      exact ⟨not_lt.1 hle, hp, rfl⟩
    · cases h

/-! ## The receiver in step with the line -/

/-- The SDU has more than one fragment, or none of its bytes will go into
the head any more: it will never be complete. -/
def SduBuf.Stuck (b : SduBuf) : Prop := b.head.room = 0 ∨ b.chained ≠ []

/-- The receiver is where the line is: `Q need` says that the line goes on
from an SDU of which `need` bytes are missing. -/
structure SyncAt (Q : ℕ → Prop) (ch : Chan) : Prop where
  idle : ch.sdu = none → ch.rx.credits ≠ 0 ∨ ch.held ≠ 0 → Q 0
  part : ∀ b, ch.sdu = some b → b.head.data.length < ch.sduLen ∧
    (Q (ch.sduLen - b.head.data.length) ∨ b.Stuck)

variable {Q : ℕ → Prop} {b : SduBuf}

theorem append_stuck (hb : b.Stuck) (buf : Bytes) (frags : List ℕ) :
    (b.append frags buf).1.head.data = b.head.data ∧ (b.append frags buf).1.Stuck := by
  by_cases hchained : b.chained = []
  · have hroom : b.head.room = 0 := hb.resolve_right (absurd hchained)
    obtain ⟨head, chained⟩ := b
    dsimp only at hchained hroom
    subst hchained
    unfold SduBuf.append
    simp only [SduBuf.room, hroom, drop_zero, SduBuf.add, Frag.add, take_zero,
      append_nil, Nat.zero_sub]
    split
    · exact ⟨rfl, .inl rfl⟩
    · split
      · exact ⟨rfl, .inl rfl⟩
      · rw [head_append_of_chained (cons_ne_nil _ _)]
        exact ⟨rfl, .inr (chained_append (cons_ne_nil _ _))⟩
  · rw [head_append_of_chained hchained]
    exact ⟨rfl, .inr (chained_append hchained)⟩

theorem append_of_lt (hchained : b.chained = []) (hlt : b.head.room < buf.length) (frags : List ℕ) :
    (b.append frags buf).1.Stuck ∧
      (b.append frags buf).1.head.data.length < b.head.data.length + buf.length := by
  obtain ⟨head, chained⟩ := b
  dsimp only at hchained hlt
  subst hchained
  have hlen : (head.add buf).data.length < head.data.length + buf.length := by
    simp only [Frag.add, length_append, length_take]
    omega
  have hroom : (head.add buf).room = 0 := Nat.sub_eq_zero_of_le hlt.le
  have hrest : buf.drop (SduBuf.room ⟨head, []⟩) ≠ [] := by
    rw [ne_eq, drop_eq_nil_iff]
    exact not_le.2 hlt
  unfold SduBuf.append
  dsimp only
  rw [if_neg hrest]
  split
  · exact ⟨.inl hroom, hlen⟩
  · rw [head_append_of_chained (cons_ne_nil _ _)]
    exact ⟨.inr (chained_append (cons_ne_nil _ _)), hlen⟩

/-- **A segment added to an SDU** goes into the head as a whole, or leaves
the SDU stuck. -/
theorem append_cases (b : SduBuf) (buf : Bytes) (frags : List ℕ) : ((b.append frags buf).2 = true ∧
        (b.append frags buf).1.head.data.length = b.head.data.length + buf.length) ∨
      ((b.append frags buf).1.Stuck ∧
        (b.append frags buf).1.head.data.length < b.head.data.length + buf.length) := by
  by_cases hnil : buf = []
  · left
    subst hnil
    have hdrop : ([] : Bytes).drop b.room = [] := drop_nil
    unfold SduBuf.append
    simp only [hdrop, if_true, true_and]
    unfold SduBuf.add
    split
    · simp [Frag.add]
    · simp
  · have hpos := length_pos_iff.2 hnil
    by_cases hstuck : b.Stuck
    · obtain ⟨hdata, hstuck'⟩ := append_stuck hstuck buf frags
      exact .inr ⟨hstuck', by rw [hdata]; omega⟩
    · have hchained : b.chained = [] := by
        by_contra hne
        exact hstuck (.inr hne)
      rcases Nat.lt_or_ge b.head.room buf.length with hlt | hle
      · exact .inr (append_of_lt hchained hlt frags)
      · rw [append_of_fits hchained hle, length_append]
        exact .inl ⟨rfl, rfl⟩

theorem SyncAt.disconnectFor (h : SyncAt Q ch) (fault : Fault) (disc : Option UInt8) :
    SyncAt Q (ch.disconnectFor fault disc).chan := by
  unfold Chan.disconnectFor disconnect
  dsimp only
  split
  · exact h
  · split
    · exact ⟨h.idle, h.part⟩
    · exact h

theorem syncAt_of_none (hsdu : ch.sdu = none) (hQ : Q 0) : SyncAt Q ch :=
  ⟨fun _ _ => hQ, fun b hb => by rw [hsdu] at hb; cases hb⟩

/-- A segment keeps the receiver in step. -/
theorem syncAt_recvSeg (env : RecvEnv) (hs : ch.sdu = some b)
    (hq : b.head.data.length + buf.length ≤ ch.sduLen ∧
        Q (ch.sduLen - (b.head.data.length + buf.length)) ∨
      b.Stuck ∧ b.head.data.length < ch.sduLen)
    (hopen : (ch.recvSeg env buf).chan.shutdown = false) : SyncAt Q (ch.recvSeg env buf).chan := by
  unfold recvSeg at hopen ⊢
  rw [hs] at hopen ⊢
  dsimp only at hopen ⊢
  split at hopen
  next hlong =>
    rw [if_pos hlong]
    obtain ⟨hstuck, hlt⟩ := hq.resolve_left fun h => absurd h.1 (not_le.2 hlong)
    refine SyncAt.disconnectFor ⟨fun hn => ?_, fun b' hb' => ?_⟩ _ _
    · rw [hs] at hn
      cases hn
    · rw [hs] at hb'
      cases hb'
      exact ⟨hlt, .inr hstuck⟩
  next hfits =>
    rw [if_neg hfits]
    generalize happ : b.append env.frags buf = a at hopen ⊢
    have hcases := append_cases b buf env.frags
    rw [happ] at hcases
    -- the SDU with the segment in it, where more is to come
    have hmid : a.1.head.data.length < ch.sduLen →
        SyncAt Q { ch with sdu := some a.1 } := fun hlt => by
      refine ⟨fun hn => by (cases hn), fun b' hb' => ?_⟩
      cases hb'
      refine ⟨hlt, ?_⟩
      rcases hcases with ⟨-, hlen⟩ | ⟨hstuck, -⟩
      · rcases hq with ⟨-, hq⟩ | ⟨hstuck, -⟩
        · exact .inl (by rw [hlen]; exact hq)
        · exact .inr (happ ▸ (append_stuck hstuck buf env.frags).2)
      · exact .inr hstuck
    split at hopen
    next hstored =>
      rw [if_pos hstored]
      rcases hcases with ⟨hdone, -⟩ | ⟨-, hlt⟩
      · rw [hstored] at hdone
        cases hdone
      · exact (hmid (by omega)).disconnectFor _ _
    next hstored =>
      rw [if_neg hstored]
      split at hopen
      next hlt =>
        rw [if_pos hlt]
        split at hopen
        next hzero =>
          rw [if_pos hzero]
          cases hb : env.credits with
          | true => exact ⟨fun hn => by (cases hn), (hmid hlt).part⟩
          | false =>
            rw [hb] at hopen
            cases hopen
        next hzero =>
          rw [if_neg hzero]
          exact hmid hlt
      next hge =>
        rw [if_neg hge]
        refine syncAt_of_none ((handClosed_sameSdu.recvCallback env _ _).none rfl) ?_
        rcases hcases with ⟨-, hlen⟩ | ⟨-, hlt⟩
        · rcases hq with ⟨hle, hq⟩ | ⟨hstuck, hlt⟩
          · have hzero : ch.sduLen - (b.head.data.length + buf.length) = 0 := by omega
            rwa [hzero] at hq
          · have := (append_stuck hstuck buf env.frags).1
            rw [happ] at this
            rw [this] at hge
            omega
        · omega

/-- The line goes on with a K-frame. -/
def Next (Q : ℕ → Prop) (mps mtu : ℕ) (buf : Bytes) (need : ℕ) : Prop :=
  ∃ need', advance mps mtu need buf = some need' ∧ Q need'

theorem syncAt_recvFirst (env : RecvEnv) {sduLen : ℕ} (hs : ch.sdu = none)
    (hcredits : ch.rx.credits = 0) (hheld : ch.held = 0) (halloc : ch.allocBuf = true)
    (hlen : buf.length ≤ sduLen) (hq : Q (sduLen - buf.length))
    (hopen : (ch.recvFirst env sduLen buf).chan.shutdown = false) :
    SyncAt Q (ch.recvFirst env sduLen buf).chan := by
  unfold recvFirst at hopen ⊢
  rw [if_pos halloc] at hopen ⊢
  cases henv : env.alloc with
  | none =>
    refine SyncAt.disconnectFor ⟨fun _ hne => ?_, fun b hb => ?_⟩ _ _
    · exact absurd hne (by omega)
    · rw [hs] at hb
      cases hb
  | some room =>
    rw [henv] at hopen
    dsimp only at hopen ⊢
    have hseg : ∀ n, (recvSeg env buf { ch with
          sdu := some ⟨⟨[], room⟩, []⟩, sduLen := sduLen, rx := { ch.rx with credits := n } }
            ).chan.shutdown = false →
        SyncAt Q (recvSeg env buf { ch with
          sdu := some ⟨⟨[], room⟩, []⟩, sduLen := sduLen, rx := { ch.rx with credits := n } }
            ).chan := fun n hn =>
      syncAt_recvSeg env (b := ⟨⟨[], room⟩, []⟩) rfl (.inl (by simpa using ⟨hlen, hq⟩)) hn
    split at hopen
    next hzero =>
      rw [if_pos hzero]
      exact hseg ch.rx.credits hopen
    next hzero =>
      rw [if_neg hzero]
      cases hbuf : env.segCredits with
      | true =>
        rw [hbuf] at hopen
        exact hseg _ hopen
      | false =>
        -- the channel is shut down before the segment is stored
        rw [hbuf] at hopen
        cases hopen

/-- **A K-frame keeps the receiver in step with the line.** -/
theorem syncAt_leRecv (h : RxInv True ch) (hopen : ch.shutdown = false)
    (hcredit : ch.rx.credits ≠ 0) (halloc : ch.allocBuf = true)
    (hsync : SyncAt (Next Q ch.rx.mps ch.rx.mtu buf) ch)
    (hopen' : (ch.leRecv env buf).chan.shutdown = false) : SyncAt Q (ch.leRecv env buf).chan := by
  have hheld : ch.held = 0 := by
    by_contra hh
    exact hcredit (h.held hh).2
  cases hs : ch.sdu with
  | none =>
    have hzero : ch.rx.credits - 1 = 0 := Nat.sub_eq_zero_of_le (h.idle hopen hs)
    obtain ⟨need, hstep, hq⟩ := hsync.idle hs (.inl hcredit)
    obtain ⟨hmps, hshort, hmtu, hlen, rfl⟩ := advance_zero hstep
    unfold leRecv at hopen' ⊢
    rw [if_neg hcredit] at hopen' ⊢
    dsimp only at hopen' ⊢
    rw [if_neg (not_lt.2 hmps), if_neg (by simp [hs]), if_neg (not_lt.2 hshort),
      if_neg (not_lt.2 hmtu)] at hopen' ⊢
    refine syncAt_recvFirst env (by exact hs) (by exact hzero) (by exact hheld)
      (by exact halloc) ?_ ?_ hopen'
    · rwa [length_drop]
    · rwa [length_drop]
  | some b =>
    obtain ⟨hlt, hline⟩ := hsync.part b hs
    unfold leRecv at hopen' ⊢
    rw [if_neg hcredit] at hopen' ⊢
    dsimp only at hopen' ⊢
    split at hopen'
    next hlong =>
      rw [if_pos hlong]
      refine SyncAt.disconnectFor ⟨fun hn => by simp [hs] at hn, fun b' hb' => ?_⟩ _ _
      have hbb : b' = b := by simpa [hs] using hb'.symm
      rw [hbb]
      refine ⟨hlt, hline.imp_left fun hnext => ?_⟩
      obtain ⟨need, hstep, -⟩ := hnext
      exact absurd (advance_pos (Nat.sub_pos_of_lt hlt) hstep).1 (not_le.2 hlong)
    next hmps =>
      have hsome : ch.sdu.isSome = true := by rw [hs]; rfl
      rw [if_neg hmps, if_pos hsome]
      rw [if_pos hsome] at hopen'
      refine syncAt_recvSeg env (by exact hs) ?_ hopen'
      rcases hline with ⟨need, hstep, hq⟩ | hstuck
      · obtain ⟨-, hle, rfl⟩ := advance_pos (Nat.sub_pos_of_lt hlt) hstep
        refine .inl ⟨?_, ?_⟩
        · dsimp only
          omega
        · rwa [Nat.sub_sub] at hq
      · exact .inr ⟨hstuck, hlt⟩

/-! ## Faults of credits -/

/-- No disconnection for credits. -/
def Blameless (faults : List Fault) : Prop :=
  Fault.noCredits ∉ faults ∧ Fault.creditsOverflow ∉ faults

theorem blameless_nil : Blameless [] := ⟨not_mem_nil, not_mem_nil⟩

theorem Blameless.append {l l' : List Fault} (h : Blameless l) (h' : Blameless l') :
    Blameless (l ++ l') :=
  ⟨fun hm => (mem_append.1 hm).elim h.1 h'.1, fun hm => (mem_append.1 hm).elim h.2 h'.2⟩

theorem blameless_recvCallback (env : RecvEnv) (sdu : Bytes) (ch : Chan) :
    Blameless (ch.recvCallback env sdu).faults := by
  unfold recvCallback
  generalize ho : (if env.closes then ch.disconnect env.closeBuf else { chan := ch } : Outcome) = o
  have hclose : o.faults = [] := by
    rw [← ho]
    split
    · exact (disconnect_fields env.closeBuf ch).2.2.2.2.2.2
    · rfl
  rw [andThen_faults]
  dsimp only
  rw [hclose, nil_append]
  split
  · exact ⟨by simp [disconnectFor], by simp [disconnectFor]⟩
  · exact blameless_nil
  · split
    · cases env.credits <;> exact blameless_nil
    · exact blameless_nil

theorem blameless_recvSeg (env : RecvEnv) (buf : Bytes) (ch : Chan) :
    Blameless (ch.recvSeg env buf).faults := by
  unfold recvSeg
  split
  · exact blameless_nil
  · split
    · exact ⟨by simp [disconnectFor], by simp [disconnectFor]⟩
    · dsimp only
      split
      · exact ⟨by simp [disconnectFor], by simp [disconnectFor]⟩
      · split
        · split
          · cases env.credits <;> exact blameless_nil
          · exact blameless_nil
        · exact blameless_recvCallback env _ _

theorem blameless_recvFirst (env : RecvEnv) (sduLen : ℕ) (buf : Bytes) (ch : Chan) :
    Blameless (ch.recvFirst env sduLen buf).faults := by
  unfold recvFirst
  split
  · split
    · exact ⟨by simp [disconnectFor], by simp [disconnectFor]⟩
    · rw [andThen_faults]
      refine .append ?_ (blameless_recvSeg env buf _)
      split
      · exact blameless_nil
      · cases env.segCredits <;> exact blameless_nil
  · exact blameless_recvCallback env buf ch

theorem blameless_leRecv (env : RecvEnv) (buf : Bytes) (hcredit : ch.rx.credits ≠ 0) :
    Blameless (ch.leRecv env buf).faults := by
  unfold leRecv
  rw [if_neg hcredit]
  dsimp only
  split
  · exact ⟨by simp [disconnectFor], by simp [disconnectFor]⟩
  · split
    · exact blameless_recvSeg env buf _
    · split
      · exact ⟨by simp [disconnectFor], by simp [disconnectFor]⟩
      · split
        · exact ⟨by simp [disconnectFor], by simp [disconnectFor]⟩
        · exact blameless_recvFirst env _ _ _

/-! ## One direction -/

/-- The K-frames ahead of the receive queue: those on the link and those to
come. A sender that is shut down sends only a first part of them; a
receiver that disconnects drops them. -/
def Ahead (s : Sender) (r : Chan) (future : List Bytes) : Prop :=
  r.state ≠ .disconnecting →
    ∃ more, (s.chan.shutdown = false → more = s.toCome) ∧ future = s.frames ++ more

/-- The K-frames in line lead a receiver that has `need` bytes of an SDU to
get to the end of an SDU. -/
def Line (s : Sender) (r : Chan) (need : ℕ) : Prop :=
  ∃ future, Ahead s r future ∧
    (r.rxQueue ++ future.map (List.drop 4)).foldlM (advance r.rx.mps r.rx.mtu) need = some 0

/-- The K-frames that are on the link or in the receiver's queue; one that
is under way counts. -/
def inFlight (s : Sender) (r : Chan) : ℕ := s.started + r.rxQueue.length

/-- **One direction of a channel.** `pdus` are the credit PDUs on their
way to the sender. -/
structure Dir (s : Sender) (r : Chan) (pdus : List ℕ) : Prop where
  rx : RxInv True r
  attached : r.attached = true
  wf : s.chan.shutdown = false → s.WF
  gone : s.chan.shutdown = true → s.chan.txQueue = []
  mps_ge : 2 ≤ s.chan.tx.mps
  mps_le : s.chan.tx.mps ≤ r.rx.mps
  mtu : s.chan.tx.mtu ≤ r.rx.mtu
  le : s.chan.tx.credits + pdus.sum + inFlight s r ≤ r.rx.credits
  eq : r.state = .connected → s.chan.tx.credits + pdus.sum + inFlight s r = r.rx.credits
  sync : r.allocBuf = true → r.shutdown = false → SyncAt (Line s r) r

/-- The side of a channel that a receiver has. -/
def Chan.rxSide (ch : Chan) : Chan :=
  { ch with tx := {}, txQueue := [], pduRemaining := 0, out := false }

theorem Dir.rxSide (h : Dir s r pdus) : Dir s r.rxSide pdus :=
  { h with
    rx := { h.rx with }
    sync := fun h₁ h₂ => ⟨(h.sync h₁ h₂).idle, (h.sync h₁ h₂).part⟩ }

theorem Dir.of_rxSide {r' : Chan} (h : Dir s r pdus) (hside : r'.rxSide = r.rxSide) :
    Dir s r' pdus := by
  have h := h.rxSide
  rw [← hside] at h
  exact { h with
    rx := { h.rx with }
    sync := fun h₁ h₂ => ⟨(h.sync h₁ h₂).idle, (h.sync h₁ h₂).part⟩ }

theorem SyncAt.mono {Q' : ℕ → Prop} (h : SyncAt Q ch) (hq : ∀ need, Q need → Q' need) :
    SyncAt Q' ch :=
  ⟨fun h₁ h₂ => hq 0 (h.idle h₁ h₂), fun b hb => ⟨(h.part b hb).1, (h.part b hb).2.imp_left (hq _)⟩⟩

theorem Dir.of_sender (h : Dir s r pdus) (s' : Sender) (hwf : s'.chan.shutdown = false → s'.WF)
    (hgone : s'.chan.shutdown = true → s'.chan.txQueue = [])
    (hmps : s'.chan.tx.mps = s.chan.tx.mps) (hmtu : s'.chan.tx.mtu = s.chan.tx.mtu)
    {pdus' : List ℕ} (hsum : s'.chan.tx.credits + pdus'.sum + s'.started =
      s.chan.tx.credits + pdus.sum + s.started)
    (hline : ∀ need, Line s r need → Line s' r need) : Dir s' r pdus' where
  rx := h.rx
  attached := h.attached
  wf := hwf
  gone := hgone
  mps_ge := hmps ▸ h.mps_ge
  mps_le := hmps ▸ h.mps_le
  mtu := hmtu ▸ h.mtu
  le := by
    have := h.le
    unfold inFlight at this ⊢
    omega
  eq hst := by
    have := h.eq hst
    unfold inFlight at this ⊢
    omega
  sync h₁ h₂ := (h.sync h₁ h₂).mono hline

theorem Dir.of_frame (h : Dir s r pdus) (hf : RxFrame s.chan ch) :
    Dir { s with chan := ch } r pdus := by
  have hsame : ch.shutdown = false → s.chan.shutdown = false ∧ ch.txQueue = s.chan.txQueue := by
    intro hs
    rcases hf.queue with ⟨hq, hs'⟩ | ⟨-, hs'⟩
    · exact ⟨hs'.symm.trans hs, hq⟩
    · rw [hs] at hs'
      cases hs'
  refine h.of_sender _ (fun hs => ?_) (fun hs => ?_) (by rw [hf.tx]) (by rw [hf.tx]) ?_ ?_
  · obtain ⟨hs', hq⟩ := hsame hs
    have hw := h.wf hs'
    refine ⟨hf.tx ▸ hw.cid, hf.tx ▸ hw.mps, hq ▸ hw.queue, fun hz => hw.begun ?_, fun hz => ?_,
      fun ho hz => ?_⟩
    · exact hf.pduRemaining.symm.trans hz
    · obtain ⟨hr, p, rest, hcons, hle⟩ := hw.under (by rw [← hf.pduRemaining]; exact hz)
      exact ⟨hr, p, rest, hq.trans hcons, hf.pduRemaining.trans_le hle⟩
    · exact hf.pduRemaining.trans (hw.idle (hf.out.symm.trans ho) (by rw [← hf.tx]; exact hz))
  · rcases hf.queue with ⟨hq, hs'⟩ | ⟨hq, -⟩
    · exact hq.trans (h.gone (hs'.symm.trans hs))
    · exact hq
  · simp only [Sender.started, hf.tx, hf.pduRemaining]
  · rintro need ⟨future, hahead, hline⟩
    refine ⟨future, fun hst => ?_, hline⟩
    obtain ⟨more, hmore, hfuture⟩ := hahead hst
    refine ⟨more, fun hs => ?_, hfuture⟩
    obtain ⟨hs', hq⟩ := hsame hs
    simp only [hmore hs', Sender.toCome, hq, hf.tx, hf.pduRemaining]

theorem Dir.send (h : Dir s r pdus) (hopen : s.chan.shutdown = false) (cfg : Cfg)
    (buf : SendBuf) : Dir (s.send cfg buf) r pdus := by
  by_cases hacc : (s.chan.dynSend cfg buf).isSome
  · have hs := h.wf hopen
    have hcome := toCome_send hs hacc
    have hwf := hs.send cfg buf
    have hfits : buf.data.length < 2 ^ 16 := lt_of_le_of_lt (Nat.le_add_left _ _) buf.fits
    have hpayloads := advance_sduPayloads h.mps_ge h.mps_le ((dynSend_le hacc).trans h.mtu) hfits
    have hsend := send_of_accepted hacc
    refine h.of_sender _ (fun _ => hwf) (fun hs' => ?_) (by rw [hsend]) (by rw [hsend])
      (by rw [hsend]; rfl) ?_
    · rw [hsend] at hs'
      exact nomatch hopen.symm.trans hs'
    · rintro need ⟨future, hahead, hline⟩
      have hframes : (s.send cfg buf).frames = s.frames := by rw [hsend]
      have hdrop : ((sduPayloads s.chan.tx.mps buf.data).map (kframe s.chan.tx.cid)).map
          (List.drop 4) = sduPayloads s.chan.tx.mps buf.data := by
        rw [map_map]
        exact map_id _
      refine ⟨future ++ (sduPayloads s.chan.tx.mps buf.data).map (kframe s.chan.tx.cid),
        fun hst => ?_, ?_⟩
      · obtain ⟨more, hmore, hfuture⟩ := hahead hst
        exact ⟨(s.send cfg buf).toCome, fun _ => rfl,
          by rw [hframes, hcome, ← hmore hopen, hfuture, append_assoc]⟩
      · rw [map_append, hdrop, ← append_assoc, foldlM_append, hline]
        exact hpayloads
  · rwa [send_of_refused hacc]

theorem rxSide_send (cfg : Cfg) (buf : SendBuf) (s : Sender) :
    (s.send cfg buf).chan.rxSide = s.chan.rxSide := by
  by_cases hacc : (s.chan.dynSend cfg buf).isSome
  · rw [send_of_accepted hacc]
    rfl
  · rw [send_of_refused hacc]

theorem rxSide_pull (amount : ℕ) (s : Sender) : (s.pull amount).chan.rxSide = s.chan.rxSide := by
  have hstart : s.chan.startPdu.rxSide = s.chan.rxSide := by
    unfold startPdu takeCredit
    split
    · rfl
    · split
      · dsimp only
        split <;> rfl
      · rfl
  have hcut : ∀ ch : Chan, (ch.pullFrag amount).1.rxSide = ch.rxSide := fun ch => by
    unfold pullFrag
    split <;> rfl
  unfold Sender.pull
  split
  · rfl
  · split
    · rfl
    · split
      · rfl
      · dsimp only
        split <;> exact (hcut _).trans hstart

theorem shutdown_pull (amount : ℕ) (s : Sender) : (s.pull amount).chan.shutdown = s.chan.shutdown :=
  (congrArg shutdown (rxSide_pull amount s) :)

theorem Dir.pull (h : Dir s r pdus) (amount : ℕ) : Dir (s.pull amount) r pdus := by
  cases hopen : s.chan.shutdown with
  | false =>
    have hs := h.wf hopen
    obtain ⟨-, hmps, hmtu⟩ := tx_pull hs amount
    refine h.of_sender _ (fun _ => hs.pull amount) (fun hs' => ?_) hmps hmtu ?_ ?_
    · rw [shutdown_pull] at hs'
      exact nomatch hopen.symm.trans hs'
    · have := credits_started_pull hs amount
      omega
    · rintro need ⟨future, hahead, hline⟩
      refine ⟨future, fun hst => ⟨(s.pull amount).toCome, fun _ => rfl, ?_⟩, hline⟩
      obtain ⟨more, hmore, hfuture⟩ := hahead hst
      rw [frames_toCome_pull hs amount, hfuture, hmore hopen]
  | true =>
    -- there is nothing to send
    have hpull : s.pull amount = { s with ready := false } :=
      pull_of_not_canSend (fun hc => hc.1 (h.gone hopen)) amount
    rw [hpull]
    have hnever : ∀ {P : Prop}, s.chan.shutdown = false → P := fun hs => by
      rw [hopen] at hs
      cases hs
    refine h.of_sender { s with ready := false } hnever (fun _ => h.gone hopen) rfl rfl rfl ?_
    rintro need ⟨future, hahead, hline⟩
    refine ⟨future, fun hst => ?_, hline⟩
    obtain ⟨more, -, hfuture⟩ := hahead hst
    exact ⟨more, hnever, hfuture⟩

/-- **A credit PDU arrives**: it is no overflow. -/
theorem Dir.giveCredits {n : ℕ} (h : Dir s r (n :: pdus)) (hn : 0 < n) :
    Dir (s.giveCredits n) r pdus ∧ s.chan.tx.credits + n ≤ 0xffff := by
  constructor
  · refine h.of_sender (s.giveCredits n) (fun hs => ?_) (fun hs => h.gone hs) rfl rfl ?_ fun _ hline => hline
    · exact (h.wf hs).giveCredits hn
    · rw [started_giveCredits]
      simp only [Sender.giveCredits, Chan.giveCredits, sum_cons]
      omega
  · have hle := h.le
    have hbound := h.rx.bound trivial
    simp only [sum_cons] at hle
    omega

theorem sum_credits (sigs : List ChanSig) : (sigs.filterMap credits?).sum = given sigs := by
  induction sigs with
  | nil => rfl
  | cons sig sigs ih =>
    have hcons : given (sig :: sigs) = given [sig] + given sigs := given_append [sig] sigs
    cases sig with
    | credits n =>
      rw [hcons, given_credits, ← ih]
      rfl
    | disconnReq ident =>
      rw [hcons, given_disconnReq, Nat.zero_add, ← ih]
      rfl

theorem Ahead.of_frame {r' : Chan} {future : List Bytes} (h : Ahead s r future)
    (hf : RxFrame r r') : Ahead s r' future := fun hst => by
  rcases hf.state with hs | hs
  · exact h (hs ▸ hst)
  · exact absurd hs hst

theorem Dir.of_receiver {r' : Chan} {pdus' : List ℕ} (h : Dir s r pdus) (hf : RxFrame r r')
    (hinv : RxInv True r') (hsum : pdus'.sum + r'.rxQueue.length + r.rx.credits =
      pdus.sum + r.rxQueue.length + r'.rx.credits)
    (hsync : r'.allocBuf = true → r'.shutdown = false → SyncAt (Line s r') r') :
    Dir s r' pdus' where
  rx := hinv
  attached := hf.attached.trans h.attached
  wf := h.wf
  gone := h.gone
  mps_ge := h.mps_ge
  mps_le := hf.rxMps ▸ h.mps_le
  mtu := hf.rxMtu ▸ h.mtu
  le := by
    have := h.le
    unfold inFlight at this ⊢
    omega
  eq hst := by
    have hst' : r.state = .connected := by
      rcases hf.state with hs | hs
      · exact hs.symm.trans hst
      · rw [hst] at hs
        cases hs
    have := h.eq hst'
    unfold inFlight at this ⊢
    omega
  sync := hsync

theorem Dir.open_of_frames {frame : Bytes} {rest : List Bytes} (h : Dir s r pdus)
    (hs : s.frames = frame :: rest) : r.shutdown = false := by
  have hcredit : r.rx.credits ≠ 0 := by
    have := h.le
    rw [inFlight, Sender.started, hs, length_cons] at this
    omega
  by_contra hshut
  exact hcredit (h.rx.shut (by simpa using hshut)).1

theorem Dir.arrive {frame : Bytes} {rest : List Bytes} (h : Dir s r pdus)
    (hs : s.frames = frame :: rest) (hst : r.state ≠ .disconnecting) :
    Dir { s with frames := rest } { r with rxQueue := r.rxQueue ++ [frame.drop 4] } pdus := by
  have hflight : inFlight { s with frames := rest }
      { r with rxQueue := r.rxQueue ++ [frame.drop 4] } = inFlight s r := by
    simp only [inFlight, Sender.started, hs, length_append, length_cons, length_nil]
    omega
  exact
    { h with
      rx := h.rx.of_rxQueue (h.open_of_frames hs) _
      wf := fun hs' => { h.wf hs' with }
      le := by
        rw [hflight]
        exact h.le
      eq := fun hst => by
        rw [hflight]
        exact h.eq hst
      sync := fun h₁ h₂ => by
        have hsync := h.sync h₁ h₂
        refine SyncAt.mono (Q := Line s r) ⟨hsync.idle, hsync.part⟩ ?_
        rintro need ⟨future, hahead, hline⟩
        obtain ⟨more, hmore, rfl⟩ := hahead hst
        refine ⟨rest ++ more, fun _ => ⟨more, hmore, rfl⟩, ?_⟩
        rw [hs] at hline
        simpa using hline }

theorem Dir.drop {frame : Bytes} {rest : List Bytes} (h : Dir s r pdus)
    (hs : s.frames = frame :: rest) (hst : r.state = .disconnecting) :
    Dir { s with frames := rest } r pdus :=
  { h with
    wf := fun hs' => { h.wf hs' with }
    le := by
      have := h.le
      simp only [inFlight, Sender.started, hs, length_cons] at this ⊢
      omega
    eq := fun hc => by
      rw [hst] at hc
      cases hc
    sync := fun h₁ h₂ => (h.sync h₁ h₂).mono fun need ⟨future, _, hline⟩ =>
      ⟨future, absurd hst, hline⟩ }

/-- **A queued K-frame is processed**: it has its credit, and whatever the
receiver gives is on its way to the sender. -/
theorem Dir.process {rest : List Bytes} (h : Dir s r pdus) (hq : r.rxQueue = buf :: rest)
    (env : RecvEnv) :
    Dir s (leRecv env buf { r with rxQueue := rest }).chan
        (pdus ++ (leRecv env buf { r with rxQueue := rest }).sent.filterMap
          credits?) ∧
      Blameless (leRecv env buf { r with rxQueue := rest }).faults := by
  have hopen := h.rx.open_of_queue hq
  have hle := h.le
  rw [inFlight, hq, length_cons] at hle
  have hcredit : r.rx.credits ≠ 0 := by omega
  generalize hr : ({ r with rxQueue := rest } : Chan) = r₀
  have hrx : r₀.rx = r.rx ∧ r₀.sdu = r.sdu ∧ r₀.allocBuf = r.allocBuf ∧ r₀.rxQueue = rest ∧
      r₀.shutdown = false ∧ r₀.attached = true := by
    rw [← hr]
    exact ⟨rfl, rfl, rfl, rfl, hopen, h.attached⟩
  obtain ⟨hrx, hsdu, halloc₀, hrest, hopen₀, hatt⟩ := hrx
  have hinv : RxInv True r₀ := hr ▸ h.rx.of_rxQueue hopen rest
  have hcredit₀ : r₀.rx.credits ≠ 0 := hrx ▸ hcredit
  have hframe := recvFrame_leRecv env buf r₀
  have hf : RxFrame r r₀ := hr ▸ ⟨rfl, .inl ⟨rfl, rfl⟩, .inl rfl, .inl rfl⟩
  -- the receiver is in step with the line from this K-frame on
  have hsync : r.allocBuf = true → SyncAt (Next (fun need => ∃ future, Ahead s r future ∧
      (rest ++ future.map (List.drop 4)).foldlM (advance r.rx.mps r.rx.mtu) need = some 0)
        r.rx.mps r.rx.mtu buf) r₀ := fun halloc => by
    have hsync := h.sync halloc hopen
    refine SyncAt.mono (Q := Line s r) (hr ▸ ⟨hsync.idle, hsync.part⟩) ?_
    rintro need ⟨future, hahead, hline⟩
    rw [hq, cons_append, foldlM_cons] at hline
    obtain ⟨need', hstep, hline⟩ := Option.bind_eq_some_iff.1 hline
    exact ⟨need', hstep, future, hahead, hline⟩
  obtain ⟨hinv', hbalance, -⟩ := hinv.leRecv env buf hopen₀ hatt hcredit₀
    (fun _ => .inl trivial) fun _ hs ha => by
      obtain ⟨need, hstep, -⟩ := (hsync (halloc₀ ▸ ha)).idle hs (.inl hcredit₀)
      exact .inl (advance_zero hstep).2.2.2.1
  refine ⟨h.of_receiver (hf.trans hframe.toRxFrame) hinv' ?_ fun ha hs => ?_,
    blameless_leRecv env buf hcredit₀⟩
  · rw [sum_append, sum_credits, hq, length_cons]
    rw [hrx] at hbalance
    rcases hframe.rxQueue with hkept | ⟨hshut, hnil⟩
    · rw [hkept, hrest]
      omega
    · -- a receiver that shuts down has no credit left, so nothing is in line
      have := (hinv'.shut hshut).1
      rw [hnil, length_nil]
      omega
  · have hkept : (r₀.leRecv env buf).chan.rxQueue = rest := by
      rcases hframe.rxQueue with hkept | ⟨hshut, -⟩
      · exact hkept.trans hrest
      · rw [hs] at hshut
        cases hshut
    have ha₀ : r₀.allocBuf = true := hframe.allocBuf ▸ ha
    have hstep := hsync (halloc₀ ▸ ha₀)
    rw [← hrx] at hstep
    refine (syncAt_leRecv hinv hopen₀ hcredit₀ ha₀ hstep hs).mono ?_
    rintro need ⟨future, hahead, hline⟩
    refine ⟨future, hahead.of_frame (hf.trans hframe.toRxFrame), ?_⟩
    rwa [hkept, hframe.rxMps, hframe.rxMtu]

theorem faults_recvComplete (b : Bool) (ch : Chan) : (ch.recvComplete b).faults = [] := by
  unfold Chan.recvComplete
  dsimp only
  split
  · cases b <;> rfl
  · rfl

theorem Dir.recvComplete (h : Dir s r pdus) (hheld : r.held ≠ 0) (b : Bool) :
    Dir s (r.recvComplete b).chan (pdus ++ (r.recvComplete b).sent.filterMap credits?) := by
  obtain ⟨hsdu, hzero⟩ := h.rx.held hheld
  have hkeeps : (r.recvComplete b).Keeps True True r := h.rx.recvComplete hheld b
  have hframe := recvFrame_recvComplete b r
  have hbalance := hkeeps.credits
  refine h.of_receiver hframe.toRxFrame hkeeps.inv ?_ fun ha hs => ?_
  · rw [sum_append, sum_credits]
    rcases hframe.rxQueue with hkept | ⟨hshut, hnil⟩
    · rw [hkept]
      omega
    · have hcredits := (hkeeps.inv.shut hshut).1
      have hle := h.le
      rw [inFlight] at hle
      rw [hnil, length_nil]
      omega
  · have hopen : r.shutdown = false := by
      by_contra hshut
      exact hheld (h.rx.shut (by simpa using hshut)).2
    have hkept : (r.recvComplete b).chan.rxQueue = r.rxQueue := by
      rcases hframe.rxQueue with hkept | ⟨hshut, -⟩
      · exact hkept
      · rw [hs] at hshut
        cases hshut
    obtain ⟨future, hahead, hline⟩ :=
      (h.sync (hframe.allocBuf ▸ ha) hopen).idle hsdu (.inr hheld)
    refine syncAt_of_none ((handClosed_sameSdu.recvComplete b r).none hsdu)
      ⟨future, hahead.of_frame hframe.toRxFrame, ?_⟩
    rwa [hkept, hframe.rxMps, hframe.rxMtu]

/-! ## Both directions -/

/-- **What two ends keep.** -/
structure Pair.Inv (p : Pair) : Prop where
  toFar : Dir p.near.sender p.far.sender.chan p.far.creditPdus
  toNear : Dir p.far.sender p.near.sender.chan p.near.creditPdus
  nearQueue : ¬ psmIsDyn p.near.sender.chan.psm → p.near.sender.chan.rxQueue = []
  farQueue : ¬ psmIsDyn p.far.sender.chan.psm → p.far.sender.chan.rxQueue = []
  nearFaults : Blameless p.near.faults
  farFaults : Blameless p.far.faults

theorem Pair.Inv.swap {p : Pair} (h : p.Inv) : p.swap.Inv :=
  ⟨h.toNear, h.toFar, h.farQueue, h.nearQueue, h.farFaults, h.nearFaults⟩

variable {p : Pair}

theorem Pair.Inv.of_sender (h : p.Inv) {s : Sender} {pdus : List ℕ}
    (hside : s.chan.rxSide = p.near.sender.chan.rxSide)
    (hdir : Dir s p.far.sender.chan pdus) :
    Pair.Inv ⟨{ p.near with sender := s }, { p.far with creditPdus := pdus }⟩ where
  toFar := hdir
  toNear := h.toNear.of_rxSide hside
  nearQueue := by
    have hpsm : s.chan.psm = p.near.sender.chan.psm := (congrArg Chan.psm hside :)
    have hqueue : s.chan.rxQueue = p.near.sender.chan.rxQueue := (congrArg Chan.rxQueue hside :)
    dsimp only
    rw [hpsm, hqueue]
    exact h.nearQueue
  farQueue := h.farQueue
  nearFaults := h.nearFaults
  farFaults := h.farFaults

theorem Pair.Inv.absorb (h : p.Inv) {o : Outcome} {frames : List Bytes}
    (hf : RxFrame p.near.sender.chan o.chan) (hblame : Blameless o.faults)
    (hqueue : ¬ psmIsDyn o.chan.psm → o.chan.rxQueue = [])
    (hdir : Dir { p.far.sender with frames := frames } o.chan
      (p.near.creditPdus ++ o.sent.filterMap credits?)) :
    Pair.Inv ⟨p.near.absorb o, { p.far with sender := { p.far.sender with frames := frames } }⟩ where
  toFar := h.toFar.of_frame hf
  toNear := hdir
  nearQueue := hqueue
  farQueue := h.farQueue
  nearFaults := h.nearFaults.append hblame
  farFaults := h.farFaults

theorem Pair.Inv.recv (h : p.Inv) (env : RecvEnv) : (p.stepNear (.recv env)).Inv := by
  simp only [Pair.stepNear]
  split
  next => exact h
  next frame rest hframes =>
    have hf := rxFrame_recvQueue env (frame.drop 4) p.near.sender.chan
    have hopen := h.toNear.open_of_frames hframes
    by_cases hst : p.near.sender.chan.state = .disconnecting
    · have hrecv : p.near.sender.chan.recvQueue env (frame.drop 4) =
          { chan := p.near.sender.chan } := by
        rw [recvQueue, if_pos hst]
      rw [hrecv] at hf ⊢
      refine h.absorb hf blameless_nil h.nearQueue ?_
      rw [filterMap_nil, append_nil]
      exact h.toNear.drop hframes hst
    · have harrive := h.toNear.arrive hframes hst
      by_cases hpsm : psmIsDyn p.near.sender.chan.psm
      · have hrecv : p.near.sender.chan.recvQueue env (frame.drop 4) =
            { chan := { p.near.sender.chan with
                rxQueue := p.near.sender.chan.rxQueue ++ [frame.drop 4] } } := by
          rw [recvQueue, if_neg hst, if_neg (by simp [hopen]), if_neg (not_not.2 hpsm)]
        rw [hrecv] at hf ⊢
        refine h.absorb hf blameless_nil (absurd hpsm) ?_
        rw [filterMap_nil, append_nil]
        exact harrive
      · -- the K-frame is processed at once
        have hempty := h.nearQueue hpsm
        have hrecv : p.near.sender.chan.recvQueue env (frame.drop 4) =
            p.near.sender.chan.leRecv env (frame.drop 4) := by
          rw [recvQueue, if_neg hst, if_neg (by simp [hopen]), if_pos hpsm]
        rw [hempty, nil_append] at harrive
        obtain ⟨hdir, hblame⟩ := harrive.process rfl env
        have hsame : ({ p.near.sender.chan with rxQueue := [] } : Chan) =
            p.near.sender.chan := by rw [← hempty]
        rw [hrecv] at hf ⊢
        dsimp only at hdir hblame
        rw [hsame] at hdir hblame
        refine h.absorb hf hblame (fun _ => ?_) hdir
        exact (recvFrame_leRecv env _ _).rxQueue.elim (·.trans hempty) And.right

/-- **Whatever an end does, the invariant stays.** -/
theorem Pair.Inv.stepNear (h : p.Inv) (e : PairEvent) : (p.stepNear e).Inv := by
  cases e with
  | send buf =>
    simp only [Pair.stepNear]
    split
    next => exact h
    next hopen =>
      exact h.of_sender (rxSide_send _ _ _) (h.toFar.send (by simpa using hopen) p.near.cfg buf)
  | pull amount => exact h.of_sender (rxSide_pull _ _) (h.toFar.pull amount)
  | recv env => exact h.recv env
  | rxWork env =>
    simp only [Pair.stepNear, rxProcess]
    split
    next =>
      refine h.absorb (.refl _) blameless_nil h.nearQueue ?_
      rw [filterMap_nil, append_nil]
      exact h.toNear
    next buf rest hq =>
      obtain ⟨hdir, hblame⟩ := h.toNear.process hq env
      have hf := rxFrame_rxProcess env p.near.sender.chan
      simp only [rxProcess, hq] at hf
      refine h.absorb hf hblame (fun hpsm => ?_) hdir
      have := h.nearQueue (hf.psm ▸ hpsm)
      rw [hq] at this
      cases this
  | recvComplete b =>
    simp only [Pair.stepNear]
    split
    next => exact h
    next hheld =>
      have hf := recvFrame_recvComplete b p.near.sender.chan
      refine h.absorb hf.toRxFrame ?_ (fun hpsm => ?_) (h.toNear.recvComplete hheld b)
      · rw [faults_recvComplete]
        exact blameless_nil
      · rw [hf.psm] at hpsm
        exact hf.rxQueue.elim (·.trans (h.nearQueue hpsm)) And.right
  | credits disc =>
    simp only [Pair.stepNear]
    split
    next => exact h
    next n rest hpdus =>
      have hdir := h.toFar
      rw [hpdus] at hdir
      unfold PairEnd.leCredits
      by_cases hn : n = 0
      · rw [if_pos hn]
        rw [hn] at hdir
        exact h.of_sender rfl (hdir.of_sender _ hdir.wf hdir.gone rfl rfl
          (by rw [sum_cons, Nat.zero_add]) fun _ hline => hline)
      · obtain ⟨hgive, hle⟩ := hdir.giveCredits (Nat.pos_of_ne_zero hn)
        rw [if_neg hn, if_neg (not_lt.2 hle)]
        exact h.of_sender rfl hgive

theorem Pair.Inv.step (h : p.Inv) (e : Bool × PairEvent) : (p.step e).Inv := by
  unfold Pair.step
  split
  · exact h.stepNear e.2
  · exact (h.swap.stepNear e.2).swap

/-! ## From the connection on -/

theorem fresh_rx (u : Setup) :
    u.fresh.rx.cid = u.cid ∧ 2 ≤ u.fresh.rx.mps ∧ u.fresh.rx.credits = 1 := by
  refine ⟨rfl, ?_, rfl⟩
  have := u.cfg.rxMtu_ge
  simp only [Setup.fresh, freshChan, rxInit]
  omega

theorem dir_connected (u v : Setup) :
    Dir (u.connected v.fresh.rx).sender (v.connected u.fresh.rx).sender.chan [] := by
  obtain ⟨hcid, hmps, hcredits⟩ := fresh_rx v
  have hcid' : cidIsDyn v.fresh.rx.cid := hcid ▸ v.cid_dyn
  have hcredits' : (u.connected v.fresh.rx).sender.chan.tx.credits = 1 := by
    simp only [Setup.connected, Sender.giveCredits, giveCredits, hcredits]
  have hline : Line (u.connected v.fresh.rx).sender (v.connected u.fresh.rx).sender.chan 0 :=
    ⟨[], fun _ => ⟨[], fun _ => rfl, rfl⟩, rfl⟩
  exact
    { rx :=
        { mps := (by omega : 0 < v.fresh.rx.mps)
          held_le := Nat.zero_le 1
          held := fun hh => absurd rfl hh
          idle := fun _ _ => hcredits.le
          part := fun _ _ _ hs => by cases hs
          drained := fun _ => rfl
          shut := fun hs => by cases hs
          sduLen := Nat.two_pow_pos 16
          bound := fun _ => hcredits.trans_lt (Nat.one_lt_two_pow (by omega)) }
      attached := rfl
      wf := fun _ => ⟨hcid', (by omega : 0 < v.fresh.rx.mps), fun _ h => (not_mem_nil h).elim,
        fun _ => rfl, fun h => absurd rfl h, fun _ _ => rfl⟩
      gone := fun _ => rfl
      mps_ge := hmps
      mps_le := le_refl v.fresh.rx.mps
      mtu := le_refl v.fresh.rx.mtu
      le := (hcredits'.trans hcredits.symm).le
      eq := fun _ => hcredits'.trans hcredits.symm
      sync := fun _ _ => syncAt_of_none rfl hline }

theorem inv_established (u v : Setup) : (Pair.established u v).Inv where
  toFar := dir_connected u v
  toNear := dir_connected v u
  nearQueue _ := rfl
  farQueue _ := rfl
  nearFaults := blameless_nil
  farFaults := blameless_nil

/-- The credits of a receiver are those its peer has, those on their way to
the peer, and one for each K-frame in flight. -/
def PairEnd.Agrees (sender receiver : PairEnd) : Prop :=
  receiver.sender.chan.rx.credits =
    sender.sender.chan.tx.credits + receiver.creditPdus.sum +
      inFlight sender.sender receiver.sender.chan

instance (sender receiver : PairEnd) : Decidable (sender.Agrees receiver) :=
  inferInstanceAs (Decidable (_ = _))

/-- **Credits agree.** In every state that two ends of a channel can reach,
a connected receiver has the credits its peer has, those on their way to
the peer, and one for each K-frame in flight; and neither end has
disconnected the channel for a lack or an overflow of credits. -/
theorem credits_agree (u v : Setup) (es : List (Bool × PairEvent)) :
    let p := run Pair.step (Pair.established u v) es
    (p.far.sender.chan.state = .connected → p.near.Agrees p.far) ∧
      (p.near.sender.chan.state = .connected → p.far.Agrees p.near) ∧
      Blameless p.near.faults ∧ Blameless p.far.faults := by
  intro p
  have h : p.Inv :=
    inv_run_of_forall Pair.Inv (fun _ e h => h.step e) (inv_established u v) es
  exact ⟨fun hst => (h.toFar.eq hst).symm, fun hst => (h.toNear.eq hst).symm, h.nearFaults,
    h.farFaults⟩

/-- An application that takes SDUs of 60 bytes. -/
def smallSetup : Setup := ⟨minCfg, 0x40, 60, 0x25, true, by decide, by omega, by decide⟩

/-- Sixty bytes go out in three K-frames. The buffer for them holds 24
bytes, so the second one is not stored, the channel is disconnected, and
the third one is dropped. -/
def unstored : List (Bool × PairEvent) :=
  [(true, .send ⟨List.replicate 60 0, 9, 1, by decide⟩), (true, .pull 27),
    (false, .recv { alloc := some 24, disc := some 0 }), (true, .credits none), (true, .pull 27),
    (true, .pull 27), (false, .recv { disc := some 0 }), (false, .recv {})]

/-- **A receiver that disconnects drops K-frames**, and its credits are no
longer those of its peer. -/
theorem unstored_disagrees :
    ¬ (let p := run Pair.step (Pair.established smallSetup smallSetup) unstored
      p.near.Agrees p.far) := by decide +kernel

end L2cap

end OpenBlue

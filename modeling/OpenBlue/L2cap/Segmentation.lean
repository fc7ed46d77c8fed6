import OpenBlue.Common.Run
import OpenBlue.L2cap.Model.Sender
import OpenBlue.L2cap.Reassembly
/-!
# L2CAP — an SDU through segmentation and reassembly

What a sender puts out is followed by what it has still to put out
(`Sender.toCome`): the K-frames complete so far and those to come are
together what the queued SDUs are cut into, whatever is pulled and
whenever credits arrive. A receiver that gets these K-frames in order
delivers the SDU.
-/

namespace OpenBlue

namespace L2cap

open List Sender

variable {cfg : Cfg} {s : Sender} {ch : Chan} {cid mps : ℕ}

/-! ## The K-frames of an SDU -/

/-- A K-frame: header and payload. -/
def kframe (cid : ℕ) (payload : Bytes) : Bytes :=
  le16 payload.length ++ le16 cid ++ payload

/-- The payloads an SDU is cut into, its length first. -/
def sduPayloads (mps : ℕ) (sdu : Bytes) : List Bytes := pieces mps (le16 sdu.length ++ sdu)

/-- The K-frames of what is left of a buffer. -/
def kframes (cid mps : ℕ) (buf : Bytes) : List Bytes := (pieces mps buf).map (kframe cid)

@[simp] theorem kframes_nil (cid mps : ℕ) : kframes cid mps [] = [] := by simp [kframes]

theorem kframes_eq_cons (hm : 0 < mps) {buf : Bytes} (hb : buf ≠ []) :
    kframes cid mps buf = kframe cid (buf.take mps) :: kframes cid mps (buf.drop mps) := by
  simp [kframes, pieces_eq_cons hm hb]

/-- What the queue of a sender is still cut into, the K-frame under way
first. -/
def Sender.toCome (s : Sender) : List Bytes :=
  match s.chan.txQueue with
  | [] => []
  | p :: rest =>
    (if s.chan.pduRemaining = 0 then kframes s.chan.tx.cid s.chan.tx.mps p
      else (s.begun ++ p.take s.chan.pduRemaining) ::
        kframes s.chan.tx.cid s.chan.tx.mps (p.drop s.chan.pduRemaining)) ++
      rest.flatMap (kframes s.chan.tx.cid s.chan.tx.mps)

/-- The K-frames a credit was taken for. -/
def Sender.started (s : Sender) : ℕ :=
  s.frames.length + if s.chan.pduRemaining = 0 then 0 else 1

/-- `le_credits` ignores a PDU without credits, and is not run while
`ops->connected` is. -/
def Sender.Takes (s : Sender) : TxEvent → Prop
  | .credits n => 0 < n ∧ s.opening = none
  | _ => True

/-- The credits that `le_conn_rsp` has still to give. -/
def Sender.due (s : Sender) : ℕ := s.opening.getD 0

/-- Until `le_conn_rsp` has given them there are no others. -/
def Sender.Quiet (s : Sender) : Prop :=
  s.opening ≠ none → s.chan.tx.credits = 0 ∧ s.chan.out = false ∧ s.chan.pduRemaining = 0

/-- What every sender keeps. -/
structure Sender.WF (s : Sender) : Prop where
  cid : cidIsDyn s.chan.tx.cid
  mps : 0 < s.chan.tx.mps
  queue : ∀ p ∈ s.chan.txQueue, p ≠ []
  begun : s.chan.pduRemaining = 0 → s.begun = []
  under : s.chan.pduRemaining ≠ 0 → s.ready = true ∧ ∃ p rest, s.chan.txQueue = p :: rest ∧
    s.chan.pduRemaining ≤ p.length
  idle : s.chan.out = true → s.chan.tx.credits = 0 → s.chan.pduRemaining = 0

theorem toCome_of_idle (h : s.chan.pduRemaining = 0) :
    s.toCome = s.chan.txQueue.flatMap (kframes s.chan.tx.cid s.chan.tx.mps) := by
  unfold toCome
  split
  next hq => rw [hq, flatMap_nil]
  next p rest hq => rw [hq, if_pos h, flatMap_cons]

variable {p : Bytes} {rest : List Bytes}

theorem toCome_of_under (hq : s.chan.txQueue = p :: rest) (h : s.chan.pduRemaining ≠ 0) :
    s.toCome = (s.begun ++ p.take s.chan.pduRemaining) ::
      (kframes s.chan.tx.cid s.chan.tx.mps (p.drop s.chan.pduRemaining) ++
        rest.flatMap (kframes s.chan.tx.cid s.chan.tx.mps)) := by
  unfold toCome
  rw [hq]
  dsimp only
  rw [if_neg h, cons_append]

/-! ## One pull

A pull that sends something starts a K-frame where none is under way
(`Sender.start`) and cuts one fragment off (`Sender.cut`). -/

/-- The header of the next K-frame is pushed. -/
def Sender.start (s : Sender) : Sender := { s with chan := s.chan.startPdu }

/-- One fragment of the K-frame under way. -/
def Sender.cut (amount : ℕ) (s : Sender) : Sender :=
  let r := s.chan.pullFrag amount
  if s.chan.pduRemaining ≤ amount then
    { s with
      chan := r.1
      ready := decide (r.1.txQueue ≠ [])
      begun := []
      frames := s.frames ++ [s.begun ++ r.2] }
  else { s with chan := r.1, begun := s.begun ++ r.2 }

/-- The channel can put out a fragment. -/
def Sender.CanSend (s : Sender) : Prop :=
  s.chan.txQueue ≠ [] ∧ (s.chan.pduRemaining ≠ 0 ∨ s.chan.hasCredits)

theorem pull_of_canSend (hr : s.ready = true) (h : s.CanSend) (amount : ℕ) :
    s.pull amount = s.start.cut amount := by
  unfold Sender.pull
  rw [if_neg (by simp [hr]), if_neg h.1, if_neg fun hn => h.2.elim (absurd hn.1) (absurd · hn.2)]
  rfl

theorem pull_of_not_canSend (h : ¬ s.CanSend) (amount : ℕ) :
    s.pull amount = { s with ready := false } := by
  unfold Sender.pull
  by_cases hr : s.ready = false
  · rw [if_pos hr, ← hr]
  · rw [if_neg hr]
    by_cases hq : s.chan.txQueue = []
    · rw [if_pos hq]
    · rw [if_neg hq, if_pos]
      by_contra hn
      exact h ⟨hq, by tauto⟩

theorem pull_of_not_ready (h : s.ready = false) (amount : ℕ) : s.pull amount = s := by
  unfold Sender.pull
  rw [if_pos h]

theorem start_of_idle (hs : s.WF)
    (hq : s.chan.txQueue = p :: rest) (h : s.chan.pduRemaining = 0) :
    s.start = { s with chan := { s.chan with
      txQueue := (le16 (min p.length s.chan.tx.mps) ++ le16 s.chan.tx.cid ++ p) :: rest
      pduRemaining := min p.length s.chan.tx.mps + 4
      tx := { s.chan.tx with credits := s.chan.tx.credits - 1 }
      out := s.chan.out && decide (s.chan.tx.credits - 1 ≠ 0) } } := by
  simp only [start, Chan.startPdu, hq, Chan.pduLen, Chan.takeCredit]
  rw [if_pos h, if_pos hs.cid, if_pos hs.cid]

theorem start_of_under (h : s.chan.pduRemaining ≠ 0) : s.start = s := by
  unfold start Chan.startPdu
  split
  · rfl
  · rw [if_neg h]

theorem take_header (cid mps : ℕ) (p : Bytes) :
    (le16 (min p.length mps) ++ le16 cid ++ p).take (min p.length mps + 4) =
      kframe cid (p.take mps) := by
  have hlen : (le16 (min p.length mps) ++ le16 cid).length = 4 := rfl
  have htake : p.take (min p.length mps) = p.take mps := by
    rcases Nat.le_total p.length mps with h | h
    · rw [Nat.min_eq_left h, take_length, take_of_length_le h]
    · rw [Nat.min_eq_right h]
  rw [Nat.add_comm, ← hlen, take_length_add_append, kframe, length_take, Nat.min_comm mps, htake]

theorem drop_header (cid mps : ℕ) (p : Bytes) :
    (le16 (min p.length mps) ++ le16 cid ++ p).drop (min p.length mps + 4) = p.drop mps := by
  have hlen : (le16 (min p.length mps) ++ le16 cid).length = 4 := rfl
  rw [Nat.add_comm, ← hlen, drop_length_add_append]
  rcases Nat.le_total p.length mps with h | h
  · rw [Nat.min_eq_left h, drop_length, drop_of_length_le h]
  · rw [Nat.min_eq_right h]

/-- **The header changes nothing of what is to come.** -/
theorem toCome_start (hs : s.WF) (hc : s.CanSend) : s.start.toCome = s.toCome := by
  obtain ⟨p, rest, hq⟩ := exists_cons_of_ne_nil hc.1
  by_cases h : s.chan.pduRemaining = 0
  · rw [toCome_of_idle h, hq, flatMap_cons,
      kframes_eq_cons hs.mps (hs.queue p (hq ▸ mem_cons_self)), start_of_idle hs hq h,
      toCome_of_under rfl (Nat.succ_ne_zero _)]
    simp only [hs.begun h, nil_append, take_header, drop_header, cons_append]
  · rw [start_of_under h]

/-- What holds of a channel once a K-frame is under way. -/
structure Sender.Under (s : Sender) (p : Bytes) (rest : List Bytes) : Prop where
  mps : 0 < s.chan.tx.mps
  queue : s.chan.txQueue = p :: rest
  left : s.chan.pduRemaining ≠ 0
  le : s.chan.pduRemaining ≤ p.length

theorem under_start (hs : s.WF) (hc : s.CanSend) : ∃ p rest, s.start.Under p rest := by
  obtain ⟨p, rest, hq⟩ := exists_cons_of_ne_nil hc.1
  by_cases h : s.chan.pduRemaining = 0
  · rw [start_of_idle hs hq h]
    refine ⟨_, rest, hs.mps, rfl, Nat.succ_ne_zero _, ?_⟩
    simp only [length_append, length_le16]
    omega
  · obtain ⟨-, p, rest, hq, hle⟩ := hs.under h
    rw [start_of_under h]
    exact ⟨p, rest, hs.mps, hq, h, hle⟩

/-- The queue behind a K-frame that is complete. -/
def queueBehind (p : Bytes) (r : ℕ) (rest : List Bytes) : List Bytes :=
  if r = p.length then rest else p.drop r :: rest

theorem cut_of_le (h : s.Under p rest) {amount : ℕ}
    (hle : s.chan.pduRemaining ≤ amount) :
    s.cut amount =
      { s with
        chan := { s.chan with
          txQueue := queueBehind p s.chan.pduRemaining rest, pduRemaining := 0 }
        ready := decide (queueBehind p s.chan.pduRemaining rest ≠ [])
        begun := []
        frames := s.frames ++ [s.begun ++ p.take s.chan.pduRemaining] } := by
  simp only [Sender.cut, Chan.pullFrag, h.queue, Nat.min_eq_right hle, hle, true_and, if_true,
    Nat.sub_eq_zero_of_le hle, queueBehind]
  congr

theorem cut_of_lt (h : s.Under p rest) {amount : ℕ}
    (hlt : amount < s.chan.pduRemaining) :
    s.cut amount =
      { s with
        chan := { s.chan with
          txQueue := p.drop amount :: rest, pduRemaining := s.chan.pduRemaining - amount }
        begun := s.begun ++ p.take amount } := by
  have hn : ¬ s.chan.pduRemaining ≤ amount := not_le.2 hlt
  simp only [Sender.cut, Chan.pullFrag, h.queue, Nat.min_eq_left hlt.le, hn, false_and, if_false]

theorem flatMap_queueBehind (f : Bytes → List Bytes) (hf : f [] = []) (p : Bytes) (r : ℕ)
    (rest : List Bytes) : (queueBehind p r rest).flatMap f = f (p.drop r) ++ rest.flatMap f := by
  unfold queueBehind
  split
  next h => rw [h, drop_length, hf, nil_append]
  next => rw [flatMap_cons]

/-- **A fragment changes nothing of the whole.** -/
theorem frames_toCome_cut (h : s.Under p rest) (amount : ℕ) :
    (s.cut amount).frames ++ (s.cut amount).toCome = s.frames ++ s.toCome := by
  rw [toCome_of_under h.queue h.left]
  rcases Nat.lt_or_ge amount s.chan.pduRemaining with hlt | hle
  · rw [cut_of_lt h hlt, toCome_of_under rfl (Nat.sub_ne_zero_of_lt hlt)]
    simp only [append_assoc, drop_drop, Nat.add_sub_cancel' hlt.le]
    rw [← take_add, Nat.add_sub_cancel' hlt.le]
  · rw [cut_of_le h hle, toCome_of_idle rfl, flatMap_queueBehind _ (kframes_nil _ _),
      append_assoc, singleton_append]

theorem started_cut (h : s.Under p rest) (amount : ℕ) : (s.cut amount).started = s.started := by
  unfold started
  rw [if_neg h.left]
  rcases Nat.lt_or_ge amount s.chan.pduRemaining with hlt | hle
  · rw [cut_of_lt h hlt, if_neg (Nat.sub_ne_zero_of_lt hlt)]
  · rw [cut_of_le h hle, if_pos rfl, length_append, length_singleton]

theorem chan_cut (h : s.Under p rest) (amount : ℕ) :
    (s.cut amount).chan.tx = s.chan.tx ∧ (s.cut amount).chan.out = s.chan.out := by
  rcases Nat.lt_or_ge amount s.chan.pduRemaining with hlt | hle
  · rw [cut_of_lt h hlt]
    exact ⟨rfl, rfl⟩
  · rw [cut_of_le h hle]
    exact ⟨rfl, rfl⟩

/-! ## What a pull keeps -/

theorem start_frame (hs : s.WF) (hc : s.CanSend) :
    s.start.frames = s.frames ∧ s.start.begun = s.begun ∧ s.start.ready = s.ready ∧
      s.start.chan.tx.cid = s.chan.tx.cid ∧ s.start.chan.tx.mps = s.chan.tx.mps ∧
      s.start.chan.tx.mtu = s.chan.tx.mtu := by
  obtain ⟨p, rest, hq⟩ := exists_cons_of_ne_nil hc.1
  by_cases h : s.chan.pduRemaining = 0
  · rw [start_of_idle hs hq h]
    exact ⟨rfl, rfl, rfl, rfl, rfl, rfl⟩
  · rw [start_of_under h]
    exact ⟨rfl, rfl, rfl, rfl, rfl, rfl⟩

/-- **A K-frame takes one credit**, and `BT_L2CAP_STATUS_OUT` is cleared
with the last one. -/
theorem start_credits (hs : s.WF) (hc : s.CanSend) :
    s.start.chan.tx.credits + s.start.started = s.chan.tx.credits + s.started ∧
      (s.start.chan.out = true → 0 < s.start.chan.tx.credits) := by
  obtain ⟨p, rest, hq⟩ := exists_cons_of_ne_nil hc.1
  by_cases h : s.chan.pduRemaining = 0
  · have hcredit : 1 ≤ s.chan.tx.credits := hc.2.elim (absurd h) fun hcred => hcred hs.cid
    rw [start_of_idle hs hq h]
    simp only [started, h, if_true, Nat.add_eq_zero_iff, Bool.and_eq_true, decide_eq_true_eq]
    refine ⟨?_, fun hout => Nat.pos_of_ne_zero hout.2⟩
    simp only [OfNat.ofNat_ne_zero, and_false, if_false]
    omega
  · rw [start_of_under h]
    refine ⟨rfl, fun hout => Nat.pos_of_ne_zero fun hzero => h (hs.idle hout hzero)⟩

theorem wf_cut (h : s.Under p rest)
    (hcid : cidIsDyn s.chan.tx.cid) (hrest : ∀ q ∈ rest, q ≠ []) (hready : s.ready = true)
    (hout : s.chan.out = true → 0 < s.chan.tx.credits) (amount : ℕ) : (s.cut amount).WF := by
  rcases Nat.lt_or_ge amount s.chan.pduRemaining with hlt | hle
  · have hdrop : p.drop amount ≠ [] := by
      have := h.le
      rw [ne_eq, drop_eq_nil_iff]
      omega
    rw [cut_of_lt h hlt]
    refine ⟨hcid, h.mps, ?_, fun hz => absurd hz (Nat.sub_ne_zero_of_lt hlt), fun _ => ?_,
      fun ho hz => absurd hz (hout ho).ne'⟩
    · rintro q hq
      rcases mem_cons.1 hq with rfl | hq
      · exact hdrop
      · exact hrest q hq
    · refine ⟨hready, _, rest, rfl, ?_⟩
      rw [length_drop]
      exact Nat.sub_le_sub_right h.le _
  · rw [cut_of_le h hle]
    refine ⟨hcid, h.mps, ?_, fun _ => rfl, fun hz => absurd rfl hz, fun _ _ => rfl⟩
    intro q hq
    dsimp only [queueBehind] at hq
    split at hq
    · exact hrest q hq
    next hne =>
      rcases mem_cons.1 hq with rfl | hq
      · have := h.le
        rw [ne_eq, drop_eq_nil_iff]
        omega
      · exact hrest q hq

theorem rest_start (hs : s.WF) (h : s.start.Under p rest)
    (hc : s.CanSend) : ∀ q ∈ rest, q ≠ [] := by
  obtain ⟨p', rest', hq⟩ := exists_cons_of_ne_nil hc.1
  have hqueue := h.queue
  by_cases hidle : s.chan.pduRemaining = 0
  · rw [start_of_idle hs hq hidle] at hqueue
    obtain ⟨-, rfl⟩ := List.cons.inj hqueue
    exact fun q hmem => hs.queue q (hq ▸ mem_cons_of_mem _ hmem)
  · rw [start_of_under hidle] at hqueue
    exact fun q hmem => hs.queue q (hqueue ▸ mem_cons_of_mem _ hmem)

theorem idle_of_not_canSend (hs : s.WF) (h : ¬ s.CanSend) : s.chan.pduRemaining = 0 := by
  by_contra hne
  obtain ⟨-, p, rest, hq, -⟩ := hs.under hne
  exact h ⟨by rw [hq]; exact cons_ne_nil _ _, .inl hne⟩

/-- **The three outcomes of a pull**: nothing, the channel taken off the
ready list, or a fragment of a K-frame that has its credit. -/
theorem pull_cases (hs : s.WF) (amount : ℕ) :
    (s.ready = false ∧ s.pull amount = s) ∨
      (¬ s.CanSend ∧ s.pull amount = { s with ready := false }) ∨
      (s.ready = true ∧ s.CanSend ∧ ∃ p rest, s.start.Under p rest ∧ (∀ q ∈ rest, q ≠ []) ∧
        s.pull amount = s.start.cut amount) := by
  cases hr : s.ready with
  | false => exact .inl ⟨rfl, pull_of_not_ready hr amount⟩
  | true =>
    by_cases hc : s.CanSend
    · obtain ⟨p, rest, hu⟩ := under_start hs hc
      exact .inr (.inr ⟨rfl, hc, p, rest, hu, rest_start hs hu hc, pull_of_canSend hr hc amount⟩)
    · exact .inr (.inl ⟨hc, pull_of_not_canSend hc amount⟩)

theorem Sender.WF.pull (hs : s.WF) (amount : ℕ) : (s.pull amount).WF := by
  obtain ⟨-, h⟩ | ⟨hc, h⟩ | ⟨hr, hc, p, rest, hu, hrest, h⟩ := pull_cases hs amount
  · rwa [h]
  · have hidle := idle_of_not_canSend hs hc
    rw [h]
    exact ⟨hs.cid, hs.mps, hs.queue, hs.begun, fun hne => absurd hidle hne, fun _ _ => hidle⟩
  · obtain ⟨-, -, hready, hcid, -, -⟩ := start_frame hs hc
    rw [h]
    exact wf_cut hu (hcid ▸ hs.cid) hrest (hready.trans hr) (start_credits hs hc).2 amount

/-- **A pull changes nothing of the whole.** -/
theorem frames_toCome_pull (hs : s.WF) (amount : ℕ) :
    (s.pull amount).frames ++ (s.pull amount).toCome = s.frames ++ s.toCome := by
  obtain ⟨-, h⟩ | ⟨-, h⟩ | ⟨-, hc, p, rest, hu, -, h⟩ := pull_cases hs amount
  · rw [h]
  · rw [h]
    rfl
  · rw [h, frames_toCome_cut hu, toCome_start hs hc, (start_frame hs hc).1]

theorem credits_started_pull (hs : s.WF) (amount : ℕ) :
    (s.pull amount).chan.tx.credits + (s.pull amount).started = s.chan.tx.credits + s.started := by
  obtain ⟨-, h⟩ | ⟨-, h⟩ | ⟨-, hc, p, rest, hu, -, h⟩ := pull_cases hs amount
  · rw [h]
  · rw [h]
    rfl
  · rw [h, started_cut hu, (chan_cut hu amount).1, (start_credits hs hc).1]

theorem tx_pull (hs : s.WF) (amount : ℕ) :
    (s.pull amount).chan.tx.cid = s.chan.tx.cid ∧ (s.pull amount).chan.tx.mps = s.chan.tx.mps ∧
      (s.pull amount).chan.tx.mtu = s.chan.tx.mtu := by
  obtain ⟨-, h⟩ | ⟨-, h⟩ | ⟨-, hc, p, rest, hu, -, h⟩ := pull_cases hs amount
  · rw [h]
    exact ⟨rfl, rfl, rfl⟩
  · rw [h]
    exact ⟨rfl, rfl, rfl⟩
  · rw [h, (chan_cut hu amount).1]
    exact (start_frame hs hc).2.2.2

/-! ## The ready list -/

/-- **No stall.** A channel with data is on the ready list, or it waits
for credits with `BT_L2CAP_STATUS_OUT` clear; and the bit is clear when
there are no credits. -/
structure Sender.Live (s : Sender) : Prop where
  ready : s.chan.txQueue ≠ [] → s.ready = true ∨
    (s.chan.tx.credits = 0 ∧ s.chan.out = false ∧ s.chan.pduRemaining = 0)
  out : s.chan.out = true → 0 < s.chan.tx.credits

theorem Sender.Live.pull (hl : s.Live) (hs : s.WF) (amount : ℕ) : (s.pull amount).Live := by
  obtain ⟨-, h⟩ | ⟨hc, h⟩ | ⟨hr, hc, p, rest, hu, -, h⟩ := pull_cases hs amount
  · rwa [h]
  · have hidle := idle_of_not_canSend hs hc
    rw [h]
    refine ⟨fun hq => .inr ?_, hl.out⟩
    have hzero : s.chan.tx.credits = 0 := by
      by_contra hne
      exact hc ⟨hq, .inr fun _ => Nat.one_le_iff_ne_zero.2 hne⟩
    refine ⟨hzero, ?_, hidle⟩
    by_contra hout
    have := hl.out (by simpa using hout)
    omega
  · have hout := (start_credits hs hc).2
    have hready := (start_frame hs hc).2.2.1
    rw [h]
    refine ⟨fun hq => .inl ?_, ?_⟩
    · rcases Nat.lt_or_ge amount s.start.chan.pduRemaining with hlt | hle
      · rw [cut_of_lt hu hlt]
        exact hready.trans hr
      · rw [cut_of_le hu hle] at hq ⊢
        exact decide_eq_true hq
    · rw [(chan_cut hu amount).1, (chan_cut hu amount).2]
      exact hout

theorem Sender.WF.giveCredits (hs : s.WF) {n : ℕ} (hn : 0 < n) : (s.giveCredits n).WF where
  cid := hs.cid
  mps := hs.mps
  queue := hs.queue
  begun := hs.begun
  under h := by
    obtain ⟨hr, hp⟩ := hs.under h
    exact ⟨by simp [Sender.giveCredits, hr], hp⟩
  idle _ h := by
    simp only [Sender.giveCredits, Chan.giveCredits] at h
    omega

theorem Sender.Live.giveCredits (hl : s.Live) {n : ℕ} (hn : 0 < n) : (s.giveCredits n).Live where
  ready hq := by
    left
    rcases hl.ready hq with hr | ⟨-, hout, -⟩
    · simp [Sender.giveCredits, hr]
    · have hq : s.chan.txQueue ≠ [] := hq
      simp [Sender.giveCredits, hout, hq]
  out _ := by
    simp only [Sender.giveCredits, Chan.giveCredits]
    omega

theorem started_giveCredits (n : ℕ) : (s.giveCredits n).started = s.started := rfl

theorem opening_pull (s : Sender) (amount : ℕ) : (s.pull amount).opening = s.opening := by
  unfold Sender.pull
  dsimp only
  split_ifs <;> rfl

theorem open_of_none (h : s.opening = none) : s.open = s := by
  rw [Sender.open, h]

theorem open_of_some {n : ℕ} (h : s.opening = some n) :
    s.open = { s.giveCredits n with opening := none } := by
  rw [Sender.open, h]

/-! ## A run of pulls and credits -/

/-- The bytes put out so far. -/
def Sender.sent (s : Sender) : ℕ := s.frames.flatten.length + s.begun.length

variable {buf : SendBuf}

theorem send_of_accepted (h : (s.chan.dynSend cfg buf).isSome) :
    s.send cfg buf = { s with
      chan := { s.chan with
        txQueue := s.chan.txQueue ++ [le16 buf.data.length ++ buf.data] }
      ready := true } := by
  unfold Sender.send
  unfold Chan.dynSend at h ⊢
  by_cases h₁ : s.chan.tx.mtu < buf.data.length
  · simp [h₁] at h
  by_cases h₂ : buf.ref ≠ 1
  · simp [h₁, h₂] at h
  by_cases h₃ : buf.headroom < cfg.sendReserve
  · simp [h₁, h₃] at h
  rw [if_neg h₁, if_neg h₂, if_neg h₃]

theorem send_of_refused (h : ¬ (s.chan.dynSend cfg buf).isSome) : s.send cfg buf = s := by
  unfold Sender.send
  rw [Option.not_isSome_iff_eq_none.1 h]

theorem dynSend_le (h : (ch.dynSend cfg buf).isSome) : buf.data.length ≤ ch.tx.mtu := by
  by_contra hn
  unfold Chan.dynSend at h
  rw [if_pos (not_le.1 hn)] at h
  cases h

theorem Sender.WF.send (hs : s.WF) (cfg : Cfg) (buf : SendBuf) : (s.send cfg buf).WF := by
  by_cases h : (s.chan.dynSend cfg buf).isSome
  · rw [send_of_accepted h]
    refine ⟨hs.cid, hs.mps, ?_, hs.begun, fun hne => ?_, hs.idle⟩
    · intro p hp
      rcases mem_append.1 hp with hp | hp
      · exact hs.queue p hp
      · rw [mem_singleton.1 hp]
        exact cons_ne_nil _ _
    · obtain ⟨-, p, rest, hq, hle⟩ := hs.under hne
      refine ⟨rfl, p, rest ++ [le16 buf.data.length ++ buf.data], ?_, hle⟩
      show s.chan.txQueue ++ _ = _
      rw [hq, cons_append]
  · rwa [send_of_refused h]

theorem toCome_send (hs : s.WF) (h : (s.chan.dynSend cfg buf).isSome) :
    (s.send cfg buf).toCome = s.toCome ++
      (sduPayloads s.chan.tx.mps buf.data).map (kframe s.chan.tx.cid) := by
  have hsend := send_of_accepted h
  have hqueue : (s.send cfg buf).chan.txQueue =
      s.chan.txQueue ++ [le16 buf.data.length ++ buf.data] := by rw [hsend]
  have hsame : (s.send cfg buf).chan.tx = s.chan.tx ∧
      (s.send cfg buf).chan.pduRemaining = s.chan.pduRemaining ∧
      (s.send cfg buf).begun = s.begun := by
    rw [hsend]
    exact ⟨rfl, rfl, rfl⟩
  obtain ⟨htx, hleft, hbegun⟩ := hsame
  by_cases hidle : s.chan.pduRemaining = 0
  · rw [toCome_of_idle (hleft.trans hidle), toCome_of_idle hidle, hqueue, htx,
      flatMap_append, flatMap_singleton]
    rfl
  · obtain ⟨-, p, rest, hq, -⟩ := hs.under hidle
    rw [toCome_of_under hq hidle,
      toCome_of_under (hqueue.trans (by rw [hq, cons_append])) (by rwa [hleft]), htx, hleft,
      hbegun, flatMap_append, flatMap_singleton, cons_append, append_assoc]
    rfl

theorem Sender.Live.send (hout : s.chan.out = true → 0 < s.chan.tx.credits)
    (h : (s.chan.dynSend cfg buf).isSome) : (s.send cfg buf).Live := by
  rw [send_of_accepted h]
  exact ⟨fun _ => .inl rfl, hout⟩

/-- **One step of a channel keeps it well formed.** -/
theorem Sender.WF.step (hs : s.WF) (hq : s.Quiet) (cfg : Cfg) {e : TxEvent} (he : s.Takes e) :
    (s.step cfg e).WF ∧ (s.step cfg e).Quiet := by
  cases e with
  | send buf =>
    refine ⟨hs.send cfg buf, ?_⟩
    by_cases h : (s.chan.dynSend cfg buf).isSome
    · rw [Sender.step, send_of_accepted h]
      exact hq
    · rwa [Sender.step, send_of_refused h]
  | pull amount =>
    refine ⟨hs.pull amount, fun hopen => ?_⟩
    rw [Sender.step, opening_pull] at hopen
    obtain ⟨hzero, hout, hidle⟩ := hq hopen
    -- there is no credit to start a K-frame with
    have hcant : ¬ s.CanSend := by
      rintro ⟨-, hleft | hcred⟩
      · exact hleft hidle
      · have := hcred hs.cid
        omega
    rw [Sender.step, pull_of_not_canSend hcant]
    exact ⟨hzero, hout, hidle⟩
  | credits n =>
    exact ⟨hs.giveCredits he.1, fun hopen => absurd he.2 hopen⟩
  | opened =>
    cases hopen : s.opening with
    | none =>
      rw [Sender.step, open_of_none hopen]
      exact ⟨hs, hq⟩
    | some n =>
      have hidle := (hq (by simp [hopen])).2.2
      rw [Sender.step, open_of_some hopen]
      exact ⟨⟨hs.cid, hs.mps, hs.queue, hs.begun, fun h => absurd hidle h, fun _ _ => hidle⟩,
        fun h => absurd rfl h⟩

end L2cap

end OpenBlue

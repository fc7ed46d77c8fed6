import OpenBlue.Common.Run
import OpenBlue.Rfcomm.Model.Dlc
import Mathlib.Algebra.BigOperators.Group.List.Basic
import Mathlib.Tactic.Set
/-!
# RFCOMM — what the two ends count

A credit that an end has given is at the other end, on its way there, or used
by a data frame that has not arrived (`Ledger`). The two ends agree from the
negotiation of the DLC on, as long as every buffer that is sent has a byte in
it: the sender uses a credit for each buffer, and the receiver counts the
frames with data.
-/

namespace OpenBlue

namespace Rfcomm

open Function List Pair

variable {s : Session} {d d' : Dlc} {p : Pair} {x : Side} {toD toD' : List Frame}

/-! ## Credits and data in flight -/

/-- The credits that a frame gives. -/
def Frame.credits : Frame → ℕ
  | .pn _ _ _ credits => credits.toNat
  | .uih true (credits :: _) => credits.toNat
  | _ => 0

/-- The sender of the frame has used a credit for it. -/
def Frame.isData : Frame → Bool
  | .uih false _ => true
  | _ => false

def creditsIn (l : List Frame) : ℕ := (l.map Frame.credits).sum

def dataIn (l : List Frame) : ℕ := l.countP Frame.isData

@[simp] theorem creditsIn_nil : creditsIn [] = 0 := rfl

@[simp] theorem creditsIn_cons (f : Frame) (l : List Frame) :
    creditsIn (f :: l) = f.credits + creditsIn l := by
  simp [creditsIn]

@[simp] theorem creditsIn_append (l l' : List Frame) :
    creditsIn (l ++ l') = creditsIn l + creditsIn l' := by
  simp [creditsIn]

@[simp] theorem dataIn_nil : dataIn [] = 0 := rfl

@[simp] theorem dataIn_cons (f : Frame) (l : List Frame) :
    dataIn (f :: l) = dataIn l + if f.isData then 1 else 0 := by
  simp [dataIn, countP_cons]

@[simp] theorem dataIn_append (l l' : List Frame) : dataIn (l ++ l') = dataIn l + dataIn l' := by
  simp [dataIn]

/-- **The ends agree about one direction**: `d` receives, and `d'` sends. -/
structure Ledger (maxCredits : ℕ) (d d' : Dlc) (toD toD' : List Frame) : Prop where
  agree : d.rxCredit.toNat = d'.txCredits.count + creditsIn toD' + dataIn toD
  pos : 0 < d.rxCredit.toNat
  le : d.rxCredit.toNat ≤ maxCredits % 256
  limit : d'.txCredits.limit = semMaxLimit

/-- The two ends have each the other's credits. -/
def Negotiated (d d' : Dlc) : Prop :=
  (d.state = .connecting ∨ d.state = .connected) ∧
    (d'.state = .config ∨ d'.state = .securityPending ∨ d'.state = .connected)

/-- **The credit agreement**: from the negotiation on, what the receiver counts is
what the sender has, the credits and the data in flight; no DLC is closed for
lack of credit; and where nothing is in flight, the sender has a credit. -/
structure Agrees (p : Pair) : Prop where
  counts : ∀ d d', (p.side .initiator).dlc = some d → (p.side .acceptor).dlc = some d' →
    Negotiated d d' →
      (d.rxCredit.toNat = d'.txCredits.count + creditsIn (p.link .acceptor) + dataIn (p.link .initiator) ∧
        d.rxCredit.toNat ≤ (p.side .initiator).maxCredits) ∧
      (d'.rxCredit.toNat = d.txCredits.count + creditsIn (p.link .initiator) + dataIn (p.link .acceptor) ∧
        d'.rxCredit.toNat ≤ (p.side .acceptor).maxCredits)
  fed : ∀ x, (p.side x).starved = false
  flows : ∀ d d', (p.side .initiator).dlc = some d → (p.side .acceptor).dlc = some d' →
    Negotiated d d' →
      (creditsIn (p.link .acceptor) = 0 → dataIn (p.link .initiator) = 0 → 0 < d'.txCredits.count) ∧
      (creditsIn (p.link .initiator) = 0 → dataIn (p.link .acceptor) = 0 → 0 < d.txCredits.count)

/-! ## One end -/

/-- The frames that travel between two connected ends: none is empty. -/
inductive Fine : Frame → Prop
  | credit (credits : UInt8) : Fine (.uih true [credits])
  | data {info : List UInt8} (h : info ≠ []) : Fine (.uih false info)
  | msc (cr fc : Bool) : Fine (.msc cr fc)

theorem iterate_give (n : ℕ) (sem : Sem) (h : sem.count + n ≤ sem.limit) :
    Sem.give^[n] sem = { sem with count := sem.count + n } := by
  induction n generalizing sem with
  | zero => rfl
  | succ n ih =>
    rw [iterate_succ_apply, Sem.give, if_pos (by omega), ih _ (by dsimp only; omega)]
    simp only [Sem.mk.injEq, and_true]
    omega

theorem giveCredits_count (credits : UInt8) (h : d.txCredits.count + credits.toNat ≤ d.txCredits.limit) :
    Session.giveCredits d credits =
      { d with txCredits := { d.txCredits with count := d.txCredits.count + credits.toNat } } := by
  rw [Session.giveCredits, iterate_give _ _ h]

theorem recv_credit (hd : s.dlc = some d) (hstate : d.state = .connected) (sec : Security)
    (credits : UInt8) :
    s.recv sec (.uih true [credits]) = (s.setDlc (Session.giveCredits d credits), []) := by
  rw [Session.recv, Session.handleData, hd]
  dsimp only
  rw [if_neg (not_not.2 hstate), Session.recvData, if_pos rfl]

theorem recv_data (hd : s.dlc = some d) (hstate : d.state = .connected) (hrx : d.rxCredit ≠ 0)
    (sec : Security) {info : List UInt8} (hinfo : info ≠ []) :
    s.recv sec (.uih false info) =
      (s.setDlc (s.updateCredits { d with rxCredit := d.rxCredit - 1 }).1,
        (s.updateCredits { d with rxCredit := d.rxCredit - 1 }).2) := by
  rw [Session.recv, Session.handleData, hd]
  dsimp only
  rw [if_neg (not_not.2 hstate), Session.recvData, if_neg hinfo, if_neg fun h => hrx h.2]

theorem recv_msc (hd : s.dlc = some d) (hcfc : s.cfc = .supported) (sec : Security) (cr fc : Bool) :
    s.recv sec (.msc cr fc) = (s, if cr then [.msc false fc] else []) := by
  rw [Session.recv, Session.handleMsc, hd]
  dsimp only
  cases cr with
  | false => rfl
  | true => rw [if_neg (by simp), if_neg (by simp [hcfc]), if_pos rfl]

theorem txWorker_connected (hd : s.dlc = some d) (hstate : d.state = .connected)
    (hcfc : s.cfc = .supported) :
    s.txWorker = (s, []) ∨ ∃ buf queue, d.txQueue = buf :: queue ∧ d.txCredits.count ≠ 0 ∧
      s.txWorker = (s.setDlc { d with
        txCredits := { d.txCredits with count := d.txCredits.count - 1 }, txQueue := queue },
        [.uih false buf]) := by
  rw [Session.txWorker, hd]
  dsimp only
  split
  · exact .inl rfl
  rw [hstate]
  dsimp only
  rw [Session.checkFc, Sem.take]
  cases hq : d.txQueue with
  | nil => exact .inl (by simp)
  | cons buf queue =>
    by_cases hcount : d.txCredits.count = 0
    · exact .inl (by simp [hcount])
    · refine .inr ⟨buf, queue, rfl, hcount, ?_⟩
      simp [hcount, hcfc, hstate]

/-- **What `rfcomm_dlc_update_credits` gives**, it counts. -/
theorem updateCredits_spec (hcfc : s.cfc = .supported) (hle : d.rxCredit.toNat ≤ s.maxCredits % 256)
    (hmax : s.maxCredits % 256 ≠ 0) :
    ∃ rx l, s.updateCredits d = ({ d with rxCredit := rx }, l) ∧
      rx.toNat = d.rxCredit.toNat + creditsIn l ∧ dataIn l = 0 ∧ (∀ f ∈ l, Fine f) ∧
      0 < rx.toNat ∧ rx.toNat ≤ s.maxCredits % 256 := by
  rw [Session.updateCredits, if_neg (by simp [hcfc])]
  split
  · exact ⟨d.rxCredit, [], rfl, rfl, rfl, by simp, by omega, hle⟩
  · have hfull : (UInt8.ofNat s.maxCredits).toNat = s.maxCredits % 256 := UInt8.toNat_ofNat'
    have hgive : (UInt8.ofNat s.maxCredits - d.rxCredit).toNat =
        s.maxCredits % 256 - d.rxCredit.toNat := by
      rw [UInt8.toNat_sub_of_le _ _ (UInt8.le_iff_toNat_le.2 (by omega)), hfull]
    have hsum : (d.rxCredit + (UInt8.ofNat s.maxCredits - d.rxCredit)).toNat =
        s.maxCredits % 256 := by
      rw [UInt8.toNat_add, hgive]
      omega
    refine ⟨_, _, rfl, ?_, rfl, ?_, ?_, ?_⟩
    · simp only [hsum, creditsIn_cons, creditsIn_nil, Frame.credits, hgive]
      omega
    · intro f hf
      rw [mem_singleton.1 hf]
      exact .credit _
    · omega
    · omega

/-! ## Two ends that have negotiated -/

@[simp] theorem other_other (x : Side) : x.other.other = x := by cases x <;> rfl

theorem other_ne (x : Side) : x.other ≠ x := by cases x <;> decide

@[simp] theorem side_act_self (p : Pair) (x : Side) (r : Session × List Frame) :
    (p.act x r).side x = r.1 := update_self _ _ _

@[simp] theorem side_act_other (p : Pair) (x : Side) (r : Session × List Frame) :
    (p.act x r).side x.other = p.side x.other := update_of_ne (other_ne x) _ _

@[simp] theorem link_act_self (p : Pair) (x : Side) (r : Session × List Frame) :
    (p.act x r).link x = p.link x := update_of_ne (other_ne x).symm _ _

@[simp] theorem link_act_other (p : Pair) (x : Side) (r : Session × List Frame) :
    (p.act x r).link x.other = p.link x.other ++ r.2 := update_self _ _ _

theorem forall_side {P : Side → Prop} (x : Side) (h : P x) (h' : P x.other) (y : Side) : P y := by
  cases x <;> cases y <;> assumption

theorem forall_both {P : Side → Prop} (h : P .initiator) (h' : P .acceptor) (y : Side) : P y := by
  cases y <;> assumption

theorem act_self (p : Pair) (x : Side) : p.act x (p.side x, []) = p := by
  rw [Pair.act, update_eq_self, append_nil, update_eq_self]

/-- Both ends have their DLC, and agree about both directions. -/
structure Balanced (p : Pair) (dl : Side → Dlc) : Prop where
  dlc : ∀ x, (p.side x).dlc = some (dl x)
  cfc : ∀ x, (p.side x).cfc = .supported
  fed : ∀ x, (p.side x).starved = false
  max : ∀ x, (p.side x).maxCredits % 256 ≠ 0
  ledger : ∀ x, Ledger (p.side x).maxCredits (dl x) (dl x.other) (p.link x) (p.link x.other)
  queued : ∀ x, (dl x).state = .connected → ∀ buf ∈ (dl x).txQueue, buf ≠ []

variable {dl : Side → Dlc}

variable {q : Pair}

/-- What an end that is connected has done: it has taken from its link down to
`fs`, its DLC stays connected, and what it sends is `Fine`. -/
structure Acted (p q : Pair) (dl dl' : Side → Dlc) (x : Side) (fs out : List Frame) : Prop where
  balanced : Balanced q dl'
  state : (dl' x).state = .connected
  other : dl' x.other = dl x.other
  link : q.link x = fs
  sent : q.link x.other = p.link x.other ++ out
  fine : ∀ f ∈ out, Fine f

theorem Balanced.idle (h : Balanced p dl) (hx : (dl x).state = .connected) :
    Acted p p dl dl x (p.link x) [] :=
  ⟨h, hx, rfl, rfl, (append_nil _).symm, nofun⟩

/-- The pair when an end has acted. -/
def after (p : Pair) (x : Side) (d : Dlc) (fs out : List Frame) : Pair :=
  ({ p with link := update p.link x fs } : Pair).act x ((p.side x).setDlc d, out)

theorem side_after_self (p : Pair) (x : Side) (d : Dlc) (fs out : List Frame) :
    (after p x d fs out).side x = (p.side x).setDlc d := side_act_self _ _ _

theorem side_after_other (p : Pair) (x : Side) (d : Dlc) (fs out : List Frame) :
    (after p x d fs out).side x.other = p.side x.other := side_act_other _ _ _

theorem link_after_self (p : Pair) (x : Side) (d : Dlc) (fs out : List Frame) :
    (after p x d fs out).link x = fs := (link_act_self _ _ _).trans (update_self _ _ _)

theorem link_after_other (p : Pair) (x : Side) (d : Dlc) (fs out : List Frame) :
    (after p x d fs out).link x.other = p.link x.other ++ out := by
  refine (link_act_other _ _ _).trans ?_
  dsimp only
  rw [update_of_ne (other_ne x)]

/-- **One end acts**: what it does to its own DLC, takes from the link and
puts on it is accounted for. -/
theorem Balanced.after (h : Balanced p dl) {d : Dlc} {q o : List Frame}
    (hreceive : Ledger (p.side x).maxCredits d (dl x.other) q (p.link x.other ++ o))
    (hsend : Ledger (p.side x.other).maxCredits (dl x.other) d (p.link x.other ++ o) q)
    (hqueued : d.state = .connected → ∀ buf ∈ d.txQueue, buf ≠ []) :
    Balanced (after p x d q o) (update dl x d) := by
  have hself : update dl x d x = d := update_self _ _ _
  have hother : update dl x d x.other = dl x.other := update_of_ne (other_ne x) _ _
  have hside := side_after_self p x d q o
  have hside' := side_after_other p x d q o
  have hlink := link_after_self p x d q o
  have hlink' := link_after_other p x d q o
  refine ⟨forall_side x ?_ ?_, forall_side x ?_ ?_, forall_side x ?_ ?_, forall_side x ?_ ?_,
    forall_side x ?_ ?_, forall_side x ?_ ?_⟩
  · rw [hside, hself]
    rfl
  · rw [hside', hother, h.dlc]
  · rw [hside]
    exact h.cfc x
  · rw [hside', h.cfc]
  · rw [hside]
    exact h.fed x
  · rw [hside', h.fed]
  · rw [hside]
    exact h.max x
  · rw [hside']
    exact h.max x.other
  · rw [hself, hother, hside, hlink, hlink']
    exact hreceive
  · rw [hside', other_other, hself, hother, hlink, hlink']
    exact hsend
  · rw [hself]
    exact hqueued
  · rw [hother]
    exact h.queued x.other

theorem Balanced.acted (h : Balanced p dl) {d : Dlc} {q o : List Frame}
    (hstate : d.state = .connected)
    (hreceive : Ledger (p.side x).maxCredits d (dl x.other) q (p.link x.other ++ o))
    (hsend : Ledger (p.side x.other).maxCredits (dl x.other) d (p.link x.other ++ o) q)
    (hqueued : ∀ buf ∈ d.txQueue, buf ≠ []) (hfine : ∀ f ∈ o, Fine f) :
    Acted p (Rfcomm.after p x d q o) dl (update dl x d) x q o where
  balanced := h.after hreceive hsend fun _ => hqueued
  state := by rw [update_self, hstate]
  other := update_of_ne (other_ne x) _ _
  link := link_after_self p x d q o
  sent := link_after_other p x d q o
  fine := hfine

theorem after_eq_act (p : Pair) (x : Side) (d : Dlc) (out : List Frame) :
    after p x d (p.link x) out = p.act x ((p.side x).setDlc d, out) := by
  rw [after, update_eq_self]

theorem Balanced.txWorker (h : Balanced p dl) (hx : (dl x).state = .connected) :
    ∃ dl' out, Acted p (p.step (.txWork x)) dl dl' x (p.link x) out := by
  rw [step]
  rcases txWorker_connected (h.dlc x) hx (h.cfc x) with heq | ⟨buf, queue, hq, hcount, heq⟩
  · rw [heq, act_self]
    exact ⟨dl, [], h.idle hx⟩
  · have hrecv := h.ledger x
    have hsend := h.ledger x.other
    rw [other_other] at hsend
    rw [heq, ← after_eq_act]
    refine ⟨_, _, h.acted hx ⟨?_, hrecv.pos, hrecv.le, hrecv.limit⟩
      ⟨?_, hsend.pos, hsend.le, hsend.limit⟩ (fun b hb => ?_) fun f hf => ?_⟩
    · rw [creditsIn_append, creditsIn_cons]
      exact hrecv.agree
    · have hagree := hsend.agree
      rw [dataIn_append, dataIn_cons, Frame.isData, if_pos rfl, dataIn_nil]
      dsimp only
      omega
    · exact h.queued x hx b (by rw [hq]; exact mem_cons_of_mem _ hb)
    · rw [mem_singleton.1 hf]
      exact .data (h.queued x hx buf (by rw [hq]; exact mem_cons_self))

theorem Balanced.dlcSend (h : Balanced p dl) (hx : (dl x).state = .connected) {buf : List UInt8}
    (hbuf : buf ≠ []) : ∃ dl', Acted p (p.step (.send x buf)) dl dl' x (p.link x) [] := by
  rw [step, Session.dlcSend, h.dlc x]
  dsimp only
  rw [if_neg (not_not.2 hx)]
  split
  · rw [act_self]
    exact ⟨dl, h.idle hx⟩
  · have hrecv := h.ledger x
    have hsend := h.ledger x.other
    rw [other_other] at hsend
    rw [← after_eq_act]
    refine ⟨_, h.acted hx ?_ ?_ (fun b hb => ?_) nofun⟩
    · rw [append_nil]
      exact ⟨hrecv.agree, hrecv.pos, hrecv.le, hrecv.limit⟩
    · rw [append_nil]
      exact ⟨hsend.agree, hsend.pos, hsend.le, hsend.limit⟩
    · rcases mem_append.1 hb with hb | hb
      · exact h.queued x hx b hb
      · rwa [mem_singleton.1 hb]

/-- **A frame arrives** at an end that is connected. -/
theorem Balanced.recv (h : Balanced p dl) (hx : (dl x).state = .connected) {f : Frame}
    {fs : List Frame} (hl : p.link x = f :: fs) (hf : Fine f) (sec : Security) :
    ∃ dl' out, Acted p (p.step (.recv x sec)) dl dl' x fs out := by
  have hrecv := h.ledger x
  have hsend := h.ledger x.other
  rw [other_other] at hsend
  have hagree := hrecv.agree
  have hagree' := hsend.agree
  have hle' := hsend.le
  rw [hl] at hagree hagree'
  simp only [creditsIn_cons, dataIn_cons] at hagree hagree'
  have hstep : p.step (.recv x sec) =
      ({ p with link := update p.link x fs } : Pair).act x ((p.side x).recv sec f) := by
    rw [step, hl]
  rw [hstep]
  cases hf with
  | credit credits =>
    simp only [Frame.credits, Frame.isData] at hagree hagree'
    have hlimit := hsend.limit
    rw [recv_credit (h.dlc x) hx, giveCredits_count credits (by rw [hlimit, semMaxLimit]; omega)]
    refine ⟨_, _, h.acted hx ⟨?_, hrecv.pos, hrecv.le, hrecv.limit⟩
      ⟨?_, hsend.pos, hsend.le, hsend.limit⟩ (h.queued x hx) nofun⟩
    · rw [append_nil]
      exact hagree
    · rw [append_nil]
      dsimp only
      omega
  | @data info hinfo =>
    simp only [Frame.credits, Frame.isData] at hagree hagree'
    have hrx : (dl x).rxCredit ≠ 0 := by
      intro h0
      have := hrecv.pos
      rw [h0] at this
      exact absurd this (by decide)
    have hdec : ((dl x).rxCredit - 1).toNat = (dl x).rxCredit.toNat - 1 := by
      have hpos := hrecv.pos
      have hone : (1 : UInt8).toNat = 1 := rfl
      rw [UInt8.toNat_sub_of_le _ _ (UInt8.le_iff_toNat_le.2 (by omega)), hone]
    obtain ⟨rx, l, hupdate, hcount, hnone, hfine, hpos, hle⟩ :=
      updateCredits_spec (d := { dl x with rxCredit := (dl x).rxCredit - 1 }) (h.cfc x)
        (by have := hrecv.le; dsimp only; omega) (h.max x)
    rw [recv_data (h.dlc x) hx hrx sec hinfo, hupdate]
    dsimp only at hcount
    refine ⟨_, _, h.acted hx ⟨?_, hpos, hle, hrecv.limit⟩ ⟨?_, hsend.pos, hsend.le, hsend.limit⟩
      (h.queued x hx) hfine⟩
    · rw [creditsIn_append]
      have hpos := hrecv.pos
      dsimp only
      simp at hagree
      omega
    · rw [dataIn_append, hnone]
      dsimp only
      simp at hagree'
      omega
  | msc cr fc =>
    simp only [Frame.credits, Frame.isData] at hagree hagree'
    rw [recv_msc (h.dlc x) (h.cfc x)]
    have hset : (p.side x).setDlc (dl x) = p.side x := by
      rw [Session.setDlc, ← h.dlc x]
    have hout : ∀ f ∈ (if cr then [Frame.msc false fc] else []), Fine f ∧ f.credits = 0 ∧
        f.isData = false := by
      intro f hf
      split at hf
      · rw [mem_singleton.1 hf]
        exact ⟨.msc _ _, rfl, rfl⟩
      · cases hf
    have hnocredit : creditsIn (if cr then [Frame.msc false fc] else []) = 0 := by
      split <;> rfl
    have hnodata : dataIn (if cr then [Frame.msc false fc] else []) = 0 := by
      split <;> rfl
    have hacted := h.acted (x := x) (q := fs) (o := if cr then [Frame.msc false fc] else []) hx
      ⟨by rw [creditsIn_append, hnocredit]; simpa using hagree, hrecv.pos, hrecv.le, hrecv.limit⟩
      ⟨by rw [dataIn_append, hnodata]; simpa using hagree', hsend.pos, hsend.le, hsend.limit⟩
      (h.queued x hx) fun f hf => (hout f hf).1
    rw [Rfcomm.after, hset] at hacted
    exact ⟨_, _, hacted⟩

/-! ## The negotiation -/

/-- An end that does nothing but receive. -/
structure Still (s : Session) : Prop where
  start : ∀ sec, s.start sec = (s, [])
  encryptChange : ∀ ok, s.encryptChange ok = (s, [])
  dlcSend : ∀ buf, s.dlcSend buf = s
  txWorker : s.txWorker = (s, [])

theorem still_none (hd : s.dlc = none) : Still s := by
  refine ⟨fun _ => ?_, fun _ => ?_, fun _ => ?_, ?_⟩
  · rw [Session.start, hd]
  · rw [Session.encryptChange, hd]
  · rw [Session.dlcSend, hd]
  · rw [Session.txWorker, hd]

theorem still_waiting (hd : s.dlc = some d)
    (hstate : d.state = .connecting ∨ (d.state = .config ∧ d.txWork = false)) : Still s := by
  refine ⟨fun _ => ?_, fun _ => ?_, fun _ => ?_, ?_⟩
  · rw [Session.start, hd]
    dsimp only
    rw [if_neg]
    rintro ⟨-, h⟩
    rcases hstate with h' | ⟨h', -⟩ <;> rw [h'] at h <;> cases h
  · rw [Session.encryptChange, hd]
    dsimp only
    rw [if_pos]
    rcases hstate with h' | ⟨h', -⟩ <;> rw [h'] <;> decide
  · rw [Session.dlcSend, hd]
    dsimp only
    rw [if_pos]
    rcases hstate with h' | ⟨h', -⟩ <;> rw [h'] <;> decide
  · rw [Session.txWorker, hd]
    dsimp only
    split
    · rfl
    next hwork =>
      rcases hstate with h' | ⟨-, h'⟩
      · rw [h']
      · exact absurd h' (by simpa using hwork)

theorem Still.step (h : Still (p.side x)) :
    (∀ sec, p.step (.start x sec) = p) ∧ (∀ ok, p.step (.encryptChange x ok) = p) ∧
      (∀ buf, p.step (.send x buf) = p) ∧ p.step (.txWork x) = p := by
  refine ⟨fun sec => ?_, fun ok => ?_, fun buf => ?_, ?_⟩
  · rw [Pair.step, h.start, act_self]
  · rw [Pair.step, h.encryptChange, act_self]
  · rw [Pair.step, h.dlcSend, act_self]
  · rw [Pair.step, h.txWorker, act_self]

theorem recv_nil (h : p.link x = []) (sec : Security) : p.step (.recv x sec) = p := by
  rw [step, h]

theorem recv_cons {f : Frame} {fs : List Frame} (h : p.link x = f :: fs) (sec : Security) :
    p.step (.recv x sec) =
      ({ p with link := update p.link x fs } : Pair).act x ((p.side x).recv sec f) := by
  rw [step, h]

/-- Where an end of the negotiation is. -/
inductive Stage (p : Pair) (dl : Side → Dlc) : Prop
  | opening (hI : (dl .initiator).state = .connecting) (hA : (dl .acceptor).state = .config)
      (hrole : (dl .acceptor).role = .acceptor) (hwork : (dl .acceptor).txWork = false)
      (hlinkA : p.link .acceptor = [.sabm])
      (hlinkI : p.link .initiator = [])
  | securing (hI : (dl .initiator).state = .connecting)
      (hA : (dl .acceptor).state = .securityPending) (hrole : (dl .acceptor).role = .acceptor)
      (hlinkA : p.link .acceptor = []) (hlinkI : p.link .initiator = [])
  | opened (fs : List Frame) (hI : (dl .initiator).state = .connecting)
      (hA : (dl .acceptor).state = .connected) (hlinkA : p.link .acceptor = [])
      (hlinkI : p.link .initiator = .ua :: fs) (hfine : ∀ f ∈ fs, Fine f)
  | up (hstate : ∀ x, (dl x).state = .connected) (hfine : ∀ x, ∀ f ∈ p.link x, Fine f)

/-- **The course of a DLC** between two ends, from the start of the initiator on. -/
inductive Phase (p : Pair) : Prop
  | waiting (d : Dlc) (hd : (p.side .initiator).dlc = some d) (hrole : d.role = .initiator)
      (hstate : d.state = .init ∨ d.state = .securityPending)
      (hrx : d.rxCredit = (p.side .initiator).defaultCredit) (hwork : d.txWork = false)
      (hno : (p.side .acceptor).dlc = none) (hlink : ∀ x, p.link x = [])
  | offered (d : Dlc) (mtu : ℕ) (hd : (p.side .initiator).dlc = some d) (hstate : d.state = .config)
      (hrx : d.rxCredit = (p.side .initiator).defaultCredit) (hwork : d.txWork = false)
      (hno : (p.side .acceptor).dlc = none)
      (hlinkA : p.link .acceptor = [.pn true pnCfcCmd mtu d.rxCredit])
      (hlinkI : p.link .initiator = [])
  | answered (d d' : Dlc) (mtu : ℕ) (hd : (p.side .initiator).dlc = some d)
      (hstate : d.state = .config) (hrx : d.rxCredit = (p.side .initiator).defaultCredit)
      (hwork : d.txWork = false)
      (hd' : (p.side .acceptor).dlc = some d') (hrole' : d'.role = .acceptor)
      (hstate' : d'.state = .config)
      (hrx' : d'.rxCredit = (p.side .acceptor).defaultCredit) (hwork' : d'.txWork = false)
      (htx' : d'.txCredits = { count := d.rxCredit.toNat, limit := semMaxLimit })
      (hcfc : (p.side .acceptor).cfc = .supported)
      (hlinkA : p.link .acceptor = [])
      (hlinkI : p.link .initiator = [.pn false pnCfcResp mtu d'.rxCredit])
  | negotiated (dl : Side → Dlc) (hb : Balanced p dl) (hstage : Stage p dl)
  | refused (d : Dlc) (hd : (p.side .initiator).dlc = some d)
      (hstate : d.state = .connecting ∨ (d.state = .config ∧ d.txWork = false))
      (hno : (p.side .acceptor).dlc = none) (hlinkA : p.link .acceptor = [])
      (hlinkI : p.link .initiator = [.dm])
  | ended (hno : ∀ x, (p.side x).dlc = none) (hlink : ∀ x, p.link x = [])

/-- **What a run keeps.** -/
structure Inv (p : Pair) : Prop where
  cfc : ∀ x, (p.side x).cfc ≠ .notSupported
  fed : ∀ x, (p.side x).starved = false
  max : ∀ x, (p.side x).maxCredits % 256 ≠ 0
  phase : Phase p

/-- The condition on a step: no buffer without data is sent. -/
def HasData : Pair.Event → Prop
  | .send _ buf => buf ≠ []
  | _ => True

instance : DecidablePred HasData
  | .send _ buf => inferInstanceAs (Decidable (buf ≠ []))
  | .start .. | .encryptChange .. | .recv .. | .txWork _ => .isTrue trivial

theorem Inv.of_still (h : Inv p) (hstill : ∀ x, Still (p.side x))
    (hrecv : ∀ x sec, Inv (p.step (.recv x sec))) (e : Pair.Event) : Inv (p.step e) := by
  cases e with
  | start x sec => rwa [(hstill x).step.1]
  | encryptChange x ok => rwa [(hstill x).step.2.1]
  | recv x sec => exact hrecv x sec
  | send x buf => rwa [(hstill x).step.2.2.1]
  | txWork x => rwa [(hstill x).step.2.2.2]

theorem Balanced.inv (h : Balanced p dl) (hstage : Stage p dl) : Inv p where
  cfc x := by rw [h.cfc x]; decide
  fed := h.fed
  max := h.max
  phase := .negotiated dl h hstage

theorem Inv.act (h : Inv p) {q : Pair} (hside : q.side = p.side) {r : Session × List Frame}
    (hcfc : r.1.cfc ≠ .notSupported) (hfed : r.1.starved = false)
    (hmax : r.1.maxCredits = (p.side x).maxCredits) (hphase : Phase (q.act x r)) :
    Inv (q.act x r) := by
  refine ⟨forall_side x ?_ ?_, forall_side x ?_ ?_, forall_side x ?_ ?_, hphase⟩
  · rw [side_act_self]
    exact hcfc
  · rw [side_act_other, hside]
    exact h.cfc x.other
  · rw [side_act_self]
    exact hfed
  · rw [side_act_other, hside]
    exact h.fed x.other
  · rw [side_act_self, hmax]
    exact h.max x
  · rw [side_act_other, hside]
    exact h.max x.other

theorem Inv.offer (h : Inv p)
    (hrx : d.rxCredit = (p.side .initiator).defaultCredit) (hwork : d.txWork = false)
    (hno : (p.side .acceptor).dlc = none) (hlink : ∀ x, p.link x = []) :
    Inv (p.act .initiator ((p.side .initiator).dlcStart d .passed)) := by
  have hcfc := h.cfc .initiator
  have hpn : (p.side .initiator).pn
      { d with mtu := min d.mtu (p.side .initiator).mtu, state := .config } true =
      .pn true pnCfcCmd (min d.mtu (p.side .initiator).mtu) d.rxCredit := by
    rw [Session.pn, if_pos]
    · rfl
    · refine ⟨rfl, ?_⟩
      cases hc : (p.side .initiator).cfc with
      | unknown => exact .inl rfl
      | supported => exact .inr rfl
      | notSupported => exact absurd hc hcfc
  rw [Session.dlcStart, hpn]
  refine h.act rfl hcfc (h.fed _) rfl (.offered _ (min d.mtu (p.side .initiator).mtu) rfl rfl hrx
    hwork hno ?_ ?_)
  · refine (link_act_other p .initiator _).trans ?_
    rw [Side.other, hlink]
    rfl
  · exact (link_act_self p .initiator _).trans (hlink _)

theorem link_act_nil (hlink : ∀ y, p.link y = []) (x y : Side) (s : Session) :
    (p.act x (s, [])).link y = [] := by
  refine forall_side (P := fun y => (p.act x (s, [])).link y = []) x ?_ ?_ y
  · rw [link_act_self, hlink]
  · rw [link_act_other, hlink, append_nil]

theorem Inv.waiting_step (h : Inv p) (hd : (p.side .initiator).dlc = some d)
    (hrole : d.role = .initiator) (hstate : d.state = .init ∨ d.state = .securityPending)
    (hrx : d.rxCredit = (p.side .initiator).defaultCredit) (hwork : d.txWork = false)
    (hno : (p.side .acceptor).dlc = none) (hlink : ∀ x, p.link x = []) (e : Pair.Event) :
    Inv (p.step e) := by
  have hgone : Inv (p.act .initiator ({ p.side .initiator with dlc := none }, [])) := by
    refine h.act rfl (h.cfc _) (h.fed _) rfl (.ended ?_ fun y => link_act_nil hlink _ _ _)
    exact forall_both rfl hno
  have hacceptor := (still_none hno).step (p := p)
  cases e with
  | start x sec =>
    cases x with
    | acceptor => rwa [hacceptor.1]
    | initiator =>
      rw [Pair.step, Session.start, hd]
      dsimp only
      split
      · cases sec with
        | passed => exact h.offer hrx hwork hno hlink
        | pending =>
          refine h.act rfl (h.cfc _) (h.fed _) rfl (.waiting { d with state := .securityPending } rfl
            hrole (.inr rfl) hrx hwork hno fun y => link_act_nil hlink _ _ _)
        | reject => exact hgone
      · rwa [act_self]
  | encryptChange x ok =>
    cases x with
    | acceptor => rwa [hacceptor.2.1]
    | initiator =>
      rw [Pair.step, Session.encryptChange, hd]
      dsimp only
      split
      · rwa [act_self]
      next hpending =>
        split
        · rw [Session.dlcClose, not_not.1 hpending, hrole]
          exact hgone
        · rw [hrole, if_neg (by decide)]
          exact h.offer hrx hwork hno hlink
  | recv x sec => rwa [recv_nil (hlink x)]
  | send x buf =>
    cases x with
    | acceptor => rwa [hacceptor.2.2.1]
    | initiator =>
      have hsend : (p.side .initiator).dlcSend buf = p.side .initiator := by
        rw [Session.dlcSend, hd]
        dsimp only
        rw [if_pos]
        rcases hstate with h' | h' <;> rw [h'] <;> decide
      rwa [Pair.step, hsend, act_self]
  | txWork x =>
    cases x with
    | acceptor => rwa [hacceptor.2.2.2]
    | initiator =>
      have hidle : (p.side .initiator).txWorker = (p.side .initiator, []) := by
        rw [Session.txWorker, hd]
        dsimp only
        rw [hwork]
        rfl
      rwa [Pair.step, hidle, act_self]

theorem defaultCredit_toNat (s : Session) : s.defaultCredit.toNat = s.maxCredits % 256 :=
  UInt8.toNat_ofNat'

theorem pnCredits_eq (d : Dlc) (want credits : UInt8) :
    s.pnCredits d want want credits =
      ({ s with cfc := if s.cfc = .unknown then .supported else s.cfc },
        { d with txCredits := { count := credits.toNat, limit := semMaxLimit } }) := by
  have hlt : credits.toNat < 256 := UInt8.toNat_lt credits
  rw [Session.pnCredits, if_pos rfl, giveCredits_count]
  · simp
  · dsimp only
    rw [semMaxLimit]
    omega

theorem cfc_pnCredits (h : s.cfc ≠ .notSupported) :
    (if s.cfc = .unknown then Cfc.supported else s.cfc) = .supported := by
  cases hc : s.cfc with
  | unknown => rfl
  | supported => rfl
  | notSupported => exact absurd hc h

theorem Inv.refuse (h : Inv p) {q : Pair} (hside : q.side = p.side)
    (hd : (p.side .initiator).dlc = some d)
    (hstate : d.state = .connecting ∨ (d.state = .config ∧ d.txWork = false))
    (hlinkA : q.link .acceptor = []) (hlinkI : q.link .initiator = []) {s : Session}
    (hs : s = { p.side .acceptor with dlc := none }) : Inv (q.act .acceptor (s, [.dm])) := by
  subst hs
  refine h.act hside (h.cfc _) (h.fed _) rfl (.refused d ?_ hstate rfl ?_ ?_)
  · have := side_act_other q .acceptor ({ p.side .acceptor with dlc := none }, [.dm])
    rw [Side.other, hside] at this
    rw [this, hd]
  · exact (link_act_self q .acceptor _).trans hlinkA
  · have := link_act_other q .acceptor ({ p.side .acceptor with dlc := none }, [.dm])
    rw [Side.other, hlinkI] at this
    exact this

theorem dlcAccept_spec (h : s.dlcAccept = some d) :
    d.role = .acceptor ∧ d.rxCredit = s.defaultCredit ∧ d.txWork = false := by
  rw [Session.dlcAccept] at h
  split at h
  · cases h
  · split at h
    · obtain rfl := Option.some.inj h
      exact ⟨rfl, rfl, rfl⟩
    · cases h

theorem Inv.offered_step (h : Inv p) {mtu : ℕ} (hd : (p.side .initiator).dlc = some d)
    (hstate : d.state = .config) (hrx : d.rxCredit = (p.side .initiator).defaultCredit)
    (hwork : d.txWork = false) (hno : (p.side .acceptor).dlc = none)
    (hlinkA : p.link .acceptor = [.pn true pnCfcCmd mtu d.rxCredit])
    (hlinkI : p.link .initiator = []) (e : Pair.Event) : Inv (p.step e) := by
  refine h.of_still (forall_both (still_waiting hd (.inr ⟨hstate, hwork⟩))
    (still_none hno)) (fun x sec => ?_) e
  cases x with
  | initiator => rwa [recv_nil hlinkI]
  | acceptor =>
    rw [recv_cons hlinkA, Session.recv, Session.handlePn, hno]
    dsimp only
    rw [Session.pnAccept, if_neg (by simp)]
    have hrefuse := h.refuse (q := { p with link := update p.link .acceptor [] }) rfl hd
      (.inr ⟨hstate, hwork⟩) rfl hlinkI (s := p.side .acceptor) (by rw [← hno])
    split
    · exact hrefuse
    · cases hacc : (p.side .acceptor).dlcAccept with
      | none => exact hrefuse
      | some d₀ =>
        obtain ⟨hrole', hrx', hwork'⟩ := dlcAccept_spec hacc
        dsimp only
        rw [pnCredits_eq, cfc_pnCredits (h.cfc _)]
        dsimp only
        set s' : Session := { p.side .acceptor with cfc := .supported }
        have hpn : ∀ d', d'.state = .config → s'.pn d' false = .pn false pnCfcResp d'.mtu d'.rxCredit := by
          intro d' hd'
          rw [Session.pn, if_pos ⟨hd', .inr rfl⟩]
          rfl
        rw [hpn _ rfl]
        set d' : Dlc := { d₀ with
          state := .config, mtu := min d₀.mtu mtu, txCredits := ⟨d.rxCredit.toNat, semMaxLimit⟩ }
        set r := s'.setDlc d'
        have hother := side_act_other { p with link := update p.link .acceptor [] } .acceptor
          (r, [.pn false pnCfcResp (min d₀.mtu mtu) d₀.rxCredit])
        have hcfc : Cfc.supported ≠ .notSupported := by decide
        refine h.act (q := { p with link := update p.link .acceptor [] }) (x := .acceptor)
          (r := (r, [.pn false pnCfcResp d'.mtu d'.rxCredit])) rfl hcfc (h.fed .acceptor) rfl
          (.answered d d' d'.mtu ?_ hstate ?_ hwork ?_ hrole' rfl ?_ hwork' rfl ?_ ?_ ?_)
        · exact (congrArg Session.dlc hother).trans hd
        · exact hrx.trans (congrArg Session.defaultCredit hother).symm
        · rw [side_act_self]
          rfl
        · rw [side_act_self]
          exact hrx'
        · rw [side_act_self]
          rfl
        · exact link_act_self _ .acceptor _
        · refine (link_act_other _ .acceptor _).trans ?_
          dsimp only [Side.other]
          rw [update_of_ne (by decide), hlinkI]
          rfl

/-- A DLC for each end. -/
def both (d d' : Dlc) : Side → Dlc
  | .initiator => d
  | .acceptor => d'

theorem Inv.answered_step (h : Inv p) {mtu : ℕ} (hd : (p.side .initiator).dlc = some d)
    (hstate : d.state = .config) (hrx : d.rxCredit = (p.side .initiator).defaultCredit)
    (hwork : d.txWork = false)
    (hd' : (p.side .acceptor).dlc = some d') (hrole' : d'.role = .acceptor)
    (hstate' : d'.state = .config) (hrx' : d'.rxCredit = (p.side .acceptor).defaultCredit)
    (hwork' : d'.txWork = false)
    (htx' : d'.txCredits = { count := d.rxCredit.toNat, limit := semMaxLimit })
    (hcfc : (p.side .acceptor).cfc = .supported) (hlinkA : p.link .acceptor = [])
    (hlinkI : p.link .initiator = [.pn false pnCfcResp mtu d'.rxCredit]) (e : Pair.Event) :
    Inv (p.step e) := by
  refine h.of_still (forall_both (still_waiting hd (.inr ⟨hstate, hwork⟩))
    (still_waiting hd' (.inr ⟨hstate', hwork'⟩))) (fun x sec => ?_) e
  cases x with
  | acceptor => rwa [recv_nil hlinkA]
  | initiator =>
    rw [recv_cons hlinkI, Session.recv, Session.handlePn, hd]
    dsimp only
    rw [if_neg (by decide), if_neg (not_not.2 hstate), pnCredits_eq, cfc_pnCredits (h.cfc _)]
    dsimp only
    set s' : Session := { p.side .initiator with cfc := .supported }
    set d₁ : Dlc := { d with
      state := .connecting, mtu := min d.mtu mtu, txCredits := ⟨d'.rxCredit.toNat, semMaxLimit⟩ }
    set q := ({ p with link := update p.link .initiator [] } : Pair).act .initiator
      (s'.setDlc d₁, [.sabm])
    have hI : q.side .initiator = s'.setDlc d₁ := side_act_self _ .initiator _
    have hA : q.side .acceptor = p.side .acceptor := side_act_other _ .initiator _
    have hlI : q.link .initiator = [] := link_act_self _ .initiator _
    have hlA : q.link .acceptor = [.sabm] := by
      refine (link_act_other _ .initiator _).trans ?_
      dsimp only [Side.other]
      rw [update_of_ne (by decide), hlinkA]
      rfl
    have hmax : (q.side .initiator).maxCredits = (p.side .initiator).maxCredits := by rw [hI]; rfl
    have hrxI := (congrArg UInt8.toNat hrx).trans (defaultCredit_toNat _)
    have hrxA := (congrArg UInt8.toNat hrx').trans (defaultCredit_toNat _)
    have hmaxI := h.max .initiator
    have hmaxA := h.max .acceptor
    have hb : Balanced q (both d₁ d') := by
      refine ⟨forall_both ?_ ?_, forall_both ?_ ?_,
        forall_both ?_ ?_, forall_both ?_ ?_, forall_both ?_ ?_,
        forall_both nofun ?_⟩
      · rw [hI]
        rfl
      · rw [hA]
        exact hd'
      · rw [hI]
        rfl
      · rw [hA]
        exact hcfc
      · rw [hI]
        exact h.fed .initiator
      · rw [hA]
        exact h.fed .acceptor
      · rw [hmax]
        exact hmaxI
      · rw [hA]
        exact hmaxA
      · dsimp only [both, Side.other]
        rw [hmax, hlI, hlA]
        refine ⟨?_, ?_, ?_, ?_⟩
        · rw [htx']
          rfl
        · exact hrxI ▸ Nat.pos_of_ne_zero hmaxI
        · exact hrxI.le
        · rw [htx']
      · dsimp only [both, Side.other]
        rw [hA, hlI, hlA]
        exact ⟨rfl, hrxA ▸ Nat.pos_of_ne_zero hmaxA, hrxA.le, rfl⟩
      · intro hc
        rw [both, hstate'] at hc
        cases hc
    exact hb.inv (.opening rfl hstate' hrole' hwork' hlA hlI)

theorem dlcConnected_eq (d : Dlc) (h : s.cfc = .supported) :
    s.dlcConnected d = (s.setDlc { d with state := .connected, txQueue := [], txWork := true },
      [.msc true false]) := by
  obtain ⟨maxCredits, mtu, cfc, fc, dlc, server, starved⟩ := s
  obtain rfl : cfc = .supported := h
  rfl

theorem Balanced.still (h : Balanced p dl) (hx : (dl x).state = .connecting) : Still (p.side x) :=
  still_waiting (h.dlc x) (.inl hx)

theorem Balanced.accept (h : Balanced p dl) (hI : (dl .initiator).state = .connecting)
    (hlinkI : p.link .initiator = []) {fs : List Frame}
    (hlinkA : p.link .acceptor = fs) (hnone : creditsIn fs = 0) (hnone' : dataIn fs = 0) :
    Inv (({ p with link := update p.link .acceptor [] } : Pair).act .acceptor
      ((p.side .acceptor).sabmDlc (dl .acceptor) .passed)) := by
  have hledgerA := h.ledger .acceptor
  have hledgerI := h.ledger .initiator
  dsimp only [Side.other] at hledgerA hledgerI
  rw [hlinkA] at hledgerA hledgerI
  rw [Session.sabmDlc, dlcConnected_eq _ (h.cfc _)]
  have hnew := h.after (x := .acceptor) (q := []) (o := [.ua, .msc true false])
    (d := { dl .acceptor with state := .connected, txQueue := [], txWork := true }) ?_ ?_ fun _ => nofun
  · refine hnew.inv (.opened [.msc true false] ?_ ?_ ?_ ?_ ?_)
    · rw [update_of_ne (by decide)]
      exact hI
    · rw [update_self]
    · exact link_after_self _ _ _ _ _
    · refine (link_after_other p .acceptor _ _ _).trans ?_
      rw [Side.other, hlinkI]
      rfl
    · intro f hf
      rw [mem_singleton.1 hf]
      exact .msc _ _
  · refine ⟨?_, hledgerA.pos, hledgerA.le, hledgerA.limit⟩
    have := hledgerA.agree
    rw [creditsIn_append]
    rw [hnone'] at this
    exact this
  · refine ⟨?_, hledgerI.pos, hledgerI.le, hledgerI.limit⟩
    have := hledgerI.agree
    rw [dataIn_append]
    rw [hnone] at this
    exact this

theorem Balanced.opening_step (h : Balanced p dl) (hinv : Inv p)
    (hI : (dl .initiator).state = .connecting) (hA : (dl .acceptor).state = .config)
    (hrole : (dl .acceptor).role = .acceptor) (hwork : (dl .acceptor).txWork = false)
    (hlinkA : p.link .acceptor = [.sabm]) (hlinkI : p.link .initiator = []) (e : Pair.Event) :
    Inv (p.step e) := by
  refine hinv.of_still (forall_both (h.still hI)
    (still_waiting (h.dlc _) (.inr ⟨hA, hwork⟩))) (fun x sec => ?_) e
  cases x with
  | initiator => rwa [recv_nil hlinkI]
  | acceptor =>
    rw [recv_cons hlinkA, Session.recv, Session.handleSabm, h.dlc, Option.some_or]
    dsimp only
    cases sec with
    | passed => exact h.accept hI hlinkI hlinkA rfl rfl
    | reject =>
      exact hinv.refuse (q := { p with link := update p.link .acceptor [] }) rfl (h.dlc _)
        (.inl hI) rfl hlinkI rfl
    | pending =>
      have hledgerA := h.ledger .acceptor
      have hledgerI := h.ledger .initiator
      dsimp only [Side.other] at hledgerA hledgerI
      rw [hlinkA] at hledgerA hledgerI
      have hnew := h.after (x := .acceptor) (q := []) (o := [])
        (d := { dl .acceptor with state := .securityPending }) ?_ ?_ nofun
      · refine hnew.inv (.securing ?_ ?_ ?_ ?_ ?_)
        · rw [update_of_ne (by decide)]
          exact hI
        · rw [update_self]
        · rw [update_self]
          exact hrole
        · exact link_after_self _ _ _ _ _
        · refine (link_after_other p .acceptor _ _ _).trans ?_
          rw [Side.other, hlinkI]
          rfl
      · rw [append_nil]
        exact ⟨hledgerA.agree, hledgerA.pos, hledgerA.le, hledgerA.limit⟩
      · rw [append_nil]
        exact ⟨hledgerI.agree, hledgerI.pos, hledgerI.le, hledgerI.limit⟩

theorem Balanced.securing_step (h : Balanced p dl) (hinv : Inv p)
    (hI : (dl .initiator).state = .connecting) (hA : (dl .acceptor).state = .securityPending)
    (hrole : (dl .acceptor).role = .acceptor) (hlinkA : p.link .acceptor = [])
    (hlinkI : p.link .initiator = []) (e : Pair.Event) : Inv (p.step e) := by
  have hstill := (h.still hI).step (p := p)
  have hsame : ({ p with link := update p.link .acceptor [] } : Pair) = p := by
    rw [← hlinkA, update_eq_self]
  cases e with
  | start x sec =>
    cases x with
    | initiator => rwa [hstill.1]
    | acceptor =>
      have : (p.side .acceptor).start sec = (p.side .acceptor, []) := by
        rw [Session.start, h.dlc]
        dsimp only
        rw [if_neg fun hc => by rw [hrole] at hc; exact absurd hc.1 (by decide)]
      rwa [step, this, act_self]
  | encryptChange x ok =>
    cases x with
    | initiator => rwa [hstill.2.1]
    | acceptor =>
      rw [step, Session.encryptChange, h.dlc]
      dsimp only
      rw [if_neg (not_not.2 hA)]
      split
      · rw [Session.dlcClose, hA, hrole]
        exact hinv.refuse rfl (h.dlc _) (.inl hI) hlinkA hlinkI rfl
      · have := h.accept hI hlinkI hlinkA rfl rfl
        rwa [hsame] at this
  | recv x sec =>
    cases x with
    | initiator => rwa [recv_nil hlinkI]
    | acceptor => rwa [recv_nil hlinkA]
  | send x buf =>
    cases x with
    | initiator => rwa [hstill.2.2.1]
    | acceptor =>
      have : (p.side .acceptor).dlcSend buf = p.side .acceptor := by
        rw [Session.dlcSend, h.dlc]
        dsimp only
        rw [hA, if_pos (by decide)]
      rwa [step, this, act_self]
  | txWork x =>
    cases x with
    | initiator => rwa [hstill.2.2.2]
    | acceptor =>
      have : (p.side .acceptor).txWorker = (p.side .acceptor, []) := by
        rw [Session.txWorker, h.dlc]
        dsimp only
        rw [hA]
        split <;> rfl
      rwa [step, this, act_self]

theorem Balanced.not_started (h : Balanced p dl) (hx : (dl x).state = .connected) :
    (∀ sec, p.step (.start x sec) = p) ∧ ∀ ok, p.step (.encryptChange x ok) = p := by
  refine ⟨fun sec => ?_, fun ok => ?_⟩
  · have : (p.side x).start sec = (p.side x, []) := by
      rw [Session.start, h.dlc]
      dsimp only
      rw [if_neg fun hc => by rw [hx] at hc; exact absurd hc.2 (by decide)]
    rw [step, this, act_self]
  · have : (p.side x).encryptChange ok = (p.side x, []) := by
      rw [Session.encryptChange, h.dlc]
      dsimp only
      rw [hx, if_pos (by decide)]
    rw [step, this, act_self]

/-- The acceptor is connected already, and what it does reaches the initiator
after its answer. -/
theorem Balanced.opened_step (h : Balanced p dl) (hinv : Inv p) {fs : List Frame}
    (hI : (dl .initiator).state = .connecting) (hA : (dl .acceptor).state = .connected)
    (hlinkA : p.link .acceptor = []) (hlinkI : p.link .initiator = .ua :: fs)
    (hfine : ∀ f ∈ fs, Fine f) {e : Pair.Event} (he : HasData e) : Inv (p.step e) := by
  have hstill := (h.still hI).step (p := p)
  have hnot := h.not_started hA
  have hacted : ∀ {q dl' out}, Acted p q dl dl' .acceptor [] out → Inv q := by
    intro q dl' out ha
    refine ha.balanced.inv (.opened (fs ++ out) ?_ ha.state ha.link ?_ ?_)
    · exact (congrArg Dlc.state ha.other).trans hI
    · exact ha.sent.trans (by rw [Side.other, hlinkI]; rfl)
    · intro f hf
      exact (mem_append.1 hf).elim (hfine f) (ha.fine f)
  cases e with
  | start x sec =>
    cases x with
    | initiator => rwa [hstill.1]
    | acceptor => rwa [hnot.1]
  | encryptChange x ok =>
    cases x with
    | initiator => rwa [hstill.2.1]
    | acceptor => rwa [hnot.2]
  | recv x sec =>
    cases x with
    | acceptor => rwa [recv_nil hlinkA]
    | initiator =>
      have hledgerA := h.ledger .acceptor
      have hledgerI := h.ledger .initiator
      dsimp only [Side.other] at hledgerA hledgerI
      rw [hlinkI] at hledgerA hledgerI
      rw [recv_cons hlinkI, Session.recv, Session.handleUa, h.dlc]
      dsimp only
      rw [hI]
      dsimp only
      rw [dlcConnected_eq _ (h.cfc _)]
      have hnew := h.after (x := .initiator) (q := fs) (o := [.msc true false])
        (d := { dl .initiator with state := .connected, txQueue := [], txWork := true }) ?_ ?_
        fun _ => nofun
      · refine hnew.inv (.up (forall_both ?_ ?_) (forall_both ?_ ?_))
        · rw [update_self]
        · rw [update_of_ne (by decide)]
          exact hA
        · have := link_after_self p .initiator { dl .initiator with
            state := .connected, txQueue := [], txWork := true } fs [.msc true false]
          rw [this]
          exact hfine
        · have := link_after_other p .initiator { dl .initiator with
            state := .connected, txQueue := [], txWork := true } fs [.msc true false]
          rw [Side.other, hlinkA] at this
          rw [this]
          intro f hf
          rw [mem_singleton.1 hf]
          exact .msc _ _
      · refine ⟨?_, hledgerI.pos, hledgerI.le, hledgerI.limit⟩
        have := hledgerI.agree
        rw [creditsIn_append]
        rw [dataIn_cons] at this
        exact this
      · refine ⟨?_, hledgerA.pos, hledgerA.le, hledgerA.limit⟩
        have := hledgerA.agree
        rw [dataIn_append]
        rw [creditsIn_cons] at this
        simp only [Frame.credits, zero_add] at this
        exact this
  | send x buf =>
    cases x with
    | initiator => rwa [hstill.2.2.1]
    | acceptor =>
      obtain ⟨dl', ha⟩ := h.dlcSend hA he
      rw [hlinkA] at ha
      exact hacted ha
  | txWork x =>
    cases x with
    | initiator => rwa [hstill.2.2.2]
    | acceptor =>
      obtain ⟨dl', out, ha⟩ := h.txWorker hA
      rw [hlinkA] at ha
      exact hacted ha

theorem Balanced.up_step (h : Balanced p dl) (hinv : Inv p)
    (hstate : ∀ x, (dl x).state = .connected) (hfine : ∀ x, ∀ f ∈ p.link x, Fine f)
    {e : Pair.Event} (he : HasData e) : Inv (p.step e) := by
  have hacted : ∀ {q dl' x fs out}, Acted p q dl dl' x fs out → (∀ f ∈ fs, Fine f) → Inv q := by
    intro q dl' x fs out ha hfs
    refine ha.balanced.inv (.up (forall_side x ha.state ?_) (forall_side x ?_ ?_))
    · rw [ha.other]
      exact hstate _
    · rw [ha.link]
      exact hfs
    · rw [ha.sent]
      intro f hf
      exact (mem_append.1 hf).elim (hfine _ f) (ha.fine f)
  cases e with
  | start x sec => rwa [(h.not_started (hstate x)).1]
  | encryptChange x ok => rwa [(h.not_started (hstate x)).2]
  | recv x sec =>
    cases hl : p.link x with
    | nil => rwa [recv_nil hl]
    | cons f fs =>
      have hall := hfine x
      rw [hl] at hall
      obtain ⟨dl', out, ha⟩ := h.recv (hstate x) hl (hall f mem_cons_self) sec
      exact hacted ha fun g hg => hall g (mem_cons_of_mem _ hg)
  | send x buf =>
    obtain ⟨dl', ha⟩ := h.dlcSend (hstate x) he
    exact hacted ha (hfine x)
  | txWork x =>
    obtain ⟨dl', out, ha⟩ := h.txWorker (hstate x)
    exact hacted ha (hfine x)

/-- **One event** keeps what a run keeps. -/
theorem Inv.step (h : Inv p) {e : Pair.Event} (he : HasData e) : Inv (p.step e) := by
  cases h.phase with
  | waiting d hd hrole hstate hrx hwork hno hlink =>
    exact h.waiting_step hd hrole hstate hrx hwork hno hlink e
  | offered d mtu hd hstate hrx hwork hno hlinkA hlinkI =>
    exact h.offered_step hd hstate hrx hwork hno hlinkA hlinkI e
  | answered d d' mtu hd hstate hrx hwork hd' hrole' hstate' hrx' hwork' htx' hcfc hlinkA hlinkI =>
    exact h.answered_step hd hstate hrx hwork hd' hrole' hstate' hrx' hwork' htx' hcfc hlinkA hlinkI e
  | negotiated dl hb hstage =>
    cases hstage with
    | opening hI hA hrole hwork hlinkA hlinkI =>
      exact hb.opening_step h hI hA hrole hwork hlinkA hlinkI e
    | securing hI hA hrole hlinkA hlinkI => exact hb.securing_step h hI hA hrole hlinkA hlinkI e
    | opened fs hI hA hlinkA hlinkI hfine => exact hb.opened_step h hI hA hlinkA hlinkI hfine he
    | up hstate hfine => exact hb.up_step h hstate hfine he
  | refused d hd hstate hno hlinkA hlinkI =>
    refine h.of_still (forall_both (still_waiting hd hstate) (still_none hno)) (fun x sec => ?_) e
    cases x with
    | acceptor => rwa [recv_nil hlinkA]
    | initiator =>
      rw [recv_cons hlinkI, Session.recv]
      have hempty : ∀ y, ({ p with link := update p.link .initiator [] } : Pair).link y = [] :=
        forall_both rfl hlinkA
      exact h.act (q := { p with link := update p.link .initiator [] }) rfl (h.cfc _)
        (h.fed _) rfl (.ended (forall_both rfl hno) fun y => link_act_nil hempty _ y _)
  | ended hno hlink =>
    exact h.of_still (fun x => still_none (hno x)) (fun x sec => by rwa [recv_nil (hlink x)]) e

/-! ## Runs -/

/-- The initiator's DLC has been initialised, and nothing has been sent. -/
structure Start (p : Pair) : Prop where
  cfc : ∀ x, (p.side x).cfc ≠ .notSupported
  fed : ∀ x, (p.side x).starved = false
  dlc : ∃ d, (p.side .initiator).dlc = some ((p.side .initiator).dlcInit d .initiator)
  none : (p.side .acceptor).dlc = none
  link : ∀ x, p.link x = []

theorem Start.inv (h : Start p) (hmax : ∀ x, (p.side x).maxCredits % 256 ≠ 0) : Inv p := by
  obtain ⟨d, hd⟩ := h.dlc
  exact ⟨h.cfc, h.fed, hmax, .waiting _ hd rfl (.inl rfl) rfl rfl h.none h.link⟩

theorem Ledger.flows {max : ℕ} (h : Ledger max d d' toD toD') (hc : creditsIn toD' = 0)
    (hd : dataIn toD = 0) : 0 < d'.txCredits.count := by
  have hagree := h.agree
  have hpos := h.pos
  omega

theorem Inv.agrees (h : Inv p) : Agrees p := by
  have hb : ∀ d d', (p.side .initiator).dlc = some d → (p.side .acceptor).dlc = some d' →
      Negotiated d d' → Ledger (p.side .initiator).maxCredits d d' (p.link .initiator) (p.link .acceptor) ∧
        Ledger (p.side .acceptor).maxCredits d' d (p.link .acceptor) (p.link .initiator) := by
    intro d d' hd hd' hn
    cases h.phase with
    | negotiated dl hb hstage =>
      obtain rfl := Option.some.inj (hd.symm.trans (hb.dlc _))
      obtain rfl := Option.some.inj (hd'.symm.trans (hb.dlc _))
      exact ⟨hb.ledger .initiator, hb.ledger .acceptor⟩
    | waiting d₀ _ _ _ _ _ hno => simp [hno] at hd'
    | offered d₀ _ _ _ _ _ hno => simp [hno] at hd'
    | refused d₀ _ _ hno => simp [hno] at hd'
    | ended hno => simp [hno] at hd'
    | answered d₀ _ _ hd₀ hstate =>
      obtain rfl := Option.mem_unique hd hd₀
      rcases hn.1 with hc | hc <;> rw [hstate] at hc <;> cases hc
  have hle : ∀ x, (p.side x).maxCredits % 256 ≤ (p.side x).maxCredits := fun x => Nat.mod_le _ _
  refine ⟨fun d d' hd hd' hn => ?_, h.fed, fun d d' hd hd' hn => ?_⟩
  · obtain ⟨hi, ha⟩ := hb d d' hd hd' hn
    exact ⟨⟨hi.agree, hi.le.trans (hle _)⟩, ha.agree, ha.le.trans (hle _)⟩
  · obtain ⟨hi, ha⟩ := hb d d' hd hd' hn
    exact ⟨hi.flows, ha.flows⟩

/-- **Credit agreement over whole runs**: where each end can count its credits
and every buffer that is sent has data. -/
theorem dlc_credits_agree {p : Pair} {es : List Pair.Event} (hp : Start p)
    (hmax : ∀ x, (p.side x).maxCredits % 256 ≠ 0) (hrun : Along Pair.step (fun _ => HasData) p es) :
    Agrees (run Pair.step p es) :=
  (inv_run Inv (fun _ _ h he => h.step he) (hp.inv hmax) hrun).agrees

/-- An initiator that has initialised its DLC, and an acceptor with a
server. -/
def samplePair (maxCredits : ℕ) : Pair where
  side
    | .initiator =>
      { maxCredits, mtu := 667, dlc := some { state := .init, rxCredit := UInt8.ofNat maxCredits } }
    | .acceptor => { maxCredits, mtu := 667, server := some {} }
  link _ := []

theorem start_samplePair (maxCredits : ℕ) : Start (samplePair maxCredits) :=
  ⟨forall_both (by simp [samplePair]) (by simp [samplePair]), forall_both rfl rfl, ⟨{}, rfl⟩, rfl,
    fun _ => rfl⟩

/-- The DLC is negotiated and opened. -/
def opens : List Pair.Event :=
  [.start .initiator .passed, .recv .acceptor .passed, .recv .initiator .passed,
    .recv .acceptor .passed, .recv .initiator .passed]

/-- Three buffers and their credits. -/
theorem dlc_credits_agree_sample :
    Agrees (run Pair.step (samplePair 2) (opens ++ [.send .acceptor [1], .send .acceptor [2],
      .send .acceptor [3], .txWork .acceptor, .txWork .acceptor, .txWork .acceptor,
      .recv .initiator .passed, .recv .initiator .passed, .recv .acceptor .passed,
      .recv .acceptor .passed, .txWork .acceptor])) :=
  dlc_credits_agree (start_samplePair 2) (forall_both (by decide) (by decide)) (by decide)

theorem not_agrees (hI : (p.side .initiator).dlc.map (fun d => (d.state, d.txCredits.count)) =
      some (.connected, 0)) (hA : (p.side .acceptor).dlc.map (·.state) = some .connected)
    (hlink : creditsIn (p.link .initiator) = 0 ∧ dataIn (p.link .acceptor) = 0) : ¬ Agrees p := by
  obtain ⟨d, hd, hval⟩ := Option.map_eq_some_iff.1 hI
  obtain ⟨d', hd', hstate'⟩ := Option.map_eq_some_iff.1 hA
  obtain ⟨hstate, hcount⟩ := Prod.ext_iff.1 hval
  dsimp only at hstate hcount
  intro h
  have := (h.flows d d' hd hd' ⟨.inr hstate, .inr (.inr hstate')⟩).2 hlink.1 hlink.2
  omega

/-- The ends disagree: the acceptor counts no credit for the empty buffer that
the initiator used one for, and the initiator is out of credits for good; and
256 credits are none in eight bits. -/
theorem dlc_credits_disagree :
    Start (samplePair 1) ∧ Start (samplePair 256) ∧
      ¬ Agrees (run Pair.step (samplePair 1) (opens ++ [.send .initiator [], .txWork .initiator,
        .recv .initiator .passed, .recv .acceptor .passed, .recv .acceptor .passed,
        .recv .initiator .passed])) ∧
      ¬ Agrees (run Pair.step (samplePair 256) opens) := by
  refine ⟨start_samplePair 1, start_samplePair 256, not_agrees ?_ ?_ ?_, not_agrees ?_ ?_ ?_⟩
  all_goals decide

end Rfcomm

end OpenBlue

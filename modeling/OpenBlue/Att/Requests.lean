import OpenBlue.Att.Model.Requests
import OpenBlue.Att.Ownership
/-!
# ATT requests — where a request is

A request that was sent waits in the list of the connection, or is
outstanding on one bearer, until it is answered or cancelled. What a
function of `att.c` does to all requests is stated once (`Told`): the
places of each and the calls of its `func` add up as before, and what is
freed is what was told. Sending (`Passed`) moves requests and tells none.

A buffer that is destroyed can send further requests, on bearers that are
attached: `K` are bearers that include these. A request's own PDU is never
destroyed in sending it, because it is not a Signed Write; so the bearer
that is being detached is not given a request again.
-/

namespace OpenBlue

namespace Att

open List

/-- How often the request is on a bearer. -/
def Slot.holds (i : ℕ) : Slot → ℕ
  | .busy req => if req.id = i then 1 else 0
  | _ => 0

namespace Bearers

variable {K L : Finset ℕ} {s s' t : Bearers} {fs fs' : List ℕ} {sent : ℕ → Bearers → Bearers}

/-! ## Counting requests -/

/-- How often the request is in the list of the connection. -/
def waiting (i : ℕ) (s : Bearers) : ℕ := (s.reqs.map Req.id).count i

/-- How often it is outstanding on the bearers. -/
def outstanding (K : Finset ℕ) (i : ℕ) (s : Bearers) : ℕ := ∑ c ∈ K, (s.chan c).req.holds i

/-- How often its `func` was called. -/
def called (i : ℕ) (s : Bearers) : ℕ := (s.done.map fun d => d.req.id).count i

@[simp] theorem holds_idle (i : ℕ) : Slot.idle.holds i = 0 := rfl

@[simp] theorem holds_cancelled (i : ℕ) : Slot.cancelled.holds i = 0 := rfl

@[simp] theorem holds_busy (i : ℕ) (req : Req) : (Slot.busy req).holds i = [req.id].count i := by
  rw [Slot.holds, count_singleton]
  simp only [beq_iff_eq]

theorem waiting_cons {i : ℕ} {req : Req} {reqs : List Req} (hperm : s.reqs.Perm (req :: reqs)) :
    waiting i s = [req.id].count i + waiting i { s with reqs } := by
  have hcount := (hperm.map Req.id).count_eq i
  simp only [waiting, hcount, map_cons, count_cons, List.count_nil]
  omega

theorem outstanding_setReq (s : Bearers) {c : ℕ} (hc : c ∈ K) (req : Slot) (i : ℕ) :
    outstanding K i (s.setReq c req) + (s.chan c).req.holds i = outstanding K i s + req.holds i :=
  sum_update_add (fun chan : Chan => chan.req.holds i) s.chan hc { s.chan c with req }

theorem outstanding_congr (h : ∀ c ∈ K, (s'.chan c).req = (s.chan c).req) (i : ℕ) :
    outstanding K i s' = outstanding K i s := Finset.sum_congr rfl fun c hc => by rw [h c hc]

/-- The requests that wait can be sent without being signed. -/
def Plain (s : Bearers) : Prop :=
  ∀ req ∈ s.reqs, ∀ buf, req.buf = some buf → buf.op ≠ Op.signedWriteCmd

/-- The bearers where a buffer that is destroyed can send. -/
structure Reach (K : Finset ℕ) (s : Bearers) : Prop where
  attached : ∀ c, (s.chan c).attached = true → c ∈ K
  plain : Plain s

/-- **What is done to the requests**: of those freed, `func` was called. -/
structure Told (K : Finset ℕ) (fs : List ℕ) (s s' : Bearers) : Prop where
  count : ∀ i, waiting i s' + outstanding K i s' + called i s' =
    waiting i s + outstanding K i s + called i s
  freed : ∀ i, called i s' = called i s + fs.count i
  outside : ∀ c ∉ K, (s'.chan c).req = (s.chan c).req
  reqs : ∀ req ∈ s'.reqs, req ∈ s.reqs
  length : s'.reqs.length ≤ s.reqs.length
  stays : Stays s s'

/-- Requests go on, and no bearer in use is given another. -/
structure Passed (K : Finset ℕ) (s s' : Bearers) : Prop extends Told K [] s s' where
  kept : ∀ c, (s.chan c).req ≠ .idle → (s'.chan c).req = (s.chan c).req

theorem Told.trans (h : Told K fs s s') (h' : Told K fs' s' t) : Told K (fs ++ fs') s t where
  count i := (h'.count i).trans (h.count i)
  freed i := by
    rw [h'.freed, h.freed, count_append]
    omega
  outside c hc := (h'.outside c hc).trans (h.outside c hc)
  reqs req hreq := h.reqs req (h'.reqs req hreq)
  length := h'.length.trans h.length
  stays := h.stays.trans h'.stays

theorem Passed.trans (h : Passed K s s') (h' : Passed K s' t) : Passed K s t where
  toTold := h.toTold.trans h'.toTold
  kept c hc := by rw [h'.kept c (by rwa [h.kept c hc]), h.kept c hc]

theorem Told.mono (h : Told K fs s s') (hK : K ⊆ L) : Told L fs s s' where
  count i := by
    have hrest : outstanding (L \ K) i s' = outstanding (L \ K) i s :=
      outstanding_congr (fun c hc => h.outside c (Finset.mem_sdiff.1 hc).2) i
    have hs : outstanding (L \ K) i s + outstanding K i s = outstanding L i s :=
      Finset.sum_sdiff hK
    have hs' : outstanding (L \ K) i s' + outstanding K i s' = outstanding L i s' :=
      Finset.sum_sdiff hK
    have := h.count i
    omega
  freed := h.freed
  outside c hc := h.outside c fun hmem => hc (hK hmem)
  reqs := h.reqs
  length := h.length
  stays := h.stays

theorem Passed.mono (h : Passed K s s') (hK : K ⊆ L) : Passed L s s' :=
  ⟨h.toTold.mono hK, h.kept⟩

theorem Same.passed (h : Same s s') : Passed K s s' where
  count i := by
    rw [waiting, waiting, h.reqs, called, called, h.done, outstanding_congr (fun c _ => h.req c)]
  freed i := by rw [called, called, h.done, List.count_nil, Nat.add_zero]
  outside c _ := h.req c
  reqs req hreq := h.reqs ▸ hreq
  length := by rw [h.reqs]
  stays := h.toStays
  kept c _ := h.req c

theorem Passed.rfl : Passed K s s :=
  Same.passed ⟨⟨Eq.refl _, fun _ => Eq.refl _, fun _ => Eq.refl _⟩, Eq.refl _, fun _ => Eq.refl _,
    Eq.refl _⟩

theorem placeRule_passed (K : Finset ℕ) : PlaceRule (Passed K) :=
  ⟨fun _ => .rfl, Passed.trans, Same.passed⟩

theorem stays_reqs (s : Bearers) (reqs : List Req) : Stays s { s with reqs } :=
  ⟨rfl, fun _ => rfl, fun _ => rfl⟩

theorem stays_setReq (s : Bearers) (c : ℕ) (req : Slot) : Stays s (s.setReq c req) :=
  ⟨rfl, setChan_congr Chan.attached rfl, setChan_congr Chan.connected rfl⟩

theorem setReq_self (s : Bearers) (c : ℕ) (req : Slot) : ((s.setReq c req).chan c).req = req := by
  simp only [setReq, setChan, Function.update_self]

theorem setReq_of_ne {c c' : ℕ} (h : c' ≠ c) (s : Bearers) (req : Slot) :
    (s.setReq c req).chan c' = s.chan c' := by
  simp only [setReq, setChan, Function.update_of_ne h]

theorem Reach.told (h : Reach K s) (ht : Told L fs s s') : Reach K s' where
  attached c := by
    rw [ht.stays.attached]
    exact h.attached c
  plain req hreq := h.plain req (ht.reqs req hreq)

/-! ## Sending -/

/-- The calls that a destroyed buffer makes. -/
def Passes (K : Finset ℕ) (sent : ℕ → Bearers → Bearers) : Prop :=
  ∀ c s, Reach K s → Passed K s (sent c s)

theorem callRule_passed (hsent : Passes K sent) : CallRule sent (Reach K) (Passed K) where
  toPlaceRule := placeRule_passed K
  fit h hp := h.told hp.toTold
  sent h c := hsent c _ h

theorem passed_take {c : ℕ} {req : Req} {reqs : List Req} (hc : c ∈ K)
    (hidle : (s.chan c).req = .idle) (hperm : s.reqs.Perm (req :: reqs)) :
    Passed K s (({ s with reqs } : Bearers).setReq c (.busy { req with buf := none })) where
  count i := by
    have hout := outstanding_setReq { s with reqs } hc (.busy { req with buf := none }) i
    have hwait := waiting_cons hperm (i := i)
    have hslot : (({ s with reqs } : Bearers).chan c).req = .idle := hidle
    rw [hslot, holds_idle, holds_busy] at hout
    simp only [waiting, outstanding, called, setReq, setChan] at *
    omega
  freed _ := (Nat.add_zero _).symm
  outside c' hc' := by
    rw [setReq_of_ne (ne_of_mem_of_not_mem hc hc').symm]
  reqs r hr := hperm.mem_iff.2 (mem_cons_of_mem _ hr)
  length := by
    rw [hperm.length_eq, length_cons]
    exact Nat.le_succ _
  stays := (stays_reqs s reqs).trans (stays_setReq _ c _)
  kept c' hc' := by
    have hne : c' ≠ c := by
      rintro rfl
      exact hc' hidle
    rw [setReq_of_ne hne]

/-- **A request taken from the list** is on the bearer, or is put back. -/
theorem passed_btAttChanReqSend (sent : ℕ → Bearers → Bearers) {c : ℕ} {req : Req}
    {reqs : List Req} (hplain : Plain s) (hc : c ∈ K) (hidle : (s.chan c).req = .idle)
    (hperm : s.reqs.Perm (req :: reqs)) :
    let r := btAttChanReqSend sent { s with reqs } c req
    (r.1 = none → Passed K s r.2) ∧
      (r.1 ≠ none → Passed K s { r.2 with reqs := req :: r.2.reqs }) := by
  have hmem : req ∈ s.reqs := hperm.mem_iff.2 mem_cons_self
  have hback : Passed K s { s with reqs := req :: reqs } := by
    have hwait : ∀ i, waiting i { s with reqs := req :: reqs } = waiting i s := fun i => by
      rw [waiting_cons hperm, waiting_cons (s := { s with reqs := req :: reqs }) (List.Perm.refl _)]
    exact ⟨⟨fun i => by rw [hwait]; rfl, fun _ => (Nat.add_zero _).symm, fun _ _ => rfl,
      fun r hr => hperm.mem_iff.2 hr, hperm.length_eq.ge, stays_reqs s _⟩, fun _ _ => rfl⟩
  rcases hbuf : req.buf with _ | buf
  · simp only [btAttChanReqSend, hbuf]
    exact ⟨by simp, fun _ => hback⟩
  · simp only [btAttChanReqSend, hbuf]
    split
    · exact ⟨by simp, fun _ => hback⟩
    · set u : Bearers := ({ s with reqs } : Bearers).setReq c (.busy { req with buf := none })
      have htake : Passed K s u := passed_take hc hidle hperm
      have hsend : Passed K u (btAttChanSend sent u c buf).2 :=
        (placeRule_passed K).btAttChanSend u c buf fun hop => absurd hop (hplain req hmem buf hbuf)
      have hbusy : (u.chan c).req = .busy { req with buf := none } := setReq_self _ c _
      split
      next err s' heq =>
        rw [heq] at hsend
        have hm := htake.trans hsend
        have hslot : (s'.chan c).req = .busy { req with buf := none } := by
          rw [hsend.kept c (by rw [hbusy]; simp), hbusy]
        refine ⟨by simp, fun _ => ⟨⟨fun i => ?_, hm.freed, fun c' hc' => ?_, ?_, ?_, ?_⟩, ?_⟩⟩
        · -- off the bearer, and back into the list
          have hout := outstanding_setReq s' hc .idle i
          have hwait := waiting_cons (s := { s'.setReq c .idle with
            reqs := req :: (s'.setReq c .idle).reqs }) (List.Perm.refl _) (i := i)
          have hcount := hm.count i
          rw [hslot, holds_idle, holds_busy] at hout
          simp only [waiting, outstanding, called, setReq, setChan] at *
          omega
        · rw [← hm.outside c' hc']
          exact congrArg Chan.req (setReq_of_ne (ne_of_mem_of_not_mem hc hc').symm s' .idle)
        · intro r hr
          rcases mem_cons.1 hr with rfl | hr
          · exact hmem
          · exact hm.reqs r hr
        · have hlen : s'.reqs.length ≤ reqs.length := hsend.length
          rw [hperm.length_eq, length_cons, length_cons]
          exact Nat.succ_le_succ hlen
        · exact (hm.stays.trans (stays_setReq s' c .idle)).trans (stays_reqs _ _)
        · intro c' hc'
          have hne : c' ≠ c := by
            rintro rfl
            exact hc' hidle
          rw [← hm.kept c' hc']
          exact congrArg Chan.req (setReq_of_ne hne s' .idle)
      next heq =>
        rw [heq] at hsend
        exact ⟨fun _ => htake.trans hsend, by simp⟩

theorem sendRule_plain (K : Finset ℕ) (sent : ℕ → Bearers → Bearers) :
    SendRule sent Plain (· ∈ K) (Passed K) where
  refl _ := .rfl
  trans := Passed.trans
  fit hplain hp r hr := hplain r (hp.reqs r hr)
  req hplain hc hidle hperm := passed_btAttChanReqSend sent hplain hc hidle hperm

theorem sendRule_reach (K : Finset ℕ) (sent : ℕ → Bearers → Bearers) :
    SendRule sent (Reach K) (· ∈ K) (Passed K) where
  refl _ := .rfl
  trans := Passed.trans
  fit h hp := h.told hp.toTold
  req h hc hidle hperm := passed_btAttChanReqSend sent h.plain hc hidle hperm

theorem passed_attSent (hsent : Passes K sent) (c : ℕ) (h : Reach K s) :
    Passed K s (attSent sent c s) :=
  (sendRule_reach K sent).attSent (callRule_passed hsent).processTxQueue
    (callRule_passed hsent).processChanQueue (Same.passed (same_setChan s c _ rfl rfl rfl)) (h.attached c) h

/-- **A destroyed buffer sends**, to every depth. -/
theorem passes_attSentN (n : ℕ) : Passes K (attSentN n) := by
  induction n with
  | zero => exact fun _ _ _ => .rfl
  | succ n ih => exact fun c s h => passed_attSent ih c h

theorem passes_onSent : Passes K onSent := fun c _ h => passes_attSentN _ c _ h

theorem passed_attReqSendProcess (sent : ℕ → Bearers → Bearers) (hplain : Plain s) :
    Passed s.chans.toFinset s (attReqSendProcess sent s) :=
  (sendRule_plain _ sent).attReqSendLoop none false (fun _ hc => mem_toFinset.2 hc) hplain

/-! ## Completing a request -/

theorem called_append (i : ℕ) (d : Done) :
    called i { s with done := s.done ++ [d] } = called i s + [d.req.id].count i := by
  simp only [called, map_append, map_cons, map_nil, count_append]

theorem callRule_onSent (K : Finset ℕ) : CallRule onSent (Reach K) (Passed K) :=
  callRule_passed passes_onSent

/-- **The request on a bearer is completed**, and others go on. A bearer
that is not in the list any more has none afterwards. -/
theorem told_complete {c : ℕ} (h : Reach K s) (hc : c ∈ K) (hchans : ∀ c' ∈ s.chans, c' ∈ K)
    (pdu : List UInt8) (err : Option Errno) :
    Told K (completeFrees s c) s (complete onSent s c pdu err) ∧
      (c ∉ s.chans → ((complete onSent s c pdu err).chan c).req = .idle) := by
  have hnext : ∀ u : Bearers, Plain u → u.chans = s.chans →
      Passed K (u.setReq c .idle) (attReqSendProcess onSent (u.setReq c .idle)) ∧
        (c ∉ s.chans → ((attReqSendProcess onSent (u.setReq c .idle)).chan c).req = .idle) := by
    intro u hplain hu
    have hm := passed_attReqSendProcess onSent (s := u.setReq c .idle) hplain
    refine ⟨hm.mono fun c' hc' => hchans c' (hu ▸ mem_toFinset.1 hc'), fun hmem => ?_⟩
    rw [hm.outside c (fun hc' => hmem (hu ▸ mem_toFinset.1 hc')), setReq_self]
  have hoff : ∀ (u : Bearers) i, outstanding K i (u.setReq c .idle) + (u.chan c).req.holds i =
      outstanding K i u := fun u i => outstanding_setReq u hc .idle i
  have houtside : ∀ (u : Bearers), ∀ c' ∉ K, ((u.setReq c .idle).chan c').req = (u.chan c').req :=
    fun u c' hc' => congrArg Chan.req (setReq_of_ne (ne_of_mem_of_not_mem hc hc').symm u .idle)
  match hreq : (s.chan c).req with
  | .idle =>
    simp only [complete, completeFrees, hreq]
    exact ⟨Passed.rfl.toTold, fun _ => trivial⟩
  | .cancelled =>
    simp only [complete, completeFrees, hreq]
    obtain ⟨hm, hidle⟩ := hnext s h.plain rfl
    have htold : Told K [] s (s.setReq c .idle) := by
      refine ⟨fun i => ?_, fun _ => rfl, houtside s, fun _ hr => hr, le_rfl, stays_setReq s c .idle⟩
      have := hoff s i
      rw [hreq, holds_cancelled] at this
      have hwait : waiting i (s.setReq c .idle) = waiting i s := rfl
      have hcalled : called i (s.setReq c .idle) = called i s := rfl
      omega
    exact ⟨htold.trans hm.toTold, hidle⟩
  | .busy req =>
    simp only [complete, completeFrees, hreq]
    have hfree := (callRule_onSent K).reqFree h req
    have hslot := hfree.kept c (by rw [hreq]; simp)
    set u := reqFree onSent s req
    obtain ⟨hm, hidle⟩ := hnext u (h.told hfree.toTold).plain hfree.stays.chans
    refine ⟨⟨fun i => ?_, fun i => ?_, fun c' hc' => ?_, fun r hr => ?_, ?_, ?_⟩, hidle⟩
    · have := hoff u i
      have hcount := hm.count i
      have hcount' := hfree.count i
      rw [hslot, hreq, holds_busy] at this
      rw [called_append]
      simp only [waiting, outstanding, called, setReq, setChan] at *
      omega
    · rw [called_append, hm.freed, List.count_nil]
      exact congrArg (· + _) (hfree.freed i)
    · exact (hm.outside c' hc').trans ((houtside u c' hc').trans (hfree.outside c' hc'))
    · exact hfree.reqs r (hm.reqs r hr)
    · exact hm.length.trans hfree.length
    · exact (hfree.stays.trans (stays_setReq u c .idle)).trans
        (hm.stays.trans ⟨rfl, fun _ => rfl, fun _ => rfl⟩)

theorem told_dropReqs (n : ℕ) (h : Reach K s) (hn : s.reqs.length ≤ n) :
    Told K (dropReqsFrees onSent n s) s (dropReqs onSent n s) ∧
      (dropReqs onSent n s).reqs = [] := by
  induction n generalizing s with
  | zero => exact ⟨Passed.rfl.toTold, length_eq_zero_iff.1 (Nat.le_zero.1 hn)⟩
  | succ n ih =>
    rw [dropReqs, dropReqsFrees]
    cases hcons : s.reqs with
    | nil => exact ⟨Passed.rfl.toTold, hcons⟩
    | cons req reqs =>
      rw [hcons, length_cons] at hn
      set u : Bearers := { s with reqs, done := s.done ++ [⟨req, some .econnreset, []⟩] }
      have htold : Told K [req.id] s u := by
        refine ⟨fun i => ?_, fun i => called_append i _, fun _ _ => rfl, fun r hr => ?_, ?_,
          ⟨rfl, fun _ => rfl, fun _ => rfl⟩⟩
        · have hwait := waiting_cons (hcons ▸ List.Perm.refl _ : s.reqs.Perm (req :: reqs)) (i := i)
          have hcalled : called i u = called i s + [req.id].count i := called_append i _
          have hout : outstanding K i u = outstanding K i s := rfl
          have hu : waiting i u = waiting i { s with reqs } := rfl
          omega
        · rw [hcons]
          exact mem_cons_of_mem _ hr
        · rw [hcons]
          exact Nat.le_succ _
      have hfree := (callRule_onSent K).reqFree (h.told htold) req
      have hm := htold.trans hfree.toTold
      have hlen : (reqFree onSent u req).reqs.length ≤ reqs.length := hfree.length
      obtain ⟨hrest, hnil⟩ := ih (h.told hm) (by omega)
      exact ⟨hm.trans hrest, hnil⟩

/-! ## What an event does -/

/-- How often the request is in a place. -/
def places (i : ℕ) (s : Bearers) : ℕ := waiting i s + outstanding s.chans.toFinset i s

/-- Who is there: a bearer in the list is attached, and another has no
request. -/
structure Tidy (s : Bearers) : Prop where
  nodup : s.chans.Nodup
  attached : ∀ c, (s.chan c).attached = true ↔ c ∈ s.chans
  connected : ∀ c, (s.chan c).connected = true → (s.chan c).attached = true
  idle : ∀ c ∉ s.chans, (s.chan c).req = .idle
  plain : Plain s

/-- Where nobody is, nothing waits. -/
structure Orderly (s : Bearers) : Prop extends Tidy s where
  gone : s.chans = [] → s.reqs = []

/-- **The accounts**: the requests `ts` are sent, `cs` cancelled and `fs`
freed. -/
structure Booked (ts cs fs : List ℕ) (s s' : Bearers) : Prop where
  count : ∀ i, places i s' + called i s' + cs.count i = places i s + called i s + ts.count i
  freed : ∀ i, called i s' + cs.count i = called i s + fs.count i

/-- An event's accounts, and what is there after it. -/
structure Kept (ts cs fs : List ℕ) (s s' : Bearers) : Prop extends Booked ts cs fs s s' where
  orderly : Orderly s'

theorem Tidy.reach (h : Tidy s) : Reach s.chans.toFinset s where
  attached c hc := mem_toFinset.2 ((h.attached c).1 hc)
  plain := h.plain

theorem Tidy.listed (h : Tidy s) : Listed s := ⟨h.nodup, h.attached, h.connected⟩

theorem Tidy.told (h : Tidy s) (ht : Told s.chans.toFinset fs s s') : Tidy s' where
  nodup := by
    rw [ht.stays.chans]
    exact h.nodup
  attached c := by
    rw [ht.stays.attached, ht.stays.chans]
    exact h.attached c
  connected c := by
    rw [ht.stays.attached, ht.stays.connected]
    exact h.connected c
  idle c hc := by
    rw [ht.stays.chans] at hc
    rw [ht.outside c (fun hmem => hc (mem_toFinset.1 hmem)), h.idle c hc]
  plain := (h.reach.told ht).plain

theorem Orderly.told (h : Orderly s) (ht : Told s.chans.toFinset fs s s') : Orderly s' where
  toTidy := h.toTidy.told ht
  gone hnil := by
    rw [ht.stays.chans] at hnil
    have hlen := ht.length
    rw [h.gone hnil, length_nil] at hlen
    exact length_eq_zero_iff.1 (by omega)

theorem Told.booked (h : Told s.chans.toFinset fs s s') : Booked [] [] fs s s' where
  count i := by
    have := h.count i
    rw [places, places, h.stays.chans, List.count_nil]
    omega
  freed i := by rw [h.freed, List.count_nil, Nat.add_zero]

theorem Orderly.kept (h : Orderly s) (ht : Told s.chans.toFinset fs s s') : Kept [] [] fs s s' :=
  ⟨ht.booked, h.told ht⟩

theorem Booked.trans {ts cs ts' cs' : List ℕ} (h : Booked ts cs fs s s')
    (h' : Booked ts' cs' fs' s' t) : Booked (ts ++ ts') (cs ++ cs') (fs ++ fs') s t where
  count i := by
    have := h.count i
    have := h'.count i
    rw [count_append, count_append]
    omega
  freed i := by
    have := h.freed i
    have := h'.freed i
    rw [count_append, count_append]
    omega

theorem outstanding_subset (hK : L ⊆ K) (h : ∀ c ∈ K, c ∉ L → (s.chan c).req = .idle) (i : ℕ) :
    outstanding L i s = outstanding K i s :=
  Finset.sum_subset hK fun c hc hc' => by rw [h c hc hc', holds_idle]

/-- **A bearer is detached**, and its request told. -/
theorem tidy_attChanDetach (h : Tidy s) {c : ℕ} (hc : (s.chan c).attached = true) :
    Tidy (attChanDetach onSent s c) ∧
      Booked [] [] (attChanDetachFrees onSent s c) s (attChanDetach onSent s c) := by
  have hmem := (h.attached c).1 hc
  have hsub : ∀ c' ∈ s.chans.erase c, c' ∈ s.chans.toFinset := fun c' hc' =>
    mem_toFinset.2 (mem_of_mem_erase hc')
  have hreach : Reach s.chans.toFinset { s with chans := s.chans.erase c } :=
    ⟨h.reach.attached, h.plain⟩
  have hdrain := (callRule_onSent _).drainChan c (s.chan c).txQueue.length hreach
  have hleft : (drainChan onSent c (s.chan c).txQueue.length
      { s with chans := s.chans.erase c }).chans = s.chans.erase c := hdrain.stays.chans
  obtain ⟨htold, hidle⟩ := told_complete (hreach.told hdrain.toTold) (mem_toFinset.2 hmem)
    (fun c' hc' => hsub c' (hleft ▸ hc')) [] (some .econnreset)
  have hm := hdrain.toTold.trans htold
  rw [hleft] at hidle
  rw [attChanDetach, attChanDetachFrees]
  dsimp only
  generalize complete onSent (drainChan onSent c (s.chan c).txQueue.length
    { s with chans := s.chans.erase c }) c [] (some .econnreset) = u at hm hidle ⊢
  have hchans : u.chans = s.chans.erase c := hm.stays.chans
  have hself := hidle h.nodup.not_mem_erase
  set v := u.setChan c { u.chan c with attached := false, connected := false }
  have hreq : ∀ c', (v.chan c').req = (u.chan c').req := setChan_congr Chan.req rfl
  have hidle' : ∀ c' ∉ s.chans.erase c, (u.chan c').req = .idle := by
    intro c' hc'
    by_cases hne : c' = c
    · rw [hne, hself]
    · have hout : c' ∉ s.chans := fun hin => hc' ((mem_erase_of_ne hne).2 hin)
      have := hm.outside c' fun hin => hout (mem_toFinset.1 hin)
      exact this.trans (h.idle c' hout)
  have hlisted := h.listed.detach hchans hm.stays.attached hm.stays.connected
  refine ⟨⟨hlisted.nodup, hlisted.attached, hlisted.connected, fun c' hc' => ?_, ?_⟩,
    fun i => ?_, fun i => ?_⟩
  · rw [hreq]
    exact hidle' c' fun hin => hc' (hchans.symm ▸ hin)
  · exact fun req hmem => h.plain req (hm.reqs req hmem)
  · have hcount := hm.count i
    have hout : outstanding v.chans.toFinset i v = outstanding s.chans.toFinset i u := by
      rw [outstanding_congr (fun c' _ => hreq c')]
      refine outstanding_subset (fun c' hc' => hsub c' ?_) (fun c' _ hc' => hidle' c' ?_) i
      · exact hchans ▸ mem_toFinset.1 hc'
      · exact fun hin => hc' (mem_toFinset.2 (hchans.symm ▸ hin))
    have hv : waiting i v = waiting i u ∧ called i v = called i u := ⟨rfl, rfl⟩
    simp only [places, hout, hv, List.count_nil]
    exact hcount
  · exact hm.freed i

theorem kept_attDisconnected (h : Orderly s) (c : ℕ) :
    Kept [] [] (attDisconnectedFrees onSent s c) s (attDisconnected onSent s c) := by
  rw [attDisconnected, attDisconnectedFrees]
  split
  · exact h.kept Passed.rfl.toTold
  next hc =>
    obtain ⟨htidy, hbooked⟩ := tidy_attChanDetach h.toTidy (not_not.1 hc)
    dsimp only
    split
    next hne => exact ⟨hbooked, htidy, fun hnil => absurd hnil hne⟩
    next hnil =>
      rw [attReset, attResetFrees]
      generalize attChanDetach onSent s c = u at htidy hbooked hnil ⊢
      have hdrain := (callRule_onSent _).drainTx u.txQueue.length htidy.reach
      obtain ⟨hdrop, hreqs⟩ := told_dropReqs _ (htidy.reach.told hdrain.toTold)
        (le_refl (drainTx onSent u.txQueue.length u).reqs.length)
      have hm := hdrain.toTold.trans hdrop
      exact ⟨hbooked.trans hm.booked, htidy.told hm, fun _ => hreqs⟩

theorem kept_attHandleRsp (h : Orderly s) {c : ℕ} (hc : (s.chan c).attached = true)
    (pdu : List UInt8) (err : Option Errno) :
    Kept [] [] (attHandleRspFrees onSent s c) s (attHandleRsp onSent s c pdu err) := by
  rw [attHandleRsp, attHandleRspFrees]
  split
  · exact kept_attDisconnected h c
  · exact h.kept (told_complete h.reach (h.reach.attached c hc)
      (fun c' hc' => mem_toFinset.2 hc') pdu err).1

theorem Passed.kept_trans {ts cs : List ℕ} (hm : Passed s.chans.toFinset s s')
    (h : Kept ts cs fs s' t) : Kept ts cs fs s t :=
  ⟨hm.toTold.booked.trans h.toBooked, h.orderly⟩

theorem kept_attErrorRsp (h : Orderly s) {c : ℕ} (hc : (s.chan c).attached = true)
    (body : List UInt8) (raised : Bool) : Kept [] [] (attErrorRspFrees onSent s c body raised) s
      (attErrorRsp onSent s c body raised) := by
  simp only [attErrorRsp, attErrorRspFrees]
  match hreq : (s.chan c).req with
  | .idle => exact kept_attHandleRsp h hc _ _
  | .cancelled => exact kept_attHandleRsp h hc _ _
  | .busy req =>
    dsimp only
    split
    · exact kept_attHandleRsp h hc _ _
    split
    · -- the same request, which is sent again
      have hmem := h.reach.attached c hc
      refine h.kept ⟨fun i => ?_, fun _ => rfl, fun c' hc' => ?_, fun _ hr => hr, le_rfl,
        stays_setReq s c _⟩
      · have hout := outstanding_setReq s hmem (.busy { req with retrying := true }) i
        rw [hreq, holds_busy, holds_busy] at hout
        simp only [waiting, called, setReq, setChan] at *
        omega
      · rw [setReq_of_ne (ne_of_mem_of_not_mem hmem hc').symm]
    · exact kept_attHandleRsp h hc _ _

theorem kept_recv (h : Orderly s) (c : ℕ) (raised : Bool) (pdu : List UInt8) :
    Kept [] [] (recvFrees onSent s c raised pdu) s (recv onSent s c raised pdu) := by
  have hself : Kept [] [] [] s s := h.kept Passed.rfl.toTold
  match pdu with
  | [] => exact hself
  | op :: body =>
    rw [recv, recvFrees]
    split
    · exact hself
    split
    · exact hself
    next hc =>
      have hc := not_not.1 hc
      generalize (answers s.cfg).find? _ = handler
      rcases handler with _ | ⟨_, expectLen⟩
      · exact hself
      · dsimp only
        split
        · exact hself
        split
        · exact kept_attErrorRsp h hc body raised
        split
        · rw [attMtuRsp, attMtuRspFrees]
          dsimp only
          split
          · exact kept_attHandleRsp h hc _ _
          · have hset : Passed s.chans.toFinset s (s.setChan c
                { s.chan c with rxMtu := s.cfg.localMtuUatt, txMtu := getLe16 body }) :=
              Same.passed (same_setChan s c _ rfl rfl rfl)
            exact hset.kept_trans (kept_attHandleRsp (h.told hset.toTold)
              ((hset.stays.attached c).trans hc) _ _)
        · exact kept_attHandleRsp h hc _ _

theorem kept_encryptChange (h : Orderly s) (c : ℕ) (fails low created encoded : Bool) :
    Kept [] [] (encryptChangeFrees onSent s c fails low created encoded) s
      (encryptChange onSent s c fails low created encoded) := by
  have hself : Kept [] [] [] s s := h.kept Passed.rfl.toTold
  rw [encryptChange, encryptChangeFrees]
  split
  · exact hself
  next hc =>
    have hc := not_not.1 hc
    cases (s.chan c).req with
    | idle | cancelled => exact hself
    | busy req =>
      dsimp only
      split
      · exact hself
      split
      · exact kept_attHandleRsp h hc _ _
      split
      · exact hself
      · have hretry := (callRule_onSent _).attReqRetry h.reach c req created encoded
        generalize attReqRetry onSent s c req created encoded = r at hretry ⊢
        rcases r with ⟨_ | err, u⟩
        · exact h.kept hretry.toTold
        · exact hretry.kept_trans (kept_attHandleRsp (h.told hretry.toTold)
            ((hretry.stays.attached c).trans hc) _ _)

/-! ## Who sends and cancels -/

/-- **A request is in a place**: it waits, or is outstanding on a bearer. -/
def Placed (s : Bearers) (req : Req) : Prop :=
  req ∈ s.reqs ∨ ∃ c ∈ s.chans, (s.chan c).req = .busy req

theorem takeFirst_none {α : Type*} {p : α → Bool} {l : List α} (h : takeFirst p l = none) :
    ∀ x ∈ l, p x = false := by
  induction l with
  | nil => simp
  | cons y ys ih =>
    rw [takeFirst] at h
    split at h
    · exact absurd h (by simp)
    next hy =>
      intro x hx
      rcases mem_cons.1 hx with rfl | hx
      · simpa using hy
      · exact ih (Option.map_eq_none_iff.1 h) x hx

theorem findReq_some {id c : ℕ} (h : s.findReq id = some c) :
    c ∈ s.chans ∧ ∃ req, (s.chan c).req = .busy req ∧ req.id = id := by
  refine ⟨mem_of_find?_eq_some h, ?_⟩
  have hp := find?_some h
  match hreq : (s.chan c).req with
  | .busy req => exact ⟨req, rfl, by simpa [hreq] using hp⟩
  | .idle => simp [hreq] at hp
  | .cancelled => simp [hreq] at hp

/-- **A request that is in a place is cancelled**: it is not told, and
freed once. -/
theorem kept_btAttReqCancel (h : Orderly s) {req : Req} (hplaced : Placed s req) :
    Kept [] (if s.attGet then [req.id] else []) (btAttReqCancelFrees s req.id) s
      (btAttReqCancel onSent s req.id) := by
  have hreach := h.reach
  rw [btAttReqCancel, btAttReqCancelFrees]
  by_cases hget : s.attGet = true
  swap
  · rw [if_pos hget, if_pos hget, if_neg hget]
    exact h.kept Passed.rfl.toTold
  rw [if_neg (not_not.2 hget), if_neg (not_not.2 hget), if_pos hget]
  -- what is freed is out of its place, and nobody is called
  have hfree : ∀ {u : Bearers} (r : Req), Orderly u → u.chans = s.chans →
      (∀ i, places i u + [req.id].count i = places i s) → (∀ i, called i u = called i s) →
      Kept [] [req.id] [req.id] s (reqFree onSent u r) := by
    intro u r hu _ hcount hcalled
    have hm := (callRule_onSent _).reqFree hu.reach r
    refine ⟨⟨fun i => ?_, fun i => ?_⟩, hu.told hm.toTold⟩
    · have := hm.toTold.booked.count i
      have := hcount i
      have := hcalled i
      simp only [List.count_nil] at *
      omega
    · rw [hm.freed, hcalled, List.count_nil, Nat.add_zero]
  split
  next c hfound =>
    obtain ⟨hmem, r, hreq, hid⟩ := findReq_some hfound
    rw [hreq]
    have hc := mem_toFinset.2 hmem
    have hne : ∀ c', c' ≠ c → (s.setReq c .cancelled).chan c' = s.chan c' := fun c' hne =>
      setReq_of_ne hne s .cancelled
    refine hfree r ⟨⟨h.nodup, fun c' => ?_, fun c' => ?_, fun c' hc' => ?_, h.plain⟩, h.gone⟩ rfl
      (fun i => ?_) fun _ => rfl
    · rw [(stays_setReq s c .cancelled).attached]
      exact h.attached c'
    · rw [(stays_setReq s c .cancelled).attached, (stays_setReq s c .cancelled).connected]
      exact h.connected c'
    · have hout : c' ∉ s.chans := hc'
      rw [hne c' (ne_of_mem_of_not_mem hmem hout).symm]
      exact h.idle c' hout
    · have hout := outstanding_setReq s hc .cancelled i
      rw [hreq, holds_cancelled, holds_busy, hid] at hout
      simp only [places, waiting, setReq, setChan] at *
      omega
  next hfound =>
    rcases hfirst : takeFirst (fun r : Req => r.id = req.id) s.reqs with _ | ⟨r, reqs⟩
    · -- the request would have been found
      rcases hplaced with hmem | ⟨c, hc, hreq⟩
      · simpa using takeFirst_none hfirst req hmem
      · have := find?_eq_none.1 hfound c hc
        simp [hreq] at this
    · obtain ⟨hp, hperm⟩ := takeFirst_some hfirst
      have hid : r.id = req.id := by simpa using hp
      refine hfree r ⟨⟨h.nodup, h.attached, h.connected, h.idle, fun r' hr' => ?_⟩, fun hnil => ?_⟩
        rfl (fun i => ?_) fun _ => rfl
      · exact h.plain r' (hperm.mem_iff.2 (mem_cons_of_mem _ hr'))
      · rw [h.gone hnil] at hperm
        exact absurd hperm.length_eq (by simp)
      · have hwait := waiting_cons hperm (i := i)
        have hout : outstanding s.chans.toFinset i { s with reqs } =
          outstanding s.chans.toFinset i s := rfl
        rw [hid] at hwait
        simp only [places]
        omega

end Bearers

end Att

end OpenBlue

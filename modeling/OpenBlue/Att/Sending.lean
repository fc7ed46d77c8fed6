import OpenBlue.Att.Model.Bearer
/-!
# ATT bearers — the rules of sending

What is sent when a bearer is free is taken from the list of requests, and
from the two queues. A relation between the states before and after that
every attempt keeps (`SendRule`) is kept by all of them together. One that
looks at nothing but the places of the requests (`CallRule`) is kept by what
sends a buffer, queues it or destroys it, and by the events that do no more.
-/

namespace OpenBlue

namespace Att

namespace Bearers

variable {sent : ℕ → Bearers → Bearers} {Fit : Bearers → Prop} {On : ℕ → Prop}
  {R : Bearers → Bearers → Prop} {s s' t : Bearers} {c : ℕ}

theorem setChan_congr {α : Type*} (f : Chan → α) {chan : Chan} (h : f chan = f (s.chan c))
    (c' : ℕ) : f ((s.setChan c chan).chan c') = f (s.chan c') := by
  simp only [setChan]
  by_cases hc : c' = c
  · rw [hc, Function.update_self, h]
  · rw [Function.update_of_ne hc]

theorem takeFirst_some {α : Type*} {p : α → Bool} {l rest : List α} {x : α}
    (h : takeFirst p l = some (x, rest)) : p x = true ∧ l.Perm (x :: rest) := by
  induction l generalizing rest with
  | nil => simp [takeFirst] at h
  | cons y ys ih =>
    rw [takeFirst] at h
    split at h
    next hy =>
      obtain ⟨rfl, rfl⟩ := Prod.mk.inj (Option.some.inj h)
      exact ⟨hy, List.Perm.refl _⟩
    next =>
      obtain ⟨⟨z, zs⟩, hz, heq⟩ := Option.map_eq_some_iff.1 h
      obtain ⟨rfl, rfl⟩ := Prod.mk.inj heq
      exact ⟨(ih hz).1, ((ih hz).2.cons y).trans (List.Perm.swap z y zs)⟩

/-- A request taken from the list is sent, or put back, as the relation
has it, from states that are `Fit` and on bearers that are `On`. -/
structure SendRule (sent : ℕ → Bearers → Bearers) (Fit : Bearers → Prop) (On : ℕ → Prop)
    (R : Bearers → Bearers → Prop) : Prop where
  refl : ∀ s, R s s
  trans : ∀ {s s' t}, R s s' → R s' t → R s t
  fit : ∀ {s s'}, Fit s → R s s' → Fit s'
  req : ∀ {s c req reqs}, Fit s → On c → (s.chan c).req = .idle → s.reqs.Perm (req :: reqs) →
    let r := btAttChanReqSend sent { s with reqs } c req
    (r.1 = none → R s r.2) ∧ (r.1 ≠ none → R s { r.2 with reqs := req :: r.2.reqs })

theorem SendRule.attReqSendLoop (h : SendRule sent Fit On R) (prev : Option ℕ) (found : Bool)
    {cs : List ℕ} (hcs : ∀ c ∈ cs, On c) (hs : Fit s) :
    R s (attReqSendLoop sent prev found cs s) := by
  induction cs generalizing prev found s with
  | nil => exact h.refl s
  | cons c cs ih =>
    have hrest : ∀ c ∈ cs, On c := fun c' hc' => hcs c' (List.mem_cons_of_mem _ hc')
    rw [Bearers.attReqSendLoop]
    split
    · exact ih prev found hrest hs
    next hidle =>
      split
      · exact ih prev found hrest hs
      split
      · exact ih _ _ hrest hs
      next req reqs hfirst =>
        obtain ⟨hgone, hback⟩ := h.req hs (hcs c List.mem_cons_self) (not_not.1 hidle)
          (takeFirst_some hfirst).2
        split
        next heq =>
          rw [heq] at hgone
          exact hgone rfl
        next heq =>
          rw [heq] at hback
          have hm := hback (by simp)
          exact h.trans hm (ih _ _ hrest (h.fit hs hm))

theorem SendRule.attSendLoop (h : SendRule sent Fit On R)
    (htx : ∀ {s}, Fit s → ∀ c, R s (processTxQueue sent s c).2) (prev : Option ℕ)
    (err : Option Errno) (cs : List ℕ) (hs : Fit s) : R s (attSendLoop sent prev err cs s) := by
  induction cs generalizing prev err s with
  | nil => exact h.refl s
  | cons c cs ih =>
    rw [Bearers.attSendLoop]
    split
    · exact ih prev err hs
    · have hqueue := htx hs c
      split
      next heq => rwa [heq] at hqueue
      next heq =>
        rw [heq] at hqueue
        exact h.trans hqueue (ih _ _ (h.fit hs hqueue))

theorem SendRule.attSent (h : SendRule sent Fit On R)
    (htx : ∀ {s}, Fit s → ∀ c, R s (processTxQueue sent s c).2)
    (hqueue : ∀ {s}, Fit s → ∀ c, R s (processChanQueue sent s c).2)
    (hcleared : R s (s.setChan c { s.chan c with pendingSent := false }))
    (hon : (s.chan c).attached = true → On c) (hs : Fit s) : R s (attSent sent c s) := by
  have hqueues : ∀ {u err v}, Fit u → processChanQueue sent u c = (err, v) →
      R u v ∧ R u (processTxQueue sent v c).2 := by
    intro u err v hu heq
    have hchan := hqueue hu c
    rw [heq] at hchan
    exact ⟨hchan, h.trans hchan (htx (h.fit hu hchan) c)⟩
  have hfit := h.fit hs hcleared
  simp only [Bearers.attSent]
  split
  · exact hcleared
  next hattached =>
    refine h.trans hcleared ?_
    split
    next req reqs hidle hreqs =>
      obtain ⟨hgone, hback⟩ := h.req hfit (hon (by simpa [setChan] using hattached)) hidle
        (hreqs ▸ List.Perm.refl _ : (s.setChan c
          { s.chan c with pendingSent := false }).reqs.Perm (req :: reqs))
      split
      next heq =>
        rw [heq] at hgone
        exact hgone rfl
      next heq =>
        rw [heq] at hback
        have hm := hback (by simp)
        refine h.trans hm ?_
        split
        next heq => exact (hqueues (h.fit hfit hm) heq).1
        next heq => exact (hqueues (h.fit hfit hm) heq).2
    next =>
      split
      next heq => exact (hqueues hfit heq).1
      next heq => exact (hqueues hfit heq).2

/-! ## What leaves the requests alone -/

/-- What sending leaves of the bearers. -/
structure Stays (s s' : Bearers) : Prop where
  chans : s'.chans = s.chans
  attached : ∀ c, (s'.chan c).attached = (s.chan c).attached
  connected : ∀ c, (s'.chan c).connected = (s.chan c).connected

theorem Stays.trans (h : Stays s s') (h' : Stays s' t) : Stays s t where
  chans := h'.chans.trans h.chans
  attached c := (h'.attached c).trans (h.attached c)
  connected c := (h'.connected c).trans (h.connected c)

/-- The states agree in every place of a request. -/
structure Same (s s' : Bearers) : Prop extends Stays s s' where
  reqs : s'.reqs = s.reqs
  req : ∀ c, (s'.chan c).req = (s.chan c).req
  done : s'.done = s.done

theorem same_setChan (s : Bearers) (c : ℕ) (chan : Chan) (hreq : chan.req = (s.chan c).req)
    (hattached : chan.attached = (s.chan c).attached)
    (hconnected : chan.connected = (s.chan c).connected) : Same s (s.setChan c chan) :=
  ⟨⟨rfl, setChan_congr Chan.attached hattached, setChan_congr Chan.connected hconnected⟩,
    rfl, setChan_congr Chan.req hreq, rfl⟩

/-- A relation that looks at the places of the requests alone. -/
structure PlaceRule (R : Bearers → Bearers → Prop) : Prop where
  refl : ∀ s, R s s
  trans : ∀ {s s' t}, R s s' → R s' t → R s t
  same : ∀ {s s'}, Same s s' → R s s'

theorem PlaceRule.rest (h : PlaceRule R) (hchan : s'.chan = s.chan)
    (hreqs : s'.reqs = s.reqs) (hdone : s'.done = s.done) (hchans : s'.chans = s.chans) : R s s' :=
  h.same ⟨⟨hchans, fun _ => by rw [hchan], fun _ => by rw [hchan]⟩, hreqs,
    fun _ => by rw [hchan], hdone⟩

/-- **Sending a buffer** destroys it only where it is a Signed Write. -/
theorem PlaceRule.chanSend (h : PlaceRule R) (s : Bearers) (c : ℕ) (buf : Buf)
    (hunref : buf.op = Op.signedWriteCmd → ∀ m, R (s.setMeta buf m) (unref sent (s.setMeta buf m) buf)) :
    R s (chanSend sent s c buf).2 := by
  have hset : ∀ m, R s (s.setMeta buf m) := fun _ => h.rest rfl rfl rfl rfl
  simp only [Bearers.chanSend]
  split
  · exact h.refl s
  split
  · exact h.refl s
  split
  · split
    · exact hset _
    split
    · exact hset _
    split
    · exact hset _
    split
    · exact h.rest rfl rfl rfl rfl
    · have hpending := h.same (same_setChan s c { s.chan c with pendingSent := true }
        rfl rfl rfl)
      exact h.trans hpending (h.rest rfl rfl rfl rfl)
  · split
    next heq =>
      -- only a Signed Write is unreferenced here
      have hop : buf.op = Op.signedWriteCmd := by
        by_contra hop
        rw [if_neg hop] at heq
        exact absurd heq (by simp)
      exact h.trans (hset _) (hunref hop _)
    next =>
      split
      · exact h.rest rfl rfl rfl rfl
      · exact h.rest rfl rfl rfl rfl

theorem PlaceRule.btAttChanSend (h : PlaceRule R) (s : Bearers) (c : ℕ) (buf : Buf)
    (hunref : buf.op = Op.signedWriteCmd → ∀ m, R (s.setMeta buf m) (unref sent (s.setMeta buf m) buf)) :
    R s (btAttChanSend sent s c buf).2 := by
  rw [Bearers.btAttChanSend]
  split
  · exact h.refl s
  · exact h.chanSend s c buf hunref

/-- Such a relation, kept by what a destroyed buffer calls. -/
structure CallRule (sent : ℕ → Bearers → Bearers) (Fit : Bearers → Prop)
    (R : Bearers → Bearers → Prop) : Prop extends PlaceRule R where
  fit : ∀ {s s'}, Fit s → R s s' → Fit s'
  sent : ∀ {s}, Fit s → ∀ c, R s (sent c s)

theorem CallRule.unref (h : CallRule sent Fit R) (hs : Fit s) (buf : Buf) :
    R s (unref sent s buf) := by
  have hfreed : R s ({ s with freed := buf :: s.freed }.setMeta buf ⟨false, false, none⟩) :=
    h.rest rfl rfl rfl rfl
  simp only [Bearers.unref]
  split
  · split
    · split
      · exact h.trans hfreed (h.sent (h.fit hs hfreed) _)
      · exact hfreed
    · exact hfreed
  · exact hfreed

theorem CallRule.unrefs (h : CallRule sent Fit R) (hs : Fit s) (buf : Buf) (m : TxMeta) :
    R (s.setMeta buf m) (Bearers.unref sent (s.setMeta buf m) buf) :=
  h.unref (s := s.setMeta buf m) (h.fit hs (h.rest rfl rfl rfl rfl)) buf

theorem CallRule.processTxQueue (h : CallRule sent Fit R) (hs : Fit s) (c : ℕ) :
    R s (processTxQueue sent s c).2 := by
  rw [Bearers.processTxQueue]
  split
  · exact h.refl s
  next buf rest _ =>
    have htaken : R s { s with txQueue := rest } := h.rest rfl rfl rfl rfl
    have hsend := h.trans htaken (h.btAttChanSend _ c buf
      fun _ => h.unrefs (h.fit hs htaken) buf)
    split
    next heq =>
      rw [heq] at hsend
      exact h.trans hsend (h.rest rfl rfl rfl rfl)
    next heq => rwa [heq] at hsend

theorem CallRule.processChanQueue (h : CallRule sent Fit R) (hs : Fit s) (c : ℕ) :
    R s (processChanQueue sent s c).2 := by
  rw [Bearers.processChanQueue]
  split
  · exact h.refl s
  next buf rest _ =>
    have htaken := h.same (same_setChan s c { s.chan c with txQueue := rest } rfl rfl rfl)
    have hsend := h.trans htaken (h.btAttChanSend _ c buf
      fun _ => h.unrefs (h.fit hs htaken) buf)
    split
    next heq =>
      rw [heq] at hsend
      exact h.trans hsend (h.same (same_setChan _ c _ rfl rfl rfl))
    next heq => rwa [heq] at hsend

theorem CallRule.drainChan (h : CallRule sent Fit R) (c n : ℕ) (hs : Fit s) :
    R s (drainChan sent c n s) := by
  induction n generalizing s with
  | zero => exact h.refl s
  | succ n ih =>
    rw [Bearers.drainChan]
    split
    · exact h.refl s
    next buf bufs _ =>
      have htaken := h.same (same_setChan s c { s.chan c with txQueue := bufs }
        rfl rfl rfl)
      have hm := h.trans htaken (h.unref (h.fit hs htaken) buf)
      exact h.trans hm (ih (h.fit hs hm))

theorem CallRule.drainTx (h : CallRule sent Fit R) (n : ℕ) (hs : Fit s) :
    R s (drainTx sent n s) := by
  induction n generalizing s with
  | zero => exact h.refl s
  | succ n ih =>
    rw [Bearers.drainTx]
    split
    · exact h.refl s
    next buf bufs _ =>
      have htaken : R s { s with txQueue := bufs } := h.rest rfl rfl rfl rfl
      have hm := h.trans htaken (h.unref (h.fit hs htaken) buf)
      exact h.trans hm (ih (h.fit hs hm))

theorem CallRule.reqFree (h : CallRule sent Fit R) (hs : Fit s) (req : Req) :
    R s (reqFree sent s req) := by
  rw [Bearers.reqFree]
  split
  · exact h.unref hs _
  · exact h.refl s

theorem CallRule.btAttChanSendRsp (h : CallRule sent Fit R) (hs : Fit s) (c : ℕ) (buf : Buf) :
    R s (btAttChanSendRsp sent s c buf) := by
  have hsend := h.chanSend s c buf fun _ => h.unrefs hs buf
  rw [Bearers.btAttChanSendRsp]
  split
  next heq => rwa [heq] at hsend
  next heq =>
    rw [heq] at hsend
    exact h.trans hsend (h.same (same_setChan _ c _ rfl rfl rfl))

theorem CallRule.attReqRetry (h : CallRule sent Fit R) (hs : Fit s) (c : ℕ) (req : Req)
    (created encoded : Bool) : R s (attReqRetry sent s c req created encoded).2 := by
  simp only [Bearers.attReqRetry]
  split
  · exact h.refl s
  split
  · exact h.refl s
  set buf : Buf := ⟨s.next, req.op, 0, .none⟩
  have hnew : R s ({ s with next := s.next + 1 }.setMeta buf ⟨false, false, some c⟩) :=
    h.rest rfl rfl rfl rfl
  split
  · exact h.trans hnew (h.unref (h.fit hs hnew) _)
  · have hsend := h.trans hnew (h.chanSend _ c buf fun _ => h.unrefs (h.fit hs hnew) buf)
    split
    next heq => rwa [heq] at hsend
    next heq =>
      rw [heq] at hsend
      exact h.trans hsend (h.unref (h.fit hs hsend) _)

theorem CallRule.btAttSend (h : CallRule sent Fit R) (hr : SendRule sent Fit On R) (hs : Fit s)
    (buf : Buf) : R s (btAttSend sent s buf).2 := by
  have hheld : R s { s with held := s.held.erase buf } := h.rest rfl rfl rfl rfl
  rw [Bearers.btAttSend]
  split
  · exact h.trans hheld (h.unref (h.fit hs hheld) buf)
  · have hm : R s { s with held := s.held.erase buf, txQueue := s.txQueue ++ [buf] } :=
      h.rest rfl rfl rfl rfl
    exact h.trans hm (hr.attSendLoop h.processTxQueue none none _ (h.fit hs hm))

theorem CallRule.gattNotifyMultSend (h : CallRule sent Fit R) (hr : SendRule sent Fit On R)
    (hs : Fit s) (buf : Buf) (single : Bool) : R s (gattNotifyMultSend sent s buf single).2 := by
  rw [Bearers.gattNotifyMultSend]
  set buf' : Buf := if single then { buf with op := Op.notify, len := buf.len - 2 } else buf
  have hheld : R s { s with held := buf' :: s.held.erase buf } := h.rest rfl rfl rfl rfl
  have hsend := h.trans hheld (h.btAttSend hr (h.fit hs hheld) buf')
  split
  next heq => rwa [heq] at hsend
  next heq =>
    rw [heq] at hsend
    exact h.trans hsend (h.unref (h.fit hs hsend) buf')

theorem CallRule.attStatus (h : CallRule sent Fit R) (hr : SendRule sent Fit On R)
    (hon : (s.chan c).attached = true → On c) (hs : Fit s) (out : Bool) :
    R s (attStatus sent s c out) := by
  have hset := same_setChan s c { s.chan c with statusOut := out } rfl rfl rfl
  have hfit := h.fit hs (h.same hset)
  simp only [Bearers.attStatus]
  split
  · exact h.same hset
  split
  · exact h.same hset
  next hc =>
    split
    · exact h.same hset
    next hidle =>
      split
      · exact h.same hset
      next req reqs hreqs =>
        obtain ⟨hgone, hback⟩ := hr.req hfit (hon (by rwa [hset.attached, not_not] at hc))
          (not_not.1 hidle) (hreqs ▸ List.Perm.refl _ : (s.setChan c
            { s.chan c with statusOut := out }).reqs.Perm (req :: reqs))
        split
        next heq =>
          rw [heq] at hgone
          exact h.trans (h.same hset) (hgone rfl)
        next heq =>
          rw [heq] at hback
          exact h.trans (h.same hset) (hback (by simp))

/-- The event sends, queues or destroys a buffer, and does no more to the
requests and the bearers. -/
def Event.passesOn : Event → Bool
  | .create .. | .drop _ | .send _ | .notifyMultSend .. | .sendRsp .. | .release .. | .sent _
  | .status .. | .mtu .. | .conn _ | .signing _ => true
  | _ => false

theorem CallRule.step (h : CallRule onSent Fit R) (hr : SendRule onSent Fit On R)
    (hon : ∀ c, (s.chan c).attached = true → On c) (hs : Fit s) {e : Event}
    (he : e.passesOn = true) : R s (s.step e) := by
  have hheld : ∀ held, R s { s with held } := fun _ => h.rest rfl rfl rfl rfl
  cases e with
  | create => exact h.rest rfl rfl rfl rfl
  | drop buf =>
    rw [Bearers.step]
    split
    · exact h.trans (hheld _) (h.unref (h.fit hs (hheld _)) buf)
    · exact h.refl s
  | send buf =>
    rw [Bearers.step]
    split
    · exact h.btAttSend hr hs buf
    · exact h.refl s
  | notifyMultSend buf single =>
    rw [Bearers.step]
    split
    · exact h.gattNotifyMultSend hr hs buf single
    · exact h.refl s
  | sendRsp c buf =>
    rw [Bearers.step]
    split
    · exact h.trans (hheld _) (h.btAttChanSendRsp (h.fit hs (hheld _)) c buf)
    · exact h.refl s
  | release c buf =>
    have hgone : R s { s with l2cap := s.l2cap.erase (c, buf) } := h.rest rfl rfl rfl rfl
    rw [Bearers.step]
    split
    · exact h.trans hgone (h.unref (h.fit hs hgone) buf)
    · exact h.refl s
  | sent c => exact h.sent hs c
  | status c out => exact h.attStatus hr (hon c) hs out
  | mtu c rx tx => exact h.same (same_setChan s c _ rfl rfl rfl)
  | conn => exact h.rest rfl rfl rfl rfl
  | signing => exact h.rest rfl rfl rfl rfl
  | _ => exact absurd he (by simp [Event.passesOn])

end Bearers

end Att

end OpenBlue

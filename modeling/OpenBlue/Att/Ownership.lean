import OpenBlue.Att.Sending
import OpenBlue.Common.Run
import OpenBlue.Common.Sum
/-!
# ATT bearers — every buffer has one owner

A buffer is held by whom it was created for, waits in one of the queues or
in a request, is with L2CAP, or has been unreferenced. The copies of a
buffer, counted over all these places, stay one (`Owned`): what a function
takes from one place it puts in another (`Moved`). Two paths break it. A
Signed Write that cannot be signed is unreferenced by `chan_send` and put
back by its caller; and `bt_att_send` unreferences what it cannot queue,
which `gatt_notify_mult_send` then does again.
-/

namespace OpenBlue

namespace Att

namespace Bearers

open Function List Op

variable {K : Finset ℕ} {s s' t : Bearers} {buf : Buf} {hand : List Buf}

/-! ## Counting copies -/

/-- How often the buffer number `i` is among some buffers. -/
def copies (i : ℕ) (bufs : List Buf) : ℕ := bufs.countP (·.id = i)

@[simp] theorem copies_nil (i : ℕ) : copies i [] = 0 := rfl

theorem copies_cons (i : ℕ) (buf : Buf) (bufs : List Buf) :
    copies i (buf :: bufs) = copies i [buf] + copies i bufs := by
  rw [copies, copies, copies, countP_cons, countP_cons, countP_nil]
  omega

theorem copies_append (i : ℕ) (bufs bufs' : List Buf) :
    copies i (bufs ++ bufs') = copies i bufs + copies i bufs' := countP_append

variable {bufs : List Buf}

theorem copies_perm {rest : List Buf} (h : bufs.Perm (buf :: rest)) (i : ℕ) :
    copies i bufs = copies i [buf] + copies i rest :=
  (h.countP_eq _).trans (copies_cons i buf rest)

theorem copies_erase (h : buf ∈ bufs) (i : ℕ) :
    copies i [buf] + copies i (bufs.erase buf) = copies i bufs :=
  (copies_perm (perm_cons_erase h) i).symm

/-- The buffers of requests that wait. -/
def reqBufs (reqs : List Req) : List Buf := reqs.filterMap Req.buf

/-- **The copies of a buffer**, in all the places it can be; `K` are the
bearers that have had something in their queue. -/
def total (K : Finset ℕ) (i : ℕ) (s : Bearers) : ℕ :=
  copies i s.held + copies i s.txQueue + ∑ c ∈ K, copies i (s.chan c).txQueue +
    copies i (reqBufs s.reqs) + copies i (s.l2cap.map Prod.snd) + copies i s.freed

/-- The buffer waits to be sent. -/
def Waits (s : Bearers) (buf : Buf) : Prop :=
  buf ∈ s.txQueue ∨ (∃ c, buf ∈ (s.chan c).txQueue) ∨ buf ∈ reqBufs s.reqs

/-- No other bearers have anything queued, and what waits can be sent: it
can be signed, or need not be. -/
structure Ready (K : Finset ℕ) (s : Bearers) : Prop where
  support : ∀ c ∉ K, (s.chan c).txQueue = []
  signs : s.signs = none ∨ ∀ buf, Waits s buf → buf.op ≠ Op.signedWriteCmd

/-- A request that is outstanding has given its buffer away. -/
def Sent (s : Bearers) : Prop := ∀ c req, (s.chan c).req = .busy req → req.buf = none

/-- What sending leaves as it is. -/
structure Fixed (s s' : Bearers) : Prop where
  signs : s'.signs = s.signs
  next : s'.next = s.next
  held : s'.held = s.held
  chans : s'.chans = s.chans
  attached : ∀ c, (s'.chan c).attached = (s.chan c).attached
  connected : ∀ c, (s'.chan c).connected = (s.chan c).connected

/-- **The places of `hand` and what they were in before** account for where
everything is; and the queues have not grown. -/
structure Moved (K : Finset ℕ) (hand : List Buf) (s s' : Bearers) : Prop where
  total : ∀ i, total K i s' = copies i hand + total K i s
  waits : ∀ buf, Waits s' buf → Waits s buf
  chanQueue : ∀ c, (s'.chan c).txQueue.length ≤ (s.chan c).txQueue.length
  txQueue : s'.txQueue.length ≤ s.txQueue.length
  reqs : s'.reqs.length ≤ s.reqs.length
  sent : Sent s → Sent s'
  fixed : Fixed s s'

theorem nil_of_le {bufs' : List Buf} (h : bufs'.length ≤ bufs.length) (hnil : bufs = []) :
    bufs' = [] := by
  rw [hnil, length_nil] at h
  exact length_eq_zero_iff.1 (by omega)

theorem Fixed.rfl : Fixed s s :=
  ⟨Eq.refl _, Eq.refl _, Eq.refl _, Eq.refl _, fun _ => Eq.refl _, fun _ => Eq.refl _⟩

theorem Fixed.trans (h : Fixed s s') (h' : Fixed s' t) : Fixed s t where
  signs := h'.signs.trans h.signs
  next := h'.next.trans h.next
  held := h'.held.trans h.held
  chans := h'.chans.trans h.chans
  attached c := (h'.attached c).trans (h.attached c)
  connected c := (h'.connected c).trans (h.connected c)

theorem Moved.rfl : Moved K [] s s where
  total i := by simp
  waits _ h := h
  chanQueue _ := le_rfl
  txQueue := le_rfl
  reqs := le_rfl
  sent h := h
  fixed := .rfl

theorem Moved.trans {hand' : List Buf} (h : Moved K hand s s') (h' : Moved K hand' s' t) :
    Moved K (hand ++ hand') s t where
  total i := by
    rw [h'.total, h.total, copies_append]
    omega
  waits buf hb := h.waits buf (h'.waits buf hb)
  chanQueue c := (h'.chanQueue c).trans (h.chanQueue c)
  txQueue := h'.txQueue.trans h.txQueue
  reqs := h'.reqs.trans h.reqs
  sent hs := h'.sent (h.sent hs)
  fixed := h.fixed.trans h'.fixed

theorem Ready.moved (h : Ready K s) (hm : Moved K hand s s') : Ready K s' where
  support c hc := nil_of_le (hm.chanQueue c) (h.support c hc)
  signs := by
    rw [hm.fixed.signs]
    exact h.signs.imp_right fun hall buf hbuf => hall buf (hm.waits buf hbuf)

theorem Moved.of_places (hheld : s'.held = s.held) (htx : s'.txQueue = s.txQueue)
    (hchan : ∀ c, (s'.chan c).txQueue = (s.chan c).txQueue) (hreqs : s'.reqs = s.reqs)
    (hl2cap : ∀ i, copies i (s'.l2cap.map Prod.snd) + copies i s'.freed =
      copies i hand + (copies i (s.l2cap.map Prod.snd) + copies i s.freed))
    (hsent : Sent s → Sent s') (hfixed : Fixed s s') : Moved K hand s s' where
  total i := by
    have := hl2cap i
    simp only [Bearers.total, hheld, htx, hchan, hreqs]
    omega
  waits buf hb := by simpa only [Waits, htx, hchan, hreqs] using hb
  chanQueue c := by rw [hchan]
  txQueue := by rw [htx]
  reqs := by rw [hreqs]
  sent := hsent
  fixed := hfixed

theorem moved_setChan (s : Bearers) (c : ℕ) {chan : Chan}
    (hqueue : chan.txQueue = (s.chan c).txQueue)
    (hreq : ∀ req, chan.req = .busy req → req.buf = none ∨ (s.chan c).req = .busy req)
    (hattached : chan.attached = (s.chan c).attached)
    (hconnected : chan.connected = (s.chan c).connected) : Moved K [] s (s.setChan c chan) := by
  refine Moved.of_places rfl rfl (setChan_congr Chan.txQueue hqueue) rfl
    (fun _ => (Nat.zero_add _).symm) (fun hs c' req hc' => ?_)
    ⟨rfl, rfl, rfl, rfl, setChan_congr Chan.attached hattached,
      setChan_congr Chan.connected hconnected⟩
  by_cases hc : c' = c
  · subst hc
    simp only [setChan, update_self] at hc'
    exact (hreq req hc').elim id (hs c' req)
  · simp only [setChan, update_of_ne hc] at hc'
    exact hs c' req hc'

theorem moved_setReq (s : Bearers) (c : ℕ) {req : Slot}
    (h : ∀ r, req = .busy r → r.buf = none) : Moved K [] s (s.setReq c req) :=
  moved_setChan s c rfl (fun r hr => Or.inl (h r hr)) rfl rfl

/-- **Sending a buffer** that is in no list: it is with L2CAP, or nothing
has happened to it. -/
theorem moved_chanSend (sent : ℕ → Bearers → Bearers) (s : Bearers) (c : ℕ)
    (hbuf : s.signs = none ∨ buf.op ≠ signedWriteCmd) :
    let r := chanSend sent s c buf
    (r.1 = none ∧ Moved K [buf] s r.2) ∨ (r.1 ≠ none ∧ Moved K [] s r.2) := by
  have hmeta : ∀ calls m, Moved K [] s ({ s with calls }.setMeta buf m) := fun calls m =>
    Moved.of_places rfl rfl (fun _ => rfl) rfl (fun _ => (Nat.zero_add _).symm) id
      ⟨rfl, rfl, rfl, rfl, fun _ => rfl, fun _ => rfl⟩
  have hmeta' : ∀ calls m m', Moved K [] s
      ({ s.setMeta buf m with calls }.setMeta buf m') := fun calls m m' =>
    Moved.of_places rfl rfl (fun _ => rfl) rfl (fun _ => (Nat.zero_add _).symm) id
      ⟨rfl, rfl, rfl, rfl, fun _ => rfl, fun _ => rfl⟩
  have hgone : ∀ calls m, Moved K [buf] s
      ({ s.setMeta buf m with calls, l2cap := (c, buf) :: s.l2cap }.setMeta buf
        ⟨true, false, some c⟩) := by
    intro calls m
    refine Moved.of_places rfl rfl (fun _ => rfl) rfl (fun i => ?_) id
      ⟨rfl, rfl, rfl, rfl, fun _ => rfl, fun _ => rfl⟩
    simp only [setMeta, map_cons]
    rw [copies_cons]
    omega
  simp only [chanSend]
  split
  · exact Or.inr ⟨by simp, .rfl⟩
  split
  · exact Or.inr ⟨by simp, .rfl⟩
  split
  · split
    · exact Or.inr ⟨by simp, hmeta s.calls _⟩
    split
    · exact Or.inr ⟨by simp, hmeta s.calls _⟩
    split
    · exact Or.inr ⟨by simp, hmeta s.calls _⟩
    split
    · exact Or.inr ⟨by simp, hmeta' _ _ _⟩
    · have hset : Moved K [] s (s.setChan c { s.chan c with pendingSent := true }) :=
        moved_setChan s c rfl (fun _ hr => Or.inr hr) rfl rfl
      refine Or.inl ⟨rfl, hset.trans (Moved.of_places rfl rfl (fun _ => rfl) rfl (fun i => ?_) id
        ⟨rfl, rfl, rfl, rfl, fun _ => rfl, fun _ => rfl⟩)⟩
      simp only [setMeta, setChan, map_cons]
      rw [copies_cons]
      omega
  · have hsigned : (if buf.op = signedWriteCmd then
        (s.setMeta buf ⟨true, false, (s.txMeta buf.id).chan⟩).signs else none) = none := by
      split
      next hop => exact hbuf.resolve_right (not_not.2 hop)
      next => rfl
    rw [hsigned]
    split
    next heq => exact absurd heq (by simp)
    next =>
      split
      · exact Or.inr ⟨by simp, hmeta' _ _ _⟩
      · exact Or.inl ⟨rfl, hgone _ _⟩

theorem moved_btAttChanSend (sent : ℕ → Bearers → Bearers) (s : Bearers) (c : ℕ)
    (hbuf : s.signs = none ∨ buf.op ≠ signedWriteCmd) :
    let r := btAttChanSend sent s c buf
    (r.1 = none ∧ Moved K [buf] s r.2) ∨ (r.1 ≠ none ∧ Moved K [] s r.2) := by
  simp only [btAttChanSend]
  split
  · exact Or.inr ⟨by simp, .rfl⟩
  · exact moved_chanSend sent s c hbuf

/-- `s'` is `s` with the buffer taken out of a queue. -/
structure Took (K : Finset ℕ) (buf : Buf) (s s' : Bearers) : Prop where
  total : ∀ i, Bearers.total K i s = copies i [buf] + Bearers.total K i s'
  waits : ∀ b, Waits s' b → Waits s b
  wait : Waits s buf
  chanQueue : ∀ c, (s'.chan c).txQueue.length ≤ (s.chan c).txQueue.length
  txQueue : s'.txQueue.length ≤ s.txQueue.length
  reqs : s'.reqs.length ≤ s.reqs.length
  sent : Sent s → Sent s'
  fixed : Fixed s s'

theorem Took.ready (h : Ready K s) (ht : Took K buf s s') : Ready K s' where
  support c hc := nil_of_le (ht.chanQueue c) (h.support c hc)
  signs := by
    rw [ht.fixed.signs]
    exact h.signs.imp_right fun hall b hb => hall b (ht.waits b hb)

theorem Took.signable (h : Ready K s) (ht : Took K buf s s') :
    s'.signs = none ∨ buf.op ≠ signedWriteCmd := by
  rw [ht.fixed.signs]
  exact h.signs.imp_right fun hall => hall buf ht.wait

theorem Took.gone (ht : Took K buf s s') (hm : Moved K [buf] s' t) : Moved K [] s t where
  total i := by
    rw [hm.total, ht.total, copies_nil]
    omega
  waits b hb := ht.waits b (hm.waits b hb)
  chanQueue c := (hm.chanQueue c).trans (ht.chanQueue c)
  txQueue := hm.txQueue.trans ht.txQueue
  reqs := hm.reqs.trans ht.reqs
  sent hs := hm.sent (ht.sent hs)
  fixed := ht.fixed.trans hm.fixed

theorem took_txQueue {rest : List Buf} (hperm : s.txQueue.Perm (buf :: rest)) :
    Took K buf s { s with txQueue := rest } where
  total i := by
    have hcount := copies_perm hperm i
    simp only [Bearers.total]
    omega
  waits b hb := hb.imp_left fun hmem => hperm.mem_iff.2 (mem_cons_of_mem _ hmem)
  wait := Or.inl (hperm.mem_iff.2 (by simp))
  chanQueue _ := le_rfl
  txQueue := by
    rw [hperm.length_eq, length_cons]
    exact Nat.le_succ _
  reqs := le_rfl
  sent h := h
  fixed := ⟨rfl, rfl, rfl, rfl, fun _ => rfl, fun _ => rfl⟩

variable {c : ℕ}

theorem total_setChan (s : Bearers) (hc : c ∈ K) (chan : Chan) (i : ℕ) :
    total K i (s.setChan c chan) + copies i (s.chan c).txQueue =
      total K i s + copies i chan.txQueue := by
  have hsum := sum_update_add (fun chan : Chan => copies i chan.txQueue) s.chan hc chan
  simp only [total, setChan]
  omega

theorem sent_setQueue (c : ℕ) (bufs : List Buf) (h : Sent s) :
    Sent (s.setChan c { s.chan c with txQueue := bufs }) := by
  intro c' req hreq
  exact h c' req (Eq.trans (Eq.symm (setChan_congr Chan.req (by rfl) c')) hreq)

theorem fixed_setQueue (c : ℕ) (bufs : List Buf) :
    Fixed s (s.setChan c { s.chan c with txQueue := bufs }) :=
  ⟨rfl, rfl, rfl, rfl, setChan_congr Chan.attached rfl, setChan_congr Chan.connected rfl⟩

theorem took_chanQueue {rest : List Buf} (hc : c ∈ K)
    (hperm : (s.chan c).txQueue.Perm (buf :: rest)) :
    Took K buf s (s.setChan c { s.chan c with txQueue := rest }) where
  total i := by
    have hcount := copies_perm hperm i
    have hset : total K i (s.setChan c { s.chan c with txQueue := rest }) +
        copies i (s.chan c).txQueue = total K i s + copies i rest :=
      total_setChan s hc { s.chan c with txQueue := rest } i
    omega
  waits b hb := by
    refine hb.imp_right fun hb => hb.imp_left ?_
    rintro ⟨c', hmem⟩
    by_cases hne : c' = c
    · subst hne
      simp only [setChan, update_self] at hmem
      exact ⟨c', hperm.mem_iff.2 (mem_cons_of_mem _ hmem)⟩
    · simp only [setChan, update_of_ne hne] at hmem
      exact ⟨c', hmem⟩
  wait := Or.inr (Or.inl ⟨c, hperm.mem_iff.2 (by simp)⟩)
  chanQueue c' := by
    by_cases hne : c' = c
    · subst hne
      simp only [setChan, update_self, hperm.length_eq, length_cons]
      omega
    · simp only [setChan, update_of_ne hne, le_refl]
  txQueue := le_rfl
  reqs := le_rfl
  sent := sent_setQueue c rest
  fixed := fixed_setQueue c rest

variable {reqs : List Req} {req : Req}

theorem reqBufs_perm_cons {reqs' : List Req} (hreq : req.buf = some buf)
    (hperm : reqs'.Perm (req :: reqs)) : (reqBufs reqs').Perm (buf :: reqBufs reqs) := by
  refine (hperm.filterMap Req.buf).trans ?_
  rw [filterMap_cons_some hreq]
  exact List.Perm.refl _

theorem took_req (hreq : req.buf = some buf)
    (hperm : s.reqs.Perm (req :: reqs)) : Took K buf s { s with reqs } where
  total i := by
    have hcount := copies_perm (reqBufs_perm_cons hreq hperm) i
    simp only [Bearers.total]
    omega
  waits b hb := by
    refine hb.imp_right fun hb => hb.imp_right fun hmem => ?_
    obtain ⟨r, hr, hbuf⟩ := mem_filterMap.1 hmem
    exact mem_filterMap.2 ⟨r, hperm.mem_iff.2 (mem_cons_of_mem _ hr), hbuf⟩
  wait := Or.inr (Or.inr (mem_filterMap.2 ⟨req, hperm.mem_iff.2 (by simp), hreq⟩))
  chanQueue _ := le_rfl
  txQueue := le_rfl
  reqs := by
    rw [hperm.length_eq, length_cons]
    exact Nat.le_succ _
  sent h := h
  fixed := ⟨rfl, rfl, rfl, rfl, fun _ => rfl, fun _ => rfl⟩

/-- `s'` is `s` with the buffer put in a queue. -/
structure Gave (K : Finset ℕ) (buf : Buf) (s s' : Bearers) : Prop where
  total : ∀ i, Bearers.total K i s' = copies i [buf] + Bearers.total K i s
  waits : ∀ b, Waits s' b → b = buf ∨ Waits s b
  sent : Sent s → Sent s'
  fixed : Fixed s s'

theorem gave_txQueue (hperm : bufs.Perm (buf :: s.txQueue)) :
    Gave K buf s { s with txQueue := bufs } where
  total i := by
    have hcount := copies_perm hperm i
    simp only [Bearers.total]
    omega
  waits b hb := by
    rcases hb with hmem | hb
    · exact (mem_cons.1 (hperm.mem_iff.1 hmem)).imp_right Or.inl
    · exact Or.inr (Or.inr hb)
  sent h := h
  fixed := ⟨rfl, rfl, rfl, rfl, fun _ => rfl, fun _ => rfl⟩

theorem gave_chanQueue (hc : c ∈ K)
    (hperm : bufs.Perm (buf :: (s.chan c).txQueue)) :
    Gave K buf s (s.setChan c { s.chan c with txQueue := bufs }) where
  total i := by
    have hcount := copies_perm hperm i
    have hset : total K i (s.setChan c { s.chan c with txQueue := bufs }) +
        copies i (s.chan c).txQueue = total K i s + copies i bufs :=
      total_setChan s hc { s.chan c with txQueue := bufs } i
    omega
  waits b hb := by
    rcases hb with hmem | ⟨c', hmem⟩ | hmem
    · exact Or.inr (Or.inl hmem)
    · by_cases hne : c' = c
      · subst hne
        simp only [setChan, update_self] at hmem
        exact (mem_cons.1 (hperm.mem_iff.1 hmem)).imp_right fun h => Or.inr (Or.inl ⟨c', h⟩)
      · simp only [setChan, update_of_ne hne] at hmem
        exact Or.inr (Or.inr (Or.inl ⟨c', hmem⟩))
    · exact Or.inr (Or.inr (Or.inr hmem))
  sent := sent_setQueue c bufs
  fixed := fixed_setQueue c bufs

theorem gave_req (hreq : req.buf = some buf)
    (hperm : reqs.Perm (req :: s.reqs)) : Gave K buf s { s with reqs } where
  total i := by
    have hcount := copies_perm (reqBufs_perm_cons hreq hperm) i
    simp only [Bearers.total]
    omega
  waits b hb := by
    rcases hb with hmem | hmem | hmem
    · exact Or.inr (Or.inl hmem)
    · exact Or.inr (Or.inr (Or.inl hmem))
    · obtain ⟨r, hr, hbuf⟩ := mem_filterMap.1 hmem
      rcases mem_cons.1 (hperm.mem_iff.1 hr) with rfl | hr
      · exact Or.inl (Option.mem_unique hbuf hreq)
      · exact Or.inr (Or.inr (Or.inr (mem_filterMap.2 ⟨r, hr, hbuf⟩)))
  sent h := h
  fixed := ⟨rfl, rfl, rfl, rfl, fun _ => rfl, fun _ => rfl⟩

/-- **What could not be sent is put back**: nothing has changed. -/
theorem Took.back {u : Bearers} (ht : Took K buf s s') (hm : Moved K [] s' t) (hg : Gave K buf t u)
    (hchan : ∀ c, (u.chan c).txQueue.length ≤ (s.chan c).txQueue.length)
    (htx : u.txQueue.length ≤ s.txQueue.length) (hreqs : u.reqs.length ≤ s.reqs.length) :
    Moved K [] s u where
  total i := by
    rw [hg.total, hm.total, ht.total, copies_nil]
    omega
  waits b hb := by
    rcases hg.waits b hb with rfl | hb
    · exact ht.wait
    · exact ht.waits b (hm.waits b hb)
  chanQueue := hchan
  txQueue := htx
  reqs := hreqs
  sent hs := hg.sent (hm.sent (ht.sent hs))
  fixed := (ht.fixed.trans hm.fixed).trans hg.fixed

/-! ## Sending -/

theorem moved_processTxQueue (sent : ℕ → Bearers → Bearers) (h : Ready K s) (c : ℕ) :
    Moved K [] s (processTxQueue sent s c).2 := by
  rw [processTxQueue]
  split
  · exact .rfl
  next buf rest hfirst =>
    have hperm := (takeFirst_some hfirst).2
    have htook : Took K buf s { s with txQueue := rest } := took_txQueue hperm
    have hsend := moved_btAttChanSend (K := K) sent { s with txQueue := rest } c
      (htook.signable h)
    split
    next err s' heq =>
      rw [heq] at hsend
      have hm := (hsend.resolve_left (by simp)).2
      have hlen := hperm.length_eq
      have hlen' : s'.txQueue.length ≤ rest.length := hm.txQueue
      refine htook.back hm (gave_txQueue (List.Perm.refl _)) hm.chanQueue ?_ hm.reqs
      rw [length_cons] at hlen ⊢
      omega
    next heq =>
      rw [heq] at hsend
      exact htook.gone (hsend.resolve_right (by simp)).2

theorem moved_processChanQueue (sent : ℕ → Bearers → Bearers) (h : Ready K s) (c : ℕ) :
    Moved K [] s (processChanQueue sent s c).2 := by
  rw [processChanQueue]
  split
  · exact .rfl
  next buf rest hfirst =>
    have hperm := (takeFirst_some hfirst).2
    have hc : c ∈ K := by
      by_contra hc
      rw [h.support c hc] at hperm
      exact absurd hperm.length_eq (by simp)
    have htook : Took K buf s (s.setChan c { s.chan c with txQueue := rest }) :=
      took_chanQueue hc hperm
    have hsend := moved_btAttChanSend (K := K) sent
      (s.setChan c { s.chan c with txQueue := rest }) c (htook.signable h)
    split
    next err s' heq =>
      rw [heq] at hsend
      have hm := (hsend.resolve_left (by simp)).2
      have hlen := hperm.length_eq
      have hlen' : (s'.chan c).txQueue.length ≤ rest.length := by
        have := hm.chanQueue c
        simpa [setChan] using this
      rw [length_cons] at hlen
      refine htook.back hm (gave_chanQueue hc (List.Perm.refl _)) (fun c' => ?_) hm.txQueue hm.reqs
      by_cases hne : c' = c
      · subst hne
        simp only [setChan, update_self, length_cons]
        omega
      · have := (hm.chanQueue c').trans (htook.chanQueue c')
        simpa only [setChan, update_of_ne hne] using this
    next heq =>
      rw [heq] at hsend
      exact htook.gone (hsend.resolve_right (by simp)).2

theorem moved_reqs (hbufs : (reqBufs s.reqs).Perm (reqBufs reqs))
    (hlen : reqs.length ≤ s.reqs.length) : Moved K [] s { s with reqs } where
  total i := by
    have hcount : copies i (reqBufs s.reqs) = copies i (reqBufs reqs) := hbufs.countP_eq _
    simp only [Bearers.total, hcount, copies_nil, Nat.zero_add]
  waits _ hb := hb.imp_right fun hb => hb.imp_right fun hmem => hbufs.mem_iff.2 hmem
  chanQueue _ := le_rfl
  txQueue := le_rfl
  reqs := hlen
  sent h := h
  fixed := ⟨rfl, rfl, rfl, rfl, fun _ => rfl, fun _ => rfl⟩

theorem reqBufs_perm {reqs' : List Req} (hbuf : req.buf = none)
    (hperm : reqs'.Perm (req :: reqs)) : (reqBufs reqs').Perm (reqBufs reqs) := by
  refine (hperm.filterMap Req.buf).trans ?_
  rw [filterMap_cons_none hbuf]
  exact List.Perm.refl _

/-- **A request taken from the list** takes the bearer, or is put back. -/
theorem moved_btAttChanReqSend (sent : ℕ → Bearers → Bearers) (h : Ready K s) (c : ℕ)
    (hperm : s.reqs.Perm (req :: reqs)) :
    let r := btAttChanReqSend sent { s with reqs } c req
    (r.1 = none → Moved K [] s r.2) ∧
      (r.1 ≠ none → Moved K [] s { r.2 with reqs := req :: r.2.reqs }) := by
  have hlen := hperm.length_eq
  rw [length_cons] at hlen
  rcases hbuf : req.buf with _ | buf
  · -- a request without a buffer is in no list; it would come back
    simp only [btAttChanReqSend, hbuf]
    exact ⟨by simp, fun _ => moved_reqs (hperm.filterMap Req.buf) hperm.length_eq.ge⟩
  · have htook : Took K buf s { s with reqs } := took_req hbuf hperm
    have hback : Moved K [] s { s with reqs := req :: reqs } := by
      refine htook.back .rfl (gave_req hbuf (List.Perm.refl _)) (fun _ => le_rfl) le_rfl ?_
      simp only [length_cons]
      omega
    simp only [btAttChanReqSend, hbuf]
    split
    · exact ⟨by simp, fun _ => hback⟩
    · have hset : Moved K [] { s with reqs }
          (({ s with reqs } : Bearers).setReq c (.busy { req with buf := none })) :=
        moved_setReq _ c (by rintro r ⟨⟩; rfl)
      have hsigns := htook.signable h
      have hsend := moved_btAttChanSend (K := K) sent
        (({ s with reqs } : Bearers).setReq c (.busy { req with buf := none })) c hsigns
      split
      next err s' heq =>
        rw [heq] at hsend
        have hm := hset.trans (hsend.resolve_left (by simp)).2
        have hidle : Moved K [] s' (s'.setReq c .idle) := moved_setReq s' c (by simp)
        have hall := hm.trans hidle
        have hreqs : (s'.setReq c .idle).reqs.length ≤ reqs.length := hall.reqs
        refine ⟨by simp, fun _ => htook.back hall (gave_req hbuf (List.Perm.refl _)) hall.chanQueue
          hall.txQueue ?_⟩
        simp only [length_cons]
        omega
      next heq =>
        rw [heq] at hsend
        exact ⟨fun _ => htook.gone (hset.trans (hsend.resolve_right (by simp)).2), by simp⟩

theorem sendRule_moved (sent : ℕ → Bearers → Bearers) :
    SendRule sent (Ready K) (fun _ => True) (Moved K []) where
  refl _ := .rfl
  trans := Moved.trans
  fit := Ready.moved
  req h _ _ hperm := moved_btAttChanReqSend sent h _ hperm

theorem moved_attSent (sent : ℕ → Bearers → Bearers) (c : ℕ) (h : Ready K s) :
    Moved K [] s (attSent sent c s) :=
  (sendRule_moved sent).attSent (moved_processTxQueue sent) (moved_processChanQueue sent)
    (moved_setChan s c rfl (fun _ hr => Or.inr hr) rfl rfl) (fun _ => trivial) h

theorem moved_attSentN (n c : ℕ) (h : Ready K s) : Moved K [] s (attSentN n c s) := by
  cases n with
  | zero => exact .rfl
  | succ n => exact moved_attSent (attSentN n) c h

theorem moved_onSent (c : ℕ) (h : Ready K s) : Moved K [] s (onSent c s) := moved_attSentN _ c h

/-! ## Letting go -/

/-- **A buffer that is unreferenced** is so once. -/
theorem moved_unref (h : Ready K s) (buf : Buf) : Moved K [buf] s (unref onSent s buf) := by
  have hfreed : Moved K [buf] s
      ({ s with freed := buf :: s.freed }.setMeta buf ⟨false, false, none⟩) := by
    refine Moved.of_places rfl rfl (fun _ => rfl) rfl (fun i => ?_) id
      ⟨rfl, rfl, rfl, rfl, fun _ => rfl, fun _ => rfl⟩
    simp only [setMeta]
    rw [copies_cons]
    omega
  simp only [unref]
  split
  · split
    · split
      · exact hfreed.trans (moved_onSent _ (h.moved hfreed))
      · exact hfreed
    · exact hfreed
  · exact hfreed

theorem moved_attReqSendProcess (h : Ready K s) : Moved K [] s (attReqSendProcess onSent s) :=
  (sendRule_moved onSent).attReqSendLoop none false (fun _ _ => trivial) h

theorem moved_complete (h : Ready K s) (hs : Sent s) (c : ℕ) (pdu : List UInt8)
    (err : Option Errno) : Moved K [] s (complete onSent s c pdu err) := by
  have hidle : Moved K [] s (s.setReq c .idle) := moved_setReq s c (by simp)
  have hnext := hidle.trans (moved_attReqSendProcess (h.moved hidle))
  simp only [complete]
  split
  · exact .rfl
  · exact hnext
  next req hreq =>
    have hfree : reqFree onSent s req = s := by rw [reqFree, hs c req hreq]
    rw [hfree]
    exact hnext.trans (Moved.of_places rfl rfl (fun _ => rfl) rfl
      (fun _ => (Nat.zero_add _).symm) id ⟨rfl, rfl, rfl, rfl, fun _ => rfl, fun _ => rfl⟩)

/-- **The queue of a bearer is released**, to the last buffer. -/
theorem moved_drainChan (c n : ℕ) (h : Ready K s) (hn : (s.chan c).txQueue.length ≤ n) :
    Moved K [] s (drainChan onSent c n s) ∧ ((drainChan onSent c n s).chan c).txQueue = [] := by
  induction n generalizing s with
  | zero => exact ⟨.rfl, length_eq_zero_iff.1 (Nat.le_zero.1 hn)⟩
  | succ n ih =>
    rw [drainChan]
    split
    next hnil => exact ⟨.rfl, hnil⟩
    next buf bufs hcons =>
      have hc : c ∈ K := by
        by_contra hc
        simp [h.support c hc] at hcons
      have htook : Took K buf s (s.setChan c { s.chan c with txQueue := bufs }) :=
        took_chanQueue hc (hcons ▸ List.Perm.refl _)
      have hm := htook.gone (moved_unref (htook.ready h) buf)
      have hlen := (moved_unref (htook.ready h) buf).chanQueue c
      rw [hcons, length_cons] at hn
      simp only [setChan, update_self] at hlen
      obtain ⟨hrest, hnil⟩ := ih (h.moved hm) (by simp only [setChan]; omega)
      exact ⟨hm.trans hrest, hnil⟩

theorem moved_drainTx (n : ℕ) (h : Ready K s) (hn : s.txQueue.length ≤ n) :
    Moved K [] s (drainTx onSent n s) ∧ (drainTx onSent n s).txQueue = [] := by
  induction n generalizing s with
  | zero => exact ⟨.rfl, length_eq_zero_iff.1 (Nat.le_zero.1 hn)⟩
  | succ n ih =>
    rw [drainTx]
    split
    next hnil => exact ⟨.rfl, hnil⟩
    next buf bufs hcons =>
      have htook : Took K buf s { s with txQueue := bufs } :=
        took_txQueue (hcons ▸ List.Perm.refl _)
      have hm := htook.gone (moved_unref (htook.ready h) buf)
      have hlen : (unref onSent { s with txQueue := bufs } buf).txQueue.length ≤ bufs.length :=
        (moved_unref (htook.ready h) buf).txQueue
      rw [hcons, length_cons] at hn
      obtain ⟨hrest, hnil⟩ := ih (h.moved hm) (by omega)
      exact ⟨hm.trans hrest, hnil⟩

theorem moved_dropReqs (n : ℕ) (h : Ready K s) (hn : s.reqs.length ≤ n) :
    Moved K [] s (dropReqs onSent n s) ∧ (dropReqs onSent n s).reqs = [] ∧
      (dropReqs onSent n s).txQueue.length ≤ s.txQueue.length := by
  induction n generalizing s with
  | zero => exact ⟨.rfl, length_eq_zero_iff.1 (Nat.le_zero.1 hn), le_rfl⟩
  | succ n ih =>
    rw [dropReqs]
    split
    next hnil => exact ⟨.rfl, hnil, le_rfl⟩
    next req reqs hcons =>
      rw [hcons, length_cons] at hn
      have hm : Moved K [] s (reqFree onSent
          { s with reqs, done := s.done ++ [⟨req, some .econnreset, []⟩] } req) ∧
          (reqFree onSent { s with reqs, done := s.done ++ [⟨req, some .econnreset, []⟩] }
            req).reqs.length ≤ reqs.length := by
        rcases hbuf : req.buf with _ | buf
        · have hperm : s.reqs.Perm (req :: reqs) := hcons ▸ List.Perm.refl _
          have hdrop : Moved K [] s { s with reqs } :=
            moved_reqs (reqBufs_perm hbuf hperm) (by rw [hcons, length_cons]; omega)
          have hsaid : Moved K [] { s with reqs }
              { s with reqs, done := s.done ++ [⟨req, some .econnreset, []⟩] } :=
            Moved.of_places rfl rfl (fun _ => rfl) rfl (fun _ => (Nat.zero_add _).symm)
              (fun h => h) ⟨rfl, rfl, rfl, rfl, fun _ => rfl, fun _ => rfl⟩
          rw [reqFree, hbuf]
          exact ⟨hdrop.trans hsaid, le_rfl⟩
        · have htook : Took K buf s { s with reqs } := took_req hbuf (hcons ▸ List.Perm.refl _)
          have hsaid : Moved K [] { s with reqs }
              { s with reqs, done := s.done ++ [⟨req, some .econnreset, []⟩] } :=
            Moved.of_places rfl rfl (fun _ => rfl) rfl (fun _ => (Nat.zero_add _).symm) id
              ⟨rfl, rfl, rfl, rfl, fun _ => rfl, fun _ => rfl⟩
          have hfree := hsaid.trans (moved_unref ((htook.ready h).moved hsaid) buf)
          rw [reqFree, hbuf]
          exact ⟨htook.gone hfree, hfree.reqs⟩
      obtain ⟨hrest, hnil, htx⟩ := ih (h.moved hm.1) (by omega)
      exact ⟨hm.1.trans hrest, hnil, htx.trans hm.1.txQueue⟩

/-! ## The life of a bearer -/

/-- Which bearers are there: those in the list are attached, and no others
are connected. -/
structure Listed (s : Bearers) : Prop where
  nodup : s.chans.Nodup
  attached : ∀ c, (s.chan c).attached = true ↔ c ∈ s.chans
  connected : ∀ c, (s.chan c).connected = true → (s.chan c).attached = true

theorem Listed.detach (h : Listed s) (hchans : t.chans = s.chans.erase c)
    (hatt : ∀ c', (t.chan c').attached = (s.chan c').attached)
    (hcon : ∀ c', (t.chan c').connected = (s.chan c').connected) :
    Listed (t.setChan c { t.chan c with attached := false, connected := false }) where
  nodup := hchans ▸ h.nodup.erase c
  attached c' := by
    have hmem : c' ∈ (t.setChan c { t.chan c with attached := false, connected := false }).chans ↔
        c' ∈ s.chans.erase c := by rw [← hchans]; rfl
    rw [hmem, h.nodup.mem_erase_iff]
    by_cases hne : c' = c
    · simp [hne, setChan]
    · simp only [setChan, update_of_ne hne, hatt, h.attached]
      simp [hne]
  connected c' := by
    by_cases hne : c' = c
    · simp [hne, setChan]
    · simp only [setChan, update_of_ne hne, hatt, hcon]
      exact h.connected c'

theorem Listed.attach (h : Listed s) (hc : c ∉ s.chans) {chan : Chan}
    (hatt : chan.attached = true) : Listed ({ s with chans := c :: s.chans }.setChan c chan) where
  nodup := nodup_cons.2 ⟨hc, h.nodup⟩
  attached c' := by
    by_cases hne : c' = c
    · simp [hne, setChan, hatt]
    · simp only [setChan, update_of_ne hne, h.attached, mem_cons, hne, false_or]
  connected c' := by
    by_cases hne : c' = c
    · simp [hne, setChan, hatt]
    · simp only [setChan, update_of_ne hne]
      exact h.connected c'

theorem Listed.connect (h : Listed s) (c : ℕ) :
    Listed (s.setChan c { s.chan c with connected := (s.chan c).attached }) where
  nodup := h.nodup
  attached c' := by
    rw [setChan_congr Chan.attached (by rfl)]
    exact h.attached c'
  connected c' := by
    by_cases hne : c' = c
    · simp only [setChan, hne, update_self, imp_self]
    · simp only [setChan, update_of_ne hne]
      exact h.connected c'

/-- Which bearers are there: those in the list are attached, and the others
have nothing left. -/
structure Life (s : Bearers) : Prop where
  nodup : s.chans.Nodup
  attached : ∀ c, (s.chan c).attached = true ↔ c ∈ s.chans
  connected : ∀ c, (s.chan c).connected = true → (s.chan c).attached = true
  detached : ∀ c, (s.chan c).attached = false → (s.chan c).txQueue = []

/-- What `Moved` says of the buffers alone. -/
structure Accounted (K : Finset ℕ) (s s' : Bearers) : Prop where
  total : ∀ i, Bearers.total K i s' = Bearers.total K i s
  waits : ∀ buf, Waits s' buf → Waits s buf
  chanQueue : ∀ c, (s'.chan c).txQueue.length ≤ (s.chan c).txQueue.length
  sent : Sent s → Sent s'
  signs : s'.signs = s.signs
  next : s'.next = s.next
  held : s'.held = s.held

theorem Moved.accounted (h : Moved K [] s s') : Accounted K s s' where
  total i := by rw [h.total, copies_nil, Nat.zero_add]
  waits := h.waits
  chanQueue := h.chanQueue
  sent := h.sent
  signs := h.fixed.signs
  next := h.fixed.next
  held := h.fixed.held

theorem Accounted.trans (h : Accounted K s s') (h' : Accounted K s' t) : Accounted K s t where
  total i := (h'.total i).trans (h.total i)
  waits buf hb := h.waits buf (h'.waits buf hb)
  chanQueue c := (h'.chanQueue c).trans (h.chanQueue c)
  sent hs := h'.sent (h.sent hs)
  signs := h'.signs.trans h.signs
  next := h'.next.trans h.next
  held := h'.held.trans h.held

theorem Ready.accounted (h : Ready K s) (ha : Accounted K s s') : Ready K s' where
  support c hc := nil_of_le (ha.chanQueue c) (h.support c hc)
  signs := by
    rw [ha.signs]
    exact h.signs.imp_right fun hall buf hbuf => hall buf (ha.waits buf hbuf)

theorem Life.listed (h : Life s) : Listed s := ⟨h.nodup, h.attached, h.connected⟩

theorem Life.moved (h : Life s) (hm : Moved K hand s s') : Life s' where
  nodup := by rw [hm.fixed.chans]; exact h.nodup
  attached c := by rw [hm.fixed.attached, hm.fixed.chans]; exact h.attached c
  connected c := by rw [hm.fixed.attached, hm.fixed.connected]; exact h.connected c
  detached c hc := by
    rw [hm.fixed.attached] at hc
    exact nil_of_le (hm.chanQueue c) (h.detached c hc)

/-- **A bearer is detached**, with nothing left in its queue. -/
theorem life_attChanDetach (h : Ready K s) (hs : Sent s) (hl : Life s) (c : ℕ) :
    Accounted K s (attChanDetach onSent s c) ∧ Life (attChanDetach onSent s c) ∧
      (attChanDetach onSent s c).chans = s.chans.erase c := by
  have herase : Accounted K s { s with chans := s.chans.erase c } :=
    ⟨fun _ => rfl, fun _ hb => hb, fun _ => le_rfl, id, rfl, rfl, rfl⟩
  have hready := h.accounted herase
  obtain ⟨hdrain, hnil⟩ := moved_drainChan c _ hready (le_refl (s.chan c).txQueue.length)
  have hcomplete := moved_complete (hready.moved hdrain) (hdrain.sent hs) c [] (some .econnreset)
  have hm := hdrain.trans hcomplete
  rw [attChanDetach]
  dsimp only
  generalize complete onSent (drainChan onSent c (s.chan c).txQueue.length
    { s with chans := s.chans.erase c }) c [] (some .econnreset) = u at hcomplete hm
  have hempty : (u.chan c).txQueue = [] := nil_of_le (hcomplete.chanQueue c) hnil
  have hqueue : ∀ c', ((u.setChan c
      { u.chan c with attached := false, connected := false }).chan c').txQueue =
        (u.chan c').txQueue := setChan_congr Chan.txQueue rfl
  have hoff : Accounted K u (u.setChan c
      { u.chan c with attached := false, connected := false }) := by
    refine ⟨fun i => ?_, fun b hb => ?_, fun c' => ?_, fun hsent c' req hreq => ?_, rfl, rfl, rfl⟩
    · simp only [total, hqueue]
      rfl
    · refine hb.imp_right fun hb => hb.imp_left ?_
      rintro ⟨c', hmem⟩
      exact ⟨c', hqueue c' ▸ hmem⟩
    · rw [hqueue]
    · exact hsent c' req (Eq.trans (Eq.symm (setChan_congr Chan.req (by rfl) c')) hreq)
  have hchans : u.chans = s.chans.erase c := hm.fixed.chans
  have hlisted := hl.listed.detach hchans hm.fixed.attached hm.fixed.connected
  refine ⟨(herase.trans hm.accounted).trans hoff,
    ⟨hlisted.nodup, hlisted.attached, hlisted.connected, fun c' => ?_⟩, hchans⟩
  rw [hqueue]
  by_cases hne : c' = c
  · exact fun _ => hne ▸ hempty
  · simp only [setChan, update_of_ne hne]
    exact fun hc' => nil_of_le (hm.chanQueue c')
      (hl.detached c' ((hm.fixed.attached c').symm.trans hc'))

/-- The invariant besides the count: what is outstanding, who is there, and
that nothing waits where nobody is. -/
structure Sound (s : Bearers) : Prop where
  sent : Sent s
  life : Life s
  gone : s.chans = [] → s.txQueue = [] ∧ s.reqs = []

/-- A call that keeps the account and the invariant. -/
structure Keeps (K : Finset ℕ) (s s' : Bearers) : Prop where
  accounted : Accounted K s s'
  sound : Sound s'

theorem Sound.moved (h : Sound s) (hm : Moved K hand s s') : Sound s' where
  sent := hm.sent h.sent
  life := h.life.moved hm
  gone hnil := by
    rw [hm.fixed.chans] at hnil
    obtain ⟨htx, hreqs⟩ := h.gone hnil
    have hreqs' := hm.reqs
    rw [hreqs, length_nil] at hreqs'
    exact ⟨nil_of_le hm.txQueue htx, length_eq_zero_iff.1 (by omega)⟩

theorem Sound.keeps (h : Sound s) (hm : Moved K [] s s') : Keeps K s s' :=
  ⟨hm.accounted, h.moved hm⟩

theorem Keeps.trans (h : Keeps K s s') (h' : Keeps K s' t) : Keeps K s t :=
  ⟨h.accounted.trans h'.accounted, h'.sound⟩

theorem keeps_attDisconnected (h : Ready K s) (hs : Sound s) (c : ℕ) :
    Keeps K s (attDisconnected onSent s c) := by
  simp only [attDisconnected]
  split
  · exact hs.keeps .rfl
  · obtain ⟨hacc, hlife, -⟩ := life_attChanDetach h hs.sent hs.life c
    split
    next hne => exact ⟨hacc, hacc.sent hs.sent, hlife, fun hnil => absurd hnil hne⟩
    next =>
      have hready := h.accounted hacc
      rw [attReset]
      generalize attChanDetach onSent s c = u at hacc hlife hready
      obtain ⟨hdrain, htx⟩ := moved_drainTx _ hready (le_refl u.txQueue.length)
      obtain ⟨hdrop, hreqs, hlen⟩ := moved_dropReqs _ (hready.moved hdrain)
        (le_refl (drainTx onSent u.txQueue.length u).reqs.length)
      have hm := hdrain.trans hdrop
      have hacc' := hacc.trans hm.accounted
      exact ⟨hacc', hacc'.sent hs.sent, hlife.moved hm, fun _ => ⟨nil_of_le hlen htx, hreqs⟩⟩

theorem keeps_attHandleRsp (h : Ready K s) (hs : Sound s) (c : ℕ) (pdu : List UInt8)
    (err : Option Errno) : Keeps K s (attHandleRsp onSent s c pdu err) := by
  rw [attHandleRsp]
  split
  · exact keeps_attDisconnected h hs c
  · exact hs.keeps (moved_complete h hs.sent c pdu err)

theorem keeps_recv (h : Ready K s) (hs : Sound s) (c : ℕ) (raised : Bool) (pdu : List UInt8) :
    Keeps K s (recv onSent s c raised pdu) := by
  have hself : Keeps K s s := hs.keeps .rfl
  match pdu with
  | [] => exact hself
  | op :: body =>
    rw [recv]
    split
    · exact hself
    split
    · exact hself
    split
    · exact hself
    split
    · exact hself
    split
    · simp only [attErrorRsp]
      split
      next req hreq =>
        split
        · exact keeps_attHandleRsp h hs c _ _
        split
        · refine hs.keeps (moved_setReq s c ?_)
          rintro r ⟨⟩
          exact hs.sent c req hreq
        · exact keeps_attHandleRsp h hs c _ _
      next => exact keeps_attHandleRsp h hs c _ _
    split
    · simp only [attMtuRsp]
      split
      · exact keeps_attHandleRsp h hs c _ _
      · have hset : Moved K [] s (s.setChan c
            { s.chan c with rxMtu := s.cfg.localMtuUatt, txMtu := getLe16 body }) :=
          moved_setChan s c rfl (fun _ hr => Or.inr hr) rfl rfl
        exact (hs.keeps hset).trans (keeps_attHandleRsp (h.moved hset) (hs.moved hset) c _ _)
    · exact keeps_attHandleRsp h hs c _ _

theorem keeps_attStatus (h : Ready K s) (hs : Sound s) (c : ℕ) (out : Bool) :
    Keeps K s (attStatus onSent s c out) := by
  have hset : Moved K [] s (s.setChan c { s.chan c with statusOut := out }) :=
    moved_setChan s c rfl (fun _ hr => Or.inr hr) rfl rfl
  simp only [attStatus]
  split
  · exact hs.keeps hset
  split
  · exact hs.keeps hset
  split
  · exact hs.keeps hset
  split
  · exact hs.keeps hset
  next req reqs hreqs =>
    obtain ⟨hgone, hback⟩ := moved_btAttChanReqSend onSent (h.moved hset) c
      (hreqs ▸ List.Perm.refl _ : (s.setChan c { s.chan c with statusOut := out }).reqs.Perm
        (req :: reqs))
    split
    next heq =>
      rw [heq] at hgone
      exact hs.keeps (hset.trans (hgone rfl))
    next heq =>
      rw [heq] at hback
      exact hs.keeps (hset.trans (hback (by simp)))

theorem keeps_btAttReqCancel (h : Ready K s) (hs : Sound s) (id : ℕ) :
    Keeps K s (btAttReqCancel onSent s id) := by
  rw [btAttReqCancel]
  split
  · exact hs.keeps .rfl
  split
  next c _ =>
    split
    next req hreq =>
      rw [reqFree, hs.sent c req hreq]
      exact hs.keeps (moved_setReq s c (by simp))
    next => exact hs.keeps .rfl
  next =>
    split
    · exact hs.keeps .rfl
    next req reqs hfirst =>
      have hperm := (takeFirst_some hfirst).2
      rcases hbuf : req.buf with _ | buf
      · rw [reqFree, hbuf]
        exact hs.keeps (moved_reqs (reqBufs_perm hbuf hperm)
          (by rw [hperm.length_eq, length_cons]; omega))
      · have htook : Took K buf s { s with reqs } := took_req hbuf hperm
        rw [reqFree, hbuf]
        exact hs.keeps (htook.gone (moved_unref (htook.ready h) buf))

/-! ## Runs -/

/-- **The ownership invariant**: every buffer created so far is in one place,
once. -/
structure Owned (K : Finset ℕ) (s : Bearers) : Prop where
  once : ∀ i, total K i s = if i < s.next then 1 else 0
  support : ∀ c ∉ K, (s.chan c).txQueue = []
  sound : Sound s

theorem Owned.keeps (h : Owned K s) (hk : Keeps K s s') : Owned K s' where
  once i := by rw [hk.accounted.total, hk.accounted.next, h.once]
  support c hc := nil_of_le (hk.accounted.chanQueue c) (h.support c hc)
  sound := hk.sound

theorem Owned.same (h : Owned K s) (hm : Moved K [] s s') : Owned K s' :=
  h.keeps (h.sound.keeps hm)

/-- `s₀` is `s` with `buf` taken out of its holder's hands, or L2CAP's. -/
structure Handed (K : Finset ℕ) (buf : Buf) (s s₀ : Bearers) : Prop where
  total : ∀ i, Bearers.total K i s = copies i [buf] + Bearers.total K i s₀
  chan : s₀.chan = s.chan
  chans : s₀.chans = s.chans
  txQueue : s₀.txQueue = s.txQueue
  reqs : s₀.reqs = s.reqs
  signs : s₀.signs = s.signs
  next : s₀.next = s.next

theorem handed_held {held : List Buf} (h : ∀ i, copies i [buf] + copies i held = copies i s.held) :
    Handed K buf s { s with held } where
  total i := by
    have hcount := h i
    simp only [Bearers.total]
    omega
  chan := rfl
  chans := rfl
  txQueue := rfl
  reqs := rfl
  signs := rfl
  next := rfl

theorem handed_l2cap (hbuf : (c, buf) ∈ s.l2cap) :
    Handed K buf s { s with l2cap := s.l2cap.erase (c, buf) } where
  total i := by
    have hcount : copies i (s.l2cap.map Prod.snd) = copies i [buf] + _ :=
      copies_perm ((perm_cons_erase hbuf).map Prod.snd) i
    simp only [Bearers.total]
    omega
  chan := rfl
  chans := rfl
  txQueue := rfl
  reqs := rfl
  signs := rfl
  next := rfl

section Handed

variable {s₀ : Bearers}

theorem Handed.waits (h : Handed K buf s s₀) (b : Buf) : Waits s₀ b ↔ Waits s b := by
  simp only [Waits, h.txQueue, h.chan, h.reqs]

theorem Handed.ready (h : Handed K buf s s₀) (hr : Ready K s) : Ready K s₀ where
  support c hc := by rw [h.chan]; exact hr.support c hc
  signs := by
    rw [h.signs]
    exact hr.signs.imp_right fun hall b hb => hall b ((h.waits b).1 hb)

theorem Handed.sound (h : Handed K buf s s₀) (hs : Sound s) : Sound s₀ where
  sent c := by rw [h.chan]; exact hs.sent c
  life := ⟨by rw [h.chans]; exact hs.life.nodup,
    fun c => by rw [h.chan, h.chans]; exact hs.life.attached c,
    fun c => by rw [h.chan]; exact hs.life.connected c,
    fun c => by rw [h.chan]; exact hs.life.detached c⟩
  gone := by rw [h.chans, h.txQueue, h.reqs]; exact hs.gone

theorem Handed.owned (h : Handed K buf s s₀) (ho : Owned K s) (hm : Moved K [buf] s₀ s') :
    Owned K s' where
  once i := by rw [hm.total, ← h.total, hm.fixed.next, h.next, ho.once]
  support c hc := nil_of_le (hm.chanQueue c) (h.chan ▸ ho.support c hc)
  sound := (h.sound ho.sound).moved hm

theorem Handed.queued {t : Bearers} (h : Handed K buf s s₀) (ho : Owned K s)
    (hg : Gave K buf s₀ t) (hsupport : ∀ c ∉ K, (t.chan c).txQueue = []) (hsound : Sound t)
    (hm : Moved K [] t s') : Owned K s' where
  once i := by
    rw [hm.total, hg.total, copies_nil, Nat.zero_add, ← h.total, hm.fixed.next, hg.fixed.next,
      h.next, ho.once]
  support c hc := nil_of_le (hm.chanQueue c) (hsupport c hc)
  sound := hsound.moved hm

theorem Handed.gave_ready {t : Bearers} (h : Handed K buf s s₀) (hr : Ready K s)
    (hbuf : s.signs = none ∨ buf.op ≠ signedWriteCmd) (hg : Gave K buf s₀ t)
    (hsupport : ∀ c ∉ K, (t.chan c).txQueue = []) : Ready K t := by
  refine ⟨hsupport, ?_⟩
  rw [hg.fixed.signs, h.signs]
  refine hbuf.elim .inl fun hop => hr.signs.imp_right fun hall b hb => ?_
  rcases hg.waits b hb with rfl | hb
  · exact hop
  · exact hall b ((h.waits b).1 hb)

end Handed

/-- A buffer that the event hands over, to be sent. -/
def HandsOver (s : Bearers) : Event → Buf → Prop
  | .send buf, b => b = buf
  | .notifyMultSend buf _, b => b = buf
  | .reqSend _ buf, b => b = buf
  | .sendRsp _ buf, b => b = buf
  | .encryptChange c _ _ _ _, b => ∃ req, (s.chan c).req = .busy req ∧ b.op = req.op
  | _, _ => False

/-- **The condition on a step**: what waits, or is handed over, can be
signed where it must be; and `bt_att_send` finds the connection. -/
structure Careful (s : Bearers) (e : Event) : Prop where
  signs : s.signs = none ∨ ∀ buf, Waits s buf ∨ HandsOver s e buf → buf.op ≠ Op.signedWriteCmd
  found : ∀ buf, (e = .send buf ∨ ∃ single, e = .notifyMultSend buf single) → buf ∈ s.held →
    s.attGet = true

theorem Careful.ready {e : Event} (h : Careful s e) (ho : Owned K s) : Ready K s :=
  ⟨ho.support, h.signs.imp_right fun hall buf hb => hall buf (Or.inl hb)⟩

theorem Careful.signable {e : Event} (h : Careful s e) (hb : HandsOver s e buf) :
    s.signs = none ∨ buf.op ≠ signedWriteCmd :=
  h.signs.imp_right fun hall => hall buf (Or.inr hb)

theorem Sound.chans_ne_nil (h : Sound s) (hget : s.attGet = true) : s.chans ≠ [] := by
  intro hnil
  have hcon : (s.chan s.fixed).connected = true := by
    rw [attGet, Bool.and_eq_true] at hget
    exact hget.2
  have hmem := (h.life.attached _).1 (h.life.connected _ hcon)
  rw [hnil] at hmem
  exact not_mem_nil hmem

theorem Owned.send {s₀ : Bearers} (ho : Owned K s) (hh : Handed K buf s s₀) (hr : Ready K s)
    (hbuf : s.signs = none ∨ buf.op ≠ signedWriteCmd) (hne : s.chans ≠ []) :
    Owned K (attSendProcess onSent { s₀ with txQueue := s₀.txQueue ++ [buf] }) := by
  have hg : Gave K buf s₀ { s₀ with txQueue := s₀.txQueue ++ [buf] } :=
    gave_txQueue (perm_append_singleton buf s₀.txQueue)
  have hsound := hh.sound ho.sound
  have hready : Ready K { s₀ with txQueue := s₀.txQueue ++ [buf] } :=
    hh.gave_ready hr hbuf hg (hh.ready hr).support
  have hlife := hsound.life
  refine hh.queued ho hg hready.support ⟨hsound.sent,
    ⟨hlife.nodup, hlife.attached, hlife.connected, hlife.detached⟩, fun hnil => absurd ?_ hne⟩
    ((sendRule_moved onSent).attSendLoop (moved_processTxQueue onSent) none none _ hready)
  exact hh.chans ▸ hnil

theorem Owned.fresh (ho : Owned K s) (s₁ : Bearers) (hbuf : buf.id = s.next)
    (htotal : ∀ i, total K i s₁ = total K i s) (hnext : s₁.next = s.next + 1)
    (hsupport : ∀ c ∉ K, (s₁.chan c).txQueue = []) (hsound : Sound s₁)
    (hm : Moved K [buf] s₁ s') : Owned K s' where
  once i := by
    have hone : copies i [buf] = if s.next = i then 1 else 0 := by
      simp [copies, countP_cons, hbuf]
    rw [hm.total, htotal, ho.once, hm.fixed.next, hnext, hone]
    split <;> split <;> split <;> omega
  support c hc := nil_of_le (hm.chanQueue c) (hsupport c hc)
  sound := hsound.moved hm

theorem Owned.create (ho : Owned K s) (op : UInt8) (len : ℕ) (opt : ChanOpt) (c : ℕ) :
    Owned K (s.step (.create op len opt c)) where
  once i := by
    have hone : copies i [(⟨s.next, op, len, opt⟩ : Buf)] = if s.next = i then 1 else 0 := by
      simp [copies, countP_cons]
    have htotal : total K i (s.step (.create op len opt c)) =
        copies i [(⟨s.next, op, len, opt⟩ : Buf)] + total K i s := by
      simp only [total, step, setMeta]
      rw [copies_cons]
      omega
    have hnext : (s.step (.create op len opt c)).next = s.next + 1 := rfl
    rw [htotal, ho.once, hone, hnext]
    split <;> split <;> split <;> omega
  support := ho.support
  sound := ⟨ho.sound.sent, ⟨ho.sound.life.nodup, ho.sound.life.attached, ho.sound.life.connected,
      ho.sound.life.detached⟩, ho.sound.gone⟩

theorem Owned.attReqRetry (ho : Owned K s) (hr : Ready K s) (c : ℕ)
    (created encoded : Bool) (hreq : s.signs = none ∨ req.op ≠ signedWriteCmd) :
    Owned K (attReqRetry onSent s c req created encoded).2 ∧
      Ready K (attReqRetry onSent s c req created encoded).2 := by
  rw [Bearers.attReqRetry]
  split
  · exact ⟨ho, hr⟩
  split
  · exact ⟨ho, hr⟩
  set buf : Buf := ⟨s.next, req.op, 0, .none⟩
  set s₁ : Bearers := { s with next := s.next + 1 }.setMeta buf ⟨false, false, some c⟩
  have hsound : Sound s₁ := ⟨ho.sound.sent,
    ⟨ho.sound.life.nodup, ho.sound.life.attached, ho.sound.life.connected,
      ho.sound.life.detached⟩, ho.sound.gone⟩
  have hready : Ready K s₁ := ⟨hr.support, hr.signs⟩
  have hfresh : ∀ {t}, Moved K [buf] s₁ t → Owned K t ∧ Ready K t := fun hm =>
    ⟨ho.fresh s₁ rfl (fun _ => rfl) rfl ho.support hsound hm, hready.moved hm⟩
  dsimp only
  split
  · exact hfresh (moved_unref hready buf)
  · have hsend := moved_chanSend (K := K) onSent s₁ c
      (show s₁.signs = none ∨ buf.op ≠ signedWriteCmd from hreq)
    split
    next heq =>
      rw [heq] at hsend
      exact hfresh (hsend.resolve_right (by simp)).2
    next heq =>
      rw [heq] at hsend
      have hm := (hsend.resolve_left (by simp)).2
      exact hfresh (hm.trans (moved_unref (hready.moved hm) buf))

theorem Owned.encryptChange (ho : Owned K s) {fails low created encoded : Bool}
    (h : Careful s (.encryptChange c fails low created encoded)) :
    Owned K (encryptChange onSent s c fails low created encoded) := by
  have hr := h.ready ho
  simp only [Bearers.encryptChange]
  split
  · exact ho
  split
  next req hreq =>
    split
    · exact ho
    split
    · exact ho.keeps (keeps_attHandleRsp hr ho.sound c _ _)
    split
    · exact ho
    · have hop : s.signs = none ∨ req.op ≠ signedWriteCmd :=
        h.signable (show HandsOver s _ ⟨s.next, req.op, 0, .none⟩ from ⟨req, hreq, rfl⟩)
      obtain ⟨howned, hready⟩ := ho.attReqRetry hr c created encoded hop
      split
      next heq => rwa [heq] at howned
      next heq =>
        rw [heq] at howned hready
        exact howned.keeps (keeps_attHandleRsp hready howned.sound c _ _)
  next => exact ho

theorem Owned.enlarge (ho : Owned K s) (c : ℕ) : Owned (insert c K) s where
  once i := by
    by_cases hc : c ∈ K
    · rw [Finset.insert_eq_of_mem hc]
      exact ho.once i
    · have hempty := ho.support c hc
      have hone := ho.once i
      simp only [total] at hone ⊢
      rw [Finset.sum_insert hc, hempty, copies_nil, Nat.zero_add]
      exact hone
  support c' hc' := ho.support c' fun hmem => hc' (Finset.mem_insert_of_mem hmem)
  sound := ho.sound

/-- `bt_att_chan_send_rsp`: what cannot be sent now waits for its bearer. -/
theorem Owned.sendRsp {s₀ : Bearers} (ho : Owned K s) (hh : Handed K buf s s₀)
    (hc : (s.chan c).attached = true) (hbuf : s.signs = none ∨ buf.op ≠ signedWriteCmd) :
    Owned (insert c K) (btAttChanSendRsp onSent s₀ c buf) := by
  have hin := ho.enlarge c
  have hhin : Handed (insert c K) buf s s₀ := by
    refine ⟨fun i => ?_, hh.chan, hh.chans, hh.txQueue, hh.reqs, hh.signs, hh.next⟩
    by_cases hcK : c ∈ K
    · rw [Finset.insert_eq_of_mem hcK]
      exact hh.total i
    · have htotal := hh.total i
      have hempty := ho.support c hcK
      simp only [total] at htotal ⊢
      rw [Finset.sum_insert hcK, Finset.sum_insert hcK, hh.chan, hempty, copies_nil]
      rw [hh.chan] at htotal
      omega
  have hsend := moved_chanSend (K := insert c K) onSent s₀ c
    (show s₀.signs = none ∨ buf.op ≠ signedWriteCmd by rwa [hh.signs])
  have hsound := hh.sound ho.sound
  rw [btAttChanSendRsp]
  split
  next heq =>
    rw [heq] at hsend
    exact hhin.owned hin (hsend.resolve_right (by simp)).2
  next err s' heq =>
    rw [heq] at hsend
    have hm : Moved (insert c K) [] s₀ s' := (hsend.resolve_left (by simp)).2
    have hsound' : Sound s' := hsound.moved hm
    have hg : Gave (insert c K) buf s' (s'.setChan c
        { s'.chan c with txQueue := (s'.chan c).txQueue ++ [buf] }) :=
      gave_chanQueue (Finset.mem_insert_self c K) (perm_append_singleton buf _)
    have hatt : (s'.chan c).attached = true := by
      rw [hm.fixed.attached, hh.chan]
      exact hc
    refine ⟨fun i => ?_, fun c' hc' => ?_, hg.sent hsound'.sent, ⟨?_, fun c' => ?_, fun c' => ?_,
      fun c' hc' => ?_⟩, hsound'.gone⟩
    · rw [hg.total, hm.total, copies_nil, Nat.zero_add, ← hhin.total, hin.once, hg.fixed.next,
        hm.fixed.next, hh.next]
    · have hne : c' ≠ c := fun heq => hc' (heq ▸ Finset.mem_insert_self c K)
      simp only [setChan, update_of_ne hne]
      exact nil_of_le (hm.chanQueue c') (hh.chan ▸ hin.support c' hc')
    · exact hsound'.life.nodup
    · rw [hg.fixed.attached, hg.fixed.chans]
      exact hsound'.life.attached c'
    · rw [hg.fixed.attached, hg.fixed.connected]
      exact hsound'.life.connected c'
    · rw [hg.fixed.attached] at hc'
      have hne : c' ≠ c := by
        rintro rfl
        exact absurd (hatt.symm.trans hc') (by simp)
      simp only [setChan, update_of_ne hne]
      exact hsound'.life.detached c' hc'

theorem Owned.reqSend {s₀ : Bearers} (ho : Owned K s) (hh : Handed K buf s s₀) (hr : Ready K s)
    (hbuf : s.signs = none ∨ buf.op ≠ signedWriteCmd) (hne : s.chans ≠ []) (req : Req) :
    Owned K (attReqSendProcess onSent
      { s₀ with reqs := s₀.reqs ++ [{ req with buf := some buf }] }) := by
  have hg : Gave K buf s₀ { s₀ with reqs := s₀.reqs ++ [{ req with buf := some buf }] } :=
    gave_req rfl (perm_append_singleton _ s₀.reqs)
  have hsound := hh.sound ho.sound
  have hlife := hsound.life
  have hready : Ready K { s₀ with reqs := s₀.reqs ++ [{ req with buf := some buf }] } :=
    hh.gave_ready hr hbuf hg (hh.ready hr).support
  refine hh.queued ho hg hready.support ⟨hsound.sent,
    ⟨hlife.nodup, hlife.attached, hlife.connected, hlife.detached⟩, fun hnil => absurd ?_ hne⟩
    (moved_attReqSendProcess hready)
  exact hh.chans ▸ hnil

theorem handed_notify (hbuf : buf ∈ s.held) {buf' : Buf} (hid : buf'.id = buf.id) :
    Handed K buf' s { s with held := (buf' :: s.held.erase buf).erase buf' } := by
  refine handed_held fun i => ?_
  have hsame : copies i [buf'] = copies i [buf] := by
    simp [copies, countP_cons, hid]
  rw [erase_cons_head, hsame, copies_erase hbuf]

theorem Owned.attach (ho : Owned K s) (enhanced : Bool)
    (hc : ¬ ((s.chan c).attached = true ∨ c ∈ s.chans)) :
    Owned K ({ s with chans := c :: s.chans }.setChan c
      ⟨true, false, enhanced, false, false, 23, 23, .idle, []⟩) := by
  obtain ⟨hdet, hmem⟩ := not_or.1 hc
  have hempty : (s.chan c).txQueue = [] := ho.sound.life.detached c (by simpa using hdet)
  set chan : Chan := ⟨true, false, enhanced, false, false, 23, 23, .idle, []⟩
  have hqueue : ∀ c', (update s.chan c chan c').txQueue = (s.chan c').txQueue := by
    intro c'
    by_cases hne : c' = c
    · rw [hne, update_self, hempty]
    · rw [update_of_ne hne]
  have hlisted := ho.sound.life.listed.attach hmem (show chan.attached = true from rfl)
  refine ⟨fun i => ?_, fun c' hc' => (hqueue c').trans (ho.support c' hc'), fun c' req hreq => ?_,
    ⟨hlisted.nodup, hlisted.attached, hlisted.connected, fun c' => ?_⟩,
    fun hnil => absurd hnil (cons_ne_nil _ _)⟩
  · refine Eq.trans ?_ (ho.once i)
    simp only [total, setChan, hqueue]
  all_goals
    simp only [setChan] at *
    by_cases hne : c' = c
  · rw [hne, update_self] at hreq
    exact absurd hreq (by simp [chan])
  · rw [update_of_ne hne] at hreq
    exact ho.sound.sent c' req hreq
  · simp [hne, chan]
  · rw [update_of_ne hne]
    exact ho.sound.life.detached c'

theorem Owned.connected (ho : Owned K s) (c : ℕ) :
    Owned K (s.setChan c { s.chan c with connected := (s.chan c).attached }) := by
  have hsame : ∀ {α : Type} (f : Chan → α),
      f { s.chan c with connected := (s.chan c).attached } = f (s.chan c) → ∀ c',
        f ((s.setChan c { s.chan c with connected := (s.chan c).attached }).chan c') =
          f (s.chan c') := fun f hf => setChan_congr f hf
  have hqueue := hsame Chan.txQueue rfl
  have hlisted := ho.sound.life.listed.connect c
  refine ⟨fun i => ?_, fun c' hc' => (hqueue c').trans (ho.support c' hc'), fun c' req h => ?_,
    ⟨hlisted.nodup, hlisted.attached, hlisted.connected, fun c' => ?_⟩, ho.sound.gone⟩
  · refine Eq.trans ?_ (ho.once i)
    simp only [total, hqueue]
    rfl
  · rw [hsame Chan.req rfl] at h
    exact ho.sound.sent c' req h
  · rw [hsame Chan.attached rfl, hqueue]
    exact ho.sound.life.detached c'

theorem Owned.congr (ho : Owned K s) (hheld : s'.held = s.held) (hchan : s'.chan = s.chan)
    (hchans : s'.chans = s.chans) (htx : s'.txQueue = s.txQueue) (hreqs : s'.reqs = s.reqs)
    (hl2cap : s'.l2cap = s.l2cap) (hfreed : s'.freed = s.freed) (hnext : s'.next = s.next) :
    Owned K s' where
  once i := by
    rw [hnext, ← ho.once i]
    simp only [total, hheld, hchan, htx, hreqs, hl2cap, hfreed]
  support := by rw [hchan]; exact ho.support
  sound := by
    refine ⟨fun c => ?_, ⟨?_, fun c => ?_, fun c => ?_, fun c => ?_⟩, ?_⟩
    · rw [hchan]; exact ho.sound.sent c
    · rw [hchans]; exact ho.sound.life.nodup
    · rw [hchan, hchans]; exact ho.sound.life.attached c
    · rw [hchan]; exact ho.sound.life.connected c
    · rw [hchan]; exact ho.sound.life.detached c
    · rw [hchans, htx, hreqs]; exact ho.sound.gone

/-- **One event** leaves every buffer with one owner. -/
theorem Owned.step {e : Event} (ho : Owned K s) (h : Careful s e) : ∃ K', Owned K' (s.step e) := by
  have hr := h.ready ho
  cases e with
  | create op len opt c => exact ⟨K, ho.create op len opt c⟩
  | drop buf =>
    simp only [Bearers.step]
    split
    next hbuf =>
      have hh : Handed K buf s { s with held := s.held.erase buf } :=
        handed_held (copies_erase hbuf)
      exact ⟨K, hh.owned ho (moved_unref (hh.ready hr) buf)⟩
    next => exact ⟨K, ho⟩
  | send buf =>
    simp only [Bearers.step]
    split
    next hbuf =>
      have hget := h.found buf (Or.inl rfl) hbuf
      have hget' : ({ s with held := s.held.erase buf } : Bearers).attGet = true := hget
      rw [btAttSend, if_neg (by rw [hget']; simp)]
      exact ⟨K, ho.send (handed_held (copies_erase hbuf)) hr (h.signable rfl)
        (ho.sound.chans_ne_nil hget)⟩
    next => exact ⟨K, ho⟩
  | notifyMultSend buf single =>
    simp only [Bearers.step]
    split
    next hbuf =>
      have hget := h.found buf (Or.inr ⟨single, rfl⟩) hbuf
      rw [gattNotifyMultSend]
      set buf' : Buf := if single then { buf with op := notify, len := buf.len - 2 } else buf
      have hid : buf'.id = buf.id := by
        simp only [buf']
        split <;> rfl
      have hop : s.signs = none ∨ buf'.op ≠ signedWriteCmd := by
        have hsignable := h.signable (show HandsOver s _ buf from rfl)
        simp only [buf']
        split
        · exact Or.inr (show notify ≠ signedWriteCmd by decide)
        · exact hsignable
      have hget' : ({ s with held := (buf' :: s.held.erase buf).erase buf' } : Bearers).attGet =
        true := hget
      have hsend : btAttSend onSent { s with held := buf' :: s.held.erase buf } buf' =
          (none, attSendProcess onSent { s with
            held := (buf' :: s.held.erase buf).erase buf', txQueue := s.txQueue ++ [buf'] }) := by
        rw [btAttSend, if_neg (by rw [hget']; simp)]
      rw [hsend]
      exact ⟨K, ho.send (handed_notify hbuf hid) hr hop (ho.sound.chans_ne_nil hget)⟩
    next => exact ⟨K, ho⟩
  | reqSend req buf =>
    simp only [Bearers.step]
    split
    next hbuf =>
      rw [btAttReqSend]
      split
      · exact ⟨K, ho⟩
      next hget =>
        exact ⟨K, ho.reqSend (handed_held (copies_erase hbuf)) hr (h.signable rfl)
          (ho.sound.chans_ne_nil (by simpa using hget)) req⟩
    next => exact ⟨K, ho⟩
  | sendRsp c buf =>
    simp only [Bearers.step]
    split
    next hbuf =>
      exact ⟨insert c K, ho.sendRsp (handed_held (copies_erase hbuf.1)) hbuf.2 (h.signable rfl)⟩
    next => exact ⟨K, ho⟩
  | reqCancel id => exact ⟨K, ho.keeps (keeps_btAttReqCancel hr ho.sound id)⟩
  | recv c pdu raised => exact ⟨K, ho.keeps (keeps_recv hr ho.sound c raised pdu)⟩
  | release c buf =>
    simp only [Bearers.step]
    split
    next hbuf =>
      have hh : Handed K buf s { s with l2cap := s.l2cap.erase (c, buf) } := handed_l2cap hbuf
      exact ⟨K, hh.owned ho (moved_unref (hh.ready hr) buf)⟩
    next => exact ⟨K, ho⟩
  | sent c => exact ⟨K, ho.same (moved_onSent c hr)⟩
  | status c out => exact ⟨K, ho.keeps (keeps_attStatus hr ho.sound c out)⟩
  | encryptChange c fails low created encoded =>
    simp only [Bearers.step]
    split
    · exact ⟨K, ho.encryptChange h⟩
    · exact ⟨K, ho⟩
  | timeout c => exact ⟨K, ho.keeps (keeps_attDisconnected hr ho.sound c)⟩
  | disconnected c => exact ⟨K, ho.keeps (keeps_attDisconnected hr ho.sound c)⟩
  | attach c enhanced =>
    simp only [Bearers.step]
    split
    · exact ⟨K, ho⟩
    next hc => exact ⟨K, ho.attach enhanced hc⟩
  | connected c => exact ⟨K, ho.connected c⟩
  | mtu c rx tx => exact ⟨K, ho.same (moved_setChan s c rfl (fun _ hr => Or.inr hr) rfl rfl)⟩
  | conn up => exact ⟨K, ho.congr rfl rfl rfl rfl rfl rfl rfl rfl⟩
  | signing signs => exact ⟨K, ho.congr rfl rfl rfl rfl rfl rfl rfl rfl⟩

/-! ## The ownership theorem -/

/-- Nothing has been created, and nobody is there. -/
structure Fresh (s : Bearers) : Prop where
  next : s.next = 0
  held : s.held = []
  txQueue : s.txQueue = []
  reqs : s.reqs = []
  l2cap : s.l2cap = []
  freed : s.freed = []
  chans : s.chans = []
  chan : ∀ c, (s.chan c).attached = false ∧ (s.chan c).connected = false ∧
    (s.chan c).req = .idle ∧ (s.chan c).txQueue = []

/-- **Every buffer has one owner**: each that was created is in one place,
once. Where no bearer is left, none waits. -/
def OneOwner (s : Bearers) : Prop :=
  (∃ K : Finset ℕ, (∀ c ∉ K, (s.chan c).txQueue = []) ∧
    ∀ i, total K i s = if i < s.next then 1 else 0) ∧
  (s.chans = [] → ∀ buf, ¬ Waits s buf)

/-- Where the call of the event returns an error, its caller has the buffer
still. -/
def KeepsOnError (s : Bearers) : Event → Prop
  | .send buf =>
    buf ∈ s.held → (btAttSend onSent s buf).1 ≠ none → buf ∈ (s.step (.send buf)).held
  | .notifyMultSend buf single =>
    buf ∈ s.held → (gattNotifyMultSend onSent s buf single).1 ≠ none →
      ∃ b ∈ (s.step (.notifyMultSend buf single)).held, b.id = buf.id
  | .reqSend req buf =>
    buf ∈ s.held → (btAttReqSend onSent s req buf).1 ≠ none →
      buf ∈ (s.step (.reqSend req buf)).held
  | _ => True

theorem Fresh.owned (h : Fresh s) : Owned ∅ s where
  once i := by simp [total, h.held, h.txQueue, h.reqs, h.l2cap, h.freed, h.next, reqBufs]
  support c _ := (h.chan c).2.2.2
  sound :=
    ⟨fun c req hreq => absurd ((h.chan c).2.2.1.symm.trans hreq) (by simp),
      ⟨h.chans ▸ nodup_nil, fun c => by simp [(h.chan c).1, h.chans],
        fun c hc => absurd ((h.chan c).2.1.symm.trans hc) (by simp),
        fun c _ => (h.chan c).2.2.2⟩,
      fun _ => ⟨h.txQueue, h.reqs⟩⟩

theorem Owned.oneOwner (h : Owned K s) : OneOwner s := by
  refine ⟨⟨K, h.support, h.once⟩, fun hnil buf hwaits => ?_⟩
  obtain ⟨htx, hreqs⟩ := h.sound.gone hnil
  rcases hwaits with hmem | ⟨c, hmem⟩ | hmem
  · simp [htx] at hmem
  · have hatt : (s.chan c).attached = false := by
      rw [← Bool.not_eq_true, h.sound.life.attached, hnil]
      exact not_mem_nil
    simp [h.sound.life.detached c hatt] at hmem
  · simp [hreqs, reqBufs] at hmem

theorem Careful.keepsOnError {e : Event} (h : Careful s e) : KeepsOnError s e := by
  cases e with
  | send buf =>
    intro hbuf herr
    have hget : ({ s with held := s.held.erase buf } : Bearers).attGet = true :=
      h.found buf (Or.inl rfl) hbuf
    rw [btAttSend, if_neg (by rw [hget]; simp)] at herr
    exact absurd rfl herr
  | notifyMultSend buf single =>
    intro hbuf herr
    have hget : ∀ held, ({ s with held } : Bearers).attGet = true := fun _ =>
      h.found buf (Or.inr ⟨single, rfl⟩) hbuf
    rw [gattNotifyMultSend, btAttSend] at herr
    dsimp only at herr
    rw [if_neg (by rw [hget]; simp)] at herr
    exact absurd rfl herr
  | reqSend req buf =>
    intro hbuf herr
    rw [Bearers.step, if_pos hbuf, btAttReqSend]
    rw [btAttReqSend] at herr
    split
    · exact hbuf
    next hget =>
      rw [if_neg hget] at herr
      exact absurd rfl herr
  | create | drop | sendRsp | reqCancel | recv | release | sent | status | encryptChange | timeout
  | disconnected | attach | connected | mtu | conn | signing => trivial

/-- **Ownership over whole runs**: where every Signed Write that is sent
can be signed, and `bt_att_send` is called on a connection, every buffer has
one owner, and a caller whose call fails has its buffer still. -/
theorem buffers_have_one_owner {s : Bearers} {es : List Event} (hs : Fresh s)
    (hrun : Along step Careful s es) :
    OneOwner (run step s es) ∧ Along step KeepsOnError s es := by
  have hstep : ∀ s e, (∃ K, Owned K s) → Careful s e →
      (∃ K, Owned K (s.step e)) ∧ KeepsOnError s e := by
    rintro s e ⟨K, ho⟩ hc
    exact ⟨ho.step hc, hc.keepsOnError⟩
  obtain ⟨K, howned⟩ := inv_run (fun s => ∃ K, Owned K s) (fun s e h hc => (hstep s e h hc).1)
    ⟨∅, hs.owned⟩ hrun
  exact ⟨howned.oneOwner, inv_along (fun s => ∃ K, Owned K s) hstep ⟨∅, hs.owned⟩ hrun⟩

/-- Nobody is connected, and no security manager can sign. -/
def freshBearers : Bearers where
  cfg := ⟨false, true, true, 65, true, true⟩
  connState := true
  fixed := 0
  chan := fun _ => ⟨false, false, false, false, false, 65, 65, .idle, []⟩
  chans := []
  reqs := []
  txQueue := []
  held := []
  l2cap := []
  freed := []
  txMeta := fun _ => ⟨false, false, none⟩
  next := 0
  l2capSend := fun _ => none
  signs := some .enoent
  calls := 0
  done := []

theorem fresh_freshBearers : Fresh freshBearers :=
  ⟨rfl, rfl, rfl, rfl, rfl, rfl, rfl, fun _ => ⟨rfl, rfl, rfl, rfl⟩⟩

/-- A Write Command is sent, and the link is lost. -/
theorem buffers_have_one_owner_sample :
    let buf : Buf := ⟨0, Op.writeCmd, 3, .none⟩
    let es : List Event := [.signing none, .attach 0 false, .connected 0,
      .create Op.writeCmd 3 .none 0, .send buf, .disconnected 0]
    OneOwner (run step freshBearers es) ∧ Along step KeepsOnError freshBearers es := by
  intro buf es
  refine buffers_have_one_owner fresh_freshBearers
    ⟨⟨Or.inr ?_, ?_⟩, ⟨Or.inl rfl, ?_⟩, ⟨Or.inl rfl, ?_⟩, ⟨Or.inl rfl, ?_⟩, ⟨Or.inl rfl, ?_⟩,
      ⟨Or.inl rfl, ?_⟩, trivial⟩
  · rintro b (hwaits | hb)
    · exact absurd hwaits (by simp [Waits, freshBearers, reqBufs])
    · exact absurd hb (by simp [HandsOver])
  all_goals
    rintro b (h | ⟨single, h⟩) - <;> first | exact absurd h Event.noConfusion | decide

/-- A Multiple Handle Value Notification that finds no connection is
unreferenced twice; a Signed Write that cannot be signed is unreferenced
and waits. -/
theorem buffers_have_two_owners :
    let buf : Buf := ⟨0, Op.notifyMult, 9, .none⟩
    let signed : Buf := ⟨0, Op.signedWriteCmd, 3, .none⟩
    Fresh freshBearers ∧
      ¬ OneOwner (run step freshBearers [.create Op.notifyMult 9 .none 0,
        .notifyMultSend buf false]) ∧
      ¬ KeepsOnError (freshBearers.step (.create Op.notifyMult 9 .none 0)) (.send buf) ∧
      ¬ OneOwner (run step freshBearers [.attach 0 false, .connected 0,
        .create Op.signedWriteCmd 3 .none 0, .send signed]) := by
  intro buf signed
  refine ⟨fresh_freshBearers, ?_, ?_, ?_⟩
  · rintro ⟨⟨K, -, hone⟩, -⟩
    have hfreed : copies 0 (run step freshBearers [.create Op.notifyMult 9 .none 0,
        .notifyMultSend buf false]).freed = 2 := by decide
    have htotal := hone 0
    rw [total, hfreed] at htotal
    split at htotal <;> omega
  · intro h
    exact absurd (h (by decide) (by decide)) (by decide)
  · rintro ⟨⟨K, -, hone⟩, -⟩
    have hfreed : copies 0 (run step freshBearers [.attach 0 false, .connected 0,
        .create Op.signedWriteCmd 3 .none 0, .send signed]).freed = 1 := by decide
    have hqueue : copies 0 (run step freshBearers [.attach 0 false, .connected 0,
        .create Op.signedWriteCmd 3 .none 0, .send signed]).txQueue = 1 := by decide
    have htotal := hone 0
    rw [total, hfreed, hqueue] at htotal
    split at htotal <;> omega

end Bearers

end Att

end OpenBlue

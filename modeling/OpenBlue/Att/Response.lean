import OpenBlue.Att.Sending
import OpenBlue.Common.Run
/-!
# ATT client — a response completes the request it answers

Every response, and the confirmation, is taken by one function, which
looks at what is outstanding and not at the opcode. Sending fills idle
bearers only (`Fills`) and reports nothing; what is reported besides is a
failure. So a request is told of a success exactly by the answers that
come on its bearer, and by the right one as long as the peer sends no
other.
-/

namespace OpenBlue

namespace Att

namespace Bearers

open Function List

/-- The answer that is defined for a request, or an indication. -/
def rspOp (op : UInt8) : Option UInt8 :=
  [(Op.mtuReq, Op.mtuRsp), (Op.findInfoReq, Op.findInfoRsp), (Op.findTypeReq, Op.findTypeRsp),
    (Op.readTypeReq, Op.readTypeRsp), (Op.readReq, Op.readRsp), (Op.readBlobReq, Op.readBlobRsp),
    (Op.readMultReq, Op.readMultRsp), (Op.readMultVlReq, Op.readMultVlRsp),
    (Op.readGroupReq, Op.readGroupRsp), (Op.writeReq, Op.writeRsp),
    (Op.prepareWriteReq, Op.prepareWriteRsp), (Op.execWriteReq, Op.execWriteRsp),
    (Op.indicate, Op.confirm)].lookup op

/-! ## Sending completes nothing -/

/-- Idle bearers may have taken a request; nothing else has happened to the
requests that are outstanding, and none has been told anything. -/
structure Fills (s s' : Bearers) : Prop where
  req : ∀ c, (s.chan c).req ≠ .idle → (s'.chan c).req = (s.chan c).req
  done : s'.done = s.done

variable {s : Bearers}

theorem Fills.rfl : Fills s s := ⟨fun _ _ => Eq.refl _, Eq.refl _⟩

theorem Fills.trans {s' t : Bearers} (h : Fills s s') (h' : Fills s' t) : Fills s t where
  req c hc := by
    have hreq := h.req c hc
    rw [h'.req c (hreq ▸ hc), hreq]
  done := h'.done.trans h.done

variable {c : ℕ}

theorem fills_setReq (h : (s.chan c).req = .idle) (req : Slot) : Fills s (s.setReq c req) where
  req c' hc' := by
    have hc : c' ≠ c := by
      rintro rfl
      exact hc' h
    simp only [setReq, setChan, update_of_ne hc]
  done := Eq.refl _

@[simp] theorem chan_setReq_self (s : Bearers) (c : ℕ) (req : Slot) :
    ((s.setReq c req).chan c).req = req := by
  simp [setReq, setChan]

theorem chan_setReq_ne (s : Bearers) {c' : ℕ} (h : c' ≠ c) (req : Slot) :
    (s.setReq c req).chan c' = s.chan c' := by
  simp [setReq, setChan, update_of_ne h]

@[simp] theorem done_setReq (s : Bearers) (c : ℕ) (req : Slot) : (s.setReq c req).done = s.done :=
  rfl

section Sent

variable {sent : ℕ → Bearers → Bearers} (hsent : ∀ c s, Fills s (sent c s))

include hsent

theorem callRule_fills : CallRule sent (fun _ => True) Fills where
  refl _ := .rfl
  trans := Fills.trans
  same h := ⟨fun c _ => h.req c, h.done⟩
  fit _ _ := trivial
  sent _ c := hsent c _

/-- **An idle bearer may take the request**, and stays idle where it cannot
be sent. -/
theorem fills_btAttChanReqSend (h : (s.chan c).req = .idle) (req : Req) :
    Fills s (btAttChanReqSend sent s c req).2 := by
  rw [btAttChanReqSend]
  split
  · exact .rfl
  next buf _ =>
    split
    · exact .rfl
    have hsend := (fills_setReq h (.busy { req with buf := none })).trans
      ((callRule_fills hsent).btAttChanSend _ c buf fun _ => (callRule_fills hsent).unrefs trivial buf)
    split
    next heq =>
      rw [heq] at hsend
      refine ⟨fun c' hc' => ?_, hsend.done⟩
      have hc : c' ≠ c := by
        rintro rfl
        exact hc' h
      rw [chan_setReq_ne _ hc, hsend.req c' hc']
    next heq =>
      rw [heq] at hsend
      exact hsend

theorem sendRule_fills : SendRule sent (fun _ => True) (fun _ => True) Fills where
  refl _ := .rfl
  trans := Fills.trans
  fit _ _ := trivial
  req := by
    intro s c req reqs _ _ hidle _
    have htook : Fills s { s with reqs } := ⟨fun _ _ => rfl, rfl⟩
    have hsend := htook.trans (fills_btAttChanReqSend hsent (s := { s with reqs }) hidle req)
    exact ⟨fun _ => hsend, fun _ => hsend.trans ⟨fun _ _ => rfl, rfl⟩⟩

theorem fills_attSent (c : ℕ) (s : Bearers) : Fills s (attSent sent c s) :=
  (sendRule_fills hsent).attSent (callRule_fills hsent).processTxQueue
    (callRule_fills hsent).processChanQueue ((callRule_fills hsent).same (same_setChan s c _ rfl rfl rfl))
    (fun _ => trivial) trivial

theorem fills_reqFree (s : Bearers) (req : Req) : Fills s (reqFree sent s req) :=
  (callRule_fills hsent).reqFree trivial req

end Sent

theorem fills_attSentN (n c : ℕ) (s : Bearers) : Fills s (attSentN n c s) := by
  induction n generalizing c s with
  | zero => exact .rfl
  | succ n ih => exact fills_attSent (fun c s => ih c s) c s

theorem fills_onSent (c : ℕ) (s : Bearers) : Fills s (onSent c s) := fills_attSentN _ c s

/-! ## What is reported -/

/-- `evs` has been reported, and the requests outstanding on other bearers
than `c` are so still. -/
structure Settles (c : ℕ) (s s' : Bearers) (evs : List Done) : Prop where
  done : s'.done = s.done ++ evs
  other : ∀ c' ≠ c, (s.chan c').req ≠ .idle → (s'.chan c').req = (s.chan c').req

theorem Fills.settles {s' : Bearers} (h : Fills s s') (c : ℕ) : Settles c s s' [] where
  done := by rw [h.done, append_nil]
  other c' _ hc' := h.req c' hc'

theorem Settles.trans {s' t : Bearers} {evs evs' : List Done} (h : Settles c s s' evs)
    (h' : Settles c s' t evs') : Settles c s t (evs ++ evs') where
  done := by rw [h'.done, h.done, append_assoc]
  other c' hne hc' := by
    have hreq := h.other c' hne hc'
    rw [h'.other c' hne (hreq ▸ hc'), hreq]

theorem settles_setReq (s : Bearers) (c : ℕ) (req : Slot) : Settles c s (s.setReq c req) [] where
  done := by rw [done_setReq, append_nil]
  other c' hne _ := by rw [chan_setReq_ne s hne]

/-- All that has been reported are failures. -/
def Failures (evs : List Done) : Prop := ∀ d ∈ evs, d.err ≠ none

theorem failures_nil : Failures [] := by simp [Failures]

theorem Failures.append {evs evs' : List Done} (h : Failures evs) (h' : Failures evs') :
    Failures (evs ++ evs') := by
  intro d hd
  rcases mem_append.1 hd with hd | hd
  · exact h d hd
  · exact h' d hd

section Sent

variable {sent : ℕ → Bearers → Bearers} (hsent : ∀ c s, Fills s (sent c s))

include hsent

theorem fills_attReqSendProcess (s : Bearers) : Fills s (attReqSendProcess sent s) :=
  (sendRule_fills hsent).attReqSendLoop none false (fun _ _ => trivial) trivial

/-- **A request is completed** with what the function is given. -/
theorem settles_complete_busy {req : Req} (h : (s.chan c).req = .busy req)
    (pdu : List UInt8) (err : Option Errno) :
    Settles c s (complete sent s c pdu err) [⟨req, err, pdu⟩] := by
  have hfree := (fills_reqFree hsent s req).settles c
  have hidle := settles_setReq (reqFree sent s req) c .idle
  have hnext := (fills_attReqSendProcess hsent ((reqFree sent s req).setReq c .idle)).settles c
  have hall := (hfree.trans hidle).trans hnext
  rw [complete, h]
  refine ⟨?_, hall.other⟩
  have hdone := hall.done
  simp only [append_nil] at hdone
  simp only [hdone]

theorem settles_complete_cancelled (h : (s.chan c).req = .cancelled)
    (pdu : List UInt8) (err : Option Errno) : Settles c s (complete sent s c pdu err) [] := by
  rw [complete, h]
  exact (settles_setReq s c .idle).trans ((fills_attReqSendProcess hsent _).settles c)

theorem settles_complete_error (s : Bearers) (c : ℕ) (pdu : List UInt8) (err : Errno) :
    ∃ evs, Settles c s (complete sent s c pdu (some err)) evs ∧ Failures evs ∧
      ∀ req, (s.chan c).req = .busy req → ∃ d ∈ evs, d.req = req := by
  rcases hreq : (s.chan c).req with _ | _ | req
  · refine ⟨[], ?_, failures_nil, by simp⟩
    rw [complete, hreq]
    exact Fills.rfl.settles c
  · exact ⟨[], settles_complete_cancelled hsent hreq pdu _, failures_nil, by simp⟩
  · refine ⟨_, settles_complete_busy hsent hreq pdu _, by simp [Failures], ?_⟩
    rintro req' ⟨⟩
    exact ⟨_, mem_singleton.2 rfl, rfl⟩

theorem settles_attChanDetach (s : Bearers) (c : ℕ) :
    ∃ evs, Settles c s (attChanDetach sent s c) evs ∧ Failures evs ∧
      ∀ req, (s.chan c).req = .busy req → ∃ d ∈ evs, d.req = req := by
  have herase : Fills s { s with chans := s.chans.erase c } := ⟨fun _ _ => rfl, rfl⟩
  have hdrain := herase.trans
    ((callRule_fills hsent).drainChan c (s.chan c).txQueue.length trivial)
  obtain ⟨evs, hcomplete, hfail, htold⟩ := settles_complete_error hsent
    (drainChan sent c (s.chan c).txQueue.length { s with chans := s.chans.erase c }) c []
    .econnreset
  rw [attChanDetach]
  refine ⟨evs, ⟨?_, fun c' hne hc' => ?_⟩, hfail, fun req hreq => htold req ?_⟩
  · have hdone := hcomplete.done
    rw [hdrain.done] at hdone
    exact hdone
  · have hreq := hdrain.req c' hc'
    have hother := hcomplete.other c' hne (hreq ▸ hc')
    simp only [setChan, update_of_ne hne]
    rw [hother, hreq]
  · rw [hdrain.req c (by simp [hreq]), hreq]

theorem settles_dropReqs (c n : ℕ) (s : Bearers) :
    ∃ evs, Settles c s (dropReqs sent n s) evs ∧ Failures evs := by
  induction n generalizing s with
  | zero => exact ⟨[], Fills.rfl.settles c, failures_nil⟩
  | succ n ih =>
    rw [dropReqs]
    split
    · exact ⟨[], Fills.rfl.settles c, failures_nil⟩
    next req reqs _ =>
      have hsaid : Settles c s { s with reqs, done := s.done ++ [⟨req, some .econnreset, []⟩] }
          [⟨req, some .econnreset, []⟩] := ⟨rfl, fun _ _ _ => rfl⟩
      have hfree := hsaid.trans ((fills_reqFree hsent _ req).settles c)
      obtain ⟨evs, hrest, hfail⟩ := ih (reqFree sent
        { s with reqs, done := s.done ++ [⟨req, some .econnreset, []⟩] } req)
      refine ⟨_, hfree.trans hrest, Failures.append ?_ hfail⟩
      simp [Failures]

theorem settles_attDisconnected (s : Bearers) (c : ℕ) :
    ∃ evs, Settles c s (attDisconnected sent s c) evs ∧ Failures evs := by
  simp only [attDisconnected]
  split
  · exact ⟨[], Fills.rfl.settles c, failures_nil⟩
  · obtain ⟨evs, hdetach, hfail, -⟩ := settles_attChanDetach hsent s c
    split
    · exact ⟨evs, hdetach, hfail⟩
    · obtain ⟨evs', hdrop, hfail'⟩ := settles_dropReqs hsent c
        (drainTx sent (attChanDetach sent s c).txQueue.length (attChanDetach sent s c)).reqs.length
        (drainTx sent (attChanDetach sent s c).txQueue.length (attChanDetach sent s c))
      have hdrain := ((callRule_fills hsent).drainTx (s := attChanDetach sent s c)
        (attChanDetach sent s c).txQueue.length trivial).settles c
      exact ⟨_, (hdetach.trans hdrain).trans hdrop, (hfail.append failures_nil).append hfail'⟩

/-- **An error completes the request it is reported for**, if there is one. -/
theorem settles_attHandleRsp_error (s : Bearers) (c : ℕ) (pdu : List UInt8) (err : Errno) :
    ∃ evs, Settles c s (attHandleRsp sent s c pdu (some err)) evs ∧ Failures evs ∧
      ∀ req, (s.chan c).req = .busy req → ∃ d ∈ evs, d.req = req := by
  rw [attHandleRsp]
  split
  next hidle =>
    obtain ⟨evs, hsettles, hfail⟩ := settles_attDisconnected hsent s c
    exact ⟨evs, hsettles, hfail, by simp [hidle]⟩
  next => exact settles_complete_error hsent s c pdu err

theorem settles_attHandleRsp_success (s : Bearers) (c : ℕ) (pdu : List UInt8) :
    ∃ evs, Settles c s (attHandleRsp sent s c pdu none) evs ∧
      (∀ req, (s.chan c).req = .busy req → evs = [⟨req, none, pdu⟩]) ∧
      ((∀ req, (s.chan c).req ≠ .busy req) → Failures evs) := by
  rw [attHandleRsp]
  rcases hreq : (s.chan c).req with _ | _ | req
  · obtain ⟨evs, hsettles, hfail⟩ := settles_attDisconnected hsent s c
    exact ⟨evs, by rwa [if_pos rfl], by simp, fun _ => hfail⟩
  · refine ⟨[], ?_, by simp, fun _ => failures_nil⟩
    rw [if_neg (by simp)]
    exact settles_complete_cancelled hsent hreq pdu none
  · refine ⟨[⟨req, none, pdu⟩], ?_, ?_, fun h => absurd rfl (h req)⟩
    · rw [if_neg (by simp)]
      exact settles_complete_busy hsent hreq pdu none
    · rintro req' ⟨⟩
      rfl

end Sent

/-! ## Receiving -/

/-- The PDU is taken as a success: it has a handler, is long enough for it,
and is no error. -/
def Success (cfg : BearerCfg) (op : UInt8) (body : List UInt8) : Prop :=
  op ≠ Op.errorRsp ∧
    (∃ entry, (answers cfg).find? (·.1 = op) = some entry ∧ entry.2 ≤ body.length) ∧
    (op = Op.mtuRsp → 23 ≤ getLe16 body)

/-- The bearer `c` takes the PDU as a success. -/
def Taken (s : Bearers) (c : ℕ) (op : UInt8) (body : List UInt8) : Prop :=
  s.connState = true ∧ (s.chan c).attached = true ∧ Success s.cfg op body

/-- The request is told something, or it is outstanding still. -/
def Spoken (s' : Bearers) (c : ℕ) (evs : List Done) (req : Req) : Prop :=
  (∃ d ∈ evs, d.req = req) ∨ ∃ retrying, (s'.chan c).req = .busy { req with retrying }

theorem spoken_self {req : Req} (h : (s.chan c).req = .busy req)
    (evs : List Done) : Spoken s c evs req := Or.inr ⟨req.retrying, h⟩

section Sent

variable {sent : ℕ → Bearers → Bearers} (hsent : ∀ c s, Fills s (sent c s))

include hsent

/-- **A PDU that is not taken as a success** makes failures at most. -/
theorem settles_recv_other (raised : Bool) {op : UInt8} {body : List UInt8}
    (h : ¬ Taken s c op body) :
    ∃ evs, Settles c s (recv sent s c raised (op :: body)) evs ∧ Failures evs ∧
      ∀ req, (s.chan c).req = .busy req → Spoken (recv sent s c raised (op :: body)) c evs req := by
  have hself : ∃ evs, Settles c s s evs ∧ Failures evs ∧
      ∀ req, (s.chan c).req = .busy req → Spoken s c evs req :=
    ⟨[], Fills.rfl.settles c, failures_nil, fun req hreq => spoken_self hreq []⟩
  have herror : ∀ err, ∃ evs, Settles c s (attHandleRsp sent s c [] (some err)) evs ∧
      Failures evs ∧ ∀ req, (s.chan c).req = .busy req →
        Spoken (attHandleRsp sent s c [] (some err)) c evs req := by
    intro err
    obtain ⟨evs, hsettles, hfail, htold⟩ := settles_attHandleRsp_error hsent s c [] err
    exact ⟨evs, hsettles, hfail, fun req hreq => Or.inl (htold req hreq)⟩
  rw [recv]
  by_cases hconn : s.connState = true
  · by_cases hatt : (s.chan c).attached = true
    · rw [if_neg (by simp [hconn]), if_neg (by simp [hatt])]
      split
      · exact hself
      next op' expectLen hfind =>
        split
        · exact hself
        next hlen =>
          split
          · -- an Error Response: the security is raised, or the request fails
            simp only [attErrorRsp]
            split
            next req hreq =>
              split
              · exact herror _
              split
              · refine ⟨[], settles_setReq s c _, failures_nil, ?_⟩
                intro req' hreq'
                obtain rfl : req = req' := by simpa [hreq] using hreq'
                exact Or.inr ⟨true, by simp⟩
              · exact herror _
            next => exact herror _
          next herr =>
            split
            next hmtu =>
              simp only [attMtuRsp]
              split
              · exact herror _
              next hlarge =>
                exact absurd ⟨hconn, hatt, herr, ⟨_, hfind, not_lt.1 hlen⟩,
                  fun _ => not_lt.1 hlarge⟩ h
            next hmtu =>
              exact absurd ⟨hconn, hatt, herr, ⟨_, hfind, not_lt.1 hlen⟩,
                fun he => absurd he hmtu⟩ h
    · rw [if_neg (by simp [hconn]), if_pos hatt]
      exact hself
  · rw [if_pos hconn]
    exact hself

/-- **A PDU that is taken as a success** is told to the request that is
outstanding. -/
theorem settles_recv_taken (raised : Bool) {op : UInt8} {body : List UInt8}
    (h : Taken s c op body) : ∃ evs, Settles c s (recv sent s c raised (op :: body)) evs ∧
      (∀ req, (s.chan c).req = .busy req → evs = [⟨req, none, body⟩]) ∧
      ((∀ req, (s.chan c).req ≠ .busy req) → Failures evs) := by
  obtain ⟨hconn, hatt, herr, ⟨⟨op', expectLen⟩, hfind, hlen⟩, hmtu⟩ := h
  simp only [recv, hconn, hatt, not_true, if_false, hfind, not_lt.2 hlen, herr]
  by_cases hop : op = Op.mtuRsp
  · rw [if_pos hop, attMtuRsp, if_neg (not_lt.2 (hmtu hop))]
    have hset : Fills s (s.setChan c
        { s.chan c with rxMtu := s.cfg.localMtuUatt, txMtu := getLe16 body }) :=
      (callRule_fills hsent).same (same_setChan s c _ rfl rfl rfl)
    have hreq : ((s.setChan c { s.chan c with
        rxMtu := s.cfg.localMtuUatt, txMtu := getLe16 body }).chan c).req = (s.chan c).req := by
      simp [setChan]
    obtain ⟨evs, hsettles, hbusy, hidle⟩ := settles_attHandleRsp_success hsent (s.setChan c
      { s.chan c with rxMtu := s.cfg.localMtuUatt, txMtu := getLe16 body }) c body
    rw [hreq] at hbusy hidle
    exact ⟨evs, (hset.settles c).trans hsettles, hbusy, hidle⟩
  · rw [if_neg hop]
    exact settles_attHandleRsp_success hsent s c body

end Sent

/-! ## Runs -/

/-- A successful answer that is not the one defined for the request it
comes to. -/
def Mismatch (s : Bearers) (e : Event) : Prop :=
  ∃ c op body raised req, e = .recv c (op :: body) raised ∧ Taken s c op body ∧
    (s.chan c).req = .busy req ∧ rspOp req.op ≠ some op

/-- **What a step owes the requests**: a success is told only for the PDU
received, on its bearer, and with the opcode defined for the request; and a
request that is outstanding when a PDU comes is told something, or is
outstanding still. -/
def Answered (s : Bearers) (e : Event) : Prop :=
  ∃ evs, (s.step e).done = s.done ++ evs ∧
    (∀ d ∈ evs, d.err = none → ∃ c op raised, e = .recv c (op :: d.pdu) raised ∧
      (s.chan c).req = .busy d.req ∧ rspOp d.req.op = some op) ∧
    (∀ c pdu raised, e = .recv c pdu raised → ∀ c' req, (s.chan c').req = .busy req →
      Spoken (s.step e) c' evs req)

theorem failures_encryptChange (s : Bearers) (c : ℕ) (fails low created encoded : Bool) :
    ∃ evs, (encryptChange onSent s c fails low created encoded).done = s.done ++ evs ∧
      Failures evs := by
  have hself : ∃ evs, s.done = s.done ++ evs ∧ Failures evs :=
    ⟨[], (append_nil _).symm, failures_nil⟩
  rw [encryptChange]
  split
  · exact hself
  split
  next req _ =>
    split
    · exact hself
    split
    · obtain ⟨evs, hsettles, hfail, -⟩ :=
        settles_attHandleRsp_error fills_onSent s c [] (.att Err.authentication)
      exact ⟨evs, hsettles.done, hfail⟩
    split
    · exact hself
    have hretry := (callRule_fills fills_onSent).attReqRetry (s := s) trivial c req created encoded
    split
    next heq =>
      rw [heq] at hretry
      exact ⟨[], by rw [hretry.done, append_nil], failures_nil⟩
    next err s' heq =>
      rw [heq] at hretry
      obtain ⟨evs, hsettles, hfail, -⟩ :=
        settles_attHandleRsp_error fills_onSent s' c [] (.att err)
      exact ⟨evs, by rw [hsettles.done, hretry.done], hfail⟩
  next => exact hself

theorem failures_step (s : Bearers) (e : Event) (h : ∀ c pdu raised, e ≠ .recv c pdu raised) :
    ∃ evs, (s.step e).done = s.done ++ evs ∧ Failures evs := by
  have hsame : ∀ {s' : Bearers}, s'.done = s.done → ∃ evs, s'.done = s.done ++ evs ∧
      Failures evs := fun hdone => ⟨[], by rw [hdone, append_nil], failures_nil⟩
  have hdown : ∀ c, ∃ evs, (attDisconnected onSent s c).done = s.done ++ evs ∧ Failures evs := by
    intro c
    obtain ⟨evs, hsettles, hfail⟩ := settles_attDisconnected fills_onSent s c
    exact ⟨evs, hsettles.done, hfail⟩
  have hpasses : e.passesOn = true → ∃ evs, (s.step e).done = s.done ++ evs ∧ Failures evs :=
    fun hp => hsame ((callRule_fills fills_onSent).step (sendRule_fills fills_onSent)
      (fun _ _ => trivial) trivial hp).done
  cases e with
  | recv c pdu raised => exact absurd rfl (h c pdu raised)
  | reqSend req buf =>
    simp only [step, btAttReqSend]
    split
    · split
      · exact hsame rfl
      · exact hsame (fills_attReqSendProcess fills_onSent _).done
    · exact hsame rfl
  | reqCancel id =>
    simp only [step, btAttReqCancel]
    split
    · exact hsame rfl
    split
    · split
      · exact hsame (fills_reqFree fills_onSent _ _).done
      · exact hsame rfl
    · split
      · exact hsame rfl
      · exact hsame (fills_reqFree fills_onSent _ _).done
  | encryptChange c fails low created encoded =>
    simp only [step]
    split
    · exact failures_encryptChange s c fails low created encoded
    · exact hsame rfl
  | timeout c => exact hdown c
  | disconnected c => exact hdown c
  | attach c enhanced =>
    simp only [step]
    split <;> exact hsame rfl
  | connected => exact hsame rfl
  | _ => exact hpasses rfl

/-- **A step owes nothing, unless the answer is not the right one.** -/
theorem answered_iff (s : Bearers) (e : Event) : Answered s e ↔ ¬ Mismatch s e := by
  constructor
  · rintro ⟨evs, hdone, hright, -⟩ ⟨c, op, body, raised, req, rfl, htaken, hreq, hne⟩
    obtain ⟨evs', hsettles, hbusy, -⟩ := settles_recv_taken fills_onSent raised htaken
    obtain rfl : evs = evs' := append_cancel_left (hdone.symm.trans hsettles.done)
    obtain rfl := hbusy req hreq
    obtain ⟨c', op', raised', heq, -, hop⟩ := hright _ (mem_singleton.2 rfl) rfl
    simp only [Event.recv.injEq, List.cons.injEq] at heq
    obtain ⟨-, ⟨rfl, -⟩, -⟩ := heq
    exact hne hop
  · intro h
    by_cases hrecv : ∃ c pdu raised, e = .recv c pdu raised
    · obtain ⟨c, pdu, raised, rfl⟩ := hrecv
      -- what the requests of the other bearers are told is nothing
      have hspoken : ∀ {evs}, Settles c s (s.step (.recv c pdu raised)) evs →
          (∀ req, (s.chan c).req = .busy req → Spoken (s.step (.recv c pdu raised)) c evs req) →
          ∀ c' pdu' raised', Event.recv c pdu raised = .recv c' pdu' raised' → ∀ c'' req,
            (s.chan c'').req = .busy req → Spoken (s.step (.recv c pdu raised)) c'' evs req := by
        intro evs hsettles hself _ _ _ _ c'' req hreq
        by_cases hc : c'' = c
        · subst hc
          exact hself req hreq
        · exact spoken_self ((hsettles.other c'' hc (by simp [hreq])).trans hreq) evs
      match pdu with
      | [] =>
        exact ⟨[], (append_nil _).symm, by simp, hspoken (Fills.rfl.settles c)
          fun req hreq => spoken_self hreq []⟩
      | op :: body =>
        by_cases htaken : Taken s c op body
        · obtain ⟨evs, hsettles, hbusy, hidle⟩ := settles_recv_taken fills_onSent raised htaken
          refine ⟨evs, hsettles.done, fun d hd hnone => ?_, hspoken hsettles fun req hreq => ?_⟩
          · by_cases hex : ∃ req, (s.chan c).req = .busy req
            · obtain ⟨req, hreq⟩ := hex
              rw [hbusy req hreq, mem_singleton] at hd
              subst hd
              refine ⟨c, op, raised, rfl, hreq, not_not.1 fun hne => h ?_⟩
              exact ⟨c, op, body, raised, req, rfl, htaken, hreq, hne⟩
            · exact absurd hnone (hidle (fun req hreq => hex ⟨req, hreq⟩) d hd)
          · exact Or.inl ⟨_, by rw [hbusy req hreq]; exact mem_singleton.2 rfl, rfl⟩
        · obtain ⟨evs, hsettles, hfail, htold⟩ := settles_recv_other fills_onSent raised htaken
          exact ⟨evs, hsettles.done, fun d hd hnone => absurd hnone (hfail d hd),
            hspoken hsettles htold⟩
    · have hother : ∀ c pdu raised, e ≠ .recv c pdu raised :=
        fun c pdu raised he => hrecv ⟨c, pdu, raised, he⟩
      obtain ⟨evs, hdone, hfail⟩ := failures_step s e hother
      exact ⟨evs, hdone, fun d hd hnone => absurd hnone (hfail d hd),
        fun c pdu raised he => absurd he (hother c pdu raised)⟩

/-- **When a response completes only the request it answers**: in every run
in which no bearer with a request outstanding takes a successful answer
that is not defined for that request. -/
theorem responses_answer_requests (s : Bearers) (es : List Event) :
    Along step Answered s es ↔ Along step (fun s e => ¬ Mismatch s e) s es :=
  ⟨along_mono fun s e => (answered_iff s e).1, along_mono fun s e => (answered_iff s e).2⟩

/-- A connection with one bearer, on which everything can be sent. -/
def sampleBearers : Bearers where
  cfg := ⟨false, true, true, 65, true, true⟩
  connState := true
  fixed := 0
  chan := fun _ => ⟨true, true, false, false, false, 65, 65, .idle, []⟩
  chans := [0]
  reqs := []
  txQueue := []
  held := []
  l2cap := []
  freed := []
  txMeta := fun _ => ⟨false, false, none⟩
  next := 0
  l2capSend := fun _ => none
  signs := none
  calls := 0
  done := []

/-- A Read Request is outstanding, and a Write Response completes it. -/
theorem read_completed_by_writeRsp :
    let buf : Buf := ⟨0, Op.readReq, 3, .none⟩
    let req : Req := ⟨0, Op.readReq, true, none, false⟩
    let s := run step sampleBearers [.create Op.readReq 3 .none 0, .reqSend req buf]
    (s.step (.recv 0 [Op.writeRsp] false)).done = s.done ++ [⟨req, none, []⟩] ∧
      ¬ Answered s (.recv 0 [Op.writeRsp] false) := by
  intro buf req s
  have hdone : (s.step (.recv 0 [Op.writeRsp] false)).done = s.done ++ [⟨req, none, []⟩] := by
    decide
  refine ⟨hdone, ?_⟩
  rintro ⟨evs, hevs, hright, -⟩
  obtain rfl := List.append_cancel_left (hevs.symm.trans hdone)
  obtain ⟨c, op, raised, heq, -, hop⟩ := hright _ (List.mem_singleton.2 rfl) rfl
  simp only [Event.recv.injEq, List.cons.injEq] at heq
  obtain ⟨-, ⟨rfl, -⟩, -⟩ := heq
  exact absurd hop (by decide)

end Bearers

end Att

end OpenBlue

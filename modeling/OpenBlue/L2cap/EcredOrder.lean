import OpenBlue.L2cap.ChannelRuns
import OpenBlue.L2cap.EcredLoop
/-!
# L2CAP — the order of the channels of a request

The channels of a request stand at the front of those that wait under its
identifier, in the order of their CIDs in the request: they are appended in
that order, or read off the list in its order, and nothing that waits comes
between them (`prefix_of_grown`). So a response that finds them there finds
the DCID of each at the place of its CID.
-/

namespace OpenBlue

namespace L2cap

namespace LeConn

open List

variable {cfg : Cfg} {ident : UInt8} {c₀ c c' : LeConn} {e : Event} {es : List Event}
variable {new front request l : List ℕ} {i j k : ℕ}

/-! ## Lists -/

theorem prefix_of_sublist {α : Type*} {l L t : List α} (h : L.Sublist (l ++ t))
    (hnodup : (l ++ t).Nodup) (hmem : ∀ a ∈ l, a ∈ L) : l <+: L := by
  obtain ⟨L₁, L₂, rfl, h₁, h₂⟩ := sublist_append_iff.1 h
  have hdisjoint := disjoint_of_nodup_append hnodup
  have hsub : l ⊆ L₁ := fun a ha =>
    (mem_append.1 (hmem a ha)).resolve_right fun ha₂ => hdisjoint ha (h₂.subset ha₂)
  have hlen : l.length ≤ L₁.length := (hnodup.of_append_left.subperm hsub).length_le
  rw [h₁.eq_of_length_le hlen]
  exact prefix_append _ _

theorem withIdent_eq (c : LeConn) : c.withIdent ident .ecredConn =
    c.channels.filter fun j => decide ((c.chan j).Asking ident) := rfl

/-! ## While a request waits -/

/-- **The channels at the front stay there** for as long as they wait. -/
theorem prefix_of_grown (hlisted : c₀.Listed) (hphase : c₀.phase ≠ .disconnected)
    (h : Grown ident new c₀ c) (hfront : front <+: c₀.withIdent ident .ecredConn)
    (hwait : ∀ i ∈ front, i ∈ c.withIdent ident .ecredConn) :
    front <+: c.withIdent ident .ecredConn := by
  obtain ⟨kept, added, hc, hsub, hadded⟩ := h.split
  have hattached : ∀ i ∈ c₀.channels, (c₀.chan i).attached = true :=
    fun i hi => (hlisted.attached i hi).2 hphase
  have hsplit : c.withIdent ident .ecredConn =
      (kept.filter fun j => decide ((c.chan j).Asking ident)) ++
        added.filter fun j => decide ((c.chan j).Asking ident) := by
    rw [withIdent_eq, hc, filter_append]
  -- those that are left and wait did so before
  have hold : (kept.filter fun j => decide ((c.chan j).Asking ident)).Sublist
      (c₀.withIdent ident .ecredConn) := by
    have hboth : (kept.filter fun j => decide ((c.chan j).Asking ident)) =
        (kept.filter fun j => decide ((c₀.chan j).Asking ident)).filter
          fun j => decide ((c.chan j).Asking ident) := by
      rw [filter_filter]
      refine filter_congr fun j hj => ?_
      have hmem : j ∈ c.channels := hc ▸ mem_append_left _ hj
      have := h.asking j hmem (hattached j (hsub.subset hj))
      by_cases hask : (c.chan j).Asking ident <;> simp [hask, this]
    rw [hboth, withIdent_eq]
    exact filter_sublist.trans (hsub.filter _)
  obtain ⟨t, ht⟩ := hfront
  have hnodup : (front ++ t).Nodup := ht ▸ hlisted.nodup.filter _
  have hmem : ∀ i ∈ front, i ∈ kept.filter fun j => decide ((c.chan j).Asking ident) := by
    intro i hi
    have hmem₀ : i ∈ c₀.withIdent ident .ecredConn := ht ▸ mem_append_left _ hi
    have hin := hwait i hi
    rw [hsplit] at hin
    refine (mem_append.1 hin).resolve_right fun hadd => ?_
    have hfresh := h.fresh i (hadded i (mem_of_mem_filter hadd))
    rw [hattached i (mem_withIdent.1 hmem₀).1] at hfresh
    cases hfresh
  rw [hsplit]
  exact (prefix_of_sublist (ht ▸ hold) hnodup hmem).trans (prefix_append _ _)

/-- An event within the life of a request: no other request is given its
identifier, and the channels go on waiting. -/
def Keeps (cfg : Cfg) (ident : UInt8) (front : List ℕ) (c : LeConn) (e : Event) : Prop :=
  c.enabled e ∧ ¬ e.Gives ident ∧ ∀ i ∈ front, (c.exec cfg e).Waits ident i

/-- What holds of a request that waits. -/
structure Standing (ident : UInt8) (front : List ℕ) (c : LeConn) : Prop extends Listed c where
  waits : ∀ i ∈ front, c.Waits ident i
  front : front <+: c.withIdent ident .ecredConn

theorem Standing.exec (h : Standing ident front c) (hkeeps : Keeps cfg ident front c e) :
    Standing ident front (c.exec cfg e) := by
  obtain ⟨henabled, hgives, hwaits⟩ := hkeeps
  have hlisted : (c.exec cfg e).Listed := listed_exec h.toListed henabled
  refine ⟨hlisted, hwaits, ?_⟩
  cases hfront : front with
  | nil => exact nil_prefix
  | cons i front' =>
    rw [← hfront]
    have hi : i ∈ front := hfront ▸ mem_cons_self
    have hphase : c.phase ≠ .disconnected :=
      (h.attached i (h.waits i hi).mem).1 (h.waits i hi).attached
    have hphase' : (c.exec cfg e).phase ≠ .disconnected :=
      (hlisted.attached i (hwaits i hi).mem).1 (hwaits i hi).attached
    have hlink : e.InLink := by
      cases e with
      | linkUp => exact absurd henabled.1 hphase
      | linkDown => exact absurd rfl hphase'
      | _ => exact trivial
    obtain ⟨new, hgrown⟩ := grown_exec cfg h.toListed henabled hlink hgives
    exact prefix_of_grown h.toListed hphase hgrown h.front fun i hi => (hwaits i hi).mem_withIdent

/-! ## When a request is made -/

theorem chan_foldl_modify {f : Chan → Chan} (hf : ∀ ch, f (f ch) = f ch) (l : List ℕ) (j : ℕ) :
    (l.foldl (fun c i => c.modify i f) c).chan j = if j ∈ l then f (c.chan j) else c.chan j := by
  induction l generalizing c with
  | nil => rfl
  | cons i l ih =>
    rw [foldl_cons, ih]
    by_cases hji : j = i
    · subst hji
      rw [chan_modify, hf, if_pos mem_cons_self, ite_self]
    · rw [chan_modify_of_ne hji]
      simp [hji]

theorem channels_foldl_modify (f : Chan → Chan) (l : List ℕ) :
    (l.foldl (fun c i => c.modify i f) c).channels = c.channels := by
  induction l generalizing c with
  | nil => rfl
  | cons i l ih => exact ih

theorem withIdent_sendEcredConnReq {counter : UInt8} (hne : request ≠ [])
    (hfree : ∀ j ∈ c.channels, j ∉ request → ¬ (c.chan j).Asking (getIdent counter)) :
    (c.sendEcredConnReq (some counter) request).1.withIdent (getIdent counter) .ecredConn =
      c.channels.filter fun j => decide (j ∈ request) := by
  have hsent : Sent (c.setRequest (getIdent counter) .ecredConn request)
      (c.sendEcredConnReq (some counter) request).1 := by
    cases request with
    | nil => exact absurd rfl hne
    | cons i l => exact sent_sendSig _ _
  have hchan (j : ℕ) : (c.setRequest (getIdent counter) .ecredConn request).chan j =
      if j ∈ request then
        { c.chan j with ident := getIdent counter, pendingReq := some .ecredConn }
      else c.chan j :=
    chan_foldl_modify
      (f := fun ch => { ch with ident := getIdent counter, pendingReq := some .ecredConn })
      (fun _ => rfl) request j
  rw [withIdent_eq, hsent.channels, setRequest, channels_foldl_modify]
  refine filter_congr fun j hj => decide_eq_decide.2 ?_
  have hq := hsent.chan j
  rw [Chan.Asking, hq.ident, hq.pendingReq, hchan]
  by_cases hmem : j ∈ request
  · rw [if_pos hmem]
    exact iff_of_true ⟨rfl, rfl⟩ hmem
  · rw [if_neg hmem]
    exact iff_of_false (hfree j hj hmem) hmem

theorem leEncryptChange_retry (buf : Option UInt8) (hpending : (c.chan i).encryptPending = true)
    (hident : (c.chan i).ident ≠ 0) :
    c.leEncryptChange true buf i =
      (((c.sameIdent i).foldl (fun c j => c.modify j fun ch => { ch with encryptPending := false })
        (c.modify i fun ch => { ch with encryptPending := false })).sendEcredConnReq buf
          (c.sameIdent i)).1 := by
  have hident' (j : ℕ) :
      ((c.modify i fun ch => { ch with encryptPending := false }).chan j).ident =
        (c.chan j).ident := by
    by_cases hji : j = i
    · subst hji
      rw [chan_modify]
    · rw [chan_modify_of_ne hji]
  have hsame : (c.modify i fun ch => { ch with encryptPending := false }).sameIdent i =
      c.sameIdent i := by
    simp only [sameIdent, hident', channels_modify]
  have hne : ((c.modify i fun ch => { ch with encryptPending := false }).chan i).ident ≠ 0 := by
    rwa [hident']
  rw [← hsame]
  unfold leEncryptChange
  dsimp only
  rw [if_pos hpending, if_neg (not_not.2 rfl), if_pos hne]
  rfl

theorem standing_of_asks (hlisted : c.Listed) (henabled : c.enabled e)
    (hasks : Asks cfg c e ident request) (hfree : ∀ j ∈ c.channels, ¬ (c.chan j).Asking ident)
    (hfront : front <+: request) (hwaits : ∀ i ∈ front, (c.exec cfg e).Waits ident i) :
    Standing ident front (c.exec cfg e) := by
  refine ⟨listed_exec hlisted henabled, hwaits, ?_⟩
  by_cases hempty : front = []
  · rw [hempty]
    exact nil_prefix
  have hne : request ≠ [] := by
    rintro rfl
    exact hempty (prefix_nil.1 hfront)
  cases hasks with
  | @connect chans psm counter hchans hinit =>
    obtain ⟨hphase, hnodup, hunattached⟩ := henabled
    have hunattached' : ∀ i ∈ chans.take ecredMaxPerReq, (c.chan i).attached = false :=
      fun i hi => hunattached i (mem_of_mem_take hi)
    obtain ⟨new, hgrown, hdone⟩ := (hlisted.grown (getIdent counter)).ecredInitAll cfg psm
      (chans.take ecredMaxPerReq) hphase hunattached' (fun _ _ => not_mem_nil)
      (hnodup.sublist (take_sublist _ _))
    obtain ⟨-, -, hlist⟩ := hdone hinit
    have hexec : c.exec cfg (.ecredConnect chans psm (some counter)) =
        ((c.ecredInitAll cfg psm (chans.take ecredMaxPerReq)).1.sendEcredConnReq (some counter)
          (chans.take ecredMaxPerReq)).1 := by
      simp only [exec, ecredChanConnect, if_pos hinit]
    have hattached : ∀ j ∈ c.channels, (c.chan j).attached = true :=
      fun j hj => (hlisted.attached j hj).2 hphase
    rw [hexec, withIdent_sendEcredConnReq hne]
    · rw [hlist, filter_append, filter_eq_nil_iff.2, nil_append,
        filter_eq_self.2 fun j hj => decide_eq_true hj]
      · exact hfront
      · intro j hj hmem
        have hfalse := hunattached' j (of_decide_eq_true hmem)
        rw [hattached j hj] at hfalse
        cases hfalse
    · intro j hj hnot hask
      have hmem : j ∈ c.channels := by
        rw [hlist] at hj
        exact (mem_append.1 hj).resolve_right hnot
      exact hfree j hmem (hgrown.asking j hj (hattached j hmem) hask)
  | @retry secLevel i bufs counter before behind turn hlist hturn hpending hident hbuf hother =>
    have hphase : c.phase ≠ .disconnected := henabled
    have hnodup : (before ++ i :: behind).Nodup := hlist ▸ hlisted.nodup
    have hnotBefore : ∀ j ∈ before, j ≠ i := by
      rintro j hj rfl
      exact disjoint_of_nodup_append hnodup hj mem_cons_self
    have hnotBehind : ∀ j ∈ behind, j ≠ i := by
      rintro j hj rfl
      exact (nodup_cons.1 hnodup.of_append_right).1 hj
    have hlevel : Grown (getIdent counter) [] c { c with secLevel := secLevel } :=
      (hlisted.grown _).of_tame rfl rfl fun _ => .refl _
    -- the turns before this one
    have hbefore : Grown (getIdent counter) [] c turn := by
      rw [hturn]
      exact hlevel.foldl fun c j hj h =>
        h.leEncryptChange true j fun counter' hc => hother j counter' (hnotBefore j hj) hc
    have hexec : c.exec cfg (.securityChanged secLevel true bufs) =
        behind.foldl (fun c i => c.leEncryptChange true (bufs i) i)
          (turn.leEncryptChange true (bufs i) i) := by
      simp only [exec, securityChanged, hlist, foldl_append, foldl_cons, hturn]
    have hturn' := leEncryptChange_retry (bufs i) hpending hident
    rw [hbuf] at hturn'
    rw [hexec]
    generalize hafter : turn.leEncryptChange true (bufs i) i = after at hexec ⊢
    rw [hbuf] at hafter
    -- the turn itself: its channels are those of the list with the identifier of channel `i`
    have hcleared : Grown (getIdent counter) [] c
        ((turn.sameIdent i).foldl (fun c j => c.modify j fun ch => { ch with encryptPending := false })
          (turn.modify i fun ch => { ch with encryptPending := false })) :=
      (hbefore.modify (.of_request rfl rfl rfl)).foldl fun _ _ _ h =>
        h.modify (.of_request rfl rfl rfl)
    have hwaiting : after.withIdent (getIdent counter) .ecredConn = turn.sameIdent i := by
      rw [← hafter, hturn', withIdent_sendEcredConnReq hne, channels_foldl_modify, channels_modify]
      · refine filter_congr fun j hj => decide_eq_decide.2 ?_
        simp [sameIdent, hj]
      · intro j hj hnot hask
        have hmem : j ∈ c.channels := hcleared.sublist.subset hj
        exact hfree j hmem (hcleared.asking j hj ((hlisted.attached j hmem).2 hphase) hask)
    have hafter' : Grown 0 [] c after := by
      rw [← hafter, hturn]
      refine Grown.leEncryptChange (Grown.foldl (fun c j _ h => ?_) ?_) true i
        fun _ _ => getIdent_ne_zero _
      · exact h.leEncryptChange true j fun _ _ => getIdent_ne_zero _
      · exact (hlisted.grown 0).of_tame rfl rfl fun _ => .refl _
    -- the turns behind it
    have hbehind : Grown (getIdent counter) [] after
        (behind.foldl (fun c i => c.leEncryptChange true (bufs i) i) after) :=
      (hafter'.toListed.grown _).foldl fun c j hj h =>
        h.leEncryptChange true j fun counter' hc => hother j counter' (hnotBehind j hj) hc
    refine prefix_of_grown hafter'.toListed (fun hc => hphase (hafter'.phase.1 hc)) hbehind
      (hwaiting ▸ hfront) fun i hi => ?_
    rw [← hexec]
    exact (hwaits i hi).mem_withIdent

/-! ## The response -/

/-- **What a response does to the channels of its request.** A request is
made in a state of a run, on channels in the order of their CIDs in it,
under an identifier that no channel waits under; the channels at its front
wait until the response comes. Then the loop over the channels ends, what
becomes of each is read off the response at the place of its CID, and the
channels that do not wait are left alone but for one whose DCID is assigned
again. -/
theorem ecredConnRsp_answers {before behind : List Event}
    (hbefore : Along (exec cfg) enabled {} before)
    (henabled : (run (exec cfg) {} before).enabled e)
    (hasks : Asks cfg (run (exec cfg) {} before) e ident request)
    (hfree : ∀ j ∈ (run (exec cfg) {} before).channels,
      ¬ ((run (exec cfg) {} before).chan j).Asking ident)
    (hfront : front <+: request)
    (hwaits : ∀ i ∈ front, ((run (exec cfg) {} before).exec cfg e).Waits ident i)
    (hbehind : Along (exec cfg) (Keeps cfg ident front) ((run (exec cfg) {} before).exec cfg e)
      behind) (env : SigEnv) (buf : Bytes) :
    let c := run (exec cfg) {} (before ++ e :: behind)
    let pending := c.withIdent ident .ecredConn
    ∃ c', (∀ n, pending.length < n → c.ecredConnRsp env ident buf n = some c') ∧
      (∀ k i, front[k]? = some i → pending[k]? = some i ∧ Fate env buf pending c c' k i) ∧
      ∀ j ∉ pending, Beside (ecredRsp buf).dcids c c' j := by
  intro c pending
  have hfirst : Standing ident front ((run (exec cfg) {} before).exec cfg e) :=
    standing_of_asks (listed_run listed_init hbefore) henabled hasks hfree hfront hwaits
  have hc : c = run (exec cfg) ((run (exec cfg) {} before).exec cfg e) behind := by
    rw [show c = run (exec cfg) {} (before ++ e :: behind) from rfl, run_append, run_cons]
  have hstanding : Standing ident front c := by
    rw [hc]
    exact inv_run (Standing ident front) (fun _ _ => Standing.exec) hfirst hbehind
  refine ⟨c.leEcredConnRsp env ident buf, fun n hn => ecredConnRsp_eq env buf hstanding.nodup hn,
    fun k i hi => ?_, fun j hj => beside_leEcredConnRsp hj⟩
  obtain ⟨t, ht⟩ := hstanding.front
  have hpending : pending = front ++ t := ht.symm
  have hk : k < front.length := (List.getElem?_eq_some_iff.1 hi).1
  have hplace : pending[k]? = some i := by rw [hpending, List.getElem?_append_left hk, hi]
  refine ⟨hplace, fate_leEcredConnRsp env buf hstanding.nodup hplace fun j hj => ?_⟩
  change j ∈ pending.take (k + 1) at hj
  rw [hpending, List.take_append_of_le_length hk] at hj
  exact hstanding.waits j (List.mem_of_mem_take hj)

/-- Receive buffers of 64 bytes. -/
def ecredCfg : Cfg := ⟨64, 10, by omega, by omega, by omega⟩

/-- The link is up, and two channels are asked for under the identifier 7. -/
def askedFor : List Event := [.linkUp 1 [(0, sigCid)], .ecredConnect [1, 2] 0x80 (some 6)]

/-- A response with a result and two DCIDs. -/
def ecredRspPdu (result d₁ d₂ : ℕ) : Bytes :=
  le16 64 ++ le16 64 ++ le16 1 ++ le16 result ++ le16 d₁ ++ le16 d₂

/-- Two channels, and a PDU is sent before the response comes. -/
theorem ecredConnRsp_answers_two :
    let c := run (exec ecredCfg) {} (askedFor ++ [.pull 40])
    let pending := c.withIdent 7 .ecredConn
    ∃ c', (∀ n, pending.length < n →
        c.ecredConnRsp {} 7 (ecredRspPdu success 0x50 0x51) n = some c') ∧
      (∀ k i, ([1, 2] : List ℕ)[k]? = some i → pending[k]? = some i ∧
        Fate {} (ecredRspPdu success 0x50 0x51) pending c c' k i) ∧
      ∀ j ∉ pending, Beside (ecredRsp (ecredRspPdu success 0x50 0x51)).dcids c c' j := by
  have hbefore : Along (exec ecredCfg) enabled {} [.linkUp 1 [(0, sigCid)]] := by decide
  have hasks : Asks ecredCfg (run (exec ecredCfg) {} [.linkUp 1 [(0, sigCid)]])
      (.ecredConnect [1, 2] 0x80 (some 6)) 7 [1, 2] := .connect (by decide) (by decide)
  have hwaits : ∀ i ∈ [1, 2], (run (exec ecredCfg) {} askedFor).Waits 7 i :=
    List.forall_mem_cons.2 ⟨⟨by decide, by decide, by decide, by decide⟩,
      List.forall_mem_cons.2 ⟨⟨by decide, by decide, by decide, by decide⟩, nofun⟩⟩
  have hpull : ∀ i ∈ [1, 2], (run (exec ecredCfg) {} (askedFor ++ [.pull 40])).Waits 7 i :=
    List.forall_mem_cons.2 ⟨⟨by decide, by decide, by decide, by decide⟩,
      List.forall_mem_cons.2 ⟨⟨by decide, by decide, by decide, by decide⟩, nofun⟩⟩
  have hbehind : Along (exec ecredCfg) (Keeps ecredCfg 7 [1, 2])
      (run (exec ecredCfg) {} askedFor) [.pull 40] := ⟨⟨by decide, id, hpull⟩, trivial⟩
  exact ecredConnRsp_answers hbefore (by decide) hasks (by decide) (List.prefix_refl _) hwaits
    hbehind {} _

/-- Every channel that waits is connected with the DCID at its place, or
removed and deleted. -/
def AllSettled (ident : UInt8) (dcids : List ℕ) (c c' : LeConn) : Prop :=
  ∀ k i : ℕ, (c.withIdent ident .ecredConn)[k]? = some i →
    (∃ d, dcids[k]? = some d ∧ i ∈ c'.channels ∧ (c'.chan i).state = .connected ∧
      (c'.chan i).tx.cid = d) ∨ i ∉ c'.channels ∧ c'.chan i = (c.chan i).del

/-- The channels that do not wait are as they were. -/
def OthersKept (ident : UInt8) (c c' : LeConn) : Prop :=
  ∀ j ∉ c.withIdent ident .ecredConn, c'.chan j = c.chan j

/-- **Neither is so of every response.** A DCID that no channel may have
takes the link down with both channels still waiting; a DCID that a channel
has already closes that channel. -/
theorem not_allSettled :
    (let c := run (exec ecredCfg) {} askedFor
      let rsp := ecredRspPdu success 0x10 0x51
      ¬ AllSettled 7 (ecredRsp rsp).dcids c (c.leEcredConnRsp {} 7 rsp)) ∧
    let c := run (exec ecredCfg) {} (askedFor ++
      [.recv (le16 16 ++ le16 sigCid ++ sigPdu .ecredConnRsp 7 (ecredRspPdu success 0x50 0x51)) {},
        .ecredConnect [3, 4] 0x80 (some 7)])
    ¬ OthersKept 8 c (c.leEcredConnRsp { disc := fun _ => some 8 } 8
      (ecredRspPdu success 0x50 0x60)) := by
  constructor
  · intro c rsp h
    rcases h 0 1 (by decide) with ⟨d, -, -, hstate, -⟩ | ⟨hmem, -⟩
    · exact absurd hstate (by decide)
    · exact hmem (by decide)
  · intro c h
    have hstate := congrArg Chan.state (h 1 (by decide))
    exact absurd hstate (by decide)

end LeConn

end L2cap

end OpenBlue

import OpenBlue.L2cap.Conn
import OpenBlue.L2cap.Reassembly
/-!
# L2CAP — the list of channels

What the handlers of a connection do to its list of channels. No channel
is on it twice, and its channels are attached while the connection is there
(`Listed`). Channels leave the list, and channels that were not attached
are appended behind those that are left; no channel that was attached comes
to wait under an identifier that it is not given (`Grown`).
-/

namespace OpenBlue

namespace L2cap

open List

/-! ## Channels -/

/-- A channel is attached if it was, and waits under an identifier only if
it did. -/
structure Tame (ident : UInt8) (ch ch' : Chan) : Prop where
  attached : ch'.attached = ch.attached
  asking (h : ch'.Asking ident) : ch.Asking ident

variable {ident : UInt8} {ch ch' ch'' : Chan}

namespace Tame

theorem refl (ch : Chan) : Tame ident ch ch := ⟨rfl, id⟩

theorem trans (h : Tame ident ch ch') (h' : Tame ident ch' ch'') : Tame ident ch ch'' :=
  ⟨h'.attached.trans h.attached, h.asking ∘ h'.asking⟩

theorem of_request (hattached : ch'.attached = ch.attached) (hident : ch'.ident = ch.ident)
    (hreq : ch'.pendingReq = ch.pendingReq) : Tame ident ch ch' :=
  ⟨hattached, fun h => ⟨hident ▸ h.1, hreq ▸ h.2⟩⟩

theorem of_other (hattached : ch'.attached = ch.attached) (hreq : ch'.pendingReq ≠ some .ecredConn) :
    Tame ident ch ch' := ⟨hattached, fun h => absurd h.2 hreq⟩

end Tame

theorem Queued.tame (h : Queued ch ch') : Tame ident ch ch' :=
  .of_request h.attached h.ident h.pendingReq

theorem Closing.tame (h : Closing ch ch') : Tame ident ch ch' := by
  obtain ⟨ident', rfl⟩ := h
  exact .of_other rfl nofun

theorem tame_disconnect (buf : Option UInt8) (ch : Chan) :
    Tame ident ch (ch.disconnect buf).chan := by
  rcases disconnect_cases buf ch with h | h
  · rw [h]
    exact .refl ch
  · exact h.tame

theorem recvClosed_tame : RecvClosed (Tame ident) where
  refl := .refl
  trans := .trans
  disconnect := tame_disconnect
  sendCredits b _ _ := by cases b <;> exact .of_request rfl rfl rfl
  sdu _ _ _ := .of_request rfl rfl rfl
  held _ _ := .of_request rfl rfl rfl
  rxCredits _ _ := .of_request rfl rfl rfl

theorem tame_recvQueue (env : RecvEnv) (buf : Bytes) (ch : Chan) :
    Tame ident ch (ch.recvQueue env buf).chan := by
  unfold Chan.recvQueue
  split
  · exact .refl ch
  · split
    · exact .refl ch
    · split
      · exact recvClosed_tame.leRecv env buf ch
      · exact .of_request rfl rfl rfl

theorem tame_rxProcess (env : RecvEnv) (ch : Chan) : Tame ident ch (ch.rxProcess env).chan := by
  unfold Chan.rxProcess
  split
  · exact .refl ch
  · rename_i buf rest _
    have hq : Tame ident ch { ch with rxQueue := rest } := .of_request rfl rfl rfl
    exact hq.trans (recvClosed_tame.leRecv env buf _)

theorem tame_takeCredit (ch : Chan) : Tame ident ch ch.takeCredit := by
  unfold Chan.takeCredit
  split
  · exact .of_request rfl rfl rfl
  · exact .refl ch

theorem tame_startPdu (ch : Chan) : Tame ident ch ch.startPdu := by
  unfold Chan.startPdu
  split
  · exact .refl ch
  · split
    · refine Tame.trans ?_ (tame_takeCredit _)
      exact .of_request rfl rfl rfl
    · exact .refl ch

theorem tame_pullFrag (amount : ℕ) (ch : Chan) : Tame ident ch (ch.pullFrag amount).1 := by
  unfold Chan.pullFrag
  split
  · exact .refl ch
  · exact .of_request rfl rfl rfl

theorem tame_dynSend {cfg : Cfg} {buf : SendBuf} (h : ch.dynSend cfg buf = some ch') :
    Tame ident ch ch' := by
  unfold Chan.dynSend at h
  split at h
  · cases h
  · split at h
    · cases h
    · split at h
      · cases h
      · cases h
        exact .of_request rfl rfl rfl

namespace LeConn

/-! ## The list -/

/-- No channel is on the list twice, and its channels are attached as long
as the connection is there. -/
structure Listed (c : LeConn) : Prop where
  nodup : c.channels.Nodup
  attached : ∀ i ∈ c.channels, (c.chan i).attached = true ↔ c.phase ≠ .disconnected

/-- What has happened since `c₀`, within an event: the channels of `new`,
which were not attached, were appended to what is left of the list. -/
structure Grown (ident : UInt8) (new : List ℕ) (c₀ c : LeConn) : Prop extends Listed c where
  phase : c.phase = .disconnected ↔ c₀.phase = .disconnected
  split : ∃ kept added, c.channels = kept ++ added ∧ kept.Sublist c₀.channels ∧
    ∀ i ∈ added, i ∈ new
  fresh : ∀ i ∈ new, (c₀.chan i).attached = false
  old : ∀ i, (c.chan i).attached = true → (c₀.chan i).attached = true ∨ i ∈ new
  asking : ∀ i ∈ c.channels, (c₀.chan i).attached = true → (c.chan i).Asking ident →
    (c₀.chan i).Asking ident

variable {c₀ c c' : LeConn} {new l : List ℕ} {i j : ℕ}

theorem Listed.grown (ident : UInt8) (h : c.Listed) : Grown ident [] c c where
  toListed := h
  phase := Iff.rfl
  split := ⟨c.channels, [], (append_nil _).symm, .refl _, fun _ hi => nomatch hi⟩
  fresh _ hi := nomatch hi
  old _ := .inl
  asking _ _ _ := id

namespace Grown

theorem sublist (h : Grown ident [] c₀ c) : c.channels.Sublist c₀.channels := by
  obtain ⟨kept, added, hc, hsub, hadded⟩ := h.split
  rw [hc, eq_nil_iff_forall_not_mem.2 fun i hi => not_mem_nil (hadded i hi), append_nil]
  exact hsub

theorem of_chan (h : Grown ident new c₀ c) (hchannels : c'.channels = c.channels)
    (hphase : c'.phase = .disconnected ↔ c.phase = .disconnected)
    (hattached : ∀ j, (c'.chan j).attached = (c.chan j).attached)
    (hasking : ∀ j ∈ c.channels, j ∉ new → (c'.chan j).Asking ident → (c.chan j).Asking ident) :
    Grown ident new c₀ c' where
  nodup := hchannels ▸ h.nodup
  attached j hj := by
    rw [hattached, Ne, hphase]
    exact h.attached j (hchannels ▸ hj)
  phase := hphase.trans h.phase
  split := hchannels ▸ h.split
  fresh := h.fresh
  old j hj := h.old j (hattached j ▸ hj)
  asking j hj hold hask := by
    refine h.asking j (hchannels ▸ hj) hold (hasking j (hchannels ▸ hj) (fun hnew => ?_) hask)
    rw [h.fresh j hnew] at hold
    cases hold

theorem of_tame (h : Grown ident new c₀ c) (hchannels : c'.channels = c.channels)
    (hphase : c'.phase = c.phase) (hchan : ∀ j, Tame ident (c.chan j) (c'.chan j)) :
    Grown ident new c₀ c' :=
  h.of_chan hchannels (by rw [hphase]) (fun j => (hchan j).attached)
    fun j _ _ => (hchan j).asking

theorem setChan (h : Grown ident new c₀ c) (hch : Tame ident (c.chan i) ch) :
    Grown ident new c₀ (c.setChan i ch) := by
  refine h.of_tame rfl rfl fun j => ?_
  by_cases hj : j = i
  · subst hj
    rwa [chan_setChan]
  · rw [chan_setChan_of_ne hj]
    exact .refl _

theorem modify {f : Chan → Chan} (h : Grown ident new c₀ c)
    (hf : Tame ident (c.chan i) (f (c.chan i))) : Grown ident new c₀ (c.modify i f) := h.setChan hf

theorem modify_new {f : Chan → Chan} (h : Grown ident new c₀ c) (hi : i ∈ new)
    (hf : (f (c.chan i)).attached = (c.chan i).attached) : Grown ident new c₀ (c.modify i f) := by
  refine h.of_chan rfl Iff.rfl (fun j => ?_) fun j _ hj hask => ?_
  · by_cases hj : j = i
    · subst hj
      rw [chan_modify, hf]
    · rw [chan_modify_of_ne hj]
  · rwa [chan_modify_of_ne fun (hji : j = i) => hj (hji ▸ hi)] at hask

theorem raiseReady (h : Grown ident new c₀ c) : Grown ident new c₀ (c.raiseReady i) :=
  h.of_tame channels_raiseReady phase_raiseReady fun j => by
    rw [chan_raiseReady]
    exact .refl _

theorem sent (h : Grown ident new c₀ c) (hsent : Sent c c') : Grown ident new c₀ c' :=
  h.of_tame hsent.channels hsent.phase fun j => (hsent.chan j).tame

theorem sendSig (h : Grown ident new c₀ c) (pdu : Bytes) :
    Grown ident new c₀ (c.sendSig pdu).1 := h.sent (sent_sendSig pdu c)

theorem absorb {o : Outcome} (h : Grown ident new c₀ c) (counter : UInt8)
    (ho : Tame ident (c.chan i) o.chan) : Grown ident new c₀ (c.absorb counter i o) :=
  (h.setChan ho).sent (sent_absorb counter i o c)

theorem chanDisconnect (h : Grown ident new c₀ c) (buf : Option UInt8) (i : ℕ) :
    Grown ident new c₀ (c.chanDisconnect buf i) := h.absorb 0 (tame_disconnect buf _)

theorem giveCredits (h : Grown ident new c₀ c) (n i : ℕ) : Grown ident new c₀ (c.giveCredits n i) :=
  h.of_tame channels_giveCredits phase_giveCredits fun j => by
    rw [chan_giveCredits]
    exact chan_modify_rel .refl (.of_request rfl rfl rfl) j

theorem disconnectLink (h : Grown ident new c₀ c) (env : SigEnv) :
    Grown ident new c₀ (c.disconnectLink env) := by
  unfold LeConn.disconnectLink
  split
  · rename_i hc
    exact h.of_chan rfl (iff_of_false nofun (by rw [hc.2]; nofun)) (fun _ => rfl)
      fun _ _ _ => id
  · exact h

theorem chanRemove (h : Grown ident new c₀ c) (i : ℕ) : Grown ident new c₀ (c.chanRemove i) where
  nodup := h.nodup.erase i
  attached j hj := h.attached j (mem_of_mem_erase hj)
  phase := h.phase
  split := by
    obtain ⟨kept, added, hc, hsub, hadded⟩ := h.split
    by_cases hi : i ∈ kept
    · exact ⟨kept.erase i, added, by
        rw [LeConn.chanRemove, hc, erase_append_left _ hi],
        erase_sublist.trans hsub, hadded⟩
    · exact ⟨kept, added.erase i, by rw [LeConn.chanRemove, hc, erase_append_right _ hi],
        hsub, fun j hj => hadded j (mem_of_mem_erase hj)⟩
  fresh := h.fresh
  old := h.old
  asking j hj := h.asking j (mem_of_mem_erase hj)

theorem chanDel (h : Grown ident new c₀ c) (hi : i ∉ c.channels) :
    Grown ident new c₀ (c.chanDel i) := by
  have hchan : ∀ j ∈ c.channels, (c.chanDel i).chan j = c.chan j := by
    intro j hj
    rw [chan_chanDel, chan_modify_of_ne fun (hji : j = i) => hi (hji ▸ hj)]
  refine ⟨⟨?_, fun j hj => ?_⟩, ?_, ?_, h.fresh, fun j hj => h.old j ?_, fun j hj => ?_⟩
  · rw [channels_chanDel]
    exact h.nodup
  · rw [channels_chanDel] at hj
    rw [hchan j hj, phase_chanDel]
    exact h.attached j hj
  · rw [phase_chanDel]
    exact h.phase
  · rw [channels_chanDel]
    exact h.split
  · rw [chan_chanDel] at hj
    by_cases hji : j = i
    · subst hji
      rw [chan_modify, attached_del] at hj
      cases hj
    · rwa [chan_modify_of_ne hji] at hj
  · rw [channels_chanDel] at hj
    rw [hchan j hj]
    exact h.asking j hj

theorem drop (h : Grown ident new c₀ c) (i : ℕ) : Grown ident new c₀ (c.drop i) :=
  (h.chanRemove i).chanDel h.nodup.not_mem_erase

theorem foldl {α : Type*} {f : LeConn → α → LeConn} {as : List α}
    (hf : ∀ c, ∀ a ∈ as, Grown ident new c₀ c → Grown ident new c₀ (f c a))
    (h : Grown ident new c₀ c) : Grown ident new c₀ (as.foldl f c) := by
  induction as generalizing c with
  | nil => exact h
  | cons a as ih =>
    exact ih (fun c a' ha' => hf c a' (mem_cons_of_mem _ ha')) (hf c a mem_cons_self h)

theorem dropAll (h : Grown ident new c₀ c) (chans : List ℕ) :
    Grown ident new c₀ (c.dropAll chans) := h.foldl fun _ i _ h => h.drop i

/-- **A channel that was not attached is appended.** -/
theorem chanAdd {destroy : Bool} (h : Grown ident new c₀ c)
    (hphase : c₀.phase ≠ .disconnected) (hi : (c₀.chan i).attached = false) (hnew : i ∉ new)
    (hadd : c.chanAdd destroy i = some c') : Grown ident (i :: new) c₀ c' := by
  obtain ⟨cid, -, rfl⟩ := Option.map_eq_some_iff.1 hadd
  have hphase' : c.phase ≠ .disconnected := fun hc => hphase (h.phase.1 hc)
  have hunattached : (c.chan i).attached = false := by
    by_contra hc
    rcases h.old i (by simpa using hc) with hold | hmem
    · rw [hi] at hold
      cases hold
    · exact hnew hmem
  have hnot : i ∉ c.channels := by
    intro hmem
    rw [(h.attached i hmem).2 hphase'] at hunattached
    cases hunattached
  refine ⟨⟨?_, fun j hj => ?_⟩, h.phase, ?_, ?_, fun j hj => ?_, fun j hj hold hask => ?_⟩
  · exact h.nodup.append (nodup_singleton i) (by simpa using hnot)
  · by_cases hji : j = i
    · subst hji
      exact iff_of_true (by rw [chan_modify]; rfl) hphase'
    · have hmem : j ∈ c.channels := by simpa [hji] using hj
      rw [chan_modify_of_ne hji]
      exact h.attached j hmem
  · obtain ⟨kept, added, hc, hsub, hadded⟩ := h.split
    refine ⟨kept, added ++ [i], by simp [hc], hsub, fun j hj => ?_⟩
    rcases mem_append.1 hj with hj | hj
    · exact mem_cons_of_mem _ (hadded j hj)
    · exact mem_singleton.1 hj ▸ mem_cons_self
  · exact forall_mem_cons.2 ⟨hi, h.fresh⟩
  · by_cases hji : j = i
    · exact .inr (hji ▸ mem_cons_self)
    · rw [chan_modify_of_ne hji] at hj
      exact (h.old j hj).imp_right (mem_cons_of_mem _)
  · have hji : j ≠ i := by
      rintro rfl
      rw [hi] at hold
      cases hold
    have hmem : j ∈ c.channels := by simpa [hji] using hj
    rw [chan_modify_of_ne hji] at hask
    exact h.asking j hmem hold hask

/-! ### Requests of this side -/

theorem sendConnReq (h : Grown ident new c₀ c) (buf : Option UInt8) (i : ℕ) :
    Grown ident new c₀ (c.sendConnReq buf i).1 := by
  unfold LeConn.sendConnReq
  split
  · exact h
  · refine sendSig (h.modify ?_) _
    exact .of_other rfl nofun

theorem setRequest {ident' : UInt8} {op : ReqOp} {chans : List ℕ} (h : Grown ident new c₀ c)
    (hop : ∀ i ∈ chans, i ∈ new ∨ op ≠ .ecredConn ∨ ident' ≠ ident) :
    Grown ident new c₀ (c.setRequest ident' op chans) := by
  refine h.foldl fun c i hi h => ?_
  rcases hop i hi with hnew | hop | hident
  · exact h.modify_new hnew rfl
  · exact h.modify (.of_other rfl fun hreq => hop (Option.some.inj hreq))
  · exact h.modify ⟨rfl, fun hask => absurd hask.1 hident⟩

theorem sendEcredConnReq {buf : Option UInt8} {chans : List ℕ} (h : Grown ident new c₀ c)
    (hchans : ∀ i ∈ chans, i ∈ new ∨ ∀ counter, buf = some counter → getIdent counter ≠ ident) :
    Grown ident new c₀ (c.sendEcredConnReq buf chans).1 := by
  unfold LeConn.sendEcredConnReq
  split
  · exact h
  · exact h
  · exact (h.setRequest fun i hi => (hchans i hi).imp_right fun h => .inr (h _ rfl)).sendSig _

theorem leEncryptChange {buf : Option UInt8} (h : Grown ident new c₀ c) (ok : Bool) (i : ℕ)
    (hbuf : ∀ counter, buf = some counter → getIdent counter ≠ ident) :
    Grown ident new c₀ (c.leEncryptChange ok buf i) := by
  have hclear {c : LeConn} (j : ℕ) (h : Grown ident new c₀ c) :
      Grown ident new c₀ (c.modify j fun ch => { ch with encryptPending := false }) :=
    h.modify (.of_request rfl rfl rfl)
  unfold LeConn.leEncryptChange
  dsimp only
  split
  · have h := hclear i h
    split
    · exact h.drop i
    · split
      · exact (h.foldl fun _ j _ h => hclear j h).sendEcredConnReq fun _ _ => .inr hbuf
      · split
        · exact h.sendConnReq buf i
        · exact (h.sendConnReq buf i).drop i
  · exact h

theorem changeSecurity (h : Grown ident new c₀ c) (err : ℕ) (secure : Bool) (i : ℕ) :
    Grown ident new c₀ (c.changeSecurity err secure i).1 := by
  unfold LeConn.changeSecurity
  split
  · exact h
  · split
    · exact h
    · split
      · dsimp only
        exact h.modify (.of_request rfl rfl rfl)
      · exact h

theorem sendReconf (h : Grown ident new c₀ c) (buf : Option UInt8) (mtu mps : ℕ)
    (chans : List ℕ) : Grown ident new c₀ (c.sendReconf buf mtu mps chans).1 := by
  unfold LeConn.sendReconf
  split
  · exact h
  · split
    · exact h
    · refine sendSig (foldl (fun _ _ _ h => h.modify ?_) (h.setRequest ?_)) _
      · exact .of_request rfl rfl rfl
      · exact fun _ _ => .inr (.inl nofun)

/-! ### Signalling PDUs of the peer -/

theorem chanAccept {answer : Except AcceptErr ℕ} (h : Grown ident new c₀ c) (cfg : Cfg)
    (server psm scid mtu mps credits : ℕ) (hphase : c₀.phase ≠ .disconnected)
    (hanswer : ∀ i, answer = .ok i → (c₀.chan i).attached = false ∧ i ∉ new) :
    Grown ident new c₀ (c.chanAccept cfg answer server psm scid mtu mps credits).1 ∨
    ∃ i, answer = .ok i ∧
      Grown ident (i :: new) c₀ (c.chanAccept cfg answer server psm scid mtu mps credits).1 := by
  unfold LeConn.chanAccept
  split
  · exact .inl h
  · split
    · exact .inl h
    · cases answer with
      | error err => exact .inl h
      | ok i =>
        obtain ⟨hi, hnew⟩ := hanswer i rfl
        have h := h.modify (i := i) (f := fun ch => { ch with requiredSec := server })
          (.of_request rfl rfl rfl)
        dsimp only
        split
        · exact .inl h
        · rename_i c' hadd
          exact .inr ⟨i, rfl, (h.chanAdd hphase hi hnew hadd).modify (.of_request rfl rfl rfl)⟩

theorem leConnReq {env : SigEnv} (h : Grown ident [] c₀ c) (cfg : Cfg) (ident' : UInt8)
    (buf : Bytes) (hphase : c₀.phase ≠ .disconnected)
    (haccept : ∀ k i, env.acceptAt k = .ok i → (c₀.chan i).attached = false) :
    ∃ new, Grown ident new c₀ (c.leConnReq cfg env ident' buf) := by
  unfold LeConn.leConnReq
  split
  · exact ⟨[], h⟩
  · split
    · exact ⟨[], h⟩
    · dsimp only
      refine Exists.imp (fun new (h : Grown ident new c₀ _) => h.sendSig _) ?_
      split
      · exact ⟨[], h⟩
      · split
        · exact ⟨[], h⟩
        · rename_i server _
          split
          · exact ⟨[], h⟩
          · obtain h | ⟨i, -, h⟩ := h.chanAccept cfg server (getLe16 buf)
              (getLe16 (buf.drop 2)) (getLe16 (buf.drop 4)) (getLe16 (buf.drop 6))
              (getLe16 (buf.drop 8)) hphase
              fun i hi => ⟨haccept 0 i hi, not_mem_nil⟩
            · exact ⟨_, h⟩
            · exact ⟨_, h⟩

theorem leConnRsp (h : Grown ident new c₀ c) (env : SigEnv) (ident' : UInt8) (buf : Bytes) :
    Grown ident new c₀ (c.leConnRsp env ident' buf) := by
  have hclear {c : LeConn} (i : ℕ) (h : Grown ident new c₀ c) :
      Grown ident new c₀ (c.clearRequest i) := h.modify (.of_other rfl nofun)
  unfold LeConn.leConnRsp
  split
  · exact h
  · dsimp only
    split
    · exact h
    · rename_i i _
      split
      · split
        · exact (hclear i h).disconnectLink env
        · exact ((hclear i h).modify (.of_request rfl rfl rfl)).giveCredits _ i
      · split
        · split
          · exact (hclear i h).changeSecurity _ _ i
          · exact ((hclear i h).changeSecurity _ _ i).drop i
        · exact (hclear i (h.chanRemove i)).chanDel h.nodup.not_mem_erase

theorem openChan (h : Grown ident new c₀ c) (i dcid mtu mps credits : ℕ) :
    Grown ident new c₀ (c.openChan i dcid mtu mps credits) :=
  (h.modify (.of_request rfl rfl rfl)).giveCredits _ i

theorem ecredSecurity (h : Grown ident new c₀ c) (env : SigEnv) (result : ℕ) (chans : List ℕ) :
    Grown ident new c₀ (c.ecredSecurity env result chans) := by
  induction chans generalizing c with
  | nil => exact h
  | cons i chans ih =>
    rw [LeConn.ecredSecurity]
    split
    · exact h.changeSecurity _ _ i
    · exact ih ((h.changeSecurity _ _ i).drop i)

theorem ecredOpen (h : Grown ident new c₀ c) (env : SigEnv) (ident' : UInt8)
    (mtu mps credits : ℕ) (chans : List ℕ) (buf : Bytes) :
    Grown ident new c₀ (c.ecredOpen env ident' mtu mps credits chans buf) := by
  induction chans generalizing c buf with
  | nil => exact h
  | cons i chans ih =>
    rw [LeConn.ecredOpen]
    dsimp only
    split
    · exact ih h buf
    · split
      · exact ih (h.drop i) buf
      · split
        · exact ih (h.drop i) _
        · split
          · exact h.disconnectLink env
          · split
            · exact ih ((h.drop i).chanDisconnect _ _) _
            · have h : Grown ident new c₀ (c.clearRequest i) := h.modify (.of_other rfl nofun)
              exact ih (h.openChan i _ mtu mps credits) _

theorem leEcredConnRsp (h : Grown ident new c₀ c) (env : SigEnv) (ident' : UInt8) (buf : Bytes) :
    Grown ident new c₀ (c.leEcredConnRsp env ident' buf) := by
  unfold LeConn.leEcredConnRsp
  split
  · exact h
  · dsimp only
    split
    · exact h.ecredSecurity env _ _
    · split
      · exact h.ecredOpen env ident' _ _ _ _ _
      · exact h.dropAll _

theorem sendReject (h : Grown ident new c₀ c) (env : SigEnv) (ident' : UInt8) (reason : ℕ)
    (data : Bytes) : Grown ident new c₀ (c.sendReject env ident' reason data) := by
  unfold LeConn.sendReject
  split
  · exact h.sendSig _
  · exact h

theorem leDisconnReq (h : Grown ident new c₀ c) (env : SigEnv) (ident' : UInt8) (buf : Bytes) :
    Grown ident new c₀ (c.leDisconnReq env ident' buf) := by
  unfold LeConn.leDisconnReq
  split
  · exact h
  · split
    · exact h.sendReject env ident' _ _
    · split
      · exact h.chanRemove _
      · exact (h.drop _).sendSig _

theorem leDisconnRsp (h : Grown ident new c₀ c) (ident' : UInt8) (buf : Bytes) :
    Grown ident new c₀ (c.leDisconnRsp ident' buf) := by
  unfold LeConn.leDisconnRsp
  split
  · exact h
  · split
    · exact h
    · split
      · exact h
      · split
        · exact h
        · exact h.drop _

theorem leCredits (h : Grown ident new c₀ c) (env : SigEnv) (buf : Bytes) :
    Grown ident new c₀ (c.leCredits env buf) := by
  unfold LeConn.leCredits
  dsimp only
  split
  · exact h
  · split
    · exact h
    · split
      · exact h
      · split
        · exact h
        · split
          · exact h.chanDisconnect _ _
          · exact h.giveCredits _ _

theorem leEcredReconfReq (h : Grown ident new c₀ c) (env : SigEnv) (ident' : UInt8)
    (buf : Bytes) : Grown ident new c₀ (c.leEcredReconfReq env ident' buf) := by
  have hreconf (mtu mps : ℕ) (rest : Bytes) :
      Grown ident new c₀ (c.reconfigured mtu mps rest).1 := by
    unfold reconfigured
    split
    · exact h
    · split
      · exact h
      · split
        · exact h
        · split
          · exact h
          · split
            · exact h
            · exact h.foldl fun _ _ _ h => h.modify (.of_request rfl rfl rfl)
  unfold LeConn.leEcredReconfReq
  split
  · exact h
  · dsimp only
    split
    · exact (hreconf _ _ _).sendSig _
    · exact hreconf _ _ _

theorem leEcredReconfRsp (h : Grown ident new c₀ c) (ident' : UInt8) (buf : Bytes) :
    Grown ident new c₀ (c.leEcredReconfRsp ident' buf) := by
  unfold LeConn.leEcredReconfRsp
  split
  · exact h
  · exact h.foldl fun _ _ _ h => h.modify (.of_other rfl nofun)

theorem leConnParamUpdateReq (h : Grown ident new c₀ c) (env : SigEnv) (ident' : UInt8)
    (buf : Bytes) : Grown ident new c₀ (c.leConnParamUpdateReq env ident' buf) := by
  unfold LeConn.leConnParamUpdateReq
  split
  · exact h
  · split
    · exact h
    · split
      · exact h.sendReject env ident' _ _
      · split
        · exact h.sendSig _
        · exact h

/-- The loop over the CIDs of a request: each channel that `accept` has
returned so far was returned for one of the CIDs. -/
theorem acceptingNext {cfg : Cfg} {env : SigEnv} {a : Accepting} {scid : ℕ}
    (server psm mtu mps credits : ℕ) (hphase : c₀.phase ≠ .disconnected)
    (hoffer : ∀ k i, env.acceptAt k = .ok i → (c₀.chan i).attached = false)
    (hinj : ∀ k k' i, env.acceptAt k = .ok i → env.acceptAt k' = .ok i → k = k')
    (h : ∃ new, Grown ident new c₀ a.conn ∧ ∀ i ∈ new, ∃ k < a.dcids.length, env.acceptAt k = .ok i) :
    let a' := a.next cfg env server psm mtu mps credits scid
    ∃ new, Grown ident new c₀ a'.conn ∧
      ∀ i ∈ new, ∃ k < a'.dcids.length, env.acceptAt k = .ok i := by
  obtain ⟨new, h, hnew⟩ := h
  have hanswer : ∀ i, env.acceptAt a.dcids.length = .ok i →
      (c₀.chan i).attached = false ∧ i ∉ new := by
    refine fun i hi => ⟨hoffer _ i hi, fun hmem => ?_⟩
    obtain ⟨k, hk, hki⟩ := hnew i hmem
    exact absurd (hinj _ _ i hki hi) (Nat.ne_of_lt hk)
  have hlen : (a.next cfg env server psm mtu mps credits scid).dcids.length =
      a.dcids.length + 1 := by
    unfold Accepting.next
    split <;> simp
  have hconn : (a.next cfg env server psm mtu mps credits scid).conn =
      (a.conn.chanAccept cfg (env.acceptAt a.dcids.length) server psm scid mtu mps credits).1 := by
    unfold Accepting.next
    split <;> simp [*]
  dsimp only
  rw [hlen, hconn]
  obtain h | ⟨i, hi, h⟩ := h.chanAccept cfg server psm scid mtu mps credits hphase hanswer
  · refine ⟨new, h, fun j hj => ?_⟩
    obtain ⟨k, hk, hkj⟩ := hnew j hj
    exact ⟨k, by omega, hkj⟩
  · refine ⟨i :: new, h, forall_mem_cons.2 ⟨⟨_, Nat.lt_succ_self _, hi⟩, fun j hj => ?_⟩⟩
    obtain ⟨k, hk, hkj⟩ := hnew j hj
    exact ⟨k, by omega, hkj⟩

theorem leEcredConnReq {env : SigEnv} (h : Grown ident [] c₀ c) (cfg : Cfg) (ident' : UInt8)
    (buf : Bytes) (hphase : c₀.phase ≠ .disconnected)
    (hoffer : ∀ k i, env.acceptAt k = .ok i → (c₀.chan i).attached = false)
    (hinj : ∀ k k' i, env.acceptAt k = .ok i → env.acceptAt k' = .ok i → k = k') :
    ∃ new, Grown ident new c₀ (c.leEcredConnReq cfg env ident' buf) := by
  have hfold (server psm mtu mps credits : ℕ) (cids : List ℕ) (a : Accepting)
      (ha : ∃ new, Grown ident new c₀ a.conn ∧
        ∀ i ∈ new, ∃ k < a.dcids.length, env.acceptAt k = .ok i) :
      ∃ new, Grown ident new c₀
        (cids.foldl (Accepting.next cfg env server psm mtu mps credits) a).conn := by
    induction cids generalizing a with
    | nil => exact ha.imp fun _ h => h.1
    | cons scid cids ih =>
      exact ih _ (acceptingNext server psm mtu mps credits hphase hoffer hinj ha)
  have hreq (a : Accepting) (ha : ∃ new, Grown ident new c₀ a.conn) (pdu : Bytes) :
      ∃ new, Grown ident new c₀ (if ¬ env.rspBuf then a.conn else (a.conn.sendSig pdu).1) := by
    obtain ⟨new, ha⟩ := ha
    split
    · exact ⟨new, ha⟩
    · exact ⟨new, ha.sendSig _⟩
  unfold LeConn.leEcredConnReq
  refine hreq _ ?_ _
  split
  · exact ⟨[], h⟩
  · split
    · exact ⟨[], h⟩
    · dsimp only
      split
      · exact ⟨[], h⟩
      · exact hfold _ _ _ _ _ _ _ ⟨[], h, fun _ hi => nomatch hi⟩

theorem rejectCmd (h : Grown ident new c₀ c) (ident' : UInt8) :
    Grown ident new c₀ (c.rejectCmd ident') := h.dropAll _

theorem sigHandle {env : SigEnv} (h : Grown ident [] c₀ c) (cfg : Cfg) (ident' : UInt8)
    (data : Bytes) (code : Option SigCode) (hphase : c₀.phase ≠ .disconnected)
    (hoffer : ∀ k i, env.acceptAt k = .ok i → (c₀.chan i).attached = false)
    (hinj : ∀ k k' i, env.acceptAt k = .ok i → env.acceptAt k' = .ok i → k = k') :
    ∃ new, Grown ident new c₀ (c.sigHandle cfg env ident' data code) := by
  cases code with
  | none => exact ⟨[], h.sendReject env ident' _ _⟩
  | some code =>
    cases code with
    | connParamRsp => exact ⟨[], h⟩
    | leConnReq => exact h.leConnReq cfg ident' data hphase hoffer
    | leConnRsp => exact ⟨[], h.leConnRsp env ident' data⟩
    | disconnReq => exact ⟨[], h.leDisconnReq env ident' data⟩
    | disconnRsp => exact ⟨[], h.leDisconnRsp ident' data⟩
    | leCredits => exact ⟨[], h.leCredits env data⟩
    | cmdReject => exact ⟨[], h.rejectCmd ident'⟩
    | ecredConnReq => exact h.leEcredConnReq cfg ident' data hphase hoffer hinj
    | ecredConnRsp => exact ⟨[], h.leEcredConnRsp env ident' data⟩
    | ecredReconfReq => exact ⟨[], h.leEcredReconfReq env ident' data⟩
    | ecredReconfRsp => exact ⟨[], h.leEcredReconfRsp ident' data⟩
    | connParamReq => exact ⟨[], h.leConnParamUpdateReq env ident' data⟩

end Grown

end LeConn

end L2cap

end OpenBlue

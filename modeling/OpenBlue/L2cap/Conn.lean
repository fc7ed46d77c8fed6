import OpenBlue.L2cap.Model.Events
/-!
# L2CAP — what the primitives of a connection change

The list of channels, the channel objects and the phase of a connection
after each of the primitives that the handlers are made of. A signalling
PDU changes the queue of the signalling channel (`Queued`), and a
disconnection the request and the state of the channel it is for
(`Closing`).
-/

namespace OpenBlue

namespace L2cap

/-- A request for an enhanced credit based connection is under way. -/
def Chan.Asking (ident : UInt8) (ch : Chan) : Prop :=
  ch.ident = ident ∧ ch.pendingReq = some .ecredConn

instance (ident : UInt8) (ch : Chan) : Decidable (ch.Asking ident) :=
  inferInstanceAs (Decidable (_ ∧ _))

/-- PDUs were queued on a channel: on the signalling channel only. -/
def Queued (ch ch' : Chan) : Prop :=
  ∃ pdus, ch' = { ch with txQueue := ch.txQueue ++ pdus } ∧ (ch.tx.cid ≠ LeConn.sigCid → pdus = [])

namespace Queued

variable {ch ch' ch'' : Chan}

theorem refl (ch : Chan) : Queued ch ch := ⟨[], by rw [List.append_nil], fun _ => rfl⟩

theorem trans (h : Queued ch ch') (h' : Queued ch' ch'') : Queued ch ch'' := by
  obtain ⟨pdus, rfl, hsig⟩ := h
  obtain ⟨pdus', rfl, hsig'⟩ := h'
  refine ⟨pdus ++ pdus', by simp only [List.append_assoc], fun hcid => ?_⟩
  rw [hsig hcid, hsig' hcid, List.append_nil]

theorem attached (h : Queued ch ch') : ch'.attached = ch.attached := by
  obtain ⟨pdus, rfl, -⟩ := h
  rfl

theorem tx (h : Queued ch ch') : ch'.tx = ch.tx := by
  obtain ⟨pdus, rfl, -⟩ := h
  rfl

theorem ident (h : Queued ch ch') : ch'.ident = ch.ident := by
  obtain ⟨pdus, rfl, -⟩ := h
  rfl

theorem pendingReq (h : Queued ch ch') : ch'.pendingReq = ch.pendingReq := by
  obtain ⟨pdus, rfl, -⟩ := h
  rfl

theorem eq (h : Queued ch ch') (hcid : ch.tx.cid ≠ LeConn.sigCid) : ch' = ch := by
  obtain ⟨pdus, rfl, hsig⟩ := h
  rw [hsig hcid, List.append_nil]

end Queued

/-- A disconnection request of a channel is under way. -/
def Closing (ch ch' : Chan) : Prop :=
  ∃ ident : UInt8, ch' =
    { ch with ident := ident, pendingReq := some .disconn, state := .disconnecting }

namespace Closing

variable {ch ch' ch'' : Chan}

theorem trans (h : Closing ch ch') (h' : Closing ch' ch'') : Closing ch ch'' := by
  obtain ⟨ident, rfl⟩ := h
  obtain ⟨ident', rfl⟩ := h'
  exact ⟨ident', rfl⟩

theorem tx (h : Closing ch ch') : ch'.tx = ch.tx := by
  obtain ⟨ident, rfl⟩ := h
  rfl

end Closing

theorem disconnect_cases (buf : Option UInt8) (ch : Chan) :
    (ch.disconnect buf).chan = ch ∨ Closing ch (ch.disconnect buf).chan := by
  unfold Chan.disconnect
  split
  · exact .inl rfl
  · split
    · exact .inr ⟨_, rfl⟩
    · exact .inl rfl

@[simp] theorem attached_del (ch : Chan) : ch.del.attached = false := by
  unfold Chan.del
  split
  · dsimp only
    split <;> rfl
  · rename_i h
    have hfalse : ch.attached = false := by simpa using h
    dsimp only
    split <;> exact hfalse

@[simp] theorem tx_del (ch : Chan) : ch.del.tx = ch.tx := by
  unfold Chan.del
  split <;> dsimp only <;> split <;> rfl

namespace LeConn

variable {c : LeConn} {i j : ℕ} {ch : Chan}

/-! ## The primitives -/

@[simp] theorem channels_setChan : (c.setChan i ch).channels = c.channels := rfl

@[simp] theorem phase_setChan : (c.setChan i ch).phase = c.phase := rfl

@[simp] theorem chan_setChan : (c.setChan i ch).chan i = ch := Function.update_self ..

theorem chan_setChan_of_ne (h : j ≠ i) : (c.setChan i ch).chan j = c.chan j :=
  Function.update_of_ne h ..

variable {f : Chan → Chan}

@[simp] theorem channels_modify : (c.modify i f).channels = c.channels := rfl

@[simp] theorem phase_modify : (c.modify i f).phase = c.phase := rfl

@[simp] theorem chan_modify : (c.modify i f).chan i = f (c.chan i) := chan_setChan

theorem chan_modify_of_ne (h : j ≠ i) : (c.modify i f).chan j = c.chan j := chan_setChan_of_ne h

theorem chan_modify_rel {R : Chan → Chan → Prop} (hrefl : ∀ ch, R ch ch)
    (hf : R (c.chan i) (f (c.chan i))) (j : ℕ) : R (c.chan j) ((c.modify i f).chan j) := by
  by_cases hj : j = i
  · subst hj
    rwa [chan_modify]
  · rw [chan_modify_of_ne hj]
    exact hrefl _

@[simp] theorem channels_raiseReady : (c.raiseReady i).channels = c.channels := by
  unfold raiseReady
  split <;> rfl

@[simp] theorem chan_raiseReady : (c.raiseReady i).chan = c.chan := by
  unfold raiseReady
  split <;> rfl

@[simp] theorem phase_raiseReady : (c.raiseReady i).phase = c.phase := by
  unfold raiseReady
  split <;> rfl

@[simp] theorem secLevel_raiseReady : (c.raiseReady i).secLevel = c.secLevel := by
  unfold raiseReady
  split <;> rfl

/-! ## Credits, deletion -/

variable {n : ℕ}

@[simp] theorem channels_giveCredits : (c.giveCredits n i).channels = c.channels := by
  unfold giveCredits
  dsimp only
  split <;> simp

@[simp] theorem chan_giveCredits :
    (c.giveCredits n i).chan = (c.modify i (Chan.giveCredits n)).chan := by
  unfold giveCredits
  dsimp only
  split
  · rw [chan_raiseReady]
    rfl
  · rfl

@[simp] theorem phase_giveCredits : (c.giveCredits n i).phase = c.phase := by
  unfold giveCredits
  dsimp only
  split <;> simp

@[simp] theorem channels_chanDel : (c.chanDel i).channels = c.channels := by
  unfold chanDel
  split <;> rfl

@[simp] theorem chan_chanDel : (c.chanDel i).chan = (c.modify i Chan.del).chan := by
  unfold chanDel
  split <;> rfl

@[simp] theorem phase_chanDel : (c.chanDel i).phase = c.phase := by
  unfold chanDel
  split <;> rfl

@[simp] theorem secLevel_chanDel : (c.chanDel i).secLevel = c.secLevel := by
  unfold chanDel
  split <;> rfl

@[simp] theorem channels_drop : (c.drop i).channels = c.channels.erase i := channels_chanDel

@[simp] theorem chan_drop : (c.drop i).chan i = (c.chan i).del := by
  rw [drop, chan_chanDel, chan_modify]
  rfl

theorem chan_drop_of_ne (h : j ≠ i) : (c.drop i).chan j = c.chan j := by
  rw [drop, chan_chanDel, chan_modify_of_ne h]
  rfl

@[simp] theorem phase_drop : (c.drop i).phase = c.phase := phase_chanDel

@[simp] theorem secLevel_drop : (c.drop i).secLevel = c.secLevel := secLevel_chanDel

/-! ## Signalling -/

/-- What a signalling PDU does to a connection. -/
structure Sent (c c' : LeConn) : Prop where
  channels : c'.channels = c.channels
  phase : c'.phase = c.phase
  secLevel : c'.secLevel = c.secLevel
  chan (j : ℕ) : Queued (c.chan j) (c'.chan j)

namespace Sent

variable {c' c'' : LeConn}

theorem refl (c : LeConn) : Sent c c := ⟨rfl, rfl, rfl, fun _ => .refl _⟩

theorem trans (h : Sent c c') (h' : Sent c' c'') : Sent c c'' where
  channels := h'.channels.trans h.channels
  phase := h'.phase.trans h.phase
  secLevel := h'.secLevel.trans h.secLevel
  chan j := (h.chan j).trans (h'.chan j)

end Sent

theorem sent_sendSig (pdu : Bytes) (c : LeConn) : Sent c (c.sendSig pdu).1 := by
  unfold sendSig
  cases hsig : c.lookupTxCid sigCid with
  | none => exact .refl c
  | some i =>
    have hcid : (c.chan i).tx.cid = sigCid := by simpa using List.find?_some hsig
    dsimp only [sendPdu]
    split
    · refine ⟨channels_raiseReady, phase_raiseReady, secLevel_raiseReady, fun j => ?_⟩
      rw [chan_raiseReady]
      exact chan_modify_rel .refl ⟨[pdu], rfl, fun h => absurd hcid h⟩ j
    · exact .refl c

theorem sent_foldl (counter : UInt8) (i : ℕ) (sigs : List ChanSig) (c : LeConn) :
    Sent c (sigs.foldl (fun c sig => (c.sendSig (sig.pdu counter (c.chan i))).1) c) := by
  induction sigs generalizing c with
  | nil => exact .refl c
  | cons sig sigs ih => exact (sent_sendSig _ c).trans (ih _)

theorem sent_absorb (counter : UInt8) (i : ℕ) (o : Outcome) (c : LeConn) :
    Sent (c.setChan i o.chan) (c.absorb counter i o) :=
  (⟨rfl, rfl, rfl, fun _ => .refl _⟩ : Sent (c.setChan i o.chan)
    { c.setChan i o.chan with failed := c.failed ++ o.failed }).trans (sent_foldl _ _ _ _)

theorem chanDisconnect_cases (buf : Option UInt8) (i : ℕ) (c : LeConn) :
    ∃ ch, (ch = c.chan i ∨ Closing (c.chan i) ch) ∧
      Sent (c.setChan i ch) (c.chanDisconnect buf i) :=
  ⟨_, disconnect_cases buf _, sent_absorb 0 i _ c⟩

end LeConn

end L2cap

end OpenBlue

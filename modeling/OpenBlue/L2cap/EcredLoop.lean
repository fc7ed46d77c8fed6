import OpenBlue.L2cap.EcredRsp
/-!
# L2CAP — the loop of `le_ecred_conn_rsp`

The loop as it is written, which looks for the next channel in a list it
has changed, ends, in the state that one turn for each of the channels that
wait leads to: no turn brings a channel to wait, and each takes one.
-/

namespace OpenBlue

namespace L2cap

namespace LeConn

open List

variable {env : SigEnv} {ident : UInt8} {r : EcredRsp} {buf : Bytes} {c c' : LeConn}
variable {i j n : ℕ} {l dcids : List ℕ}

/-! ## The channels that are left -/

theorem Beside.asking (h : Beside dcids c c' j) (hask : (c'.chan j).Asking ident) :
    (c.chan j).Asking ident := by
  rcases h.chan with hq | ⟨-, ident', hclosing⟩
  · exact ⟨hq.ident ▸ hask.1, hq.pendingReq ▸ hask.2⟩
  · rw [hclosing] at hask
    exact nomatch hask.2

theorem withIdent_of_change (hnodup : c.channels.Nodup) (hl : c.withIdent ident .ecredConn = i :: l)
    (hchannels : c'.channels = c.channels.erase i ∨
      c'.channels = c.channels ∧ ¬ (c'.chan i).Asking ident)
    (hask : ∀ j, j ≠ i → (c'.chan j).Asking ident → (c.chan j).Asking ident) :
    c'.withIdent ident .ecredConn = l.filter fun j => decide ((c'.chan j).Asking ident) := by
  have hfilter (c : LeConn) : c.withIdent ident .ecredConn =
      c.channels.filter fun j => decide ((c.chan j).Asking ident) := rfl
  have hnodup' : (i :: l).Nodup := hl ▸ hnodup.filter _
  have htail : l = (c.withIdent ident .ecredConn).filter (· != i) := by
    rw [hl, ← hnodup'.erase_eq_filter, erase_cons_head]
  rw [htail, hfilter c, hfilter c', filter_filter, filter_filter]
  rcases hchannels with herase | ⟨hsame, hnot⟩
  · rw [herase, hnodup.erase_eq_filter, filter_filter]
    refine filter_congr fun j _ => ?_
    by_cases hji : j = i
    · simp [hji]
    · have := hask j hji
      by_cases h : (c'.chan j).Asking ident <;> simp [h, this]
  · rw [hsame]
    refine filter_congr fun j _ => ?_
    by_cases hji : j = i
    · simp [hji, hnot]
    · have := hask j hji
      by_cases h : (c'.chan j).Asking ident <;> simp [h, this, hji]

theorem withIdent_drop (hnodup : c.channels.Nodup)
    (hl : c.withIdent ident .ecredConn = i :: l) : (c.drop i).withIdent ident .ecredConn = l := by
  have hnodup' : (i :: l).Nodup := hl ▸ hnodup.filter _
  have hne : ∀ j ∈ l, j ≠ i := fun j hj h => (nodup_cons.1 hnodup').1 (h ▸ hj)
  rw [withIdent_of_change hnodup hl (.inl channels_drop)
    fun j hj h => by rwa [chan_drop_of_ne hj] at h]
  refine filter_eq_self.2 fun j hj => ?_
  have hmem : j ∈ c.withIdent ident .ecredConn := hl ▸ mem_cons_of_mem _ hj
  rw [chan_drop_of_ne (hne j hj)]
  exact decide_eq_true (mem_withIdent.1 hmem).2

theorem lookupIdent_eq_some (h : c.lookupIdent ident .ecredConn = some i) :
    ∃ l, c.withIdent ident .ecredConn = i :: l := head?_eq_some_iff.1 h

theorem lookupIdent_eq_none : c.lookupIdent ident .ecredConn = none ↔
    c.withIdent ident .ecredConn = [] := head?_eq_none_iff

theorem Turned.withIdent (h : Turned env r c i c') (hnodup : c.channels.Nodup)
    (hl : c.withIdent ident .ecredConn = i :: l) :
    c'.withIdent ident .ecredConn = l.filter fun j => decide ((c'.chan j).Asking ident) := by
  refine withIdent_of_change hnodup hl ?_ fun j hj => (h.beside hj).asking
  cases h with
  | missing | zero => exact .inl channels_drop
  | assigned d j =>
    obtain ⟨ch, -, hsent⟩ := chanDisconnect_cases (env.disc i) j (c.drop i)
    exact .inl (by rw [hsent.channels, channels_setChan, channels_drop])
  | connected d =>
    refine .inr ⟨by simp [openChan, clearRequest], fun h => ?_⟩
    rw [chan_openChan] at h
    cases h.2

theorem ecredOpen_filter {mtu mps credits : ℕ} {P : ℕ → Bool}
    (h : ∀ j ∈ l, (c.chan j).Asking ident → P j = true) :
    c.ecredOpen env ident mtu mps credits (l.filter P) buf =
      c.ecredOpen env ident mtu mps credits l buf := by
  induction l generalizing buf c with
  | nil => rfl
  | cons j l ih =>
    have htail : ∀ j' ∈ l, (c.chan j').Asking ident → P j' = true :=
      fun j' hj' => h j' (mem_cons_of_mem _ hj')
    by_cases hask : (c.chan j).Asking ident
    · have hP := h j mem_cons_self hask
      rw [filter_cons_of_pos hP, ecredOpen_cons _ _ _ hask, ecredOpen_cons _ _ _ hask]
      obtain ⟨buf', c', hon, hturn, -⟩ | ⟨d, -, -, -, hon⟩ :=
        ecredOpenOn_cases (r := ⟨mtu, mps, credits, 0, getCids buf⟩) env c j rfl
      · rw [hon]
        refine ih fun j' hj' hask' => ?_
        by_cases hjj : j' = j
        · rwa [hjj]
        · exact htail j' hj' ((hturn.beside hjj).asking hask')
      · rw [hon]
    · rw [ecredOpen_cons_of_not _ _ _ hask]
      cases hP : P j with
      | true =>
        rw [filter_cons_of_pos hP, ecredOpen_cons_of_not _ _ _ hask]
        exact ih htail
      | false =>
        rw [filter_cons_of_neg (by simp [hP])]
        exact ih htail

/-! ## The loops -/

theorem loop_ecredOpenTurn (mtu mps credits : ℕ) (hnodup : c.channels.Nodup)
    (hn : (c.withIdent ident .ecredConn).length < n) :
    loop (ecredOpenTurn env ident mtu mps credits) n (buf, c) =
      some (c.ecredOpen env ident mtu mps credits (c.withIdent ident .ecredConn) buf) := by
  refine loop_eq_some
    (fun s : Bytes × LeConn =>
      s.2.ecredOpen env ident mtu mps credits (s.2.withIdent ident .ecredConn) s.1)
    (fun s => (s.2.withIdent ident .ecredConn).length) (fun s => s.2.channels.Nodup)
    ?_ ?_ hnodup hn
  · rintro ⟨buf, c⟩ ⟨buf', c'⟩ hnodup hturn
    cases hlook : c.lookupIdent ident .ecredConn with
    | none => simp [ecredOpenTurn, hlook] at hturn
    | some i =>
      obtain ⟨l, hl⟩ := lookupIdent_eq_some hlook
      have hask : (c.chan i).Asking ident :=
        (mem_withIdent.1 (hl ▸ mem_cons_self : i ∈ c.withIdent ident .ecredConn)).2
      have hon : ecredOpenOn env mtu mps credits i (buf, c) = .inl (buf', c') := by
        simpa [ecredOpenTurn, hlook] using hturn
      obtain ⟨buf'', c'', hon', hturned, -⟩ | ⟨d, -, -, -, hon'⟩ :=
        ecredOpenOn_cases (r := ⟨mtu, mps, credits, 0, getCids buf⟩) env c i rfl
      · obtain ⟨rfl, rfl⟩ : buf' = buf'' ∧ c' = c'' := by simpa using hon.symm.trans hon'
        have hleft := hturned.withIdent hnodup hl
        refine ⟨hturned.nodup hnodup, ?_, ?_⟩
        · dsimp only
          rw [hleft, hl, length_cons]
          exact Nat.lt_succ_of_le (length_filter_le _ _)
        · dsimp only
          rw [hleft, hl, ecredOpen_filter fun j _ h => decide_eq_true h, ecredOpen_cons _ _ _ hask,
            hon]
      · exact nomatch hon.symm.trans hon'
  · rintro ⟨buf, c⟩ c' hnodup hturn
    cases hlook : c.lookupIdent ident .ecredConn with
    | none =>
      obtain rfl : c = c' := by simpa [ecredOpenTurn, hlook] using hturn
      dsimp only
      rw [lookupIdent_eq_none.1 hlook, ecredOpen]
    | some i =>
      obtain ⟨l, hl⟩ := lookupIdent_eq_some hlook
      have hask : (c.chan i).Asking ident :=
        (mem_withIdent.1 (hl ▸ mem_cons_self : i ∈ c.withIdent ident .ecredConn)).2
      have hon : ecredOpenOn env mtu mps credits i (buf, c) = .inr c' := by
        simpa [ecredOpenTurn, hlook] using hturn
      dsimp only
      rw [hl, ecredOpen_cons _ _ _ hask, hon]

theorem loop_dropTurn {turn : LeConn → LeConn ⊕ LeConn} {g : LeConn → List ℕ → LeConn}
    (hnone : ∀ c, c.lookupIdent ident .ecredConn = none → turn c = .inr (g c []))
    (hsome : ∀ c i l, c.lookupIdent ident .ecredConn = some i → turn c = .inr (g c (i :: l)) ∨
      turn c = .inl (c.drop i) ∧ g (c.drop i) l = g c (i :: l)) (hnodup : c.channels.Nodup)
    (hn : (c.withIdent ident .ecredConn).length < n) :
    loop turn n c = some (g c (c.withIdent ident .ecredConn)) := by
  refine loop_eq_some (fun c : LeConn => g c (c.withIdent ident .ecredConn))
    (fun c => (c.withIdent ident .ecredConn).length) (fun c => c.channels.Nodup) ?_ ?_ hnodup hn
  · intro c c' hnodup hturn
    cases hlook : c.lookupIdent ident .ecredConn with
    | none => cases (hnone c hlook).symm.trans hturn
    | some i =>
      obtain ⟨l, hl⟩ := lookupIdent_eq_some hlook
      rcases hsome c i l hlook with hlast | ⟨hdrop, hsame⟩
      · cases hlast.symm.trans hturn
      · obtain rfl := Sum.inl.inj (hdrop.symm.trans hturn)
        have hleft := withIdent_drop hnodup hl
        refine ⟨channels_drop ▸ hnodup.erase i, ?_, ?_⟩
        · rw [hleft, hl]
          exact Nat.lt_succ_self _
        · rw [hleft, hl, hsame]
  · intro c c' hnodup hturn
    cases hlook : c.lookupIdent ident .ecredConn with
    | none =>
      rw [lookupIdent_eq_none.1 hlook]
      exact Sum.inr.inj ((hnone c hlook).symm.trans hturn)
    | some i =>
      obtain ⟨l, hl⟩ := lookupIdent_eq_some hlook
      rw [hl]
      rcases hsome c i l hlook with hlast | ⟨hdrop, -⟩
      · exact Sum.inr.inj (hlast.symm.trans hturn)
      · cases hdrop.symm.trans hturn

theorem loop_ecredSecurityTurn (r : EcredRsp) (hnodup : c.channels.Nodup)
    (hn : (c.withIdent ident .ecredConn).length < n) :
    loop (ecredSecurityTurn env ident r.result) n c =
      some (c.ecredSecurity env r.result (c.withIdent ident .ecredConn)) := by
  refine loop_dropTurn (g := fun c l => c.ecredSecurity env r.result l) (fun c hlook => ?_)
    (fun c i l hlook => ?_) hnodup hn
  · simp [ecredSecurityTurn, hlook, ecredSecurity]
  · by_cases hraises : r.Raises env c i
    · have hraised := changeSecurity_of_raises hraises
      exact .inl (by simp [ecredSecurityTurn, hlook, hraised, ecredSecurity])
    · have hnot := changeSecurity_of_not hraises
      exact .inr ⟨by simp [ecredSecurityTurn, hlook, hnot], by simp [hnot, ecredSecurity]⟩

theorem loop_ecredRefuseTurn (hnodup : c.channels.Nodup)
    (hn : (c.withIdent ident .ecredConn).length < n) :
    loop (ecredRefuseTurn ident) n c = some (c.dropAll (c.withIdent ident .ecredConn)) :=
  loop_dropTurn (fun c hlook => by simp [ecredRefuseTurn, hlook])
    (fun c i l hlook => .inr ⟨by simp [ecredRefuseTurn, hlook], rfl⟩) hnodup hn

/-- **The loop ends**: with one more turn than there are channels that
wait, it has handled each of them in its turn. -/
theorem ecredConnRsp_eq (env : SigEnv) (buf : Bytes) (hnodup : c.channels.Nodup)
    (hn : (c.withIdent ident .ecredConn).length < n) :
    c.ecredConnRsp env ident buf n = some (c.leEcredConnRsp env ident buf) := by
  unfold ecredConnRsp leEcredConnRsp
  split
  · rfl
  · dsimp only
    split
    · exact loop_ecredSecurityTurn (ecredRsp buf) hnodup hn
    · split
      · exact loop_ecredOpenTurn _ _ _ hnodup hn
      · exact loop_ecredRefuseTurn hnodup hn

end LeConn

end L2cap

end OpenBlue

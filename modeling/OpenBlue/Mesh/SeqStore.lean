import OpenBlue.Mesh.Model.SeqStore
/-!
# Mesh — the sequence number over a loss of power

Only every so many numbers one is stored, and the number read back is
rounded up to just before the next that would be stored (`seqCeil`). While
no store is scheduled the counter has not got past that number: using one
more number either stays below it or schedules the next store
(`succ_le_seqCeil`). What is stored has 24 bits, so this holds as long as no
store is made of a counter that has outgrown them.
-/

namespace OpenBlue

namespace Mesh

open List

variable {cfg : SeqCfg} {s : SeqNode} {seq v : ℕ}

/-! ## Rounding -/

/-- The number read back where `v` is stored. -/
def seqCeil (cfg : SeqCfg) (v : ℕ) : ℕ := if 0 < cfg.rate then v + (cfg.rate - v % cfg.rate) - 1 else v

theorem le_seqCeil (cfg : SeqCfg) (v : ℕ) : v ≤ seqCeil cfg v := by
  unfold seqCeil
  split
  next hrate =>
    have hmod : v % cfg.rate < cfg.rate := Nat.mod_lt v hrate
    omega
  · exact Nat.le_refl v

theorem seqSet_leBytes (hv : v < 2 ^ 24) :
    (seqSet cfg (some (leBytes 3 v))).toNat = seqCeil cfg v := by
  have hrate := cfg.rate_le
  have hread : (UInt32.ofNat v).toNat = v := by
    rw [UInt32.toNat_ofNat']
    omega
  unfold seqSet seqCeil
  dsimp only
  rw [leNat_leBytes (by omega)]
  split
  next hpos =>
    have hmod : v % cfg.rate < cfg.rate := Nat.mod_lt v hpos
    have hone : (1 : UInt32).toNat = 1 := rfl
    rw [UInt32.toNat_sub, UInt32.toNat_add, hread, UInt32.toNat_ofNat', hone]
    omega
  · exact hread

/-- **The next store** is due when the counter would get past the number
that is read back. -/
theorem succ_le_seqCeil (hrate : 1 < cfg.rate) (hdue : (seq + 1) % cfg.rate ≠ 0)
    (hle : seq ≤ seqCeil cfg v) : seq + 1 ≤ seqCeil cfg v := by
  unfold seqCeil at hle ⊢
  rw [if_pos (by omega)] at hle ⊢
  have hmod : v % cfg.rate < cfg.rate := Nat.mod_lt v (by omega)
  have hne : seq + 1 ≠ v + (cfg.rate - v % cfg.rate) := by
    intro heq
    have hdiv : v + (cfg.rate - v % cfg.rate) = cfg.rate * (v / cfg.rate + 1) := by
      have := Nat.div_add_mod v cfg.rate
      rw [Nat.mul_add, Nat.mul_one]
      omega
    rw [heq, hdiv, Nat.mul_mod_right] at hdue
    exact hdue rfl
  omega

/-! ## What a step keeps -/

theorem netIvUpdate_provisioned {net : Net} {ncfg : NetCfg} {tx flag : Bool} {iv : UInt32} :
    (netIvUpdate ncfg tx iv flag net).1.provisioned = net.provisioned := by
  unfold netIvUpdate
  split <;> rfl

theorem netStep_provisioned (ncfg : NetCfg) (net : Net) (e : NetEvent) :
    (netStep ncfg net e).provisioned = net.provisioned := by
  cases e with
  | transmit =>
    show (nextSeq ncfg net).1.provisioned = _
    unfold nextSeq
    dsimp only
    split
    · exact netIvUpdate_provisioned
    · rfl
  | ivUpdate iv flag tx => exact netIvUpdate_provisioned
  | ivuRefresh tx =>
    show (ivuRefresh ncfg tx net).provisioned = _
    unfold ivuRefresh
    split
    · rfl
    dsimp only
    split
    · rfl
    split
    · exact netIvUpdate_provisioned
    · rfl
  | segTxReset tx =>
    show (releasePending ncfg tx net).provisioned = _
    unfold releasePending
    split
    · exact netIvUpdate_provisioned
    · rfl
  | ivUpdateTest enable => rfl
  | primary present => rfl

theorem storesIv_of_resetsSeq {a : IvuAction} (h : a.ResetsSeq) : a.storesIv = true := by
  rcases h with rfl | rfl <;> rfl

/-- The store is of the whole counter, and the counter does not wrap. -/
def SeqOk (s : SeqNode) : SeqEvent → Prop
  | .net e => NoSeqWrap s.net e
  | .commit => s.seqPending = true → s.net.seq.toNat < 2 ^ 24

/-- What holds of the node and the numbers used so far. -/
structure SeqInv (cfg : SeqCfg) (s : SeqNode) (log : List (UInt32 × UInt32)) : Prop where
  indexed : s.net.Indexed
  provisioned : s.net.provisioned = true
  /-- The clock of the transmissions has passed every number used. -/
  consumed : ∀ p ∈ log, toLex (p.1.toNat, p.2.toNat) < s.net.clock
  /-- Where nothing is pending the counter has not passed what is read back. -/
  covered : s.seqPending = false →
    ∃ v, v < 2 ^ 24 ∧ s.stored = some (leBytes 3 v) ∧ s.net.seq.toNat ≤ seqCeil cfg v

theorem SeqStart.inv (h : SeqStart cfg s) : SeqInv cfg s [] := by
  cases h with
  | provisioned crpl ivUpdate ivIndex primary stored hidx =>
    exact ⟨hidx, rfl, fun p hp => absurd hp not_mem_nil, fun hp => nomatch hp⟩
  | restored net val hidx hvalid hval hseq =>
    refine ⟨hidx, hvalid, fun p hp => absurd hp not_mem_nil, fun _ => ?_⟩
    have hlt : leNat val < 2 ^ 24 := by
      have := leNat_lt val
      rw [hval] at this
      exact this
    have hbytes : leBytes 3 (leNat val) = val := hval ▸ leBytes_leNat val
    refine ⟨leNat val, hlt, congrArg some hbytes.symm, ?_⟩
    show net.seq.toNat ≤ _
    rw [hseq, ← seqSet_leBytes hlt, hbytes]

/-- **A step of the network layer** schedules a store, or leaves the counter
covered by the one made. -/
theorem covered_netStep {net : Net} {e : NetEvent} (hwrap : NoSeqWrap net e)
    (hquiet : schedulesSeq cfg net e = false) (hle : net.seq.toNat ≤ seqCeil cfg v) :
    (netStep cfg.net net e).seq.toNat ≤ seqCeil cfg v := by
  rw [schedulesSeq, Bool.or_eq_false_iff] at hquiet
  obtain ⟨hseq, hiv⟩ := hquiet
  have hkeep : ¬ (netAction cfg.net net e).ResetsSeq := fun hreset =>
    absurd ((storesIv_of_resetsSeq hreset).symm.trans hiv) (by decide)
  rw [(netStep_keeps hkeep).2, seqAfter_toNat hwrap]
  split
  next htx =>
    subst htx
    have hnext := seqAfter_toNat hwrap
    simp only [Net.seqAfter, if_true] at hnext
    simp only [netSeqStore, decide_true, Bool.true_and, Bool.not_false, Bool.not_eq_false',
      Bool.and_eq_true, decide_eq_true_eq, hnext] at hseq
    exact succ_le_seqCeil hseq.1 hseq.2 hle
  · exact hle

theorem seqInv_step (cfg : SeqCfg) (s : SeqNode) (e : SeqEvent) (log : List (UInt32 × UInt32))
    (h : SeqInv cfg s log) (hok : SeqOk s e) :
    SeqInv cfg (seqStep cfg s e) (log ++ seqConsumed cfg s e) := by
  cases e with
  | net e =>
    have hwrap : NoSeqWrap s.net e := hok
    have hclock : s.net.clock ≤ (netStep cfg.net s.net e).clock := clock_le_netStep h.indexed hwrap
    refine ⟨h.indexed.netStep, (netStep_provisioned cfg.net s.net e).trans h.provisioned,
      fun p hp => ?_, fun hpend => ?_⟩
    · rcases mem_append.1 hp with hp | hp
      · exact lt_of_lt_of_le (h.consumed p hp) hclock
      · cases e with
        | transmit =>
          obtain rfl := mem_singleton.1 hp
          obtain ⟨hstamp, hlt⟩ := transmit_clock cfg.net hwrap
          exact hstamp ▸ hlt
        | _ => exact absurd hp not_mem_nil
    · obtain ⟨hpend', hquiet⟩ := Bool.or_eq_false_iff.1 hpend
      obtain ⟨v, hv, hstored, hle⟩ := h.covered hpend'
      exact ⟨v, hv, hstored, covered_netStep hwrap hquiet hle⟩
  | commit =>
    rw [seqConsumed, append_nil, seqStep]
    split
    next hpend =>
      rw [SeqNode.pendingSeqStore, if_pos (show s.net.provisioned = true from h.provisioned)]
      exact ⟨h.indexed, h.provisioned, h.consumed,
        fun _ => ⟨s.net.seq.toNat, hok hpend, rfl, le_seqCeil cfg _⟩⟩
    · exact h

/-! ## Runs -/

/-- **Sequence numbers survive a loss of power.** After every run in which
no store is made of a counter that has outgrown 24 bits, and the counter
does not wrap, if no store is pending then the number the node would start
with next is above every number used under the transmit IV index. -/
theorem consumed_lt_seqSet (cfg : SeqCfg) {s : SeqNode} (hs : SeqStart cfg s) (es : List SeqEvent)
    (hrun : Along (seqStep cfg) SeqOk s es)
    (hpend : (run (seqStep cfg) s es).seqPending = false) :
    ∀ p ∈ emitted (seqStep cfg) (seqConsumed cfg) s es,
      p.1 = (run (seqStep cfg) s es).net.iviTx →
      p.2.toNat < (seqSet cfg (run (seqStep cfg) s es).stored).toNat := by
  have hinv := log_run (seqConsumed cfg) (SeqInv cfg) (seqInv_step cfg) hs.inv hrun
  rw [List.nil_append] at hinv
  obtain ⟨v, hv, hstored, hle⟩ := hinv.covered hpend
  rintro p hp hiv
  rw [hstored, seqSet_leBytes hv]
  rcases Prod.Lex.toLex_lt_toLex.1 (hinv.consumed p hp) with hlt | ⟨-, hlt⟩
  · exact absurd hlt (by rw [hiv]; exact lt_irrefl _)
  · exact lt_of_lt_of_le hlt hle

/-- The options a node is built with by default. -/
def defaultSeqCfg : SeqCfg := ⟨{}, 128, by decide⟩

/-- A node on a secondary subnet, at its start with this record. -/
def restoredNode (val : List UInt8) : SeqNode :=
  ⟨{ seq := seqSet defaultSeqCfg (some val), primary := false, rpl := rplInit 2 }, false, some val⟩

theorem restoredNode_start {val : List UInt8} (h : val.length = 3) :
    SeqStart defaultSeqCfg (restoredNode val) :=
  .restored _ val (fun hprogress => nomatch hprogress) rfl h rfl

theorem consumed_lt_seqSet_restored :
    (127 : UInt32).toNat <
      (seqSet defaultSeqCfg (run (seqStep defaultSeqCfg) (restoredNode [0, 0, 0])
        [.net .transmit, .commit]).stored).toNat :=
  consumed_lt_seqSet defaultSeqCfg (restoredNode_start rfl) [.net .transmit, .commit]
    ⟨by change _ → _; decide, by change _ → _; decide, trivial⟩ (by decide) (0, 127) (by decide)
    (by decide)

/-- **The counter outgrows the record.** The number 2²⁴ - 1 is used, the
store that is due is made of the counter 2²⁴, and power is lost: the node
starts again at 127. -/
theorem seqSet_outgrown :
    ∃ es, (run (seqStep defaultSeqCfg) (restoredNode [0x80, 0xff, 0xff]) es).seqPending = false ∧
      ∃ p ∈ emitted (seqStep defaultSeqCfg) (seqConsumed defaultSeqCfg)
          (restoredNode [0x80, 0xff, 0xff]) es,
        p.1 = (run (seqStep defaultSeqCfg) (restoredNode [0x80, 0xff, 0xff]) es).net.iviTx ∧
        ¬ p.2.toNat < (seqSet defaultSeqCfg
          (run (seqStep defaultSeqCfg) (restoredNode [0x80, 0xff, 0xff]) es).stored).toNat :=
  ⟨[.net .transmit, .commit], by decide, (0, 0xffffff), by decide, by decide, by decide⟩

end Mesh

end OpenBlue

import OpenBlue.Common.Run
import OpenBlue.Mesh.Model.Net
/-!
# Mesh — the IV index and the sequence number never turn back

Every transmission is nonced with the transmit IV index and a sequence
number. The pair is a clock: a step either leaves the transmit index and
moves the sequence number on (`netStep_keeps`), or sets the sequence
number back and moves the index on (`iviTx_lt_netStep`). The nonces of a
run are distinct by the stamp rule.
-/

namespace OpenBlue

namespace Mesh

open UInt32

variable {cfg : NetCfg} {net : Net} {iv : UInt32} {flag tx : Bool}

/-! ## What each outcome of an update says -/

theorem toNat_le_of_ivuAction (h : ivuAction cfg tx iv flag net ≠ .ignore) :
    net.ivIndex.toNat ≤ iv.toNat ∧ (net.ivIndex + 1).toNat = net.ivIndex.toNat + 1 := by
  unfold ivuAction at h
  split at h
  · exact absurd rfl h
  · rename_i hrange
    have := net.ivIndex.toNat_lt
    have := iv.toNat_lt
    simp only [not_or, lt_iff_toNat_lt, gt_iff_lt, UInt32.toNat_add, reduceToNat, not_lt] at hrange
    simp only [UInt32.toNat_add, reduceToNat]
    omega

theorem of_ivuAction_start (h : ivuAction cfg tx iv flag net = .start) :
    iv = net.ivIndex + 1 ∧ net.ivuInProgress = false ∧ flag = true := by
  have hle := toNat_le_of_ivuAction (by rw [h]; decide)
  unfold ivuAction at h
  split_ifs at h with h1 h2 h3 h4 h5 h6 h7 h8
  simp only [lt_iff_toNat_lt, UInt32.ext_iff, gt_iff_lt, hle.2] at *
  grind

theorem of_ivuAction_normal (h : ivuAction cfg tx iv flag net = .normal) :
    iv = net.ivIndex ∧ net.ivuInProgress = true ∧ flag = false ∧ tx = false := by
  have hle := toNat_le_of_ivuAction (by rw [h]; decide)
  unfold ivuAction at h
  split_ifs at h with h1 h2 h3 h4 h5 h6 h7 h8
  simp only [lt_iff_toNat_lt, UInt32.ext_iff, gt_iff_lt, hle.2] at *
  grind

theorem of_ivuAction_recover (h : ivuAction cfg tx iv flag net = .recover) :
    net.ivIndex.toNat < iv.toNat ∧
      (net.ivuInProgress = false → flag = true → net.ivIndex.toNat + 1 < iv.toNat) := by
  have hle := toNat_le_of_ivuAction (by rw [h]; decide)
  unfold ivuAction at h
  split_ifs at h with h1 h2 h3 h4
  simp only [lt_iff_toNat_lt, UInt32.ext_iff, gt_iff_lt, hle.2] at *
  grind

/-! ## The transmit index under an update -/

/-- The node's IV index is not 0 while an update is in progress. A reset
node is in this state, and so is every node provisioned with data a
network can have: an update in progress has already raised the index. -/
def Net.Indexed (net : Net) : Prop := net.ivuInProgress = true → net.ivIndex ≠ 0

theorem Net.Indexed.iviTx_toNat (h : net.Indexed) :
    net.iviTx.toNat + (if net.ivuInProgress then 1 else 0) = net.ivIndex.toNat := by
  cases hp : net.ivuInProgress with
  | false => simp [Net.iviTx, hp]
  | true =>
    have hne : net.ivIndex.toNat ≠ 0 := by
      intro h0
      exact h hp (UInt32.toNat_inj.1 (by simpa using h0))
    have := net.ivIndex.toNat_lt
    simp only [Net.iviTx, hp, if_true, UInt32.toNat_sub, reduceToNat]
    omega

theorem Net.Indexed.netIvUpdate (h : net.Indexed) : (netIvUpdate cfg tx iv flag net).1.Indexed := by
  unfold Mesh.netIvUpdate
  split
  case h_1 | h_2 => exact h
  case h_3 hact =>
    obtain ⟨hlt, -⟩ := of_ivuAction_recover hact
    rintro - rfl
    exact absurd hlt (by simp)
  case h_4 hact =>
    obtain ⟨rfl, -, -⟩ := of_ivuAction_start hact
    have hnext := (toNat_le_of_ivuAction (by rw [hact]; decide)).2
    rintro - (h0 : net.ivIndex + 1 = 0)
    rw [h0] at hnext
    exact absurd hnext (by simp)
  case h_5 hact =>
    obtain ⟨-, -, rfl, -⟩ := of_ivuAction_normal hact
    exact fun hp => absurd hp (by simp)

theorem netIvUpdate_keeps (h : ¬(ivuAction cfg tx iv flag net).ResetsSeq) :
    (netIvUpdate cfg tx iv flag net).1.iviTx = net.iviTx ∧
      (netIvUpdate cfg tx iv flag net).1.seq = net.seq := by
  unfold netIvUpdate
  split
  case h_1 | h_2 => exact ⟨rfl, rfl⟩
  case h_3 hact | h_5 hact => exact absurd hact (by simp_all [IvuAction.ResetsSeq])
  case h_4 hact =>
    obtain ⟨rfl, hp, rfl⟩ := of_ivuAction_start hact
    simp [Net.iviTx, hp]

theorem netIvUpdate_seq_of_resets (h : (ivuAction cfg tx iv flag net).ResetsSeq) :
    (netIvUpdate cfg tx iv flag net).1.seq = 0 := by
  rcases h with hact | hact <;> simp only [netIvUpdate, hact]

theorem iviTx_lt_netIvUpdate (h : (ivuAction cfg tx iv flag net).ResetsSeq)
    (hw : net.Indexed) : net.iviTx < (netIvUpdate cfg tx iv flag net).1.iviTx := by
  have hold := hw.iviTx_toNat
  have hnew : _ = (netIvUpdate cfg tx iv flag net).1.ivIndex.toNat := hw.netIvUpdate.iviTx_toNat
  rw [lt_iff_toNat_lt]
  rcases h with hact | hact
  · obtain ⟨-, hp, rfl, -⟩ := of_ivuAction_normal hact
    simp only [netIvUpdate, hact, hp, if_true, Bool.false_eq_true, if_false] at hnew hold ⊢
    omega
  · have hfwd := of_ivuAction_recover hact
    simp only [netIvUpdate, hact] at hnew ⊢
    cases hp : net.ivuInProgress <;> cases flag <;> simp_all <;> omega

/-! ## Steps -/

variable {e : NetEvent}

/-- The sequence number after a step that does not set it back. -/
def Net.seqAfter (net : Net) : NetEvent → UInt32
  | .transmit => net.seq + 1
  | _ => net.seq

/-- What a step has done when it calls for an update, or when it ends
without one: it has counted a transmission and touched neither the IV
index nor the replay list. -/
structure Net.Prepared (net : Net) (e : NetEvent) (net₀ : Net) : Prop where
  ivIndex : net₀.ivIndex = net.ivIndex
  ivuInProgress : net₀.ivuInProgress = net.ivuInProgress
  seq : net₀.seq = net.seqAfter e
  rpl : net₀.rpl = net.rpl

theorem Net.Prepared.iviTx {net₀ : Net} (h : net.Prepared e net₀) : net₀.iviTx = net.iviTx := by
  simp only [Net.iviTx, h.ivIndex, h.ivuInProgress]

/-- **The step, inverted.** Either it calls for no update and ends
prepared, or it ends as the update leaves it. -/
theorem netStep_cases (cfg : NetCfg) (net : Net) (e : NetEvent) :
    (netAction cfg net e = .ignore ∧ net.Prepared e (netStep cfg net e)) ∨
    ∃ net₀ tx iv flag, net.Prepared e net₀ ∧ netAction cfg net e = ivuAction cfg tx iv flag net₀ ∧
      netStep cfg net e = (netIvUpdate cfg tx iv flag net₀).1 ∧
      (e = .transmit → flag = true ∧ iv = net₀.ivIndex + 1 ∧ net₀.ivuInProgress = false) := by
  cases e with
  | transmit =>
    simp only [netStep, nextSeq, netAction]
    split
    · rename_i htrig
      refine .inr ⟨{ net with seq := net.seq + 1 }, false, net.ivIndex + 1, true,
        ⟨rfl, rfl, rfl, rfl⟩, rfl, rfl, fun _ => ⟨rfl, rfl, ?_⟩⟩
      simp only [ivuTrigger, Bool.and_eq_true, Bool.not_eq_true'] at htrig
      exact htrig.1.1
    · exact .inl ⟨rfl, rfl, rfl, rfl, rfl⟩
  | ivUpdate iv flag tx => exact .inr ⟨net, tx, iv, flag, ⟨rfl, rfl, rfl, rfl⟩, rfl, rfl, by simp⟩
  | ivuRefresh tx =>
    simp only [netStep, ivuRefresh, netAction]
    by_cases hcall : net.provisioned = true ∧ ivuMinHours ≤ (net.tickHours cfg).ivuDuration ∧
        net.ivuInProgress = true
    · obtain ⟨hv, hd, hp⟩ := hcall
      refine .inr ⟨net.tickHours cfg, tx, net.ivIndex, false, ⟨rfl, rfl, rfl, rfl⟩, ?_, ?_, by simp⟩
      · simp [hv, hd, hp]
      · rw [if_neg (by simp [hv]), if_neg (by omega),
          if_pos (show (net.tickHours cfg).ivuInProgress = true from hp)]
        rfl
    · refine .inl ⟨?_, ?_⟩
      · rw [if_neg (by simpa [and_assoc] using hcall)]
      · split_ifs with h1 h2 h3
        · exact ⟨rfl, rfl, rfl, rfl⟩
        · exact ⟨rfl, rfl, rfl, rfl⟩
        · exact absurd ⟨by simpa using h1, by omega, h3⟩ hcall
        · exact ⟨rfl, rfl, rfl, rfl⟩
  | segTxReset tx =>
    simp only [netStep, releasePending, netAction]
    split
    · exact .inr ⟨{ net with ivuPending := false }, tx, net.ivIndex, false,
        ⟨rfl, rfl, rfl, rfl⟩, rfl, rfl, by simp⟩
    · exact .inl ⟨rfl, rfl, rfl, rfl, rfl⟩
  | ivUpdateTest enable => exact .inl ⟨rfl, rfl, rfl, rfl, rfl⟩
  | primary present => exact .inl ⟨rfl, rfl, rfl, rfl, rfl⟩

theorem Net.Prepared.indexed {net₀ : Net} (h : net.Prepared e net₀) (hw : net.Indexed) :
    net₀.Indexed := by
  intro hp
  rw [h.ivIndex]
  exact hw (h.ivuInProgress ▸ hp)

theorem Net.Indexed.netStep (h : net.Indexed) : (netStep cfg net e).Indexed := by
  obtain ⟨-, hprep⟩ | ⟨net₀, tx, iv, flag, hprep, -, hstep, -⟩ := netStep_cases cfg net e
  · exact hprep.indexed h
  · rw [hstep]
    exact (hprep.indexed h).netIvUpdate

theorem ivIndex_le_netIvUpdate :
    net.ivIndex.toNat ≤ (netIvUpdate cfg tx iv flag net).1.ivIndex.toNat := by
  unfold netIvUpdate
  split
  case h_1 | h_2 | h_5 => exact le_rfl
  case h_3 hact => exact (of_ivuAction_recover hact).1.le
  case h_4 hact => exact (toNat_le_of_ivuAction (by rw [hact]; decide)).1

theorem ivIndex_le_netStep (cfg : NetCfg) (net : Net) (e : NetEvent) :
    net.ivIndex.toNat ≤ (netStep cfg net e).ivIndex.toNat := by
  obtain ⟨-, hprep⟩ | ⟨net₀, tx, iv, flag, hprep, -, hstep, -⟩ := netStep_cases cfg net e
  · rw [hprep.ivIndex]
  · rw [hstep, ← hprep.ivIndex]
    exact ivIndex_le_netIvUpdate

/-- **A step without a reset** leaves the transmit index, and moves the
sequence number on exactly when it transmits. -/
theorem netStep_keeps (h : ¬(netAction cfg net e).ResetsSeq) :
    (netStep cfg net e).iviTx = net.iviTx ∧ (netStep cfg net e).seq = net.seqAfter e := by
  obtain ⟨-, hprep⟩ | ⟨net₀, tx, iv, flag, hprep, hact, hstep, -⟩ := netStep_cases cfg net e
  · exact ⟨hprep.iviTx, hprep.seq⟩
  · rw [hact] at h
    rw [hstep, ← hprep.iviTx, ← hprep.seq]
    exact netIvUpdate_keeps h

theorem not_resetsSeq_transmit (cfg : NetCfg) (net : Net) :
    ¬(netAction cfg net .transmit).ResetsSeq := by
  obtain ⟨hact, -⟩ | ⟨net₀, tx, iv, flag, -, hact, -, hcall⟩ := netStep_cases cfg net .transmit
  · rw [hact]; decide
  · obtain ⟨rfl, rfl, hp⟩ := hcall rfl
    rw [hact]
    rintro (h | h)
    · exact absurd (of_ivuAction_normal h).2.2.1 (by simp)
    · have hnext := (toNat_le_of_ivuAction (by rw [h]; decide)).2
      have hfar := (of_ivuAction_recover h).2 hp rfl
      omega

theorem netStep_seq_of_resets (h : (netAction cfg net e).ResetsSeq) :
    (netStep cfg net e).seq = 0 := by
  obtain ⟨hact, -⟩ | ⟨net₀, tx, iv, flag, -, hact, hstep, -⟩ := netStep_cases cfg net e
  · exact absurd h (by rw [hact]; decide)
  · rw [hact] at h
    rw [hstep]
    exact netIvUpdate_seq_of_resets h

/-- **A step with a reset** raises the transmit index. -/
theorem iviTx_lt_netStep (h : (netAction cfg net e).ResetsSeq) (hw : net.Indexed) :
    net.iviTx < (netStep cfg net e).iviTx := by
  obtain ⟨hact, -⟩ | ⟨net₀, tx, iv, flag, hprep, hact, hstep, -⟩ := netStep_cases cfg net e
  · exact absurd h (by rw [hact]; decide)
  · rw [hact] at h
    rw [hstep, ← hprep.iviTx]
    exact iviTx_lt_netIvUpdate h (hprep.indexed hw)

/-! ## Nonces over a run -/

/-- The counter does not wrap its 32 bits at this step. -/
def NoSeqWrap (net : Net) (e : NetEvent) : Prop :=
  e = .transmit → net.seq.toNat + 1 < 2 ^ 32

/-- The pair a transmission would be nonced with now. -/
def Net.clock (net : Net) : ℕ ×ₗ ℕ := toLex (net.iviTx.toNat, net.seq.toNat)

theorem seqAfter_toNat (h : NoSeqWrap net e) :
    (net.seqAfter e).toNat = net.seq.toNat + (if e = .transmit then 1 else 0) := by
  cases e with
  | transmit =>
    have := h rfl
    simp only [Net.seqAfter, UInt32.toNat_add, reduceToNat, if_true]
    omega
  | _ => simp [Net.seqAfter]

theorem clock_le_netStep (hw : net.Indexed) (h : NoSeqWrap net e) :
    net.clock ≤ (netStep cfg net e).clock := by
  by_cases hreset : (netAction cfg net e).ResetsSeq
  · exact le_of_lt (Prod.Lex.toLex_lt_toLex.2
      (.inl (lt_iff_toNat_lt.1 (iviTx_lt_netStep hreset hw))))
  · obtain ⟨hiv, hseq⟩ := netStep_keeps hreset
    refine Prod.Lex.toLex_le_toLex.2 (.inr ⟨by rw [hiv], ?_⟩)
    show net.seq.toNat ≤ _
    rw [hseq, seqAfter_toNat h]
    omega

theorem nextSeq_snd : (nextSeq cfg net).2 = net.seq := by
  simp only [nextSeq]
  split <;> rfl

theorem transmit_clock (cfg : NetCfg) (h : NoSeqWrap net .transmit) :
    toLex ((nextSeq cfg net).1.iviTx.toNat, (nextSeq cfg net).2.toNat) = net.clock ∧
      net.clock < (netStep cfg net .transmit).clock := by
  obtain ⟨hiv, hseq⟩ := netStep_keeps (not_resetsSeq_transmit cfg net)
  constructor
  · rw [nextSeq_snd, Net.clock]
    exact congrArg (fun iv : UInt32 => toLex (iv.toNat, net.seq.toNat)) hiv
  · refine Prod.Lex.toLex_lt_toLex.2 (.inr ⟨by rw [hiv], ?_⟩)
    show net.seq.toNat < _
    rw [hseq, seqAfter_toNat h]
    simp

/-- **Network nonces are never reused.** Along a run in which the counter
does not wrap its 32 bits, whatever updates, recoveries, ticks and
transfer ends come between, the pairs transmissions are nonced with are
distinct, and the sequence number is set back only where the transmit
index goes up. -/
theorem transmitted_nodup {net : Net} {es : List NetEvent} (hw : net.Indexed)
    (hwrap : Along (netStep cfg) NoSeqWrap net es) :
    (emitted (netStep cfg) (transmitted cfg) net es).Nodup ∧
      Along (netStep cfg) (fun n e => (netAction cfg n e).ResetsSeq →
        n.iviTx < (netStep cfg n e).iviTx ∧ (netStep cfg n e).seq = 0) net es := by
  constructor
  · have hpair : (emitted (netStep cfg) (transmitted cfg) net es).Pairwise fun p q =>
        toLex (p.1.toNat, p.2.toNat) < toLex (q.1.toNat, q.2.toNat) := by
      refine emitted_pairwise Net.Indexed Net.clock
        (fun p : UInt32 × UInt32 => toLex (p.1.toNat, p.2.toNat))
        (fun n e hn _ => hn.netStep) (fun n e hn he => clock_le_netStep hn he)
        (fun n e _ he p hp => ?_) (fun n e _ _ => ?_) hw hwrap
      · cases e with
        | transmit =>
          rw [transmitted, List.mem_singleton] at hp
          obtain ⟨hstamp, hlt⟩ := transmit_clock cfg he
          subst hp
          exact ⟨hstamp.ge, hstamp.trans_lt hlt⟩
        | _ => exact absurd hp (by simp [transmitted])
      · cases e <;> simp [transmitted]
    exact hpair.imp fun h heq => absurd (heq ▸ h) (lt_irrefl _)
  · -- The guard here is the conclusion of `iviTx_lt_netStep`, met at every step.
    clear hwrap
    induction es generalizing net with
    | nil => trivial
    | cons e es ih => exact ⟨fun h => ⟨iviTx_lt_netStep h hw, netStep_seq_of_resets h⟩, ih hw.netStep⟩

/-- A run with a recovery between two transmissions. -/
theorem transmitted_nodup_recovery :
    (emitted (netStep {}) (transmitted {}) (provision 2 false 5 true)
      [.transmit, .ivUpdate 8 true false, .transmit]).Nodup ∧
    emitted (netStep {}) (transmitted {}) (provision 2 false 5 true)
      [.transmit, .ivUpdate 8 true false, .transmit] = [(5, 0), (7, 0)] :=
  ⟨(transmitted_nodup (by unfold Net.Indexed; decide)
    (by refine ⟨?_, ?_, ?_, trivial⟩ <;> unfold NoSeqWrap <;> decide)).1, by decide⟩

/-- **The index below 0.** Provisioned at IV index 0 with the update flag
set, the node transmits under index 2³² - 1, and the return to normal
operation sets the sequence number back while the transmit index falls
to 0. -/
theorem reset_lowers_iviTx_at_zero :
    (netAction {} (provision 2 true 0 true) (.ivuRefresh false)).ResetsSeq ∧
    ¬(provision 2 true 0 true).iviTx <
      (netStep {} (provision 2 true 0 true) (.ivuRefresh false)).iviTx := by
  decide

end Mesh

end OpenBlue

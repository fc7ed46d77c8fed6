import OpenBlue.Mesh.IvIndex
/-!
# Mesh — the sequence numbers of a paced node

The counter of `bt_mesh_next_seq` is not bounded by itself: it is set back
only where an update ends, and `bt_mesh_net_iv_update` refuses updates for
several reasons. Those it refuses for a time (96 hours not over, transfers
that hold up the return) are bounded here by what the node sends between
two firings of the IV Update timer; those it refuses for good (no primary
subnet, an IV index at its end) are excluded where they are met.
-/

namespace OpenBlue

namespace Mesh

open UInt32

variable {cfg : NetCfg} {net : Net} {n : ℕ} {e : NetEvent} {es : List NetEvent}

/-! ## The pace of a node -/

/-- The firings of the IV Update timer by which so many hours are counted. -/
def NetCfg.ticks (cfg : NetCfg) (hours : ℕ) : ℕ := (hours + cfg.ivuHours - 1) / cfg.ivuHours

/-- How much a node sends, and how long its transfers hold up an update. -/
structure Pace where
  /-- The transmissions between two firings of the IV Update timer. -/
  rate : ℕ
  /-- The hours of an update after which no transfer is found in progress. -/
  hold : ℕ

/-- Where the counter is when an update starts at the latest: at the limit,
or at what is sent before the first update is allowed. -/
def Pace.start (p : Pace) (cfg : NetCfg) : ℕ :=
  max cfg.seqLimit.toNat (cfg.ticks ivuMinHours * p.rate)

/-- The pace leaves room in the 24 bits of SEQ for what is sent while an
update is in progress. -/
structure Pace.Fits (p : Pace) (cfg : NetCfg) : Prop where
  hours : 0 < cfg.ivuHours
  hold_ge : ivuMinHours ≤ p.hold
  hold_le : p.hold ≤ 255
  room : p.start cfg + cfg.ticks p.hold * p.rate < 2 ^ 24

/-- The transmissions since the timer last fired. -/
def sentSince (n : ℕ) : NetEvent → ℕ
  | .transmit => n + 1
  | .ivuRefresh _ => 0
  | _ => n

/-- A transmission that the pace allows. -/
def Pace.Allows (p : Pace) (n : ℕ) (e : NetEvent) : Prop := e = .transmit → n < p.rate

/-- The IV index is far enough from its end for the range check of
`bt_mesh_net_iv_update`. -/
def Net.IndexLeft (net : Net) : Prop := net.ivIndex.toNat + 42 < 2 ^ 32

/-- No update is refused for good, and none is held up for longer than the
pace says. -/
def Unhindered (cfg : NetCfg) (p : Pace) (net : Net) : NetEvent → Prop
  -- the limit is passed in normal operation: an update is asked for
  | .transmit => net.ivuInProgress = false → cfg.seqLimit < net.seq + 1 →
      net.primary = true ∧ net.IndexLeft
  -- the return to normal is overdue
  | .ivuRefresh tx => net.ivuInProgress = true → p.hold ≤ (net.tickHours cfg).ivuDuration →
      tx = false ∧ net.IndexLeft
  -- no hours are taken back
  | .ivUpdateTest _ => net.ivuDuration = 0
  | _ => True

instance (p : Pace) (n : ℕ) (e : NetEvent) : Decidable (p.Allows n e) :=
  inferInstanceAs (Decidable (_ → _))

instance (net : Net) : Decidable net.IndexLeft := inferInstanceAs (Decidable (_ < _))

instance (p : Pace) (net : Net) : ∀ e, Decidable (Unhindered cfg p net e)
  | .transmit | .ivuRefresh _ => inferInstanceAs (Decidable (_ → _ → _ ∧ _))
  | .ivUpdateTest _ => inferInstanceAs (Decidable (_ = _))
  | .ivUpdate .. | .segTxReset _ | .primary _ => .isTrue trivial

/-- The counter is within what the pace gives it by now, `n` transmissions
after the timer last fired. -/
structure Within (cfg : NetCfg) (p : Pace) (n : ℕ) (net : Net) : Prop where
  provisioned : net.provisioned = true
  sent : n ≤ p.rate
  /-- In normal operation, before an update is allowed. -/
  waiting : net.ivuInProgress = false → net.ivuDuration < ivuMinHours →
    net.seq.toNat ≤ net.ivuDuration / cfg.ivuHours * p.rate + n
  /-- In normal operation, once it is. -/
  due : net.ivuInProgress = false → ivuMinHours ≤ net.ivuDuration → net.seq.toNat ≤ p.start cfg
  inProgress : net.ivuInProgress = true → net.seq.toNat ≤ p.start cfg + 1 +
    min (net.ivuDuration / cfg.ivuHours) (cfg.ticks p.hold - 1) * p.rate + n

theorem within_provision (p : Pace) (crpl : ℕ) (flag : Bool) (iv : UInt32) (primary : Bool) :
    Within cfg p 0 (provision crpl flag iv primary) where
  provisioned := rfl
  sent := Nat.zero_le _
  waiting _ _ := Nat.zero_le _
  due _ _ := Nat.zero_le _
  inProgress _ := Nat.zero_le _

/-! ## Counting firings -/

theorem div_lt_ticks {hours d : ℕ} (h : 0 < cfg.ivuHours) (hd : d < hours) :
    d / cfg.ivuHours < cfg.ticks hours := by
  unfold NetCfg.ticks
  rw [Nat.lt_iff_add_one_le, Nat.le_div_iff_mul_le h, Nat.add_mul]
  have := Nat.div_mul_le_self d cfg.ivuHours
  omega

theorem sent_before {hours d r : ℕ} (h : 0 < cfg.ivuHours) (hd : d < hours) :
    d / cfg.ivuHours * r + r ≤ cfg.ticks hours * r := by
  rw [← Nat.succ_mul]
  exact Nat.mul_le_mul_right r (div_lt_ticks h hd)

variable {p : Pace}

theorem Within.seq_le_start (hw : Within cfg p n net) (hfits : p.Fits cfg)
    (hp : net.ivuInProgress = false) (hd : net.ivuDuration < ivuMinHours) :
    net.seq.toNat + p.rate ≤ p.start cfg + n := by
  have hseq := hw.waiting hp hd
  have hsent := sent_before (r := p.rate) hfits.hours hd
  have hstart : cfg.ticks ivuMinHours * p.rate ≤ p.start cfg := le_max_right ..
  omega

theorem Within.seq_le (hw : Within cfg p n net) (hfits : p.Fits cfg) :
    net.seq.toNat + p.rate ≤ 2 ^ 24 + n := by
  have hroom := hfits.room
  have hticks : 0 < cfg.ticks p.hold :=
    Nat.zero_lt_of_lt (div_lt_ticks hfits.hours (show 95 < p.hold from hfits.hold_ge))
  have hlast : (cfg.ticks p.hold - 1) * p.rate + p.rate = cfg.ticks p.hold * p.rate := by
    rw [← Nat.succ_mul, Nat.succ_eq_add_one, Nat.sub_add_cancel hticks]
  cases hp : net.ivuInProgress with
  | true =>
    have hseq := hw.inProgress hp
    have := Nat.mul_le_mul_right p.rate
      (Nat.min_le_right (net.ivuDuration / cfg.ivuHours) (cfg.ticks p.hold - 1))
    omega
  | false =>
    by_cases hd : net.ivuDuration < ivuMinHours
    · have hseq := hw.seq_le_start hfits hp hd
      omega
    · have hseq := hw.due hp (by omega)
      omega

/-! ## One step -/

variable {iv : UInt32} {flag tx : Bool}

theorem Net.IndexLeft.toNat_add (hiv : net.IndexLeft) :
    (net.ivIndex + 1).toNat = net.ivIndex.toNat + 1 ∧
      (net.ivIndex + 42).toNat = net.ivIndex.toNat + 42 := by
  unfold Net.IndexLeft at hiv
  rw [UInt32.toNat_add, UInt32.toNat_add, toNat_one, show (42 : UInt32).toNat = 42 from rfl]
  omega

theorem Net.IndexLeft.ne (hiv : net.IndexLeft) : net.ivIndex ≠ net.ivIndex + 1 := fun h => by
  have hnat := congrArg UInt32.toNat h
  rw [hiv.toNat_add.1] at hnat
  omega

theorem ivuAction_of_due (hp : net.ivuInProgress = false) (hd : ivuMinHours ≤ net.ivuDuration)
    (hiv : net.IndexLeft) : ivuAction cfg tx (net.ivIndex + 1) true net = .start := by
  obtain ⟨h1, h42⟩ := hiv.toNat_add
  unfold ivuAction
  simp only [lt_iff_toNat_lt, gt_iff_lt, h1, h42]
  rw [if_neg (by omega), if_neg (by simp [hiv.ne.symm]), if_neg (by simp [hp]),
    if_neg (by simp [hp]), if_neg (by omega)]
  simp

theorem ivuAction_of_overdue (hp : net.ivuInProgress = true)
    (hd : ivuMinHours ≤ net.ivuDuration) (hiv : net.IndexLeft) :
    ivuAction cfg false net.ivIndex false net = .normal := by
  obtain ⟨h1, h42⟩ := hiv.toNat_add
  unfold ivuAction
  simp only [lt_iff_toNat_lt, gt_iff_lt, h1, h42]
  rw [if_neg (by omega), if_neg (by simp), if_neg (by simp [hiv.ne]), if_neg (by simp [hp]),
    if_neg (by omega)]
  simp

/-- **Updates keep the counter within its pace**, whatever comes of them. -/
theorem Within.netIvUpdate (hw : Within cfg p n net) (hfits : p.Fits cfg) :
    Within cfg p n (netIvUpdate cfg tx iv flag net).1 := by
  unfold Mesh.netIvUpdate
  split
  case h_1 | h_2 => exact ⟨hw.provisioned, hw.sent, hw.waiting, hw.due, hw.inProgress⟩
  case h_3 | h_5 => constructor <;> simp [hw.provisioned, hw.sent]
  -- An update starts, at the latest where the pace lets it.
  case h_4 hact =>
    obtain ⟨-, hp, rfl⟩ := of_ivuAction_start hact
    refine ⟨hw.provisioned, hw.sent, by simp, by simp, fun _ => ?_⟩
    show net.seq.toNat ≤ _
    by_cases hd : net.ivuDuration < ivuMinHours
    · have hseq := hw.seq_le_start hfits hp hd
      omega
    · have hseq := hw.due hp (by omega)
      omega

theorem seq_add_one (h : net.seq.toNat < 2 ^ 24) : (net.seq + 1).toNat = net.seq.toNat + 1 := by
  rw [UInt32.toNat_add, toNat_one]
  omega

theorem Within.transmit (hw : Within cfg p n net) (hfits : p.Fits cfg) (hn : n < p.rate)
    (hok : Unhindered cfg p net .transmit) : Within cfg p (n + 1) (nextSeq cfg net).1 := by
  have hle := hw.seq_le hfits
  have hadd : (net.seq + 1).toNat = net.seq.toNat + 1 := seq_add_one (by omega)
  have hlimit : cfg.seqLimit.toNat ≤ p.start cfg := le_max_left ..
  have hnext : net.ivuInProgress = true ∨ net.ivuDuration < ivuMinHours →
      Within cfg p (n + 1) { net with seq := net.seq + 1 } := fun h => by
    refine ⟨hw.provisioned, hn, fun hp hd => ?_, fun hp hd => ?_, fun hp => ?_⟩
    · have := hw.waiting hp hd
      exact hadd ▸ Nat.succ_le_succ this
    · exact absurd h (by simp only [not_or]; exact ⟨by simpa using hp, Nat.not_lt.2 hd⟩)
    · have := hw.inProgress hp
      exact hadd ▸ Nat.succ_le_succ this
  by_cases hlate : net.ivuInProgress = true ∨ net.ivuDuration < ivuMinHours
  · unfold nextSeq
    dsimp only
    split
    · exact (hnext hlate).netIvUpdate hfits
    · exact hnext hlate
  · -- in normal operation for long enough: past the limit an update starts
    obtain ⟨hp, hd⟩ : net.ivuInProgress = false ∧ ivuMinHours ≤ net.ivuDuration := by
      simpa [not_or] using hlate
    have hseq := hw.due hp hd
    unfold nextSeq
    dsimp only
    split
    · rename_i htrig
      simp only [ivuTrigger, Bool.and_eq_true, decide_eq_true_eq, gt_iff_lt] at htrig
      have hact : ivuAction cfg false (net.ivIndex + 1) true { net with seq := net.seq + 1 } =
          .start := ivuAction_of_due hp hd (hok hp htrig.1.2).2
      simp only [Mesh.netIvUpdate, hact]
      refine ⟨hw.provisioned, hn, by simp, by simp, fun _ => ?_⟩
      show (net.seq + 1).toNat ≤ _
      omega
    · rename_i htrig
      have hle : (net.seq + 1).toNat ≤ cfg.seqLimit.toNat := by
        by_contra hlt
        rw [← UInt32.lt_iff_toNat_lt.trans not_le.symm] at hlt
        exact htrig (by simp [ivuTrigger, hp, (hok hp hlt).1, hlt])
      exact ⟨hw.provisioned, hn, fun _ h => absurd hd (Nat.not_le.2 h),
        fun _ _ => hle.trans hlimit, fun h => absurd h (by simp [hp])⟩

/-- **The timer fires.** What was sent since it last fired is made good by
the hours it counts, or by the update that ends. -/
theorem Within.ivuRefresh (hw : Within cfg p n net) (hfits : p.Fits cfg)
    (hok : Unhindered cfg p net (.ivuRefresh tx)) : Within cfg p 0 (ivuRefresh cfg tx net) := by
  have hpos := hfits.hours
  have hmin := hfits.hold_ge
  have hmax := hfits.hold_le
  have hn := hw.sent
  -- the state once the hours are counted, where the update does not end
  have htick : (net.ivuInProgress = true → (net.tickHours cfg).ivuDuration < p.hold) →
      Within cfg p 0 (net.tickHours cfg) := fun hlate => by
    unfold Net.tickHours at hlate ⊢
    dsimp only at hlate
    refine ⟨hw.provisioned, Nat.zero_le _, fun hp hd => ?_, fun hp hd => ?_, fun hp => ?_⟩
    all_goals dsimp only at *
    · -- Below 96 hours the count does not saturate.
      have hd' : min 255 (net.ivuDuration + cfg.ivuHours) = net.ivuDuration + cfg.ivuHours := by
        unfold ivuMinHours at hd
        omega
      rw [hd', Nat.add_div_right _ hpos, Nat.succ_mul]
      have := hw.waiting hp (by omega)
      omega
    · by_cases hold : net.ivuDuration < ivuMinHours
      · have hseq := hw.seq_le_start hfits hp hold
        omega
      · exact hw.due hp (by omega)
    · have hd := hlate hp
      have hd' : min 255 (net.ivuDuration + cfg.ivuHours) = net.ivuDuration + cfg.ivuHours := by
        omega
      rw [hd'] at hd ⊢
      have hlt := div_lt_ticks hpos hd
      rw [Nat.add_div_right _ hpos] at hlt ⊢
      have hseq := hw.inProgress hp
      rw [min_eq_left (by omega)] at hseq ⊢
      rw [Nat.succ_mul]
      omega
  unfold Mesh.ivuRefresh
  rw [if_neg (by simp [hw.provisioned])]
  dsimp only
  split_ifs with hd hp
  · exact htick fun _ => by omega
  · by_cases hhold : p.hold ≤ (net.tickHours cfg).ivuDuration
    · obtain ⟨rfl, hiv⟩ := hok hp hhold
      have hact : ivuAction cfg false (net.tickHours cfg).ivIndex false (net.tickHours cfg) =
          .normal := ivuAction_of_overdue hp (by omega) hiv
      simp only [Mesh.netIvUpdate, hact]
      constructor <;> simp [Net.tickHours, hw.provisioned]
    · exact (htick fun _ => by omega).netIvUpdate hfits
  · exact htick fun h => absurd h hp

theorem Within.netStep (hw : Within cfg p n net) (hfits : p.Fits cfg) (hn : p.Allows n e)
    (hok : Unhindered cfg p net e) : Within cfg p (sentSince n e) (netStep cfg net e) := by
  cases e with
  | transmit => exact hw.transmit hfits (hn rfl) hok
  | ivUpdate iv flag tx => exact hw.netIvUpdate hfits
  | ivuRefresh tx => exact hw.ivuRefresh hfits hok
  | segTxReset tx =>
    show Within cfg p n (releasePending cfg tx net)
    unfold releasePending
    split
    · exact Within.netIvUpdate ⟨hw.provisioned, hw.sent, hw.waiting, hw.due, hw.inProgress⟩ hfits
    · exact hw
  | ivUpdateTest enable =>
    have hd : net.ivuDuration = 0 := hok
    have hset : ivUpdateTestSet enable net = { net with ivuTest := enable } := by
      rw [ivUpdateTestSet, ← hd]
    show Within cfg p n (ivUpdateTestSet enable net)
    rw [hset]
    exact ⟨hw.provisioned, hw.sent, hw.waiting, hw.due, hw.inProgress⟩
  | primary present => exact ⟨hw.provisioned, hw.sent, hw.waiting, hw.due, hw.inProgress⟩

/-! ## Runs -/

theorem seqField_eq_iff {seq : UInt32} : seqField seq = seq.toNat ↔ seq.toNat < 2 ^ 24 := by
  unfold seqField
  omega

/-- **SEQ is what `bt_mesh_next_seq` returned, as long as updates are not
held up.** In every run of a node that keeps its pace, with no update
refused for good, each transmission is given a sequence number below 2²⁴,
which the field holds whole. -/
theorem seqField_eq_of_paced (hfits : p.Fits cfg) (hw : Within cfg p n net)
    (hpace : Along sentSince p.Allows n es)
    (hrun : Along (netStep cfg) (Unhindered cfg p) net es) :
    ∀ q ∈ emitted (netStep cfg) (transmitted cfg) net es,
      q.2.toNat < 2 ^ 24 ∧ seqField q.2 = q.2.toNat := by
  induction es generalizing n net with
  | nil => simp
  | cons e es ih =>
    rw [emitted_cons, List.forall_mem_append]
    refine ⟨?_, ih (hw.netStep hfits hpace.1 hrun.1) hpace.2 hrun.2⟩
    cases e with
    | transmit =>
      have hseq := hw.seq_le hfits
      have hn := hpace.1 rfl
      simp only [transmitted, List.mem_singleton, forall_eq, nextSeq_snd, seqField_eq_iff, and_self]
      omega
    | _ => simp [transmitted]

/-- An update is refused before 96 hours are over, started past the limit
and ended 96 hours later. -/
theorem seqField_eq_of_paced_update :
    let cfg : NetCfg := { seqLimit := 2 }
    let es := List.replicate 3 .transmit ++ List.replicate 4 (.ivuRefresh false) ++
      .transmit :: List.replicate 4 (.ivuRefresh false) ++ [.transmit]
    emitted (netStep cfg) (transmitted cfg) (provision 2 false 5 true) es =
        [(5, 0), (5, 1), (5, 2), (5, 3), (6, 0)] ∧
      ∀ q ∈ emitted (netStep cfg) (transmitted cfg) (provision 2 false 5 true) es,
        q.2.toNat < 2 ^ 24 ∧ seqField q.2 = q.2.toNat :=
  ⟨by decide, seqField_eq_of_paced (p := ⟨3, 96⟩) ⟨by decide, by decide, by decide, by decide⟩
    (within_provision _ 2 false 5 true) (by decide) (by decide)⟩

theorem run_transmit_of_not_primary (h : net.primary = false) (n : ℕ) :
    run (netStep cfg) net (List.replicate n .transmit) = { net with seq := net.seq + ofNat n } := by
  induction n generalizing net with
  | zero => simp
  | succ n ih =>
    have hstep : netStep cfg net .transmit = { net with seq := net.seq + 1 } := by
      simp [netStep, nextSeq, ivuTrigger, h]
    rw [List.replicate_succ, run_cons, hstep, ih (by exact h)]
    simp only [Net.mk.injEq, and_true, true_and]
    rw [UInt32.add_assoc, ofNat_add, UInt32.add_comm 1]
    rfl

/-- **The counter outgrows the field.** A node that is only on secondary
subnets never calls for an IV update: if no beacon brings one, its
transmission 2²⁴ + 1 is given the sequence number 2²⁴, which the field
holds as 0. -/
theorem seqField_wraps_without_primary :
    ∃ p ∈ emitted (netStep {}) (transmitted {}) (provision 2 false 0 false)
      (List.replicate (2 ^ 24 + 1) .transmit), seqField p.2 ≠ p.2.toNat := by
  rw [List.replicate_succ', emitted_append, run_transmit_of_not_primary rfl]
  refine ⟨_, List.mem_append_right _ (List.mem_singleton.2 rfl), ?_⟩
  rw [nextSeq_snd, Ne, seqField_eq_iff]
  decide


end Mesh

end OpenBlue

import OpenBlue.Mesh.Model.IvStore
import OpenBlue.Mesh.SeqStore
/-!
# Mesh — the IV state over a loss of power

The hours of the current state are counted up to 255 and stored in 7 bits.
The record gives back what it was made of exactly while the counter is below
128 (`ivRestored_iff`). Only the tick raises the counter, so a run stays
there exactly as long as no tick counts past 127 without ending an update.
-/

namespace OpenBlue

namespace Mesh

variable {cfg : NetCfg} {net : Net}

/-- What is stored of the node is what it is: the index, the flag and the
hours come back whatever node they are read into, the hours answer the
minimum duration the same, and `bt_mesh_net_iv_update` decides the same where
the two flags that are not stored agree. -/
def IvRestored (cfg : NetCfg) (net : Net) : Prop :=
  ∀ boot : Net,
    (ivSet (pendingIvStore net) boot).ivIndex = net.ivIndex ∧
    (ivSet (pendingIvStore net) boot).ivuInProgress = net.ivuInProgress ∧
    (ivSet (pendingIvStore net) boot).ivuDuration = net.ivuDuration ∧
    ((ivSet (pendingIvStore net) boot).ivuDuration < ivuMinHours ↔
      net.ivuDuration < ivuMinHours) ∧
    (boot.ivuTest = net.ivuTest → boot.iviWasRecovered = net.iviWasRecovered →
      ∀ (tx : Bool) (iv : UInt32) (flag : Bool),
        ivuAction cfg tx iv flag (ivSet (pendingIvStore net) boot) = ivuAction cfg tx iv flag net)

theorem ivuAction_congr {net' : Net} (hidx : net'.ivIndex = net.ivIndex)
    (hprogress : net'.ivuInProgress = net.ivuInProgress)
    (hhours : net'.ivuDuration = net.ivuDuration) (htest : net'.ivuTest = net.ivuTest)
    (hrec : net'.iviWasRecovered = net.iviWasRecovered) (tx : Bool) (iv : UInt32) (flag : Bool) :
    ivuAction cfg tx iv flag net' = ivuAction cfg tx iv flag net := by
  unfold ivuAction
  rw [hidx, hprogress, hhours, htest, hrec]

/-- **The record holds 7 bits of the hours.** -/
theorem ivRestored_iff (hvalid : net.provisioned = true) :
    IvRestored cfg net ↔ net.ivuDuration < 128 := by
  have hread : ∀ boot : Net, (ivSet (pendingIvStore net) boot).ivuDuration =
      net.ivuDuration % 128 := by
    intro boot
    rw [pendingIvStore, if_pos hvalid]
    exact BitVec.toNat_ofNat ..
  constructor
  · intro h
    obtain ⟨-, -, hhours, -⟩ := h net
    rw [hread] at hhours
    omega
  · intro hlt boot
    have hhours : (ivSet (pendingIvStore net) boot).ivuDuration = net.ivuDuration := by
      rw [hread]
      omega
    have hidx : (ivSet (pendingIvStore net) boot).ivIndex = net.ivIndex := by
      rw [pendingIvStore, if_pos hvalid]
      rfl
    have hprogress : (ivSet (pendingIvStore net) boot).ivuInProgress = net.ivuInProgress := by
      rw [pendingIvStore, if_pos hvalid]
      rfl
    refine ⟨hidx, hprogress, hhours, by rw [hhours], fun htest hrec tx iv flag => ?_⟩
    refine ivuAction_congr hidx hprogress hhours ?_ ?_ tx iv flag
    · rw [← htest, pendingIvStore, if_pos hvalid]
      rfl
    · rw [← hrec, pendingIvStore, if_pos hvalid]
      rfl

/-! ## The hours over a step -/

theorem netIvUpdate_ivuDuration (tx : Bool) (iv : UInt32) (flag : Bool) :
    (netIvUpdate cfg tx iv flag net).1.ivuDuration =
      if (ivuAction cfg tx iv flag net).storesIv then 0 else net.ivuDuration := by
  unfold netIvUpdate
  cases ivuAction cfg tx iv flag net <;> rfl

theorem storesIv_tick (hprogress : net.ivuInProgress = true)
    (hhours : ivuMinHours ≤ net.ivuDuration) (tx : Bool) :
    (ivuAction cfg tx net.ivIndex false net).storesIv = true ↔
      tx = false ∧ net.ivIndex ≤ net.ivIndex + 42 := by
  have hself : ¬ net.ivIndex > net.ivIndex + 1 ∨ ¬ net.ivIndex ≤ net.ivIndex + 42 := by
    simp only [UInt32.le_iff_toNat_le, gt_iff_lt, UInt32.lt_iff_toNat_lt, UInt32.toNat_add,
      UInt32.reduceToNat]
    omega
  have hne : net.ivIndex ≠ net.ivIndex + 1 := by
    intro heq
    have := congrArg UInt32.toNat heq
    simp only [UInt32.toNat_add, UInt32.reduceToNat] at this
    omega
  unfold ivuAction
  by_cases hwrap : net.ivIndex ≤ net.ivIndex + 42
  · have hnext : ¬ net.ivIndex > net.ivIndex + 1 := hself.resolve_right (not_not_intro hwrap)
    rw [if_neg (by simpa using hwrap), if_neg (by simp), if_neg (by simp [hnext, hne]),
      if_neg (by simp [hprogress]), if_neg (by omega)]
    cases tx <;> simp [IvuAction.storesIv, hwrap]
  · rw [if_pos (Or.inr (by simpa using hwrap))]
    simp [IvuAction.storesIv, hwrap]

/-- The step keeps the hours within what the record holds: it is no tick, or
the tick counts no further than 127, or it ends an update. -/
def HoursFit (cfg : NetCfg) (net : Net) : NetEvent → Prop
  | .ivuRefresh tx =>
    net.ivuDuration + cfg.ivuHours < 128 ∨
      (net.ivuInProgress = true ∧ tx = false ∧ net.ivIndex ≤ net.ivIndex + 42)
  | _ => True

theorem netIvUpdate_ivuDuration_lt (h : net.ivuDuration < 128) (tx : Bool) (iv : UInt32)
    (flag : Bool) : (netIvUpdate cfg tx iv flag net).1.ivuDuration < 128 := by
  rw [netIvUpdate_ivuDuration]
  split
  · exact Nat.zero_lt_succ _
  · exact h

/-- **The tick.** -/
theorem ivuRefresh_ivuDuration_lt_iff (hvalid : net.provisioned = true) (tx : Bool) :
    (ivuRefresh cfg tx net).ivuDuration < 128 ↔ HoursFit cfg net (.ivuRefresh tx) := by
  have hcount : (net.tickHours cfg).ivuDuration = min 255 (net.ivuDuration + cfg.ivuHours) := rfl
  have hmin : ivuMinHours = 96 := rfl
  unfold ivuRefresh HoursFit
  rw [if_neg (by simp [hvalid])]
  dsimp only
  split
  next hearly => exact iff_of_true (by omega) (.inl (by omega))
  next hlate =>
    split
    next hprogress =>
      have hprogress' : net.ivuInProgress = true := hprogress
      have hends : (ivuAction cfg tx net.ivIndex false (net.tickHours cfg)).storesIv = true ↔
          tx = false ∧ net.ivIndex ≤ net.ivIndex + 42 := storesIv_tick hprogress (by omega) tx
      rw [netIvUpdate_ivuDuration]
      split
      next hstores => exact iff_of_true (by omega) (.inr ⟨hprogress', hends.1 hstores⟩)
      next hkeeps =>
        have hno : ¬ (tx = false ∧ net.ivIndex ≤ net.ivIndex + 42) := fun h => hkeeps (hends.2 h)
        rw [hcount]
        constructor
        · intro h
          exact .inl (by omega)
        · rintro (h | ⟨-, h⟩)
          · omega
          · exact absurd h hno
    next hnormal =>
      have hnormal' : ¬ net.ivuInProgress = true := hnormal
      rw [hcount]
      constructor
      · intro h
        exact .inl (by omega)
      · rintro (h | ⟨h, -⟩)
        · omega
        · exact absurd h hnormal'

theorem nextSeq_ivuDuration_lt (h : net.ivuDuration < 128) :
    (nextSeq cfg net).1.ivuDuration < 128 := by
  have hcounted : ({ net with seq := net.seq + 1 } : Net).ivuDuration < 128 := h
  unfold nextSeq
  dsimp only
  split
  · exact netIvUpdate_ivuDuration_lt hcounted false _ true
  · exact hcounted

theorem releasePending_ivuDuration_lt (h : net.ivuDuration < 128) (tx : Bool) :
    (releasePending cfg tx net).ivuDuration < 128 := by
  have hreleased : ({ net with ivuPending := false } : Net).ivuDuration < 128 := h
  unfold releasePending
  split
  · exact netIvUpdate_ivuDuration_lt hreleased tx _ false
  · exact h

/-- **A step** stays within the record exactly when its hours fit. -/
theorem netStep_ivuDuration_lt_iff (hvalid : net.provisioned = true)
    (h : net.ivuDuration < 128) (e : NetEvent) :
    (netStep cfg net e).ivuDuration < 128 ↔ HoursFit cfg net e := by
  cases e with
  | ivuRefresh tx => exact ivuRefresh_ivuDuration_lt_iff hvalid tx
  | transmit => exact iff_of_true (nextSeq_ivuDuration_lt h) trivial
  | ivUpdate iv flag tx => exact iff_of_true (netIvUpdate_ivuDuration_lt h tx iv flag) trivial
  | segTxReset tx => exact iff_of_true (releasePending_ivuDuration_lt h tx) trivial
  | ivUpdateTest enable => exact iff_of_true (Nat.zero_lt_succ 127) trivial
  | primary present => exact iff_of_true h trivial

/-! ## Runs -/

theorem IvStart.spec (h : IvStart net) : net.provisioned = true ∧ net.ivuDuration < 128 := by
  cases h with
  | provisioned crpl ivUpdate ivIndex primary =>
    refine ⟨rfl, ?_⟩
    cases ivUpdate
    · exact Nat.zero_lt_succ _
    · show ivuMinHours < 128
      decide
  | restored boot iv hvalid => exact ⟨hvalid, iv.ivDuration.isLt⟩

/-- **The IV state survives a loss of power exactly while the hours fit.** Of
every run of a node, whatever updates, recoveries, ticks and transfers it has:
the record gives back what was stored in every state the run reaches, if and
only if no tick of the run counts past 127 without ending an update. -/
theorem ivRestored_iff_along (cfg : NetCfg) (hs : IvStart net) (es : List NetEvent) :
    (∀ es', es' <+: es → IvRestored cfg (run (netStep cfg) net es')) ↔
      Along (netStep cfg) (HoursFit cfg) net es := by
  obtain ⟨hvalid, hlt⟩ := hs.spec
  refine prefix_iff_along (fun n => n.provisioned = true) (IvRestored cfg)
    (fun n e hn => (netStep_provisioned cfg n e).trans hn) (fun n e hn hp => ?_) hvalid
    ((ivRestored_iff hvalid).2 hlt) es
  rw [ivRestored_iff ((netStep_provisioned cfg n e).trans hn)]
  exact netStep_ivuDuration_lt_iff hn ((ivRestored_iff hn).1 hp) e

/-- Five ticks of the default period, the update in progress ended by the
first: the hours come back. -/
theorem ivRestored_five_ticks :
    IvRestored {} (run (netStep {}) (provision 2 true 5 true)
      (List.replicate 5 (.ivuRefresh false))) :=
  (ivRestored_iff_along {} (.provisioned 2 true 5 true) (List.replicate 5 (.ivuRefresh false))).2
    ⟨.inr (by decide), .inl (by decide), .inl (by decide), .inl (by decide), .inl (by decide),
      trivial⟩ _ List.prefix_rfl

/-- **Six days in normal operation.** The counter is at 144 and the record
holds 16: the node that restarts refuses the update it would have started. -/
theorem not_ivRestored_six_ticks :
    ∃ es, (run (netStep {}) (provision 2 false 5 true) es).ivuDuration = 144 ∧
      ¬ IvRestored {} (run (netStep {}) (provision 2 false 5 true) es) ∧
      ivuAction {} false 6 true (run (netStep {}) (provision 2 false 5 true) es) = .start ∧
      (ivSet (pendingIvStore (run (netStep {}) (provision 2 false 5 true) es))
        (provision 2 false 0 true)).ivuDuration = 16 ∧
      ivuAction {} false 6 true
        (ivSet (pendingIvStore (run (netStep {}) (provision 2 false 5 true) es))
          (provision 2 false 0 true)) = .ignore := by
  refine ⟨List.replicate 6 (.ivuRefresh false), by decide, fun h => ?_, by decide, by decide,
    by decide⟩
  exact absurd ((ivRestored_iff (by decide)).1 h) (by decide)

end Mesh

end OpenBlue

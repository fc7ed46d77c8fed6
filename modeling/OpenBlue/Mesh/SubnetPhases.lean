import OpenBlue.Mesh.Model.KeyNode
import OpenBlue.Mesh.Subnet
/-!
# Mesh — the phases the other tables see

Application keys and the bridging table know a subnet by its index, and of
it the key refresh phase (`phaseOf`). `PhaseMove` says what each call on
the subnets does to the phase of one index, whatever becomes of the keys:
the subnet is deleted, its key refresh begins, moves on, or ends. No event
of a subnet reaches the two tables (`step_subnet`).
-/

namespace OpenBlue

namespace KeyTables

open List Option

variable {cfg : KeysCfg} {t : List Subnet} {sub sub' : Subnet} {i k ph : ℕ}

/-- The key refresh phase of the subnet `bt_mesh_subnet_get` finds. -/
def phaseOf (t : List Subnet) (netIdx : ℕ) : Option ℕ :=
  (subnetGet t netIdx).map fun i => (t.getD i freeSubnet).krPhase

/-- The index names a subnet in use. -/
def UsedIdx (t : List Subnet) (netIdx : ℕ) : Prop := netIdx ≠ keyUnused ∧ phaseOf t netIdx ≠ none

/-- What holds of the indexes and phases whatever is called: no two used
entries have one index, and there is no phase after phase 2. -/
structure PhasesOk (t : List Subnet) : Prop where
  unique : UniqueKeys Subnet.netIdx keyUnused t
  phase : ∀ sub ∈ t, sub.krPhase ≤ krPhase2

theorem subnetsInit_phasesOk (count : ℕ) : PhasesOk (subnetsInit count) where
  unique := uniqueKeys_of_forall fun sub hsub => by rw [eq_of_mem_replicate hsub]; rfl
  phase sub hsub := by
    rw [eq_of_mem_replicate hsub]
    exact Nat.zero_le _

/-! ## The phase of an index -/

theorem getElem?_of_subnetGet (h : subnetGet t k = some i) :
    t[i]? = some (t.getD i freeSubnet) ∧ (t.getD i freeSubnet).netIdx = k := by
  obtain ⟨sub, hi, hsub⟩ := slotOf_eq_some h
  have hgetD : t.getD i freeSubnet = sub := by
    rw [getD_eq_getElem?_getD, hi, getD_some]
  exact ⟨hgetD ▸ hi, hgetD ▸ hsub⟩

theorem phaseOf_eq (t : List Subnet) (k : ℕ) :
    phaseOf t k = (entryOf Subnet.netIdx k t).map Subnet.krPhase := by
  cases hslot : subnetGet t k with
  | none =>
    have hslot' : slotOf Subnet.netIdx k t = none := hslot
    rw [phaseOf, hslot, entryOf, hslot', bind_none, map_none, map_none]
  | some i =>
    have hslot' : slotOf Subnet.netIdx k t = some i := hslot
    rw [phaseOf, hslot, entryOf, hslot', bind_some, (getElem?_of_subnetGet hslot).1,
      map_some, map_some]

theorem PhasesOk.phaseOf_mem (h : PhasesOk t) (hk : k ≠ keyUnused) (hi : t[i]? = some sub)
    (hidx : sub.netIdx = k) : phaseOf t k = some sub.krPhase := by
  rw [phaseOf_eq, (entryOf_eq_some h.unique hk).2 ⟨mem_of_getElem? hi, hidx⟩, map_some]

theorem PhasesOk.set (h : PhasesOk t) (hi : t[i]? = some sub)
    (hkey : sub'.netIdx = sub.netIdx ∨ sub'.netIdx = keyUnused ∨
      ∀ s ∈ t, s.netIdx ≠ sub'.netIdx) (hphase : sub'.krPhase ≤ krPhase2) :
    PhasesOk (t.set i sub') where
  unique := h.unique.set hi hkey
  phase s hs := by
    rcases mem_or_eq_of_mem_set hs with hs | rfl
    · exact h.phase s hs
    · exact hphase

theorem PhasesOk.phaseOf_set (h : PhasesOk t) (hi : t[i]? = some sub)
    (hkey : sub'.netIdx = sub.netIdx ∨ sub'.netIdx = keyUnused ∨
      ∀ s ∈ t, s.netIdx ≠ sub'.netIdx) (hk : k ≠ keyUnused) : phaseOf (t.set i sub') k =
      if sub'.netIdx = k then some sub'.krPhase
      else if sub.netIdx = k then none else phaseOf t k := by
  rw [phaseOf_eq, entryOf_set h.unique hi hkey hk, phaseOf_eq]
  split
  · rfl
  split <;> rfl

theorem PhasesOk.phaseOf_set_keep (h : PhasesOk t) (hi : t[i]? = some sub) (sub' : Subnet)
    (hidx : sub'.netIdx = sub.netIdx) (hk : k ≠ keyUnused) (hph : phaseOf t k = some ph) :
    (sub.netIdx = k ∧ ph = sub.krPhase ∧ phaseOf (t.set i sub') k = some sub'.krPhase) ∨
      (sub.netIdx ≠ k ∧ phaseOf (t.set i sub') k = some ph) := by
  rw [h.phaseOf_set hi (.inl hidx) hk, hidx]
  by_cases hsub : sub.netIdx = k
  · have hph' : some sub.krPhase = some ph := (h.phaseOf_mem hk hi hsub).symm.trans hph
    exact .inl ⟨hsub, (Option.some.inj hph').symm, if_pos hsub⟩
  · exact .inr ⟨hsub, by rw [if_neg hsub, if_neg hsub, hph]⟩

/-! ## What a call does to a phase -/

/-- The call ends the key refresh of a subnet that is in one: phase 3 is
set, or a beacon with the new key has a clear flag. -/
def SubnetEvent.Ends : SubnetEvent → ℕ → Prop
  | .krPhaseSet netIdx phase, k => netIdx = k ∧ phase = krPhase3
  | .beacon netIdx krFlag newKey, k => netIdx = k ∧ krFlag = false ∧ newKey = true
  | _, _ => False

/-- The call deletes the subnet. -/
def SubnetEvent.Deletes : SubnetEvent → ℕ → Prop
  | .del netIdx, k => netIdx = k
  | _, _ => False

/-- What a call does to a subnet in phase `ph`. -/
structure PhaseMove (e : SubnetEvent) (k ph : ℕ) (ph' : Option ℕ) : Prop where
  deleted : e.Deletes k → ph' = none
  ended : e.Ends k → ph' = some krNormal
  /-- Any other call leaves the phase, or moves it on. -/
  kept : ¬ e.Deletes k → ¬ e.Ends k → ph' = some ph ∨
    ph = krNormal ∧ ph' = some krPhase1 ∨ ph = krPhase1 ∧ ph' = some krPhase2

theorem PhaseMove.of_eq {e : SubnetEvent} (hdel : ¬ e.Deletes k) (hends : e.Ends k → ph = krNormal) :
    PhaseMove e k ph (some ph) where
  deleted h := absurd h hdel
  ended h := by rw [hends h]
  kept _ _ := .inl rfl

/-- What a call does to the table, as seen by its index and phase. -/
def PhasesKept (t t' : List Subnet) (e : SubnetEvent) : Prop :=
  PhasesOk t' ∧ ∀ k ph, k ≠ keyUnused → phaseOf t k = some ph → PhaseMove e k ph (phaseOf t' k)

theorem subnetAdd_phases (h : PhasesOk t) (d : Derivation) (netIdx : ℕ) (raw : Bytes) :
    PhasesKept t (subnetAdd cfg d netIdx raw t).subnets (.add netIdx raw d) := by
  have hsame : PhasesKept t t (.add netIdx raw d) :=
    ⟨h, fun k ph _ hph => hph ▸ .of_eq id False.elim⟩
  unfold subnetAdd
  split
  · exact hsame
  next i hi =>
    obtain ⟨sub, hget, hcase⟩ := slotFor_eq_some hi
    have hgetD : t.getD i freeSubnet = sub := by
      rw [getD_eq_getElem?_getD, hget, getD_some]
    simp only [hgetD]
    split
    · exact hsame
    next hne =>
      obtain ⟨hfree, hfresh⟩ := hcase.resolve_left hne
      split
      · refine ⟨h.set hget (.inr (.inr hfresh)) (Nat.zero_le _), fun k ph hk hph => ?_⟩
        -- The index that is added is the index of no entry.
        have hnk : netIdx ≠ k := by
          rintro rfl
          rw [phaseOf_eq, (entryOf_eq_none h.unique hk).2 hfresh] at hph
          exact nomatch hph
        rw [h.phaseOf_set hget (.inr (.inr hfresh)) hk, if_neg hnk,
          if_neg (fun hu => hk (hu.symm.trans hfree)), hph]
        exact .of_eq id False.elim
      · refine ⟨h.set hget (.inl rfl) (h.phase sub (mem_of_getElem? hget)), fun k ph hk hph => ?_⟩
        rcases h.phaseOf_set_keep hget { sub with old := (netKeysCreate cfg d sub.old raw).1 } rfl
          hk hph with ⟨-, rfl, heq⟩ | ⟨-, heq⟩
        · exact heq ▸ .of_eq id False.elim
        · exact heq ▸ .of_eq id False.elim

theorem subnetUpdate_phases (h : PhasesOk t) (d : Derivation) (netIdx : ℕ) (raw : Bytes) :
    PhasesKept t (subnetUpdate cfg d netIdx raw t).subnets (.update netIdx raw d) := by
  have hsame : PhasesKept t t (.update netIdx raw d) :=
    ⟨h, fun k ph _ hph => hph ▸ .of_eq id False.elim⟩
  unfold subnetUpdate
  split
  · exact hsame
  next i hi =>
    obtain ⟨hget, -⟩ := getElem?_of_subnetGet hi
    generalize t.getD i freeSubnet = sub at hget ⊢
    dsimp only
    split
    next htakes =>
      split
      · refine ⟨h.set hget (.inl rfl) (show krPhase1 ≤ krPhase2 by decide), fun k ph hk hph => ?_⟩
        rcases h.phaseOf_set_keep hget (keyRefresh
          { sub with new := (netKeysCreate cfg d sub.new raw).1 } krPhase1).1 rfl hk hph with
          ⟨-, rfl, heq⟩ | ⟨-, heq⟩
        · exact ⟨False.elim, False.elim, fun _ _ => .inr (.inl ⟨htakes.1, heq⟩)⟩
        · exact heq ▸ .of_eq id False.elim
      · refine ⟨h.set hget (.inl rfl) (h.phase sub (mem_of_getElem? hget)), fun k ph hk hph => ?_⟩
        rcases h.phaseOf_set_keep hget { sub with new := (netKeysCreate cfg d sub.new raw).1 } rfl
          hk hph with ⟨-, rfl, heq⟩ | ⟨-, heq⟩
        · exact heq ▸ .of_eq id False.elim
        · exact heq ▸ .of_eq id False.elim
    · exact hsame

theorem subnetDel_phases (h : PhasesOk t) (netIdx : ℕ) :
    PhasesKept t (subnetDel netIdx t).subnets (.del netIdx) := by
  unfold subnetDel
  split
  next hnone =>
    refine ⟨h, fun k ph _ hph => hph ▸ .of_eq (fun hdel => ?_) False.elim⟩
    obtain rfl : netIdx = k := hdel
    rw [phaseOf, hnone] at hph
    exact nomatch hph
  next i hi =>
    obtain ⟨hget, hidx⟩ := getElem?_of_subnetGet hi
    refine ⟨h.set hget (.inr (.inl rfl)) (Nat.zero_le _), fun k ph hk hph => ?_⟩
    have hfree : freeSubnet.netIdx ≠ k := Ne.symm hk
    rw [h.phaseOf_set hget (.inr (.inl rfl)) hk, if_neg hfree, hidx]
    refine ⟨fun hdel => if_pos hdel, False.elim, fun hdel _ => ?_⟩
    have hother : netIdx ≠ k := hdel
    rw [if_neg hother]
    exact .inl hph

theorem keyRefresh_three (sub : Subnet) : (keyRefresh sub krPhase3).1.krPhase = krNormal := by
  rw [keyRefresh, if_neg (by decide), if_neg (by decide), if_pos rfl]
  split
  next hnormal => exact hnormal
  · rfl

/-- **The phases a change goes to**, by the table of transitions. -/
theorem keyRefresh_transition_phase {phase : ℕ} (hvalid : transitionValid sub.krPhase phase = true) :
    phase = krPhase3 ∧ (keyRefresh sub phase).1.krPhase = krNormal ∨
      phase ≠ krPhase3 ∧ sub.krPhase = krPhase1 ∧ (keyRefresh sub phase).1.krPhase = krPhase2 := by
  rcases transitionValid_cases hvalid with rfl | ⟨hold, rfl⟩
  · exact .inl ⟨rfl, keyRefresh_three sub⟩
  · exact .inr ⟨by decide, hold, rfl⟩

theorem krPhaseSet_phases (h : PhasesOk t) (netIdx phase : ℕ) :
    PhasesKept t (krPhaseSet netIdx phase t).subnets (.krPhaseSet netIdx phase) := by
  unfold krPhaseSet
  split
  next hnone =>
    refine ⟨h, fun k ph _ hph => hph ▸ .of_eq id fun hends => ?_⟩
    obtain ⟨rfl, -⟩ := hends
    rw [phaseOf, hnone] at hph
    exact nomatch hph
  next i hi =>
    obtain ⟨hget, hidx⟩ := getElem?_of_subnetGet hi
    generalize t.getD i freeSubnet = sub at hget hidx ⊢
    have hle : sub.krPhase ≤ 2 := h.phase sub (mem_of_getElem? hget)
    dsimp only
    split
    next hsame =>
      refine ⟨h, fun k ph _ hph => hph ▸ .of_eq id fun hends => ?_⟩
      have hthree : phase = 3 := hends.2
      omega
    split
    next hvalid =>
      refine ⟨h.set hget (.inl (keyRefresh_netIdx sub phase)) ?_, fun k ph hk hph => ?_⟩
      · rcases keyRefresh_transition_phase hvalid with ⟨-, hph⟩ | ⟨-, -, hph⟩
        · rw [hph]
          decide
        · exact hph.le
      rcases h.phaseOf_set_keep hget (keyRefresh sub phase).1 (keyRefresh_netIdx sub phase) hk hph
        with ⟨hsub, rfl, heq⟩ | ⟨hsub, heq⟩
      · rw [heq]
        rcases keyRefresh_transition_phase hvalid with ⟨hthree, hnew⟩ | ⟨hthree, hone, hnew⟩
        · rw [hnew]
          exact ⟨False.elim, fun _ => rfl, fun _ hends => absurd ⟨hidx.symm.trans hsub, hthree⟩ hends⟩
        · rw [hnew]
          exact ⟨False.elim, fun hends => absurd hends.2 hthree, fun _ _ => .inr (.inr ⟨hone, rfl⟩)⟩
      · exact heq ▸ .of_eq id fun hends => absurd (hidx.trans hends.1) hsub
    next hinvalid =>
      refine ⟨h, fun k ph _ hph => hph ▸ .of_eq id fun hends => absurd ?_ hinvalid⟩
      -- Phase 3 may follow each phase there is.
      rw [hends.2]
      obtain hp | hp | hp : sub.krPhase = 0 ∨ sub.krPhase = 1 ∨ sub.krPhase = 2 := by omega
      all_goals
        rw [hp]
        decide

/-- **The phase a beacon leaves.** -/
theorem krUpdate_phase (hle : sub.krPhase ≤ krPhase2) (krFlag newKey : Bool) :
    PhaseMove (.beacon k krFlag newKey) k sub.krPhase (some (krUpdate sub krFlag newKey).1.krPhase) := by
  have hphase : sub.krPhase = krNormal ∨ sub.krPhase = krPhase1 ∨ sub.krPhase = krPhase2 := by
    have hle' : sub.krPhase ≤ 2 := hle
    show sub.krPhase = 0 ∨ sub.krPhase = 1 ∨ sub.krPhase = 2
    omega
  unfold krUpdate
  cases newKey with
  | false => exact .of_eq id fun hends => absurd hends.2.2 Bool.false_ne_true
  | true =>
    cases krFlag with
    | false =>
      -- The flag is clear: the key refresh ends, if there is one.
      refine ⟨False.elim, fun _ => congrArg some ?_, fun _ hends => absurd ⟨rfl, rfl, rfl⟩ hends⟩
      rw [if_neg (by decide)]
      rcases hphase with hp | hp | hp
      · rw [if_neg (by rw [hp]; decide), if_neg (by rw [hp]; decide)]
        exact hp
      · rw [if_pos hp]
        exact keyRefresh_three sub
      · rw [if_neg (by rw [hp]; decide), if_pos ⟨hp, by decide⟩]
        exact keyRefresh_three sub
    | true =>
      have hnever : ¬ (SubnetEvent.beacon k true true).Ends k := fun hends =>
        absurd hends.2.1.symm Bool.false_ne_true
      rw [if_neg (by decide)]
      split
      next hp => exact ⟨False.elim, fun hends => absurd hends hnever, fun _ _ => .inr (.inr ⟨hp, rfl⟩)⟩
      · rw [if_neg fun hflag => hflag.2 rfl]
        exact .of_eq id fun hends => absurd hends hnever

theorem PhaseMove.le {e : SubnetEvent} {ph' : ℕ} (h : PhaseMove e k ph (some ph'))
    (hle : ph ≤ krPhase2) : ph' ≤ krPhase2 := by
  by_cases hdel : e.Deletes k
  · exact nomatch h.deleted hdel
  by_cases hends : e.Ends k
  · rw [Option.some.inj (h.ended hends)]
    exact Nat.zero_le _
  rcases h.kept hdel hends with heq | ⟨-, heq⟩ | ⟨-, heq⟩
  · rwa [Option.some.inj heq]
  · rw [Option.some.inj heq]
    decide
  · rw [Option.some.inj heq]

theorem subnetBeacon_phases (h : PhasesOk t) (netIdx : ℕ) (krFlag newKey : Bool) :
    PhasesKept t (subnetBeacon netIdx krFlag newKey t).subnets (.beacon netIdx krFlag newKey) := by
  unfold subnetBeacon
  split
  next hunused =>
    exact ⟨h, fun k ph hk hph =>
      hph ▸ .of_eq id fun hends => absurd (hends.1.symm.trans hunused) hk⟩
  split
  next hnone =>
    refine ⟨h, fun k ph _ hph => hph ▸ .of_eq id fun hends => ?_⟩
    obtain ⟨rfl, -⟩ := hends
    rw [phaseOf, hnone] at hph
    exact nomatch hph
  next i hi =>
    obtain ⟨hget, hidx⟩ := getElem?_of_subnetGet hi
    generalize t.getD i freeSubnet = sub at hget hidx ⊢
    have hle := h.phase sub (mem_of_getElem? hget)
    refine ⟨h.set hget (.inl (krUpdate_netIdx sub krFlag newKey))
      ((krUpdate_phase hle krFlag newKey : PhaseMove _ netIdx _ _).le hle), fun k ph hk hph => ?_⟩
    rcases h.phaseOf_set_keep hget (krUpdate sub krFlag newKey).1
      (krUpdate_netIdx sub krFlag newKey) hk hph with ⟨hsub, rfl, heq⟩ | ⟨hsub, heq⟩
    · obtain rfl : netIdx = k := hidx.symm.trans hsub
      exact heq ▸ krUpdate_phase hle krFlag newKey
    · exact heq ▸ .of_eq id fun hends => absurd (hidx.trans hends.1) hsub

/-- **What a call does to the phases.** -/
theorem subnetStep_phases (cfg : KeysCfg) (h : PhasesOk t) (e : SubnetEvent) :
    PhasesKept t (subnetStep cfg t e) e := by
  cases e with
  | add netIdx raw d => exact subnetAdd_phases h d netIdx raw
  | update netIdx raw d => exact subnetUpdate_phases h d netIdx raw
  | del netIdx => exact subnetDel_phases h netIdx
  | krPhaseSet netIdx phase => exact krPhaseSet_phases h netIdx phase
  | beacon netIdx krFlag newKey => exact subnetBeacon_phases h netIdx krFlag newKey

theorem subnetStep_usedIdx (cfg : KeysCfg) (h : PhasesOk t) (e : SubnetEvent) (hk : UsedIdx t k) :
    UsedIdx (subnetStep cfg t e) k ↔ ¬ e.Deletes k := by
  obtain ⟨hne, hsome⟩ := hk
  obtain ⟨ph, hph⟩ := ne_none_iff_exists'.1 hsome
  have hmove := (subnetStep_phases cfg h e).2 k ph hne hph
  constructor
  · exact fun hused hdel => hused.2 (hmove.deleted hdel)
  · intro hdel
    refine ⟨hne, fun hnone => ?_⟩
    by_cases hends : e.Ends k
    · exact nomatch hnone.symm.trans (hmove.ended hends)
    rcases hmove.kept hdel hends with heq | ⟨-, heq⟩ | ⟨-, heq⟩
    all_goals exact nomatch hnone.symm.trans heq

/-! ## The other tables -/

theorem foldl_subnetEvt (raised : List (ℕ × KeyEvt)) (node : Node) :
    raised.foldl (fun node evt => subnetEvt evt node) node = node := by
  induction raised with
  | nil => rfl
  | cons evt raised ih => exact ih

/-- **No handler is run**: a call on the subnets changes the subnets only. -/
theorem step_subnet (cfg : KeysCfg) (node : Node) (e : SubnetEvent) :
    node.step cfg (.subnet e) = { node with subnets := subnetStep cfg node.subnets e } :=
  foldl_subnetEvt _ _

theorem step_phasesOk (cfg : KeysCfg) {node : Node} (h : PhasesOk node.subnets) (e : Event) :
    PhasesOk (node.step cfg e).subnets := by
  cases e with
  | subnet e =>
    rw [step_subnet]
    exact (subnetStep_phases cfg h e).1
  | app e => exact h
  | brg e => exact h

end KeyTables

end OpenBlue

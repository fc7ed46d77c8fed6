import OpenBlue.Common.Run
import OpenBlue.Mesh.Model.Subnet
/-!
# Mesh — the key refresh of a subnet

The slots of a used subnet follow its phase: the old keys alone in normal
operation, both in phases 1 and 2 (`Subnet.Ok`). The phase moves by
`key_refresh` only, from wherever it is called (`keyRefresh_ok`); the one
thing that can put the two out of step is an update of an entry that is
not in use, whose second slot the next subnet added there inherits. A call
that fails leaves the subnets as they were, unless it is an update whose
derivation fails after it has begun to write.
-/

namespace OpenBlue

namespace KeyTables

open List

variable {cfg : KeysCfg} {d : Derivation} {keys : SubnetKeys} {raw : Bytes} {netIdx phase : ℕ}
variable {t : List Subnet} {sub : Subnet} {i : ℕ}

/-! ## Derivations -/

/-- A step that leaves the mark of a slot alone. -/
def KeyWrite.KeepsValid (w : KeyWrite) : Prop :=
  ∀ k, (w.good k).valid = k.valid ∧ (w.cleared k).valid = k.valid

theorem keyWrites_keepsValid (cfg : KeysCfg) (raw : Bytes) :
    ∀ w ∈ keyWrites cfg raw, w.KeepsValid := by
  intro w hw k
  simp only [keyWrites, mem_append, mem_cons, not_mem_nil, or_false] at hw
  rcases hw with (((rfl | rfl | rfl | rfl | rfl) | hw) | rfl) | hw
  iterate 5 exact ⟨rfl, rfl⟩
  · split at hw
    · rw [mem_singleton.1 hw]
      exact ⟨rfl, rfl⟩
    · exact absurd hw not_mem_nil
  · exact ⟨rfl, rfl⟩
  · split at hw
    · rw [mem_singleton.1 hw]
      exact ⟨rfl, rfl⟩
    · exact absurd hw not_mem_nil

theorem runWrites_valid {ws : List KeyWrite} (hws : ∀ w ∈ ws, w.KeepsValid) (done : ℕ)
    (keys : SubnetKeys) :
    (runWrites d done ws keys).1.valid = ((runWrites d done ws keys).2 || keys.valid) := by
  induction ws generalizing done keys with
  | nil => rfl
  | cons w ws ih =>
    rw [runWrites]
    split
    · split
      · exact (hws w mem_cons_self keys).2
      · rfl
    · rw [ih (fun w' hw' => hws w' (mem_cons_of_mem _ hw')), (hws w mem_cons_self keys).1]

theorem runWrites_ok (ws : List KeyWrite) {done : ℕ} (hdone : done ≤ d.steps) (keys : SubnetKeys) :
    (runWrites d done ws keys).2 = true ↔ done + ws.length ≤ d.steps := by
  induction ws generalizing done keys with
  | nil => exact iff_of_true rfl hdone
  | cons w ws ih =>
    rw [runWrites]
    split
    next hstop =>
      refine iff_of_false (by simp) ?_
      rw [length_cons]
      omega
    next hstop =>
      rw [ih (by omega), length_cons]
      omega

/-- The derivation of an update does not fail. -/
def Derivation.Ends (d : Derivation) (cfg : KeysCfg) (raw : Bytes) : Prop :=
  (keyWrites cfg raw).length ≤ d.steps

instance (d : Derivation) (cfg : KeysCfg) (raw : Bytes) : Decidable (d.Ends cfg raw) :=
  inferInstanceAs (Decidable ((keyWrites cfg raw).length ≤ d.steps))

theorem netKeysCreate_ok : (netKeysCreate cfg d keys raw).2 = true ↔ d.Ends cfg raw := by
  rw [netKeysCreate, runWrites_ok _ (Nat.zero_le _), Nat.zero_add, Derivation.Ends]

theorem netKeysCreate_valid :
    (netKeysCreate cfg d keys raw).1.valid = ((netKeysCreate cfg d keys raw).2 || keys.valid) :=
  runWrites_valid (keyWrites_keepsValid cfg raw) 0 keys

/-- **A derivation that fails at its first step has written nothing.** -/
theorem netKeysCreate_first (h : d.steps = 0) : netKeysCreate cfg d keys raw = (keys, false) := by
  obtain ⟨steps, cleared⟩ := d
  obtain rfl : steps = 0 := h
  cases cleared <;> rfl

/-! ## One subnet -/

/-- The slots of a subnet follow its phase. -/
structure Subnet.Ok (sub : Subnet) : Prop where
  phase : sub.Used → sub.krPhase ≤ krPhase2
  old : sub.Used → sub.old.valid = true
  /-- The second slot is in use in phases 1 and 2; and in no free entry. -/
  new : sub.new.valid = true ↔ sub.Used ∧ sub.krPhase ≠ krNormal

theorem freeSubnet_ok : freeSubnet.Ok where
  phase h := absurd rfl h
  old h := absurd rfl h
  new := iff_of_false Bool.false_ne_true fun h => h.1 rfl

theorem Subnet.Ok.txKeys (h : sub.Ok) (hused : sub.Used) : sub.txKeys.valid = true := by
  rw [Subnet.txKeys]
  split
  next hphase => exact h.new.2 ⟨hused, by rw [hphase]; decide⟩
  next => exact h.old hused

/-- **The old keys are revoked** while the new ones are there. -/
theorem Subnet.Ok.revoke (h : sub.Ok) (hphase : sub.krPhase ≠ krNormal) : sub.revoke.Ok where
  phase _ := Nat.zero_le _
  old hused := h.new.2 ⟨hused, hphase⟩
  new := iff_of_false Bool.false_ne_true fun hnew => hnew.2 rfl

/-- **A phase is entered** from a phase with both slots: phase 2, or normal
operation. -/
theorem keyRefresh_ok (h : sub.Ok) (hphase : sub.krPhase ≠ krNormal)
    (hnew : phase = krPhase2 ∨ phase = krPhase3) : (keyRefresh sub phase).1.Ok := by
  rcases hnew with rfl | rfl
  · have hvalid : sub.new.valid = true ↔ sub.Used ∧ sub.krPhase ≠ krNormal := h.new
    exact ⟨fun _ => Nat.le_refl _, h.old,
      hvalid.trans ⟨fun hu => ⟨hu.1, (by decide : krPhase2 ≠ krNormal)⟩, fun hu => ⟨hu.1, hphase⟩⟩⟩
  · rw [keyRefresh, if_neg (by decide), if_neg (by decide), if_pos rfl, if_neg hphase]
    exact h.revoke hphase

theorem keyRefresh_netIdx (sub : Subnet) (phase : ℕ) :
    (keyRefresh sub phase).1.netIdx = sub.netIdx := by
  unfold keyRefresh
  repeat' split
  all_goals rfl

theorem krUpdate_netIdx (sub : Subnet) (krFlag newKey : Bool) :
    (krUpdate sub krFlag newKey).1.netIdx = sub.netIdx := by
  unfold krUpdate
  repeat' split
  all_goals first
    | rfl
    | exact keyRefresh_netIdx sub _

/-- **A beacon** moves the phase on, or leaves it. -/
theorem krUpdate_ok (h : sub.Ok) (krFlag newKey : Bool) : (krUpdate sub krFlag newKey).1.Ok := by
  unfold krUpdate
  split
  · exact h
  split
  next hphase =>
    refine keyRefresh_ok h (by rw [hphase]; decide) ?_
    cases krFlag
    · exact .inr rfl
    · exact .inl rfl
  split
  next hphase => exact keyRefresh_ok h (by rw [hphase.1]; decide) (.inr rfl)
  · exact h

theorem transitionValid_cases {old new : ℕ} (h : transitionValid old new = true) :
    new = krPhase3 ∨ old = krPhase1 ∧ new = krPhase2 := by
  rw [transitionValid, Bool.and_eq_true, decide_eq_true_eq] at h
  obtain ⟨hold, hbit⟩ := h
  have hlt : old < 3 := hold
  obtain rfl | rfl | rfl : old = 0 ∨ old = 1 ∨ old = 2 := by omega
  · simp only [validTransitions, getD_cons_zero, Nat.testBit_two_pow, decide_eq_true_eq] at hbit
    exact .inl hbit.symm
  · simp only [validTransitions, getD_cons_succ, getD_cons_zero, Nat.testBit_or,
      Nat.testBit_two_pow, Bool.or_eq_true, decide_eq_true_eq] at hbit
    rcases hbit with hbit | hbit
    · exact .inr ⟨rfl, hbit.symm⟩
    · exact .inl hbit.symm
  · simp only [validTransitions, getD_cons_succ, getD_cons_zero, Nat.testBit_two_pow,
      decide_eq_true_eq] at hbit
    exact .inl hbit.symm

/-- **A configuration message** moves the phase by the table. -/
theorem keyRefresh_transition (h : sub.Ok) (hvalid : transitionValid sub.krPhase phase = true) :
    (keyRefresh sub phase).1.Ok := by
  rcases transitionValid_cases hvalid with rfl | ⟨hold, rfl⟩
  · by_cases hphase : sub.krPhase = krNormal
    · rw [keyRefresh, if_neg (by decide), if_neg (by decide), if_pos rfl, if_pos hphase]
      exact h
    · exact keyRefresh_ok h hphase (.inr rfl)
  · exact keyRefresh_ok h (by rw [hold]; decide) (.inl rfl)

/-- **An update begins** in normal operation, with keys in the second slot. -/
theorem update_ok (h : sub.Ok) (hused : sub.Used) (hkeys : keys.valid = true) :
    (keyRefresh { sub with new := keys } krPhase1).1.Ok where
  phase _ := by
    change krPhase1 ≤ krPhase2
    decide
  old := h.old
  new := iff_of_true hkeys ⟨hused, by change krPhase1 ≠ krNormal; decide⟩

/-! ## The table -/

/-- What holds of the subnets. -/
structure SubnetsOk (t : List Subnet) : Prop where
  unique : UniqueKeys Subnet.netIdx keyUnused t
  ok : ∀ sub ∈ t, sub.Ok

theorem subnetsInit_ok (count : ℕ) : SubnetsOk (subnetsInit count) where
  unique := uniqueKeys_of_forall fun sub hsub => by rw [eq_of_mem_replicate hsub]; rfl
  ok sub hsub := by
    rw [eq_of_mem_replicate hsub]
    exact freeSubnet_ok

theorem getD_of_getElem? (h : t[i]? = some sub) : t.getD i freeSubnet = sub := by
  rw [getD_eq_getElem?_getD, h, Option.getD_some]

theorem subnetGet_eq_some (h : subnetGet t netIdx = some i) :
    ∃ sub, t[i]? = some sub ∧ t.getD i freeSubnet = sub ∧ sub.netIdx = netIdx := by
  obtain ⟨sub, hi, hsub⟩ := slotOf_eq_some h
  exact ⟨sub, hi, getD_of_getElem? hi, hsub⟩

theorem SubnetsOk.set (h : SubnetsOk t) (hi : t[i]? = some sub) {sub' : Subnet} (hok : sub'.Ok)
    (hkey : sub'.netIdx = sub.netIdx ∨ sub'.netIdx = keyUnused ∨
      ∀ s ∈ t, s.netIdx ≠ sub'.netIdx) : SubnetsOk (t.set i sub') where
  unique := h.unique.set hi hkey
  ok s hs := by
    rcases mem_or_eq_of_mem_set hs with hs | rfl
    · exact h.ok s hs
    · exact hok

/-- An update that reaches its derivation is of a subnet in use where the
derivation ends, and has written nothing to one where it fails. -/
def UpdateOk (cfg : KeysCfg) (t : List Subnet) : SubnetEvent → Prop
  | .update netIdx raw d =>
    ∀ i, subnetGet t netIdx = some i → (t.getD i freeSubnet).TakesUpdate raw →
      if d.Ends cfg raw then netIdx ≠ keyUnused else netIdx ≠ keyUnused → d.steps = 0
  | _ => True

/-- The used subnets are the same in both tables. -/
def SameSubnets (t t' : List Subnet) : Prop :=
  ∀ i : ℕ, (∃ sub : Subnet, (t[i]? = some sub ∨ t'[i]? = some sub) ∧ sub.Used) → t'[i]? = t[i]?

theorem SameSubnets.refl (t : List Subnet) : SameSubnets t t := fun _ _ => rfl

theorem SameSubnets.set_free (hi : t[i]? = some sub) {sub' : Subnet} (hfree : ¬ sub.Used)
    (hfree' : ¬ sub'.Used) : SameSubnets t (t.set i sub') := by
  rintro j ⟨s, hs, hused⟩
  by_cases hij : i = j
  · subst hij
    rcases hs with hs | hs
    · obtain rfl := Option.mem_unique hi hs
      exact absurd hused hfree
    · rcases getElem?_set_cases hs with ⟨-, rfl⟩ | ⟨hne, -⟩
      · exact absurd hused hfree'
      · exact absurd rfl hne
  · rw [getElem?_set_ne hij]

/-! ## Calls -/

theorem subnetAdd_spec (h : SubnetsOk t) : SubnetsOk (subnetAdd cfg d netIdx raw t).subnets ∧
      ((subnetAdd cfg d netIdx raw t).status ≠ .success →
        SameSubnets t (subnetAdd cfg d netIdx raw t).subnets) := by
  unfold subnetAdd
  split
  · exact ⟨h, fun _ => .refl t⟩
  next i hi =>
    obtain ⟨sub, hget, hcase⟩ := slotFor_eq_some hi
    simp only [getD_of_getElem? hget]
    split
    · exact ⟨h, fun _ => .refl t⟩
    next hne =>
      -- The entry is not in use, and no other has the index.
      obtain ⟨hfree, hfresh⟩ := hcase.resolve_left hne
      have hok : sub.Ok := h.ok sub (mem_of_getElem? hget)
      have hnew : sub.new.valid = false := by
        rw [← Bool.not_eq_true, hok.new]
        exact fun hu => hu.1 hfree
      split
      next hends =>
        refine ⟨h.set hget ⟨fun _ => Nat.zero_le _, fun _ => ?_, ?_⟩ (.inr (.inr hfresh)),
          fun hs => absurd rfl hs⟩
        · dsimp only
          rw [netKeysCreate_valid, hends, Bool.true_or]
        · exact iff_of_false (by rw [hnew]; exact Bool.false_ne_true) fun hu => hu.2 rfl
      next hfails =>
        have hused : ¬ ({ sub with old := (netKeysCreate cfg d sub.old raw).1 } : Subnet).Used :=
          fun hu => hu hfree
        exact ⟨h.set hget ⟨fun hu => absurd hu hused, fun hu => absurd hu hused, hok.new⟩ (.inl rfl),
          fun _ => .set_free hget (fun hu => hu hfree) hused⟩

theorem subnetUpdate_spec (h : SubnetsOk t) (hup : UpdateOk cfg t (.update netIdx raw d)) :
    SubnetsOk (subnetUpdate cfg d netIdx raw t).subnets ∧
      ((subnetUpdate cfg d netIdx raw t).status ≠ .success →
        SameSubnets t (subnetUpdate cfg d netIdx raw t).subnets) := by
  unfold subnetUpdate
  split
  · exact ⟨h, fun _ => .refl t⟩
  next i hi =>
    obtain ⟨sub, hget, hgetD, hidx⟩ := subnetGet_eq_some hi
    have hup' := hup i hi
    simp only [hgetD] at hup' ⊢
    split
    next htakes =>
      have hok : sub.Ok := h.ok sub (mem_of_getElem? hget)
      have hcond := hup' htakes
      split
      next hends =>
        rw [if_pos (netKeysCreate_ok.1 hends), ← hidx] at hcond
        have hvalid : (netKeysCreate cfg d sub.new raw).1.valid = true := by
          rw [netKeysCreate_valid, hends, Bool.true_or]
        exact ⟨h.set hget (update_ok hok hcond hvalid) (.inl rfl), fun hs => absurd rfl hs⟩
      next hfails =>
        rw [if_neg fun hends => hfails (netKeysCreate_ok.2 hends), ← hidx] at hcond
        by_cases hused : sub.Used
        · -- Nothing is written before the first step.
          rw [netKeysCreate_first (hcond hused)]
          have hset : t.set i sub = t := by
            obtain ⟨hlt, rfl⟩ := List.getElem?_eq_some_iff.1 hget
            exact set_getElem_self hlt
          exact ⟨hset.symm ▸ h, fun _ => hset.symm ▸ .refl t⟩
        · have hkeep : ¬ (netKeysCreate cfg d sub.new raw).1.valid = true := by
            rw [netKeysCreate_valid, Bool.eq_false_iff.2 hfails, Bool.false_or, hok.new]
            exact fun hu => hused hu.1
          exact ⟨h.set hget ⟨fun hu => absurd hu hused, fun hu => absurd hu hused,
            iff_of_false hkeep fun hu => hused hu.1⟩ (.inl rfl),
            fun _ => .set_free hget hused hused⟩
    · exact ⟨h, fun _ => .refl t⟩

theorem subnetDel_spec (h : SubnetsOk t) : SubnetsOk (subnetDel netIdx t).subnets ∧
      ((subnetDel netIdx t).status ≠ .success → SameSubnets t (subnetDel netIdx t).subnets) := by
  unfold subnetDel
  split
  · exact ⟨h, fun _ => .refl t⟩
  next i hi =>
    obtain ⟨sub, hget, -, -⟩ := subnetGet_eq_some hi
    exact ⟨h.set hget freeSubnet_ok (.inr (.inl rfl)), fun hs => absurd rfl hs⟩

theorem krPhaseSet_spec (h : SubnetsOk t) : SubnetsOk (krPhaseSet netIdx phase t).subnets ∧
      ((krPhaseSet netIdx phase t).status ≠ .success →
        SameSubnets t (krPhaseSet netIdx phase t).subnets) := by
  unfold krPhaseSet
  split
  · exact ⟨h, fun _ => .refl t⟩
  next i hi =>
    obtain ⟨sub, hget, hgetD, -⟩ := subnetGet_eq_some hi
    simp only [hgetD]
    split
    · exact ⟨h, fun _ => .refl t⟩
    split
    next hvalid =>
      exact ⟨h.set hget (keyRefresh_transition (h.ok sub (mem_of_getElem? hget)) hvalid)
        (.inl (keyRefresh_netIdx sub phase)), fun hs => absurd rfl hs⟩
    · exact ⟨h, fun _ => .refl t⟩

theorem subnetBeacon_spec (netIdx : ℕ) (h : SubnetsOk t) (krFlag newKey : Bool) :
    SubnetsOk (subnetBeacon netIdx krFlag newKey t).subnets ∧
      (subnetBeacon netIdx krFlag newKey t).status = .success := by
  unfold subnetBeacon
  split
  · exact ⟨h, rfl⟩
  split
  · exact ⟨h, rfl⟩
  next i hi =>
    obtain ⟨sub, hget, hgetD, -⟩ := subnetGet_eq_some hi
    simp only [hgetD]
    exact ⟨h.set hget (krUpdate_ok (h.ok sub (mem_of_getElem? hget)) krFlag newKey)
      (.inl (krUpdate_netIdx sub krFlag newKey)), trivial⟩

/-- **One call** keeps the table; where it fails, it changes no subnet. -/
theorem subnetCall_spec (h : SubnetsOk t) {e : SubnetEvent} (he : UpdateOk cfg t e) :
    SubnetsOk (subnetCall cfg t e).subnets ∧
      ((subnetCall cfg t e).status ≠ .success → SameSubnets t (subnetCall cfg t e).subnets) := by
  cases e with
  | add netIdx raw d => exact subnetAdd_spec h
  | update netIdx raw d => exact subnetUpdate_spec h he
  | del netIdx => exact subnetDel_spec h
  | krPhaseSet netIdx phase => exact krPhaseSet_spec h
  | beacon netIdx krFlag newKey =>
    obtain ⟨hok, hstatus⟩ := subnetBeacon_spec netIdx h krFlag newKey
    exact ⟨hok, fun hs => absurd hstatus hs⟩

/-! ## Runs -/

/-- The key refresh of a table of subnets: no two used entries with one
index; the slot for sending is valid; only the old slot in normal
operation, both in phases 1 and 2, and there is no other phase. -/
structure KeyRefreshSound (t : List Subnet) : Prop where
  unique : UniqueKeys Subnet.netIdx keyUnused t
  tx : ∀ sub ∈ t, sub.Used → sub.txKeys.valid = true
  normal : ∀ sub ∈ t, sub.Used → sub.krPhase = krNormal →
    sub.old.valid = true ∧ sub.new.valid = false
  refresh : ∀ sub ∈ t, sub.Used → sub.krPhase = krPhase1 ∨ sub.krPhase = krPhase2 →
    sub.old.valid = true ∧ sub.new.valid = true
  phase : ∀ sub ∈ t, sub.Used →
    sub.krPhase = krNormal ∨ sub.krPhase = krPhase1 ∨ sub.krPhase = krPhase2

theorem SubnetsOk.sound (h : SubnetsOk t) : KeyRefreshSound t where
  unique := h.unique
  tx sub hsub hused := (h.ok sub hsub).txKeys hused
  normal sub hsub hused hphase := by
    refine ⟨(h.ok sub hsub).old hused, ?_⟩
    rw [← Bool.not_eq_true, (h.ok sub hsub).new]
    exact fun hu => hu.2 hphase
  refresh sub hsub hused hphase := by
    refine ⟨(h.ok sub hsub).old hused, (h.ok sub hsub).new.2 ⟨hused, ?_⟩⟩
    rcases hphase with hphase | hphase <;> rw [hphase] <;> decide
  phase sub hsub hused := by
    have hle : sub.krPhase ≤ 2 := (h.ok sub hsub).phase hused
    change sub.krPhase = 0 ∨ sub.krPhase = 1 ∨ sub.krPhase = 2
    omega

/-- **The key refresh of subnets.** In every run of calls of which no update
fails half-way, and none begins on an entry that is not in use, the table
is sound in every state reached; and every call that answers with a
failure leaves the subnets as they were. -/
theorem key_refresh_sound (cfg : KeysCfg) (count : ℕ) (es : List SubnetEvent)
    (hrun : Along (subnetStep cfg) (UpdateOk cfg) (subnetsInit count) es) :
    KeyRefreshSound (run (subnetStep cfg) (subnetsInit count) es) ∧
      Along (subnetStep cfg) (fun t e => (subnetCall cfg t e).status ≠ .success →
        SameSubnets t (subnetStep cfg t e)) (subnetsInit count) es :=
  ⟨(inv_run SubnetsOk (fun _ _ h he => (subnetCall_spec h he).1) (subnetsInit_ok count)
      hrun).sound,
    inv_along SubnetsOk (fun _ _ h he => subnetCall_spec h he) (subnetsInit_ok count) hrun⟩

/-- Derivations that name the key they are from. -/
def plainCfg : KeysCfg where
  kdf := ⟨fun raw => raw.headD 0, id, id, id, id, id, id⟩

/-- A derivation that ends. -/
def ends : Derivation := ⟨8, false⟩

/-- A subnet goes through a key refresh. -/
def refreshRun : List SubnetEvent :=
  [.add 3 [1] ends, .update 3 [2] ends, .beacon 3 true true, .krPhaseSet 3 3]

theorem key_refresh_sound_refresh :
    KeyRefreshSound (run (subnetStep plainCfg) (subnetsInit 2) refreshRun) := by
  have hrun : Along (subnetStep plainCfg) (UpdateOk plainCfg) (subnetsInit 2) refreshRun := by
    refine ⟨trivial, fun i _ _ => ?_, trivial, trivial, trivial⟩
    rw [if_pos (by decide)]
    decide
  exact (key_refresh_sound plainCfg 2 refreshRun hrun).1

/-- **An update that fails half-way** leaves another network key in the
second slot. **An update of the index for none** begins a key refresh in an
entry that is not in use, and the subnet added there has two valid slots in
normal operation. -/
theorem update_half_way :
    ((subnetCall plainCfg (run (subnetStep plainCfg) (subnetsInit 1) [.add 3 [1] ends])
        (.update 3 [2] ⟨4, false⟩)).status = .cannotUpdate ∧
      ¬ SameSubnets (run (subnetStep plainCfg) (subnetsInit 1) [.add 3 [1] ends])
        (run (subnetStep plainCfg) (subnetsInit 1) [.add 3 [1] ends, .update 3 [2] ⟨4, false⟩])) ∧
    ¬ KeyRefreshSound (run (subnetStep plainCfg) (subnetsInit 1)
        [.update keyUnused [2] ends, .add 3 [1] ends]) := by
  refine ⟨⟨by decide, fun h => ?_⟩, fun h => ?_⟩
  · have hsame := h 0 ⟨_, .inl rfl, by decide⟩
    exact absurd hsame (by decide)
  · have hnormal := h.normal _ (List.mem_cons_self) (by decide) (by decide)
    exact absurd hnormal.2 (by decide)

end KeyTables

end OpenBlue

import OpenBlue.Common.Cursor
import OpenBlue.Common.KeyedTable
import OpenBlue.Common.Run
import OpenBlue.Common.Sum
import OpenBlue.Mesh.Model.VirtualAddr
/-!
# Mesh — labels are counted and gone through

The table of virtual addresses should keep one entry for each Label UUID,
with as many references as have been added and not deleted. It does until
a count of 15 bits is full: adding to it wraps around to none, and the
label is gone. The second part is about every table: calling
`bt_mesh_va_uuid_get` with its own answers goes through the labels of an
address once, in the order of the table.
-/

namespace OpenBlue

namespace Mesh

open List

variable {vas : List Va} {va va' : Va} {e : VaEvent} {uuid : Label} {cmac : Option Label}
variable {log rs : List VaRef} {i n addr : ℕ}

/-! ## What the table should be -/

/-- The references added to a label, less those deleted. -/
def vaNet (log : List VaRef) (uuid : Label) : ℤ :=
  log.count (.added uuid) - log.count (.deleted uuid)

/-- No two entries in use have the same label. -/
def LabelsDistinct (vas : List Va) : Prop :=
  ∀ (i j : ℕ) (x y : Va), vas[i]? = some x → vas[j]? = some y → x.ref ≠ 0 → y.ref ≠ 0 →
    x.uuid = y.uuid → i = j

/-- **The table and the references taken so far**: the labels in use are
distinct, each has as many references as were added and not deleted, and of
every other label all have been. -/
structure VaOk (vas : List Va) (log : List VaRef) : Prop where
  distinct : LabelsDistinct vas
  counted : ∀ va ∈ vas, va.ref ≠ 0 → (va.ref.toNat : ℤ) = vaNet log va.uuid
  settled : ∀ uuid, (∀ va ∈ vas, va.ref ≠ 0 → va.uuid ≠ uuid) → vaNet log uuid = 0

/-- Where a call keeps the table right: it does not add to a count that is
full. -/
def VaEvent.Fits (vas : List Va) : VaEvent → Prop
  | .add uuid _ => ∀ va ∈ vas, va.uuid = uuid → va.ref ≠ 32767
  | .del _ => True

/-- No entry in use has the label. -/
def NewLabel (vas : List Va) (uuid : Label) : Prop := ∀ va ∈ vas, va.ref ≠ 0 → va.uuid ≠ uuid

/-! ## The references to a label -/

/-- The references an entry has to a label. -/
def Va.refsTo (uuid : Label) (va : Va) : ℕ := if va.uuid = uuid then va.ref.toNat else 0

/-- The references a table has to a label. -/
def vaRefs (vas : List Va) (uuid : Label) : ℕ := (vas.map (Va.refsTo uuid)).sum

theorem toNat_ref_eq_zero : va.ref.toNat = 0 ↔ va.ref = 0 := by
  rw [← BitVec.toNat_inj]
  exact Iff.rfl

theorem refsTo_self : va.refsTo va.uuid = va.ref.toNat := if_pos rfl

theorem refsTo_of_free (h : va.ref = 0) : va.refsTo uuid = 0 := by
  unfold Va.refsTo
  split
  · exact toNat_ref_eq_zero.2 h
  · rfl

theorem vaRefs_set (hi : vas[i]? = some va) (va' : Va) (uuid : Label) :
    vaRefs (vas.set i va') uuid + va.refsTo uuid = vaRefs vas uuid + va'.refsTo uuid :=
  sum_map_set (Va.refsTo uuid) hi va'

theorem vaRefs_eq_zero : vaRefs vas uuid = 0 ↔ NewLabel vas uuid := by
  rw [vaRefs, List.sum_eq_zero_iff_forall_eq_nat, forall_mem_map]
  refine forall₂_congr fun va _ => ?_
  unfold Va.refsTo
  split
  next huuid =>
    rw [toNat_ref_eq_zero]
    exact ⟨fun h hne => absurd h hne, fun h => by_contra fun hne => h hne huuid⟩
  next huuid => exact iff_of_true rfl fun _ => huuid

theorem vaRefs_of_live (h : LabelsDistinct vas) (hi : vas[i]? = some va) (hlive : va.ref ≠ 0) :
    vaRefs vas va.uuid = va.ref.toNat := by
  have hset := vaRefs_set hi { va with ref := 0 } va.uuid
  rw [refsTo_self, refsTo_of_free rfl] at hset
  have hnone : vaRefs (vas.set i { va with ref := 0 }) va.uuid = 0 := by
    refine vaRefs_eq_zero.2 fun y hy hlivey huuid => ?_
    obtain ⟨j, hj⟩ := mem_iff_getElem?.1 hy
    rcases getElem?_set_cases hj with ⟨-, rfl⟩ | ⟨hij, hj'⟩
    · exact hlivey rfl
    · exact hij (h i j va y hi hj' hlive hlivey huuid.symm)
  omega

/-- **The account of a label**: the table is right if its references are
those taken, in use or not. -/
theorem vaOk_iff :
    VaOk vas log ↔ LabelsDistinct vas ∧ ∀ uuid, (vaRefs vas uuid : ℤ) = vaNet log uuid := by
  constructor
  · intro h
    refine ⟨h.distinct, fun uuid => ?_⟩
    by_cases hnew : NewLabel vas uuid
    · rw [vaRefs_eq_zero.2 hnew, h.settled uuid hnew]
      rfl
    · simp only [NewLabel, not_forall, not_not] at hnew
      obtain ⟨va, hmem, hlive, rfl⟩ := hnew
      obtain ⟨i, hi⟩ := mem_iff_getElem?.1 hmem
      rw [vaRefs_of_live h.distinct hi hlive, h.counted va hmem hlive]
  · rintro ⟨hdistinct, hrefs⟩
    refine ⟨hdistinct, fun va hmem hlive => ?_, fun uuid hnew => ?_⟩
    · obtain ⟨i, hi⟩ := mem_iff_getElem?.1 hmem
      rw [← hrefs, vaRefs_of_live hdistinct hi hlive]
    · rw [← hrefs, vaRefs_eq_zero.2 hnew]
      rfl

/-! ## The calls -/

theorem vaScan_found (n : ℕ) {free : Option ℕ} (h : vaScan uuid n free vas = .found i va) :
    ∃ j, i = n + j ∧ vas[j]? = some va ∧ va.ref ≠ 0 ∧ va.uuid = uuid := by
  induction vas generalizing n free with
  | nil => exact nomatch h
  | cons x vas ih =>
    have hlater {free : Option ℕ} (h : vaScan uuid (n + 1) free vas = .found i va) :
        ∃ j, i = n + j ∧ (x :: vas)[j]? = some va ∧ va.ref ≠ 0 ∧ va.uuid = uuid := by
      obtain ⟨j, hi, hj, hva⟩ := ih (n + 1) h
      exact ⟨j + 1, by omega, hj, hva⟩
    rw [vaScan] at h
    split at h
    · exact hlater h
    next hlive =>
      split at h
      next huuid =>
        obtain ⟨rfl, rfl⟩ := VaScan.found.inj h
        exact ⟨0, rfl, rfl, hlive, huuid.symm⟩
      next => exact hlater h

theorem vaScan_free (n : ℕ) {free r : Option ℕ} (h : vaScan uuid n free vas = .free r) :
    NewLabel vas uuid ∧
      (r = free ∨ free = none ∧ ∃ j va, r = some (n + j) ∧ vas[j]? = some va ∧ va.ref = 0) := by
  induction vas generalizing n free with
  | nil => exact ⟨by simp [NewLabel], .inl (VaScan.free.inj h).symm⟩
  | cons x vas ih =>
    rw [vaScan] at h
    split at h
    next hfree =>
      obtain ⟨hnew, hr⟩ := ih (n + 1) h
      refine ⟨forall_mem_cons.2 ⟨fun hlive => absurd hfree hlive, hnew⟩, ?_⟩
      split at hr
      next hfirst =>
        rcases hr with rfl | ⟨hnone, -⟩
        · exact .inr ⟨hfirst, 0, x, rfl, rfl, hfree⟩
        · exact nomatch hnone
      next hlater =>
        rcases hr with hr | ⟨hnone, -⟩
        · exact .inl hr
        · exact absurd hnone hlater
    next =>
      split at h
      · exact nomatch h
      next huuid =>
        obtain ⟨hnew, hr⟩ := ih (n + 1) h
        refine ⟨forall_mem_cons.2 ⟨fun _ heq => huuid heq.symm, hnew⟩, ?_⟩
        rcases hr with hr | ⟨hnone, j, va, rfl, hj, hfree⟩
        · exact .inl hr
        · exact .inr ⟨hnone, j + 1, va, congrArg some (by omega), hj, hfree⟩

/-- Everything a call can do: the table it leaves, and what is booked. -/
inductive VaStepped (vas : List Va) : VaEvent → List Va → List VaRef → Prop
  | full {uuid : Label} {cmac : Option Label} (hnew : NewLabel vas uuid) :
      VaStepped vas (.add uuid cmac) vas []
  | again {uuid : Label} {cmac : Option Label} {i : ℕ} {va : Va} (hi : vas[i]? = some va)
      (hlive : va.ref ≠ 0) (huuid : va.uuid = uuid) :
      VaStepped vas (.add uuid cmac) (vas.set i (vaStore { va with ref := va.ref + 1 }))
        [.added uuid]
  | failed {uuid : Label} {cmac : Option Label} {i : ℕ} {va : Va} (hnew : NewLabel vas uuid)
      (hi : vas[i]? = some va) (hfree : va.ref = 0) :
      VaStepped vas (.add uuid cmac) (vas.set i { va with uuid := uuid, addr := 0 }) []
  | fresh {uuid : Label} {cmac : Option Label} {i addr : ℕ} {va : Va} (hnew : NewLabel vas uuid)
      (hi : vas[i]? = some va) (hfree : va.ref = 0) (haddr : btMeshVirtualAddr cmac = some addr) :
      VaStepped vas (.add uuid cmac)
        (vas.set i (vaStore { va with uuid := uuid, addr := addr, ref := 1 })) [.added uuid]
  | missing {uuid : Option ℕ} : VaStepped vas (.del uuid) vas []
  | deleted {i : ℕ} {va : Va} (hi : vas[i]? = some va) (hlive : va.ref ≠ 0) :
      VaStepped vas (.del (some i)) (vas.set i (vaStore { va with ref := va.ref - 1 }))
        [.deleted va.uuid]

theorem vaStepped (vas : List Va) (e : VaEvent) :
    VaStepped vas e (vaStep vas e) (vaBooked vas e) := by
  cases e with
  | add uuid cmac =>
    rw [vaStep, vaBooked, vaCall, btMeshVaAdd]
    split
    next i va hscan =>
      obtain ⟨j, hij, hj, hlive, huuid⟩ := vaScan_found 0 hscan
      obtain rfl : i = j := by omega
      exact .again hj hlive huuid
    next hscan => exact .full (vaScan_free 0 hscan).1
    next i hscan =>
      obtain ⟨hnew, hnone | ⟨-, j, va, hij, hj, hfree⟩⟩ := vaScan_free 0 hscan
      · exact nomatch hnone
      obtain rfl : i = j := by simpa using hij
      simp only [getD_eq_getElem?_getD, hj, Option.getD_some]
      split
      · exact .failed hnew hj hfree
      next addr haddr => exact .fresh hnew hj hfree haddr
  | del uuid =>
    cases uuid with
    | none => exact .missing
    | some i =>
      rw [vaStep, vaBooked, vaCall, btMeshVaDel]
      split
      · exact .missing
      next va hi =>
      split
      · exact .missing
      next hlive => simpa [hi] using VaStepped.deleted hi hlive

/-! ## One call -/

theorem vaNet_append (log rs : List VaRef) (uuid : Label) :
    vaNet (log ++ rs) uuid = vaNet log uuid + vaNet rs uuid := by
  unfold vaNet
  rw [count_append, count_append]
  push_cast
  omega

theorem LabelsDistinct.set (h : LabelsDistinct vas)
    (hnew : ∀ j va, i ≠ j → vas[j]? = some va → va.ref ≠ 0 → va'.ref ≠ 0 → va.uuid ≠ va'.uuid) :
    LabelsDistinct (vas.set i va') := by
  intro j k x y hj hk hlivex hlivey heq
  rcases getElem?_set_cases hj with ⟨rfl, rfl⟩ | ⟨hij, hj'⟩
  · rcases getElem?_set_cases hk with ⟨hik, -⟩ | ⟨hik, hk'⟩
    · exact hik
    · exact absurd heq.symm (hnew k y hik hk' hlivey hlivex)
  · rcases getElem?_set_cases hk with ⟨rfl, rfl⟩ | ⟨-, hk'⟩
    · exact absurd heq (hnew j x hij hj' hlivex hlivey)
    · exact h j k x y hj' hk' hlivex hlivey heq

theorem VaOk.set (h : VaOk vas log) (hi : vas[i]? = some va)
    (hnew : ∀ j va, i ≠ j → vas[j]? = some va → va.ref ≠ 0 → va'.ref ≠ 0 → va.uuid ≠ va'.uuid)
    (hnet : ∀ uuid, (va'.refsTo uuid : ℤ) = va.refsTo uuid + vaNet rs uuid) :
    VaOk (vas.set i va') (log ++ rs) := by
  obtain ⟨hdistinct, hrefs⟩ := vaOk_iff.1 h
  refine vaOk_iff.2 ⟨hdistinct.set hnew, fun uuid => ?_⟩
  have hset := vaRefs_set hi va' uuid
  have hold := hrefs uuid
  have hbooked := hnet uuid
  rw [vaNet_append]
  omega

theorem LabelsDistinct.new_of_live (h : LabelsDistinct vas) (hi : vas[i]? = some va)
    (hlive : va.ref ≠ 0) (huuid : va'.uuid = va.uuid) :
    ∀ j x, i ≠ j → vas[j]? = some x → x.ref ≠ 0 → va'.ref ≠ 0 → x.uuid ≠ va'.uuid :=
  fun j x hij hj hlivex _ heq => hij (h i j va x hi hj hlive hlivex (heq.trans huuid).symm)

theorem vaNet_added (uuid uuid' : Label) :
    vaNet [.added uuid] uuid' = if uuid = uuid' then 1 else 0 := by
  by_cases h : uuid = uuid' <;> simp [vaNet, h]

theorem vaNet_deleted (uuid uuid' : Label) :
    vaNet [.deleted uuid] uuid' = if uuid = uuid' then -1 else 0 := by
  by_cases h : uuid = uuid' <;> simp [vaNet, h]

theorem vaNet_nil (uuid : Label) : vaNet [] uuid = 0 := rfl

theorem toNat_ref_add_one (h : va.ref ≠ 32767) : (va.ref + 1).toNat = va.ref.toNat + 1 := by
  have hlt : va.ref.toNat < 32768 := va.ref.isLt
  have hne : va.ref.toNat ≠ 32767 := fun heq => h (BitVec.eq_of_toNat_eq heq)
  rw [BitVec.toNat_add]
  change (va.ref.toNat + 1) % 32768 = va.ref.toNat + 1
  omega

theorem toNat_ref_sub_one (h : va.ref ≠ 0) : (va.ref - 1).toNat + 1 = va.ref.toNat := by
  have hlt : va.ref.toNat < 32768 := va.ref.isLt
  have hne : va.ref.toNat ≠ 0 := fun heq => h (toNat_ref_eq_zero.1 heq)
  rw [BitVec.toNat_sub]
  change (32768 - 1 + va.ref.toNat) % 32768 + 1 = va.ref.toNat
  omega

/-- **One call keeps the table right exactly if it does not add to a full
count.** -/
theorem vaOk_step_iff (h : VaOk vas log) :
    VaOk (vaStep vas e) (log ++ vaBooked vas e) ↔ e.Fits vas := by
  have hfits {uuid : Label} (hnew : NewLabel vas uuid) : ∀ va ∈ vas, va.uuid = uuid →
      va.ref ≠ 32767 :=
    fun va hmem huuid hfull => hnew va hmem (by rw [hfull]; decide) huuid
  have hstepped := vaStepped vas e
  generalize vaStep vas e = vas', vaBooked vas e = rs at hstepped ⊢
  cases hstepped with
  | full hnew =>
    rw [append_nil]
    exact iff_of_true h (hfits hnew)
  | missing =>
    rw [append_nil]
    exact iff_of_true h trivial
  | failed hnew hi hfree =>
    refine iff_of_true (h.set hi (fun _ _ _ _ _ hlive => absurd hfree hlive) fun uuid => ?_)
      (hfits hnew)
    rw [refsTo_of_free hfree, vaNet_nil, refsTo_of_free]
    · rfl
    · exact hfree
  | @fresh uuid _ i _ va hnew hi hfree _ =>
    refine iff_of_true (h.set hi (fun j x _ hj hlive _ => ?_) fun uuid' => ?_) (hfits hnew)
    · exact hnew x (mem_of_getElem? hj) hlive
    · rw [refsTo_of_free hfree, vaNet_added]
      change ((if uuid = uuid' then 1 else 0 : ℕ) : ℤ) = _
      split <;> rfl
  | @deleted i va hi hlive =>
    refine iff_of_true (h.set hi (h.distinct.new_of_live hi hlive rfl) fun uuid => ?_) trivial
    have hsub := toNat_ref_sub_one hlive
    rw [vaNet_deleted]
    change ((if va.uuid = uuid then (va.ref - 1).toNat else 0 : ℕ) : ℤ) =
      (if va.uuid = uuid then va.ref.toNat else 0 : ℕ) + _
    split <;> omega
  | @again uuid _ i va hi hlive huuid =>
    subst huuid
    constructor
    · intro hok x hmem huuid hfull
      obtain ⟨j, hj⟩ := mem_iff_getElem?.1 hmem
      have hlivex : x.ref ≠ 0 := by
        rw [hfull]
        decide
      obtain rfl : j = i := h.distinct j i x va hj hi hlivex hlive huuid
      obtain rfl : x = va := Option.mem_unique hj hi
      -- the count is back at zero, and one reference more has been taken
      have hold := (vaOk_iff.1 h).2 x.uuid
      have hnew := (vaOk_iff.1 hok).2 x.uuid
      have hset := vaRefs_set hi (vaStore { x with ref := x.ref + 1 }) x.uuid
      have hwrapped : (vaStore { x with ref := x.ref + 1 }).ref = 0 := by
        change x.ref + 1 = 0
        rw [hfull]
        rfl
      rw [refsTo_self, refsTo_of_free hwrapped] at hset
      rw [vaNet_append, vaNet_added, if_pos rfl] at hnew
      have hpos : x.ref.toNat ≠ 0 := fun hzero => hlive (toNat_ref_eq_zero.1 hzero)
      have hself := vaRefs_of_live h.distinct hi hlive
      omega
    · intro hfit
      refine h.set hi (h.distinct.new_of_live hi hlive rfl) fun uuid => ?_
      have hadd := toNat_ref_add_one (hfit va (mem_of_getElem? hi) rfl)
      rw [vaNet_added]
      change ((if va.uuid = uuid then (va.ref + 1).toNat else 0 : ℕ) : ℤ) =
        (if va.uuid = uuid then va.ref.toNat else 0 : ℕ) + _
      split <;> omega

/-! ## The labels of an address -/

/-- The places of the labels of an address, in the order of the table; the
unassigned address asks for all. -/
def vaSlots (addr : ℕ) (vas : List Va) : List ℕ :=
  vas.findIdxs fun va => decide (va.HasAddr addr)

theorem mem_vaSlots : i ∈ vaSlots addr vas ↔
      ∃ va, vas[i]? = some va ∧ va.ref ≠ 0 ∧ (va.addr = addr ∨ addr = 0) := by
  rw [vaSlots, mem_findIdxs_iff_exists_getElem_pos]
  constructor
  · rintro ⟨hlt, hhas⟩
    exact ⟨vas[i], getElem?_eq_getElem hlt, of_decide_eq_true hhas⟩
  · rintro ⟨va, hi, hhas⟩
    obtain ⟨hlt, rfl⟩ := List.getElem?_eq_some_iff.1 hi
    exact ⟨hlt, decide_eq_true hhas⟩

theorem vaUuidGetLoop_none (addr n : ℕ) (vas : List Va) :
    (vaUuidGetLoop addr none n vas).map VaFound.slot =
      (vas.findIdxs (fun va => decide (va.HasAddr addr)) n).head? := by
  induction vas generalizing n with
  | nil => rfl
  | cons va vas ih =>
    rw [vaUuidGetLoop, findIdxs_cons]
    by_cases hhas : va.HasAddr addr
    · rw [if_pos hhas, if_pos (decide_eq_true hhas)]
      rfl
    · rw [if_neg hhas, if_neg (by simpa using hhas), ih]

theorem vaUuidGetLoop_found {uuid : Option ℕ} {found : VaFound} (n : ℕ)
    (h : vaUuidGetLoop addr uuid n vas = some found) :
    ∃ j, found.slot = n + j ∧ vas[j]? = some found.va := by
  induction vas generalizing n uuid with
  | nil => exact nomatch h
  | cons va vas ih =>
    have hlater {uuid : Option ℕ} (h : vaUuidGetLoop addr uuid (n + 1) vas = some found) :
        ∃ j, found.slot = n + j ∧ (va :: vas)[j]? = some found.va := by
      obtain ⟨j, hslot, hj⟩ := ih (n + 1) h
      exact ⟨j + 1, by omega, hj⟩
    unfold vaUuidGetLoop at h
    split at h
    · split at h
      · obtain rfl := Option.some.inj h
        exact ⟨0, rfl, rfl⟩
      · exact hlater h
    · exact hlater h

theorem btMeshVaUuidGet_found {uuid : Option ℕ} {found : VaFound}
    (h : btMeshVaUuidGet addr uuid vas = some found) : vas[found.slot]? = some found.va := by
  unfold btMeshVaUuidGet at h
  split at h
  · obtain ⟨j, hslot, hj⟩ := vaUuidGetLoop_found 0 h
    rwa [hslot, Nat.zero_add]
  next i =>
    obtain ⟨j, hslot, hj⟩ := vaUuidGetLoop_found i h
    rwa [hslot, ← getElem?_drop]

theorem vaNext_of_suffix {rest : List ℕ} (h : i :: rest <:+ vaSlots addr vas) :
    vaNext addr vas (some i) = rest.head? := by
  obtain ⟨va, vas', -, hdrop, hhas, rfl⟩ := findIdxs_of_suffix h
  rw [Nat.sub_zero] at hdrop
  rw [vaNext, btMeshVaUuidGet, hdrop, vaUuidGetLoop, if_pos (of_decide_eq_true hhas),
    if_pos rfl, vaUuidGetLoop_none]

theorem vaSlots_visited (addr : ℕ) (vas : List Va) :
    Visits (vaNext addr vas) none (vaSlots addr vas) :=
  visits_of_suffix (vaUuidGetLoop_none addr 0 vas) fun _ _ => vaNext_of_suffix

theorem length_vaSlots_le (addr : ℕ) (vas : List Va) : (vaSlots addr vas).length ≤ vas.length := by
  rw [vaSlots, length_findIdxs]
  exact countP_le_length

/-! ## Decrypting with the labels of an address -/

section Decrypt

variable {α : Type*} (decrypt : Option Label → Except Err α)

/-- Decrypting with the label of an entry. -/
def openedWith (vas : List Va) (i : ℕ) : Option (α × Option ℕ) :=
  (vas[i]?.bind fun va => (decrypt (some va.uuid)).toOption).map (·, some i)

/-- The first of some labels that decrypts. -/
def firstOpened (vas : List Va) (l : List ℕ) : Except Err (α × Option ℕ) :=
  ((l.findSome? (openedWith decrypt vas)).elim (.error .noent) .ok)

theorem sduTryDecrypt_of_visits (hvirt : isVirtual addr = true) {ad : Option ℕ} {l : List ℕ}
    (h : Visits (vaNext addr vas) ad l) {fuel : ℕ} (hfuel : l.length < fuel) :
    sduTryDecrypt decrypt addr vas fuel ad = some (firstOpened decrypt vas l) := by
  induction h generalizing fuel with
  | done hnone =>
    obtain ⟨fuel, rfl⟩ := Nat.exists_eq_add_of_lt hfuel
    rw [sduTryDecrypt, if_pos hvirt, Option.map_eq_none_iff.1 hnone]
    rfl
  | @step ad i l hsome _ ih =>
    obtain ⟨fuel, rfl⟩ := Nat.exists_eq_add_of_lt hfuel
    obtain ⟨found, hfound, rfl⟩ := Option.map_eq_some_iff.1 hsome
    have hslot := btMeshVaUuidGet_found hfound
    have hopened : openedWith decrypt vas found.slot =
        (decrypt (some found.va.uuid)).toOption.map (·, some found.slot) := by
      rw [openedWith, hslot]
      rfl
    rw [sduTryDecrypt, if_pos hvirt, hfound, firstOpened, findSome?_cons, hopened]
    dsimp only
    cases decrypt (some found.va.uuid) with
    | ok sdu => rfl
    | error err =>
      refine ih ?_
      rw [length_cons]
      omega

end Decrypt

/-! ## Runs -/

/-- **How the labels of an address are gone through**: the calls of
`bt_mesh_va_uuid_get` from `NULL` on answer with `l` and then with `NULL`,
which has each label of the address once, in the order of the table, and
`sdu_try_decrypt` stops at the first of them that decrypts. -/
structure GoneThrough (addr : ℕ) (vas : List Va) (l : List ℕ) : Prop where
  visits : ∀ l', Visits (vaNext addr vas) none l' ↔ l' = l
  increasing : l.Pairwise (· < ·)
  mem : ∀ i, i ∈ l ↔ ∃ va, vas[i]? = some va ∧ va.ref ≠ 0 ∧ (va.addr = addr ∨ addr = 0)
  tried : ∀ (decrypt : Option Label → Except Err Bytes) (fuel : ℕ), vas.length < fuel →
    isVirtual addr = true →
      sduTryDecrypt decrypt addr vas fuel none = some (firstOpened decrypt vas l)

theorem goneThrough (addr : ℕ) (vas : List Va) : GoneThrough addr vas (vaSlots addr vas) where
  visits _ := ⟨fun h => h.unique (vaSlots_visited addr vas), fun h => h ▸ vaSlots_visited addr vas⟩
  increasing := pairwise_findIdxs
  mem _ := mem_vaSlots
  tried decrypt _ hfuel hvirt :=
    sduTryDecrypt_of_visits decrypt hvirt (vaSlots_visited addr vas)
      ((length_vaSlots_le addr vas).trans_lt hfuel)

theorem vaOk_init (labelCount : ℕ) : VaOk (vaInit labelCount) [] := by
  have hfree : ∀ va ∈ vaInit labelCount, va.ref = 0 := by
    intro va hmem
    rw [eq_of_mem_replicate hmem]
  refine ⟨fun i _ x _ hi _ hlive => ?_, fun va hmem hlive => ?_, fun _ _ => rfl⟩
  · exact absurd (hfree x (mem_of_getElem? hi)) hlive
  · exact absurd (hfree va hmem) hlive

/-- **Labels are counted until a count is full**: throughout a run the table
is right exactly if no call of it adds to a full count. And the labels of an
address are gone through in every table. -/
theorem labels_counted_iff (labelCount : ℕ) (es : List VaEvent) :
    ((∀ es', es' <+: es →
        VaOk (run vaStep (vaInit labelCount) es')
          (emitted vaStep vaBooked (vaInit labelCount) es')) ↔
      Along vaStep (fun vas e => e.Fits vas) (vaInit labelCount) es) ∧
    ∀ (addr : ℕ) (vas : List Va), ∃ l, GoneThrough addr vas l := by
  refine ⟨?_, fun addr vas => ⟨_, goneThrough addr vas⟩⟩
  have hstep (vas : List Va) (e : VaEvent) (log : List VaRef) (_ : True) (hok : VaOk vas log) :
      VaOk (vaStep vas e) (log ++ vaBooked vas e) ↔ e.Fits vas := vaOk_step_iff hok
  have h := log_prefix_iff_along vaBooked (fun _ => True) VaOk (fun _ _ _ => trivial) hstep trivial
    (vaOk_init labelCount) es
  simpa only [List.nil_append] using h

/-! ## A count that wraps around -/

/-- The label of zeros is added again and again. -/
def zeroAdds (n : ℕ) : List VaEvent := List.replicate n (.add .zero (some .zero))

/-- The entry of the label of zeros, with so many references. -/
def zeroEntry (n : ℕ) : Va := ⟨BitVec.ofNat 15 n, true, 0x8000, .zero⟩

theorem vaCall_zeroEntry (n : ℕ) : vaCall [zeroEntry n] (.add .zero (some .zero)) =
      { vas := [zeroEntry (n + 1)], entry := some 0 } := by
  have hnext : BitVec.ofNat 15 (n + 1) = BitVec.ofNat 15 n + 1 := BitVec.ofNat_add n 1
  rw [zeroEntry, zeroEntry, hnext]
  generalize BitVec.ofNat 15 n = ref
  by_cases hfree : ref = 0
  · subst hfree
    rfl
  · rw [vaCall, btMeshVaAdd, vaScan, if_neg hfree, if_pos rfl]
    rfl

theorem run_zeroAdds (n : ℕ) : run vaStep (vaInit 1) (zeroAdds (n + 1)) = [zeroEntry (n + 1)] ∧
      emitted vaStep vaBooked (vaInit 1) (zeroAdds (n + 1)) =
        List.replicate (n + 1) (.added .zero) := by
  induction n with
  | zero => decide
  | succ n ih =>
    obtain ⟨hrun, hlog⟩ := ih
    have hbooked : vaBooked [zeroEntry (n + 1)] (.add .zero (some .zero)) = [.added .zero] := by
      simp [vaBooked, vaCall_zeroEntry]
    rw [zeroAdds, replicate_succ', ← zeroAdds, run_append, emitted_append, hrun, hlog,
      run_cons, emitted_cons, hbooked, vaStep, vaCall_zeroEntry]
    exact ⟨rfl, replicate_succ'.symm⟩

/-- After 32769 additions the label has one reference. -/
theorem count_wraps :
    ∃ va, run vaStep (vaInit 1) (zeroAdds 32769) = [va] ∧ va.ref.toNat = 1 ∧
      vaNet (emitted vaStep vaBooked (vaInit 1) (zeroAdds 32769)) va.uuid = 32769 := by
  obtain ⟨hrun, hlog⟩ := run_zeroAdds 32768
  refine ⟨zeroEntry 32769, hrun, by decide, ?_⟩
  rw [hlog, vaNet, zeroEntry, List.count_replicate_self, List.count_replicate]
  rfl

end Mesh

end OpenBlue

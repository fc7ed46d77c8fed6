import OpenBlue.Gatt.Model.Db
import Mathlib.Data.List.Flatten
/-!
# GATT — what the iterator visits

The loops of `bt_gatt_foreach_attr_type`, against a visit of a list of
attributes (`visit`). The loops over services skip by the handles at their
ends, whatever the callback does, so that the two of them walk one list
(`Db.looked`); where the handles ascend, what they skip is below the range.
-/

namespace OpenBlue

namespace Gatt

open List UInt16

variable {α β σ : Type*} [DecidableEq β]

/-! ## Numbering -/

theorem number_append (handle : UInt16) (l₁ l₂ : List (Attr α)) :
    number handle (l₁ ++ l₂) = number handle l₁ ++ number (handle + ofNat l₁.length) l₂ := by
  induction l₁ generalizing handle with
  | nil => simp [number]
  | cons attr l₁ ih =>
    simp only [cons_append, number, ih, length_cons, List.cons.injEq, true_and]
    congr 2
    rw [ofNat_add, UInt16.add_assoc]
    congr 1
    exact UInt16.add_comm _ _

variable {handle : UInt16}

theorem toNat_succ (h : handle.toNat + 1 < 2 ^ 16) : (handle + 1).toNat = handle.toNat + 1 := by
  rw [UInt16.toNat_add]
  exact Nat.mod_eq_of_lt h

theorem mem_number {l : List (Attr α)} {x : Attr α × UInt16}
    (hfit : handle.toNat + l.length ≤ 2 ^ 16) (hx : x ∈ number handle l) :
    handle.toNat ≤ x.2.toNat ∧ x.2.toNat < handle.toNat + l.length := by
  induction l generalizing handle with
  | nil => simp [number] at hx
  | cons attr l ih =>
    simp only [number, mem_cons, length_cons] at hx hfit ⊢
    rcases hx with rfl | hx
    · exact ⟨Nat.le_refl _, Nat.lt_add_of_pos_right (Nat.succ_pos _)⟩
    · by_cases hl : l = []
      · simp [hl, number] at hx
      · have hlen : 0 < l.length := length_pos_iff.2 hl
        have hs : (handle + 1).toNat = handle.toNat + 1 := toNat_succ (by omega)
        have := ih (by omega) hx
        omega

theorem pairwise_number {l : List (Attr α)} (hfit : handle.toNat + l.length ≤ 2 ^ 16) :
    (number handle l).Pairwise (fun x y => x.2 < y.2) := by
  induction l generalizing handle with
  | nil => exact List.Pairwise.nil
  | cons attr l ih =>
    simp only [length_cons] at hfit
    by_cases hl : l = []
    · simp [hl, number]
    · have hlen : 0 < l.length := length_pos_iff.2 hl
      have hs : (handle + 1).toNat = handle.toNat + 1 := toNat_succ (by omega)
      refine pairwise_cons.2 ⟨fun y hy => ?_, ih (by omega)⟩
      have hlow := (mem_number (by omega) hy).1
      refine lt_iff_toNat_lt.2 ?_
      dsimp only
      omega

/-! ## The loops -/

/-- The callback over a list of attributes, until it stops. -/
def visit (func : AttrFunc α σ) : List (Attr α × UInt16) → σ → σ
  | [], s => s
  | (attr, handle) :: rest, s =>
    match func attr handle s with
    | (.stop, s) => s
    | (.continue, s) => visit func rest s

/-- **The filters**: the attribute is of the range, of the UUID if one is
given, and has the pointer if one is given. -/
def wanted (userData : α → β) (startHandle endHandle : UInt16) (uuid : Option Uuid)
    (attrData : Option β) (x : Attr α × UInt16) : Bool :=
  decide (startHandle ≤ x.2) && decide (x.2 ≤ endHandle) && uuid.all (fun u => u.same x.1.uuid) &&
    attrData.all (fun data => data = userData x.1.data)

section Foreach

variable {userData : α → β} {startHandle endHandle : UInt16} {uuid : Option Uuid}
  {attrData : Option β} {func : AttrFunc α σ}

theorem gattForeachAttrs_append (l₁ l₂ : List (Attr α × UInt16)) (n : UInt16) (s : σ) :
    gattForeachAttrs userData startHandle endHandle uuid attrData func (l₁ ++ l₂) n s =
      match gattForeachAttrs userData startHandle endHandle uuid attrData func l₁ n s with
      | (.stop, n, s) => (.stop, n, s)
      | (.continue, n, s) =>
        gattForeachAttrs userData startHandle endHandle uuid attrData func l₂ n s := by
  induction l₁ generalizing n s with
  | nil => rfl
  | cons x l₁ ih =>
    simp only [cons_append, gattForeachAttrs]
    rcases gattForeachIter userData startHandle endHandle uuid attrData func x.1 x.2 n s with
      ⟨_ | _, n', s'⟩
    · rfl
    · exact ih n' s'

theorem gattForeachIter_past {attr : Attr α} (h : endHandle < handle) (n : UInt16) (s : σ) :
    gattForeachIter userData startHandle endHandle uuid attrData func attr handle n s =
      (.stop, n, s) := by
  rw [gattForeachIter, if_pos h]

theorem gattForeachIter_unwanted {attr : Attr α} (h : ¬ endHandle < handle)
    (hw : wanted userData startHandle endHandle uuid attrData (attr, handle) = false)
    (n : UInt16) (s : σ) :
    gattForeachIter userData startHandle endHandle uuid attrData func attr handle n s =
      (.continue, n, s) := by
  rw [gattForeachIter, if_neg h]
  split
  · rfl
  next hstart =>
    have h₁ : startHandle ≤ handle := UInt16.not_lt.1 hstart
    have h₂ : handle ≤ endHandle := UInt16.not_lt.1 h
    split
    · rfl
    next huuid =>
      split
      · rfl
      next hdata => cases uuid <;> cases attrData <;> simp_all [wanted]

theorem gattForeachIter_wanted {attr : Attr α}
    (hw : wanted userData startHandle endHandle uuid attrData (attr, handle) = true)
    (n : UInt16) (s : σ) :
    gattForeachIter userData startHandle endHandle uuid attrData func attr handle n s =
      (if n - 1 = 0 then .stop else (func attr handle s).1, n - 1, (func attr handle s).2) := by
  simp only [wanted, Bool.and_eq_true, decide_eq_true_eq] at hw
  obtain ⟨⟨⟨h₁, h₂⟩, huuid⟩, hdata⟩ := hw
  rw [gattForeachIter, if_neg (UInt16.not_lt.2 h₂), if_neg (UInt16.not_lt.2 h₁), if_neg, if_neg]
  · cases attrData <;> simp_all
  · cases uuid <;> simp_all

theorem not_wanted {x : Attr α × UInt16} (h : startHandle ≤ x.2 → ¬ x.2 ≤ endHandle) :
    ¬ wanted userData startHandle endHandle uuid attrData x = true := by
  simp only [wanted, Bool.and_eq_true, decide_eq_true_eq, not_and]
  tauto

/-- **The loop over attributes is a visit** of those wanted, up to the first
past the range, and of as many as matches are asked for. -/
theorem gattForeachAttrs_visit (l : List (Attr α × UInt16)) {n : UInt16} (hn : n ≠ 0) (s : σ) :
    (gattForeachAttrs userData startHandle endHandle uuid attrData func l n s).2.2 =
      visit func (((l.takeWhile fun x => decide (x.2 ≤ endHandle)).filter
        (wanted userData startHandle endHandle uuid attrData)).take n.toNat) s := by
  induction l generalizing n s with
  | nil => simp [gattForeachAttrs, visit]
  | cons x l ih =>
    rw [gattForeachAttrs]
    by_cases hend : endHandle < x.2
    · rw [gattForeachIter_past hend, takeWhile_cons_of_neg (by simpa using hend),
        filter_nil, take_nil, visit]
    rw [takeWhile_cons_of_pos (by simpa using hend)]
    rcases hw : wanted userData startHandle endHandle uuid attrData x with _ | _
    · rw [gattForeachIter_unwanted hend hw, filter_cons_of_neg (by simp [hw])]
      exact ih hn s
    · have hpos : n.toNat ≠ 0 := fun h => hn (UInt16.toNat_inj.1 h)
      have hpred : (n - 1).toNat = n.toNat - 1 := by
        rw [UInt16.toNat_sub_of_le _ _ (le_iff_toNat_le.2 (by simp; omega))]
        rfl
      obtain ⟨m, hm⟩ := Nat.exists_eq_succ_of_ne_zero hpos
      rw [gattForeachIter_wanted hw, filter_cons_of_pos hw, hm, take_succ_cons, visit]
      rcases hf : func x.1 x.2 s with ⟨r, s'⟩
      by_cases hlast : n - 1 = 0
      · have hm0 : m = 0 := by
          have := congrArg UInt16.toNat hlast
          simp at this
          omega
        cases r <;> simp [hlast, hm0, visit]
      · cases r with
        | stop => simp [hlast]
        | «continue» =>
          have hm' : (n - 1).toNat = m := by omega
          simp only [hlast, if_false]
          rw [ih hlast s', hm']

/-! ## The attributes that are looked at -/

/-- The numbered attributes of the static services that are not skipped. -/
def staticAttrs (startHandle : UInt16) : UInt16 → List (List (Attr α)) → List (Attr α × UInt16)
  | _, [] => []
  | handle, svc :: rest =>
    (if handle.toNat + svc.length < startHandle.toNat then [] else number handle svc) ++
      staticAttrs startHandle (handle + UInt16.ofNat svc.length) rest

/-- The attributes of the registered services that are not left out. -/
def dyndbAttrs (startHandle : UInt16) : List (List (Attr α)) → List (Attr α × UInt16)
  | [] => []
  | svc :: rest =>
    (if rest.head?.any (fun next => firstHandle next ≤ startHandle) then [] else carried svc) ++
      dyndbAttrs startHandle rest

/-- The attributes that the iterator looks at from a handle on. -/
def Db.looked (d : Db α) (startHandle : UInt16) : List (Attr α × UInt16) :=
  (if startHandle ≤ d.statics.lastStaticHandle then staticAttrs startHandle 1 d.statics.svcs
    else []) ++ dyndbAttrs startHandle d.dynamics

theorem foreachAttrTypeStatic_eq (svcs : List (List (Attr α))) (handle n : UInt16) (s : σ) :
    foreachAttrTypeStatic userData startHandle endHandle uuid attrData func svcs handle n s =
      gattForeachAttrs userData startHandle endHandle uuid attrData func
        (staticAttrs startHandle handle svcs) n s := by
  induction svcs generalizing handle n s with
  | nil => rfl
  | cons svc svcs ih =>
    rw [foreachAttrTypeStatic, staticAttrs, gattForeachAttrs_append]
    split
    · exact ih _ n s
    · rcases gattForeachAttrs userData startHandle endHandle uuid attrData func
        (number handle svc) n s with ⟨_ | _, n', s'⟩
      · rfl
      · exact ih _ n' s'

theorem foreachAttrTypeDyndb_eq (svcs : List (List (Attr α))) (n : UInt16) (s : σ) :
    foreachAttrTypeDyndb userData startHandle endHandle uuid attrData func svcs n s =
      (gattForeachAttrs userData startHandle endHandle uuid attrData func
        (dyndbAttrs startHandle svcs) n s).2.2 := by
  induction svcs generalizing n s with
  | nil => rfl
  | cons svc svcs ih =>
    rw [foreachAttrTypeDyndb, dyndbAttrs, gattForeachAttrs_append]
    split
    · exact ih n s
    · rcases gattForeachAttrs userData startHandle endHandle uuid attrData func (carried svc) n s
        with ⟨_ | _, n', s'⟩
      · rfl
      · exact ih n' s'

/-- **In any database the iterator is a visit** of what is wanted of the
attributes it looks at, up to the first past the range. -/
theorem Db.btGattForeachAttrType_visit (d : Db α) (n : UInt16) (s : σ) :
    d.btGattForeachAttrType userData startHandle endHandle uuid attrData func n s =
      visit func ((((d.looked startHandle).takeWhile fun x => decide (x.2 ≤ endHandle)).filter
        (wanted userData startHandle endHandle uuid attrData)).take
          (if n = 0 then 0xffff else n).toNat) s := by
  have hn : (if n = 0 then (0xffff : UInt16) else n) ≠ 0 := by
    split
    next => decide
    next hn => exact hn
  rw [← gattForeachAttrs_visit _ hn, Db.looked, gattForeachAttrs_append, btGattForeachAttrType]
  split
  · rw [foreachAttrTypeStatic_eq]
    rcases gattForeachAttrs userData startHandle endHandle uuid attrData func
      (staticAttrs startHandle 1 d.statics.svcs) (if n = 0 then 0xffff else n) s with ⟨_ | _, n', s'⟩
    · rfl
    · exact foreachAttrTypeDyndb_eq d.dynamics n' s'
  · exact foreachAttrTypeDyndb_eq d.dynamics _ s

theorem staticAttrs_sublist (handle : UInt16) (svcs : List (List (Attr α))) :
    (staticAttrs startHandle handle svcs).Sublist (number handle svcs.flatten) := by
  induction svcs generalizing handle with
  | nil => exact nil_sublist _
  | cons svc svcs ih =>
    rw [staticAttrs, flatten_cons, number_append]
    refine List.Sublist.append ?_ (ih _)
    split
    · exact nil_sublist _
    · exact List.Sublist.refl _

theorem dyndbAttrs_sublist (svcs : List (List (Attr α))) :
    (dyndbAttrs startHandle svcs).Sublist (svcs.flatMap carried) := by
  induction svcs with
  | nil => exact nil_sublist _
  | cons svc svcs ih =>
    rw [dyndbAttrs, flatMap_cons]
    refine List.Sublist.append ?_ ih
    split
    · exact nil_sublist _
    · exact List.Sublist.refl _

theorem filter_staticAttrs {svcs : List (List (Attr α))}
    (hfit : handle.toNat + svcs.flatten.length ≤ 2 ^ 16) :
    (staticAttrs startHandle handle svcs).filter
        (wanted userData startHandle endHandle uuid attrData) = (number handle svcs.flatten).filter
        (wanted userData startHandle endHandle uuid attrData) := by
  induction svcs generalizing handle with
  | nil => rfl
  | cons svc svcs ih =>
    simp only [flatten_cons, length_append] at hfit
    have hfit' : (handle + ofNat svc.length).toNat + svcs.flatten.length ≤ 2 ^ 16 := by
      rw [UInt16.toNat_add, toNat_ofNat']
      by_cases hne : svcs.flatten = []
      · rw [hne, length_nil]
        omega
      · have : 0 < svcs.flatten.length := length_pos_iff.2 hne
        omega
    rw [staticAttrs, flatten_cons, number_append, filter_append, filter_append, ih hfit']
    split
    next hskip =>
      refine congrArg (· ++ _) (Eq.symm (filter_eq_nil_iff.2 fun x hx => ?_))
      have hnum := mem_number (by omega) hx
      refine not_wanted fun hstart => ?_
      rw [le_iff_toNat_le] at hstart
      omega
    next => rfl

theorem firstHandle_mem {svc : List (Attr α)} (hne : svc ≠ []) :
    ∃ attr ∈ svc, firstHandle svc = attr.handle := by
  obtain ⟨attr, rest, rfl⟩ := exists_cons_of_ne_nil hne
  exact ⟨attr, by simp, rfl⟩

theorem filter_dyndbAttrs {svcs : List (List (Attr α))} (hne : ∀ svc ∈ svcs, svc ≠ [])
    (hl : (svcs.flatMap carried).Pairwise (fun x y => x.2 < y.2)) :
    (dyndbAttrs startHandle svcs).filter (wanted userData startHandle endHandle uuid attrData) =
      (svcs.flatMap carried).filter (wanted userData startHandle endHandle uuid attrData) := by
  induction svcs with
  | nil => rfl
  | cons svc svcs ih =>
    rw [flatMap_cons, pairwise_append] at hl
    rw [dyndbAttrs, flatMap_cons, filter_append, filter_append,
      ih (fun t ht => hne t (mem_cons_of_mem _ ht)) hl.2.1]
    split
    next hskip =>
      refine congrArg (· ++ _) (Eq.symm (filter_eq_nil_iff.2 fun x hx => ?_))
      obtain ⟨next, hnext, hfirst⟩ : ∃ next ∈ svcs, firstHandle next ≤ startHandle := by
        cases svcs with
        | nil => simp at hskip
        | cons next rest => exact ⟨next, by simp, by simpa using hskip⟩
      obtain ⟨attr, hattr, heq⟩ := firstHandle_mem (hne next (by simp [hnext]))
      have hlt := hl.2.2 x hx (attr, attr.handle)
        (mem_flatMap.2 ⟨next, hnext, mem_map.2 ⟨attr, hattr, rfl⟩⟩)
      exact not_wanted fun hstart =>
        absurd (UInt16.lt_of_lt_of_le hlt (heq ▸ hfirst)) (UInt16.not_lt.2 hstart)
    next => rfl

theorem filter_takeWhile {l : List (Attr α × UInt16)} (hl : l.Pairwise (fun x y => x.2 < y.2)) :
    (l.takeWhile fun x => decide (x.2 ≤ endHandle)).filter
        (wanted userData startHandle endHandle uuid attrData) =
      l.filter (wanted userData startHandle endHandle uuid attrData) := by
  induction l with
  | nil => rfl
  | cons x l ih =>
    obtain ⟨hx, hl⟩ := pairwise_cons.1 hl
    by_cases hend : x.2 ≤ endHandle
    · rw [takeWhile_cons_of_pos (by simpa using hend), filter_cons, filter_cons, ih hl]
    · rw [takeWhile_cons_of_neg (by simpa using hend)]
      refine Eq.symm (filter_eq_nil_iff.2 fun y hy => not_wanted fun _ hle => hend ?_)
      rcases mem_cons.1 hy with rfl | hy
      · exact hle
      · exact UInt16.le_of_lt (UInt16.lt_of_lt_of_le (hx y hy) hle)

end Foreach

end Gatt

end OpenBlue

import OpenBlue.Common.Run
import OpenBlue.Gatt.Foreach
import Mathlib.Data.List.Nodup
import Mathlib.Data.List.Perm.Subperm
/-!
# GATT — the order of the database

Handles ascend through the static services and then, in the order of the
list, through the registered ones (`Db.Ordered`). In a database so
ordered the iterator visits exactly the attributes of its range, in
ascending order (`visit_wanted`), whatever it skips on the way.
Registration keeps the order where the handles of the new service fit
behind the last one or whole into a gap (`Db.Places`); elsewhere it
accepts services that overlap, that descend, or that it links nowhere.
-/

namespace OpenBlue

namespace Gatt

open List UInt16 Db Attr Statics

variable {α σ : Type*}

/-! ## The iterator -/

/-- The attribute is of the range, and of the UUID if one is given. -/
def selected (startHandle endHandle : UInt16) (uuid : Option Uuid) (x : Attr α × UInt16) : Bool :=
  decide (startHandle ≤ x.2) && decide (x.2 ≤ endHandle) && uuid.all (fun u => u.same x.1.uuid)

section Foreach

variable {startHandle endHandle : UInt16} {uuid : Option Uuid} {func : AttrFunc α σ}

/-- A loop that has not been stopped has kept `P`; one that has may have
come to `Q` in its last call. -/
def Kept (P Q : σ → Prop) (r : Iter × UInt16 × σ) : Prop :=
  (r.1 = .continue → P r.2.2) ∧ (P r.2.2 ∨ Q r.2.2)

/-- What the callback does to `P` and `Q` at an attribute of the range. -/
def Keeps (startHandle endHandle : UInt16) (uuid : Option Uuid) (func : AttrFunc α σ)
    (P Q : σ → Prop) : Prop :=
  ∀ attr handle s, selected startHandle endHandle uuid (attr, handle) → P s →
    Kept P Q ((func attr handle s).1, 0, (func attr handle s).2)

section Rule

variable {P Q : σ → Prop}

theorem kept_of_keep {v : Iter} {n : UInt16} {s : σ} (hs : P s) : Kept P Q (v, n, s) :=
  ⟨fun _ => hs, Or.inl hs⟩

/-- **The rule of the iterator**, in any database: what every call of the
callback keeps as long as it goes on holds at the end, or what the call
that stopped it has left. -/
theorem Db.foreachAttrType_kept (d : Db α) (hf : Keeps startHandle endHandle uuid func P Q)
    (n : UInt16) {s : σ} (hs : P s) : P (d.foreachAttrType startHandle endHandle uuid func n s) ∨
      Q (d.foreachAttrType startHandle endHandle uuid func n s) := by
  have hvisit : ∀ (l : List (Attr α × UInt16)), (∀ x ∈ l, selected startHandle endHandle uuid x) →
      ∀ {s}, P s → P (visit func l s) ∨ Q (visit func l s) := by
    intro l hl s hs
    induction l generalizing s with
    | nil => exact .inl hs
    | cons x l ih =>
      have hx := hf x.1 x.2 s (hl x mem_cons_self) hs
      rw [visit]
      split
      next heq => simpa [heq] using hx.2
      next heq =>
        exact ih (fun y hy => hl y (mem_cons_of_mem _ hy)) (by simpa [heq] using hx.1)
  rw [Db.foreachAttrType, Db.btGattForeachAttrType_visit]
  refine hvisit _ (fun x hx => ?_) hs
  simpa [wanted, selected] using (mem_filter.1 (mem_of_mem_take hx)).2

end Rule

section Map

variable {g : σ → σ}

/-- The callback does not look at what `g` changes. -/
def Passes (func : AttrFunc α σ) (g : σ → σ) : Prop :=
  ∀ attr handle s, func attr handle (g s) = ((func attr handle s).1, g (func attr handle s).2)

/-- **What the callback does not look at passes through the iterator.** -/
theorem Db.foreachAttrType_map (d : Db α) (hg : Passes func g) (n : UInt16) (s : σ) :
    d.foreachAttrType startHandle endHandle uuid func n (g s) =
      g (d.foreachAttrType startHandle endHandle uuid func n s) := by
  have hvisit : ∀ (l : List (Attr α × UInt16)) (s : σ), visit func l (g s) = g (visit func l s) := by
    intro l s
    induction l generalizing s with
    | nil => rfl
    | cons x l ih =>
      rw [visit, visit, hg]
      rcases func x.1 x.2 s with ⟨_ | _, s'⟩
      · rfl
      · exact ih s'
  simp only [Db.foreachAttrType, Db.btGattForeachAttrType_visit, hvisit]

end Map

end Foreach

/-! ## The ordered database -/

/-- All attributes of the database with their handles, in the order of the
services. -/
def Db.all (d : Db α) : List (Attr α × UInt16) :=
  number 1 d.statics.svcs.flatten ++ d.dynamics.flatMap carried

/-- **The database order**: no service is empty, and the handles ascend
from the first static attribute to the last registered one. -/
structure Db.Ordered (d : Db α) : Prop where
  nonempty : ∀ svc ∈ d.db, d.attrs svc ≠ []
  ascending : d.all.Pairwise (fun x y => x.2 < y.2)
  positive : ∀ x ∈ d.all, x.2 ≠ 0

theorem Statics.lastStaticHandle_toNat (st : Statics α) :
    st.lastStaticHandle.toNat = st.svcs.flatten.length := by
  rw [Statics.lastStaticHandle, toNat_ofNat', length_flatten]
  exact Nat.mod_eq_of_lt st.fits

theorem Statics.fits_one (st : Statics α) :
    (1 : UInt16).toNat + st.svcs.flatten.length ≤ 2 ^ 16 := by
  have h := st.fits
  rw [← length_flatten] at h
  simp only [toNat_one]
  omega

variable {x : Attr α × UInt16}

theorem Statics.mem_numbered {st : Statics α} (hx : x ∈ number 1 st.svcs.flatten) :
    0 < x.2.toNat ∧ x.2 ≤ st.lastStaticHandle := by
  have h := mem_number st.fits_one hx
  rw [le_iff_toNat_le, st.lastStaticHandle_toNat]
  simp only [toNat_one] at h
  omega

theorem Db.Ordered.length_le {d : Db α} (h : d.Ordered) : d.all.length < 2 ^ 16 := by
  have hnodup : (d.all.map fun x => x.2.toNat).Nodup := by
    refine List.Pairwise.map _ (fun a b hab => ?_) h.ascending
    exact (lt_iff_toNat_lt.1 hab).ne
  have hsub : (d.all.map fun x => x.2.toNat) ⊆ range' 1 (2 ^ 16 - 1) := by
    intro n hn
    obtain ⟨x, hx, rfl⟩ := mem_map.1 hn
    have hpos : x.2.toNat ≠ 0 := fun hz => h.positive x hx (UInt16.toNat_inj.1 hz)
    have := x.2.toNat_lt
    exact mem_range'_1.2 ⟨by omega, by omega⟩
  have hlen := (subperm_of_subset hnodup hsub).length_le
  rw [length_map, length_range'] at hlen
  omega

/-- **The iterator visits what its filters leave**, in ascending order, as
many as matches are asked for. -/
theorem Db.Ordered.visit_wanted {β : Type*} [DecidableEq β] {d : Db α} (h : d.Ordered)
    (userData : α → β) (startHandle endHandle : UInt16) (uuid : Option Uuid) (attrData : Option β)
    (func : AttrFunc α σ) (n : UInt16) (s : σ) :
    d.btGattForeachAttrType userData startHandle endHandle uuid attrData func n s =
      visit func ((d.all.filter (wanted userData startHandle endHandle uuid attrData)).take
        (if n = 0 then 0xffff else n).toNat) s := by
  have hne : ∀ svc ∈ d.dynamics, svc ≠ [] := by
    intro svc hsvc
    obtain ⟨p, hp, rfl⟩ := mem_map.1 hsvc
    exact h.nonempty p hp
  have hsub : (d.looked startHandle).Sublist d.all := by
    refine List.Sublist.append ?_ (dyndbAttrs_sublist d.dynamics)
    split
    · exact staticAttrs_sublist 1 d.statics.svcs
    · exact nil_sublist _
  have hstatic : (if startHandle ≤ d.statics.lastStaticHandle then
      staticAttrs startHandle 1 d.statics.svcs else []).filter
        (wanted userData startHandle endHandle uuid attrData) =
      (number 1 d.statics.svcs.flatten).filter
        (wanted userData startHandle endHandle uuid attrData) := by
    split
    next => exact filter_staticAttrs d.statics.fits_one
    next hlast =>
      refine Eq.symm (filter_eq_nil_iff.2 fun x hx => not_wanted fun hstart => absurd ?_ hlast)
      exact UInt16.le_trans hstart (mem_numbered hx).2
  rw [Db.btGattForeachAttrType_visit, filter_takeWhile (h.ascending.sublist hsub), Db.looked,
    Db.all, filter_append, filter_append, hstatic,
    filter_dyndbAttrs hne (pairwise_append.1 h.ascending).2.1]

/-- The attributes that the callback is called for, up to the first for
which it stops. -/
def called (func : AttrFunc α σ) : List (Attr α × UInt16) → σ → List (Attr α × UInt16)
  | [], _ => []
  | (attr, handle) :: rest, s =>
    (attr, handle) :: match func attr handle s with
      | (.stop, _) => []
      | (.continue, s) => called func rest s

/-- The callback, with a log of its calls. -/
def logged (func : AttrFunc α σ) : AttrFunc α (List (Attr α × UInt16) × σ) :=
  fun attr handle s =>
    ((func attr handle s.2).1, s.1 ++ [(attr, handle)], (func attr handle s.2).2)

theorem visit_logged (func : AttrFunc α σ) (l log : List (Attr α × UInt16)) (s : σ) :
    visit (logged func) l (log, s) = (log ++ called func l s, visit func l s) := by
  induction l generalizing log s with
  | nil => simp [visit, called]
  | cons x l ih =>
    rcases hf : func x.1 x.2 s with ⟨_ | _, s'⟩
    · simp [visit, called, logged, hf]
    · simp [visit, called, logged, hf, ih]

/-- As many of the matches as are asked for: all of them, for 0. -/
def asked {γ : Type*} (n : UInt16) (l : List γ) : List γ := if n = 0 then l else l.take n.toNat

theorem Db.Ordered.take_matches {d : Db α} (h : d.Ordered) (p : Attr α × UInt16 → Bool)
    (n : UInt16) :
    (d.all.filter p).take (if n = 0 then 0xffff else n).toNat = asked n (d.all.filter p) := by
  rw [asked]
  split
  · have := length_filter_le p d.all
    have := h.length_le
    rw [take_of_length_le]
    simp only [toNat_ofNat]
    omega
  · rfl

/-- **Filtered iteration**: in an ordered database the callback is called
for the matches in ascending order of their handles, as many as are asked
for, and not again once it has stopped. -/
theorem foreach_attr_type_calls {β : Type*} [DecidableEq β] {d : Db α} (h : d.Ordered)
    (userData : α → β) (startHandle endHandle : UInt16) (uuid : Option Uuid) (attrData : Option β)
    (func : AttrFunc α σ) (n : UInt16) (s : σ) :
    let found := asked n (d.all.filter (wanted userData startHandle endHandle uuid attrData))
    d.btGattForeachAttrType userData startHandle endHandle uuid attrData func n s =
        visit func found s ∧
      d.btGattForeachAttrType userData startHandle endHandle uuid attrData (logged func) n
        ([], s) = (called func found s, visit func found s) ∧
      found.Pairwise (fun x y => x.2 < y.2) := by
  refine ⟨by rw [h.visit_wanted, h.take_matches], ?_, ?_⟩
  · rw [h.visit_wanted, h.take_matches, visit_logged, List.nil_append]
  · rw [asked]
    split
    · exact h.ascending.filter _
    · exact (h.ascending.filter _).sublist (List.take_sublist _ _)

/-- A range that starts inside a static service and ends inside the second
registered one, with a gap between them. -/
theorem foreach_attr_type_calls_sample :
    let attr : ℕ → UInt16 → Attr ℕ := fun data handle => ⟨.u16 0x2902, handle, false, data⟩
    let d : Db ℕ :=
      { statics := ⟨[[attr 1 0, attr 2 0], [attr 1 0]], by decide⟩
        attrs := fun svc => if svc = 0 then [attr 1 5, attr 2 6] else [attr 1 9, attr 1 11]
        db := [0, 1] }
    let found := asked 2 (d.all.filter (wanted id 2 9 (some (.u16 0x2902)) (some 1)))
    let func : AttrFunc ℕ ℕ := fun _ _ s => (.continue, s + 1)
    found.map Prod.snd = [3, 5] ∧
    d.btGattForeachAttrType id 2 9 (some (.u16 0x2902)) (some 1) func 2 0 = visit func found 0 ∧
      d.btGattForeachAttrType id 2 9 (some (.u16 0x2902)) (some 1) (logged func) 2 ([], 0) =
        (called func found 0, visit func found 0) ∧
      found.Pairwise (fun x y => x.2 < y.2) := by
  intro attr d found func
  exact ⟨by decide, foreach_attr_type_calls (d := d) ⟨by decide, by decide, by decide⟩ id 2 9
    (some (.u16 0x2902)) (some 1) func 2 0⟩

/-- **The iterator visits the attributes of its range**, in ascending
order, as many as matches are asked for. -/
theorem Db.Ordered.foreachAttrType_eq {d : Db α} (h : d.Ordered) {startHandle endHandle : UInt16}
    (uuid : Option Uuid) (func : AttrFunc α σ) (n : UInt16) (s : σ) :
    d.foreachAttrType startHandle endHandle uuid func n s =
      visit func ((d.all.filter (selected startHandle endHandle uuid)).take
        (if n = 0 then 0xffff else n).toNat) s := by
  have hsel : wanted (fun _ : α => ()) startHandle endHandle uuid none =
      selected startHandle endHandle uuid := by
    funext x
    simp [wanted, selected]
  rw [Db.foreachAttrType, h.visit_wanted, hsel]

theorem Db.Ordered.foreachAttr_eq {d : Db α} (h : d.Ordered) {startHandle endHandle : UInt16}
    (func : AttrFunc α σ) (s : σ) : d.foreachAttr startHandle endHandle func s =
      visit func (d.all.filter (selected startHandle endHandle none)) s := by
  rw [Db.foreachAttr, h.foreachAttrType_eq, h.take_matches]
  rfl

/-- **Two attributes of one handle are one.** -/
theorem Db.Ordered.handle_inj {d : Db α} (h : d.Ordered) {y : Attr α × UInt16} (hx : x ∈ d.all)
    (hy : y ∈ d.all) (heq : x.2 = y.2) : x = y := by
  have hnodup : (d.all.map Prod.snd).Nodup := by
    refine List.Pairwise.map _ (fun a b hab => ?_) h.ascending
    exact fun e => UInt16.lt_irrefl _ (e ▸ hab)
  exact inj_on_of_nodup_map hnodup hx hy heq

theorem Db.Ordered.filter_single {d : Db α} (h : d.Ordered)
    (hx : x ∈ d.all) : d.all.filter (selected x.2 x.2 none) = [x] := by
  have hsel : ∀ y : Attr α × UInt16, selected x.2 x.2 none y = true ↔ y.2 = x.2 := by
    intro y
    simp only [selected, Option.all_none, Bool.and_true, Bool.and_eq_true, decide_eq_true_eq]
    exact ⟨fun hy => UInt16.le_antisymm hy.2 hy.1,
      fun hy => hy ▸ ⟨UInt16.le_refl _, UInt16.le_refl _⟩⟩
  have hnodup : d.all.Nodup := by
    refine List.Pairwise.imp (fun {a b} hab => ?_) h.ascending
    rintro rfl
    exact UInt16.lt_irrefl _ hab
  obtain ⟨l₁, l₂, hsplit⟩ := append_of_mem hx
  have hnone : ∀ y ∈ l₁ ++ l₂, ¬ selected x.2 x.2 none y = true := by
    intro y hy hyx
    have hmem : y ∈ d.all := by
      rw [hsplit]
      simp only [mem_append, mem_cons] at hy ⊢
      tauto
    obtain rfl := h.handle_inj hmem hx ((hsel y).1 hyx)
    rw [hsplit] at hnodup
    exact (nodup_middle.1 hnodup).notMem hy
  rw [hsplit, filter_append, filter_cons_of_pos ((hsel x).2 rfl),
    filter_eq_nil_iff.2 fun y hy => hnone y (by simp [hy]),
    filter_eq_nil_iff.2 fun y hy => hnone y (by simp [hy])]
  rfl

theorem Db.Ordered.foreachAttr_single {d : Db α} (h : d.Ordered)
    (hx : x ∈ d.all) (func : AttrFunc α σ) (s : σ) :
    d.foreachAttr x.2 x.2 func s = (func x.1 x.2 s).2 := by
  rw [h.foreachAttr_eq, h.filter_single hx]
  simp only [visit]
  split
  next heq => rw [heq]
  next heq => rw [heq]

/-- **A lookup finds exactly the handles of the database.** -/
theorem Db.Ordered.findAttr_isSome {d : Db α} (h : d.Ordered) (handle : UInt16) :
    (d.findAttr handle).isSome ↔ ∃ x ∈ d.all, x.2 = handle := by
  rw [Db.findAttr, h.foreachAttr_eq]
  have hmem : ∀ x, x ∈ d.all.filter (selected handle handle none) ↔ x ∈ d.all ∧ x.2 = handle := by
    intro x
    simp only [mem_filter, selected, Option.all_none, Bool.and_true, Bool.and_eq_true,
      decide_eq_true_eq]
    exact and_congr_right fun _ =>
      ⟨fun hx => UInt16.le_antisymm hx.2 hx.1, fun hx => hx ▸ ⟨UInt16.le_refl _, UInt16.le_refl _⟩⟩
  rcases hfilter : d.all.filter (selected handle handle none) with _ | ⟨x, rest⟩
  · rw [hfilter] at hmem
    simp only [visit, Option.isSome_none, Bool.false_eq_true, false_iff, not_exists]
    exact fun x hx => by simpa using (hmem x).2 hx
  · rw [hfilter] at hmem
    simp only [visit, Option.isSome_some, true_iff]
    exact ⟨x, (hmem x).1 (by simp)⟩

/-! ## Where a service fits -/

/-- The handles fit behind `last`: those given ascend from it, and those
left open find room. -/
def FitsBehind : UInt16 → List (Attr α) → Prop
  | _, [] => True
  | last, attr :: rest =>
    if attr.handle = 0 then last.toNat + 1 < 2 ^ 16 ∧ FitsBehind (last + 1) rest
    else last < attr.handle ∧ FitsBehind attr.handle rest

instance FitsBehind.decidable :
    ∀ (last : UInt16) (attrs : List (Attr α)), Decidable (FitsBehind last attrs)
  | _, [] => .isTrue trivial
  | last, attr :: rest =>
    have := FitsBehind.decidable (last + 1) rest
    have := FitsBehind.decidable attr.handle rest
    inferInstanceAs (Decidable (if attr.handle = 0 then
      last.toNat + 1 < 2 ^ 16 ∧ FitsBehind (last + 1) rest
      else last < attr.handle ∧ FitsBehind attr.handle rest))

/-- The handles are all given, ascend, and lie in a gap before one of the
registered services, clear of the ranges of all of them. -/
def Db.FitsGap (d : Db α) (attrs : List (Attr α)) : Prop :=
  (attrs.map Attr.handle).Pairwise (· < ·) ∧
  d.statics.lastStaticHandle < firstHandle attrs ∧
  (∃ svc ∈ d.db, lastHandle attrs < firstHandle (d.attrs svc)) ∧
  ∀ svc ∈ d.db, lastHandle attrs < firstHandle (d.attrs svc) ∨
    lastHandle (d.attrs svc) < firstHandle attrs

instance (d : Db α) : DecidablePred d.FitsGap := fun attrs =>
  inferInstanceAs (Decidable ((attrs.map Attr.handle).Pairwise (· < ·) ∧ _ ∧ _ ∧ _))

/-- A handle given is taken already, and none before it is left open. -/
def Db.Clashes (d : Db α) : List (Attr α) → Prop
  | [] => False
  | attr :: rest => attr.handle ≠ 0 ∧ ((∃ x ∈ d.all, x.2 = attr.handle) ∨ d.Clashes rest)

instance Db.Clashes.decidable (d : Db α) : DecidablePred d.Clashes
  | [] => .isFalse not_false
  | _ :: rest =>
    have := Db.Clashes.decidable d rest
    inferInstanceAs (Decidable (_ ∧ (_ ∨ _)))

/-- The stack turns the registration down before it looks at the handles. -/
def Db.TurnedDown (d : Db α) (stage : Stage) (svc : Svc) : Prop :=
  (stage.settings ∧ stage.initialized ∧ ¬ stage.scLoad) ∨
  (d.attrs svc).head?.any fun attr => attr.uuid.same uuidGap || attr.uuid.same uuidGatt

/-- The condition on a registration: the service fits behind the last one
or into a gap, or it is refused before a handle is assigned. -/
def Db.Places (d : Db α) : Event α → Prop
  | .register stage svc =>
    d.TurnedDown stage svc ∨ FitsBehind d.lastDbHandle (d.attrs svc) ∨
      d.FitsGap (d.attrs svc) ∨ d.Clashes (d.attrs svc)
  | _ => True

instance (d : Db α) (stage : Stage) (svc : Svc) : Decidable (d.TurnedDown stage svc) :=
  inferInstanceAs (Decidable ((_ ∧ _ ∧ _) ∨ _))

instance (d : Db α) : DecidablePred d.Places
  | .register stage svc => inferInstanceAs (Decidable (d.TurnedDown stage svc ∨
      FitsBehind d.lastDbHandle (d.attrs svc) ∨ d.FitsGap (d.attrs svc) ∨
        d.Clashes (d.attrs svc)))
  | .fill _ _ => .isTrue trivial
  | .unregister _ => .isTrue trivial

/-! ## What registration does -/

@[simp] theorem Db.put_db (d : Db α) (svc : Svc) (attrs : List (Attr α)) :
    (d.put svc attrs).db = d.db := rfl

@[simp] theorem Db.put_attrs (d : Db α) (svc : Svc) (attrs : List (Attr α)) :
    (d.put svc attrs).attrs svc = attrs := by simp [Db.put]

theorem Db.put_attrs_ne {d : Db α} {svc t : Svc} (attrs : List (Attr α)) (h : t ≠ svc) :
    (d.put svc attrs).attrs t = d.attrs t := by simp [Db.put, h]

/-- The databases link the same services with the same handles. -/
structure Db.SameHandles (d d' : Db α) : Prop where
  statics : d'.statics = d.statics
  db : d'.db = d.db
  handles : ∀ svc, (d'.attrs svc).map Attr.handle = (d.attrs svc).map Attr.handle

theorem Db.SameHandles.rfl {d : Db α} : d.SameHandles d := ⟨Eq.refl _, Eq.refl _, fun _ => Eq.refl _⟩

variable {attrs : List (Attr α)}

theorem Db.sameHandles_put {d : Db α} {svc : Svc}
    (h : attrs.map Attr.handle = (d.attrs svc).map Attr.handle) : d.SameHandles (d.put svc attrs) where
  statics := Eq.refl _
  db := Eq.refl _
  handles t := by
    by_cases ht : t = svc
    · rw [ht, Db.put_attrs, h]
    · rw [Db.put_attrs_ne attrs ht]

theorem map_snd_carried (attrs : List (Attr α)) :
    (carried attrs).map Prod.snd = attrs.map Attr.handle := by
  simp [carried, Function.comp_def]

theorem Db.map_snd_all (d : Db α) :
    d.all.map Prod.snd = (number 1 d.statics.svcs.flatten).map Prod.snd ++
      d.db.flatMap fun svc => (d.attrs svc).map Attr.handle := by
  simp only [Db.all, Db.dynamics, map_append, map_flatMap, flatMap_map, map_snd_carried]

theorem Db.SameHandles.map_snd_all {d d' : Db α} (h : d.SameHandles d') :
    d'.all.map Prod.snd = d.all.map Prod.snd := by
  rw [Db.map_snd_all, Db.map_snd_all, h.statics, h.db]
  congr 1
  exact flatMap_congr fun svc _ => h.handles svc

theorem Db.SameHandles.mem_handles {d d' : Db α} (h : d.SameHandles d') (handle : UInt16) :
    (∃ x ∈ d'.all, x.2 = handle) ↔ ∃ x ∈ d.all, x.2 = handle := by
  have hmem := congrArg (handle ∈ ·) h.map_snd_all
  simpa [mem_map] using hmem

theorem Db.ordered_iff {d : Db α} :
    d.Ordered ↔ (∀ svc ∈ d.db, d.attrs svc ≠ []) ∧ (d.all.map Prod.snd).Pairwise (· < ·) ∧
      ∀ handle ∈ d.all.map Prod.snd, handle ≠ 0 := by
  constructor
  · intro h
    refine ⟨h.nonempty, pairwise_map.2 h.ascending, fun handle hh => ?_⟩
    obtain ⟨x, hx, rfl⟩ := mem_map.1 hh
    exact h.positive x hx
  · rintro ⟨hne, hasc, hpos⟩
    exact ⟨hne, pairwise_map.1 hasc, fun x hx => hpos _ (mem_map.2 ⟨x, hx, rfl⟩)⟩

theorem Db.Ordered.sameHandles {d d' : Db α} (h : d.Ordered) (hs : d.SameHandles d') :
    d'.Ordered := by
  obtain ⟨hne, hasc, hpos⟩ := Db.ordered_iff.1 h
  refine Db.ordered_iff.2 ⟨fun svc hsvc hnil => ?_, ?_, ?_⟩
  · have hlen := congrArg List.length (hs.handles svc)
    rw [hnil, map_nil, length_nil, length_map] at hlen
    exact hne svc (hs.db ▸ hsvc) (length_eq_zero_iff.1 hlen.symm)
  · rw [hs.map_snd_all]; exact hasc
  · rw [hs.map_snd_all]; exact hpos

variable {attr : Attr α}

theorem mem_range (h : (attrs.map Attr.handle).Pairwise (· < ·)) (hattr : attr ∈ attrs) :
    firstHandle attrs ≤ attr.handle ∧ attr.handle ≤ lastHandle attrs := by
  constructor
  · cases attrs with
    | nil => simp at hattr
    | cons first rest =>
      rw [map_cons, pairwise_cons] at h
      rcases mem_cons.1 hattr with rfl | hattr
      · exact UInt16.le_refl _
      · exact UInt16.le_of_lt (h.1 _ (mem_map_of_mem hattr))
  · rcases eq_nil_or_concat' attrs with rfl | ⟨init, last, rfl⟩
    · simp at hattr
    · have hlast : lastHandle (init ++ [last]) = last.handle := by simp [lastHandle]
      rw [map_append, pairwise_append] at h
      rw [hlast]
      rcases mem_append.1 hattr with hattr | hattr
      · exact UInt16.le_of_lt (h.2.2 _ (mem_map_of_mem hattr) _ (by simp))
      · rw [mem_singleton.1 hattr]
        exact UInt16.le_refl _

theorem Db.mem_all {d : Db α} {svc : Svc} (hsvc : svc ∈ d.db)
    (hattr : attr ∈ d.attrs svc) : (attr, attr.handle) ∈ d.all :=
  mem_append_right _ <| mem_flatMap.2
    ⟨_, mem_map_of_mem hsvc, mem_map_of_mem hattr⟩

theorem Db.Ordered.service_ascending {d : Db α} (h : d.Ordered) {svc : Svc} (hsvc : svc ∈ d.db) :
    ((d.attrs svc).map Attr.handle).Pairwise (· < ·) := by
  have hdyn := (pairwise_append.1 h.ascending).2.1
  have hsub : (carried (d.attrs svc)).Sublist (d.dynamics.flatMap carried) :=
    sublist_flatten_of_mem (mem_map_of_mem (mem_map_of_mem hsvc))
  rw [← map_snd_carried]
  exact pairwise_map.2 (hdyn.sublist hsub)

/-- **No handle lies behind the last one.** -/
theorem Db.Ordered.le_lastDbHandle {d : Db α} (h : d.Ordered)
    (hx : x ∈ d.all) : x.2 ≤ d.lastDbHandle := by
  rcases eq_nil_or_concat' d.db with hdb | ⟨init, last, hdb⟩
  · have hx' : x ∈ number 1 d.statics.svcs.flatten := by
      simpa [Db.all, Db.dynamics, hdb] using hx
    have hlast : d.lastDbHandle = d.statics.lastStaticHandle := by simp [Db.lastDbHandle, hdb]
    exact hlast ▸ (mem_numbered hx').2
  · have hmem : last ∈ d.db := by simp [hdb]
    have hasc := h.service_ascending hmem
    have hlast : d.lastDbHandle = lastHandle (d.attrs last) := by simp [Db.lastDbHandle, hdb]
    obtain ⟨attr, hattr⟩ := exists_mem_of_ne_nil _ (h.nonempty last hmem)
    have hbound := (mem_range hasc hattr).2
    have hall : d.all = (number 1 d.statics.svcs.flatten ++
        (init.map d.attrs).flatMap carried) ++ carried (d.attrs last) := by
      simp [Db.all, Db.dynamics, hdb]
    have hord := h.ascending
    rw [hall] at hx hord
    rw [hlast]
    rcases mem_append.1 hx with hx | hx
    · have hlt := (pairwise_append.1 hord).2.2 x hx (attr, attr.handle)
        (mem_map_of_mem hattr)
      exact UInt16.le_trans (UInt16.le_of_lt hlt) hbound
    · obtain ⟨attr, hattr, rfl⟩ := mem_map.1 hx
      exact (mem_range hasc hattr).2

/-- What the loop assigns where the handles fit behind `last`. -/
def assigned : UInt16 → List (Attr α) → List (Attr α)
  | _, [] => []
  | last, attr :: rest =>
    if attr.handle = 0 then
      { attr with handle := last + 1, autoAssignedHandle := true } :: assigned (last + 1) rest
    else { attr with autoAssignedHandle := false } :: assigned attr.handle rest

variable {rest : List (Attr α)}

theorem Db.populate_behind (d : Db α) (svc : Svc) {last : UInt16}
    (h : FitsBehind last rest) (done : List (Attr α)) :
    d.populate svc last done rest = (d.put svc (done ++ assigned last rest), none) := by
  induction rest generalizing last done with
  | nil => simp [Db.populate, assigned]
  | cons attr rest ih =>
    rw [FitsBehind] at h
    by_cases hz : attr.handle = 0
    · rw [if_pos hz] at h
      simp only [Db.populate, assigned, if_pos hz]
      rw [ih h.2, append_assoc, singleton_append]
    · rw [if_neg hz] at h
      simp only [Db.populate, assigned, if_neg hz, if_pos h.1]
      rw [ih h.2, append_assoc, singleton_append]

theorem pairwise_assigned {last : UInt16} (h : FitsBehind last attrs) :
    (last :: (assigned last attrs).map Attr.handle).Pairwise (· < ·) := by
  induction attrs generalizing last with
  | nil => simp [assigned]
  | cons attr rest ih =>
    -- behind `last` comes the handle of `attr`, and behind it the rest
    have hcons : ∀ mid : UInt16, last < mid →
        (mid :: (assigned mid rest).map Attr.handle).Pairwise (· < ·) →
        (last :: mid :: (assigned mid rest).map Attr.handle).Pairwise (· < ·) := by
      intro mid hlt hmid
      refine pairwise_cons.2 ⟨fun b hb => ?_, hmid⟩
      rcases mem_cons.1 hb with rfl | hb
      · exact hlt
      · exact UInt16.lt_trans hlt ((pairwise_cons.1 hmid).1 b hb)
    rw [FitsBehind] at h
    by_cases hz : attr.handle = 0
    · rw [if_pos hz] at h
      rw [assigned, if_pos hz, map_cons]
      refine hcons _ (lt_iff_toNat_lt.2 ?_) (ih h.2)
      rw [toNat_succ h.1]
      exact Nat.lt_succ_self _
    · rw [if_neg hz] at h
      rw [assigned, if_neg hz, map_cons]
      exact hcons _ h.1 (ih h.2)

/-- The attribute as the loop leaves it when its handle is given. -/
def Attr.given (attr : Attr α) : Attr α := { attr with autoAssignedHandle := false }

@[simp] theorem Attr.given_handle (attr : Attr α) : attr.given.handle = attr.handle := rfl

variable {done : List (Attr α)}

theorem Db.SameHandles.given {d : Db α} {svc : Svc}
    (h : d.SameHandles (d.put svc (done ++ attr :: rest))) :
    d.SameHandles (d.put svc (done ++ attr.given :: rest)) := by
  have hs := h.handles svc
  rw [Db.put_attrs] at hs
  refine Db.sameHandles_put ?_
  rw [← hs]
  simp

/-- **Handles in a gap are taken as they are.** -/
theorem Db.Ordered.populate_gap {d : Db α} (h : d.Ordered) {svc : Svc}
    (hgap : ∀ attr ∈ rest, attr.handle ≠ 0 ∧ attr.handle ≤ d.lastDbHandle ∧
      ¬ ∃ x ∈ d.all, x.2 = attr.handle) (hs : d.SameHandles (d.put svc (done ++ rest))) :
    d.populate svc d.lastDbHandle done rest = (d.put svc (done ++ rest.map given), none) := by
  induction rest generalizing done with
  | nil => simp [Db.populate]
  | cons attr rest ih =>
    obtain ⟨hz, hle, hfree⟩ := hgap attr (by simp)
    have hs' := hs.given
    have hfind : ¬ ((d.put svc (done ++ attr.given :: rest)).findAttr attr.handle).isSome := by
      rw [(h.sameHandles hs').findAttr_isSome, hs'.mem_handles]
      exact hfree
    have hs'' : d.SameHandles (d.put svc (done ++ [attr.given] ++ rest)) := by simpa using hs'
    have hnext := ih (fun a ha => hgap a (by simp [ha])) hs''
    rw [Db.populate, if_neg hz, if_neg (UInt16.not_lt.2 hle)]
    rw [append_assoc, singleton_append] at hnext
    exact (if_neg hfind).trans hnext

/-- **A clash is refused before a handle is assigned.** -/
theorem Db.Ordered.populate_clash {d : Db α} (h : d.Ordered) {svc : Svc}
    (hc : d.Clashes rest) {handle : UInt16} (hle : d.lastDbHandle ≤ handle)
    (hs : d.SameHandles (d.put svc (done ++ rest))) :
    ∃ d', d.populate svc handle done rest = (d', some .einval) ∧ d.SameHandles d' := by
  induction rest generalizing handle done with
  | nil => exact hc.elim
  | cons attr rest ih =>
    obtain ⟨hz, hc⟩ := hc
    have hs' := hs.given
    have hstep : d.SameHandles (d.put svc (done ++ [attr.given] ++ rest)) := by simpa using hs'
    rw [Db.populate, if_neg hz]
    by_cases hlt : handle < attr.handle
    · -- the handle lies behind the database, so it is not the one that clashes
      rcases hc with ⟨x, hx, hxe⟩ | hc
      · have hxle := le_iff_toNat_le.1 (h.le_lastDbHandle hx)
        rw [lt_iff_toNat_lt, ← hxe] at hlt
        rw [le_iff_toNat_le] at hle
        omega
      · obtain ⟨d', hd', hsame⟩ := ih hc (UInt16.le_trans hle (UInt16.le_of_lt hlt)) hstep
        exact ⟨d', (if_pos hlt).trans hd', hsame⟩
    · have hfind := (h.sameHandles hs').findAttr_isSome attr.handle
      rw [hs'.mem_handles] at hfind
      by_cases hin : ∃ x ∈ d.all, x.2 = attr.handle
      · exact ⟨_, (if_neg hlt).trans (if_pos (hfind.2 hin)), hs'⟩
      · obtain ⟨d', hd', hsame⟩ := ih (hc.resolve_left hin) hle hstep
        exact ⟨d', ((if_neg hlt).trans (if_neg fun hf => hin (hfind.1 hf))).trans hd', hsame⟩

theorem insertBefore_eq {attrs : Svc → List (Attr α)} {svc : Svc} {l : List Svc}
    (h : ∃ t ∈ l, firstHandle (attrs svc) < firstHandle (attrs t)) :
    ∃ pre t post, l = pre ++ t :: post ∧ insertBefore attrs svc l = pre ++ svc :: t :: post ∧
      (∀ q ∈ pre, ¬ firstHandle (attrs svc) < firstHandle (attrs q)) ∧
      firstHandle (attrs svc) < firstHandle (attrs t) := by
  induction l with
  | nil => obtain ⟨t, ht, -⟩ := h; simp at ht
  | cons q l ih =>
    by_cases hq : firstHandle (attrs svc) < firstHandle (attrs q)
    · exact ⟨[], q, l, rfl, by rw [insertBefore, if_pos hq]; rfl, by simp, hq⟩
    · obtain ⟨t, ht, hlt⟩ := h
      have hmem : t ∈ l := (mem_cons.1 ht).resolve_left fun e => hq (e ▸ hlt)
      obtain ⟨pre, t, post, rfl, heq, hpre, hlt⟩ := ih ⟨t, hmem, hlt⟩
      refine ⟨q :: pre, t, post, rfl, by rw [insertBefore, if_neg hq, heq]; rfl, ?_, hlt⟩
      rintro q' hq'
      rcases mem_cons.1 hq' with rfl | hq'
      · exact hq
      · exact hpre q' hq'

/-- **A service whose handles ascend between those before it and those
behind it keeps the order.** -/
theorem Db.Ordered.link {d : Db α} (h : d.Ordered) {svc : Svc}
    {pre post : List Svc} (hdb : d.db = pre ++ post) (hsvc : svc ∉ d.db) (hne : attrs ≠ [])
    (hasc : (attrs.map Attr.handle).Pairwise (· < ·))
    (hstatic : d.statics.lastStaticHandle < firstHandle attrs)
    (hpre : ∀ q ∈ pre, lastHandle (d.attrs q) < firstHandle attrs)
    (hpost : ∀ q ∈ post, lastHandle attrs < firstHandle (d.attrs q)) :
    Db.Ordered { d.put svc attrs with db := pre ++ svc :: post } := by
  have hput : ∀ q ∈ d.db, (d.put svc attrs).attrs q = d.attrs q :=
    fun q hq => Db.put_attrs_ne attrs fun e => hsvc (e ▸ hq)
  have hpre' : ∀ q ∈ pre, q ∈ d.db := fun q hq => by simp [hdb, hq]
  have hpost' : ∀ q ∈ post, q ∈ d.db := fun q hq => by simp [hdb, hq]
  obtain ⟨hnes, hall, hpos⟩ := Db.ordered_iff.1 h
  rw [Db.map_snd_all, hdb, flatMap_append] at hall hpos
  -- the new service's handles against those before and those behind
  have hbefore : ∀ n ∈ attrs.map Attr.handle, ∀ m : UInt16, m < firstHandle attrs → m < n := by
    intro n hn m hm
    obtain ⟨attr, hattr, rfl⟩ := mem_map.1 hn
    exact UInt16.lt_of_lt_of_le hm (mem_range hasc hattr).1
  have hP : ∀ n ∈ attrs.map Attr.handle,
      ∀ m ∈ pre.flatMap (fun q => (d.attrs q).map Attr.handle), m < n := by
    intro n hn m hm
    obtain ⟨q, hq, hm⟩ := mem_flatMap.1 hm
    obtain ⟨attr, hattr, rfl⟩ := mem_map.1 hm
    exact hbefore n hn _ (UInt16.lt_of_le_of_lt
      (mem_range (h.service_ascending (hpre' q hq)) hattr).2 (hpre q hq))
  have hQ : ∀ n ∈ attrs.map Attr.handle,
      ∀ m ∈ post.flatMap (fun q => (d.attrs q).map Attr.handle), n < m := by
    intro n hn m hm
    obtain ⟨attr, hattr, rfl⟩ := mem_map.1 hn
    obtain ⟨q, hq, hm⟩ := mem_flatMap.1 hm
    obtain ⟨attr', hattr', rfl⟩ := mem_map.1 hm
    exact UInt16.lt_of_le_of_lt (mem_range hasc hattr).2 (UInt16.lt_of_lt_of_le (hpost q hq)
      (mem_range (h.service_ascending (hpost' q hq)) hattr').1)
  have hS : ∀ n ∈ attrs.map Attr.handle,
      ∀ m ∈ (number 1 d.statics.svcs.flatten).map Prod.snd, m < n := by
    intro n hn m hm
    obtain ⟨x, hx, rfl⟩ := mem_map.1 hm
    exact hbefore n hn _ (UInt16.lt_of_le_of_lt (mem_numbered hx).2 hstatic)
  have hnew : (Db.all { d.put svc attrs with db := pre ++ svc :: post }).map Prod.snd =
      (number 1 d.statics.svcs.flatten).map Prod.snd ++
        (pre.flatMap (fun q => (d.attrs q).map Attr.handle) ++ (attrs.map Attr.handle ++
          post.flatMap fun q => (d.attrs q).map Attr.handle)) := by
    rw [Db.map_snd_all, flatMap_append, flatMap_cons]
    refine congrArg _ (congrArg₂ _ ?_ (congrArg₂ _ ?_ ?_))
    · exact flatMap_congr fun q hq => by rw [hput q (hpre' q hq)]
    · rw [Db.put_attrs]
    · exact flatMap_congr fun q hq => by rw [hput q (hpost' q hq)]
  refine Db.ordered_iff.2 ⟨fun q hq => ?_, ?_, ?_⟩
  · rcases mem_append.1 hq with hq | hq
    · exact hput q (hpre' q hq) ▸ hnes q (hpre' q hq)
    · rcases mem_cons.1 hq with rfl | hq
      · simpa using hne
      · exact hput q (hpost' q hq) ▸ hnes q (hpost' q hq)
  · rw [hnew]
    simp only [pairwise_append, mem_append] at hall ⊢
    obtain ⟨hs, ⟨hp, hq, hpq⟩, hspq⟩ := hall
    refine ⟨hs, ⟨hp, ⟨hasc, hq, hQ⟩, fun m hm n hn => ?_⟩, fun m hm n hn => ?_⟩
    · rcases hn with hn | hn
      · exact hP n hn m hm
      · exact hpq m hm n hn
    · rcases hn with hn | hn | hn
      · exact hspq m hm n (.inl hn)
      · exact hS n hn m hm
      · exact hspq m hm n (.inr hn)
  · rw [hnew]
    intro n hn
    simp only [mem_append] at hn hpos
    rcases hn with hn | hn | hn | hn
    · exact hpos n (.inl hn)
    · exact hpos n (.inr (.inl hn))
    · intro hz
      have := lt_iff_toNat_lt.1 (hbefore n hn _ hstatic)
      rw [hz] at this
      exact absurd this (Nat.not_lt_zero _)
    · exact hpos n (.inr (.inr hn))

theorem lastHandle_mem {svc : List (Attr α)} (hne : svc ≠ []) :
    ∃ attr ∈ svc, lastHandle svc = attr.handle := by
  rcases eq_nil_or_concat' svc with rfl | ⟨init, last, rfl⟩
  · exact absurd rfl hne
  · exact ⟨last, by simp, by simp [lastHandle]⟩

theorem firstHandle_congr {l l' : List (Attr α)} (h : l.map Attr.handle = l'.map Attr.handle) :
    firstHandle l = firstHandle l' := by
  rw [firstHandle, firstHandle, ← head?_map, ← head?_map, h]

theorem lastHandle_congr {l l' : List (Attr α)} (h : l.map Attr.handle = l'.map Attr.handle) :
    lastHandle l = lastHandle l' := by
  rw [lastHandle, lastHandle, ← getLast?_map, ← getLast?_map, h]

namespace Db.Ordered

variable {d : Db α} {svc : Svc}

/-- **The ranges of the services ascend with the list.** -/
theorem linked (h : d.Ordered) :
    d.db.Pairwise fun p q => lastHandle (d.attrs p) < firstHandle (d.attrs q) := by
  have hdyn := (pairwise_append.1 h.ascending).2.1
  rw [dynamics, flatMap_map, pairwise_flatMap] at hdyn
  refine List.Pairwise.imp_of_mem (fun {p q} hp hq hpq => ?_) hdyn.2
  obtain ⟨a, ha, hlast⟩ := lastHandle_mem (h.nonempty p hp)
  obtain ⟨b, hb, hfirst⟩ := firstHandle_mem (h.nonempty q hq)
  rw [hlast, hfirst]
  exact hpq (a, a.handle) (mem_map_of_mem ha) (b, b.handle) (mem_map_of_mem hb)

theorem first_le_last (h : d.Ordered) (hsvc : svc ∈ d.db) :
    firstHandle (d.attrs svc) ≤ lastHandle (d.attrs svc) := by
  obtain ⟨a, ha, hfirst⟩ := firstHandle_mem (h.nonempty svc hsvc)
  rw [hfirst]
  exact (mem_range (h.service_ascending hsvc) ha).2

theorem last_le_lastDbHandle (h : d.Ordered) (hsvc : svc ∈ d.db) :
    lastHandle (d.attrs svc) ≤ d.lastDbHandle := by
  obtain ⟨a, ha, hlast⟩ := lastHandle_mem (h.nonempty svc hsvc)
  rw [hlast]
  exact h.le_lastDbHandle (mem_all hsvc ha)

theorem lastStatic_le (h : d.Ordered) : d.statics.lastStaticHandle ≤ d.lastDbHandle := by
  have hnat := d.statics.lastStaticHandle_toNat
  rcases eq_nil_or_concat' d.statics.svcs.flatten with hnil | ⟨init, last, heq⟩
  · rw [hnil] at hnat
    exact le_iff_toNat_le.2 (hnat ▸ Nat.zero_le _)
  · -- the last static attribute carries the last static handle
    have hfit := d.statics.fits_one
    rw [heq, length_append, length_singleton] at hnat hfit
    simp only [toNat_one] at hfit
    have hmem : (last, (1 : UInt16) + ofNat init.length) ∈ d.all := by
      refine mem_append_left _ ?_
      rw [heq, number_append]
      simp [number]
    have hle := le_iff_toNat_le.1 (h.le_lastDbHandle hmem)
    rw [le_iff_toNat_le, hnat]
    simp only [UInt16.toNat_add, toNat_one, toNat_ofNat'] at hle
    omega

theorem not_mem_of_fitsBehind (h : d.Ordered) (hf : FitsBehind d.lastDbHandle (d.attrs svc)) :
    svc ∉ d.db := by
  intro hsvc
  obtain ⟨attr, rest, hattrs⟩ := exists_cons_of_ne_nil (h.nonempty svc hsvc)
  have hmem := mem_all hsvc (show attr ∈ d.attrs svc by rw [hattrs]; simp)
  have hle := le_iff_toNat_le.1 (h.le_lastDbHandle hmem)
  rw [hattrs, FitsBehind, if_neg (h.positive _ hmem), lt_iff_toNat_lt] at hf
  dsimp only at hle
  omega

/-- **A service that fits behind the database is appended.** -/
theorem gattRegister_behind (h : d.Ordered) (hne : d.attrs svc ≠ [])
    (hf : FitsBehind d.lastDbHandle (d.attrs svc)) :
    ∃ d', d.gattRegister svc = (d', none) ∧ d'.Ordered ∧ d'.db = d.db ++ [svc] := by
  have hsvc := h.not_mem_of_fitsBehind hf
  obtain ⟨attr, rest, hattrs⟩ := exists_cons_of_ne_nil hne
  have hasc := pairwise_cons.1 (pairwise_assigned hf)
  have hne' : assigned d.lastDbHandle (d.attrs svc) ≠ [] := by
    rw [hattrs, assigned]
    split <;> simp
  have hfirst : d.lastDbHandle < firstHandle (assigned d.lastDbHandle (d.attrs svc)) := by
    obtain ⟨a, ha, hfirst⟩ := firstHandle_mem hne'
    exact hfirst ▸ hasc.1 _ (mem_map_of_mem ha)
  refine ⟨{ d.put svc (assigned d.lastDbHandle (d.attrs svc)) with db := d.db ++ [svc] }, ?_, ?_,
    rfl⟩
  · rw [gattRegister, populate_behind d svc hf, nil_append]
    dsimp only
    rw [Db.insert, if_pos, put_db]
    split
    next => exact .inl rfl
    next => exact .inr (by rwa [put_attrs])
  · refine h.link (by simp) hsvc hne' hasc.2 (UInt16.lt_of_le_of_lt h.lastStatic_le hfirst) ?_
      (by simp)
    exact fun q hq => UInt16.lt_of_le_of_lt (h.last_le_lastDbHandle hq) hfirst

theorem free_of_fitsGap (h : d.Ordered) (hg : d.FitsGap (d.attrs svc))
    (hattr : attr ∈ d.attrs svc) : ¬ ∃ x ∈ d.all, x.2 = attr.handle := by
  obtain ⟨hasc, hstatic, -, hclear⟩ := hg
  have hrange := mem_range hasc hattr
  rintro ⟨x, hx, hxe⟩
  rw [le_iff_toNat_le, le_iff_toNat_le, ← hxe] at hrange
  rcases mem_append.1 hx with hx | hx
  · have hle := le_iff_toNat_le.1 (mem_numbered hx).2
    rw [lt_iff_toNat_lt] at hstatic
    omega
  · obtain ⟨l, hl, hx⟩ := mem_flatMap.1 hx
    obtain ⟨q, hq, rfl⟩ := mem_map.1 hl
    obtain ⟨a, ha, rfl⟩ := mem_map.1 hx
    have hq' := mem_range (h.service_ascending hq) ha
    rw [le_iff_toNat_le, le_iff_toNat_le] at hq'
    have hc := hclear q hq
    rw [lt_iff_toNat_lt, lt_iff_toNat_lt] at hc
    dsimp only at hrange
    omega

/-- **A service that fits a gap is linked into it.** -/
theorem gattRegister_gap (h : d.Ordered) (hne : d.attrs svc ≠ []) (hg : d.FitsGap (d.attrs svc)) :
    ∃ d', d.gattRegister svc = (d', none) ∧ d'.Ordered ∧ ∀ q, q ∈ d'.db ↔ q = svc ∨ q ∈ d.db := by
  have hfree : ∀ attr ∈ d.attrs svc, ¬ ∃ x ∈ d.all, x.2 = attr.handle :=
    fun attr hattr => h.free_of_fitsGap hg hattr
  obtain ⟨hasc, hstatic, ⟨t, ht, hlt⟩, hclear⟩ := hg
  have hfl : firstHandle (d.attrs svc) ≤ lastHandle (d.attrs svc) := by
    obtain ⟨a, ha, hfirst⟩ := firstHandle_mem hne
    exact hfirst ▸ (mem_range hasc ha).2
  have hsvc : svc ∉ d.db := fun hmem => by
    have := hclear svc hmem
    rw [or_self, lt_iff_toNat_lt] at this
    rw [le_iff_toNat_le] at hfl
    omega
  have hlast : lastHandle (d.attrs svc) < d.lastDbHandle :=
    UInt16.lt_of_lt_of_le hlt (UInt16.le_trans (h.first_le_last ht) (h.last_le_lastDbHandle ht))
  have hmap : ((d.attrs svc).map given).map Attr.handle = (d.attrs svc).map Attr.handle := by
    simp
  have hinto : ∀ attr ∈ d.attrs svc, attr.handle ≠ 0 ∧ attr.handle ≤ d.lastDbHandle ∧
      ¬ ∃ x ∈ d.all, x.2 = attr.handle := by
    intro attr hattr
    have hr := mem_range hasc hattr
    refine ⟨fun hz => ?_, UInt16.le_trans hr.2 (UInt16.le_of_lt hlast), hfree attr hattr⟩
    have h₁ := le_iff_toNat_le.1 hr.1
    have h₂ := lt_iff_toNat_lt.1 hstatic
    rw [hz, UInt16.toNat_zero] at h₁
    omega
  have hsame : d.SameHandles (d.put svc ([] ++ d.attrs svc)) :=
    sameHandles_put (by rw [nil_append])
  have hpop := h.populate_gap hinto hsame
  have hfirst := firstHandle_congr hmap
  have hput : ∀ q ∈ d.db, (d.put svc ((d.attrs svc).map given)).attrs q = d.attrs q :=
    fun q hq => put_attrs_ne _ fun e => hsvc (e ▸ hq)
  have hbehind : ∃ t ∈ d.db, firstHandle ((d.put svc ((d.attrs svc).map given)).attrs svc) <
      firstHandle ((d.put svc ((d.attrs svc).map given)).attrs t) := by
    refine ⟨t, ht, ?_⟩
    rw [put_attrs, hput t ht, hfirst]
    exact UInt16.lt_of_le_of_lt hfl hlt
  obtain ⟨pre, t', post, hdb, hins, hpre, hlt'⟩ := insertBefore_eq hbehind
  have hmem : ∀ q, q ∈ d.db ↔ q ∈ pre ∨ q = t' ∨ q ∈ post := fun q => by
    rw [hdb, mem_append, mem_cons]
  have ht' := (hmem t').2 (.inr (.inl rfl))
  rw [put_attrs, hput t' ht', hfirst] at hlt'
  -- the service the walk stops at starts behind the new one, and so do all after it
  have hstop : lastHandle (d.attrs svc) < firstHandle (d.attrs t') := by
    refine (hclear t' ht').resolve_right fun hc => ?_
    have := h.first_le_last ht'
    rw [le_iff_toNat_le] at this
    rw [lt_iff_toNat_lt] at hc hlt'
    omega
  refine ⟨{ d.put svc ((d.attrs svc).map given) with db := pre ++ svc :: t' :: post }, ?_,
    ?_, fun q => ?_⟩
  · rw [gattRegister, hpop, nil_append]
    dsimp only
    rw [if_neg (ne_nil_of_mem ht), Db.insert, if_neg, put_db, hins]
    rw [put_attrs, hfirst]
    rintro (hz | hc)
    · rw [hz, lt_iff_toNat_lt] at hlast
      exact absurd hlast (Nat.not_lt_zero _)
    · rw [lt_iff_toNat_lt] at hlast hc
      rw [le_iff_toNat_le] at hfl
      omega
  · refine h.link hdb hsvc (by simpa using hne) (by rwa [hmap]) (hfirst ▸ hstatic)
      (fun q hq => ?_) (fun q hq => ?_)
    · rw [hfirst]
      refine (hclear q ((hmem q).2 (.inl hq))).resolve_left fun hc => ?_
      have hn := hpre q hq
      rw [put_attrs, hput q ((hmem q).2 (.inl hq)), hfirst] at hn
      exact hn (UInt16.lt_of_le_of_lt hfl hc)
    · rw [lastHandle_congr hmap]
      rcases mem_cons.1 hq with rfl | hq
      · exact hstop
      · have hl := h.linked
        rw [hdb, pairwise_append, pairwise_cons] at hl
        exact UInt16.lt_trans hstop (UInt16.lt_of_le_of_lt (h.first_le_last ht')
          (hl.2.1.1 q hq))
  · rw [hmem]
    simp only [mem_append, mem_cons]
    exact or_left_comm

/-- **A service that clashes is refused, and no handle changes.** -/
theorem gattRegister_clash (h : d.Ordered) (hc : d.Clashes (d.attrs svc)) :
    ∃ d', d.gattRegister svc = (d', some .einval) ∧ d.SameHandles d' := by
  have hput : d.SameHandles (d.put svc ([] ++ d.attrs svc)) :=
    sameHandles_put (by rw [nil_append])
  obtain ⟨d', hd', hsame⟩ := h.populate_clash hc (UInt16.le_refl _) hput
  exact ⟨d', by rw [gattRegister, hd'], hsame⟩

end Db.Ordered

/-! ## Runs -/

/-- The services whose registration returned 0 and that were not
unregistered since. -/
def registered (log : List (Event α × Option Errno)) : List Svc :=
  log.foldl (fun svcs r => match r with
    | (.register _ svc, none) => svc :: svcs
    | (.unregister svc, _) => svcs.filter (· ≠ svc)
    | _ => svcs) []

/-- What `bt_gatt_foreach_attr` over 1..0xffff visits. -/
def Db.visited (d : Db α) : List (Attr α × UInt16) :=
  d.foreachAttr 1 0xffff (fun attr handle acc => (.continue, acc ++ [(attr, handle)])) []

/-- **The order of the database**: services linked in ascending, disjoint
ranges, handles of attributes distinct, not zero and ascending within a
service, and every service in use visited by the iterator. -/
structure Db.Consistent (d : Db α) (live : List Svc) : Prop where
  linked : d.db.Pairwise fun p q => lastHandle (d.attrs p) < firstHandle (d.attrs q)
  within : ∀ svc ∈ d.db, ((d.attrs svc).map Attr.handle).Pairwise (· < ·)
  distinct : (d.all.map Prod.snd).Nodup
  nonzero : ∀ x ∈ d.all, x.2 ≠ 0
  visits : ∀ svc ∈ live, ∀ attr ∈ d.attrs svc, (attr, attr.handle) ∈ d.visited

/-- A registration that returns an error leaves the list and the handles
of every service as they were. -/
def Db.KeptOnError (d : Db α) : Event α → Prop
  | .register stage svc => (d.register stage svc).2 ≠ none → d.SameHandles (d.register stage svc).1
  | _ => True

theorem visit_collect (l acc : List (Attr α × UInt16)) :
    visit (fun attr handle acc => (Iter.continue, acc ++ [(attr, handle)])) l acc = acc ++ l := by
  induction l generalizing acc with
  | nil => simp [visit]
  | cons x l ih => exact (ih _).trans (by simp)

theorem Db.Ordered.foreachAttr_all {d : Db α} (h : d.Ordered) (func : AttrFunc α σ) (s : σ) :
    d.foreachAttr 1 0xffff func s = visit func d.all s := by
  rw [h.foreachAttr_eq, filter_eq_self.2 fun x hx => ?_]
  have hpos : x.2.toNat ≠ 0 := fun hz => h.positive x hx (UInt16.toNat_inj.1 hz)
  have hlt := x.2.toNat_lt
  have h₁ : (1 : UInt16) ≤ x.2 := le_iff_toNat_le.2 (by simp only [toNat_one]; omega)
  have h₂ : x.2 ≤ 0xffff := le_iff_toNat_le.2 (by simp only [toNat_ofNat]; omega)
  simp [selected, h₁, h₂]

theorem Db.Ordered.visited_eq {d : Db α} (h : d.Ordered) : d.visited = d.all := by
  rw [Db.visited, h.foreachAttr_all, visit_collect, nil_append]

theorem Db.Ordered.consistent {d : Db α} (h : d.Ordered) {live : List Svc}
    (hlive : ∀ svc ∈ live, svc ∈ d.db) : d.Consistent live where
  linked := h.linked
  within _ hsvc := h.service_ascending hsvc
  distinct := by
    refine (Db.ordered_iff.1 h).2.1.imp fun hab e => ?_
    subst e
    exact UInt16.lt_irrefl _ hab
  nonzero := h.positive
  visits svc hsvc _ hattr := h.visited_eq ▸ Db.mem_all (hlive svc hsvc) hattr

theorem Db.Ordered.of_sublist {d d' : Db α} (h : d.Ordered) (hstat : d'.statics = d.statics)
    (hdb : d'.db.Sublist d.db) (hattrs : ∀ svc ∈ d'.db, d'.attrs svc = d.attrs svc) :
    d'.Ordered := by
  have hdyn : (d'.dynamics).Sublist d.dynamics := by
    rw [Db.dynamics, Db.dynamics, map_congr_left hattrs]
    exact hdb.map _
  have hsub : d'.all.Sublist d.all := by
    rw [Db.all, Db.all, hstat]
    exact (List.Sublist.refl _).append (hdyn.flatMap _)
  refine ⟨fun svc hsvc => ?_, h.ascending.sublist hsub, fun x hx => h.positive x (hsub.mem hx)⟩
  rw [hattrs svc hsvc]
  exact h.nonempty svc (hdb.mem hsvc)

theorem Db.Ordered.nodup {d : Db α} (h : d.Ordered) : d.db.Nodup := by
  refine List.Pairwise.imp_of_mem (fun {p q} hp _ hpq e => ?_) h.linked
  subst e
  exact UInt16.lt_irrefl _ (UInt16.lt_of_le_of_lt (h.first_le_last hp) hpq)

theorem Db.ordered_init (statics : Statics α) : (Db.init statics).Ordered where
  nonempty := by simp [Db.init]
  ascending := by
    simpa [Db.init, Db.all, Db.dynamics] using pairwise_number statics.fits_one
  positive x hx hz := by
    have hx' : x ∈ number 1 statics.svcs.flatten := by
      simpa [Db.init, Db.all, Db.dynamics] using hx
    have := (mem_numbered hx').1
    rw [hz] at this
    exact absurd this (Nat.lt_irrefl _)

/-- **A registration that meets the condition** keeps the order. -/
theorem Db.Ordered.register {d : Db α} (h : d.Ordered) {stage : Stage} {svc : Svc}
    (hne : d.attrs svc ≠ []) (hp : d.Places (.register stage svc)) :
    (∃ d', d.register stage svc = (d', none) ∧ d'.Ordered ∧ ∀ q, q = svc ∨ q ∈ d.db → q ∈ d'.db) ∨
    ∃ d' err, d.register stage svc = (d', some err) ∧ d.SameHandles d' := by
  by_cases hstage : stage.settings ∧ stage.initialized ∧ ¬ stage.scLoad
  · exact .inr ⟨d, _, if_pos hstage, Db.SameHandles.rfl⟩
  by_cases hmand : (d.attrs svc).head?.any fun attr =>
      attr.uuid.same uuidGap || attr.uuid.same uuidGatt
  · exact .inr ⟨d, _, (if_neg hstage).trans (if_pos hmand), Db.SameHandles.rfl⟩
  have heq : d.register stage svc = d.gattRegister svc := (if_neg hstage).trans (if_neg hmand)
  rw [heq]
  rcases hp with hdown | hbehind | hgap | hclash
  · exact absurd hdown (not_or.2 ⟨hstage, hmand⟩)
  · obtain ⟨d', hd', ho, hdb⟩ := h.gattRegister_behind hne hbehind
    refine .inl ⟨d', hd', ho, fun q hq => ?_⟩
    rw [hdb, mem_append, mem_singleton]
    exact hq.symm
  · obtain ⟨d', hd', ho, hdb⟩ := h.gattRegister_gap hne hgap
    exact .inl ⟨d', hd', ho, fun q hq => (hdb q).2 hq⟩
  · obtain ⟨d', hd', hsame⟩ := h.gattRegister_clash hclash
    exact .inr ⟨d', _, hd', hsame⟩

/-- What a run keeps: the order, and that services in use are linked. -/
def Db.Inv (d : Db α) (log : List (Event α × Option Errno)) : Prop :=
  d.Ordered ∧ ∀ svc ∈ registered log, svc ∈ d.db

theorem registered_append (log : List (Event α × Option Errno)) (r : Event α × Option Errno) :
    registered (log ++ [r]) = match r with
      | (.register _ svc, none) => svc :: registered log
      | (.unregister svc, _) => (registered log).filter (· ≠ svc)
      | _ => registered log := by
  rw [registered, foldl_append]
  rfl

theorem Db.Inv.step {d : Db α} {log : List (Event α × Option Errno)} (h : d.Inv log)
    (e : Event α) (he : d.enabled e ∧ d.Places e) :
    (d.step e).Inv (log ++ d.emit e) ∧ d.KeptOnError e := by
  obtain ⟨ho, hlive⟩ := h
  cases e with
  | fill svc attrs =>
    refine ⟨⟨ho.of_sublist rfl (List.Sublist.refl _) fun q hq => ?_, ?_⟩, trivial⟩
    · exact Db.put_attrs_ne attrs fun e => he.1 (e ▸ hq)
    · rw [Db.emit, registered_append]
      exact hlive
  | register stage svc =>
    rcases ho.register he.1 he.2 with ⟨d', hd', ho', hdb⟩ | ⟨d', err, hd', hsame⟩
    · refine ⟨⟨?_, ?_⟩, ?_⟩
      · rw [Db.step, Db.exec, hd']; exact ho'
      · rw [Db.step, Db.emit, Db.exec, hd', registered_append]
        intro q hq
        rcases mem_cons.1 hq with rfl | hq
        · exact hdb _ (.inl rfl)
        · exact hdb q (.inr (hlive q hq))
      · rw [Db.KeptOnError, hd']
        exact fun hn => absurd rfl hn
    · refine ⟨⟨?_, ?_⟩, ?_⟩
      · rw [Db.step, Db.exec, hd']; exact ho.sameHandles hsame
      · rw [Db.step, Db.emit, Db.exec, hd', registered_append]
        exact fun q hq => hsame.db ▸ hlive q hq
      · rw [Db.KeptOnError, hd']
        exact fun _ => hsame
  | unregister svc =>
    refine ⟨⟨?_, ?_⟩, trivial⟩
    · rw [Db.step, Db.exec, Db.unregister]
      split
      next =>
        refine ho.of_sublist rfl erase_sublist fun q hq => Db.put_attrs_ne _ ?_
        exact (ho.nodup.mem_erase_iff.1 hq).1
      next => exact ho
    · rw [Db.step, Db.emit, registered_append]
      intro q hq
      obtain ⟨hq, hqs⟩ := mem_filter.1 hq
      have hne : q ≠ svc := by simpa using hqs
      rw [Db.exec, Db.unregister]
      split
      next => exact (mem_erase_of_ne hne).2 (hlive q hq)
      next => exact hlive q hq

/-- **The database keeps its order** over every run in which each service
to register fits behind the last one or into a gap, or is refused before
a handle is assigned. -/
theorem registry_consistent (statics : Statics α) (es : List (Event α))
    (h : Along Db.step (fun d e => d.enabled e ∧ d.Places e) (Db.init statics) es) :
    (run Db.step (Db.init statics) es).Consistent
      (registered (emitted Db.step Db.emit (Db.init statics) es)) ∧
    Along Db.step Db.KeptOnError (Db.init statics) es := by
  have hinit : (Db.init statics).Inv [] := ⟨Db.ordered_init statics, by simp [registered]⟩
  have hstep := fun (d : Db α) e log (hinv : d.Inv log) he => hinv.step e he
  obtain ⟨ho, hlive⟩ := log_run Db.emit Db.Inv (fun d e log hi he => (hstep d e log hi he).1)
    hinit h
  exact ⟨ho.consistent (by simpa using hlive), log_along Db.emit Db.Inv hstep hinit h⟩

/-! ### Services the database misplaces -/

/-- A service of primary-service declarations with the handles given. -/
def sample (handles : List UInt16) : List (Attr Unit) :=
  handles.map fun handle => ⟨.u16 0x2800, handle, false, ()⟩

/-- The stack before `bt_enable`. -/
def boot : Stage := ⟨false, false, false⟩

theorem registry_consistent_sample :
    let es := [.fill 0 (sample [10, 12]), .register boot 0, .fill 1 (sample [5]),
      .register boot 1, .fill 2 (sample [0, 0]), .register boot 2, .fill 3 (sample [12, 0]),
      .register boot 3, .unregister 0]
    (run Db.step (Db.init ⟨[sample [0, 0]], by decide⟩) es).Consistent
      (registered (emitted Db.step Db.emit (Db.init ⟨[sample [0, 0]], by decide⟩) es)) ∧
    Along Db.step Db.KeptOnError (Db.init ⟨[sample [0, 0]], by decide⟩) es := by
  intro es
  exact registry_consistent _ es (by decide)

/-- **A service within the range of another is linked nowhere**, though
its registration returns 0. -/
theorem registered_not_visited :
    ¬ ∀ (statics : Statics Unit) (es : List (Event Unit)),
      Along Db.step Db.enabled (Db.init statics) es →
      (run Db.step (Db.init statics) es).Consistent
        (registered (emitted Db.step Db.emit (Db.init statics) es)) ∧
      Along Db.step Db.KeptOnError (Db.init statics) es := by
  intro h
  have hc := (h ⟨[sample [0, 0]], by decide⟩
    [.fill 0 (sample [10, 20]), .register boot 0, .fill 1 (sample [15]), .register boot 1]
    (by decide)).1.visits 1 (by decide) ⟨.u16 0x2800, 15, false, ()⟩ (by decide)
  revert hc
  decide

end Gatt

end OpenBlue

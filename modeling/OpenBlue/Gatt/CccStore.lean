import OpenBlue.Common.Merge
import OpenBlue.Gatt.Db
import OpenBlue.Gatt.Model.CccStore
/-!
# GATT — what comes back of the stored values of CCCs

Loading walks over the CCCs of the database and over the record at once.
A value whose CCC is gone is stepped over at the next CCC there is, and what
that one has in the record is left behind.
-/

namespace OpenBlue

namespace Gatt

open Merge List Function

variable {peer : AddrWithId} {mem mem' : CccMem} {d d' : Db Bool} {storeMax : ℕ}
  {cfg : List CccCfg} {l : List (Attr Bool × UInt16)} {es : List CccStore}

/-- What the peer has in the entries of a CCC. -/
def peerValue (cfg : List CccCfg) (peer : AddrWithId) : Option ℕ :=
  (cccFindCfg cfg peer).map fun i => (cfg.getD i {}).value

/-- The handles of the CCCs among the attributes. -/
def cccs (l : List (Attr Bool × UInt16)) : List UInt16 := (l.filter (·.1.data)).map Prod.snd

/-- The first CCCs in which the peer has a value, as many as are stored. -/
def Db.kept (d : Db Bool) (storeMax : ℕ) (peer : AddrWithId) (mem : CccMem) : List UInt16 :=
  ((cccs d.all).filter fun handle => (peerValue (mem handle) peer).isSome).take storeMax

/-- The value the peer has in a CCC of the database. -/
def Db.value (d : Db Bool) (peer : AddrWithId) (mem : CccMem) (handle : UInt16) : Option ℕ :=
  if handle ∈ cccs d.all then peerValue (mem handle) peer else none

theorem cccs_ascending (h : d.Ordered) : (cccs d.all).Pairwise (· < ·) :=
  pairwise_map.2 (h.ascending.sublist filter_sublist)

theorem kept_ascending (h : d.Ordered) : (d.kept storeMax peer mem).Pairwise (· < ·) :=
  (cccs_ascending h).sublist ((take_sublist _ _).trans filter_sublist)

/-- Every CCC of the database `d'` comes back with the value the peer had in
it in `d`. -/
def Restores (d d' : Db Bool) (storeMax : ℕ) (peer : AddrWithId) (mem mem' : CccMem) : Prop :=
  ∀ handle ∈ cccs d'.all,
    peerValue (d'.loadCcc peer (d.storeCcc storeMax peer mem) mem' handle) peer =
      d.value peer mem handle

/-- Every value there was a CCC for is stored, finds a free entry, and has
from nowhere on more stored values without a CCC before it than CCCs without
a stored value. -/
def InStep (d d' : Db Bool) (storeMax : ℕ) (peer : AddrWithId) (mem mem' : CccMem) : Prop :=
  ∀ handle ∈ cccs d'.all, (d.value peer mem handle).isSome →
    handle ∈ d.kept storeMax peer mem ∧ (cccFindCfg (mem' handle) ⟨.any, 0⟩).isSome ∧
      ∀ b, alone (d.kept storeMax peer mem) (cccs d'.all) b handle ≤
        alone (cccs d'.all) (d.kept storeMax peer mem) b handle

/-! ## Saving -/

theorem visit_cccSave (acc : List CccStore) (hacc : acc.length ≤ storeMax) :
    visit (cccSave storeMax peer mem) l acc =
      acc ++ ((((cccs l).filter fun handle => (peerValue (mem handle) peer).isSome).take
        (storeMax - acc.length)).map fun handle =>
          ⟨handle, (peerValue (mem handle) peer).getD 0⟩) := by
  induction l generalizing acc with
  | nil => simp [visit, cccs]
  | cons x l ih =>
    obtain ⟨attr, handle⟩ := x
    cases hdata : attr.data with
    | false => simpa [visit, cccSave, cccs, hdata] using ih acc hacc
    | true =>
      cases hfind : cccFindCfg (mem handle) peer with
      | none => simpa [visit, cccSave, cccs, peerValue, hdata, hfind] using ih acc hacc
      | some i =>
        rcases hacc.eq_or_lt with hfull | hroom
        · simp [visit, cccSave, hdata, hfind, hfull]
        · have hmore := ih (acc ++ [⟨handle, ((mem handle).getD i {}).value⟩])
            (by rw [length_append]; exact hroom)
          have hroom' : storeMax - acc.length = storeMax - (acc.length + 1) + 1 := by omega
          simpa [visit, cccSave, cccs, peerValue, hdata, hfind, hroom, hroom', Nat.not_le.2 hroom]
            using hmore

theorem storeCcc_eq (h : d.Ordered) :
    d.storeCcc storeMax peer mem = (d.kept storeMax peer mem).map fun handle =>
      ⟨handle, (peerValue (mem handle) peer).getD 0⟩ := by
  rw [Db.storeCcc, h.foreachAttr_all, visit_cccSave [] (Nat.zero_le _)]
  rfl

theorem value_of_kept {handle : UInt16} (h : handle ∈ d.kept storeMax peer mem) :
    ∃ v, peerValue (mem handle) peer = some v ∧ d.value peer mem handle = some v := by
  obtain ⟨hmem, hsome⟩ := mem_filter.1 (mem_of_mem_take h)
  obtain ⟨v, hv⟩ := Option.isSome_iff_exists.1 hsome
  exact ⟨v, hv, by rw [Db.value, if_pos hmem, hv]⟩

/-! ## Loading -/

theorem peerValue_cccRestore (h : peerValue cfg peer = none) (value : ℕ) :
    peerValue (cccRestore cfg peer value) peer =
      if (cccFindCfg cfg ⟨.any, 0⟩).isSome then some value else none := by
  have hnone : cccFindCfg cfg peer = none := Option.map_eq_none_iff.1 h
  rw [cccRestore, hnone]
  cases hfree : cccFindCfg cfg ⟨.any, 0⟩ with
  | none => exact h
  | some i =>
    obtain ⟨hi, -⟩ := findIdx?_eq_some_iff_getElem.1 hfree
    have hfound : cccFindCfg (cfg.set i ⟨peer.id, peer.addr, value⟩) peer = some i := by
      rw [cccFindCfg, findIdx?_eq_some_iff_getElem]
      refine ⟨by simpa using hi, by simp, fun j hj => ?_⟩
      rw [getElem_set_ne (by omega)]
      simp [findIdx?_eq_none_iff.1 hnone _ (getElem_mem _)]
    rw [peerValue, hfound]
    simp [hi]

theorem visit_cccLoad_nil : (visit (cccLoad peer) l ⟨some [], mem⟩).mem = mem := by
  induction l with
  | nil => rfl
  | cons x l ih =>
    obtain ⟨attr, handle⟩ := x
    cases hdata : attr.data <;> simp [visit, cccLoad, hdata, ih]

/-- **What is met is restored**, and the other CCCs are left alone. -/
theorem visit_cccLoad (hl : (cccs l).Pairwise (· < ·))
    (hes : (es.map CccStore.handle).Pairwise (· < ·)) :
    (∀ handle ∉ met (cccs l) (es.map CccStore.handle),
      (visit (cccLoad peer) l ⟨some es, mem⟩).mem handle = mem handle) ∧
    ∀ e ∈ es, e.handle ∈ met (cccs l) (es.map CccStore.handle) →
      (visit (cccLoad peer) l ⟨some es, mem⟩).mem e.handle =
        cccRestore (mem e.handle) peer e.value := by
  induction l generalizing es mem with
  | nil => exact ⟨fun _ _ => rfl, fun _ _ h => by simp [cccs, met] at h⟩
  | cons x l ih =>
    obtain ⟨attr, handle⟩ := x
    cases hdata : attr.data with
    | false =>
      have hsame : cccs ((attr, handle) :: l) = cccs l := by simp [cccs, hdata]
      have hvisit : visit (cccLoad peer) ((attr, handle) :: l) ⟨some es, mem⟩ =
          visit (cccLoad peer) l ⟨some es, mem⟩ := by simp [visit, cccLoad, hdata]
      rw [hsame] at hl ⊢
      rw [hvisit]
      exact ih hl hes
    | true =>
      have hcons : cccs ((attr, handle) :: l) = handle :: cccs l := by simp [cccs, hdata]
      rw [hcons] at hl ⊢
      obtain ⟨hlt, hl⟩ := pairwise_cons.1 hl
      cases es with
      | nil => simp [visit, cccLoad, hdata]
      | cons e es =>
        rw [map_cons, met]
        by_cases hahead : e.handle ≠ handle ∧ ¬ e.handle < handle
        · rw [if_neg hahead.1, if_neg hahead.2]
          have hvisit : visit (cccLoad peer) ((attr, handle) :: l) ⟨some (e :: es), mem⟩ =
              visit (cccLoad peer) l ⟨some (e :: es), mem⟩ := by
            simp [visit, cccLoad, hdata, hahead]
          rw [hvisit]
          exact ih hl hes
        · -- the record is taken a step further
          have hvisit : (visit (cccLoad peer) ((attr, handle) :: l) ⟨some (e :: es), mem⟩).mem =
              (visit (cccLoad peer) l ⟨some es, if e.handle = handle then
                update mem handle (cccRestore (mem handle) peer e.value)
                else mem⟩).mem := by
            simp only [visit, cccLoad, hdata, Bool.not_true, Bool.false_eq_true, if_false,
              if_neg hahead]
            cases es <;> simp [visit_cccLoad_nil]
          rw [hvisit]
          obtain ⟨he, hes⟩ := pairwise_cons.1 hes
          have hgone : handle ∉ met (cccs l) (es.map CccStore.handle) := fun hm =>
            UInt16.lt_irrefl handle (hlt handle (mem_of_mem_met hm).1)
          by_cases heq : e.handle = handle
          · obtain ⟨hsame, hback⟩ := @ih (update mem handle
              (cccRestore (mem handle) peer e.value)) es hl hes
            rw [if_pos heq, if_pos heq]
            refine ⟨fun k hk => ?_, fun e' he' hm => ?_⟩
            · obtain ⟨hne, hk⟩ := not_or.1 (mem_cons.not.1 hk)
              rw [hsame k hk, update_of_ne hne]
            · rcases mem_cons.1 he' with rfl | he'
              · rw [heq, hsame handle hgone, update_self]
              · have hlater := he e'.handle (mem_map_of_mem he')
                have hne : e'.handle ≠ handle := by grind
                rw [hback e' he' ((mem_cons.1 hm).resolve_left hne), update_of_ne hne]
          · rw [if_neg heq, if_neg heq, if_pos (by tauto)]
            obtain ⟨hsame, hback⟩ := @ih mem es hl hes
            refine ⟨hsame, fun e' he' hm => ?_⟩
            rcases mem_cons.1 he' with rfl | he'
            · have := hlt _ (mem_of_mem_met hm).1
              grind
            · exact hback e' he' hm

theorem loadCcc_eq (h : d.Ordered) (hcleared : ∀ handle, peerValue (mem handle) peer = none) :
    d.loadCcc peer es mem = (visit (cccLoad peer) d.all ⟨some es, mem⟩).mem := by
  rw [Db.loadCcc, h.foreachAttr_all]
  split
  next hnil =>
    rw [hnil, visit_cccLoad_nil]
    induction d.all with
    | nil => rfl
    | cons x l ih =>
      obtain ⟨attr, handle⟩ := x
      have hnone : cccFindCfg (mem handle) peer = none := Option.map_eq_none_iff.1 (hcleared handle)
      cases hdata : attr.data <;> simp [visit, cccLoad, hdata, cccClear, hnone, ih]
  next => rfl

/-- **The values come back** after the entries of the peer were cleared, if
and only if none of them is out of step. -/
theorem ccc_round_trip_iff (hd : d.Ordered) (hd' : d'.Ordered)
    (hcleared : ∀ handle, peerValue (mem' handle) peer = none) :
    Restores d d' storeMax peer mem mem' ↔ InStep d d' storeMax peer mem mem' := by
  have hmap : (d.storeCcc storeMax peer mem).map CccStore.handle = d.kept storeMax peer mem := by
    rw [storeCcc_eq hd, List.map_map]
    exact List.map_id _
  have hkept : (d.kept storeMax peer mem).Pairwise (· < ·) := kept_ascending hd
  have hall := met_all_iff (cccs_ascending hd') hkept
  obtain ⟨hsame, hback⟩ := @visit_cccLoad peer mem' d'.all (d.storeCcc storeMax peer mem)
    (cccs_ascending hd') (hmap ▸ hkept)
  rw [← loadCcc_eq hd' hcleared, hmap] at hsame hback
  have hone : ∀ handle, (peerValue (d'.loadCcc peer (d.storeCcc storeMax peer mem) mem' handle)
      peer = d.value peer mem handle ↔ ((d.value peer mem handle).isSome →
        handle ∈ met (cccs d'.all) (d.kept storeMax peer mem) ∧
          (cccFindCfg (mem' handle) ⟨.any, 0⟩).isSome)) := by
    intro handle
    by_cases hmet : handle ∈ met (cccs d'.all) (d.kept storeMax peer mem)
    · obtain ⟨v, hv, hvalue⟩ := value_of_kept (mem_of_mem_met hmet).2
      have hin : (⟨handle, v⟩ : CccStore) ∈ d.storeCcc storeMax peer mem := by
        rw [storeCcc_eq hd]
        exact List.mem_map.2 ⟨handle, (mem_of_mem_met hmet).2, by rw [hv]; rfl⟩
      rw [hback ⟨handle, v⟩ hin hmet, peerValue_cccRestore (hcleared handle), hvalue]
      cases cccFindCfg (mem' handle) ⟨.any, 0⟩ <;> simp [hmet]
    · rw [hsame handle hmet, hcleared]
      cases d.value peer mem handle <;> simp [hmet]
  rw [Restores, InStep]
  simp only [hone]
  constructor
  · intro h handle hmem hsome
    obtain ⟨hmet, hfree⟩ := h handle hmem hsome
    refine ⟨(mem_of_mem_met hmet).2, hfree, hall.1 (fun a ha hk => ?_) handle hmem
      (mem_of_mem_met hmet).2⟩
    obtain ⟨v, -, hv⟩ := value_of_kept hk
    exact (h a ha (by rw [hv]; rfl)).1
  · intro h handle hmem hsome
    obtain ⟨hkept, hfree, -⟩ := h handle hmem hsome
    refine ⟨hall.2 (fun a ha hk => ?_) handle hmem hkept, hfree⟩
    obtain ⟨v, -, hv⟩ := value_of_kept hk
    exact (h a ha (by rw [hv]; rfl)).2.2

/-- The value of a CCC that is gone takes that of the next one with it. -/
theorem ccc_round_trip_iff_gone :
    let ccc (data : Bool) : Attr Bool := ⟨.u16 0x2902, 0, true, data⟩
    let db (first : Bool) : Db Bool := ⟨⟨[[ccc first, ccc true]], by simp⟩, fun _ => [], []⟩
    let peer : AddrWithId := ⟨⟨0, 1⟩, 0⟩
    ¬ InStep (db true) (db false) 3 peer (fun _ => [⟨0, ⟨0, 1⟩, 1⟩]) fun _ => [{}] := by
  intro ccc db peer h
  have ordered : ∀ first, (db first).Ordered := fun first => by
    refine ⟨fun svc h => absurd h (List.not_mem_nil), ?_, ?_⟩ <;> cases first <;> decide
  have hback := (ccc_round_trip_iff (ordered true) (ordered false) fun _ => by decide).2 h
  exact absurd (hback 2 (by decide)) (by decide)

end Gatt

end OpenBlue

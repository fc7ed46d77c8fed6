import Mathlib.Data.Fintype.Sigma
import Mathlib.Data.Fintype.Sum
import OpenBlue.Mesh.Page1
/-!
# Mesh — page 1 of the models that were related

The relations of a composition come from calls of `bt_mesh_model_extend` and
`bt_mesh_model_correspond`. What is on the list after any sequence of these is
known (`Listed`): the records of the calls that found a place, in order. So a
model on page 1 is right where what is read of it is what the model extends.
-/

namespace OpenBlue

namespace CompData

open List UInt8

/-! ## The models of a composition -/

/-- The models of a composition: a SIG model or a vendor model of an
element. -/
abbrev Comp.Mod (comp : Comp) : Type :=
  (i : Fin comp.elem.length) ×
    (Fin (comp.elem.get i).models.length ⊕ Fin (comp.elem.get i).vndModels.length)

/-- The model itself. -/
def Comp.get (comp : Comp) : comp.Mod → Model
  | ⟨i, .inl j⟩ => (comp.elem.get i).models.get j
  | ⟨i, .inr j⟩ => (comp.elem.get i).vndModels.get j

/-- `get_sig_offset`. -/
def Comp.getSigOffset (comp : Comp) : comp.Mod → ℕ
  | ⟨_, .inl _⟩ => 0
  | ⟨i, .inr _⟩ => (comp.elem.get i).models.length

/-- What the relations read of the models. -/
def Comp.info (comp : Comp) : Models comp.Mod where
  elemIdx m := (comp.get m).elemIdx
  modIdx m := (comp.get m).modIdx
  sigOffset m := UInt8.ofNat (comp.getSigOffset m)

/-- `mod_init`: each model holds where it is. -/
structure Comp.Initialised (comp : Comp) : Prop where
  elemIdx : ∀ m : comp.Mod, (comp.get m).elemIdx.toNat = m.1
  modIdx : ∀ m : comp.Mod, (comp.get m).modIdx.toNat = Sum.elim Fin.val Fin.val m.2

/-- The index of a model on page 1. -/
def Comp.index (comp : Comp) (m : comp.Mod) : ℕ :=
  (comp.get m).modIdx.toNat + comp.getSigOffset m

theorem Comp.getSigOffset_lt (comp : Comp) (m : comp.Mod) : comp.getSigOffset m < 256 := by
  obtain ⟨i, j | j⟩ := m
  · exact Nat.succ_pos _
  · exact (comp.elem.get i).models_lt

theorem Comp.Initialised.eq_of_place {comp : Comp} (h : comp.Initialised) {m m' : comp.Mod}
    (helem : (comp.get m).elemIdx = (comp.get m').elemIdx) (hidx : comp.index m = comp.index m') :
    m = m' := by
  have hi : m.1 = m'.1 := Fin.ext (by rw [← h.elemIdx m, ← h.elemIdx m', helem])
  have hj := h.modIdx m
  have hj' := h.modIdx m'
  rw [Comp.index, Comp.index, hj, hj'] at hidx
  obtain ⟨i, j⟩ := m
  obtain ⟨i', j'⟩ := m'
  obtain rfl : i = i' := hi
  rcases j with ⟨j, hlt⟩ | ⟨j, hlt⟩ <;> rcases j' with ⟨j', hlt'⟩ | ⟨j', hlt'⟩ <;>
    simp only [Comp.getSigOffset, Sum.elim_inl, Sum.elim_inr] at hidx
  · obtain rfl : j = j' := hidx
    rfl
  · omega
  · omega
  · obtain rfl : j = j' := by omega
    rfl

/-! ## What is on the list -/

variable {M : Type} {info : Models M} {used left : List ModRelation}
  {e : ModRelation}

/-- The list begins with what is registered and ends with free places. Its
extensions are those of the calls, but for records that look free; any other
type is less than the number of records. -/
structure Listed (info : Models M) (size : UInt8) (s : Extensions M) (log : List (M × M))
    (used left : List ModRelation) : Prop where
  list : s.modRelList = used ++ left
  length : used.length + left.length = size.toNat
  shown : ∀ r ∈ used, r.free = false
  free : ∀ r ∈ left, r.free = true
  exts : used.filter (fun r => r.type = relationTypeExt) =
    (log.map fun p => info.relation p.2 p.1 relationTypeExt).filter (fun r => !r.free)
  types : ∀ r ∈ used, r.type ≠ relationTypeExt → r.type.toNat < used.length

theorem modRelRegister_append (hused : ∀ r ∈ used, r.free = false)
    (hleft : ∀ r ∈ left, r.free = true) :
    modRelRegister e (used ++ left) = match left with
      | [] => none
      | _ :: left => some (used ++ e :: left) := by
  induction used with
  | nil =>
    cases left with
    | nil => rfl
    | cons r left => exact if_pos (hleft r mem_cons_self)
  | cons r used ih =>
    have hr : ¬ r.free = true := by
      rw [hused r mem_cons_self]
      decide
    rw [cons_append, modRelRegister, if_neg hr, ih fun r' hr' => hused r' (mem_cons_of_mem r hr')]
    cases left <;> rfl

theorem correspondType_le {n : ℕ} (hn : n < 255) {l : List ModRelation}
    (hl : ∀ r ∈ l, r.free = false → r.type ≠ relationTypeExt → r.type.toNat < n) {a b : M}
    {corId : UInt8} (hcor : corId.toNat ≤ n) : (correspondType info a b corId l).toNat ≤ n := by
  induction l generalizing corId with
  | nil => exact hcor
  | cons r l ih =>
    by_cases hfree : r.free = true
    · rw [correspondType, if_pos hfree]
      exact hcor
    · have hr := hl r mem_cons_self (Bool.eq_false_iff.2 hfree)
      have hnext : (if r.type < relationTypeExt ∧ r.type ≥ corId then r.type + 1
          else corId).toNat ≤ n := by
        split
        next htype =>
          have hlt := hr (UInt8.ne_of_lt htype.1)
          rw [UInt8.toNat_add, toNat_one, Nat.mod_eq_of_lt (by omega)]
          exact hlt
        · exact hcor
      rw [correspondType, if_neg hfree]
      dsimp only
      by_cases hrel : (info.inRelation b r ∨ info.inRelation a r) ∧ r.type < relationTypeExt
      · rw [if_pos hrel]
        exact (hr (UInt8.ne_of_lt hrel.2)).le
      · rw [if_neg hrel]
        exact ih (fun r' hr' => hl r' (mem_cons_of_mem r hr')) hnext

variable {size : UInt8} {s : Extensions M} {log : List (M × M)}

/-- A record that finds a place. -/
theorem Listed.register (h : Listed info size s log used left) {s' : Extensions M}
    {new : List (M × M)} (hlist : s'.modRelList = (modRelRegister e s.modRelList).getD s.modRelList)
    (htype : left ≠ [] → e.type ≠ relationTypeExt → e.type.toNat ≤ used.length)
    (hnew : (new.map fun p => info.relation p.2 p.1 relationTypeExt) =
      if left = [] ∨ e.type ≠ relationTypeExt then [] else [e]) :
    ∃ used left, Listed info size s' (log ++ new) used left := by
  rw [h.list, modRelRegister_append h.shown h.free] at hlist
  have hlog : (log ++ new).map (fun p => info.relation p.2 p.1 relationTypeExt) =
      log.map (fun p => info.relation p.2 p.1 relationTypeExt) ++
        if left = [] ∨ e.type ≠ relationTypeExt then [] else [e] := by
    rw [map_append, hnew]
  cases left with
  | nil =>
    rw [if_pos (.inl rfl), append_nil] at hlog
    refine ⟨used, [], hlist, h.length, h.shown, h.free, ?_, h.types⟩
    rw [hlog]
    exact h.exts
  | cons r left =>
    have hlen := h.length
    rw [length_cons] at hlen
    cases hfree : e.free with
    | true =>
      -- It still looks like a free place.
      refine ⟨used, e :: left, hlist, hlen, h.shown, ?_, ?_, h.types⟩
      · intro r' hr'
        rcases mem_cons.1 hr' with rfl | hr'
        · exact hfree
        · exact h.free r' (mem_cons_of_mem r hr')
      · rw [hlog, filter_append, h.exts]
        split <;> simp [hfree]
    | false =>
      refine ⟨used ++ [e], left, ?_, ?_, ?_, ?_, ?_, ?_⟩
      · rw [hlist, append_assoc]
        rfl
      · rw [length_append, length_singleton]
        omega
      · intro r' hr'
        rcases mem_append.1 hr' with hr' | hr'
        · exact h.shown r' hr'
        · rw [mem_singleton.1 hr']
          exact hfree
      · exact fun r' hr' => h.free r' (mem_cons_of_mem r hr')
      · rw [hlog, filter_append, filter_append, h.exts]
        by_cases hext : e.type = relationTypeExt <;> simp [hext, hfree]
      · intro r' hr' hne
        rw [length_append, length_singleton]
        rcases mem_append.1 hr' with hr' | hr'
        · have hlt := h.types r' hr' hne
          omega
        · obtain rfl := mem_singleton.1 hr'
          have hle := htype (cons_ne_nil r left) hne
          omega

variable [DecidableEq M]

/-- The pair of a call of `bt_mesh_model_extend` that finds a place. -/
def registers (info : Models M) (s : Extensions M) : RelCall M → List (M × M)
  | .extend a b =>
    if a ≠ b ∧ (modRelRegister (info.relation b a relationTypeExt) s.modRelList).isSome then [(a, b)]
    else []
  | .correspond _ _ => []

theorem ne_of_mem_registers {call : RelCall M} {p : M × M} (h : p ∈ registers info s call) :
    p.1 ≠ p.2 := by
  cases call with
  | extend a b =>
    rw [registers] at h
    split at h
    next hreg =>
      rw [mem_singleton.1 h]
      exact hreg.1
    · exact absurd h not_mem_nil
  | correspond a b => exact absurd h not_mem_nil

variable [Fintype M]

/-- **What a call leaves on the list.** -/
theorem Listed.step (h : Listed info size s log used left) (call : RelCall M) :
    ∃ used left, Listed info size (relStep info s call) (log ++ registers info s call) used left := by
  cases call with
  | extend a b =>
    by_cases hab : a = b
    · refine ⟨used, left, ?_⟩
      have hnone : registers info s (.extend a b) = [] := if_neg fun hne => hne.1 hab
      have hsame : (relStep info s (.extend a b)).modRelList = s.modRelList := if_pos hab
      rw [hnone, append_nil]
      exact ⟨hsame.trans h.list, h.length, h.shown, h.free, h.exts, h.types⟩
    · refine h.register (e := info.relation b a relationTypeExt) (if_neg hab)
        (fun _ hne => absurd rfl hne) ?_
      rw [registers, h.list, modRelRegister_append h.shown h.free]
      cases left <;> simp [hab, Models.relation]
  | correspond a b =>
    have hle : left ≠ [] → (correspondType info a b 0 s.modRelList).toNat ≤ used.length := by
      intro hleft
      have hpos := length_pos_of_ne_nil hleft
      have hsize := size.toNat_lt
      have hlen := h.length
      refine correspondType_le (by omega) (fun r hr hfree => ?_) (Nat.zero_le _)
      rw [h.list] at hr
      rcases mem_append.1 hr with hr | hr
      · exact h.types r hr
      · rw [h.free r hr] at hfree
        exact nomatch hfree
    refine h.register (e := info.relation b a (correspondType info a b 0 s.modRelList)) rfl
      (fun hleft _ => hle hleft) ?_
    by_cases hleft : left = []
    · rw [if_pos (.inl hleft)]
      rfl
    · have hlt := hle hleft
      have hpos := length_pos_of_ne_nil hleft
      have hsize := size.toNat_lt
      have hlen := h.length
      have hne : correspondType info a b 0 s.modRelList ≠ relationTypeExt := by
        intro heq
        rw [heq] at hlt
        have hff : relationTypeExt.toNat = 255 := rfl
        omega
      rw [if_pos (.inr hne)]
      rfl

/-- **What is on the list after any calls.** -/
theorem listed_run (info : Models M) (size : UInt8) (calls : List (RelCall M)) :
    ∃ used left, Listed info size (run (relStep info) (extensionsInit M size) calls)
      (emitted (relStep info) (registers info) (extensionsInit M size) calls) used left := by
  have hinit : ∃ used left, Listed info size (extensionsInit M size) [] used left := by
    refine ⟨[], List.replicate size.toNat ⟨0, 0, 0, 0, 0⟩, rfl, ?_, ?_, ?_, rfl, ?_⟩
    · rw [length_nil, length_replicate, Nat.zero_add]
    · exact fun r hr => absurd hr not_mem_nil
    · intro r hr
      rw [(mem_replicate.1 hr).2]
      rfl
    · exact fun r hr => absurd hr not_mem_nil
  have hrun := log_run (registers info) (fun s log => ∃ used left, Listed info size s log used left)
    (fun s call log h (_ : True) => by
      obtain ⟨used, left, h⟩ := h
      exact h.step call) hinit (along_of_forall (fun _ _ => trivial) _ calls)
  rwa [nil_append] at hrun

/-! ## The page -/

theorem page1ElemSize_pos (node : Node) (elem : Elem) : 0 < page1ElemSize node elem := by
  unfold page1ElemSize
  omega

/-- **Page 1 is made of items.** From the start on, in any room: what is
written is elements one after the other, from the first one on, and all of
them where they fit. -/
theorem btMeshCompDataGetPage1_items (node : Node) (room : ℕ) :
    ∃ elems, elems <+: node.comp.elem ∧ ∃ buf ret,
      btMeshCompDataGetPage1 node ⟨[], room, 0⟩ = some (buf, ret) ∧
      buf.data = elems.flatMap (page1Item node) ∧
      (compPage1Size node + micShort ≤ room → elems = node.comp.elem) := by
  have hloop : ∀ (l : List Elem) (data : Bytes) (room : ℕ), ∃ elems, elems <+: l ∧ ∃ buf ret,
      page1Loop node l ⟨data, room, 0⟩ = some (buf, ret) ∧
      buf.data = data ++ elems.flatMap (page1Item node) ∧
      ((l.map (page1ElemSize node)).sum + micShort ≤ room → elems = l) := by
    intro l
    induction l with
    | nil =>
      intro data room
      exact ⟨[], prefix_refl _, _, _, rfl, (append_nil data).symm, fun _ => rfl⟩
    | cons elem l ih =>
      intro data room
      have hpos := page1ElemSize_pos node elem
      have hstep : page1Loop node (elem :: l) ⟨data, room, 0⟩ =
          if room < page1ElemSize node elem + micShort then some (⟨data, room, 0⟩, notFit node)
          else (Writer.add (page1Item node elem) ⟨data, room, 0⟩).bind (page1Loop node l) :=
        (page1Loop_cons_size node elem l _).trans (if_neg (Nat.not_le.2 hpos))
      rw [hstep, map_cons, sum_cons]
      by_cases hroom : room < page1ElemSize node elem + micShort
      · rw [if_pos hroom]
        refine ⟨[], nil_prefix, _, _, rfl, (append_nil data).symm, fun hfits => ?_⟩
        omega
      · have hle := (length_page1Item node elem).1
        have hlen : (page1Item node elem).length ≤ room := by omega
        have hadd : Writer.add (page1Item node elem) ⟨data, room, 0⟩ =
            some ⟨data ++ page1Item node elem, room - (page1Item node elem).length, 0⟩ :=
          (Writer.add_of_le (w := ⟨data, room, 0⟩) hlen).trans (by simp)
        obtain ⟨elems, hprefix, buf, ret, hpage, hdata, hall⟩ :=
          ih (data ++ page1Item node elem) (room - (page1Item node elem).length)
        rw [if_neg hroom, hadd, Option.bind_some]
        refine ⟨elem :: elems, cons_prefix_cons.2 ⟨rfl, hprefix⟩, buf, ret, hpage, ?_, ?_⟩
        · rw [hdata, flatMap_cons, append_assoc]
        · intro hfits
          rw [hall (by omega)]
  obtain ⟨elems, hprefix, buf, ret, hpage, hdata, hall⟩ := hloop node.comp.elem [] room
  exact ⟨elems, hprefix, buf, ret, hpage, hdata, hall⟩

/-! ## What a model extends -/

variable {node : Node} {calls : List (RelCall node.comp.Mod)}

/-- The node after some calls. -/
def Node.related (node : Node) (size : UInt8) (calls : List (RelCall node.comp.Mod)) : Node :=
  { node with
    modRelList := (run (relStep node.comp.info) (extensionsInit _ size) calls).modRelList }

/-- Which model extends which: the pairs of the calls that found a place. -/
def registered (node : Node) (size : UInt8) (calls : List (RelCall node.comp.Mod)) :
    List (node.comp.Mod × node.comp.Mod) :=
  emitted (relStep node.comp.info) (registers node.comp.info) (extensionsInit _ size) calls

/-- The models that `m` extends. -/
def bases (node : Node) (size : UInt8) (calls : List (RelCall node.comp.Mod))
    (m : node.comp.Mod) : List node.comp.Mod :=
  ((registered node size calls).filter fun p => p.1 = m).map Prod.snd

/-- The element offset and the model index of a model that `m` extends. -/
def Comp.extValue (comp : Comp) (m b : comp.Mod) : ℤ × ℕ :=
  (((comp.get m).elemIdx.toNat : ℤ) - (comp.get b).elemIdx.toNat, comp.index b)

/-- **A model on page 1 is right**: what is read of it, whatever follows, is
its correspondence, and the element offset and index of each model it extends. -/
def ModelRight (node : Node) (size : UInt8) (calls : List (RelCall node.comp.Mod))
    (m : node.comp.Mod) : Prop :=
  ∀ rest, readModel (page1Model (node.related size calls) (node.comp.getSigOffset m)
      (node.comp.get m) ++ rest) =
    some (⟨isCorPresent (node.related size calls) (node.comp.get m) (node.comp.getSigOffset m),
      (bases node size calls m).map (node.comp.extValue m)⟩, rest)

/-- Extended models that have room in an item: few enough to be counted in six
bits; and either all of the short format, or all of the long one. -/
def ValuesFit (values : List (ℤ × ℕ)) : Prop :=
  values.length < 64 ∧
    ((values.length < 32 ∧ ∀ v ∈ values, (-4 ≤ v.1 ∧ v.1 ≤ 3) ∧ v.2 < 32) ∨
      ((values.length < 32 → ∀ v ∈ values, ¬ (-4 ≤ v.1 ∧ v.1 ≤ 3)) ∧
        ∀ v ∈ values, (-128 ≤ v.1 ∧ v.1 ≤ 127) ∧ v.2 < 256))

instance (values : List (ℤ × ℕ)) : Decidable (ValuesFit values) :=
  inferInstanceAs (Decidable (_ ∧ (_ ∨ _)))

/-- What a model extends has room in its item, and where it extends any its own
index has room in a record. -/
def ModelFits (node : Node) (size : UInt8) (calls : List (RelCall node.comp.Mod))
    (m : node.comp.Mod) : Prop :=
  ValuesFit ((bases node size calls m).map (node.comp.extValue m)) ∧
    (bases node size calls m ≠ [] → node.comp.index m < 256)

instance (node : Node) (size : UInt8) (calls : List (RelCall node.comp.Mod))
    (m : node.comp.Mod) : Decidable (ModelFits node size calls m) :=
  inferInstanceAs (Decidable (_ ∧ (_ → _)))

theorem Comp.toNat_relation_idx (comp : Comp) (m : comp.Mod) :
    ((comp.get m).modIdx + ofNat (comp.getSigOffset m)).toNat = comp.index m % 256 := by
  rw [UInt8.toNat_add, toNat_ofNat_of_lt' (comp.getSigOffset_lt m)]
  rfl

theorem extRels_related (size : UInt8) (m : node.comp.Mod) :
    extRels (node.related size calls) (node.comp.get m) (node.comp.getSigOffset m) =
        (((registered node size calls).map fun p =>
          node.comp.info.relation p.2 p.1 relationTypeExt).filter fun r => !r.free).filter
            (isModExtension (node.comp.get m) (node.comp.getSigOffset m)) ∧
      (extRels (node.related size calls) (node.comp.get m) (node.comp.getSigOffset m)).length <
        256 := by
  obtain ⟨used, left, h⟩ := listed_run node.comp.info size calls
  have hmod : modRels (node.related size calls) = used := by
    have hlist : (node.related size calls).modRelList = used ++ left := h.list
    have htake : (used ++ left).takeWhile (fun r => !r.free) = used := by
      rw [takeWhile_append_of_pos fun r hr => by rw [h.shown r hr]; rfl]
      cases left with
      | nil => exact append_nil used
      | cons r left =>
        have hr : r.free = true := h.free r mem_cons_self
        rw [takeWhile_cons_of_neg (by rw [hr]; decide), append_nil]
    rw [modRels, hlist]
    refine Eq.trans (congrArg (fun p => (used ++ left).takeWhile p) (funext fun r => ?_)) htake
    simp [ModRelation.free]
  have hexts : extRels (node.related size calls) (node.comp.get m) (node.comp.getSigOffset m) =
      (used.filter fun r => r.type = relationTypeExt).filter
        (isModExtension (node.comp.get m) (node.comp.getSigOffset m)) := by
    rw [extRels, hmod, filter_filter]
    exact filter_congr fun r _ => by simp
  refine ⟨by rw [hexts, h.exts]; rfl, ?_⟩
  have hle := length_filter_le
    (fun r => isModExtension (node.comp.get m) (node.comp.getSigOffset m) r ∧
      r.type = relationTypeExt) used
  have hlen := h.length
  have hsize := size.toNat_lt
  rw [extRels, hmod]
  omega

theorem ne_of_mem_registered {p : node.comp.Mod × node.comp.Mod} {size : UInt8}
    (h : p ∈ registered node size calls) : p.1 ≠ p.2 :=
  forall_mem_emitted (fun _ _ _ => ne_of_mem_registers) _ calls p h

/-! ## Indexes that have room in a record -/

/-- A model and one it extends, with indexes of eight bits. -/
def IndexesFit (comp : Comp) (p : comp.Mod × comp.Mod) : Prop :=
  comp.index p.1 < 256 ∧ comp.index p.2 < 256

/-- **The records of a model are those of its calls**, where every index has
room. -/
theorem extRels_eq_bases (hinit : node.comp.Initialised) (size : UInt8)
    (hfit : ∀ p ∈ registered node size calls, IndexesFit node.comp p) (m : node.comp.Mod) :
    extRels (node.related size calls) (node.comp.get m) (node.comp.getSigOffset m) =
      (bases node size calls m).map fun b => node.comp.info.relation b m relationTypeExt := by
  rw [(extRels_related size m).1, filter_filter, filter_map, bases, map_map]
  have hmem : ∀ p ∈ registered node size calls,
      (isModExtension (node.comp.get m) (node.comp.getSigOffset m)
          (node.comp.info.relation p.2 p.1 relationTypeExt) &&
        !(node.comp.info.relation p.2 p.1 relationTypeExt).free) = decide (p.1 = m) := by
    intro p hp
    obtain ⟨hext, hbase⟩ := hfit p hp
    have hidx : (node.comp.info.relation p.2 p.1 relationTypeExt).idxExt.toNat =
        node.comp.index p.1 := (node.comp.toNat_relation_idx p.1).trans (Nat.mod_eq_of_lt hext)
    have hidx' : (node.comp.info.relation p.2 p.1 relationTypeExt).idxBase.toNat =
        node.comp.index p.2 := (node.comp.toNat_relation_idx p.2).trans (Nat.mod_eq_of_lt hbase)
    -- A record that looks free would relate a model to itself.
    have hshown : (node.comp.info.relation p.2 p.1 relationTypeExt).free = false := by
      rw [Bool.eq_false_iff]
      intro hfree
      simp only [ModRelation.free, Bool.decide_and, Bool.and_eq_true, decide_eq_true_eq] at hfree
      obtain ⟨helem, hzero, helem', hzero'⟩ := hfree
      rw [hzero] at hidx'
      rw [hzero'] at hidx
      exact ne_of_mem_registered hp (hinit.eq_of_place (helem'.trans helem.symm)
        (hidx.symm.trans hidx'))
    have hiff : isModExtension (node.comp.get m) (node.comp.getSigOffset m)
        (node.comp.info.relation p.2 p.1 relationTypeExt) = true ↔ p.1 = m := by
      simp only [isModExtension, Bool.decide_and, Bool.and_eq_true, decide_eq_true_eq, hidx]
      constructor
      · exact fun h => hinit.eq_of_place h.1 h.2
      · rintro rfl
        exact ⟨rfl, rfl⟩
    rw [hshown, Bool.not_false, Bool.and_true]
    exact Bool.eq_iff_iff.2 (by rw [hiff, decide_eq_true_iff])
  have hfilter : (registered node size calls).filter
      ((fun r => isModExtension (node.comp.get m) (node.comp.getSigOffset m) r && !r.free) ∘
        fun p => node.comp.info.relation p.2 p.1 relationTypeExt) =
      (registered node size calls).filter fun p => p.1 = m := filter_congr hmem
  rw [hfilter]
  refine map_congr_left fun p hp => ?_
  have hp := of_decide_eq_true (mem_filter.1 hp).2
  simp only [Function.comp_apply, ← hp]

theorem relValue_bases (hinit : node.comp.Initialised) (size : UInt8)
    (hfit : ∀ p ∈ registered node size calls, IndexesFit node.comp p) (m : node.comp.Mod) :
    (extRels (node.related size calls) (node.comp.get m) (node.comp.getSigOffset m)).map
        (relValue (node.comp.get m)) = (bases node size calls m).map (node.comp.extValue m) := by
  rw [extRels_eq_bases hinit size hfit m, map_map]
  refine map_congr_left fun b hb => ?_
  obtain ⟨p, hp, rfl⟩ := mem_map.1 hb
  have hidx := (hfit p (mem_filter.1 hp).1).2
  refine Prod.ext rfl ?_
  exact (node.comp.toNat_relation_idx p.2).trans (Nat.mod_eq_of_lt hidx)

theorem itemFits_iff {sigOffset : ℕ} {mod : Model} : ItemFits node sigOffset mod ↔
    ValuesFit ((extRels node mod sigOffset).map (relValue mod)) := by
  have hidx : ∀ r : ModRelation, r.idxBase < 32 ↔ r.idxBase.toNat < 32 := fun r =>
    lt_iff_toNat_lt
  have hlt : ∀ r : ModRelation, r.idxBase.toNat < 256 := fun r => r.idxBase.toNat_lt
  have hnear : ∀ r : ModRelation, Near mod r ↔ -4 ≤ elemOffset mod r ∧ elemOffset mod r ≤ 3 := by
    intro r
    unfold Near
    omega
  simp only [ItemFits, ValuesFit, length_map, forall_mem_map, relValue, hidx, hlt, hnear, and_true]

theorem snd_lt_of_readItems {long : Bool} {n : ℕ} {bs rest : Bytes} {items : List (ℤ × ℕ)}
    (h : readItems long n bs = some (items, rest)) : ∀ item ∈ items, item.2 < 256 := by
  induction n generalizing bs rest items with
  | zero =>
    obtain ⟨rfl, -⟩ := Prod.mk.inj (Option.some.inj h)
    exact fun item hitem => absurd hitem not_mem_nil
  | succ n ih =>
    rw [readItems, Option.bind_eq_bind, Option.bind_eq_some_iff] at h
    obtain ⟨⟨item, bs'⟩, hitem, h⟩ := h
    obtain ⟨⟨items', rest'⟩, hitems, h⟩ := Option.bind_eq_some_iff.1 h
    obtain ⟨rfl, -⟩ := Prod.mk.inj (Option.some.inj h)
    have hone : item.2 < 256 := by
      unfold readItem at hitem
      split at hitem
      · obtain ⟨rfl, -⟩ := Prod.mk.inj (Option.some.inj hitem)
        exact toNat_lt _
      · obtain ⟨rfl, -⟩ := Prod.mk.inj (Option.some.inj hitem)
        exact toNat_lt _
      · cases hitem
    intro item' hitem'
    rcases mem_cons.1 hitem' with rfl | hitem'
    · exact hone
    · exact ih hitems item' hitem'

theorem toNat_countModExt_related (size : UInt8) (m : node.comp.Mod) :
    (countModExt (node.related size calls) (node.comp.get m) (node.comp.getSigOffset m)).toNat =
      (extRels (node.related size calls) (node.comp.get m) (node.comp.getSigOffset m)).length :=
  toNat_ofNat_of_lt' (extRels_related size m).2

theorem ModelRight.indexes {size : UInt8} {m b : node.comp.Mod}
    (h : ModelRight node size calls m) (hb : b ∈ bases node size calls m) :
    node.comp.index m < 256 ∧ node.comp.index b < 256 := by
  have hread := h []
  rw [readModel_page1Model (toNat_countModExt_related size m)] at hread
  obtain ⟨⟨values, left⟩, hitems, hp⟩ := Option.map_eq_some_iff.1 hread
  obtain ⟨hmodel, -⟩ := Prod.mk.inj hp
  obtain rfl : values = (bases node size calls m).map (node.comp.extValue m) :=
    congrArg PageModel.items hmodel
  refine ⟨?_, snd_lt_of_readItems hitems _ (mem_map_of_mem hb)⟩
  have hpos := length_pos_of_mem hb
  have hnum := (length_of_readItems hitems).1
  rw [length_map] at hnum
  obtain ⟨r, hr⟩ := exists_mem_of_length_pos (l := extRels (node.related size calls)
    (node.comp.get m) (node.comp.getSigOffset m)) (Nat.pos_of_ne_zero fun hzero => by
      rw [hzero] at hnum
      omega)
  have hext := (mem_filter.1 hr).2
  simp only [isModExtension, Bool.decide_and, Bool.and_eq_true, decide_eq_true_eq] at hext
  have hlt := r.idxExt.toNat_lt
  rw [hext.1.2] at hlt
  exact hlt

theorem mem_bases {size : UInt8} {p : node.comp.Mod × node.comp.Mod}
    (hp : p ∈ registered node size calls) : p.2 ∈ bases node size calls p.1 :=
  mem_map.2 ⟨p, mem_filter.2 ⟨hp, decide_eq_true rfl⟩, rfl⟩

/-- **Page 1 is decodable just where what the models extend has room in their
items.** Whatever calls related the models of a composition: page 1 is made of
the items of its models, and what is read of every item is what the model
extends, if and only if for each model its extended models are fewer than 64,
call for one format and have room in it. -/
theorem page1_decodable_iff (node : Node) (hinit : node.comp.Initialised) (size : UInt8)
    (calls : List (RelCall node.comp.Mod)) :
    (∀ room, ∃ elems, elems <+: node.comp.elem ∧ ∃ buf ret,
      btMeshCompDataGetPage1 (node.related size calls) ⟨[], room, 0⟩ = some (buf, ret) ∧
      buf.data = elems.flatMap (page1Item (node.related size calls)) ∧
      (compPage1Size (node.related size calls) + micShort ≤ room → elems = node.comp.elem)) ∧
    ((∀ m, ModelRight node size calls m) ↔ ∀ m, ModelFits node size calls m) := by
  refine ⟨btMeshCompDataGetPage1_items (node.related size calls), fun h m => ?_, fun h m => ?_⟩
  · have hfit : ∀ p ∈ registered node size calls, IndexesFit node.comp p := fun p hp =>
      (h p.1).indexes (mem_bases hp)
    have hvalues := relValue_bases hinit size hfit m
    refine ⟨?_, fun hne => ?_⟩
    · have hright : ItemRight (node.related size calls) (node.comp.getSigOffset m)
          (node.comp.get m) := by
        intro rest
        rw [hvalues]
        exact h m rest
      rw [← hvalues]
      exact itemFits_iff.1 (hright.fits (toNat_countModExt_related size m))
    · obtain ⟨b, hb⟩ := List.exists_mem_of_ne_nil _ hne
      exact ((h m).indexes hb).1
  · have hfit : ∀ p ∈ registered node size calls, IndexesFit node.comp p := by
      intro p hp
      have hb := mem_bases hp
      obtain ⟨⟨-, hvalues⟩, hidx⟩ := h p.1
      refine ⟨hidx (List.ne_nil_of_mem hb), ?_⟩
      have hmem := List.mem_map_of_mem (f := node.comp.extValue p.1) hb
      rcases hvalues with ⟨-, hall⟩ | ⟨-, hall⟩
      · have hlt := (hall _ hmem).2
        exact hlt.trans (by decide)
      · exact (hall _ hmem).2
    have hvalues := relValue_bases hinit size hfit m
    have hfits : ItemFits (node.related size calls) (node.comp.getSigOffset m)
        (node.comp.get m) := by
      rw [itemFits_iff, hvalues]
      exact (h m).1
    have hright := hfits.right (toNat_countModExt_related size m)
    intro rest
    rw [← hvalues]
    exact hright rest

/-- An element with one SIG model. -/
def oneModel (i : UInt8) : Elem :=
  ⟨0, [{ id := 0x1000, elemIdx := i }], [], (by decide : 1 < 2 ^ 8),
    (by decide : 0 < 2 ^ 8)⟩

/-- A node of such elements. -/
def lineNode (n : ℕ) : Node where
  large := false
  compPage1 := true
  compPage2 := false
  relay := false
  gattProxy := false
  friend := false
  lowPower := false
  crpl := 10
  comp := ⟨0, 0, 0, (List.range n).map fun i => oneModel (UInt8.ofNat i)⟩
  comp2 := none
  modRelList := []

/-- The model of an element of it. -/
def lineMod {n : ℕ} (i : ℕ) (h : i < n) : (lineNode n).comp.Mod :=
  ⟨⟨i, by simpa [lineNode] using h⟩, .inl ⟨0, by simp [lineNode, oneModel]⟩⟩

/-- The model of the last element extends those of the two before it. -/
theorem page1_decodable_near :
    ModelRight (lineNode 3) 10 [.extend (lineMod 2 (by decide)) (lineMod 0 (by decide)),
      .extend (lineMod 2 (by decide)) (lineMod 1 (by decide))] (lineMod 2 (by decide)) :=
  (page1_decodable_iff (lineNode 3) ⟨by decide, by decide⟩ 10
    [.extend (lineMod 2 (by decide)) (lineMod 0 (by decide)),
      .extend (lineMod 2 (by decide)) (lineMod 1 (by decide))]).2.2 (by decide) _

/-- The model of the last element extends a near one and one far away. -/
def mixedCalls : List (RelCall (lineNode 11).comp.Mod) :=
  [.extend (lineMod 10 (by decide)) (lineMod 0 (by decide)),
    .extend (lineMod 10 (by decide)) (lineMod 9 (by decide))]

/-- **A near model and one far away.** The header announces the long format,
and the second item is written in the short one: there is not enough for two
items of two bytes. -/
theorem not_page1_decodable_mixed :
    ¬ (∀ m, ModelRight (lineNode 11) 10 mixedCalls m) ∧
      page1Model ((lineNode 11).related 10 mixedCalls) 0 { id := 0x1000, elemIdx := 10 } =
        [10, 10, 0, 1] ∧
      readModel [10, 10, 0, 1] = none := by
  refine ⟨fun h => ?_, by decide +kernel, by decide⟩
  exact absurd (h (lineMod 10 (by decide)) []) (by decide +kernel)

end CompData

end OpenBlue

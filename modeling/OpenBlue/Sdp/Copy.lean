import OpenBlue.Sdp.Model.Response
/-!
# SDP — an attribute on the wire

What an element is on the wire, and that `copy_attribute` takes just the
bytes of it from the index on that there is space for, however its
elements are nested and wherever the bytes before were cut.
-/

namespace OpenBlue

namespace Sdp

open List DataElem

/-! ## The wire form -/

mutual

/-- An element on the wire. -/
def DataElem.encode : DataElem → Bytes
  | .value type dataSize totalSize data =>
    elemHdr (.value type dataSize totalSize data) ++
      if isNumber type then data.reverse else data
  | .list type dataSize totalSize data =>
    elemHdr (.list type dataSize totalSize data) ++ encodeElems data

/-- The elements of a sequence on the wire. -/
def encodeElems : List DataElem → Bytes
  | [] => []
  | elem :: elems => elem.encode ++ encodeElems elems

end

variable {elem : DataElem} {elems : List DataElem} {levels : ℕ} {type dataSize totalSize : ℕ}

theorem sizeDesc_lt (type : ℕ) : sizeDesc type < 8 := Nat.mod_lt type (by decide)

theorem SizesOk.total (h : SizesOk type dataSize totalSize) :
    totalSize = dataSize + 1 ∨ totalSize = dataSize + 1 + 1 ∨ totalSize = dataSize + 2 + 1 ∨
      totalSize = dataSize + 4 + 1 := by
  rw [SizesOk] at h
  split at h
  · exact .inl h.2.2
  split at h
  · exact .inl h.2.2
  split at h
  · exact .inl (by omega)
  · obtain ⟨-, hge, -, htotal⟩ := h
    have hlt := sizeDesc_lt type
    generalize sizeDesc type = n at hge hlt htotal
    obtain rfl | rfl | rfl : n = 5 ∨ n = 6 ∨ n = 7 := by omega
    all_goals simp only [Nat.reduceSub, Nat.reducePow] at htotal
    all_goals omega

theorem SizesOk.number (h : SizesOk type dataSize totalSize) (hnumber : isNumber type) :
    dataSize = 1 ∨ dataSize = 2 ∨ dataSize = 4 ∨ dataSize = 8 ∨ dataSize = 16 := by
  rw [SizesOk] at h
  split at h
  · obtain ⟨hle, rfl, -⟩ := h
    generalize sizeDesc type = n at hle
    obtain rfl | rfl | rfl | rfl | rfl : n = 0 ∨ n = 1 ∨ n = 2 ∨ n = 3 ∨ n = 4 := by omega
    all_goals simp
  next hno =>
    rw [isNumber, ← or_assoc, or_iff_right hno] at hnumber
    rw [if_pos hnumber] at h
    obtain ⟨hmem, rfl, -⟩ := h
    simp only [mem_cons, not_mem_nil, or_false] at hmem
    obtain hn | hn | hn := hmem
    all_goals simp [hn]

theorem SizesOk.uuid (h : SizesOk type dataSize totalSize) (huuid : typeDesc type = uuidUnspec) :
    dataSize = 2 ∨ dataSize = 4 ∨ dataSize = 16 := by
  rw [SizesOk, huuid, if_neg (by decide), if_pos rfl] at h
  obtain ⟨hmem, rfl, -⟩ := h
  simp only [mem_cons, not_mem_nil, or_false] at hmem
  obtain hn | hn | hn := hmem
  all_goals simp [hn]

theorem length_elemHdr (h : SizesOk elem.type elem.dataSize elem.totalSize) :
    (elemHdr elem).length + elem.dataSize = elem.totalSize := by
  obtain htotal | htotal | htotal | htotal := h.total
  · rw [elemHdr, show elem.totalSize - (elem.dataSize + 1) = 0 by omega]
    simp only [length_cons, length_nil]
    omega
  · rw [elemHdr, show elem.totalSize - (elem.dataSize + 1) = 1 by omega]
    simp only [length_cons, length_nil]
    omega
  · rw [elemHdr, show elem.totalSize - (elem.dataSize + 1) = 2 by omega]
    simp only [be16, length_cons, length_nil]
    omega
  · rw [elemHdr, show elem.totalSize - (elem.dataSize + 1) = 4 by omega]
    simp only [be32, be16, length_cons, length_nil, length_append]
    omega

theorem DataElem.Ok.sizes (h : elem.Ok levels) :
    SizesOk elem.type elem.dataSize elem.totalSize := by
  cases levels with
  | zero => exact h.elim
  | succ levels =>
    cases elem with
    | value type dataSize totalSize data => exact h.1
    | list type dataSize totalSize data => exact h.1

/-- **The total size is that of the wire form.** -/
theorem length_encode (h : elem.Ok levels) : elem.encode.length = elem.totalSize := by
  induction levels generalizing elem with
  | zero => exact h.elim
  | succ levels ih =>
    have hhdr := length_elemHdr h.sizes
    cases elem with
    | value type dataSize totalSize data =>
      obtain ⟨-, -, -, hdata⟩ := h
      have hlen : (if isNumber type then data.reverse else data).length = dataSize := by
        split
        · rw [length_reverse, hdata]
        · exact hdata
      rw [encode, length_append, hlen]
      exact hhdr
    | list type dataSize totalSize data =>
      obtain ⟨-, -, -, hsum, hdata⟩ := h
      have hlen : (encodeElems data).length = (data.map DataElem.totalSize).sum := by
        clear hsum hhdr
        induction data with
        | nil => rfl
        | cons elem elems ihelems =>
          rw [forall_mem_cons] at hdata
          rw [encodeElems, length_append, ih hdata.1, ihelems hdata.2, map_cons, sum_cons]
      rw [encode, length_append, hlen, hsum]
      exact hhdr

theorem DataElem.Ok.totalSize_pos (h : elem.Ok levels) : 0 < elem.totalSize := by
  have := h.sizes.total
  omega

/-! ## Copying -/

variable {c c' : Copy} {data data' : Bytes} {len len' : ℕ}

/-- What is copied of data: what is behind the index and has space. -/
structure Copied (c : Copy) (data : Bytes) (c' : Copy) (len : ℕ) : Prop where
  buf : c'.buf = c.buf ++ (data.drop (c.index - c.offset)).take c.space
  count : len = min (data.length - (c.index - c.offset)) c.space
  index : c'.index = c.index + len
  space : c'.space = c.space - len
  offset : c'.space ≠ 0 → c'.offset = c.offset + data.length

theorem Copied.offset_le (h : Copied c data c' len) (hle : c.offset ≤ c.index)
    (hspace : c'.space ≠ 0) : c'.offset ≤ c'.index := by
  have hoffset := h.offset hspace
  have hlen := h.count
  have hindex := h.index
  have hleft := h.space
  omega

theorem Copied.count_all (h : Copied c data c' len) (hspace : c'.space ≠ 0) :
    len = data.length - (c.index - c.offset) := by
  have hlen := h.count
  have hleft := h.space
  omega

theorem Copied.skip (h : Copied c data c' len) (hle : c.offset ≤ c.index) (hspace : c'.space ≠ 0) :
    c'.index - c'.offset = c.index - c.offset - data.length := by
  rw [h.index, h.count_all hspace, h.offset hspace]
  omega

/-- **Data is copied piece by piece.** -/
theorem Copied.append {c'' : Copy} (h : Copied c data c' len) (hle : c.offset ≤ c.index)
    (hspace : c'.space ≠ 0) (h' : Copied c' data' c'' len') :
    Copied c (data ++ data') c'' (len + len') := by
  have hall := h.count_all hspace
  have hskip := h.skip hle hspace
  have hleft := h.space
  refine ⟨?_, ?_, ?_, ?_, fun hspace' => ?_⟩
  · rw [h'.buf, h.buf, append_assoc, drop_append, take_append, length_drop, hskip, hleft, hall]
  · rw [h'.count, hskip, hleft, length_append]
    omega
  · rw [h'.index, h.index, Nat.add_assoc]
  · rw [h'.space, hleft, Nat.sub_sub]
  · rw [h'.offset hspace', h.offset hspace, length_append, Nat.add_assoc]

theorem Copied.full (h : Copied c data c' len) (hle : c.offset ≤ c.index)
    (hspace : c'.space = 0) : Copied c (data ++ data') c' len := by
  have hlen := h.count
  have hleft := h.space
  refine ⟨?_, ?_, h.index, h.space, fun hno => absurd hspace hno⟩
  · rw [h.buf, drop_append, take_append_of_le_length]
    rw [length_drop]
    omega
  · rw [length_append]
    omega

theorem copied_fromBuf (hle : c.offset ≤ c.index) (hsmall : data.length < 2 ^ 16) :
    Copied c data (copyAttributeFromBuf data data.length c).1
      (copyAttributeFromBuf data data.length c).2 := by
  rw [copyAttributeFromBuf]
  dsimp only
  rw [if_neg (by omega)]
  split
  next hlt =>
    have hcount : min ((c.offset + data.length - c.index) % 2 ^ 16) c.space =
        min (data.length - (c.index - c.offset)) c.space := by
      rw [Nat.mod_eq_of_lt (by omega)]
      congr 1
      omega
    refine ⟨?_, hcount, rfl, rfl, fun _ => rfl⟩
    dsimp only
    rw [hcount]
    refine congrArg _ (take_eq_take_iff.mpr ?_)
    rw [length_drop]
    omega
  next hge =>
    have hnil : data.drop (c.index - c.offset) = [] := drop_of_length_le (by omega)
    refine ⟨by simp [hnil], ?_, rfl, rfl, fun _ => rfl⟩
    dsimp only
    omega

/-- What `copy_attribute` does with an element inside another. -/
def Copies (copy : DataElem → Copy → Except Stop (Copy × ℕ)) (elem : DataElem) : Prop :=
  ∀ c, c.offset ≤ c.index → c.space ≠ 0 →
    ∃ c' len, copy elem c = .ok (c', len) ∧ Copied c elem.encode c' len

variable {copy : DataElem → Copy → Except Stop (Copy × ℕ)}

/-- **The elements of a sequence are copied one after another.** -/
theorem copyElems_copied (hne : elems ≠ []) (hcopies : ∀ elem ∈ elems, Copies copy elem)
    (hle : c.offset ≤ c.index) (hspace : c.space ≠ 0) (totalLen : ℕ)
    (hpos : ∀ elem ∈ elems, 0 < elem.totalSize) :
    ∃ c' len, copyElems copy elems (elems.map DataElem.totalSize).sum totalLen c =
        .ok (c', totalLen + len) ∧ Copied c (encodeElems elems) c' len := by
  induction elems generalizing c totalLen with
  | nil => exact absurd rfl hne
  | cons elem elems ih =>
    rw [forall_mem_cons] at hcopies hpos
    obtain ⟨c₁, len, hcopy, hcopied⟩ := hcopies.1 c hle hspace
    rw [copyElems, hcopy, encodeElems]
    change ∃ c' len', (if c₁.space = 0 then Except.ok (c₁, totalLen + len) else _) = _ ∧ _
    by_cases hfull : c₁.space = 0
    · rw [if_pos hfull]
      exact ⟨c₁, len, rfl, hcopied.full hle hfull⟩
    rw [if_neg hfull, map_cons, sum_cons, if_neg (by omega), Nat.add_sub_cancel_left]
    cases elems with
    | nil =>
      rw [map_nil, sum_nil, if_pos rfl]
      refine ⟨c₁, len, rfl, ?_⟩
      rwa [encodeElems, append_nil]
    | cons elem' elems =>
      have hpos' := hpos.2 elem' mem_cons_self
      rw [if_neg (by rw [map_cons, sum_cons]; omega)]
      obtain ⟨c', len', hcopy', hcopied'⟩ :=
        ih nofun hcopies.2 (hcopied.offset_le hle hfull) hfull (totalLen + len) hpos.2
      refine ⟨c', len + len', ?_, hcopied.append hle hfull hcopied'⟩
      rw [hcopy', Nat.add_assoc]

theorem copyBody_copied (hok : elem.Ok (levels + 1)) (hsmall : elem.encode.length < 2 ^ 16)
    (hcopies : ∀ e ∈ elem.elems, Copies copy e) (hle : c.offset ≤ c.index) :
    ∃ c' len, copyBody copy elem c = .ok (c', len) ∧ Copied c elem.encode c' len := by
  cases elem with
  | value type dataSize totalSize data =>
    obtain ⟨hsizes, hseq, halt, hdata⟩ := hok
    subst hdata
    have hlen : ¬ data.length < data.length := lt_irrefl _
    rw [copyBody]
    simp only [DataElem.type, DataElem.dataSize, bytes, hseq, halt, or_self, if_false, hlen]
    rw [encode] at hsmall ⊢
    by_cases hnumber : isNumber type
    · rw [if_pos hnumber] at hsmall ⊢
      simp only [hnumber, if_true, hsizes.number hnumber, take_length]
      exact ⟨_, _, rfl, copied_fromBuf hle hsmall⟩
    · rw [if_neg hnumber] at hsmall ⊢
      simp only [hnumber, if_false]
      rw [length_append] at hsmall
      have hhdr : Copied c (elemHdr (.value type data.length totalSize data)) _ _ :=
        copied_fromBuf hle (by omega)
      split
      next hfull => exact ⟨_, _, rfl, hhdr.full hle hfull⟩
      next hfull =>
        have hrest : Copied _ data _ _ := copied_fromBuf (hhdr.offset_le hle hfull) (by omega)
        exact ⟨_, _, rfl, hhdr.append hle hfull hrest⟩
  | list type dataSize totalSize data =>
    obtain ⟨hsizes, hseq, hne, rfl, hdata⟩ := hok
    rw [copyBody]
    simp only [DataElem.type, DataElem.dataSize, DataElem.elems, hseq, if_true]
    rw [encode, length_append] at hsmall
    rw [encode]
    have hhdr : Copied c (elemHdr (.list type (data.map DataElem.totalSize).sum totalSize data))
        _ _ := copied_fromBuf hle (by omega)
    split
    next hfull => exact ⟨_, _, rfl, hhdr.full hle hfull⟩
    next hfull =>
      obtain ⟨c', len', hcopy, hcopied⟩ := copyElems_copied hne hcopies
        (hhdr.offset_le hle hfull) hfull _ fun e he => (hdata e he).totalSize_pos
      exact ⟨c', _, hcopy, hhdr.append hle hfull hcopied⟩

theorem length_encode_mem (h : elem ∈ elems) : elem.encode.length ≤ (encodeElems elems).length := by
  induction elems with
  | nil => nomatch h
  | cons e elems ih =>
    rw [encodeElems, length_append]
    obtain rfl | h := mem_cons.mp h
    · omega
    · have := ih h
      omega

/-- **An element inside another is copied**, however deep it is nested. -/
theorem copyInner_copied (hok : elem.Ok levels) (hsmall : elem.encode.length < 2 ^ 16) :
    Copies (copyInner levels) elem := by
  induction levels generalizing elem with
  | zero => exact hok.elim
  | succ levels ih =>
    intro c hle hspace
    rw [copyInner, if_neg hspace]
    refine copyBody_copied hok hsmall (fun e he => ?_) hle
    cases elem with
    | value => nomatch he
    | list type dataSize totalSize data =>
      have hmem := @length_encode_mem e data he
      rw [encode, length_append] at hsmall
      exact ih (hok.2.2.2.2 e he) (by omega)

/-- **The value of an attribute is copied from an index in it on.** The
index is zero again just where all of it was copied. -/
theorem copyAttribute_copied (hok : elem.Ok (nestLevelMax - 1))
    (hsmall : elem.totalSize < 2 ^ 16) {index space : ℕ} (hindex : index < elem.totalSize)
    (hspace : space ≠ 0) : ∃ c, copyAttribute elem { index := index, space := space } =
        .ok (c, min (elem.totalSize - index) space) ∧
      c.buf = (elem.encode.drop index).take space ∧
      c.index = (if elem.totalSize - index ≤ space then 0 else index + space) ∧
      c.space = space - (elem.totalSize - index) := by
  have hlen := length_encode hok
  have hinner : ∀ e ∈ elem.elems, Copies (copyInner (nestLevelMax - 2)) e := by
    intro e he
    cases elem with
    | value => nomatch he
    | list type dataSize totalSize data =>
      have hmem := @length_encode_mem e data he
      rw [encode, length_append] at hlen
      exact copyInner_copied (hok.2.2.2.2 e he) (by omega)
  obtain ⟨c, len, hcopy, hcopied⟩ := copyBody_copied (c := { index := index, space := space }) hok
    (by omega) hinner (Nat.zero_le index)
  have hcount : len = min (elem.encode.length - (index - 0)) space := hcopied.count
  have hleft : c.space = space - len := hcopied.space
  have hat : c.index = index + len := hcopied.index
  have hbuf : c.buf = [] ++ (elem.encode.drop (index - 0)).take space := hcopied.buf
  rw [Nat.sub_zero, hlen] at hcount
  rw [copyAttribute, if_neg hspace, if_neg (Nat.not_le.mpr hindex), hcopy]
  refine ⟨if elem.totalSize ≤ c.index then { c with index := 0 } else c, ?_, ?_, ?_, ?_⟩
  · rw [hcount]
    rfl
  · rw [apply_ite Copy.buf, ite_self, hbuf, Nat.sub_zero, nil_append]
  · by_cases hall : elem.totalSize - index ≤ space
    · rw [if_pos (by omega), if_pos hall]
    · rw [if_neg (by omega), if_neg hall]
      omega
  · rw [apply_ite Copy.space, ite_self, hleft]
    omega

end Sdp

end OpenBlue

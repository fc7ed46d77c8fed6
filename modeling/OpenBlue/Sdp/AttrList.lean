import OpenBlue.Sdp.Copy
import OpenBlue.Common.Paging
/-!
# SDP — the attribute list of a record

What `create_attr_list` adds to a response is a page of the pieces that
the selected attributes are: the head of a piece is the attribute ID, with
the declaration of the record's sequence before the first one, and its
body the value. Where the page is full the state says where the rest
starts.
-/

namespace OpenBlue

namespace Sdp

open List

/-- An attribute from an index of its value on, behind the sequence
declaration where that is still to come. -/
def Attribute.piece (attr : Attribute) (size : ℕ) (first : Bool) (index : ℕ) : Piece UInt8 where
  head := (if first then 0x36 :: be16 size else []) ++
    if index = 0 then 0x09 :: be16 attr.id else []
  body := attr.val.encode.drop index

/-- The selected attributes, from an index of the first one on. -/
def pieces (filter : List ℕ) (size : ℕ) : List Attribute → Bool → ℕ → List (Piece UInt8)
  | [], _, _ => []
  | attr :: attrs, first, index =>
    if selects filter attr.id then
      attr.piece size first index :: pieces filter size attrs false 0
    else pieces filter size attrs first index

/-- The size of the selected attributes. -/
def listSize (filter : List ℕ) : List Attribute → ℕ
  | [] => 0
  | attr :: attrs =>
    if selects filter attr.id then 3 + attr.val.totalSize + listSize filter attrs
    else listSize filter attrs

/-- The index is inside the first of the selected attributes. -/
def Inside (filter : List ℕ) (attrs : List Attribute) (index : ℕ) : Prop :=
  index = 0 ∨ ∀ attr ∈ attrs.find? fun attr => selects filter attr.id, index < attr.val.totalSize

/-- The values of the attributes are well formed, and short enough for
16-bit lengths. -/
def Short (attrs : List Attribute) : Prop :=
  ∀ attr ∈ attrs, attr.val.Ok (nestLevelMax - 1) ∧ attr.val.totalSize < 2 ^ 16

variable {srv : Server} {rec : Record} {filter : List ℕ} {cont idx : ℕ} {attr : Attribute}
  {attrs : List Attribute} {sad sad' : SelectAttrs} {buf : Bytes}

theorem pieces_of_not (h : selects filter attr.id = false) (size : ℕ) (first : Bool) (index : ℕ) :
    pieces filter size (attr :: attrs) first index = pieces filter size attrs first index := by
  rw [pieces, if_neg (by simp [h])]

theorem Inside.of_not (h : selects filter attr.id = false) {index : ℕ} :
    Inside filter (attr :: attrs) index ↔ Inside filter attrs index := by
  rw [Inside, Inside, find?_cons_of_neg (by simp [h])]

theorem Inside.of_selects (h : selects filter attr.id = true) {index : ℕ} :
    Inside filter (attr :: attrs) index ↔ index = 0 ∨ index < attr.val.totalSize := by
  have hfind : (attr :: attrs).find? (fun attr => selects filter attr.id) = some attr :=
    find?_cons_of_pos h
  rw [Inside, hfind]
  simp

/-! ## Without copying -/

/-- Something of a record is selected for the first time. -/
def SelectAttrs.starts (sad : SelectAttrs) : Prop :=
  sad.state.lastAttIndex = 0 ∧ sad.state.lastAtt = 0 ∧ sad.newService

instance (sad : SelectAttrs) : Decidable sad.starts := inferInstanceAs (Decidable (_ ∧ _ ∧ _))

/-- The sizes with those of some attributes more. -/
def SelectAttrs.counted (sad : SelectAttrs) (size start : ℕ) : SelectAttrs :=
  { sad with
    seq := sad.seq.map fun (at', n) => (at', (n + size) % 2 ^ 16)
    newService := false
    state := { sad.state with attListSize := (sad.state.attListSize + (size + start)) % 2 ^ 16 } }

theorem selectAttrs_of_fillRsp (hselects : selects filter attr.id = true)
    (h : fillRsp srv rec cont attr idx sad = .ok sad') :
    selectAttrs srv rec filter cont attr idx sad =
      .ok (sad'.counted (3 + attr.val.totalSize) (if sad.starts then 3 else 0)) := by
  rw [selectAttrs, if_neg (by simp [hselects]), h]
  refine congrArg Except.ok ?_
  rw [SelectAttrs.counted]
  by_cases hstarts : sad.starts
  · rw [if_pos hstarts]
    simp only [SelectAttrs.starts] at hstarts
    rw [if_pos hstarts]
  · rw [if_neg hstarts]
    simp only [SelectAttrs.starts] at hstarts
    rw [if_neg hstarts, Nat.add_zero]

theorem fillRsp_full (h : sad.rspBuf = none ∨ sad.state.pktFull = true) :
    fillRsp srv rec cont attr idx sad = .ok sad := by
  rw [fillRsp]
  obtain hnone | hfull := h
  · rw [hnone]
  · rw [hfull]
    cases sad.rspBuf <;> rfl

/-- The sizes are 16 bits. -/
def SelectAttrs.Small (sad : SelectAttrs) : Prop :=
  sad.state.attListSize < 2 ^ 16 ∧ ∀ x ∈ sad.seq, x.2 < 2 ^ 16

theorem counted_zero (h : sad.Small) :
    { sad.counted 0 0 with newService := sad.newService } = sad := by
  obtain ⟨buf, seq, maxAttLen, attListLen, newService, state⟩ := sad
  obtain ⟨hstate, hseq⟩ := h
  rw [SelectAttrs.counted]
  dsimp only at hstate hseq ⊢
  rw [Nat.add_zero, Nat.mod_eq_of_lt hstate]
  cases seq with
  | none => rfl
  | some x => rw [Option.map_some, Nat.add_zero, Nat.mod_eq_of_lt (hseq x rfl)]

theorem counted_counted (m n k : ℕ) (sad : SelectAttrs) :
    (sad.counted m k).counted n 0 = sad.counted (m + n) k := by
  have hstate : ((sad.state.attListSize + (m + k)) % 2 ^ 16 + (n + 0)) % 2 ^ 16 =
      (sad.state.attListSize + (m + n + k)) % 2 ^ 16 := by omega
  rw [SelectAttrs.counted, SelectAttrs.counted, SelectAttrs.counted]
  dsimp only
  rw [hstate]
  cases sad.seq with
  | none => rfl
  | some x => simp only [Option.map_some, Nat.mod_add_mod, Nat.add_assoc]

theorem small_counted (m k : ℕ) (sad : SelectAttrs) : (sad.counted m k).Small := by
  refine ⟨Nat.mod_lt _ (by decide), fun x hx => ?_⟩
  rw [SelectAttrs.counted, Option.mem_map] at hx
  obtain ⟨y, -, rfl⟩ := hx
  exact Nat.mod_lt _ (by decide)

/-- **Where nothing is copied the attributes are counted.** -/
theorem foreachAttr_full (h : sad.rspBuf = none ∨ sad.state.pktFull = true)
    (hidx : idx + attrs.length ≤ 255) (hsmall : sad.Small) :
    ∃ b, foreachAttr (selectAttrs srv rec filter cont) attrs idx sad =
      .ok { sad.counted (listSize filter attrs)
        (if sad.starts ∧ attrs.any fun attr => selects filter attr.id then 3 else 0) with
          newService := b } := by
  induction attrs generalizing idx sad with
  | nil =>
    refine ⟨sad.newService, ?_⟩
    rw [foreachAttr, listSize, if_neg (by simp), counted_zero hsmall]
  | cons attr attrs ih =>
    rw [length_cons] at hidx
    rw [foreachAttr]
    cases hselects : selects filter attr.id with
    | false =>
      obtain ⟨b, hrest⟩ := @ih (idx + 1) sad h (by omega) hsmall
      refine ⟨b, ?_⟩
      rw [selectAttrs, if_pos hselects, listSize, if_neg (by simp [hselects]), any_cons,
        hselects, Bool.false_or, ← hrest]
      change (if 256 ≤ idx + 1 then _ else _) = _
      rw [if_neg (by omega)]
    | true =>
      have hone := @selectAttrs_of_fillRsp srv rec filter cont idx attr sad sad hselects
        (fillRsp_full h)
      have hstart : (if sad.starts ∧ (true || attrs.any fun attr => selects filter attr.id) then 3
          else 0) = if sad.starts then 3 else 0 := by simp
      rw [hone, listSize, if_pos hselects, any_cons, hselects, hstart]
      generalize (if sad.starts then 3 else 0) = k
      obtain ⟨b, hrest⟩ := @ih (idx + 1) (sad.counted (3 + attr.val.totalSize) k) h (by omega)
        (small_counted _ _ _)
      have hstarts : ¬ (sad.counted (3 + attr.val.totalSize) k).starts := fun hno =>
        nomatch hno.2.2
      rw [if_neg (fun hno => hstarts hno.1), counted_counted] at hrest
      refine ⟨b, ?_⟩
      rw [← hrest]
      change (if 256 ≤ idx + 1 then _ else _) = _
      rw [if_neg (by omega)]

/-! ## Copying -/

/-- The room of a page that is the rest of the response. -/
def Server.room (srv : Server) (cont len maxAttLen : ℕ) : ℕ := srv.space len maxAttLen - cont

theorem Server.space_eq (srv : Server) {len : ℕ} (maxAttLen : ℕ)
    (hlen : len + hdrSize ≤ min sdpMtu srv.mtu) :
    srv.space len maxAttLen = min (min sdpMtu srv.mtu - len - hdrSize) maxAttLen := by
  have hmtu : min sdpMtu srv.mtu ≤ 205 := min_le_left _ _
  have hhdr : hdrSize = 5 := rfl
  rw [Server.space, sub16, sub16]
  generalize min sdpMtu srv.mtu = m at hmtu hlen ⊢
  rw [hhdr] at hlen ⊢
  have hsub : ((m + 2 ^ 16 - len % 2 ^ 16) % 2 ^ 16 + 2 ^ 16 - 5 % 2 ^ 16) % 2 ^ 16 =
      m - len - 5 := by omega
  rw [hsub]

/-- What a page takes of an attribute. -/
def SelectAttrs.filled (sad : SelectAttrs) (rec : Record) (idx : ℕ) (buf : Bytes) (p : Piece UInt8)
    (room : ℕ) : SelectAttrs :=
  { sad with
    rspBuf := some (buf ++ p.all.take room)
    seq := if sad.first then some (buf.length, 0) else sad.seq
    maxAttLen := sub16 sad.maxAttLen (min p.all.length room)
    attListLen := (sad.attListLen + min p.all.length room) % 2 ^ 16
    state := { sad.state with
      lastAtt := if p.all.length ≤ room then (idx + 1) % 256 else idx
      lastAttIndex := if p.all.length ≤ room then 0
        else sad.state.lastAttIndex + (room - p.head.length)
      currentSvc := rec.index
      pktFull := room ≤ p.all.length } }

/-- The packet is full. -/
def SelectAttrs.full (sad : SelectAttrs) : SelectAttrs :=
  { sad with state := { sad.state with pktFull := true } }

theorem length_piece_head (size : ℕ) (first : Bool) (index : ℕ) :
    (attr.piece size first index).head.length =
      (if first then 3 else 0) + if index = 0 then 3 else 0 := by
  rw [Attribute.piece]
  dsimp only
  rw [length_append]
  cases first <;> by_cases hindex : index = 0 <;> simp [hindex, be16]

theorem length_piece_all (hok : attr.val.Ok (nestLevelMax - 1)) {size index : ℕ} {first : Bool} :
    (attr.piece size first index).all.length =
      (attr.piece size first index).head.length + (attr.val.totalSize - index) := by
  rw [Piece.all, length_append, ← length_encode hok, ← length_drop]
  rfl

theorem fillAttr_eq (hok : attr.val.Ok (nestLevelMax - 1)) (hsmall : attr.val.totalSize < 2 ^ 16)
    (hindex : sad.state.lastAttIndex < attr.val.totalSize) (room : ℕ) :
    fillAttr rec attr idx buf room sad = .ok
      (if room ≤ (attr.piece 0 sad.first sad.state.lastAttIndex).head.length then sad.full
        else sad.filled rec idx buf (attr.piece 0 sad.first sad.state.lastAttIndex) room) := by
  have hhead := @length_piece_head attr 0 sad.first sad.state.lastAttIndex
  have hall := @length_piece_all attr hok 0 sad.state.lastAttIndex sad.first
  rw [fillAttr]
  dsimp only
  rw [← hhead]
  by_cases hroom : room ≤ (attr.piece 0 sad.first sad.state.lastAttIndex).head.length
  · rw [if_pos hroom, if_pos hroom]
    rfl
  rw [if_neg hroom, if_neg hroom]
  obtain ⟨c, hcopy, hbuf, hat, hleft⟩ := copyAttribute_copied hok hsmall hindex
    (show room - (attr.piece 0 sad.first sad.state.lastAttIndex).head.length ≠ 0 by omega)
  have hpage : (if sad.state.lastAttIndex = 0 then
        (if sad.first then buf ++ [0x36, 0, 0] else buf) ++ 0x09 :: be16 attr.id
      else if sad.first then buf ++ [0x36, 0, 0] else buf) ++ c.buf =
      buf ++ (attr.piece 0 sad.first sad.state.lastAttIndex).all.take room := by
    have htake : (attr.piece 0 sad.first sad.state.lastAttIndex).head.take room =
        (attr.piece 0 sad.first sad.state.lastAttIndex).head :=
      take_of_length_le (by omega)
    rw [hbuf, Piece.all, take_append, htake, ← append_assoc]
    congr 1
    rw [Attribute.piece]
    dsimp only
    rw [← append_assoc]
    cases sad.first <;> by_cases hzero : sad.state.lastAttIndex = 0 <;> simp [hzero, be16]
  rw [hcopy]
  refine congrArg Except.ok ?_
  rw [SelectAttrs.filled]
  dsimp only
  rw [hpage]
  have hcount : (attr.piece 0 sad.first sad.state.lastAttIndex).head.length +
      min (attr.val.totalSize - sad.state.lastAttIndex)
        (room - (attr.piece 0 sad.first sad.state.lastAttIndex).head.length) =
      min (attr.piece 0 sad.first sad.state.lastAttIndex).all.length room := by omega
  have hfit : attr.val.totalSize - sad.state.lastAttIndex ≤
        room - (attr.piece 0 sad.first sad.state.lastAttIndex).head.length ↔
      (attr.piece 0 sad.first sad.state.lastAttIndex).all.length ≤ room := by omega
  have hfull : c.space = 0 ↔
      room ≤ (attr.piece 0 sad.first sad.state.lastAttIndex).all.length := by omega
  have hzero : c.index = 0 ↔ (attr.piece 0 sad.first sad.state.lastAttIndex).all.length ≤ room := by
    rw [hat, ← hfit]
    split <;> omega
  simp only [hcount, hzero, hfull]
  simp only [hat, hfit]

/-- What the attributes from one on become: a page, and what is left. -/
structure Filled (rec : Record) (filter : List ℕ) (attrs : List Attribute) (sad : SelectAttrs)
    (buf page : Bytes) (rest : Option (List (Piece UInt8))) (sad' : SelectAttrs) : Prop where
  rspBuf : sad'.rspBuf = some (buf ++ page)
  attListLen : sad'.attListLen = sad.attListLen + page.length
  seq : sad'.seq = (if sad.first ∧ page ≠ [] then some (buf.length, 0) else sad.seq).map
    fun (at', n) => (at', (n + listSize filter attrs) % 2 ^ 16)
  attListSize : sad'.state.attListSize = (sad.state.attListSize + (listSize filter attrs +
    if sad.starts ∧ attrs.any fun attr => selects filter attr.id then 3 else 0)) % 2 ^ 16
  pktFull : sad'.state.pktFull = rest.isSome
  currentSvc : sad'.state.currentSvc = if page = [] then sad.state.currentSvc else rec.index
  stays : page = [] → sad'.state.lastAtt = sad.state.lastAtt ∧
    sad'.state.lastAttIndex = sad.state.lastAttIndex
  moves : page ≠ [] → ¬ (sad'.state.lastAttIndex = 0 ∧ sad'.state.lastAtt = 0)
  lastAtt_le : sad.state.lastAtt ≤ 255 → sad'.state.lastAtt ≤ 255
  lastAttIndex_lt : sad.state.lastAttIndex < 2 ^ 16 → sad'.state.lastAttIndex < 2 ^ 16
  goesOn : ∀ ps ∈ rest,
    pieces filter 0 (rec.attrs.drop sad'.state.lastAtt)
      (sad'.state.lastAttIndex = 0 ∧ sad'.state.lastAtt = 0) sad'.state.lastAttIndex = ps ∧
    Inside filter (rec.attrs.drop sad'.state.lastAtt) sad'.state.lastAttIndex

/-- The attributes that were passed over are not selected. -/
def Skips (rec : Record) (filter : List ℕ) (attrs : List Attribute) (lastAtt : ℕ) : Prop :=
  ∃ skipped, rec.attrs.drop lastAtt = skipped ++ attrs ∧
    ∀ attr ∈ skipped, selects filter attr.id = false

theorem pieces_append {skipped : List Attribute}
    (h : ∀ attr ∈ skipped, selects filter attr.id = false) (size : ℕ) (first : Bool) (index : ℕ) :
    pieces filter size (skipped ++ attrs) first index = pieces filter size attrs first index := by
  induction skipped with
  | nil => rfl
  | cons attr skipped ih =>
    rw [forall_mem_cons] at h
    rw [cons_append, pieces_of_not h.1, ih h.2]

theorem inside_append {skipped : List Attribute}
    (h : ∀ attr ∈ skipped, selects filter attr.id = false) {index : ℕ} :
    Inside filter (skipped ++ attrs) index ↔ Inside filter attrs index := by
  induction skipped with
  | nil => exact Iff.rfl
  | cons attr skipped ih =>
    rw [forall_mem_cons] at h
    rw [cons_append, Inside.of_not h.1, ih h.2]

theorem first_eq (h : sad.seq.isSome → ¬ (sad.state.lastAttIndex = 0 ∧ sad.state.lastAtt = 0)) :
    sad.first = decide (sad.state.lastAttIndex = 0 ∧ sad.state.lastAtt = 0) := by
  rw [SelectAttrs.first, decide_eq_decide]
  refine ⟨fun hfirst => hfirst.2, fun hzero => ⟨?_, hzero⟩⟩
  cases hseq : sad.seq with
  | none => rfl
  | some x => exact absurd hzero (h (by rw [hseq]; rfl))

/-- **The packet is full before the first attribute.** -/
theorem filled_none (hbuf : sad.rspBuf = some buf)
    (hidx : idx + (attrs.length + 1) ≤ 255) (hselects : selects filter attr.id = true)
    (hskips : Skips rec filter (attr :: attrs) sad.state.lastAtt)
    (hinside : Inside filter (attr :: attrs) sad.state.lastAttIndex)
    (hfirst : sad.seq.isSome → ¬ (sad.state.lastAttIndex = 0 ∧ sad.state.lastAtt = 0))
    (hfill : fillRsp srv rec cont attr idx sad = .ok sad.full) :
    ∃ sad', foreachAttr (selectAttrs srv rec filter cont) (attr :: attrs) idx sad = .ok sad' ∧
      Filled rec filter (attr :: attrs) sad buf []
        (some (pieces filter 0 (attr :: attrs) sad.first sad.state.lastAttIndex)) sad' := by
  obtain ⟨skipped, hdrop, hskipped⟩ := hskips
  have hone := selectAttrs_of_fillRsp hselects hfill
  generalize hk : (if sad.starts then 3 else 0) = k at hone
  obtain ⟨b, hrest⟩ := @foreachAttr_full srv rec filter cont (idx + 1) attrs
    (sad.full.counted (3 + attr.val.totalSize) k) (.inr rfl) (by omega) (small_counted _ _ _)
  have hstarts : ¬ (sad.full.counted (3 + attr.val.totalSize) k).starts := fun hno => nomatch hno.2.2
  rw [if_neg (fun hno => hstarts hno.1), counted_counted] at hrest
  refine ⟨{ sad.full.counted (3 + attr.val.totalSize + listSize filter attrs) k with
    newService := b }, ?_, ?_⟩
  · rw [foreachAttr, hone, ← hrest]
    change (if 256 ≤ idx + 1 then _ else _) = _
    rw [if_neg (by omega)]
  · refine ⟨?_, rfl, ?_, ?_, rfl, rfl, fun _ => ⟨rfl, rfl⟩, fun hno => absurd rfl hno, id, id,
      fun ps hps => ?_⟩
    · rw [append_nil]
      exact hbuf
    · rw [if_neg (by simp), listSize, if_pos hselects]
      rfl
    · rw [listSize, if_pos hselects, any_cons, hselects, ← hk]
      simp [SelectAttrs.counted, SelectAttrs.full]
    · obtain rfl := Option.some.inj hps
      change pieces filter 0 (rec.attrs.drop sad.state.lastAtt)
          (sad.state.lastAttIndex = 0 ∧ sad.state.lastAtt = 0) sad.state.lastAttIndex = _ ∧
        Inside filter (rec.attrs.drop sad.state.lastAtt) sad.state.lastAttIndex
      rw [hdrop, pieces_append hskipped, inside_append hskipped, first_eq hfirst]
      exact ⟨rfl, hinside⟩

/-- **The packet is full with an attribute**, or inside it. -/
theorem filled_last (hok : attr.val.Ok (nestLevelMax - 1)) (hshort : attr.val.totalSize < 2 ^ 16)
    (hidx : idx + (attrs.length + 1) ≤ 255) (hselects : selects filter attr.id = true)
    (hdrop : rec.attrs.drop idx = attr :: attrs)
    (hindex : sad.state.lastAttIndex < attr.val.totalSize)
    {p : Piece UInt8} (hp : p = attr.piece 0 sad.first sad.state.lastAttIndex) {room : ℕ}
    (hhead : p.head.length < room) (hroom : room ≤ p.all.length)
    (hatt : sad.attListLen + room < 2 ^ 16)
    (hfill : fillRsp srv rec cont attr idx sad = .ok (sad.filled rec idx buf p room)) :
    ∃ sad', foreachAttr (selectAttrs srv rec filter cont) (attr :: attrs) idx sad = .ok sad' ∧
      Filled rec filter (attr :: attrs) sad buf (p.all.take room)
        (some (if p.all.length = room then pieces filter 0 attrs false 0
          else ⟨[], p.body.drop (room - p.head.length)⟩ :: pieces filter 0 attrs false 0)) sad' := by
  have hall := @length_piece_all attr hok 0 sad.state.lastAttIndex sad.first
  rw [← hp] at hall
  have hone := selectAttrs_of_fillRsp hselects hfill
  generalize hk : (if sad.starts then 3 else 0) = k at hone
  have hpage : (p.all.take room).length = room := by
    rw [length_take]
    omega
  have hne : p.all.take room ≠ [] := ne_nil_of_length_pos (by omega)
  obtain ⟨b, hrest⟩ := @foreachAttr_full srv rec filter cont (idx + 1) attrs
    ((sad.filled rec idx buf p room).counted (3 + attr.val.totalSize) k)
    (.inr (by simp [SelectAttrs.counted, SelectAttrs.filled, hroom])) (by omega)
    (small_counted _ _ _)
  have hstarts : ¬ ((sad.filled rec idx buf p room).counted (3 + attr.val.totalSize) k).starts :=
    fun hno => nomatch hno.2.2
  rw [if_neg (fun hno => hstarts hno.1), counted_counted] at hrest
  refine ⟨{ (sad.filled rec idx buf p room).counted
    (3 + attr.val.totalSize + listSize filter attrs) k with newService := b }, ?_, ?_⟩
  · rw [foreachAttr, hone, ← hrest]
    change (if 256 ≤ idx + 1 then _ else _) = _
    rw [if_neg (by omega)]
  · refine ⟨rfl, ?_, ?_, ?_, ?_, ?_, fun hno => absurd hno hne, fun _ => ?_, fun _ => ?_,
      fun _ => ?_, fun ps hps => ?_⟩
    · change (sad.attListLen + min p.all.length room) % 2 ^ 16 = _
      rw [hpage]
      omega
    · rw [listSize, if_pos hselects, if_congr (and_iff_left hne) rfl rfl]
      rfl
    · rw [listSize, if_pos hselects, any_cons, hselects, ← hk]
      simp [SelectAttrs.counted, SelectAttrs.filled]
    · change decide (room ≤ p.all.length) = true
      exact decide_eq_true hroom
    · rw [if_neg hne]
      rfl
    all_goals by_cases hfit : p.all.length ≤ room
    · change ¬ ((if p.all.length ≤ room then 0 else _) = 0 ∧
        (if p.all.length ≤ room then (idx + 1) % 256 else idx) = 0)
      rw [if_pos hfit, if_pos hfit]
      omega
    · change ¬ ((if p.all.length ≤ room then 0 else _) = 0 ∧ _)
      rw [if_neg hfit]
      omega
    · change (if p.all.length ≤ room then (idx + 1) % 256 else idx) ≤ 255
      rw [if_pos hfit]
      omega
    · change (if p.all.length ≤ room then (idx + 1) % 256 else idx) ≤ 255
      rw [if_neg hfit]
      omega
    · change (if p.all.length ≤ room then 0 else _) < 2 ^ 16
      rw [if_pos hfit]
      decide
    · change (if p.all.length ≤ room then 0 else _) < 2 ^ 16
      rw [if_neg hfit]
      omega
    all_goals
      obtain rfl := Option.some.inj hps
      suffices hgoes : ∀ la li, la = (if p.all.length ≤ room then (idx + 1) % 256 else idx) →
          li = (if p.all.length ≤ room then 0
            else sad.state.lastAttIndex + (room - p.head.length)) →
          pieces filter 0 (rec.attrs.drop la) (li = 0 ∧ la = 0) li = _ ∧
            Inside filter (rec.attrs.drop la) li from hgoes _ _ rfl rfl
      intro la li hla hli
    · rw [if_pos hfit] at hla hli
      have hla : la = idx + 1 := by omega
      have hnext : rec.attrs.drop (idx + 1) = attrs := by
        rw [← tail_drop, hdrop, tail_cons]
      have hzero : ¬ (0 = 0 ∧ idx + 1 = 0) := by omega
      rw [hla, hli, hnext, decide_eq_false hzero, if_pos (by omega)]
      exact ⟨rfl, .inl rfl⟩
    · rw [if_neg hfit] at hla hli
      have hzero : ¬ (li = 0 ∧ idx = 0) := by omega
      rw [hla, hdrop, decide_eq_false hzero, if_neg (by omega), pieces, if_pos hselects,
        Attribute.piece, if_neg nofun, if_neg (by omega), hli]
      refine ⟨?_, (Inside.of_selects hselects).mpr (.inr (by omega))⟩
      rw [hp, Attribute.piece, drop_drop]
      rfl

theorem fillRsp_eq (hok : attr.val.Ok (nestLevelMax - 1)) (hshort : attr.val.totalSize < 2 ^ 16)
    (hindex : sad.state.lastAttIndex < attr.val.totalSize) (hbuf : sad.rspBuf = some buf)
    (hfull : sad.state.pktFull = false) {p : Piece UInt8}
    (hp : p = attr.piece 0 sad.first sad.state.lastAttIndex) {room : ℕ}
    (hroom : room = srv.room cont buf.length sad.maxAttLen) : fillRsp srv rec cont attr idx sad =
      .ok (if room ≤ p.head.length then sad.full else sad.filled rec idx buf p room) := by
  rw [Server.room] at hroom
  rw [fillRsp, hbuf, hfull, hp]
  dsimp only
  rw [if_neg nofun]
  split
  next hnone => rw [if_pos (by omega), SelectAttrs.full, hbuf]
  · rw [fillAttr_eq hok hshort hindex, hroom]

theorem Skips.cons_of_not {lastAtt : ℕ} (h : Skips rec filter (attr :: attrs) lastAtt)
    (hselects : selects filter attr.id = false) : Skips rec filter attrs lastAtt := by
  obtain ⟨skipped, hdrop, hskipped⟩ := h
  refine ⟨skipped ++ [attr], by simpa using hdrop, fun a ha => ?_⟩
  obtain ha | ha := mem_append.mp ha
  · exact hskipped a ha
  · rwa [mem_singleton.mp ha]

theorem Filled.of_not {page : Bytes} {rest : Option (List (Piece UInt8))}
    (h : Filled rec filter attrs sad buf page rest sad')
    (hselects : selects filter attr.id = false) :
    Filled rec filter (attr :: attrs) sad buf page rest sad' := by
  have hsize : listSize filter (attr :: attrs) = listSize filter attrs := by
    rw [listSize, if_neg (by simp [hselects])]
  have hany : ((attr :: attrs).any fun attr => selects filter attr.id) =
      attrs.any fun attr => selects filter attr.id := by
    rw [any_cons, hselects, Bool.false_or]
  refine ⟨h.rspBuf, h.attListLen, ?_, ?_, h.pktFull, h.currentSvc, h.stays, h.moves,
    h.lastAtt_le, h.lastAttIndex_lt, h.goesOn⟩
  · rw [hsize]
    exact h.seq
  · rw [hsize, hany]
    exact h.attListSize

theorem SelectAttrs.Small.seq_eq (h : sad.Small) :
    (sad.seq.map fun (at', n) => (at', (n + 0) % 2 ^ 16)) = sad.seq := by
  cases hseq : sad.seq with
  | none => rfl
  | some x =>
    obtain ⟨at', n⟩ := x
    have hn : n < 2 ^ 16 := h.2 (at', n) hseq
    have hmod : (n + 0) % 2 ^ 16 = n := Nat.mod_eq_of_lt hn
    rw [Option.map_some]
    dsimp only
    rw [hmod]

/-- **The packet has room for more** behind an attribute. -/
theorem Filled.cons {p : Piece UInt8} {page : Bytes} {rest : Option (List (Piece UInt8))}
    {k room : ℕ} (hk : (if sad.starts then 3 else 0) = k)
    (hselects : selects filter attr.id = true) (hroom : p.all.length < room)
    (hne : p.all ≠ []) (hidx : idx < 255) (hatt : sad.attListLen + p.all.length < 2 ^ 16)
    (h : Filled rec filter attrs
      ((sad.filled rec idx buf p room).counted (3 + attr.val.totalSize) k) (buf ++ p.all) page
      rest sad') : Filled rec filter (attr :: attrs) sad buf (p.all ++ page) rest sad' := by
  have hlast : ((sad.filled rec idx buf p room).counted (3 + attr.val.totalSize) k).state.lastAtt =
      idx + 1 := by
    change (if p.all.length ≤ room then (idx + 1) % 256 else idx) = _
    rw [if_pos (by omega)]
    omega
  have hindex : ((sad.filled rec idx buf p room).counted (3 + attr.val.totalSize)
      k).state.lastAttIndex = 0 := if_pos hroom.le
  have hfirst : ((sad.filled rec idx buf p room).counted (3 + attr.val.totalSize) k).first =
      false := by
    rw [SelectAttrs.first, hlast]
    simp
  have hstarts : ¬ ((sad.filled rec idx buf p room).counted (3 + attr.val.totalSize) k).starts :=
    fun hno => nomatch hno.2.2
  have hpage : p.all ++ page ≠ [] := append_ne_nil_of_left_ne_nil hne page
  refine ⟨?_, ?_, ?_, ?_, h.pktFull, ?_, fun hno => absurd hno hpage, fun _ => ?_, fun _ => ?_,
    fun _ => ?_, h.goesOn⟩
  · rw [h.rspBuf, append_assoc]
  · rw [h.attListLen]
    change (sad.attListLen + min p.all.length room) % 2 ^ 16 + _ = _
    rw [length_append]
    omega
  · rw [h.seq, if_neg (fun hno => by simp [hfirst] at hno), listSize, if_pos hselects,
      if_congr (and_iff_left hpage) rfl rfl]
    change Option.map _ (Option.map _ (if sad.first then _ else _)) = _
    rw [Option.map_map]
    congr 1
    funext x
    simp only [Function.comp, Nat.mod_add_mod, Nat.add_assoc]
  · rw [h.attListSize, if_neg (fun hno => hstarts hno.1), listSize, if_pos hselects,
      any_cons, hselects, ← hk]
    change ((sad.state.attListSize + (3 + attr.val.totalSize + if sad.starts then 3 else 0)) %
      2 ^ 16 + _) % 2 ^ 16 = _
    simp only [Bool.true_or, and_true]
    omega
  · rw [h.currentSvc, if_neg hpage]
    split <;> rfl
  · by_cases hnil : page = []
    · rw [(h.stays hnil).1, hlast]
      omega
    · exact h.moves hnil
  · exact h.lastAtt_le (by omega)
  · exact h.lastAttIndex_lt (by omega)

/-- **The attributes from one on are a page of their pieces.** -/
theorem foreachAttr_fill (hshort : Short attrs) (hdrop : rec.attrs.drop idx = attrs)
    (hidx : idx + attrs.length ≤ 255) (hbuf : sad.rspBuf = some buf)
    (hfull : sad.state.pktFull = false) (hsmall : sad.Small)
    (hlen : buf.length + hdrSize ≤ min sdpMtu srv.mtu) (hmax : sad.maxAttLen < 2 ^ 16)
    (hatt : sad.attListLen + (min sdpMtu srv.mtu - buf.length) < 2 ^ 16)
    (hskips : Skips rec filter attrs sad.state.lastAtt)
    (hinside : Inside filter attrs sad.state.lastAttIndex)
    (hfirst : sad.seq.isSome → ¬ (sad.state.lastAttIndex = 0 ∧ sad.state.lastAtt = 0)) :
    ∃ sad', foreachAttr (selectAttrs srv rec filter cont) attrs idx sad = .ok sad' ∧
      Filled rec filter attrs sad buf (fill (srv.room cont buf.length sad.maxAttLen)
          (pieces filter 0 attrs sad.first sad.state.lastAttIndex)).1
        (fill (srv.room cont buf.length sad.maxAttLen)
          (pieces filter 0 attrs sad.first sad.state.lastAttIndex)).2 sad' := by
  have hspace := srv.space_eq sad.maxAttLen hlen
  have hmtu : min sdpMtu srv.mtu ≤ 205 := min_le_left _ _
  induction attrs generalizing idx sad buf with
  | nil =>
    refine ⟨sad, rfl, ⟨?_, rfl, ?_, ?_, hfull, rfl, fun _ => ⟨rfl, rfl⟩, fun hno => absurd rfl hno,
      id, id, nofun⟩⟩
    · rw [hbuf, pieces, fill, append_nil]
    · rw [if_neg (by simp [pieces]), listSize, hsmall.seq_eq]
    · rw [if_neg (by simp), listSize, Nat.zero_add, Nat.add_zero, Nat.mod_eq_of_lt hsmall.1]
  | cons attr attrs ih =>
    rw [length_cons] at hidx
    have hshort' := forall_mem_cons.mp hshort
    obtain ⟨hok, hvalue⟩ := hshort'.1
    have hnext : rec.attrs.drop (idx + 1) = attrs := by
      rw [← tail_drop, hdrop, tail_cons]
    cases hselects : selects filter attr.id with
    | false =>
      rw [pieces_of_not hselects]
      obtain ⟨sad', hrun, hfilled⟩ := ih hshort'.2 hnext (by omega) hbuf hfull hsmall hlen hmax hatt
        (hskips.cons_of_not hselects) ((Inside.of_not hselects).mp hinside) hfirst hspace
      refine ⟨sad', ?_, hfilled.of_not hselects⟩
      rw [foreachAttr, selectAttrs, if_pos hselects, ← hrun]
      change (if 256 ≤ idx + 1 then _ else _) = _
      rw [if_neg (by omega)]
    | true =>
      have hpos := hok.totalSize_pos
      have hindex : sad.state.lastAttIndex < attr.val.totalSize := by
        have := (Inside.of_selects hselects).mp hinside
        omega
      have hpieces : pieces filter 0 (attr :: attrs) sad.first sad.state.lastAttIndex =
          attr.piece 0 sad.first sad.state.lastAttIndex :: pieces filter 0 attrs false 0 := by
        rw [pieces, if_pos hselects]
      have hall := @length_piece_all attr hok 0 sad.state.lastAttIndex sad.first
      generalize hp : attr.piece 0 sad.first sad.state.lastAttIndex = p at hpieces hall
      generalize hroom : srv.room cont buf.length sad.maxAttLen = room
      have hbound : room = min (min sdpMtu srv.mtu - buf.length - hdrSize) sad.maxAttLen - cont := by
        rw [← hroom, Server.room, hspace]
      have hfill := @fillRsp_eq srv rec cont idx attr sad buf hok hvalue hindex hbuf hfull p hp.symm
        room hroom.symm
      have hbody : p.all.length = p.head.length + p.body.length := length_append
      by_cases hhead : room ≤ p.head.length
      · rw [if_pos hhead] at hfill
        obtain ⟨sad', hrun, hfilled⟩ := filled_none hbuf hidx hselects hskips hinside hfirst hfill
        rw [hpieces] at hfilled ⊢
        rw [fill_cons, if_pos hhead]
        exact ⟨sad', hrun, hfilled⟩
      rw [if_neg hhead] at hfill
      rw [hpieces, fill_cons, if_neg hhead]
      by_cases hlast : room ≤ p.all.length
      · obtain ⟨sad', hrun, hfilled⟩ := filled_last hok hvalue hidx hselects hdrop hindex hp.symm
          (by omega) hlast (by omega) hfill
        refine ⟨sad', hrun, ?_⟩
        rw [if_neg (by omega)]
        by_cases hexact : p.all.length = room
        · rw [if_pos hexact, take_of_length_le hexact.le] at hfilled
          rwa [if_pos (by omega)]
        · rw [if_neg hexact] at hfilled
          rwa [if_neg (by omega)]
      · have htake : p.all.take room = p.all := take_of_length_le (by omega)
        generalize hk : (if sad.starts then 3 else 0) = k
        have hone := selectAttrs_of_fillRsp hselects hfill
        rw [hk] at hone
        generalize hsad : (sad.filled rec idx buf p room).counted (3 + attr.val.totalSize) k = sad₁
          at hone
        have hbuf₁ : sad₁.rspBuf = some (buf ++ p.all) := by
          rw [← hsad]
          exact congrArg (fun page => some (buf ++ page)) htake
        have hfull₁ : sad₁.state.pktFull = false := by
          rw [← hsad]
          exact decide_eq_false hlast
        have hlast₁ : sad₁.state.lastAtt = idx + 1 := by
          rw [← hsad]
          change (if p.all.length ≤ room then (idx + 1) % 256 else idx) = _
          rw [if_pos (by omega)]
          omega
        have hindex₁ : sad₁.state.lastAttIndex = 0 := by
          rw [← hsad]
          exact if_pos (by omega)
        have hmax₁ : sad₁.maxAttLen = sad.maxAttLen - p.all.length := by
          rw [← hsad]
          change sub16 sad.maxAttLen (min p.all.length room) = _
          rw [sub16]
          omega
        have hatt₁ : sad₁.attListLen = sad.attListLen + p.all.length := by
          rw [← hsad]
          change (sad.attListLen + min p.all.length room) % 2 ^ 16 = _
          omega
        have hfirst₁ : sad₁.first = false := by
          rw [SelectAttrs.first, hlast₁]
          simp
        have hsmall₁ : sad₁.Small := by
          rw [← hsad]
          exact small_counted _ _ _
        have hlength : (buf ++ p.all).length = buf.length + p.all.length := length_append
        have hlen₁ : (buf ++ p.all).length + hdrSize ≤ min sdpMtu srv.mtu := by omega
        have hspace₁ := srv.space_eq sad₁.maxAttLen hlen₁
        obtain ⟨sad', hrun, hfilled⟩ := ih hshort'.2 hnext (by omega) hbuf₁ hfull₁ hsmall₁ hlen₁
          (by omega) (by omega) ⟨[], by rw [hlast₁, hnext]; rfl, by simp⟩
          (.inl hindex₁) (fun _ => by omega) hspace₁
        have hroom₁ : srv.room cont (buf ++ p.all).length sad₁.maxAttLen =
            room - (p.head.length + p.body.length) := by
          rw [Server.room, hspace₁, hlength, hmax₁, hbound, ← hbody, ← Nat.sub_sub,
            Nat.sub_right_comm _ p.all.length hdrSize, Nat.sub_min_sub_right, Nat.sub_right_comm]
        rw [hroom₁, hfirst₁, hindex₁, ← hsad] at hfilled
        rw [if_pos (by omega)]
        refine ⟨sad', ?_, Filled.cons hk hselects ?_ ?_ ?_ ?_ hfilled⟩
        · rw [foreachAttr, hone, ← hrun]
          change (if 256 ≤ idx + 1 then _ else _) = _
          rw [if_neg (by omega)]
        · omega
        · exact ne_nil_of_length_pos (by omega)
        · omega
        · omega

/-! ## The list of a record -/

theorem pieces_size_irrelevant (size : ℕ) (index : ℕ) :
    pieces filter size attrs false index = pieces filter 0 attrs false index := by
  induction attrs generalizing index with
  | nil => rfl
  | cons attr attrs ih =>
    rw [pieces, pieces, ih, ih]
    rfl

theorem pieces_first (filter : List ℕ) (attrs : List Attribute) :
    (∀ size, pieces filter size attrs true 0 = []) ∨
      ∃ tail body ps, ∀ size, pieces filter size attrs true 0 =
        ⟨0x36 :: be16 size ++ tail, body⟩ :: ps := by
  induction attrs with
  | nil => exact .inl fun _ => rfl
  | cons attr attrs ih =>
    cases hselects : selects filter attr.id with
    | false =>
      simp only [pieces_of_not hselects]
      exact ih
    | true =>
      refine .inr ⟨0x09 :: be16 attr.id, attr.val.encode.drop 0, pieces filter 0 attrs false 0,
        fun size => ?_⟩
      rw [pieces, if_pos hselects, pieces_size_irrelevant]
      rfl

theorem be16_mod (n : ℕ) : be16 (n % 2 ^ 16) = be16 n := by
  have hhigh : UInt8.ofNat (n % 2 ^ 16 / 256) = UInt8.ofNat (n / 256) := by
    rw [← UInt8.toNat_inj, UInt8.toNat_ofNat', UInt8.toNat_ofNat']
    omega
  have hlow : UInt8.ofNat (n % 2 ^ 16) = UInt8.ofNat n := by
    rw [← UInt8.toNat_inj, UInt8.toNat_ofNat', UInt8.toNat_ofNat']
    omega
  rw [be16, be16, hhigh, hlow]

theorem putSize_append (buf tail : Bytes) (n : ℕ) :
    putSize (buf ++ (0x36 :: be16 0 ++ tail)) buf.length n = buf ++ (0x36 :: be16 n ++ tail) := by
  rw [putSize]
  have htake : (buf ++ (0x36 :: be16 0 ++ tail)).take (buf.length + 1) = buf ++ [0x36] := by
    rw [take_length_add_append]
    rfl
  have hdrop : (buf ++ (0x36 :: be16 0 ++ tail)).drop (buf.length + 3) = tail := by
    rw [drop_length_add_append]
    rfl
  rw [htake, hdrop]
  simp

/-- A record whose lists are short enough for the 16-bit lengths and the
byte that counts the attributes. -/
def Record.Small (rec : Record) : Prop := Short rec.attrs ∧ rec.attrs.length ≤ 255

/-- The list of a record from where the state is on, before it is in pages. -/
def Record.rest (rec : Record) (filter : List ℕ) (size lastAtt lastAttIndex : ℕ) :
    List (Piece UInt8) :=
  pieces filter size (rec.attrs.drop lastAtt) (lastAttIndex = 0 ∧ lastAtt = 0) lastAttIndex

/-- The size that goes on counting where the state is. -/
def Record.sizeFrom (rec : Record) (filter : List ℕ) (lastAtt lastAttIndex : ℕ) : ℕ :=
  listSize filter (rec.attrs.drop lastAtt) +
    if (lastAttIndex = 0 ∧ lastAtt = 0) ∧
      (rec.attrs.drop lastAtt).any fun attr => selects filter attr.id
    then 3 else 0

/-- Where a page leaves off in the list of a record. -/
structure Paged (rec : Record) (filter : List ℕ) (size : ℕ) (state : SearchState) (page : Bytes)
    (rest : Option (List (Piece UInt8))) (state' : SearchState) : Prop where
  attListSize : state'.attListSize = (state.attListSize +
    rec.sizeFrom filter state.lastAtt state.lastAttIndex) % 2 ^ 16
  pktFull : state'.pktFull = rest.isSome
  currentSvc : state'.currentSvc = if page = [] then state.currentSvc else rec.index
  lastAtt_le : state.lastAtt ≤ 255 → state'.lastAtt ≤ 255
  lastAttIndex_lt : state.lastAttIndex < 2 ^ 16 → state'.lastAttIndex < 2 ^ 16
  goesOn : ∀ ps ∈ rest, rec.rest filter size state'.lastAtt state'.lastAttIndex = ps ∧
    Inside filter (rec.attrs.drop state'.lastAtt) state'.lastAttIndex

variable {state : SearchState} {maxAttLen : ℕ}

theorem Filled.paged {page page' : Bytes} {rest rest' : Option (List (Piece UInt8))} {size : ℕ}
    {rspBuf : Option Bytes} (hnil : page = [] ↔ page' = []) (hsome : rest.isSome = rest'.isSome)
    (hstays : page = [] → ∀ ps ∈ rest', rec.rest filter size state.lastAtt state.lastAttIndex = ps ∧
        Inside filter (rec.attrs.drop state.lastAtt) state.lastAttIndex)
    (hmoves : page ≠ [] → rest = rest')
    (h : Filled rec filter (rec.attrs.drop state.lastAtt) { rspBuf, maxAttLen, state } buf page rest
      sad') : Paged rec filter size state page' rest' sad'.state := by
  refine ⟨?_, h.pktFull.trans hsome, ?_, h.lastAtt_le, h.lastAttIndex_lt, fun ps hps => ?_⟩
  · rw [h.attListSize, Record.sizeFrom]
    simp only [SelectAttrs.starts, and_true]
  · rw [h.currentSvc]
    simp only [hnil]
  · by_cases hpage : page = []
    · obtain ⟨hatt, hindex⟩ := h.stays hpage
      rw [hatt, hindex]
      exact hstays hpage ps hps
    · obtain ⟨hpieces, hinside⟩ := h.goesOn ps (hmoves hpage ▸ hps)
      refine ⟨?_, hinside⟩
      rw [Record.rest]
      rw [decide_eq_false (h.moves hpage)] at hpieces ⊢
      rw [pieces_size_irrelevant, hpieces]

/-- **The list of a record goes on in a page of its pieces**, with its size
in the sequence declaration. -/
theorem createAttrList_fill (hrec : rec.Small) (hatt : state.lastAtt ≤ 255)
    (hfull : state.pktFull = false) (hsmall : state.attListSize < 2 ^ 16)
    (hlen : buf.length + hdrSize ≤ min sdpMtu srv.mtu) (hmax : maxAttLen < 2 ^ 16)
    (hinside : Inside filter (rec.attrs.drop state.lastAtt) state.lastAttIndex) :
    ∃ page rest state', fill (srv.room cont buf.length maxAttLen)
        (rec.rest filter (listSize filter (rec.attrs.drop state.lastAtt)) state.lastAtt
          state.lastAttIndex) = (page, rest) ∧
      createAttrList srv rec filter maxAttLen cont state (some buf) =
        .ok (page.length, state', some (buf ++ page)) ∧
      Paged rec filter (listSize filter (rec.attrs.drop state.lastAtt)) state page rest state' := by
  have hmtu : min sdpMtu srv.mtu ≤ 205 := min_le_left _ _
  have hshort : Short (rec.attrs.drop state.lastAtt) := fun attr hattr =>
    hrec.1 attr (mem_of_mem_drop hattr)
  have hcount : state.lastAtt + (rec.attrs.drop state.lastAtt).length ≤ 255 := by
    have := hrec.2
    rw [length_drop]
    omega
  obtain ⟨sad', hrun, hfilled⟩ := @foreachAttr_fill srv rec filter cont state.lastAtt _
    { rspBuf := some buf, maxAttLen, state } buf hshort rfl hcount rfl hfull
    ⟨hsmall, by simp⟩ hlen hmax (by change 0 + _ < _; omega) ⟨[], rfl, by simp⟩ hinside (by simp)
  have hfirst : SelectAttrs.first { rspBuf := some buf, maxAttLen, state } =
      decide (state.lastAttIndex = 0 ∧ state.lastAtt = 0) := first_eq (by simp)
  generalize hn : listSize filter (rec.attrs.drop state.lastAtt) = n at hfilled ⊢
  rw [hfirst] at hfilled
  dsimp only at hfilled
  have hrest : ∀ size, pieces filter size (rec.attrs.drop state.lastAtt)
      (decide (state.lastAttIndex = 0 ∧ state.lastAtt = 0)) state.lastAttIndex =
      rec.rest filter size state.lastAtt state.lastAttIndex := fun _ => rfl
  rw [hrest] at hfilled
  generalize srv.room cont buf.length maxAttLen = room at hfilled ⊢
  have hcreate : createAttrList srv rec filter maxAttLen cont state (some buf) =
      .ok (sad'.attListLen, sad'.state, sad'.seq.elim sad'.rspBuf fun at' =>
        sad'.rspBuf.map fun buf => putSize buf at'.1 at'.2) := by
    rw [createAttrList, hrun]
    change Except.ok _ = _
    cases sad'.seq with
    | none | some => rfl
  have hlength : sad'.attListLen =
      (fill room (rec.rest filter 0 state.lastAtt state.lastAttIndex)).1.length := by
    rw [hfilled.attListLen, Nat.zero_add]
  have hseq := hfilled.seq
  rw [hn, hfirst] at hseq
  rw [hcreate, hlength, hfilled.rspBuf]
  by_cases hsame : rec.rest filter 0 state.lastAtt state.lastAttIndex =
      rec.rest filter n state.lastAtt state.lastAttIndex ∧ sad'.seq = none
  · -- nothing is put into a declaration that is not on the page
    obtain ⟨heq, hnone⟩ := hsame
    rw [heq] at hfilled ⊢
    rw [hnone]
    refine ⟨_, _, sad'.state, rfl, rfl, hfilled.paged Iff.rfl rfl (fun hpage ps hps => ?_)
      fun _ => rfl⟩
    obtain ⟨hpieces, hin⟩ := hfilled.goesOn ps hps
    obtain ⟨hla, hli⟩ := hfilled.stays hpage
    rw [hla, hli, hrest, heq] at hpieces
    exact ⟨hpieces, hinside⟩
  by_cases hzero : state.lastAttIndex = 0 ∧ state.lastAtt = 0
  · obtain hnil | ⟨tail, body, ps, hps⟩ := pieces_first filter (rec.attrs.drop state.lastAtt)
    · have hempty : ∀ size, rec.rest filter size state.lastAtt state.lastAttIndex = [] := by
        intro size
        rw [Record.rest, decide_eq_true hzero, hzero.1]
        exact hnil size
      refine absurd ⟨by rw [hempty, hempty], ?_⟩ hsame
      rw [hseq, hempty]
      simp
    · have hcons : ∀ size, rec.rest filter size state.lastAtt state.lastAttIndex =
          ⟨0x36 :: be16 size ++ tail, body⟩ :: ps := by
        intro size
        rw [Record.rest, decide_eq_true hzero, hzero.1]
        exact hps size
      obtain ⟨-, hnone, hnone'⟩ | ⟨page, rest, hfill, hfill'⟩ := @fill_head _ room ps
        (0x36 :: be16 0) (0x36 :: be16 n) tail body rfl
      · rw [hcons 0, hnone] at hfilled hseq
        rw [hcons 0, hcons n, hnone, hnone']
        refine ⟨_, _, sad'.state, rfl, ?_, hfilled.paged (by rfl) (by rfl) (fun _ ps hps => ?_)
          fun hno => absurd rfl hno⟩
        · rw [hseq]
          simp
        · rw [hcons]
          exact ⟨Option.some.inj hps, hinside⟩
      · rw [hcons 0, hfill] at hfilled hseq
        rw [hcons 0, hcons n, hfill, hfill']
        refine ⟨_, _, sad'.state, rfl, ?_, hfilled.paged (by simp) rfl (fun hno => ?_)
          fun _ => rfl⟩
        · rw [hseq, if_pos ⟨decide_eq_true hzero, by simp⟩]
          simp only [Option.elim_some, Option.map_some, Nat.zero_add]
          rw [putSize_append, be16_mod]
          simp [be16]
        · simp at hno
  · have hirrelevant : rec.rest filter 0 state.lastAtt state.lastAttIndex =
        rec.rest filter n state.lastAtt state.lastAttIndex := by
      rw [Record.rest, Record.rest, decide_eq_false hzero, pieces_size_irrelevant]
      exact (pieces_size_irrelevant n _).symm
    refine absurd ⟨hirrelevant, ?_⟩ hsame
    rw [hseq, decide_eq_false hzero]
    simp

/-- **A dry run counts** what was not copied. -/
theorem createAttrList_count (hrec : rec.Small) (hatt : state.lastAtt ≤ 255)
    (hsmall : state.attListSize < 2 ^ 16) :
    createAttrList srv rec filter maxAttLen cont state none = .ok (0,
      { state with attListSize := (state.attListSize +
        rec.sizeFrom filter state.lastAtt state.lastAttIndex) % 2 ^ 16 }, none) := by
  have hcount : state.lastAtt + (rec.attrs.drop state.lastAtt).length ≤ 255 := by
    have := hrec.2
    rw [length_drop]
    omega
  obtain ⟨b, hrun⟩ := @foreachAttr_full srv rec filter cont state.lastAtt
    (rec.attrs.drop state.lastAtt) { rspBuf := none, maxAttLen, state } (.inl rfl) hcount
    ⟨hsmall, nofun⟩
  rw [createAttrList, hrun]
  refine congrArg Except.ok ?_
  simp only [SelectAttrs.counted, SelectAttrs.starts, Option.map_none, and_true]
  rfl

end Sdp

end OpenBlue

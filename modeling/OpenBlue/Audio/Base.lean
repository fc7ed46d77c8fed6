import OpenBlue.Audio.Model.Base
/-!
# Audio — what a BASE holds

A BASE apart from its bytes (`Base`), and what the functions of
`bap_base.c` make of its bytes: the check accepts them and nothing else,
and the accessors read the values back, or meet an assertion where the
BASE is longer than the size they take it to have. None leaves the data
that the check accepted.
-/

namespace OpenBlue

namespace Bap

open List Pull UInt8

/-! ## The value and its bytes -/

/-- A length and as many bytes. -/
def ltv (data : Bytes) : Bytes := UInt8.ofNat data.length :: data

/-- A codec id as it is sent. -/
def CodecId.bytes (c : CodecId) : Bytes := [c.id] ++ (le16 c.cid.toNat ++ le16 c.vid.toNat)

/-- A BIS as it is sent. -/
def SubgroupBis.bytes (b : SubgroupBis) : Bytes := [b.index] ++ ltv b.data

/-- What the check asks of a BIS. -/
structure SubgroupBis.Valid (b : SubgroupBis) : Prop where
  index_pos : 1 ≤ b.index.toNat
  index_le : b.index.toNat ≤ bisIndexMax
  data_lt : b.data.length < 256

/-- A subgroup of a BASE. -/
structure BaseSubgroup where
  codecId : CodecId
  data : Bytes
  metadata : Bytes
  bis : List SubgroupBis
  data_lt : data.length < 256
  metadata_lt : metadata.length < 256
  bis_pos : 1 ≤ bis.length
  bis_le : bis.length ≤ maxGroupIsoCount
  bis_valid : ∀ b ∈ bis, b.Valid

/-- The bytes of a subgroup before its BISes. -/
def BaseSubgroup.head (g : BaseSubgroup) : Bytes :=
  [UInt8.ofNat g.bis.length] ++ (g.codecId.bytes ++ (ltv g.data ++ ltv g.metadata))

/-- A subgroup as it is sent. -/
def BaseSubgroup.bytes (g : BaseSubgroup) : Bytes := g.head ++ g.bis.flatMap SubgroupBis.bytes

/-- A Broadcast Audio Source Endpoint. -/
structure Base where
  pd : ℕ
  subgroups : List BaseSubgroup
  pd_lt : pd < 256 ^ 3
  subgroups_pos : 1 ≤ subgroups.length
  subgroups_le : subgroups.length ≤ subgroupMaxCount

/-- A BASE as it is sent. -/
def Base.bytes (b : Base) : Bytes :=
  leBytes 3 b.pd ++ ([UInt8.ofNat b.subgroups.length] ++ b.subgroups.flatMap BaseSubgroup.bytes)

variable {data rest : Bytes} {bis : List SubgroupBis} {g : BaseSubgroup} {gs : List BaseSubgroup}
variable {σ : Type}

@[simp] theorem length_ltv (data : Bytes) : (ltv data).length = data.length + 1 := rfl

@[simp] theorem CodecId.length_bytes (c : CodecId) : c.bytes.length = 5 := rfl

@[simp] theorem SubgroupBis.length_bytes (b : SubgroupBis) :
    b.bytes.length = b.data.length + 2 := by
  simp [SubgroupBis.bytes]

@[simp] theorem BaseSubgroup.length_head (g : BaseSubgroup) :
    g.head.length = 8 + g.data.length + g.metadata.length := by
  simp [BaseSubgroup.head]
  omega

theorem toNat_ofNat_of_lt {n : ℕ} (h : n < 256) : (ofNat n).toNat = n := by
  rw [toNat_ofNat', Nat.mod_eq_of_lt h]

theorem BaseSubgroup.toNat_bis (g : BaseSubgroup) :
    (ofNat g.bis.length).toNat = g.bis.length :=
  toNat_ofNat_of_lt (Nat.lt_of_le_of_lt g.bis_le (by decide))

theorem Base.toNat_subgroups (b : Base) :
    (ofNat b.subgroups.length).toNat = b.subgroups.length :=
  toNat_ofNat_of_lt (Nat.lt_of_le_of_lt b.subgroups_le (by decide))

/-! ## Reading the parts -/

theorem reads_ltv (h : data.length < 256) : Reads pullLtv (ltv data) data :=
  (reads_u8 _).bind (reads_mem (toNat_ofNat_of_lt h).symm)

theorem reads_pd {pd : ℕ} (h : pd < 256 ^ 3) : Reads pullPd (leBytes 3 pd) pd := reads_le24 h

theorem reads_codecId (c : CodecId) : Reads pullCodecId c.bytes c :=
  (reads_u8 c.id).bind ((reads_le16 c.cid).bind
    ((reads_le16 c.vid).map fun vid : UInt16 => ({ id := c.id, cid := c.cid, vid } : CodecId)))

theorem reads_sizeOfBis (hvalid : ∀ b ∈ bis, b.Valid) :
    Reads (sizeOfBis bis.length) (bis.flatMap SubgroupBis.bytes)
      (bis.flatMap SubgroupBis.bytes).length := by
  induction bis with
  | nil => exact .pure 0
  | cons b bis ih =>
    have hb := hvalid b mem_cons_self
    have hrest := ih fun c hc => hvalid c (mem_cons_of_mem b hc)
    have hread := (reads_u8 b.index).bind (f := fun _ => _) ((reads_ltv hb.data_lt).bind
      (f := fun ltv => do
        let size ← sizeOfBis bis.length
        return 1 + ltv.length + 1 + size) (hrest.map fun size => 1 + b.data.length + 1 + size))
    rw [flatMap_cons, length_append, SubgroupBis.length_bytes, SubgroupBis.bytes,
      append_assoc, show b.data.length + 2 = 1 + b.data.length + 1 by omega]
    exact hread

theorem reads_skipBis (hvalid : ∀ b ∈ bis, b.Valid) :
    Reads (skipBis bis.length) (bis.flatMap SubgroupBis.bytes) () := by
  induction bis with
  | nil => exact .pure ()
  | cons b bis ih =>
    have hb := hvalid b mem_cons_self
    have hrest := ih fun c hc => hvalid c (mem_cons_of_mem b hc)
    rw [flatMap_cons, SubgroupBis.bytes, append_assoc]
    exact (reads_u8 b.index).bind ((reads_ltv hb.data_lt).bind hrest)

theorem BaseSubgroup.reads_head {α : Type} {p : UInt8 → CodecId → Bytes → Bytes → Pull α}
    {bytes : Bytes} {v : α} (g : BaseSubgroup)
    (h : Reads (p (ofNat g.bis.length) g.codecId g.data g.metadata) bytes v) :
    Reads (do
      let bisCount ← pullBisCount
      let codecId ← pullCodecId
      let data ← pullLtv
      let metadata ← pullLtv
      p bisCount codecId data metadata) (g.head ++ bytes) v := by
  rw [BaseSubgroup.head]
  simp only [append_assoc]
  exact (reads_u8 _).bind ((reads_codecId _).bind ((reads_ltv g.data_lt).bind
    ((reads_ltv g.metadata_lt).bind h)))

theorem BaseSubgroup.reads_skip (g : BaseSubgroup) : Reads skipSubgroup g.bytes () := by
  refine g.reads_head (p := fun bisCount _ _ _ => skipBis bisCount.toNat) ?_
  rw [g.toNat_bis]
  exact reads_skipBis g.bis_valid

theorem reads_sizeOfSubgroups (gs : List BaseSubgroup) :
    Reads (sizeOfSubgroups gs.length) (gs.flatMap BaseSubgroup.bytes)
      (gs.flatMap BaseSubgroup.bytes).length := by
  induction gs with
  | nil => exact .pure 0
  | cons g gs ih =>
    have hbis := reads_sizeOfBis g.bis_valid
    have hread := g.reads_head (p := fun bisCount _ data metadata => do
      let bis ← sizeOfBis bisCount.toNat
      let size ← sizeOfSubgroups gs.length
      return 1 + 5 + (data.length + 1) + (metadata.length + 1) + bis + size)
      (by rw [g.toNat_bis]; exact hbis.bind (ih.map _))
    rw [flatMap_cons, BaseSubgroup.bytes, append_assoc]
    have hsize : (g.head ++ (g.bis.flatMap SubgroupBis.bytes ++
        gs.flatMap BaseSubgroup.bytes)).length =
        1 + 5 + (g.data.length + 1) + (g.metadata.length + 1) +
          (g.bis.flatMap SubgroupBis.bytes).length + (gs.flatMap BaseSubgroup.bytes).length := by
      simp only [length_append, g.length_head]
      omega
    rw [hsize]
    exact hread

theorem Base.reads_head {α : Type} {p : UInt8 → Pull α} {bytes : Bytes} {v : α} (b : Base)
    (h : Reads (p (ofNat b.subgroups.length)) bytes v) :
    Reads (do
      let _ ← pullPd
      let subgroupCount ← Pull.u8
      p subgroupCount)
      (leBytes 3 b.pd ++ ([ofNat b.subgroups.length] ++ bytes)) v :=
  (reads_le24 b.pd_lt).bind ((reads_u8 _).bind h)

/-! ## The accessors -/

theorem Reads.readFrom {α : Type} {p : Pull α} {a : Bytes} {v : α} (h : Reads p a v)
    (rest : Bytes) (len : ℕ) :
    readFrom p (a ++ rest) len = if a.length ≤ len then .ok v else .error .assertFailed := by
  rw [Bap.readFrom, h rest len]
  split <;> rfl

/-- Calls of `func` in a row, up to the first that ends them. -/
def walk {α : Type} (func : α → σ → Except PullFault (Bool × σ)) :
    List α → σ → Except PullFault (Bool × σ)
  | [], userData => .ok (true, userData)
  | a :: as, userData => do
    let (more, userData) ← func a userData
    if more = false then .ok (false, userData) else walk func as userData

/-- The pointers to the subgroups, before the bytes that follow them. -/
def pointers (rest : Bytes) : List BaseSubgroup → List Bytes
  | [] => []
  | g :: gs => (g.bytes ++ (gs.flatMap BaseSubgroup.bytes ++ rest)) :: pointers rest gs

theorem foreachSubgroupFrom_succ (func : Bytes → σ → Except PullFault (Bool × σ)) (count n : ℕ)
    (userData : σ) (buf : Unread) :
    foreachSubgroupFrom func count (n + 1) userData buf = (do
      let (more, userData) ← func buf.data userData
      if more = false then .ok ((false, userData), buf)
      else if count > 1 then (do
        let (_, buf) ← skipSubgroup buf
        foreachSubgroupFrom func count n userData buf)
      else foreachSubgroupFrom func count n userData buf) := by
  rw [foreachSubgroupFrom]
  change (func buf.data userData >>= fun r => Except.ok (r, buf)) >>= _ = _
  cases func buf.data userData with
  | error e => rfl
  | ok r =>
    obtain ⟨more, u⟩ := r
    cases more
    · rfl
    · by_cases h : count > 1
      · simp only [h]; rfl
      · simp only [h]; rfl

/-- **The loop calls `func` on the pointers in a row**, where the subgroups
are not longer than the buffer; elsewhere it may fail on the way. -/
theorem foreachSubgroupFrom_walk (func : Bytes → σ → Except PullFault (Bool × σ)) {count : ℕ}
    (hcount : gs.length ≤ count) (len : ℕ) (userData : σ) :
    let r := Prod.fst <$> foreachSubgroupFrom func count gs.length userData
      ⟨gs.flatMap BaseSubgroup.bytes ++ rest, len⟩
    r = walk func (pointers rest gs) userData ∨
      len < (gs.flatMap BaseSubgroup.bytes).length ∧ r = .error .assertFailed := by
  induction gs generalizing len userData with
  | nil => exact .inl rfl
  | cons g gs ih =>
    rw [length_cons] at hcount ⊢
    dsimp only
    rw [foreachSubgroupFrom_succ, pointers, walk, flatMap_cons, append_assoc, length_append]
    cases func (g.bytes ++ (gs.flatMap BaseSubgroup.bytes ++ rest)) userData with
    | error e => exact .inl rfl
    | ok r =>
      obtain ⟨more, userData⟩ := r
      cases more with
      | false => exact .inl rfl
      | true =>
        by_cases hmany : count > 1
        · have hskip := g.reads_skip (gs.flatMap BaseSubgroup.bytes ++ rest) len
          by_cases hroom : g.bytes.length ≤ len
          · rw [if_pos hroom] at hskip
            simp only [hmany, hskip]
            have hrest := ih (by omega) (len - g.bytes.length) userData
            exact hrest.imp_right (And.imp_left fun hlt => by omega)
          · rw [if_neg hroom] at hskip
            simp only [hmany, hskip]
            exact .inr ⟨by omega, rfl⟩
        · obtain rfl : gs = [] := eq_nil_of_length_eq_zero (by omega)
          simp only [hmany]
          exact .inl rfl

theorem walk_not_outside {α : Type} {func : α → σ → Except PullFault (Bool × σ)} {as : List α}
    (hfunc : ∀ a ∈ as, ∀ userData, func a userData ≠ .error .outside) (userData : σ) :
    walk func as userData ≠ .error .outside := by
  induction as generalizing userData with
  | nil => exact fun h => nomatch h
  | cons a as ih =>
    have hhead := hfunc a mem_cons_self userData
    have hrest := ih fun b hb => hfunc b (mem_cons_of_mem a hb)
    rw [walk]
    cases hf : func a userData with
    | error e => simpa [bind, Except.bind, hf] using hhead
    | ok r =>
      obtain ⟨more, userData⟩ := r
      cases more with
      | false => simp [bind, Except.bind]
      | true => exact hrest userData

/-- A BIS off the buffer, as the loop of `subgroupForeachBis` takes it. -/
def pullBis : Pull SubgroupBis := do
  let index ← Pull.u8
  let data ← pullLtv
  return { index, data }

theorem SubgroupBis.Valid.reads {b : SubgroupBis} (hb : b.Valid) : Reads pullBis b.bytes b :=
  (reads_u8 b.index).bind (f := fun index => do
    let data ← pullLtv
    return ({ index, data } : SubgroupBis)) ((reads_ltv hb.data_lt).map _)

theorem foreachBisFrom_succ (func : SubgroupBis → σ → Except PullFault (Bool × σ)) (n : ℕ)
    (userData : σ) (buf : Unread) :
    foreachBisFrom func (n + 1) userData buf = (do
      let (b, buf) ← pullBis buf
      let (more, userData) ← func b userData
      if more = false then .ok ((false, userData), buf)
      else foreachBisFrom func n userData buf) := by
  have hsplit : foreachBisFrom func (n + 1) userData = (pullBis >>= fun b => do
      let (more, userData) ← func b userData
      if more = false then return (false, userData)
      else foreachBisFrom func n userData) := by
    simp [foreachBisFrom, pullBis]
  rw [hsplit]
  change (pullBis buf >>= fun r => _) = _
  cases pullBis buf with
  | error e => rfl
  | ok r =>
    obtain ⟨b, buf⟩ := r
    change ((func b userData >>= fun r => Except.ok (r, buf)) >>= fun r => _) =
      (func b userData >>= fun r => _)
    cases func b userData with
    | error e => rfl
    | ok r =>
      obtain ⟨more, userData⟩ := r
      cases more <;> rfl

theorem foreachBisFrom_walk (func : SubgroupBis → σ → Except PullFault (Bool × σ))
    (hvalid : ∀ b ∈ bis, b.Valid) (len : ℕ) (userData : σ) :
    let r := Prod.fst <$> foreachBisFrom func bis.length userData
      ⟨bis.flatMap SubgroupBis.bytes ++ rest, len⟩
    r = walk func bis userData ∨
      len < (bis.flatMap SubgroupBis.bytes).length ∧ r = .error .assertFailed := by
  induction bis generalizing len userData with
  | nil => exact .inl rfl
  | cons b bis ih =>
    dsimp only
    rw [length_cons, foreachBisFrom_succ, walk, flatMap_cons, append_assoc,
      (hvalid b mem_cons_self).reads, length_append]
    by_cases hroom : b.bytes.length ≤ len
    · have hrest := ih (fun c hc => hvalid c (mem_cons_of_mem b hc)) (len - b.bytes.length)
      rw [if_pos hroom]
      change Prod.fst <$> (func b userData >>= fun r => _) = _ ∨
        _ ∧ Prod.fst <$> (func b userData >>= fun r => _) = _
      cases func b userData with
      | error e => exact .inl rfl
      | ok r =>
        obtain ⟨more, userData⟩ := r
        cases more with
        | false => exact .inl rfl
        | true => exact (hrest userData).imp_right (And.imp_left fun hlt => by omega)
    · rw [if_neg hroom]
      exact .inr ⟨by omega, rfl⟩

/-! ## The accessors of a BASE -/

theorem Base.getSize_bytes (b : Base) (rest : Bytes) : getSize (b.bytes ++ rest) =
      if b.bytes.length ≤ baseMaxSize then .ok b.bytes.length else .error .assertFailed := by
  have hread := b.reads_head (p := fun subgroupCount => do
    let size ← sizeOfSubgroups subgroupCount.toNat
    return 3 + 1 + size) (by
      rw [b.toNat_subgroups]
      exact (reads_sizeOfSubgroups b.subgroups).map _)
  have hsize : b.bytes.length = 3 + 1 + (b.subgroups.flatMap BaseSubgroup.bytes).length := by
    simp [Base.bytes]
    omega
  have h := Reads.readFrom hread rest baseMaxSize
  rw [← hsize] at h
  exact h

theorem Base.getPresDelay_bytes (b : Base) (rest : Bytes) :
    getPresDelay (b.bytes ++ rest) = .ok b.pd := by
  rw [Base.bytes, append_assoc, getPresDelay, Reads.readFrom (reads_pd b.pd_lt)]
  rfl

theorem Base.getSubgroupCount_bytes (b : Base) (rest : Bytes) :
    getSubgroupCount (b.bytes ++ rest) = .ok (ofNat b.subgroups.length) := by
  have hread := (reads_pd b.pd_lt).bind (f := fun _ => Pull.u8)
    (reads_u8 (ofNat b.subgroups.length))
  rw [Base.bytes, ← append_assoc, append_assoc, getSubgroupCount, Reads.readFrom hread]
  rfl

theorem Base.foreachSubgroup_apply (b : Base) (rest : Bytes)
    (func : Bytes → σ → Except PullFault (Bool × σ)) (userData : σ) :
    foreachSubgroup (b.bytes ++ rest) func userData =
      Prod.fst <$> foreachSubgroupFrom func b.subgroups.length b.subgroups.length userData
        ⟨b.subgroups.flatMap BaseSubgroup.bytes ++ rest, baseMaxSize - 4⟩ := by
  rw [foreachSubgroup, readFrom, Base.bytes, append_assoc, (reads_pd b.pd_lt).bind_apply,
    if_pos (by simp [baseMaxSize]), append_assoc, (reads_u8 _).bind_apply,
    if_pos (by simp [baseMaxSize]), b.toNat_subgroups]
  rfl

theorem Base.foreachSubgroup_bytes (b : Base) (rest : Bytes)
    (hlen : b.bytes.length ≤ baseMaxSize) (func : Bytes → σ → Except PullFault (Bool × σ))
    (userData : σ) : foreachSubgroup (b.bytes ++ rest) func userData =
      walk func (pointers rest b.subgroups) userData := by
  rw [b.foreachSubgroup_apply]
  refine (foreachSubgroupFrom_walk func (Nat.le_refl _) _ userData).resolve_right fun h => ?_
  simp only [Base.bytes, length_append, length_leBytes, length_singleton] at hlen
  omega

theorem BaseSubgroup.head_apply {α : Type} {p : UInt8 → CodecId → Bytes → Bytes → Pull α}
    (g : BaseSubgroup) (rest : Bytes) (len : ℕ) :
    (do
      let bisCount ← pullBisCount
      let codecId ← pullCodecId
      let data ← pullLtv
      let metadata ← pullLtv
      p bisCount codecId data metadata : Pull α) ⟨g.head ++ rest, len⟩ =
      if g.head.length ≤ len then
        p (ofNat g.bis.length) g.codecId g.data g.metadata ⟨rest, len - g.head.length⟩
      else .error .assertFailed := by
  have hparts : (do
      let bisCount ← pullBisCount
      let codecId ← pullCodecId
      let data ← pullLtv
      let metadata ← pullLtv
      p bisCount codecId data metadata : Pull α) = (do
      let bisCount ← pullBisCount
      let codecId ← pullCodecId
      let data ← pullLtv
      let metadata ← pullLtv
      return (bisCount, codecId, data, metadata)) >>= fun r => p r.1 r.2.1 r.2.2.1 r.2.2.2 := by
    simp
  have hread := g.reads_head (p := fun bisCount codecId data metadata =>
    return (bisCount, codecId, data, metadata)) (.pure _)
  rw [append_nil] at hread
  rw [hparts, hread.bind_apply]

/-! ## The accessors of a subgroup -/

theorem BaseSubgroup.bytes_eq (g : BaseSubgroup) (rest : Bytes) :
    g.bytes ++ rest = [ofNat g.bis.length] ++ (g.codecId.bytes ++ (ltv g.data ++
      (ltv g.metadata ++ (g.bis.flatMap SubgroupBis.bytes ++ rest)))) := by
  simp [BaseSubgroup.bytes, BaseSubgroup.head]

theorem reads_bisCount (n : UInt8) : Reads pullBisCount [n] n := reads_u8 n

theorem BaseSubgroup.getBisCount_bytes (g : BaseSubgroup) (rest : Bytes) :
    getSubgroupBisCount (g.bytes ++ rest) = .ok (ofNat g.bis.length) := by
  rw [g.bytes_eq, getSubgroupBisCount, Reads.readFrom (reads_bisCount _)]
  rfl

theorem BaseSubgroup.getCodecId_bytes (g : BaseSubgroup) (rest : Bytes) :
    getSubgroupCodecId (g.bytes ++ rest) = .ok g.codecId := by
  have hread := (reads_bisCount (ofNat g.bis.length)).bind (f := fun _ => pullCodecId)
    (reads_codecId g.codecId)
  rw [g.bytes_eq, ← append_assoc, getSubgroupCodecId, Reads.readFrom hread]
  rfl

theorem BaseSubgroup.getCodecData_bytes (g : BaseSubgroup) (rest : Bytes) :
    getSubgroupCodecData (g.bytes ++ rest) =
      if 7 + g.data.length ≤ subgroupMaxSize then .ok g.data else .error .assertFailed := by
  have hread := (reads_bisCount (ofNat g.bis.length)).bind (f := fun _ => do
      let _ ← pullCodecId
      pullLtv) ((reads_codecId g.codecId).bind (f := fun _ => pullLtv) (reads_ltv g.data_lt))
  rw [g.bytes_eq, ← append_assoc g.codecId.bytes, ← append_assoc,
    getSubgroupCodecData, Reads.readFrom hread]
  congr 2
  simp
  omega

theorem BaseSubgroup.getCodecMeta_bytes (g : BaseSubgroup) (rest : Bytes) :
    getSubgroupCodecMeta (g.bytes ++ rest) =
      if g.head.length ≤ subgroupMaxSize then .ok g.metadata else .error .assertFailed := by
  have hread := (reads_bisCount (ofNat g.bis.length)).bind (f := fun _ => do
      let _ ← pullCodecId
      let _ ← pullLtv
      pullLtv) ((reads_codecId g.codecId).bind (f := fun _ => do
      let _ ← pullLtv
      pullLtv) ((reads_ltv g.data_lt).bind (f := fun _ => pullLtv) (reads_ltv g.metadata_lt)))
  rw [BaseSubgroup.bytes, append_assoc, getSubgroupCodecMeta]
  exact Reads.readFrom hread _ _

theorem BaseSubgroup.toCodecCfg_bytes (g : BaseSubgroup) (rest : Bytes) (maxData maxMeta : ℕ) :
    subgroupCodecToCodecCfg maxData maxMeta (g.bytes ++ rest) ≠ .error .outside := by
  rw [g.bytes_eq, subgroupCodecToCodecCfg, readFrom, (reads_bisCount _).bind_apply,
    if_pos (by simp [subgroupMaxSize]), (reads_codecId _).bind_apply,
    if_pos (by simp [subgroupMaxSize]),
    (reads_ltv g.data_lt).bind_apply]
  split
  · by_cases hdata : maxData < g.data.length
    · rw [if_pos hdata]
      exact fun h => nomatch h
    · rw [if_neg hdata, (reads_ltv g.metadata_lt).bind_apply]
      split
      · split <;> exact fun h => nomatch h
      · exact fun h => nomatch h
  · exact fun h => nomatch h

theorem BaseSubgroup.foreachBis_apply (g : BaseSubgroup) (rest : Bytes)
    (func : SubgroupBis → σ → Except PullFault (Bool × σ)) (userData : σ) :
    subgroupForeachBis (g.bytes ++ rest) func userData = if g.head.length ≤ subgroupMaxSize then
        Prod.fst <$> foreachBisFrom func g.bis.length userData
          ⟨g.bis.flatMap SubgroupBis.bytes ++ rest, subgroupMaxSize - g.head.length⟩
      else .error .assertFailed := by
  rw [subgroupForeachBis, readFrom, BaseSubgroup.bytes, append_assoc,
    g.head_apply (p := fun bisCount _ _ _ => foreachBisFrom func bisCount.toNat userData),
    g.toNat_bis]
  split <;> rfl

theorem BaseSubgroup.foreachBis_bytes (g : BaseSubgroup) (rest : Bytes)
    (hlen : g.bytes.length ≤ subgroupMaxSize)
    (func : SubgroupBis → σ → Except PullFault (Bool × σ)) (userData : σ) :
    subgroupForeachBis (g.bytes ++ rest) func userData = walk func g.bis userData := by
  rw [BaseSubgroup.bytes, length_append] at hlen
  rw [g.foreachBis_apply, if_pos (by omega)]
  exact (foreachBisFrom_walk func g.bis_valid _ userData).resolve_right fun h => by omega

theorem BaseSubgroup.foreachBis_not_outside (g : BaseSubgroup) (rest : Bytes)
    {func : SubgroupBis → σ → Except PullFault (Bool × σ)}
    (hfunc : ∀ b userData, func b userData ≠ .error .outside) (userData : σ) :
    subgroupForeachBis (g.bytes ++ rest) func userData ≠ .error .outside := by
  rw [g.foreachBis_apply]
  split
  · obtain hwalk | ⟨-, hfail⟩ := foreachBisFrom_walk func g.bis_valid _ userData
    · exact hwalk ▸ walk_not_outside (fun b _ => hfunc b) userData
    · exact hfail ▸ nofun
  · simp

/-! ## Nothing is read outside -/

/-- No accessor of a subgroup reads outside the data. The function that
is called on each BIS is the caller's, and does not either. -/
structure SubgroupContained (subgroup : Bytes) : Prop where
  bisCount : getSubgroupBisCount subgroup ≠ .error .outside
  codecId : getSubgroupCodecId subgroup ≠ .error .outside
  codecData : getSubgroupCodecData subgroup ≠ .error .outside
  codecMeta : getSubgroupCodecMeta subgroup ≠ .error .outside
  codecCfg : ∀ maxData maxMeta, subgroupCodecToCodecCfg maxData maxMeta subgroup ≠ .error .outside
  bisIndexes : subgroupGetBisIndexes subgroup ≠ .error .outside
  foreachBis : ∀ {σ : Type} (func : SubgroupBis → σ → Except PullFault (Bool × σ)),
    (∀ b userData, func b userData ≠ .error .outside) → ∀ userData,
      subgroupForeachBis subgroup func userData ≠ .error .outside

/-- No accessor of a BASE reads outside the data, and every subgroup that
is passed on is one whose accessors do not. -/
structure Contained (base : Bytes) : Prop where
  size : getSize base ≠ .error .outside
  presDelay : getPresDelay base ≠ .error .outside
  subgroupCount : getSubgroupCount base ≠ .error .outside
  bisIndexes : getBisIndexes base ≠ .error .outside
  foreachSubgroup : ∀ {σ : Type} (func : Bytes → σ → Except PullFault (Bool × σ)),
    (∀ subgroup, SubgroupContained subgroup →
      ∀ userData, func subgroup userData ≠ .error .outside) →
    ∀ userData, Bap.foreachSubgroup base func userData ≠ .error .outside

theorem baseSubgroupBisCb_ne (b : SubgroupBis) (bitfield : ℕ) :
    baseSubgroupBisCb b bitfield ≠ .error .outside := fun h => nomatch h

theorem BaseSubgroup.contained (g : BaseSubgroup) (rest : Bytes) :
    SubgroupContained (g.bytes ++ rest) where
  bisCount := by rw [g.getBisCount_bytes]; exact fun h => nomatch h
  codecId := by rw [g.getCodecId_bytes]; exact fun h => nomatch h
  codecData := by rw [g.getCodecData_bytes]; split <;> exact fun h => nomatch h
  codecMeta := by rw [g.getCodecMeta_bytes]; split <;> exact fun h => nomatch h
  codecCfg := g.toCodecCfg_bytes rest
  bisIndexes := g.foreachBis_not_outside rest baseSubgroupBisCb_ne 0
  foreachBis _ hfunc := g.foreachBis_not_outside rest hfunc

theorem contained_of_mem_pointers {ptr : Bytes} (h : ptr ∈ pointers rest gs) :
    SubgroupContained ptr := by
  induction gs with
  | nil => simp [pointers] at h
  | cons g gs ih =>
    rw [pointers, mem_cons] at h
    obtain rfl | h := h
    · exact g.contained _
    · exact ih h

theorem Base.foreachSubgroup_not_outside (b : Base) (rest : Bytes)
    {func : Bytes → σ → Except PullFault (Bool × σ)}
    (hfunc : ∀ subgroup, SubgroupContained subgroup →
      ∀ userData, func subgroup userData ≠ .error .outside) (userData : σ) :
    foreachSubgroup (b.bytes ++ rest) func userData ≠ .error .outside := by
  rw [b.foreachSubgroup_apply]
  obtain hwalk | ⟨-, hfail⟩ := foreachSubgroupFrom_walk func (Nat.le_refl _) _ userData
  · exact hwalk ▸ walk_not_outside
      (fun ptr hptr => hfunc ptr (contained_of_mem_pointers hptr)) userData
  · simp [hfail]

/-- **The accessors stay within the data** of a BASE and what follows it. -/
theorem Base.contained (b : Base) (rest : Bytes) : Contained (b.bytes ++ rest) where
  size := by rw [b.getSize_bytes]; split <;> exact fun h => nomatch h
  presDelay := by rw [b.getPresDelay_bytes]; exact fun h => nomatch h
  subgroupCount := by rw [b.getSubgroupCount_bytes]; exact fun h => nomatch h
  bisIndexes := b.foreachSubgroup_not_outside rest (fun _ h => h.foreachBis _ baseSubgroupBisCb_ne) 0
  foreachSubgroup _ hfunc := b.foreachSubgroup_not_outside rest hfunc

/-! ## The check -/

theorem u8_full (x : UInt8) (d : Bytes) : Pull.u8 (.full (x :: d)) = .ok (x, .full d) :=
  (reads_u8 x).full d

theorem mem_full {n : ℕ} {d : Bytes} (h : n ≤ d.length) :
    Pull.mem n (.full d) = .ok (d.take n, .full (d.drop n)) := by
  simp [Pull.mem, Unread.full, Nat.not_lt.mpr h]

theorem checkPullLtv_ltv (h : data.length < 256) (rest : Bytes) :
    checkPullLtv (.full (ltv data ++ rest)) = .ok (true, .full rest) := by
  have hlen : ¬ (ltv data ++ rest).length < 1 := by simp
  have hleft : ¬ (data ++ rest).length < (ofNat data.length).toNat := by
    rw [toNat_ofNat_of_lt h]
    simp
  rw [checkPullLtv, bind_of_ok (len_full _), if_neg hlen]
  rw [show ltv data ++ rest = ofNat data.length :: (data ++ rest) from rfl]
  rw [bind_of_ok (u8_full _ _), bind_of_ok (len_full _), if_neg hleft,
    toNat_ofNat_of_lt h, bind_of_ok (mem_full (by simp)), drop_left]
  rfl

theorem checkPullLtv_full (d : Bytes) : (∃ data rest, data.length < 256 ∧ d = ltv data ++ rest ∧
      checkPullLtv (.full d) = .ok (true, .full rest)) ∨
    ∃ buf, checkPullLtv (.full d) = .ok (false, buf) := by
  cases d with
  | nil => exact .inr ⟨_, rfl⟩
  | cons l d =>
    by_cases hleft : d.length < l.toNat
    · right
      rw [checkPullLtv, bind_of_ok (len_full _), if_neg (by simp),
        bind_of_ok (u8_full _ _), bind_of_ok (len_full _), if_pos hleft]
      exact ⟨_, rfl⟩
    · left
      have hlen : (d.take l.toNat).length = l.toNat := by simp; omega
      have hltv : l :: d = ltv (d.take l.toNat) ++ d.drop l.toNat := by
        rw [ltv, hlen, UInt8.ofNat_toNat]
        simp
      have hlt : (d.take l.toNat).length < 256 := by rw [hlen]; exact l.toNat_lt
      refine ⟨_, _, hlt, hltv, ?_⟩
      rw [hltv]
      exact checkPullLtv_ltv hlt _

theorem checkBis_bytes (hvalid : ∀ b ∈ bis, b.Valid) (rest : Bytes) :
    checkBis bis.length (.full (bis.flatMap SubgroupBis.bytes ++ rest)) =
      .ok (true, .full rest) := by
  induction bis with
  | nil => rfl
  | cons b bis ih =>
    have hb := hvalid b mem_cons_self
    have hrest := ih fun c hc => hvalid c (mem_cons_of_mem b hc)
    have hrange : ¬ (b.index.toNat < 1 ∨ bisIndexMax < b.index.toNat) := by
      have := hb.index_pos
      have := hb.index_le
      omega
    rw [length_cons, checkBis, bind_of_ok (len_full _), if_neg (by simp),
      flatMap_cons, append_assoc, SubgroupBis.bytes, append_assoc,
      bind_of_ok ((reads_u8 _).full _), if_neg hrange,
      bind_of_ok (checkPullLtv_ltv hb.data_lt _)]
    exact hrest

theorem checkBis_full (n : ℕ) (d : Bytes) :
    (∃ (bis : List SubgroupBis) (rest : Bytes), bis.length = n ∧ (∀ b ∈ bis, b.Valid) ∧
      d = bis.flatMap SubgroupBis.bytes ++ rest) ∨
    ∃ buf, checkBis n (.full d) = .ok (false, buf) := by
  induction n generalizing d with
  | zero => exact .inl ⟨[], d, rfl, by simp, rfl⟩
  | succ n ih =>
    rw [checkBis, bind_of_ok (len_full _)]
    cases d with
    | nil => exact .inr ⟨_, rfl⟩
    | cons x d =>
      rw [if_neg (by simp), bind_of_ok (u8_full _ _)]
      by_cases hrange : x.toNat < 1 ∨ bisIndexMax < x.toNat
      · rw [if_pos hrange]
        exact .inr ⟨_, rfl⟩
      rw [if_neg hrange]
      obtain ⟨data, rest, hdata, rfl, hltv⟩ | ⟨buf, hltv⟩ := checkPullLtv_full d
      · rw [bind_of_ok hltv]
        obtain ⟨bis, rest, rfl, hvalid, rfl⟩ | hbad := ih rest
        · refine .inl ⟨{ index := x, data } :: bis, rest, rfl, ?_, by simp [SubgroupBis.bytes]⟩
          rw [forall_mem_cons]
          obtain ⟨hlo, hhi⟩ := not_or.mp hrange
          exact ⟨⟨Nat.le_of_not_lt hlo, Nat.le_of_not_lt hhi, hdata⟩, hvalid⟩
        · exact .inr hbad
      · rw [bind_of_ok hltv]
        exact .inr ⟨_, rfl⟩

theorem BaseSubgroup.check_bytes (g : BaseSubgroup) (rest : Bytes) :
    checkSubgroup (.full (g.bytes ++ rest)) = .ok (true, .full rest) := by
  have hrange : ¬ ((ofNat g.bis.length).toNat < 1 ∨
      maxGroupIsoCount < (ofNat g.bis.length).toNat) := by
    rw [g.toNat_bis]
    have := g.bis_pos
    have := g.bis_le
    omega
  rw [g.bytes_eq, checkSubgroup, bind_of_ok (len_full _), if_neg (by simp),
    bind_of_ok ((reads_bisCount _).full _), if_neg hrange,
    bind_of_ok (len_full _), if_neg (by simp),
    bind_of_ok ((reads_codecId _).full _), bind_of_ok (checkPullLtv_ltv g.data_lt _)]
  change (checkPullLtv >>= fun r => _) _ = _
  rw [bind_of_ok (checkPullLtv_ltv g.metadata_lt _), g.toNat_bis]
  exact checkBis_bytes g.bis_valid rest

theorem exists_le16 (lo hi : UInt8) : ∃ n : UInt16, [lo, hi] = le16 n.toNat := by
  have hlo := lo.toNat_lt
  have hhi := hi.toNat_lt
  refine ⟨UInt16.ofNat (lo.toNat + 256 * hi.toNat), ?_⟩
  rw [UInt16.toNat_ofNat', Nat.mod_eq_of_lt (by omega), le16]
  have hdiv : (lo.toNat + 256 * hi.toNat) / 256 = hi.toNat := by omega
  have hmod : ofNat (lo.toNat + 256 * hi.toNat) = lo := by
    rw [← UInt8.toNat_inj, toNat_ofNat']
    omega
  rw [hdiv, hmod, UInt8.ofNat_toNat]

theorem exists_codecId {d : Bytes} (h : 5 ≤ d.length) :
    ∃ (c : CodecId) (rest : Bytes), d = c.bytes ++ rest := by
  match d, h with
  | id :: a :: b :: c :: e :: rest, _ =>
    obtain ⟨cid, hcid⟩ := exists_le16 a b
    obtain ⟨vid, hvid⟩ := exists_le16 c e
    exact ⟨{ id, cid, vid }, rest, by simp [CodecId.bytes, ← hcid, ← hvid]⟩

theorem checkSubgroup_full (d : Bytes) :
    (∃ (g : BaseSubgroup) (rest : Bytes), d = g.bytes ++ rest) ∨
    ∃ buf, checkSubgroup (.full d) = .ok (false, buf) := by
  rw [checkSubgroup, bind_of_ok (len_full _)]
  cases d with
  | nil => exact .inr ⟨_, rfl⟩
  | cons n d =>
    rw [if_neg (by simp), bind_of_ok (show pullBisCount _ = _ from u8_full n d)]
    by_cases hrange : n.toNat < 1 ∨ maxGroupIsoCount < n.toNat
    · rw [if_pos hrange]
      exact .inr ⟨_, rfl⟩
    rw [if_neg hrange, bind_of_ok (len_full _)]
    by_cases hfive : d.length < 5
    · rw [if_pos hfive]
      exact .inr ⟨_, rfl⟩
    obtain ⟨c, d, rfl⟩ := exists_codecId (Nat.le_of_not_lt hfive)
    rw [if_neg hfive, bind_of_ok ((reads_codecId c).full d)]
    obtain ⟨data, d, hdata, rfl, hltv⟩ | ⟨buf, hltv⟩ := checkPullLtv_full d
    swap
    · rw [bind_of_ok hltv]
      exact .inr ⟨_, rfl⟩
    rw [bind_of_ok hltv]
    change _ ∨ ∃ buf, (checkPullLtv >>= fun r => _) _ = _
    obtain ⟨metadata, d, hmetadata, rfl, hltv⟩ | ⟨buf, hltv⟩ := checkPullLtv_full d
    swap
    · rw [bind_of_ok hltv]
      exact .inr ⟨_, rfl⟩
    rw [bind_of_ok hltv]
    obtain ⟨bis, rest, hbis, hvalid, rfl⟩ | hbad := checkBis_full n.toNat d
    · left
      let g : BaseSubgroup :=
        { codecId := c, data, metadata, bis, data_lt := hdata, metadata_lt := hmetadata
          bis_pos := by omega, bis_le := by omega, bis_valid := hvalid }
      refine ⟨g, rest, ?_⟩
      rw [g.bytes_eq, show ofNat g.bis.length = n by rw [hbis, UInt8.ofNat_toNat]]
      rfl
    · exact .inr hbad

theorem checkSubgroups_bytes (gs : List BaseSubgroup) (rest : Bytes) :
    checkSubgroups gs.length (.full (gs.flatMap BaseSubgroup.bytes ++ rest)) =
      .ok (true, .full rest) := by
  induction gs with
  | nil => rfl
  | cons g gs ih =>
    rw [length_cons, checkSubgroups, flatMap_cons, append_assoc, bind_of_ok (g.check_bytes _)]
    exact ih

theorem checkSubgroups_full (n : ℕ) (d : Bytes) :
    (∃ (gs : List BaseSubgroup) (rest : Bytes), gs.length = n ∧
      d = gs.flatMap BaseSubgroup.bytes ++ rest) ∨
    ∃ buf, checkSubgroups n (.full d) = .ok (false, buf) := by
  induction n generalizing d with
  | zero => exact .inl ⟨[], d, rfl, rfl⟩
  | succ n ih =>
    rw [checkSubgroups]
    obtain ⟨g, d, rfl⟩ | ⟨buf, hbad⟩ := checkSubgroup_full d
    · rw [bind_of_ok (g.check_bytes d)]
      obtain ⟨gs, rest, rfl, rfl⟩ | hbad := ih d
      · exact .inl ⟨g :: gs, rest, rfl, by simp⟩
      · exact .inr hbad
    · rw [bind_of_ok hbad]
      exact .inr ⟨_, rfl⟩

theorem Base.check_bytes (b : Base) (rest : Bytes) :
    checkBase (.full (b.bytes ++ rest)) = .ok (true, .full rest) := by
  have hrange : ¬ ((ofNat b.subgroups.length).toNat < 1 ∨
      subgroupMaxCount < (ofNat b.subgroups.length).toNat) := by
    rw [b.toNat_subgroups]
    have := b.subgroups_pos
    have := b.subgroups_le
    omega
  rw [Base.bytes, append_assoc, append_assoc, checkBase,
    bind_of_ok ((reads_pd b.pd_lt).full _), bind_of_ok ((reads_u8 _).full _),
    if_neg hrange, b.toNat_subgroups]
  exact checkSubgroups_bytes b.subgroups rest

theorem checkBase_full {d : Bytes} (h : 4 ≤ d.length) :
    (∃ (b : Base) (rest : Bytes), d = b.bytes ++ rest) ∨
    ∃ buf, checkBase (.full d) = .ok (false, buf) := by
  have hpd := leNat_lt (d.take 3)
  have hthree : (d.take 3).length = 3 := by rw [length_take]; omega
  rw [hthree] at hpd
  have hbytes : d.take 3 = leBytes 3 (leNat (d.take 3)) := by
    have h := leBytes_leNat (d.take 3)
    rw [hthree] at h
    exact h.symm
  obtain ⟨n, d', hd'⟩ : ∃ n d', d.drop 3 = n :: d' :=
    exists_cons_of_length_pos (by rw [length_drop]; omega)
  have hd : d = leBytes 3 (leNat (d.take 3)) ++ n :: d' := by
    rw [← hbytes, ← hd', take_append_drop]
  generalize leNat (d.take 3) = pd at hpd hd
  subst hd
  rw [checkBase, bind_of_ok ((reads_pd hpd).full _), bind_of_ok (u8_full n d')]
  by_cases hrange : n.toNat < 1 ∨ subgroupMaxCount < n.toNat
  · rw [if_pos hrange]
    exact .inr ⟨_, rfl⟩
  rw [if_neg hrange]
  obtain ⟨hlo, hhi⟩ := not_or.mp hrange
  obtain ⟨gs, rest, hgs, rfl⟩ | hbad := checkSubgroups_full n.toNat d'
  · left
    let b : Base :=
      { pd, subgroups := gs, pd_lt := hpd, subgroups_pos := by omega, subgroups_le := by omega }
    refine ⟨b, rest, ?_⟩
    rw [Base.bytes, show ofNat b.subgroups.length = n by rw [hgs, UInt8.ofNat_toNat]]
    simp [b]
  · exact .inr hbad

theorem BaseSubgroup.length_bytes_ge (g : BaseSubgroup) : 10 ≤ g.bytes.length := by
  obtain ⟨b, bis, hbis⟩ := exists_cons_of_length_pos g.bis_pos
  rw [BaseSubgroup.bytes, hbis, flatMap_cons]
  simp only [length_append, g.length_head, SubgroupBis.length_bytes]
  omega

theorem Base.length_bytes_ge (b : Base) : 14 ≤ b.bytes.length := by
  obtain ⟨g, gs, hgs⟩ := exists_cons_of_length_pos b.subgroups_pos
  have := g.length_bytes_ge
  rw [Base.bytes, hgs, flatMap_cons]
  simp only [length_append, length_leBytes, length_singleton]
  omega

/-- **Advertising data that carries a BASE is accepted.** -/
theorem getBaseFromAd_bytes {ad : Ad} (htype : ad.type = svcData16) (b : Base) (rest : Bytes)
    (hdata : ad.data = le16 basicAudio ++ (b.bytes ++ rest)) :
    getBaseFromAd ad = .ok (some (b.bytes ++ rest)) := by
  have hmin : ¬ ad.data.length < baseMinSize := by
    have := b.length_bytes_ge
    rw [hdata]
    simp [baseMinSize]
    omega
  have huuid : Pull.mem 2 ⟨ad.data, ad.data.length⟩ =
      .ok (le16 basicAudio, .full (b.bytes ++ rest)) := by
    rw [hdata]
    exact (reads_mem rfl).full _
  rw [getBaseFromAd, if_neg (by simp [htype]), if_neg hmin, huuid]
  simp only [bind, Except.bind, show ¬ leNat (le16 basicAudio) ≠ basicAudio by decide, if_false,
    b.check_bytes rest]
  rfl

/-- **What is accepted holds a BASE**, and what follows it. -/
theorem exists_base_of_getBaseFromAd {ad : Ad} {base : Bytes}
    (h : getBaseFromAd ad = .ok (some base)) :
    ∃ (b : Base) (rest : Bytes), base = b.bytes ++ rest := by
  rw [getBaseFromAd] at h
  split at h
  · nomatch h
  split at h
  · nomatch h
  next hmin =>
    have hlen : 16 ≤ ad.data.length := Nat.le_of_not_lt hmin
    rw [show (⟨ad.data, ad.data.length⟩ : Unread) = .full ad.data from rfl,
      mem_full (by omega)] at h
    simp only [bind, Except.bind] at h
    split at h
    · nomatch h
    obtain ⟨b, rest, hb⟩ | ⟨buf, hbad⟩ := @checkBase_full (ad.data.drop 2) (by simp; omega)
    · rw [hb, b.check_bytes rest] at h
      have hbase : some (b.bytes ++ rest) = some base := Except.ok.inj h
      exact ⟨b, rest, (Option.some.inj hbase).symm⟩
    · rw [hbad] at h
      nomatch h

/-- **Every BASE that is accepted is read within its data.** -/
theorem contained_of_getBaseFromAd {ad : Ad} {base : Bytes}
    (h : getBaseFromAd ad = .ok (some base)) : Contained base := by
  obtain ⟨b, rest, rfl⟩ := exists_base_of_getBaseFromAd h
  exact b.contained rest

end Bap

end OpenBlue

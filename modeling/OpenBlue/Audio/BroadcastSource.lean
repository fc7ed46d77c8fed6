import OpenBlue.Audio.Model.BroadcastSource
import OpenBlue.Audio.Base
import Mathlib.Data.List.Forall2
import Mathlib.Data.List.Nodup
/-!
# Audio — what a broadcast source announces

A broadcast source apart from its arrays is what was last given for it
(`Given`): the presentation delay, each subgroup's codec configuration,
and each stream's data. The source holds that (`Holds`) as long as a
reconfiguration covers the first subgroup only: the data of a later
subgroup's stream goes to the place the stream has in its subgroup, which
is that of another stream. Of a source that holds what was given, the
announcement is that of `Given`, where the room for it does not end in
the first seven bytes of a later subgroup, and is read back where it is
not as long as advertising data can be.
-/

namespace OpenBlue

namespace Bap

open Function List SubgroupParam

/-! ## What was last given -/

/-- What was last given for a subgroup, its streams in the order in which
they were created. -/
structure GivenSubgroup where
  codecCfg : CodecCfg
  streams : List (StreamId × Bytes)
  deriving DecidableEq, Repr

/-- What was last given for a source. -/
structure Given where
  pd : ℕ
  subgroups : List GivenSubgroup
  deriving DecidableEq, Repr

/-- The data that is last given for a stream, if any is. -/
def lastGiven (stream : StreamId) (data : Bytes) (ps : List StreamParam) : Bytes :=
  ps.foldl (fun data p => if p.stream = stream then p.data else data) data

/-- What a reconfiguration gives for a subgroup. -/
def GivenSubgroup.reconfig (g : GivenSubgroup) (p : SubgroupParam) : GivenSubgroup where
  codecCfg := p.codecCfg
  streams := g.streams.map fun s => (s.1, lastGiven s.1 s.2 p.params)

/-- What a reconfiguration gives for the subgroups, the first ones. -/
def reconfigGiven : List SubgroupParam → List GivenSubgroup → List GivenSubgroup
  | [], gs => gs
  | _ :: _, [] => []
  | p :: ps, g :: gs => g.reconfig p :: reconfigGiven ps gs

/-- What a subgroup is given when it is created. -/
def SubgroupParam.toGiven (p : SubgroupParam) : GivenSubgroup where
  codecCfg := p.codecCfg
  streams := p.params.map fun s => (s.stream, s.data)

/-- What `create` is given. -/
def Given.create (p : Param) : Given where
  pd := p.qos.pd
  subgroups := p.given.map SubgroupParam.toGiven

/-- What is given last once `reconfig` has been called too. -/
def Given.reconfig (g : Given) (p : Param) : Given where
  pd := p.qos.pd
  subgroups := reconfigGiven p.given g.subgroups

/-- What `create` and `reconfig`s in a row leave as last given. -/
def Given.after (p : Param) (rs : List Param) : Given := rs.foldl Given.reconfig (Given.create p)

/-- A source that `create` built and `reconfig`s in a row changed. -/
def build (env : Env) (p : Param) (rs : List Param) : Except Err Source := do
  let source ← create env p
  rs.foldlM (reconfig env) source

/-! ## What a BASE says of it -/

/-- The BISes of a subgroup, by the number of streams before them. -/
def numberBis (first : ℕ) : List (StreamId × Bytes) → List SubgroupBis
  | [] => []
  | s :: ss => { index := UInt8.ofNat (first + 1), data := s.2 } :: numberBis (first + 1) ss

/-- What a BASE says of a subgroup. -/
structure Told where
  codecId : CodecId
  data : Bytes
  metadata : Bytes
  bis : List SubgroupBis
  deriving DecidableEq, Repr

/-- What a BASE says of the subgroups, by the number of streams before
them. -/
def numberSubgroups (first : ℕ) : List GivenSubgroup → List Told
  | [] => []
  | g :: gs => { codecId := g.codecCfg.codecId, data := g.codecCfg.data
                 metadata := g.codecCfg.metadata, bis := numberBis first g.streams } ::
      numberSubgroups (first + g.streams.length) gs

/-- The callback that keeps what it is called with. -/
def collect {α : Type} (a : α) (as : List α) : Except PullFault (Bool × List α) :=
  .ok (true, as ++ [a])

/-- A pointer to a subgroup under which the accessors find what is told. -/
structure Told.At (t : Told) (subgroup : Bytes) : Prop where
  codecId : getSubgroupCodecId subgroup = .ok t.codecId
  codecData : getSubgroupCodecData subgroup = .ok t.data
  codecMeta : getSubgroupCodecMeta subgroup = .ok t.metadata
  foreachBis : subgroupForeachBis subgroup collect [] = .ok (true, t.bis)

/-- **Advertising data says what was last given.** It is accepted, and the
accessors find the size, the presentation delay, and the subgroups with
their BISes. -/
def Given.Announced (g : Given) (ad : Ad) : Prop :=
  ∃ base, getBaseFromAd ad = .ok (some base) ∧ getSize base = .ok (ad.data.length - 2) ∧
    getPresDelay base = .ok g.pd ∧
    ∃ subgroups, foreachSubgroup base collect [] = .ok (true, subgroups) ∧
      List.Forall₂ Told.At (numberSubgroups 0 g.subgroups) subgroups

/-- **What `get_base` promises** of a buffer of `size` bytes: it finds no
room, or fills at most the buffer, and what it writes says what was last
given if it is advertising data at all. -/
def Announces (g : Given) (source : Source) (size : ℕ) : Prop :=
  getBase source size = .error .emsgsize ∨
    ∃ out, getBase source size = .ok out ∧ out.length ≤ size ∧
      ∀ ad : Ad, ad.type = svcData16 → ad.data = out → g.Announced ad

/-! ## The room it takes -/

/-- The bytes of a subgroup in the announcement. -/
def GivenSubgroup.size (g : GivenSubgroup) : ℕ :=
  8 + g.codecCfg.data.length + g.codecCfg.metadata.length +
    (g.streams.map fun s => 2 + s.2.length).sum

/-- The bytes of the announcement before its subgroup `k`. -/
def Given.used (g : Given) (k : ℕ) : ℕ := 6 + ((g.subgroups.take k).map GivenSubgroup.size).sum

/-- The bytes of the announcement. -/
def Given.size (g : Given) : ℕ := g.used g.subgroups.length

/-- **The room does not end in the first seven bytes of a later
subgroup.** -/
def Given.Roomy (g : Given) (size : ℕ) : Prop :=
  ∀ k, 0 < k → k < g.subgroups.length → ¬ (g.used k ≤ size ∧ size < g.used k + 7)

/-! ## Adding to the buffer -/

variable {size : ℕ} {a b : Bytes} {p q : Put}

/-- What adds these bytes, or finds that they have no room. -/
def Puts (size : ℕ) (p : Put) (bytes : Bytes) : Prop :=
  ∀ buf : Bytes, buf.length ≤ size → p buf =
    if buf.length + bytes.length ≤ size then .ok (buf ++ bytes) else .error .emsgsize

theorem Puts.bind (hp : Puts size p a) (hq : Puts size q b) :
    Puts size (fun buf => p buf >>= q) (a ++ b) := by
  intro buf hbuf
  change (p buf >>= q) = _
  rw [hp buf hbuf, length_append]
  by_cases ha : buf.length + a.length ≤ size
  · rw [if_pos ha]
    change q (buf ++ a) = _
    rw [hq _ (by simpa using ha), length_append, append_assoc, Nat.add_assoc]
  · rw [if_neg ha, if_neg (by omega)]
    rfl

theorem puts_nil : Puts size (fun buf => .ok buf) [] := by
  intro buf hbuf
  rw [if_pos (by simpa using hbuf), append_nil]

variable {buf : Bytes}

theorem add_of_le (h : buf.length + a.length ≤ size) : add size a buf = .ok (buf ++ a) := by
  rw [add, if_neg (by omega)]

theorem room_eq {n : ℕ} (hbuf : buf.length ≤ size) :
    room size n buf = if buf.length + n ≤ size then .ok buf else .error .emsgsize := by
  by_cases h : buf.length + n ≤ size
  · rw [room, if_neg (by omega), if_pos h]
  · rw [room, if_pos (by omega), if_neg h]

theorem puts_room (a : Bytes) : Puts size (fun buf => room size a.length buf >>= add size a) a := by
  intro buf hbuf
  change (room size a.length buf >>= add size a) = _
  rw [room_eq hbuf]
  by_cases h : buf.length + a.length ≤ size
  · rw [if_pos h, if_pos h]
    exact add_of_le h
  · rw [if_neg h, if_neg h]
    rfl

/-- The stream data from a place on. -/
def Stored (streamData : ℕ → Bytes) (first : ℕ) (datas : List Bytes) : Prop :=
  ∀ i d, datas[i]? = some d → streamData (first + i) = d

variable {streamData : ℕ → Bytes} {first : ℕ} {ds es : List Bytes} {d : Bytes}

theorem stored_cons : Stored streamData first (d :: ds) ↔
      streamData first = d ∧ Stored streamData (first + 1) ds := by
  constructor
  · intro h
    refine ⟨h 0 d rfl, fun i e he => ?_⟩
    rw [← h (i + 1) e he, Nat.add_assoc, Nat.add_comm 1]
  · rintro ⟨h, hs⟩ i e he
    cases i with
    | zero =>
      obtain rfl := Option.some.inj he
      exact h
    | succ i => rw [← hs i e he, Nat.add_assoc, Nat.add_comm 1]

theorem stored_append : Stored streamData first (ds ++ es) ↔
      Stored streamData first ds ∧ Stored streamData (first + ds.length) es := by
  induction ds generalizing first with
  | nil => simp [Stored]
  | cons d ds ih =>
    rw [cons_append, stored_cons, stored_cons, ih, and_assoc, length_cons,
      Nat.add_assoc, Nat.add_comm 1]

theorem puts_bis (index : UInt8) (data : Bytes) :
    Puts size (fun buf => do
      let buf ← room size 2 buf
      let buf ← add size [index] buf
      let buf ← room size 1 buf
      let buf ← add size [UInt8.ofNat data.length] buf
      let buf ← room size data.length buf
      add size data buf) (({ index, data } : SubgroupBis).bytes) := by
  have hhead : Puts size (fun buf => do
      let buf ← room size 2 buf
      let buf ← add size [index] buf
      let buf ← room size 1 buf
      add size [UInt8.ofNat data.length] buf) [index, UInt8.ofNat data.length] := by
    intro buf hbuf
    change (room size 2 buf >>= fun buf => _) = _
    rw [room_eq hbuf]
    by_cases h : buf.length + 2 ≤ size
    · rw [if_pos h, if_pos (by simpa using h)]
      change (add size [index] buf >>= fun buf => _) = _
      rw [add_of_le (by simp; omega)]
      change (room size 1 (buf ++ [index]) >>= fun buf => _) = _
      rw [room_eq (by simp; omega), if_pos (by simp; omega)]
      change add size [UInt8.ofNat data.length] (buf ++ [index]) = _
      rw [add_of_le (by simp; omega)]
      simp
    · rw [if_neg h, if_neg (by simpa using h)]
      rfl
  have h := hhead.bind (puts_room data)
  simp only [bind_assoc] at h
  exact h

variable {ss : List (StreamId × Bytes)}

theorem puts_encodeBis {i : ℕ} (h : Stored streamData i (ss.map Prod.snd)) (first : ℕ) :
    Puts size (encodeBis size streamData ss.length i first)
      ((numberBis first ss).flatMap SubgroupBis.bytes) := by
  induction ss generalizing i first with
  | nil => exact puts_nil
  | cons s ss ih =>
    obtain ⟨hs, hss⟩ := stored_cons.mp h
    have hbis := (puts_bis (UInt8.ofNat (first + 1)) s.2).bind (ih hss (first + 1))
    simp only [bind_assoc] at hbis
    rw [← hs] at hbis
    rw [numberBis, flatMap_cons, ← hs]
    exact hbis

/-- The bytes of a subgroup, by the number of streams before it. -/
def GivenSubgroup.bytes (g : GivenSubgroup) (first : ℕ) : Bytes :=
  [UInt8.ofNat g.streams.length] ++ (g.codecCfg.codecId.bytes ++ (ltv g.codecCfg.data ++
    (ltv g.codecCfg.metadata ++ (numberBis first g.streams).flatMap SubgroupBis.bytes)))

/-- The subgroup that the source has for it. -/
def GivenSubgroup.subgroup (g : GivenSubgroup) : Subgroup where
  streams := g.streams.map Prod.fst
  codecCfg := g.codecCfg

theorem add_of_lt (h : size < buf.length + a.length) (hbuf : buf.length ≤ size) :
    add size a buf = .error .assertFailed := by
  rw [add, if_pos (by omega)]

theorem add_add (hbuf : buf.length ≤ size) {α : Type} (f : Bytes → Except Err α) :
    (add size a buf >>= fun buf => add size b buf >>= f) = add size (a ++ b) buf >>= f := by
  by_cases ha : buf.length + a.length ≤ size
  · rw [add_of_le ha]
    change add size b (buf ++ a) >>= f = _
    by_cases hb : buf.length + (a ++ b).length ≤ size
    · rw [add_of_le hb, add_of_le (by simpa [Nat.add_assoc] using hb), append_assoc]
    · rw [length_append] at hb
      rw [add_of_lt (by rw [length_append]; omega) hbuf,
        add_of_lt (by rw [length_append]; omega) (by simpa using ha)]
  · rw [add_of_lt (by omega) hbuf, add_of_lt (by rw [length_append]; omega) hbuf]
    rfl

/-- **A subgroup adds its bytes**, unless its first seven have no room:
those are not checked for. -/
theorem encodeBaseSubgroup_eq (g : GivenSubgroup)
    (h : Stored streamData first (g.streams.map Prod.snd)) (hbuf : buf.length ≤ size) :
    encodeBaseSubgroup size g.subgroup streamData first buf =
      if size < buf.length + 7 then .error .assertFailed
      else if buf.length + (g.bytes first).length ≤ size then .ok (buf ++ g.bytes first)
      else .error .emsgsize := by
  have hstored : Stored (fun i => streamData (first + i)) 0 (g.streams.map Prod.snd) := by
    intro i d hd
    rw [Nat.zero_add]
    exact h i d hd
  have htail := (puts_room g.codecCfg.data).bind
    ((puts_room [UInt8.ofNat g.codecCfg.metadata.length]).bind
      ((puts_room g.codecCfg.metadata).bind (@puts_encodeBis size _ _ _ hstored first)))
  simp only [bind_assoc] at htail
  have hbytes : g.bytes first = [UInt8.ofNat g.streams.length] ++ [g.codecCfg.codecId.id] ++
      le16 g.codecCfg.codecId.cid.toNat ++ le16 g.codecCfg.codecId.vid.toNat ++
      [UInt8.ofNat g.codecCfg.data.length] ++ (g.codecCfg.data ++
        ([UInt8.ofNat g.codecCfg.metadata.length] ++ (g.codecCfg.metadata ++
          (numberBis first g.streams).flatMap SubgroupBis.bytes))) := by
    simp [GivenSubgroup.bytes, ltv, CodecId.bytes]
  rw [encodeBaseSubgroup]
  dsimp only [GivenSubgroup.subgroup]
  rw [add_add hbuf, add_add hbuf, add_add hbuf, add_add hbuf, length_map]
  by_cases hseven : size < buf.length + 7
  · rw [if_pos hseven, add_of_lt (by simpa using hseven) hbuf]
    rfl
  · rw [if_neg hseven, add_of_le (by simp; omega), hbytes]
    refine (htail _ (by simp; omega)).trans ?_
    simp only [length_append, append_assoc, Nat.add_assoc]

@[simp] theorem length_numberBis (first : ℕ) (ss : List (StreamId × Bytes)) :
    (numberBis first ss).length = ss.length := by
  induction ss generalizing first with
  | nil => rfl
  | cons s ss ih => simp [numberBis, ih]

theorem GivenSubgroup.length_bytes (g : GivenSubgroup) (first : ℕ) :
    (g.bytes first).length = g.size := by
  have hbis : ∀ (ss : List (StreamId × Bytes)) (first : ℕ),
      ((numberBis first ss).flatMap SubgroupBis.bytes).length =
        (ss.map fun s => 2 + s.2.length).sum := by
    intro ss
    induction ss with
    | nil => exact fun _ => rfl
    | cons s ss ih =>
      intro first
      rw [numberBis, flatMap_cons, length_append, SubgroupBis.length_bytes, ih,
        map_cons, sum_cons, Nat.add_comm 2]
  simp only [GivenSubgroup.bytes, GivenSubgroup.size, length_append, length_ltv, hbis,
    CodecId.length_bytes, length_singleton]
  omega

/-- The bytes of subgroups in a row. -/
def bytesFrom (first : ℕ) : List GivenSubgroup → Bytes
  | [] => []
  | g :: gs => g.bytes first ++ bytesFrom (first + g.streams.length) gs

variable {gs : List GivenSubgroup}

theorem length_bytesFrom (first : ℕ) (gs : List GivenSubgroup) :
    (bytesFrom first gs).length = (gs.map GivenSubgroup.size).sum := by
  induction gs generalizing first with
  | nil => rfl
  | cons g gs ih => simp [bytesFrom, ih, g.length_bytes]

/-- The room ends in the first seven bytes of a subgroup. -/
def Tight (size n : ℕ) (gs : List GivenSubgroup) : Prop :=
  ∃ k < gs.length, n + ((gs.take k).map GivenSubgroup.size).sum ≤ size ∧
    size < n + ((gs.take k).map GivenSubgroup.size).sum + 7

variable {g : GivenSubgroup}

theorem tight_cons {n : ℕ} :
    Tight size n (g :: gs) ↔ n ≤ size ∧ size < n + 7 ∨ Tight size (n + g.size) gs := by
  constructor
  · rintro ⟨k, hk, hroom⟩
    cases k with
    | zero => exact .inl (by simpa using hroom)
    | succ k => exact .inr ⟨k, by simpa using hk, by simpa [Nat.add_assoc] using hroom⟩
  · rintro (hroom | ⟨k, hk, hroom⟩)
    · exact ⟨0, by simp, by simpa using hroom⟩
    · exact ⟨k + 1, by simpa using hk, by simpa [Nat.add_assoc] using hroom⟩

theorem not_tight_of_lt {n : ℕ} (h : size < n) : ¬ Tight size n gs := by
  rintro ⟨k, -, hroom, -⟩
  omega

/-- The stream data of subgroups in a row. -/
def datas (gs : List GivenSubgroup) : List Bytes := gs.flatMap fun g => g.streams.map Prod.snd

theorem encodeSubgroups_of_tight (h : Stored streamData first (datas gs))
    (hbuf : buf.length ≤ size) (htight : Tight size buf.length gs) :
    encodeSubgroups size streamData (gs.map GivenSubgroup.subgroup) first buf =
      .error .assertFailed := by
  induction gs generalizing first buf with
  | nil =>
    obtain ⟨k, hk, -⟩ := htight
    simp at hk
  | cons g gs ih =>
    rw [datas, flatMap_cons, stored_append, length_map] at h
    rw [map_cons, encodeSubgroups, encodeBaseSubgroup_eq g h.1 hbuf, g.length_bytes]
    by_cases hseven : size < buf.length + 7
    · rw [if_pos hseven]
      rfl
    · have hrest := (tight_cons.mp htight).resolve_left fun h => hseven h.2
      have hroom : buf.length + g.size ≤ size := by
        by_contra hlt
        exact not_tight_of_lt (by omega) hrest
      have hlen : (buf ++ g.bytes first).length = buf.length + g.size := by
        rw [length_append, g.length_bytes]
      rw [if_neg hseven, if_pos hroom]
      rw [← hlen] at hrest hroom
      have hnext := ih h.2 hroom hrest
      rw [← length_map (f := Prod.fst)] at hnext
      exact hnext

theorem encodeSubgroups_of_not_tight (h : Stored streamData first (datas gs))
    (hbuf : buf.length ≤ size) (htight : ¬ Tight size buf.length gs) :
    encodeSubgroups size streamData (gs.map GivenSubgroup.subgroup) first buf =
      if buf.length + (gs.map GivenSubgroup.size).sum ≤ size then .ok (buf ++ bytesFrom first gs)
      else .error .emsgsize := by
  induction gs generalizing first buf with
  | nil =>
    rw [if_pos (by simpa using hbuf)]
    simp [encodeSubgroups, bytesFrom]
  | cons g gs ih =>
    rw [datas, flatMap_cons, stored_append, length_map] at h
    rw [tight_cons, not_or] at htight
    obtain ⟨hseven, htight⟩ := htight
    rw [map_cons, encodeSubgroups, encodeBaseSubgroup_eq g h.1 hbuf, g.length_bytes,
      if_neg (by omega), map_cons, sum_cons, ← Nat.add_assoc]
    by_cases hroom : buf.length + g.size ≤ size
    · have hlen : (buf ++ g.bytes first).length = buf.length + g.size := by
        rw [length_append, g.length_bytes]
      rw [if_pos hroom]
      rw [← hlen] at htight hroom ⊢
      have hnext := ih h.2 hroom htight
      rw [← length_map (f := Prod.fst)] at hnext
      rw [bytesFrom, ← append_assoc, ← length_map (f := Prod.fst)]
      exact hnext
    · rw [if_neg hroom, if_neg (by omega)]
      rfl

/-! ## The source -/

/-- What the checks ask of what is given. -/
structure GivenSubgroup.Valid (g : GivenSubgroup) : Prop where
  streams_pos : 1 ≤ g.streams.length
  nodup : (g.streams.map Prod.fst).Nodup
  data_lt : g.codecCfg.data.length < 256
  metadata_lt : g.codecCfg.metadata.length < 256
  streams_lt : ∀ s ∈ g.streams, s.2.length < 256

/-- The streams of a source. -/
def Given.streamCount (g : Given) : ℕ := (g.subgroups.map fun sg => sg.streams.length).sum

/-- What the checks ask of what is given. -/
structure Given.Valid (g : Given) : Prop where
  pd_lt : g.pd < 256 ^ 3
  subgroups_pos : 1 ≤ g.subgroups.length
  subgroup : ∀ sg ∈ g.subgroups, sg.Valid
  streams_le : g.streamCount ≤ 31

/-- **The source holds what was last given.** -/
structure Holds (source : Source) (g : Given) : Prop where
  valid : g.Valid
  state : source.state = .qosConfigured
  pd : source.qos.pd = g.pd
  subgroups : source.subgroups = g.subgroups.map GivenSubgroup.subgroup
  stored : Stored source.streamData 0 (datas g.subgroups)

variable {source : Source} {given : Given}

theorem GivenSubgroup.Valid.size_ge (h : g.Valid) : 10 ≤ g.size := by
  obtain ⟨s, ss, hss⟩ := exists_cons_of_length_pos h.streams_pos
  rw [GivenSubgroup.size, hss, map_cons, sum_cons]
  omega

theorem Given.used_ge (h : given.Valid) {k : ℕ} (hk : 0 < k) : 16 ≤ given.used k := by
  obtain ⟨g, gs, hgs⟩ := exists_cons_of_length_pos h.subgroups_pos
  obtain ⟨k, rfl⟩ := Nat.exists_eq_succ_of_ne_zero (Nat.ne_of_gt hk)
  have := (h.subgroup g (by rw [hgs]; exact mem_cons_self)).size_ge
  rw [Given.used, hgs, take_succ_cons, map_cons, sum_cons]
  omega

theorem Given.size_eq (g : Given) : g.size = 6 + (g.subgroups.map GivenSubgroup.size).sum := by
  rw [Given.size, Given.used, take_length]

theorem Given.size_ge (h : given.Valid) : 16 ≤ given.size := Given.used_ge h h.subgroups_pos

/-- The announcement. -/
def Given.announcement (g : Given) : Bytes :=
  le16 basicAudio ++ (leBytes 3 g.pd ++ ([UInt8.ofNat g.subgroups.length] ++
    bytesFrom 0 g.subgroups))

theorem Given.length_announcement (g : Given) : g.announcement.length = g.size := by
  simp only [Given.announcement, g.size_eq, length_append, length_bytesFrom, length_le16,
    length_leBytes, length_singleton]
  omega

theorem Holds.encodeBase_eq (h : Holds source given) (hsize : 16 ≤ size) :
    encodeBase size source [] = encodeSubgroups size source.streamData
      (given.subgroups.map GivenSubgroup.subgroup) 0
      (le16 basicAudio ++ leBytes 3 given.pd ++ [UInt8.ofNat given.subgroups.length]) := by
  rw [encodeBase, room_eq (Nat.zero_le _), if_pos (by simpa using hsize)]
  change (add size (le16 basicAudio) [] >>= fun buf => _) = _
  rw [add_add (Nat.zero_le _), add_add (Nat.zero_le _),
    add_of_le (by simp; omega), h.pd, h.subgroups, length_map]
  rfl

theorem tight_iff (hsize : 16 ≤ size) : Tight size 6 given.subgroups ↔ ¬ given.Roomy size := by
  simp only [Given.Roomy, Given.used, Tight, not_forall, not_not]
  constructor
  · rintro ⟨k, hk, hroom⟩
    have hpos : 0 < k := by
      by_contra hzero
      obtain rfl : k = 0 := by omega
      simp at hroom
      omega
    exact ⟨k, hpos, hk, hroom⟩
  · rintro ⟨k, -, hk, hroom⟩
    exact ⟨k, hk, hroom⟩

/-- **The announcement of a source that holds what was last given.** -/
theorem Holds.getBase_of_roomy (h : Holds source given) (hroomy : given.Roomy size) :
    getBase source size =
      if given.size ≤ size then .ok given.announcement else .error .emsgsize := by
  have hge := Given.size_ge h.valid
  rw [getBase, if_neg (by rw [h.state]; exact fun h => nomatch h)]
  by_cases hsize : 16 ≤ size
  · have htight : ¬ Tight size 6 given.subgroups := by
      rw [tight_iff hsize, not_not]
      exact hroomy
    rw [h.encodeBase_eq hsize, encodeSubgroups_of_not_tight h.stored (by simp; omega) htight,
      given.size_eq]
    simp [Given.announcement]
  · rw [if_neg (by omega), encodeBase, room_eq (Nat.zero_le _), if_neg (by simpa using hsize)]
    rfl

theorem Holds.getBase_of_not_roomy (h : Holds source given) (hroomy : ¬ given.Roomy size) :
    getBase source size = .error .assertFailed := by
  have hsize : 16 ≤ size := by
    simp only [Given.Roomy, not_forall, not_not] at hroomy
    obtain ⟨k, hpos, -, hroom⟩ := hroomy
    exact Nat.le_trans (Given.used_ge h.valid hpos) hroom.1
  rw [getBase, if_neg (by rw [h.state]; exact fun h => nomatch h), h.encodeBase_eq hsize]
  exact encodeSubgroups_of_tight h.stored (by simp; omega) ((tight_iff hsize).mpr hroomy)

/-! ## What is read back -/

/-- A subgroup of a BASE that is what is told. -/
structure Told.Is (t : Told) (b : BaseSubgroup) : Prop where
  codecId : b.codecId = t.codecId
  data : b.data = t.data
  metadata : b.metadata = t.metadata
  bis : b.bis = t.bis

theorem valid_numberBis (hfirst : first + ss.length ≤ 31)
    (hlt : ∀ s ∈ ss, s.2.length < 256) : ∀ b ∈ numberBis first ss, b.Valid := by
  induction ss generalizing first with
  | nil => simp [numberBis]
  | cons s ss ih =>
    rw [length_cons] at hfirst
    rw [numberBis, forall_mem_cons]
    have hindex : (UInt8.ofNat (first + 1)).toNat = first + 1 := toNat_ofNat_of_lt (by omega)
    refine ⟨⟨?_, ?_, hlt s mem_cons_self⟩, ih (by omega) fun c hc => hlt c (mem_cons_of_mem s hc)⟩
    · rw [hindex]
      omega
    · rw [hindex, bisIndexMax]
      omega

theorem exists_baseSubgroups (hvalid : ∀ g ∈ gs, g.Valid)
    (hfirst : first + (gs.map fun g => g.streams.length).sum ≤ 31) :
    ∃ bs : List BaseSubgroup, bs.flatMap BaseSubgroup.bytes = bytesFrom first gs ∧
      List.Forall₂ Told.Is (numberSubgroups first gs) bs := by
  induction gs generalizing first with
  | nil => exact ⟨[], rfl, .nil⟩
  | cons g gs ih =>
    rw [map_cons, sum_cons] at hfirst
    have hg := hvalid g mem_cons_self
    obtain ⟨bs, hbytes, hall⟩ := @ih (first + g.streams.length)
      (fun c hc => hvalid c (mem_cons_of_mem g hc)) (by omega)
    have hpos := hg.streams_pos
    let b : BaseSubgroup :=
      { codecId := g.codecCfg.codecId, data := g.codecCfg.data, metadata := g.codecCfg.metadata
        bis := numberBis first g.streams, data_lt := hg.data_lt, metadata_lt := hg.metadata_lt
        bis_pos := by rw [length_numberBis]; exact hpos
        bis_le := by rw [length_numberBis, maxGroupIsoCount]; omega
        bis_valid := valid_numberBis (by omega) hg.streams_lt }
    refine ⟨b :: bs, ?_, .cons ⟨rfl, rfl, rfl, rfl⟩ hall⟩
    rw [flatMap_cons, hbytes, bytesFrom, ← append_nil b.bytes, b.bytes_eq]
    simp [GivenSubgroup.bytes, b]

theorem walk_collect {α : Type} (l acc : List α) : walk collect l acc = .ok (true, acc ++ l) := by
  induction l generalizing acc with
  | nil => rw [walk, append_nil]
  | cons a l ih =>
    rw [walk, collect]
    change walk collect l (acc ++ [a]) = _
    rw [ih, append_assoc]
    rfl

theorem Told.Is.at {t : Told} {b : BaseSubgroup} (h : t.Is b)
    (hlen : b.bytes.length ≤ subgroupMaxSize) (rest : Bytes) : t.At (b.bytes ++ rest) := by
  have hhead : b.head.length ≤ subgroupMaxSize := by
    rw [BaseSubgroup.bytes, length_append] at hlen
    omega
  refine ⟨?_, ?_, ?_, ?_⟩
  · rw [b.getCodecId_bytes, h.codecId]
  · rw [b.getCodecData_bytes, if_pos, h.data]
    rw [b.length_head] at hhead
    omega
  · rw [b.getCodecMeta_bytes, if_pos hhead, h.metadata]
  · rw [b.foreachBis_bytes rest hlen, walk_collect, h.bis, nil_append]

theorem told_pointers {ts : List Told} {bs : List BaseSubgroup} (h : List.Forall₂ Told.Is ts bs)
    (hlen : (bs.flatMap BaseSubgroup.bytes).length ≤ subgroupMaxSize) (rest : Bytes) :
    List.Forall₂ Told.At ts (pointers rest bs) := by
  induction h with
  | nil => exact .nil
  | cons hb _ ih =>
    rw [flatMap_cons, length_append] at hlen
    exact .cons (hb.at (by omega) _) (ih (by omega))

theorem length_le_of_size {bs : List BaseSubgroup} :
    10 * bs.length ≤ (bs.flatMap BaseSubgroup.bytes).length := by
  induction bs with
  | nil => simp
  | cons b bs ih =>
    have := b.length_bytes_ge
    rw [flatMap_cons, length_append, length_cons]
    omega

theorem length_numberSubgroups (first : ℕ) (gs : List GivenSubgroup) :
    (numberSubgroups first gs).length = gs.length := by
  induction gs generalizing first with
  | nil => rfl
  | cons g gs ih => simp [numberSubgroups, ih]

theorem Given.Valid.exists_base (h : given.Valid) (hlen : given.size < 256) :
    ∃ b : Base, given.announcement = le16 basicAudio ++ b.bytes ∧ b.pd = given.pd ∧
      List.Forall₂ Told.Is (numberSubgroups 0 given.subgroups) b.subgroups := by
  obtain ⟨bs, hbytes, hall⟩ := exists_baseSubgroups h.subgroup
    (by rw [Nat.zero_add]; exact h.streams_le)
  have hcount : bs.length = given.subgroups.length := by
    rw [← hall.length_eq, length_numberSubgroups]
  have hsize := given.size_eq
  rw [← length_bytesFrom 0, ← hbytes] at hsize
  have hten := @length_le_of_size bs
  refine ⟨{ pd := given.pd, subgroups := bs, pd_lt := h.pd_lt
            subgroups_pos := by rw [hcount]; exact h.subgroups_pos
            subgroups_le := by rw [subgroupMaxCount]; omega }, ?_, rfl, hall⟩
  simp only [Given.announcement, Base.bytes, hbytes, hcount]

/-- **The announcement is read back**, unless it is one byte longer than
the readers take a BASE to be. -/
theorem Given.Valid.announced_iff (h : given.Valid) {ad : Ad} (htype : ad.type = svcData16)
    (hdata : ad.data = given.announcement) : given.Announced ad ↔ given.size ≠ 255 := by
  have hlen : ad.data.length = given.size := by rw [hdata, given.length_announcement]
  have hlt : given.size < 256 := by rw [← hlen]; exact ad.len_lt
  obtain ⟨b, hbytes, hpd, hall⟩ := h.exists_base hlt
  have hb : b.bytes.length = given.size - 2 := by
    rw [← given.length_announcement, hbytes, length_append, length_le16]
    omega
  have hge := Given.size_ge h
  have hbase := getBaseFromAd_bytes htype b [] (by rw [hdata, hbytes, append_nil])
  have hread := b.getSize_bytes []
  rw [append_nil] at hbase hread
  constructor
  · rintro ⟨base, hbase', hsize, -⟩ hlong
    obtain rfl : b.bytes = base := Option.some.inj (Except.ok.inj (hbase.symm.trans hbase'))
    rw [hread, if_neg (by rw [hb, hlong]; decide)] at hsize
    nomatch hsize
  · intro hshort
    have hfit : b.bytes.length ≤ baseMaxSize := by
      rw [hb, baseMaxSize]
      omega
    have hsub : (b.subgroups.flatMap BaseSubgroup.bytes).length ≤ subgroupMaxSize := by
      rw [Base.bytes] at hfit
      simp only [length_append, length_leBytes, length_singleton, baseMaxSize] at hfit
      rw [subgroupMaxSize]
      omega
    refine ⟨b.bytes, hbase, ?_, ?_, pointers [] b.subgroups, ?_, told_pointers hall hsub []⟩
    · rw [hread, if_pos hfit, hb, hlen]
    · have hdelay := b.getPresDelay_bytes []
      rwa [append_nil, hpd] at hdelay
    · have hwalk := b.foreachSubgroup_bytes [] hfit collect []
      rwa [append_nil, walk_collect, nil_append] at hwalk

/-- **When a source that holds what was given announces it.** -/
theorem Holds.announces_iff (h : Holds source given) (size : ℕ) : Announces given source size ↔
      given.Roomy size ∧ ¬ (given.size = 255 ∧ 255 ≤ size) := by
  by_cases hroomy : given.Roomy size
  · rw [Announces, h.getBase_of_roomy hroomy]
    by_cases hroom : given.size ≤ size
    · rw [if_pos hroom]
      constructor
      · rintro (hbad | ⟨out, hout, -, had⟩)
        · nomatch hbad
        · refine ⟨hroomy, fun hlong => ?_⟩
          obtain rfl := Except.ok.inj hout
          let ad : Ad := { type := svcData16, data := given.announcement
                           len_lt := by rw [given.length_announcement]; omega }
          exact (@Given.Valid.announced_iff _ h.valid ad rfl rfl).mp (had ad rfl rfl) hlong.1
      · rintro ⟨-, hlong⟩
        refine .inr ⟨_, rfl, by rw [given.length_announcement]; exact hroom, ?_⟩
        intro ad htype hdata
        exact (h.valid.announced_iff htype hdata).mpr fun heq => hlong ⟨heq, by omega⟩
    · rw [if_neg hroom]
      exact ⟨fun _ => ⟨hroomy, fun hlong => hroom (by omega)⟩, fun _ => .inl rfl⟩
  · rw [Announces, h.getBase_of_not_roomy hroomy]
    constructor
    · rintro (hbad | ⟨out, hout, -⟩)
      · nomatch hbad
      · nomatch hout
    · exact fun h => absurd h.1 hroomy

/-! ## Create and reconfigure -/

variable {env : Env} {cfg : CodecCfg} {ps : List StreamParam} {n n' : ℕ} {sd sd' : ℕ → Bytes}

theorem Stored.congr (h : Stored sd first ds)
    (heq : ∀ i < ds.length, sd' (first + i) = sd (first + i)) : Stored sd' first ds := by
  intro i d hd
  have hi : i < ds.length := (List.getElem?_eq_some_iff.mp hd).1
  rw [heq i hi, h i d hd]

theorem createStreams_ok (h : createStreams env cfg ps sd n = .ok (sd', n')) :
    n' = n + ps.length ∧ (∀ i < n, sd' i = sd i) ∧ Stored sd' n (ps.map (·.data)) := by
  induction ps generalizing sd n with
  | nil =>
    obtain ⟨rfl, rfl⟩ := Prod.mk.inj (Except.ok.inj h)
    exact ⟨rfl, fun _ _ => rfl, by simp [Stored]⟩
  | cons p ps ih =>
    rw [createStreams] at h
    split at h
    · nomatch h
    split at h
    · nomatch h
    split at h
    · nomatch h
    obtain ⟨hn, heq, hstored⟩ := ih h
    refine ⟨by rw [hn, length_cons]; omega, fun i hi => ?_, ?_⟩
    · rw [heq i (by omega), update_of_ne (by omega)]
    · rw [map_cons, stored_cons]
      exact ⟨by rw [heq n (by omega), update_self], hstored⟩

theorem length_datas (gs : List GivenSubgroup) :
    (datas gs).length = (gs.map fun g => g.streams.length).sum := by
  simp [datas, length_flatMap]

theorem datas_append (gs gs' : List GivenSubgroup) : datas (gs ++ gs') = datas gs ++ datas gs' := by
  simp [datas]

theorem createSubgroups_ok {sps : List SubgroupParam} {subgroups : List Subgroup}
    (hn : n = (datas gs).length) (hle : n ≤ env.streamCount) (hstored : Stored sd 0 (datas gs))
    (h : createSubgroups env sps (gs.map GivenSubgroup.subgroup) sd n = .ok (subgroups, sd')) :
    subgroups = (gs ++ sps.map toGiven).map GivenSubgroup.subgroup ∧
      Stored sd' 0 (datas (gs ++ sps.map toGiven)) ∧
      (datas (gs ++ sps.map toGiven)).length ≤ env.streamCount := by
  induction sps generalizing gs sd n with
  | nil =>
    obtain ⟨rfl, rfl⟩ := Prod.mk.inj (Except.ok.inj h)
    rw [map_nil, append_nil]
    exact ⟨rfl, hstored, by rw [← hn]; exact hle⟩
  | cons p sps ih =>
    rw [createSubgroups] at h
    split at h
    · nomatch h
    split at h
    · nomatch h
    next hroom =>
      cases hstreams : createStreams env p.codecCfg p.params sd n with
      | error e =>
        rw [hstreams] at h
        nomatch h
      | ok r =>
        obtain ⟨sd₁, n₁⟩ := r
        obtain ⟨rfl, heq, hnew⟩ := createStreams_ok hstreams
        rw [hstreams] at h
        have hgs : gs.map GivenSubgroup.subgroup ++
            [{ streams := p.params.map (·.stream), codecCfg := p.codecCfg }] =
            (gs ++ [p.toGiven]).map GivenSubgroup.subgroup := by
          simp [toGiven, GivenSubgroup.subgroup, comp_def]
        have hdatas : datas (gs ++ [p.toGiven]) = datas gs ++ p.params.map (·.data) := by
          rw [datas_append]
          simp [datas, toGiven, comp_def]
        change createSubgroups env sps (gs.map GivenSubgroup.subgroup ++ _) sd₁ _ = _ at h
        rw [hgs] at h
        have hrest := ih (by rw [hdatas, length_append, length_map, hn]) (by omega)
          (by
            rw [hdatas, stored_append, Nat.zero_add, ← hn]
            refine ⟨hstored.congr fun i hi => ?_, hnew⟩
            rw [Nat.zero_add]
            exact heq i (by omega)) h
        rw [map_cons, append_cons]
        exact hrest

/-- The streams of the parameters. -/
def Param.streams (p : Param) : List StreamId :=
  p.given.flatMap fun sp => sp.params.map (·.stream)

/-- What the check of a subgroup's parameters finds. -/
structure SubgroupParam.Checked (env : Env) (p : SubgroupParam) : Prop where
  params_pos : 1 ≤ p.params.length
  data_lt : p.codecCfg.data.length < 256
  metadata_lt : p.codecCfg.metadata.length < 256
  params_lt : ∀ s ∈ p.params, s.data.length < 256

theorem checked_of_valid {p : SubgroupParam} (h : validSubgroupParam env p = true) :
    p.Checked env := by
  have hdata := env.maxData_lt
  have hmeta := env.maxMeta_lt
  simp only [validSubgroupParam, validCodecCfg, Bool.and_eq_true, decide_eq_true_eq,
    all_eq_true] at h
  obtain ⟨⟨⟨hpos, -⟩, -, -, hcfg, -, hcfgMeta, -⟩, hall⟩ := h
  refine ⟨hpos, by omega, by omega, fun s hs => ?_⟩
  have hstream := hall s hs
  simp only [validStreamParam, Bool.and_eq_true, decide_eq_true_eq] at hstream
  omega

theorem checked_of_validParam {p : Param} (h : validParam env p = true) :
    1 ≤ p.paramsCount ∧ p.qos.pd < 256 ^ 3 ∧ ∀ sp ∈ p.given, sp.Checked env := by
  simp only [validParam, verifyQos, Bool.and_eq_true, decide_eq_true_eq, all_eq_true] at h
  obtain ⟨⟨⟨⟨⟨hpos, -⟩, -⟩, -, -, -, -, -, -, -, hpd⟩, -⟩, hall⟩ := h
  exact ⟨hpos, by omega, fun sp hsp => checked_of_valid (hall sp hsp)⟩

theorem SubgroupParam.Checked.valid {p : SubgroupParam} (h : p.Checked env)
    (hnodup : (p.params.map (·.stream)).Nodup) : p.toGiven.Valid where
  streams_pos := by rw [SubgroupParam.toGiven, length_map]; exact h.params_pos
  nodup := by simpa [SubgroupParam.toGiven, comp_def] using hnodup
  data_lt := h.data_lt
  metadata_lt := h.metadata_lt
  streams_lt s hs := by
    obtain ⟨q, hq, rfl⟩ := mem_map.mp hs
    exact h.params_lt q hq

/-- **A source that is created holds what it was given.** -/
theorem create_holds {p : Param} (h : create env p = .ok source) (hnodup : p.streams.Nodup) :
    Holds source (.create p) := by
  rw [create] at h
  split at h
  · nomatch h
  next hcheck =>
    obtain ⟨hpos, hpd, hall⟩ := checked_of_validParam (by simpa using hcheck)
    cases hsub : createSubgroups env p.given [] (fun _ => []) 0 with
    | error e =>
      rw [hsub] at h
      nomatch h
    | ok r =>
      obtain ⟨subgroups, streamData⟩ := r
      rw [hsub] at h
      obtain rfl := Except.ok.inj h
      obtain ⟨hsubgroups, hstored, hcount⟩ := @createSubgroups_ok [] env 0 _ _ p.given subgroups
        rfl (Nat.zero_le _) (by simp [Stored, datas]) hsub
      rw [nil_append] at hsubgroups hstored hcount
      have hvalid : (Given.create p).Valid := by
        refine ⟨hpd, ?_, ?_, ?_⟩
        · have := p.count_le
          simp [Given.create, Param.given]
          omega
        · intro g hg
          obtain ⟨sp, hsp, rfl⟩ := mem_map.mp hg
          exact (hall sp hsp).valid (nodup_flatMap.mp hnodup |>.1 sp hsp)
        · rw [Given.streamCount, ← length_datas]
          exact Nat.le_trans hcount env.streamCount_le
      exact ⟨hvalid, rfl, rfl, hsubgroups, hstored⟩

/-! ## Reconfigure -/

theorem lastGiven_cons (stream : StreamId) (data : Bytes) (p : StreamParam) :
    lastGiven stream data (p :: ps) =
      lastGiven stream (if p.stream = stream then p.data else data) ps := rfl

theorem stored_update {stream : StreamId} {data : Bytes}
    (h : Stored sd 0 (ss.map Prod.snd)) (hnodup : (ss.map Prod.fst).Nodup)
    (hmem : stream ∈ ss.map Prod.fst) : Stored (update sd ((ss.map Prod.fst).idxOf stream) data) 0
      (ss.map fun s => if stream = s.1 then data else s.2) := by
  intro i d hd
  rw [getElem?_map, Option.map_eq_some_iff] at hd
  obtain ⟨s, hs, rfl⟩ := hd
  have hsd : sd (0 + i) = s.2 := h i s.2 (by rw [getElem?_map, hs]; rfl)
  have hi : (ss.map Prod.fst)[i]? = some s.1 := by rw [getElem?_map, hs]; rfl
  rw [Nat.zero_add] at hsd ⊢
  by_cases hstream : stream = s.1
  · have hidx : (ss.map Prod.fst).idxOf stream = i := by
      obtain ⟨hlt, hget⟩ := List.getElem?_eq_some_iff.mp hi
      rw [hstream, ← hget]
      exact hnodup.idxOf_getElem i hlt
    rw [hidx, update_self, if_pos hstream]
  · have hidx : i ≠ (ss.map Prod.fst).idxOf stream := by
      rintro rfl
      rw [getElem?_eq_getElem (idxOf_lt_length_of_mem hmem), getElem_idxOf] at hi
      exact hstream (Option.some.inj hi)
    rw [update_of_ne hidx, if_neg hstream, hsd]

theorem reconfigStreams_ok
    (hnodup : (ss.map Prod.fst).Nodup) (hmem : ∀ p ∈ ps, p.stream ∈ ss.map Prod.fst)
    (hstored : Stored sd 0 (ss.map Prod.snd))
    (h : reconfigStreams env cfg (ss.map Prod.fst) ps sd n = .ok (sd', n')) :
    Stored sd' 0 (ss.map fun s => lastGiven s.1 s.2 ps) ∧ ∀ i, ss.length ≤ i → sd' i = sd i := by
  induction ps generalizing ss sd n with
  | nil =>
    obtain ⟨rfl, rfl⟩ := Prod.mk.inj (Except.ok.inj h)
    exact ⟨hstored, fun _ _ => rfl⟩
  | cons p ps ih =>
    rw [reconfigStreams] at h
    split at h
    · nomatch h
    split at h
    · nomatch h
    have hp := hmem p mem_cons_self
    have hfst : (ss.map fun s => (s.1, if p.stream = s.1 then p.data else s.2)).map Prod.fst =
        ss.map Prod.fst := by simp [comp_def]
    have hupdate := @stored_update _ _ _ p.data hstored hnodup hp
    obtain ⟨hnew, heq⟩ := @ih
      (ss.map fun s => (s.1, if p.stream = s.1 then p.data else s.2)) (n + 1) _
      (by rw [hfst]; exact hnodup)
      (fun q hq => by rw [hfst]; exact hmem q (mem_cons_of_mem p hq))
      (by rw [map_map]; exact hupdate) (by rw [hfst]; exact h)
    refine ⟨?_, fun i hi => ?_⟩
    · rw [map_map] at hnew
      exact hnew
    · rw [heq i (by rwa [length_map]), update_of_ne]
      have := idxOf_lt_length_of_mem hp
      rw [length_map] at this
      omega

theorem mem_streams_of_verifyStreams {sps : List SubgroupParam} {p : SubgroupParam}
    (h : verifyStreams ((g :: gs).map GivenSubgroup.subgroup) (p :: sps) = .ok ()) :
    ∀ s ∈ p.params, s.stream ∈ g.streams.map Prod.fst := by
  rw [map_cons, verifyStreams] at h
  split at h
  · nomatch h
  next hany =>
    intro s hs
    simp only [any_eq_true, not_exists, not_and] at hany
    simpa [GivenSubgroup.subgroup] using hany s hs

theorem length_lastGiven_lt {stream : StreamId} {data : Bytes} (hdata : data.length < 256)
    (hps : ∀ p ∈ ps, p.data.length < 256) : (lastGiven stream data ps).length < 256 := by
  induction ps generalizing data with
  | nil => exact hdata
  | cons p ps ih =>
    rw [lastGiven_cons]
    refine ih ?_ fun q hq => hps q (mem_cons_of_mem p hq)
    split
    · exact hps p mem_cons_self
    · exact hdata

theorem GivenSubgroup.Valid.reconfig (hg : g.Valid) {p : SubgroupParam}
    (hp : p.Checked env) : (g.reconfig p).Valid where
  streams_pos := by
    rw [GivenSubgroup.reconfig, length_map]
    exact hg.streams_pos
  nodup := by
    have h := hg.nodup
    simpa [GivenSubgroup.reconfig, comp_def] using h
  data_lt := hp.data_lt
  metadata_lt := hp.metadata_lt
  streams_lt s hs := by
    obtain ⟨s, hs', rfl⟩ := mem_map.mp hs
    exact length_lastGiven_lt (hg.streams_lt s hs') hp.params_lt

theorem Param.given_of_one {r : Param} (h : r.paramsCount = 1) :
    ∃ p ps, r.params = p :: ps ∧ r.given = [p] := by
  have hle := r.count_le
  obtain ⟨p, ps, hps⟩ := exists_cons_of_length_pos (by omega : 0 < r.params.length)
  exact ⟨p, ps, hps, by rw [Param.given, h, hps, take_succ_cons, take_zero]⟩

theorem Given.Valid.reconfig {pd : ℕ}
    (h : ({ pd, subgroups := g :: gs } : Given).Valid) {p : SubgroupParam} (hp : p.Checked env)
    {pd' : ℕ} (hpd : pd' < 256 ^ 3) :
    ({ pd := pd', subgroups := g.reconfig p :: gs } : Given).Valid where
  pd_lt := hpd
  subgroups_pos := h.subgroups_pos
  subgroup := by
    rw [forall_mem_cons]
    exact ⟨(h.subgroup g mem_cons_self).reconfig hp,
      fun sg hsg => h.subgroup sg (mem_cons_of_mem g hsg)⟩
  streams_le := by
    have hle := h.streams_le
    simpa [Given.streamCount, GivenSubgroup.reconfig] using hle

/-- **A reconfiguration of the first subgroup** leaves what is given last. -/
theorem reconfig_holds {source' : Source} {r : Param} (hholds : Holds source given)
    (hone : r.paramsCount = 1) (h : reconfig env source r = .ok source') :
    Holds source' (given.reconfig r) := by
  obtain ⟨p, ps, hparams, hgiven⟩ := Param.given_of_one hone
  obtain ⟨pd, gs⟩ := given
  obtain ⟨g, gs, rfl⟩ := exists_cons_of_length_pos hholds.valid.subgroups_pos
  have hsubgroups := hholds.subgroups
  have hstored := hholds.stored
  rw [datas, flatMap_cons, stored_append, length_map, Nat.zero_add] at hstored
  rw [reconfig] at h
  split at h
  · nomatch h
  next hcheck =>
    obtain ⟨-, hpd, hall⟩ := checked_of_validParam (by simpa using hcheck)
    have hp := hall p (by rw [hgiven]; exact mem_cons_self)
    rw [if_neg (by rw [hholds.state]; simp), hsubgroups, hparams, hgiven] at h
    cases hverify : verifyStreams ((g :: gs).map GivenSubgroup.subgroup) (p :: ps) with
    | error e =>
      rw [hverify] at h
      nomatch h
    | ok u =>
      have hmem := mem_streams_of_verifyStreams hverify
      rw [hverify] at h
      change (if _ then _ else _) = _ at h
      rw [if_neg (by simp [hone]), map_cons, reconfigSubgroups] at h
      cases hstreams : reconfigStreams env p.codecCfg g.subgroup.streams p.params
          source.streamData 0 with
      | error e =>
        rw [hstreams] at h
        nomatch h
      | ok q =>
        obtain ⟨sd, n⟩ := q
        rw [hstreams] at h
        obtain rfl := Except.ok.inj h
        obtain ⟨hfirst, hrest⟩ := reconfigStreams_ok
          (hholds.valid.subgroup g mem_cons_self).nodup hmem hstored.1 hstreams
        have hreconfig : Given.reconfig { pd, subgroups := g :: gs } r =
            { pd := r.qos.pd, subgroups := g.reconfig p :: gs } := by
          rw [Given.reconfig, hgiven]
          rfl
        rw [hreconfig]
        refine ⟨hholds.valid.reconfig hp hpd, hholds.state, rfl, ?_, ?_⟩
        · simp [GivenSubgroup.reconfig, GivenSubgroup.subgroup, comp_def]
        · rw [datas, flatMap_cons, stored_append, Nat.zero_add]
          simp only [GivenSubgroup.reconfig, map_map, length_map]
          exact ⟨hfirst, hstored.2.congr fun i _ => hrest _ (Nat.le_add_right _ _)⟩

theorem reconfigs_hold {rs : List Param} {source' : Source} (hholds : Holds source given)
    (hone : ∀ r ∈ rs, r.paramsCount = 1) (h : rs.foldlM (reconfig env) source = .ok source') :
    Holds source' (rs.foldl Given.reconfig given) := by
  induction rs generalizing source given with
  | nil =>
    obtain rfl := Except.ok.inj h
    exact hholds
  | cons r rs ih =>
    rw [foldlM_cons] at h
    cases hr : reconfig env source r with
    | error e =>
      rw [hr] at h
      nomatch h
    | ok mid =>
      rw [hr] at h
      exact ih (reconfig_holds hholds (hone r mem_cons_self) hr)
        (fun q hq => hone q (mem_cons_of_mem r hq)) h

theorem build_holds {p : Param} {rs : List Param} (h : build env p rs = .ok source)
    (hnodup : p.streams.Nodup) (hone : ∀ r ∈ rs, r.paramsCount = 1) :
    Holds source (.after p rs) := by
  rw [build] at h
  cases hc : create env p with
  | error e =>
    rw [hc] at h
    nomatch h
  | ok s =>
    rw [hc] at h
    exact reconfigs_hold (create_holds hc hnodup) hone h

/-- **A broadcast source announces what was last given for it** exactly
where the room does not end in the first seven bytes of a later subgroup
and the announcement is not 255 bytes long, as long as only the first
subgroup is reconfigured; and whatever is accepted as a BASE is read
within its data. -/
theorem base_agrees {env : Env} {p : Param} {rs : List Param} {source : Source}
    (hbuild : build env p rs = .ok source) (hnodup : p.streams.Nodup)
    (hone : ∀ r ∈ rs, r.paramsCount = 1) :
    (∀ size, Announces (.after p rs) source size ↔
      (Given.after p rs).Roomy size ∧ ¬ ((Given.after p rs).size = 255 ∧ 255 ≤ size)) ∧
    ∀ ad base, getBaseFromAd ad = .ok (some base) → Contained base :=
  ⟨(build_holds hbuild hnodup hone).announces_iff, fun _ _ h => contained_of_getBaseFromAd h⟩

/-- Room for two subgroups and two streams. -/
def sampleEnv : Env where
  maxData := 19
  maxMeta := 4
  subgroupCount := 2
  streamCount := 2
  inOther _ := false
  setupStream _ := true
  mergeBisAndSubgroupData _ _ := true
  maxData_lt := by decide
  maxMeta_lt := by decide
  streamCount_le := by decide

def sampleQos : Qos :=
  { interval := 10000, framing := 0, phy := 2, sdu := 100, latency := 20, rtn := 2, pd := 40000 }

/-- Parameters of one subgroup, for one stream. -/
def sampleSubgroup (stream : StreamId) (data : Bytes) : SubgroupParam where
  params := [{ stream, data }]
  codecCfg := { codecId := { id := 0xFF, cid := 1, vid := 2 } }

/-- Parameters of two subgroups. -/
def samplePair (data data' : Bytes) : Param :=
  { paramsCount := 2, params := [sampleSubgroup 0 data, sampleSubgroup 1 data'], qos := sampleQos
    count_le := Nat.le_refl 2 }

/-- Parameters for the first of the two; the check reads those of the
second too. -/
def sampleFirst (data : Bytes) : Param :=
  { samplePair data [] with paramsCount := 1, count_le := Nat.le_succ 1 }

theorem exists_of_isOk {α β : Type} {x : Except α β} (h : x.isOk = true) : ∃ b, x = .ok b := by
  cases x with
  | error e => nomatch h
  | ok b => exact ⟨b, rfl⟩

theorem base_agrees_sample :
    ∃ source, build sampleEnv (samplePair [] [3]) [sampleFirst [7]] = .ok source ∧
      Announces (.after (samplePair [] [3]) [sampleFirst [7]]) source 64 := by
  obtain ⟨source, hbuild⟩ := exists_of_isOk
    (show (build sampleEnv (samplePair [] [3]) [sampleFirst [7]]).isOk = true by decide)
  refine ⟨source, hbuild, ((base_agrees hbuild (by decide) (by decide)).1 64).mpr ⟨?_, by decide⟩⟩
  intro k hpos hlt
  have htwo : (Given.after (samplePair [] [3]) [sampleFirst [7]]).subgroups.length = 2 := by decide
  obtain rfl : k = 1 := by omega
  decide

/-- The BISes that the accessors find, subgroup by subgroup. -/
def bisRead (ad : Ad) : Except PullFault (List (List SubgroupBis)) := do
  let base ← getBaseFromAd ad
  let (_, subgroups) ← foreachSubgroup (base.getD []) collect []
  subgroups.mapM fun subgroup => Prod.snd <$> subgroupForeachBis subgroup collect []

theorem Given.Announced.bisRead {g : Given} {ad : Ad} (h : g.Announced ad) :
    bisRead ad = .ok ((numberSubgroups 0 g.subgroups).map Told.bis) := by
  obtain ⟨base, hbase, -, -, subgroups, hsubgroups, hall⟩ := h
  have hmap : subgroups.mapM (fun subgroup => Prod.snd <$> subgroupForeachBis subgroup collect []) =
      .ok ((numberSubgroups 0 g.subgroups).map Told.bis) := by
    generalize numberSubgroups 0 g.subgroups = told at hall
    clear hsubgroups
    induction hall with
    | nil => rfl
    | cons hat _ ih => rw [mapM_cons, hat.foreachBis, ih]; rfl
  rw [Bap.bisRead, hbase]
  change (foreachSubgroup base collect [] >>= fun r => _) = _
  rw [hsubgroups]
  exact hmap

/-- The announcement of two subgroups that were both reconfigured. -/
def sampleOut : Bytes :=
  [0x51, 0x18, 64, 156, 0, 2, 1, 0xFF, 1, 0, 2, 0, 0, 0, 1, 1, 2, 1, 0xFF, 1, 0, 2, 0, 0, 0, 2, 0]

/-- **The data of a later subgroup's stream lands on an earlier stream**:
the first BIS is announced with the data given for the second, which is
announced with none. And a buffer that ends at the second subgroup meets
the assertion. -/
theorem base_disagrees :
    (∃ source, build sampleEnv (samplePair [] []) [samplePair [1] [2]] = .ok source ∧
      ¬ Announces (.after (samplePair [] []) [samplePair [1] [2]]) source 64) ∧
    ∃ source, build sampleEnv (samplePair [] []) [] = .ok source ∧
      getBase source 17 = .error .assertFailed := by
  constructor
  · obtain ⟨source, hbuild⟩ := exists_of_isOk
      (show (build sampleEnv (samplePair [] []) [samplePair [1] [2]]).isOk = true by decide)
    have hout : getBase source 64 = .ok sampleOut := by
      have h : (build sampleEnv (samplePair [] []) [samplePair [1] [2]] >>= fun s =>
        getBase s 64) = .ok sampleOut := by decide +kernel
      rwa [hbuild] at h
    refine ⟨source, hbuild, ?_⟩
    rintro (hbad | ⟨out, hout', -, had⟩)
    · rw [hout] at hbad
      nomatch hbad
    · obtain rfl : sampleOut = out := Except.ok.inj (hout.symm.trans hout')
      let ad : Ad := { type := svcData16, data := sampleOut, len_lt := by decide }
      have hread := (had ad rfl rfl).bisRead
      have hbis : bisRead ad = .ok [[{ index := 1, data := [2] }], [{ index := 2, data := [] }]] := by
        decide +kernel
      rw [hbis] at hread
      revert hread
      decide +kernel
  · obtain ⟨source, hbuild⟩ := exists_of_isOk
      (show (build sampleEnv (samplePair [] []) []).isOk = true by decide)
    have h : (build sampleEnv (samplePair [] []) [] >>= fun s => getBase s 17) =
      .error .assertFailed := by decide +kernel
    rw [hbuild] at h
    exact ⟨source, hbuild, h⟩

end Bap

end OpenBlue

import OpenBlue.Common.Run
import OpenBlue.Host.Model.Keys
/-!
# Host — the key pool over runs

The pool is read as two functions of an index: the peer an entry belongs
to (`HostState.key`) and its age. Three things are kept along a run: no
peer has two entries, every pointer `conn->le.keys` leads to the entry of
that connection's peer, and the ages order the entries as their last
creation or use does.
-/

namespace OpenBlue

namespace Host

open Function List HostState

variable {cfg : KeysCfg} {s s' : HostState} {i j k id : ℕ} {addr : Addr}

/-! ## The pool as a function -/

/-- The peer the entry at `i` belongs to, unless it is free. -/
def HostState.key (s : HostState) (i : ℕ) : Option (ℕ × Addr) :=
  (s.pool.slots[i]?).bind fun e => if e.free then none else some (e.id, e.addr)

/-- The aging counter of the entry at `i`. -/
def HostState.age (s : HostState) (i : ℕ) : ℕ := (s.pool.slots.getD i {}).aging.toNat

theorem key_eq_some {p : ℕ × Addr} :
    s.key i = some p ↔ ∃ e, s.pool.slots[i]? = some e ∧ e.addr ≠ .any ∧ (e.id, e.addr) = p := by
  unfold HostState.key
  constructor
  · intro h
    obtain ⟨e, he, hp⟩ := Option.bind_eq_some_iff.1 h
    split at hp
    · exact absurd hp (by simp)
    · rename_i hfree
      exact ⟨e, he, by simpa [Entry.free] using hfree, by simpa using hp⟩
  · rintro ⟨e, he, hany, rfl⟩
    simp [he, Entry.free, hany]

theorem ne_any_of_key (h : s.key i = some (id, addr)) : addr ≠ .any := by
  obtain ⟨e, -, hany, hp⟩ := key_eq_some.1 h
  obtain ⟨-, rfl⟩ := Prod.mk.inj hp
  exact hany

theorem lt_of_key {p : ℕ × Addr} (h : s.key i = some p) : i < s.pool.slots.length := by
  obtain ⟨e, he, -⟩ := key_eq_some.1 h
  exact (List.getElem?_eq_some_iff.1 he).1

theorem getD_of_key {p : ℕ × Addr} (h : s.key i = some p) : (s.pool.slots.getD i {}).addr ≠ .any ∧
      ((s.pool.slots.getD i {}).id, (s.pool.slots.getD i {}).addr) = p := by
  obtain ⟨e, he, hany, hp⟩ := key_eq_some.1 h
  rw [getD_eq_getElem?_getD, he]
  exact ⟨hany, hp⟩

/-- No peer has two entries. -/
def HostState.Unique (s : HostState) : Prop :=
  ∀ i j p, s.key i = some p → s.key j = some p → i = j

theorem key_of_findAddr (hany : addr ≠ .any) (h : s.pool.findAddr id addr = some i) :
    s.key i = some (id, addr) := by
  obtain ⟨hlt, hi, -⟩ := findIdx?_eq_some_iff_getElem.1 h
  simp only [Bool.and_eq_true, beq_iff_eq] at hi
  exact key_eq_some.2 ⟨_, getElem?_eq_getElem hlt, hi.2 ▸ hany, by rw [hi.1, hi.2]⟩

theorem findAddr_of_key (hu : s.Unique) (h : s.key i = some (id, addr)) :
    s.pool.findAddr id addr = some i := by
  have hany := ne_any_of_key h
  obtain ⟨e, he, -, hp⟩ := key_eq_some.1 h
  obtain ⟨rfl, rfl⟩ := Prod.mk.inj hp
  cases hf : s.pool.findAddr e.id e.addr with
  | none =>
    have := findIdx?_eq_none_iff.1 hf e (mem_of_getElem? he)
    simp at this
  | some j => rw [hu j i _ (key_of_findAddr hany hf) h]

theorem key_ne_of_findAddr_none (h : s.pool.findAddr id addr = none) :
    s.key i ≠ some (id, addr) := by
  intro hk
  obtain ⟨e, he, -, hp⟩ := key_eq_some.1 hk
  obtain ⟨rfl, rfl⟩ := Prod.mk.inj hp
  have := findIdx?_eq_none_iff.1 h e (mem_of_getElem? he)
  simp at this

theorem key_of_firstFree (h : s.pool.firstFree = some i) :
    s.key i = none ∧ i < s.pool.slots.length := by
  obtain ⟨hlt, hi, -⟩ := findIdx?_eq_some_iff_getElem.1 h
  refine ⟨?_, hlt⟩
  rw [HostState.key, getElem?_eq_getElem hlt]
  simp [hi]

theorem key_ne_none_of_firstFree (h : s.pool.firstFree = none) (hi : i < s.pool.slots.length) :
    s.key i ≠ none := by
  have := findIdx?_eq_none_iff.1 h _ (getElem_mem hi)
  rw [HostState.key, getElem?_eq_getElem hi]
  simp [this]

/-! ## What the primitives do to it -/

theorem key_modify (f : Entry → Entry) (n : ℕ) :
    HostState.key { s with pool := { s.pool with slots := s.pool.slots.modify n f } } i =
      if n = i then (s.pool.slots[i]?).bind fun e =>
        if (f e).free then none else some ((f e).id, (f e).addr)
      else s.key i := by
  simp only [HostState.key, getElem?_modify]
  split
  · cases s.pool.slots[i]? <;> rfl
  · cases s.pool.slots[i]? <;> rfl

@[simp] theorem key_clear : (s.clear i).key j = if i = j then none else s.key j := by
  rw [clear, key_modify]
  split
  · cases s.pool.slots[j]? <;> rfl
  · rfl

@[simp] theorem age_clear (h : i ≠ j) : (s.clear i).age j = s.age j := by
  simp only [HostState.age, clear, getD_eq_getElem?_getD]
  rw [getElem?_modify_ne _ _ h]

theorem key_of_slots {f : Entry → Entry} {n : ℕ} (hs : s'.pool.slots = s.pool.slots.modify n f)
    (hf : ∀ e, (f e).id = e.id ∧ (f e).addr = e.addr) : s'.key i = s.key i := by
  simp only [HostState.key, hs, getElem?_modify]
  cases s.pool.slots[i]? with
  | none => rfl
  | some e =>
    simp only [Option.map_eq_map, Option.map_some, Option.bind_some]
    split
    · simp only [Entry.free, (hf e).1, (hf e).2]
      rfl
    · rfl

theorem age_of_slots {f : Entry → Entry} {n : ℕ} (hs : s'.pool.slots = s.pool.slots.modify n f)
    (hni : n ≠ i) : s'.age i = s.age i := by
  simp only [HostState.age, hs, getD_eq_getElem?_getD]
  rw [getElem?_modify_ne _ _ hni]

theorem age_of_slots_self {f : Entry → Entry} (hs : s'.pool.slots = s.pool.slots.modify i f)
    (hi : i < s.pool.slots.length) : s'.age i = (f (s.pool.slots.getD i {})).aging.toNat := by
  simp [HostState.age, hs, hi]

/-- The counter has room for one more. -/
def HostState.NoWrap (s : HostState) : Prop := s.pool.agingCounter.toNat + 1 < 2 ^ 32

instance (s : HostState) : Decidable s.NoWrap := inferInstanceAs (Decidable (_ < _))

theorem HostState.NoWrap.toNat_succ (h : s.NoWrap) :
    (s.pool.agingCounter + 1).toNat = s.pool.agingCounter.toNat + 1 := by
  unfold HostState.NoWrap at h
  rw [UInt32.toNat_add]
  exact Nat.mod_eq_of_lt h

@[simp] theorem key_bump : (s.bump i).key j = s.key j := key_of_slots rfl fun _ => ⟨rfl, rfl⟩

theorem age_bump (hw : s.NoWrap) (hi : i < s.pool.slots.length) :
    (s.bump i).age i = s.pool.agingCounter.toNat + 1 :=
  (age_of_slots_self rfl hi).trans hw.toNat_succ

theorem age_bump_of_ne (h : i ≠ j) : (s.bump i).age j = s.age j := age_of_slots rfl h

theorem counter_bump (hw : s.NoWrap) :
    (s.bump i).pool.agingCounter.toNat = s.pool.agingCounter.toNat + 1 := hw.toNat_succ

/-! ## What is kept -/

/-- No peer has two entries, no two connections have one peer, and every
pointer leads to the entry of the connection's peer. -/
structure HostState.Safe (s : HostState) : Prop where
  unique : s.Unique
  pointers : ∀ c ∈ s.conns, ∀ i, c.keys = some i → s.key i = some (c.id, c.dst)
  distinct : ∀ (m n : ℕ) (c d : Conn), s.conns[m]? = some c → s.conns[n]? = some d →
    c.id = d.id → c.dst = d.dst → m = n

/-- No connection points to the entry. -/
def HostState.NotPointed (s : HostState) (i : ℕ) : Prop := ∀ c ∈ s.conns, c.keys ≠ some i

theorem HostState.Safe.not_pointed_of_free (h : s.Safe) (hi : s.key i = none) : s.NotPointed i := by
  intro c hc hk
  rw [h.pointers c hc i hk] at hi
  exact absurd hi (by simp)

theorem HostState.Safe.of_eq (h : s.Safe) (hkey : ∀ i, s'.key i = s.key i)
    (hconns : s'.conns = s.conns) : s'.Safe := by
  refine ⟨fun i j p hi hj => h.unique i j p (by rwa [← hkey]) (by rwa [← hkey]), ?_, ?_⟩
  · intro c hc i hi
    rw [hkey]
    exact h.pointers c (hconns ▸ hc) i hi
  · rw [hconns]
    exact h.distinct

theorem HostState.Safe.clear (h : s.Safe) (hi : s.NotPointed i) : (s.clear i).Safe := by
  refine ⟨?_, ?_, h.distinct⟩
  · intro j k p hj hk
    simp only [key_clear] at hj hk
    split at hj
    · exact absurd hj (by simp)
    · split at hk
      · exact absurd hk (by simp)
      · exact h.unique j k p hj hk
  · intro c hc j hj
    have hne : i ≠ j := fun heq => hi c hc (heq ▸ hj)
    simp only [key_clear, if_neg hne]
    exact h.pointers c hc j hj

/-- The connections, with some pointers dropped. -/
structure ConnsCut (conns conns' : List Conn) : Prop where
  length : conns'.length = conns.length
  get : ∀ (n : ℕ) (c' : Conn), conns'[n]? = some c' → ∃ c, conns[n]? = some c ∧ c'.id = c.id ∧
    c'.dst = c.dst ∧ c'.onAir = c.onAir ∧ (c'.keys = c.keys ∨ c'.keys = none)

theorem ConnsCut.refl (conns : List Conn) : ConnsCut conns conns :=
  ⟨rfl, fun _ c hc => ⟨c, hc, rfl, rfl, rfl, .inl rfl⟩⟩

theorem HostState.Safe.cut {conns' : List Conn} (h : s.Safe) (hcut : ConnsCut s.conns conns') :
    HostState.Safe { s with conns := conns' } := by
  refine ⟨h.unique, ?_, ?_⟩
  · intro c' hc' i hi
    obtain ⟨n, hn⟩ := mem_iff_getElem?.1 hc'
    obtain ⟨c, hc, hid, hdst, -, hkeys⟩ := hcut.get n c' hn
    rw [hid, hdst]
    refine h.pointers c (mem_of_getElem? hc) i ?_
    rcases hkeys with hkeys | hkeys
    · rw [← hkeys, hi]
    · rw [hi] at hkeys
      exact absurd hkeys (by simp)
  · intro m n c' d' hc' hd' hid hdst
    obtain ⟨c, hc, hcid, hcdst, -⟩ := hcut.get m c' hc'
    obtain ⟨d, hd, hdid, hddst, -⟩ := hcut.get n d' hd'
    exact h.distinct m n c d hc hd (hcid.symm.trans (hid.trans hdid))
      (hcdst.symm.trans (hdst.trans hddst))

theorem connsCut_modify {f : Conn → Conn} (conns : List Conn) (k : ℕ)
    (hf : ∀ c, (f c).id = c.id ∧ (f c).dst = c.dst ∧ (f c).onAir = c.onAir ∧
      ((f c).keys = c.keys ∨ (f c).keys = none)) : ConnsCut conns (conns.modify k f) := by
  refine ⟨length_modify .., fun n c' hc' => ?_⟩
  rw [getElem?_modify] at hc'
  obtain ⟨c, hc, rfl⟩ := Option.map_eq_some_iff.1 hc'
  refine ⟨c, hc, ?_⟩
  split
  · exact hf c
  · exact ⟨rfl, rfl, rfl, .inl rfl⟩

/-! ## Unpairing -/

/-- No connection of this identity has the address on air only. -/
def UnpairOk (s : HostState) (id : ℕ) (addr : Addr) : Prop :=
  ∀ c ∈ s.conns, c.id = id → c.onAir = addr → c.dst = addr

/-- **Unpairing clears the entry of the peer and every pointer to it.** -/
theorem unpair_eq (h : s.Safe) (hk : s.key i = some (id, addr)) (hok : UnpairOk s id addr)
    (hid : id < cfg.idMax) :
    ∃ conns', unpair cfg id addr s = clear { s with conns := conns' } i ∧
      ConnsCut s.conns conns' ∧ ∀ c ∈ conns', c.keys ≠ some i := by
  have hfind := findAddr_of_key h.unique hk
  -- A pointer to the entry comes from a connection of the peer.
  have hpeer : ∀ c ∈ s.conns, c.keys = some i → c.id = id ∧ c.dst = addr := by
    intro c hc hci
    have := h.pointers c hc i hci
    rw [hk, Option.some.injEq, Prod.mk.injEq] at this
    exact ⟨this.1.symm, this.2.symm⟩
  rw [unpair, if_neg (by omega)]
  cases hl : s.lookupAddr id addr with
  | none =>
    refine ⟨s.conns, ?_, .refl _, ?_⟩
    · simp [hfind]
    · intro c hc hci
      obtain ⟨hcid, hcdst⟩ := hpeer c hc hci
      have := findIdx?_eq_none_iff.1 hl c hc
      simp [Conn.isPeer, hcid, hcdst] at this
  | some k =>
    obtain ⟨hlt, hisPeer, -⟩ := findIdx?_eq_some_iff_getElem.1 hl
    have hget : s.conns[k]? = some s.conns[k] := getElem?_eq_getElem hlt
    have hmem := getElem_mem hlt
    -- The connection found is the one of the peer.
    have hcid : s.conns[k].id = id ∧ s.conns[k].dst = addr := by
      simp only [Conn.isPeer, Bool.and_eq_true, beq_iff_eq, Bool.or_eq_true] at hisPeer
      rcases hisPeer.2 with hdst | hair
      · exact ⟨hisPeer.1, hdst.symm⟩
      · exact ⟨hisPeer.1, hok _ hmem hisPeer.1 hair.symm⟩
    have hkeys : s.conns[k].keys = none ∨ s.conns[k].keys = some i := by
      cases hck : s.conns[k].keys with
      | none => exact .inl rfl
      | some j =>
        have hkj := h.pointers _ hmem j hck
        rw [hcid.1, hcid.2] at hkj
        exact .inr (by rw [h.unique j i _ hkj hk])
    refine ⟨s.conns.modify k ({ · with keys := none, connected := false }), ?_,
      connsCut_modify _ _ fun c => ⟨rfl, rfl, rfl, .inr rfl⟩, ?_⟩
    · rcases hkeys with hck | hck
      · simp [hget, hck, hfind]
      · simp [hget, hck]
    · intro c hc hci
      obtain ⟨n, hn⟩ := mem_iff_getElem?.1 hc
      rw [getElem?_modify] at hn
      obtain ⟨d, hd, rfl⟩ := Option.map_eq_some_iff.1 hn
      by_cases hkn : k = n
      · simp [hkn] at hci
      · rw [if_neg hkn] at hci
        obtain ⟨hdid, hddst⟩ := hpeer d (mem_of_getElem? hd) hci
        exact hkn (h.distinct k n _ d hget hd (hcid.1.trans hdid.symm) (hcid.2.trans hddst.symm))

theorem unpair_of_le (hid : cfg.idMax ≤ id) : unpair cfg id addr s = s := by
  rw [unpair, if_pos hid]

theorem HostState.Safe.unpair (h : s.Safe) (hk : s.key i = some (id, addr))
    (hok : UnpairOk s id addr) : (unpair cfg id addr s).Safe := by
  rcases Nat.lt_or_ge id cfg.idMax with hid | hid
  · obtain ⟨conns', heq, hcut, hno⟩ := unpair_eq h hk hok hid
    rw [heq]
    exact (h.cut hcut).clear hno
  · rw [unpair_of_le hid]
    exact h

/-! ## The oldest entry -/

theorem oldestTurn_cases (s : HostState) (best : Option ℕ) (i : ℕ) :
    (s.keyInUse i = true ∧ oldestTurn s best i = best) ∨
    (s.keyInUse i = false ∧ oldestTurn s best i = some i ∧ ∀ o ∈ best, s.age i ≤ s.age o) ∨
    (s.keyInUse i = false ∧ oldestTurn s best i = best ∧ ∃ o ∈ best, s.age o ≤ s.age i) := by
  unfold oldestTurn
  cases hu : s.keyInUse i with
  | true => exact .inl ⟨rfl, rfl⟩
  | false =>
    cases best with
    | none => exact .inr (.inl ⟨rfl, rfl, by simp⟩)
    | some o =>
      simp only [Bool.false_eq_true, if_false, Option.mem_def, Option.some.injEq, forall_eq',
        exists_eq_left', true_and]
      split
      · rename_i hlt
        exact .inr (.inl ⟨rfl, Nat.le_of_lt (UInt32.lt_iff_toNat_lt.1 hlt)⟩)
      · rename_i hlt
        exact .inr (.inr ⟨rfl, Nat.le_of_not_lt fun h => hlt (UInt32.lt_iff_toNat_lt.2 h)⟩)

/-- The search after `n` turns. -/
theorem foldl_oldestTurn (s : HostState) (n : ℕ) :
    (∀ o ∈ (List.range n).foldl (oldestTurn s) none, o < n ∧ s.keyInUse o = false ∧
      ∀ j < n, s.keyInUse j = false → s.age o ≤ s.age j) ∧
    ((List.range n).foldl (oldestTurn s) none = none → ∀ j < n, s.keyInUse j = true) := by
  induction n with
  | zero => simp
  | succ n ih =>
    rw [range_succ, foldl_append, foldl_cons, foldl_nil]
    generalize (List.range n).foldl (oldestTurn s) none = best at ih ⊢
    rcases oldestTurn_cases s best n with ⟨hu, heq⟩ | ⟨hu, heq, hle⟩ | ⟨hu, heq, b, hb, hle⟩
    · rw [heq]
      refine ⟨fun o ho => ?_, fun hn j hj => ?_⟩
      · obtain ⟨hlt, huo, hmin⟩ := ih.1 o ho
        refine ⟨by omega, huo, fun j hj huj => ?_⟩
        rcases Nat.lt_succ_iff_lt_or_eq.1 hj with hj | rfl
        · exact hmin j hj huj
        · rw [hu] at huj
          exact absurd huj (by simp)
      · rcases Nat.lt_succ_iff_lt_or_eq.1 hj with hj | rfl
        · exact ih.2 hn j hj
        · exact hu
    · rw [heq]
      refine ⟨fun o ho => ?_, by simp⟩
      obtain rfl : n = o := by simpa using ho
      refine ⟨by omega, hu, fun j hj huj => ?_⟩
      rcases Nat.lt_succ_iff_lt_or_eq.1 hj with hj | rfl
      · cases hbest : best with
        | none => exact absurd (ih.2 hbest j hj) (by simp [huj])
        | some b => exact (hle b hbest).trans ((ih.1 b hbest).2.2 j hj huj)
      · exact le_rfl
    · rw [heq]
      refine ⟨fun o ho => ?_, fun hn => absurd hn (by simp [Option.mem_def.1 hb])⟩
      obtain rfl : o = b := by simpa [Option.mem_def.1 hb] using ho.symm
      obtain ⟨hlt, huo, hmin⟩ := ih.1 o hb
      refine ⟨by omega, huo, fun j hj huj => ?_⟩
      rcases Nat.lt_succ_iff_lt_or_eq.1 hj with hj | rfl
      · exact hmin j hj huj
      · exact hle

/-- **The entry picked has the least counter of those no connection uses.** -/
theorem oldest_spec (h : s.oldest = some i) : i < s.pool.slots.length ∧ s.keyInUse i = false ∧
      ∀ j < s.pool.slots.length, s.keyInUse j = false → s.age i ≤ s.age j :=
  (foldl_oldestTurn s s.pool.slots.length).1 i h

/-! ## Recency -/

/-- When an entry was last created or used: stored entries come first, in
the order of the counters they were stored with, and then those created
or used since, in the order of time. -/
abbrev Stamp := ℕ ×ₗ ℕ

/-- Read from storage with this counter. -/
def Stamp.stored (v : ℕ) : Stamp := toLex (0, v)

/-- Created or used at this time. -/
def Stamp.used (t : ℕ) : Stamp := toLex (1, t)

theorem Stamp.stored_lt_used (v t : ℕ) : Stamp.stored v < Stamp.used t :=
  Prod.Lex.toLex_lt_toLex.2 (.inl Nat.zero_lt_one)

theorem Stamp.used_lt_used {t u : ℕ} : Stamp.used t < Stamp.used u ↔ t < u := by
  simp [Stamp.used, Prod.Lex.toLex_lt_toLex]

theorem Stamp.stored_lt_stored {v w : ℕ} : Stamp.stored v < Stamp.stored w ↔ v < w := by
  simp [Stamp.stored, Prod.Lex.toLex_lt_toLex]

variable {stamp : ℕ → Stamp} {time : ℕ}

/-- The counters order the entries as their stamps do. -/
structure Aged (s : HostState) (stamp : ℕ → Stamp) (time : ℕ) : Prop where
  le_counter : ∀ i, s.key i ≠ none → s.age i ≤ s.pool.agingCounter.toNat
  order : ∀ i j, s.key i ≠ none → s.key j ≠ none → stamp i < stamp j → s.age i < s.age j
  stamped : ∀ i, s.key i ≠ none →
    stamp i = .stored (s.age i) ∨ ∃ t < time, stamp i = .used t

theorem Aged.lt_used (h : Aged s stamp time) (hi : s.key i ≠ none) : stamp i < .used time := by
  rcases h.stamped i hi with hs | ⟨t, ht, hs⟩ <;> rw [hs]
  · exact Stamp.stored_lt_used _ _
  · exact Stamp.used_lt_used.2 ht

theorem Aged.mono {time' : ℕ} (h : Aged s stamp time)
    (hkey : ∀ i, s'.key i ≠ none → s.key i ≠ none ∧ s'.age i = s.age i)
    (hcounter : s.pool.agingCounter.toNat ≤ s'.pool.agingCounter.toNat) (htime : time ≤ time') :
    Aged s' stamp time' := by
  refine ⟨fun i hi => ?_, fun i j hi hj hlt => ?_, fun i hi => ?_⟩
  · obtain ⟨hk, hage⟩ := hkey i hi
    rw [hage]
    exact (h.le_counter i hk).trans hcounter
  · obtain ⟨hki, hagei⟩ := hkey i hi
    obtain ⟨hkj, hagej⟩ := hkey j hj
    rw [hagei, hagej]
    exact h.order i j hki hkj hlt
  · obtain ⟨hk, hage⟩ := hkey i hi
    rw [hage]
    exact (h.stamped i hk).imp_right fun ⟨t, ht, hs⟩ => ⟨t, by omega, hs⟩

theorem Aged.touch (h : Aged s stamp time)
    (hkey : ∀ j, j ≠ i → s'.key j ≠ none → s.key j ≠ none ∧ s'.age j = s.age j)
    (hcounter : s.pool.agingCounter.toNat ≤ s'.pool.agingCounter.toNat)
    (hle : s'.key i ≠ none → s'.age i ≤ s'.pool.agingCounter.toNat)
    (hnew : ∀ j, j ≠ i → s'.key j ≠ none → s'.age j < s'.age i) :
    Aged s' (update stamp i (.used time)) (time + 1) := by
  refine ⟨fun j hj => ?_, fun j k hj hk hlt => ?_, fun j hj => ?_⟩
  · by_cases hji : j = i
    · subst hji
      exact hle hj
    · obtain ⟨hk, hage⟩ := hkey j hji hj
      rw [hage]
      exact (h.le_counter j hk).trans hcounter
  · by_cases hji : j = i
    · subst hji
      by_cases hkj : k = j
      · subst hkj
        exact absurd hlt (lt_irrefl _)
      · rw [update_self, update_of_ne hkj] at hlt
        exact absurd (hlt.trans (h.lt_used (hkey k hkj hk).1)) (lt_irrefl _)
    · by_cases hki : k = i
      · subst hki
        exact hnew j hji hj
      · rw [update_of_ne hji, update_of_ne hki] at hlt
        rw [(hkey j hji hj).2, (hkey k hki hk).2]
        exact h.order j k (hkey j hji hj).1 (hkey k hki hk).1 hlt
  · by_cases hji : j = i
    · subst hji
      exact .inr ⟨time, by omega, update_self ..⟩
    · obtain ⟨hk, hage⟩ := hkey j hji hj
      rw [update_of_ne hji, hage]
      exact (h.stamped j hk).imp_right fun ⟨t, ht, hs⟩ => ⟨t, by omega, hs⟩

theorem Aged.stored (h : Aged s stamp time)
    (hkey : ∀ j, j ≠ i → s'.key j ≠ none → s.key j ≠ none ∧ s'.age j = s.age j)
    (hcounter : s.pool.agingCounter.toNat ≤ s'.pool.agingCounter.toNat)
    (hle : s'.age i ≤ s'.pool.agingCounter.toNat)
    (hused : ∀ j, j ≠ i → s.key j ≠ none → (∃ t, stamp j = .used t) → s'.age i < s.age j) :
    Aged s' (update stamp i (.stored (s'.age i))) time := by
  refine ⟨fun j hj => ?_, fun j k hj hk hlt => ?_, fun j hj => ?_⟩
  · by_cases hji : j = i
    · subst hji
      exact hle
    · obtain ⟨hk, hage⟩ := hkey j hji hj
      rw [hage]
      exact (h.le_counter j hk).trans hcounter
  · by_cases hji : j = i
    · subst hji
      by_cases hkj : k = j
      · subst hkj
        exact absurd hlt (lt_irrefl _)
      · rw [update_self, update_of_ne hkj] at hlt
        obtain ⟨hkk, hage⟩ := hkey k hkj hk
        rw [hage]
        rcases h.stamped k hkk with hs | ⟨t, -, hs⟩
        · rw [hs] at hlt
          exact Stamp.stored_lt_stored.1 hlt
        · exact hused k hkj hkk ⟨t, hs⟩
    · obtain ⟨hkj, hagej⟩ := hkey j hji hj
      by_cases hki : k = i
      · subst hki
        rw [update_of_ne hji, update_self] at hlt
        rw [hagej]
        rcases h.stamped j hkj with hs | ⟨t, -, hs⟩
        · rw [hs] at hlt
          exact Stamp.stored_lt_stored.1 hlt
        · rw [hs] at hlt
          exact absurd (hlt.trans (Stamp.stored_lt_used _ t)) (lt_irrefl _)
      · rw [update_of_ne hji, update_of_ne hki] at hlt
        rw [hagej, (hkey k hki hk).2]
        exact h.order j k hkj (hkey k hki hk).1 hlt
  · by_cases hji : j = i
    · subst hji
      exact .inl (update_self ..)
    · obtain ⟨hk, hage⟩ := hkey j hji hj
      rw [update_of_ne hji, hage]
      exact h.stamped j hk

/-- What a call's log does to the stamps. -/
def stampLog (time : ℕ) (stamp : ℕ → Stamp) : KeyLog → ℕ → Stamp
  | .created i | .used i => update stamp i (.used time)
  | .loaded i v => update stamp i (.stored v.toNat)
  | .evicted _ => stamp

/-- The stamps after a call. -/
def stampAll (time : ℕ) (stamp : ℕ → Stamp) (log : List KeyLog) : ℕ → Stamp :=
  log.foldl (stampLog time) stamp

theorem Aged.bump (h : Aged s stamp time) (hw : s.NoWrap) (hi : i < s.pool.slots.length) :
    Aged (s.bump i) (update stamp i (.used time)) (time + 1) := by
  have hother : ∀ j, j ≠ i → (s.bump i).key j ≠ none →
      s.key j ≠ none ∧ (s.bump i).age j = s.age j :=
    fun j hji hj => ⟨key_bump ▸ hj, age_bump_of_ne (Ne.symm hji)⟩
  refine h.touch hother ?_ ?_ ?_
  · rw [counter_bump hw]
    omega
  · intro _
    rw [age_bump hw hi, counter_bump hw]
  · intro j hji hj
    obtain ⟨hk, hage⟩ := hother j hji hj
    rw [hage, age_bump hw hi]
    exact Nat.lt_succ_of_le (h.le_counter j hk)

/-! ## Creation -/

/-- The entry at `i` with the name of a peer. -/
def HostState.named (s : HostState) (i id : ℕ) (addr : Addr) : HostState :=
  { s with pool := { s.pool with
      slots := s.pool.slots.modify i ({ · with id := id, addr := addr }) } }

theorem create_eq : s.create cfg i id addr =
    if cfg.overwriteOldest then (s.named i id addr).bump i else s.named i id addr := rfl

theorem key_named (hi : i < s.pool.slots.length) (hany : addr ≠ .any) :
    (s.named i id addr).key j = if i = j then some (id, addr) else s.key j := by
  rw [named, key_modify]
  split
  · subst j
    rw [getElem?_eq_getElem hi]
    simp [Entry.free, hany]
  · rfl

@[simp] theorem create_conns : (s.create cfg i id addr).conns = s.conns := by
  rw [create_eq]
  split <;> rfl

theorem key_create (hi : i < s.pool.slots.length) (hany : addr ≠ .any) :
    (s.create cfg i id addr).key j = if i = j then some (id, addr) else s.key j := by
  rw [create_eq, ← key_named hi hany]
  split
  · exact key_bump
  · rfl

theorem age_create_of_ne (h : i ≠ j) : (s.create cfg i id addr).age j = s.age j := by
  have hnamed : (s.named i id addr).age j = s.age j := age_of_slots rfl h
  rw [create_eq, ← hnamed]
  split
  · exact age_bump_of_ne h
  · rfl

theorem length_create : (s.create cfg i id addr).pool.slots.length = s.pool.slots.length := by
  rw [create_eq]
  split <;> simp [bump, named]

theorem HostState.Safe.create (h : s.Safe) (hfree : s.key i = none)
    (hi : i < s.pool.slots.length) (hany : addr ≠ .any)
    (hnew : ∀ j, s.key j ≠ some (id, addr)) : (s.create cfg i id addr).Safe := by
  refine ⟨?_, ?_, ?_⟩
  · intro j k p hj hk
    rw [key_create hi hany] at hj hk
    split at hj <;> split at hk
    · exact (‹i = j›).symm.trans ‹i = k›
    · exact absurd (hk.trans hj.symm) (hnew k)
    · exact absurd (hj.trans hk.symm) (hnew j)
    · exact h.unique j k p hj hk
  · intro c hc j hj
    rw [create_conns] at hc
    have hne : i ≠ j := by
      rintro rfl
      exact h.not_pointed_of_free hfree c hc hj
    rw [key_create hi hany, if_neg hne]
    exact h.pointers c hc j hj
  · rw [create_conns]
    exact h.distinct

theorem Aged.create (h : Aged s stamp time) (hcfg : cfg.overwriteOldest = true) (hw : s.NoWrap)
    (hi : i < s.pool.slots.length) (hany : addr ≠ .any) :
    Aged (s.create cfg i id addr) (update stamp i (.used time)) (time + 1) := by
  have hlen : (s.named i id addr).pool.slots.length = s.pool.slots.length := by
    simp [named]
  have hother : ∀ j, j ≠ i → (s.create cfg i id addr).key j ≠ none →
      s.key j ≠ none ∧ (s.create cfg i id addr).age j = s.age j := by
    intro j hji hj
    rw [key_create hi hany, if_neg (Ne.symm hji)] at hj
    exact ⟨hj, age_create_of_ne (Ne.symm hji)⟩
  have hage : (s.create cfg i id addr).age i = s.pool.agingCounter.toNat + 1 := by
    rw [create_eq, if_pos hcfg]
    exact age_bump hw (hlen ▸ hi)
  have hcounter : (s.create cfg i id addr).pool.agingCounter.toNat =
      s.pool.agingCounter.toNat + 1 := by
    rw [create_eq, if_pos hcfg]
    exact counter_bump hw
  refine h.touch hother (by omega) (fun _ => by omega) ?_
  intro j hji hj
  obtain ⟨hk, hagej⟩ := hother j hji hj
  rw [hagej, hage]
  exact Nat.lt_succ_of_le (h.le_counter j hk)

/-- **What a lookup that may create needs.** The address is a peer's. Where
it has no entry and the oldest one is overwritten, the counter does not
wrap, and if that entry has to give way now, no connection has its address
on air only. -/
structure GetOk (cfg : KeysCfg) (s : HostState) (id : ℕ) (addr : Addr) : Prop where
  any : addr ≠ .any
  wrap : cfg.overwriteOldest = true → s.pool.findAddr id addr = none → s.NoWrap
  evict : cfg.overwriteOldest = true → s.pool.findAddr id addr = none →
    s.pool.firstFree = none → ∀ o ∈ s.oldest, ∀ p ∈ s.key o, UnpairOk s p.1 p.2

/-- **What `bt_keys_get_addr` does.** -/
structure GetSpec (cfg : KeysCfg) (s : HostState) (stamp : ℕ → Stamp) (time id : ℕ) (addr : Addr)
    (r : KeyRet) : Prop where
  safe : r.s.Safe
  aged : cfg.overwriteOldest = true → Aged s stamp time →
    Aged r.s (stampAll time stamp r.log) (time + 1)
  ret : ∀ i ∈ r.ret, r.s.key i = some (id, addr)
  /-- The other entries stay as they are, or are freed. -/
  other : ∀ j, r.ret ≠ some j → r.s.key j ≠ none → r.s.key j = s.key j ∧ r.s.age j = s.age j ∧
    stampAll time stamp r.log j = stamp j
  /-- An entry that is new has no pointer to it. -/
  pointed : ∀ i ∈ r.ret, (s.key i = some (id, addr) → s.NotPointed i) → r.s.NotPointed i
  conns : ConnsCut s.conns r.s.conns
  length : r.s.pool.slots.length = s.pool.slots.length
  evicted : ∀ o, .evicted o ∈ r.log → s.oldest = some o ∧ s.pool.firstFree = none

theorem GetSpec.same {ret : Option ℕ} (h : s.Safe) (hret : ∀ i ∈ ret, s.key i = some (id, addr)) :
    GetSpec cfg s stamp time id addr { s := s, ret := ret } where
  safe := h
  aged := fun _ ha => ha.mono (fun _ hi => ⟨hi, rfl⟩) le_rfl (Nat.le_succ _)
  ret := hret
  other := fun _ _ _ => ⟨rfl, rfl, rfl⟩
  pointed := fun i hi hn => hn (hret i hi)
  conns := .refl _
  length := rfl
  evicted := fun _ h => absurd h (by simp)

theorem GetSpec.create {s₁ : HostState} (pre : List KeyLog) (hok : GetOk cfg s id addr)
    (hfind : s.pool.findAddr id addr = none) (hsafe : s₁.Safe) (hsub : ∀ j, s₁.key j ≠ none → s₁.key j = s.key j ∧ s₁.age j = s.age j)
    (hcounter : s₁.pool.agingCounter = s.pool.agingCounter)
    (hlen : s₁.pool.slots.length = s.pool.slots.length) (hcut : ConnsCut s.conns s₁.conns)
    (hfree : s₁.key i = none) (hi : i < s₁.pool.slots.length)
    (hnew : ∀ j, s₁.key j ≠ some (id, addr)) (hpre : stampAll time stamp pre = stamp)
    (hev : ∀ o, .evicted o ∈ pre → s.oldest = some o ∧ s.pool.firstFree = none) :
    GetSpec cfg s stamp time id addr
      { s := s₁.create cfg i id addr, ret := some i, log := pre ++ [.created i] } := by
  have hstamp : stampAll time stamp (pre ++ [.created i]) = update stamp i (.used time) := by
    rw [stampAll, foldl_append]
    exact congrArg (fun st => stampLog time st (.created i)) hpre
  refine ⟨hsafe.create hfree hi hok.any hnew, ?_, ?_, ?_, ?_, by rwa [create_conns], ?_, ?_⟩
  · intro hcfg ha
    have hw : s₁.NoWrap := by
      unfold HostState.NoWrap
      rw [hcounter]
      exact hok.wrap hcfg hfind
    rw [hstamp]
    have ha₁ : Aged s₁ stamp time := ha.mono
      (fun j hj => ⟨(hsub j hj).1 ▸ hj, (hsub j hj).2⟩) (by rw [hcounter]) le_rfl
    exact ha₁.create hcfg hw hi hok.any
  · intro j hj
    obtain rfl : i = j := by simpa using hj
    rw [key_create hi hok.any, if_pos rfl]
  · intro j hj hk
    have hij : i ≠ j := fun heq => hj (by rw [heq])
    rw [key_create hi hok.any, if_neg hij] at hk
    rw [key_create hi hok.any, if_neg hij, age_create_of_ne hij, hstamp]
    exact ⟨(hsub j hk).1, (hsub j hk).2, update_of_ne (Ne.symm hij) ..⟩
  · intro j hj _ c hc
    obtain rfl : i = j := by simpa using hj
    rw [create_conns] at hc
    exact hsafe.not_pointed_of_free hfree c hc
  · exact length_create.trans hlen
  · intro o ho
    refine hev o ?_
    simpa using ho

theorem getAddr_spec (h : s.Safe) (hok : GetOk cfg s id addr) (stamp : ℕ → Stamp) (time : ℕ) :
    GetSpec cfg s stamp time id addr (getAddr cfg id addr s) := by
  unfold getAddr
  cases hfind : s.pool.findAddr id addr with
  | some i =>
    refine .same h fun j hj => ?_
    obtain rfl : i = j := by simpa using hj
    exact key_of_findAddr hok.any hfind
  | none =>
    have hnew : ∀ j, s.key j ≠ some (id, addr) := fun j => key_ne_of_findAddr_none hfind
    cases hfirst : s.pool.firstFree with
    | some i =>
      obtain ⟨hfree, hi⟩ := key_of_firstFree hfirst
      exact .create [] hok hfind h (fun _ _ => ⟨rfl, rfl⟩) rfl rfl (.refl _) hfree hi hnew rfl
        (by simp)
    | none =>
      simp only
      split
      · exact .same h (by simp)
      next hcfg =>
        cases hold : s.oldest with
        | none => exact .same h (by simp)
        | some o =>
          -- The oldest entry gives way, if it is of a valid identity.
          obtain ⟨ho, -, -⟩ := oldest_spec hold
          obtain ⟨⟨eid, eaddr⟩, hkey⟩ :=
            Option.ne_none_iff_exists'.1 (key_ne_none_of_firstFree hfirst ho)
          obtain ⟨hany, hentry⟩ := getD_of_key hkey
          obtain ⟨heid, headdr⟩ := Prod.mk.inj hentry
          simp only [heid, headdr]
          rcases Nat.lt_or_ge eid cfg.idMax with hid | hid
          · obtain ⟨conns', heq, hcut, hno⟩ :=
              unpair_eq h hkey (hok.evict (by simpa using hcfg) hfind hfirst o hold _ hkey) hid
            have hlen : (clear { s with conns := conns' } o).pool.slots.length =
                s.pool.slots.length := by simp [clear]
            have hfree : (clear { s with conns := conns' } o).pool.slots.getD o {} = {} := by
              simp only [clear, getD_eq_getElem?_getD, getElem?_modify_eq, getElem?_eq_getElem ho]
              rfl
            rw [heq, hfree]
            refine .create [.evicted o] hok hfind ((h.cut hcut).clear hno) ?_ rfl hlen hcut
              (by simp) (by rw [hlen]; exact ho) ?_ rfl ?_
            · intro j hj
              rw [key_clear] at hj
              split at hj
              · exact absurd rfl hj
              · exact ⟨by rw [key_clear, if_neg ‹_›]; rfl, age_clear ‹_›⟩
            · intro j hj
              rw [key_clear] at hj
              split at hj
              · exact absurd hj (by simp)
              · exact hnew j hj
            · intro o' ho'
              obtain rfl : o' = o := by simpa using ho'
              exact ⟨hold, hfirst⟩
          · have hne : (s.pool.slots.getD o {}).free = false := by simpa [Entry.free] using hany
            rw [unpair_of_le hid, hne]
            exact .same h (by simp)

/-- A state that reads the same: peers, ages, counter and connections. -/
structure SameView (s s' : HostState) : Prop where
  key : ∀ i, s'.key i = s.key i
  age : ∀ i, s'.age i = s.age i
  counter : s'.pool.agingCounter = s.pool.agingCounter
  conns : s'.conns = s.conns
  length : s'.pool.slots.length = s.pool.slots.length

theorem sameView_modify {f : Entry → Entry} (s : HostState) (n : ℕ)
    (hf : ∀ e, (f e).id = e.id ∧ (f e).addr = e.addr ∧ (f e).aging = e.aging) :
    SameView s { s with pool := { s.pool with slots := s.pool.slots.modify n f } } where
  key := fun _ => key_of_slots rfl fun e => ⟨(hf e).1, (hf e).2.1⟩
  age := by
    intro i
    simp only [HostState.age, getD_eq_getElem?_getD, getElem?_modify]
    cases s.pool.slots[i]? with
    | none => rfl
    | some e =>
      simp only [Option.map_eq_map, Option.map_some, Option.getD_some]
      split
      · rw [(hf e).2.2]
      · rfl
  counter := rfl
  conns := rfl
  length := length_modify ..

theorem HostState.Safe.sameView (h : s.Safe) (hv : SameView s s') : s'.Safe :=
  h.of_eq hv.key hv.conns

theorem Aged.sameView (h : Aged s stamp time) (hv : SameView s s') : Aged s' stamp time :=
  h.mono (fun i hi => ⟨hv.key i ▸ hi, hv.age i⟩) (by rw [hv.counter]) le_rfl

theorem GetSpec.sameView {r r' : KeyRet} (h : GetSpec cfg s stamp time id addr r)
    (hv : SameView r.s r'.s) (hret : r'.ret = r.ret) (hlog : r'.log = r.log) :
    GetSpec cfg s stamp time id addr r' where
  safe := h.safe.sameView hv
  aged := fun hcfg ha => hlog ▸ (h.aged hcfg ha).sameView hv
  ret := fun i hi => by rw [hv.key]; exact h.ret i (hret ▸ hi)
  other := fun j hj hk => by
    rw [hv.key] at hk ⊢
    rw [hv.age, hlog]
    exact h.other j (hret ▸ hj) hk
  pointed := fun i hi hn c hc => h.pointed i (hret ▸ hi) hn c (hv.conns ▸ hc)
  conns := hv.conns ▸ h.conns
  length := hv.length.trans h.length
  evicted := fun o ho => h.evicted o (hlog ▸ ho)

theorem sameView_addType (s : HostState) (i : ℕ) (type : KeyType) :
    SameView s (s.addType i type) := sameView_modify s i fun _ => ⟨rfl, rfl, rfl⟩

theorem sameView_idAdd (s : HostState) (i : ℕ) (added : Bool) : SameView s (s.idAdd i added) :=
  sameView_modify s i fun _ => ⟨rfl, rfl, rfl⟩

theorem key_of_find {type : KeyType} (hany : addr ≠ .any) (h : s.pool.find type id addr = some i) :
    s.key i = some (id, addr) := by
  obtain ⟨hlt, hi, -⟩ := findIdx?_eq_some_iff_getElem.1 h
  simp only [Bool.and_eq_true, beq_iff_eq] at hi
  exact key_eq_some.2 ⟨_, getElem?_eq_getElem hlt, hi.2 ▸ hany, by rw [hi.1.2, hi.2]⟩

theorem getType_spec (type : KeyType) (h : s.Safe) (hok : GetOk cfg s id addr)
    (stamp : ℕ → Stamp) (time : ℕ) :
    GetSpec cfg s stamp time id addr (getType cfg type id addr s) := by
  unfold getType
  cases hfind : s.pool.find type id addr with
  | some i =>
    refine .same h fun j hj => ?_
    obtain rfl : i = j := by simpa using hj
    exact key_of_find hok.any hfind
  | none =>
    have hspec := getAddr_spec h hok stamp time
    simp only
    split
    · exact hspec
    · rename_i i hret
      exact hspec.sameView (sameView_addType _ i type) rfl rfl

/-! ## Use -/

/-- The entry is newer than every other. -/
def Newest (s : HostState) (i : ℕ) : Prop := ∀ j, j ≠ i → s.key j ≠ none → s.age j < s.age i

/-- **What a use needs**: the counter does not wrap, and where the entry
was the last one updated, it is the newest one. -/
structure UsageOk (s : HostState) (id : ℕ) (addr : Addr) : Prop where
  wrap : s.NoWrap
  newest : ∀ i ∈ s.pool.findAddr id addr, s.pool.lastUpdated = some i → Newest s i

theorem HostState.Safe.updateUsage (h : s.Safe) : (updateUsage id addr s).s.Safe := by
  unfold Host.updateUsage
  split
  · exact h
  · split
    · exact h
    · exact h.of_eq (fun _ => key_bump) rfl

theorem Aged.updateUsage (h : Aged s stamp time) (hok : UsageOk s id addr) :
    Aged (updateUsage id addr s).s (stampAll time stamp (updateUsage id addr s).log)
      (time + 1) := by
  unfold Host.updateUsage
  cases hfind : s.pool.findAddr id addr with
  | none => exact h.mono (fun _ hi => ⟨hi, rfl⟩) le_rfl (Nat.le_succ _)
  | some i =>
    simp only
    split
    · -- The shortcut: the entry is the newest already.
      exact h.touch (fun j _ hj => ⟨hj, rfl⟩) le_rfl (h.le_counter i) (hok.newest i hfind ‹_›)
    · exact h.bump hok.wrap (findIdx?_eq_some_iff_getElem.1 hfind).1

end Host

end OpenBlue

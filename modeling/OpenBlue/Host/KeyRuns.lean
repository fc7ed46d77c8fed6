import OpenBlue.Host.Identity
/-!
# Host — runs of the key pool

Every call that touches the pool, any number of times and in any order,
over any connections. Beside the pool the run tracks when each entry was
last created or used. In every run whose steps meet `EventOk`, no peer has
two entries, every pointer leads to the entry of its connection's peer,
and the entry evicted from a full pool is the least recently used one of
those no connection uses (`keys_run`). The conditions of `EventOk` are
needed: `recent_use_evicted` runs past one of them.
-/

namespace OpenBlue

namespace Host

open List Option HostState

variable {cfg : KeysCfg} {s : HostState} {i j k id : ℕ} {addr : Addr}
variable {stamp : ℕ → Stamp} {time : ℕ}

/-! ## Loading -/

/-- The entry of the peer is not pointed to. -/
def PeerNotPointed (s : HostState) (id : ℕ) (addr : Addr) : Prop :=
  ∀ i, s.key i = some (id, addr) → s.NotPointed i

/-- The counter read from storage is below those of the entries created
or used since, of which the peer's is none. -/
def StoredBelow (s : HostState) (stamp : ℕ → Stamp) (id : ℕ) (addr : Addr) (aging : UInt32) : Prop :=
  ∀ j, s.key j ≠ none → (∃ t, stamp j = .used t) →
    s.key j ≠ some (id, addr) ∧ aging.toNat < s.age j

/-- **What loading needs.** A record that is deleted or malformed is of
an entry no connection points to; a record with a counter is older than
what was created or used since. -/
def LoadOk (cfg : KeysCfg) (s : HostState) (stamp : ℕ → Stamp) (id : ℕ) (addr : Addr) :
    StoredKeys → Prop
  | .deleted => ∀ i ∈ s.pool.findAll id addr, s.NotPointed i
  | .full _ aging => GetOk cfg s id addr ∧ StoredBelow s stamp id addr aging
  | .compat _ => GetOk cfg s id addr ∧ (cfg.overwriteOldest = false → PeerNotPointed s id addr)
  | .badLength => GetOk cfg s id addr ∧ PeerNotPointed s id addr

theorem key_load (data : KeyData) (aging : Option UInt32) : (s.load i data aging).key j = s.key j :=
  key_of_slots rfl fun _ => ⟨rfl, rfl⟩

theorem age_load_of_ne (data : KeyData) (aging : Option UInt32) (h : i ≠ j) :
    (s.load i data aging).age j = s.age j := age_of_slots rfl h

theorem age_load (data : KeyData) (aging : UInt32) (hi : i < s.pool.slots.length) :
    (s.load i data (some aging)).age i = aging.toNat := by
  simp [HostState.age, load, hi]

theorem counter_le_load (data : KeyData) (aging : Option UInt32) :
    s.pool.agingCounter.toNat ≤ (s.load i data aging).pool.agingCounter.toNat := by
  simp only [load]
  split
  · rename_i h
    exact Nat.le_of_lt (UInt32.lt_iff_toNat_lt.1 h)
  · exact le_rfl

theorem age_le_counter_load (data : KeyData) (aging : Option UInt32) :
    (s.load i data aging).age i ≤ (s.load i data aging).pool.agingCounter.toNat := by
  simp only [load, HostState.age]
  split
  · exact le_rfl
  · rename_i h
    exact Nat.le_of_not_lt fun h' => h (UInt32.lt_iff_toNat_lt.2 h')

theorem load_none_aged (data : KeyData) (ha : Aged s stamp time) :
    Aged (s.load i data none) stamp time := by
  refine ha.mono (fun j hj => ⟨key_load data none ▸ hj, ?_⟩) (counter_le_load data none) le_rfl
  simp only [HostState.age, load, getD_eq_getElem?_getD, getElem?_modify, getD_none]
  cases s.pool.slots[j]? with
  | none => rfl
  | some e =>
    simp only [Option.map_eq_map, map_some, getD_some]
    split <;> rfl

/-- **`keys_set` keeps the pool well formed.** -/
theorem keysSet_spec (v : StoredKeys) (h : s.Safe) (hok : LoadOk cfg s stamp id addr v) :
    CallSpec cfg s stamp time (keysSet cfg id addr v s) := by
  have hsame : CallSpec cfg s stamp time { s := s } := .kept h (.refl s)
  -- What is cleared after the lookup is not pointed to.
  have hcleared : GetOk cfg s id addr → PeerNotPointed s id addr → ∀ i,
      (getAddr cfg id addr s).ret = some i →
      CallSpec cfg s stamp time
        { getAddr cfg id addr s with s := (getAddr cfg id addr s).s.clear i, ret := none } := by
    intro hget hnp i hret
    have hspec := getAddr_spec h hget stamp time
    exact hspec.call.andThen (hspec.safe.clear (hspec.pointed i hret (hnp i)))
      (kept_clear _ i) rfl
  unfold keysSet
  split
  · exact hsame
  · cases v with
    | deleted =>
      cases hf : s.pool.findAll id addr with
      | none => exact hsame
      | some i => exact .kept (h.clear (hok i hf)) (kept_clear s i)
    | badLength =>
      simp only
      cases hret : (getAddr cfg id addr s).ret with
      | none => exact (getAddr_spec h hok.1 stamp time).call
      | some i => exact hcleared hok.1 hok.2 i hret
    | compat data =>
      have hspec := getAddr_spec h hok.1 stamp time
      simp only
      cases hret : (getAddr cfg id addr s).ret with
      | none => exact hspec.call
      | some i =>
        simp only
        split
        · exact ⟨hspec.safe.of_eq (fun _ => key_load data none) rfl,
            fun hcfg ha => load_none_aged data (hspec.aged hcfg ha), hspec.evicted⟩
        · exact hcleared hok.1 (hok.2 (Bool.eq_false_iff.2 ‹_›)) i hret
    | full data aging =>
      have hspec := getAddr_spec h hok.1 stamp time
      simp only
      cases hret : (getAddr cfg id addr s).ret with
      | none => exact hspec.call
      | some i =>
        refine ⟨hspec.safe.of_eq (fun _ => key_load data (some aging)) rfl, fun hcfg ha => ?_, ?_⟩
        · have hki := hspec.ret i hret
          have hage := age_load (s := (getAddr cfg id addr s).s) data aging (lt_of_key hki)
          have hstored := (hspec.aged hcfg ha).stored (i := i)
            (fun j hji hj => ⟨key_load data (some aging) ▸ hj,
              age_load_of_ne data (some aging) (Ne.symm hji)⟩)
            (counter_le_load data (some aging)) (age_le_counter_load data (some aging)) ?_
          · rw [hage] at hstored
            rw [stampAll, foldl_append]
            exact hstored
          · intro j hji hj hused
            obtain ⟨hkj, hagej, hstampj⟩ := hspec.other j (by rw [hret]; simpa using Ne.symm hji) hj
            rw [hage, hagej]
            exact (hok.2 j (hkj ▸ hj) (hstampj ▸ hused)).2
        · intro o ho
          refine hspec.evicted o ?_
          simpa using ho

/-! ## Connections -/

theorem HostState.Safe.point {keys : Option ℕ} (h : s.Safe)
    (hkeys : ∀ c, s.conns[k]? = some c → ∀ i ∈ keys, s.key i = some (c.id, c.dst)) :
    (s.point k keys).Safe := by
  have hget : ∀ (n : ℕ) (c' : Conn), (s.point k keys).conns[n]? = some c' →
      ∃ c, s.conns[n]? = some c ∧ c'.id = c.id ∧ c'.dst = c.dst ∧
        (c'.keys = c.keys ∨ k = n ∧ c'.keys = keys) := by
    intro n c' hc'
    rw [HostState.point, getElem?_modify] at hc'
    obtain ⟨c, hc, rfl⟩ := map_eq_some_iff.1 hc'
    refine ⟨c, hc, ?_⟩
    split
    · exact ⟨rfl, rfl, .inr ⟨‹_›, rfl⟩⟩
    · exact ⟨rfl, rfl, .inl rfl⟩
  refine ⟨h.unique, ?_, ?_⟩
  · intro c' hc' i hi
    obtain ⟨n, hn⟩ := mem_iff_getElem?.1 hc'
    obtain ⟨c, hc, hid, hdst, hor⟩ := hget n c' hn
    rw [hid, hdst]
    rcases hor with heq | ⟨rfl, heq⟩
    · exact h.pointers c (mem_of_getElem? hc) i (heq ▸ hi)
    · exact hkeys c hc i (heq ▸ hi)
  · intro m n c' d' hc' hd' hid hdst
    obtain ⟨c, hc, hcid, hcdst, -⟩ := hget m c' hc'
    obtain ⟨d, hd, hdid, hddst, -⟩ := hget n d' hd'
    exact h.distinct m n c d hc hd (hcid.symm.trans (hid.trans hdid))
      (hcdst.symm.trans (hdst.trans hddst))

theorem HostState.Safe.connect {c : Conn} (h : s.Safe) (hkeys : c.keys = none)
    (hnew : ∀ d ∈ s.conns, d.id = c.id → d.dst ≠ c.dst) :
    HostState.Safe { s with conns := s.conns ++ [c] } := by
  have hget : ∀ (n : ℕ) (d : Conn), (s.conns ++ [c])[n]? = some d →
      s.conns[n]? = some d ∨ n = s.conns.length ∧ d = c := by
    intro n d hd
    rcases Nat.lt_or_ge n s.conns.length with hlt | hge
    · exact .inl (by rwa [getElem?_append_left hlt] at hd)
    · rw [getElem?_append_right hge] at hd
      have hlt := (List.getElem?_eq_some_iff.1 hd).1
      simp only [length_singleton] at hlt
      have hn : n = s.conns.length := by omega
      subst hn
      exact .inr ⟨rfl, by simpa using hd.symm⟩
  refine ⟨h.unique, ?_, ?_⟩
  · intro d hd i hi
    rcases mem_append.1 hd with hd | hd
    · exact h.pointers d hd i hi
    · rw [mem_singleton.1 hd, hkeys] at hi
      exact absurd hi (by simp)
  · intro m n d e hd he hid hdst
    rcases hget m d hd with hd' | ⟨hm, rfl⟩ <;> rcases hget n e he with he' | ⟨hn, rfl⟩
    · exact h.distinct m n d e hd' he' hid hdst
    · exact absurd hdst (hnew d (mem_of_getElem? hd') hid)
    · exact absurd hdst.symm (hnew e (mem_of_getElem? he') hid.symm)
    · omega

theorem HostState.Safe.closed (h : s.Safe) (k : ℕ) :
    HostState.Safe { s with conns := s.conns.eraseIdx k } := by
  refine ⟨h.unique, fun c hc i hi => h.pointers c (mem_of_mem_eraseIdx hc) i hi, ?_⟩
  intro m n c d hc hd hid hdst
  simp only [getElem?_eraseIdx] at hc hd
  split at hc <;> split at hd <;> have := h.distinct _ _ c d hc hd hid hdst <;> omega

theorem HostState.Safe.connClear {c : Conn} (h : s.Safe) (hk : s.conns[k]? = some c)
    (hkeys : c.keys = some i) : ((s.clear i).point k none).Safe := by
  have hpoint : (s.point k none).Safe := h.point fun _ _ _ hi => absurd hi (by simp)
  refine HostState.Safe.clear (s := s.point k none) hpoint fun d' hd' hdi => ?_
  obtain ⟨n, hn⟩ := mem_iff_getElem?.1 hd'
  rw [HostState.point, getElem?_modify] at hn
  obtain ⟨d, hd, rfl⟩ := map_eq_some_iff.1 hn
  by_cases hkn : k = n
  · simp [hkn] at hdi
  · -- Another connection that points to the entry has the same peer.
    rw [if_neg hkn] at hdi
    have hc := h.pointers c (mem_of_getElem? hk) i hkeys
    rw [h.pointers d (mem_of_getElem? hd) i hdi, Option.some.injEq, Prod.mk.injEq] at hc
    exact hkn (h.distinct k n c d hk hd hc.1.symm hc.2.symm)

/-! ## Runs -/

/-- The host, and when each entry was last created or used. -/
structure Tracked where
  host : HostState
  stamp : ℕ → Stamp
  time : ℕ

/-- One event, with what it did taken down. -/
def trackStep (cfg : KeysCfg) (t : Tracked) (e : KeyEvent) : Tracked :=
  let r := keysRet cfg t.host e
  { host := r.s, stamp := stampAll t.time t.stamp r.log, time := t.time + 1 }

/-- The host at boot: an empty pool of this size and no connection. -/
def boot (size : ℕ) : Tracked :=
  { host := { pool := { slots := List.replicate size {} }, conns := [] }
    stamp := fun _ => .stored 0
    time := 0 }

/-- **What an event needs.** -/
def EventOk (cfg : KeysCfg) (t : Tracked) : KeyEvent → Prop
  | .getAddr id addr => GetOk cfg t.host id addr
  | .getType _ id addr => GetOk cfg t.host id addr
  | .clear i => t.host.NotPointed i
  | .updateUsage id addr => UsageOk t.host id addr
  | .keysSet id addr v => LoadOk cfg t.host t.stamp id addr v
  | .identAddrInfo env k idAddr =>
    ∀ c, t.host.conns[k]? = some c → IdentOk cfg env t.host k idAddr c
  | .connect c => c.keys = none ∧ ∀ d ∈ t.host.conns, d.id = c.id → d.dst ≠ c.dst
  | .connGet k => ∀ c, t.host.conns[k]? = some c → GetOk cfg t.host c.id c.dst
  | .connFind _ k => ∀ c, t.host.conns[k]? = some c → c.dst ≠ .any
  | .disconnecting _ => True
  | .closed _ => True
  | .connClear _ => True

/-- **Every event keeps the pool well formed**, one case for each. -/
theorem keysRet_spec {t : Tracked} {e : KeyEvent} (h : t.host.Safe) (hok : EventOk cfg t e) :
    CallSpec cfg t.host t.stamp t.time (keysRet cfg t.host e) := by
  have hsame : CallSpec cfg t.host t.stamp t.time { s := t.host } := .kept h (.refl _)
  cases e with
  | getAddr id addr => exact (getAddr_spec h hok _ _).call
  | getType type id addr => exact (getType_spec type h hok _ _).call
  | clear i => exact .kept (h.clear hok) (kept_clear _ i)
  | updateUsage id addr =>
    refine ⟨h.updateUsage, fun _ ha => ha.updateUsage hok, fun o ho => ?_⟩
    simp only [keysRet, updateUsage] at ho
    split at ho
    · exact absurd ho (by simp)
    · split at ho <;> exact absurd ho (by simp)
  | keysSet id addr v => exact keysSet_spec v h hok
  | identAddrInfo env k idAddr => exact smpIdentAddrInfo_spec h hok _ _
  | connect c => exact .kept (h.connect hok.1 hok.2) (kept_conns _ _)
  | disconnecting k =>
    exact .kept (h.cut (connsCut_modify _ k fun c => ⟨rfl, rfl, rfl, .inl rfl⟩)) (kept_conns _ _)
  | closed k => exact .kept (h.closed k) (kept_conns _ _)
  | connGet k =>
    simp only [keysRet]
    cases hk : t.host.conns[k]? with
    | none => exact hsame
    | some c =>
      have hspec := getAddr_spec h (hok c hk) t.stamp t.time
      refine hspec.call.andThen (hspec.safe.point fun d hd i hi => ?_) (kept_conns _ _) rfl
      obtain ⟨c', hc', hid, hdst, -⟩ := hspec.conns.get k d hd
      obtain rfl : c = c' := mem_unique hk hc'
      rw [hid, hdst]
      exact hspec.ret i hi
  | connFind type k =>
    simp only [keysRet]
    cases hk : t.host.conns[k]? with
    | none => exact hsame
    | some c =>
      refine .kept (h.point fun d hd i hi => ?_) (kept_conns _ _)
      obtain rfl : c = d := mem_unique hk hd
      exact key_of_find (hok c hk) hi
  | connClear k =>
    simp only [keysRet]
    cases hkeys : (t.host.conns[k]?).bind (·.keys) with
    | none => exact hsame
    | some i =>
      obtain ⟨c, hk, hci⟩ := bind_eq_some_iff.1 hkeys
      exact .kept (h.connClear hk hci) ((kept_clear _ i).trans (kept_conns _ _))

/-- What a run keeps. -/
structure TrackInv (cfg : KeysCfg) (t : Tracked) : Prop where
  safe : t.host.Safe
  aged : cfg.overwriteOldest = true → Aged t.host t.stamp t.time

theorem TrackInv.step {t : Tracked} {e : KeyEvent} (h : TrackInv cfg t) (hok : EventOk cfg t e) :
    TrackInv cfg (trackStep cfg t e) := by
  have hspec := keysRet_spec h.safe hok
  exact ⟨hspec.safe, fun hcfg => hspec.aged hcfg (h.aged hcfg)⟩

theorem key_boot (size i : ℕ) : (boot size).host.key i = none := by
  simp only [HostState.key, boot, getElem?_replicate]
  split <;> rfl

theorem trackInv_boot (size : ℕ) : TrackInv cfg (boot size) := by
  refine ⟨⟨?_, ?_, ?_⟩, fun _ => ⟨?_, ?_, ?_⟩⟩
  · intro i j p hi
    rw [key_boot] at hi
    exact absurd hi (by simp)
  · intro c hc
    exact absurd hc (by simp [boot])
  · intro m n c d hc
    exact absurd hc (by simp [boot])
  · exact fun i hi => absurd (key_boot size i) hi
  · exact fun i j hi => absurd (key_boot size i) hi
  · exact fun i hi => absurd (key_boot size i) hi

theorem oldest_stamp {t : Tracked} (h : Aged t.host t.stamp t.time) {o : ℕ}
    (ho : t.host.oldest = some o) (hfull : t.host.pool.firstFree = none) :
    t.host.keyInUse o = false ∧
      ∀ j < t.host.pool.slots.length, t.host.keyInUse j = false → t.stamp o ≤ t.stamp j := by
  obtain ⟨hlt, huse, hmin⟩ := oldest_spec ho
  refine ⟨huse, fun j hj hju => le_of_not_gt fun hlts => ?_⟩
  have hage := h.order j o (key_ne_none_of_firstFree hfull hj)
    (key_ne_none_of_firstFree hfull hlt) hlts
  exact absurd (hmin j hj hju) (Nat.not_le.2 hage)

/-- **The key pool over runs.** In every state that a run from boot
reaches with each event meeting its condition, no two entries belong to
one peer, every pointer of a connection leads to the entry of its peer,
and what the next event evicts from the full pool is, of the entries in no
use, the one created or used longest ago. -/
theorem keys_run (cfg : KeysCfg) (size : ℕ) (es : List KeyEvent)
    (hrun : Along (trackStep cfg) (EventOk cfg) (boot size) es) :
    let t := run (trackStep cfg) (boot size) es
    (∀ i j p, t.host.key i = some p → t.host.key j = some p → i = j) ∧
    (∀ c ∈ t.host.conns, ∀ i, c.keys = some i → t.host.key i = some (c.id, c.dst)) ∧
    (cfg.overwriteOldest = true → ∀ e, EventOk cfg t e →
      ∀ o, .evicted o ∈ (keysRet cfg t.host e).log →
        t.host.pool.firstFree = none ∧ t.host.keyInUse o = false ∧
        ∀ j < t.host.pool.slots.length, t.host.keyInUse j = false → t.stamp o ≤ t.stamp j) := by
  intro t
  have hinv : TrackInv cfg t :=
    inv_run (TrackInv cfg) (fun _ _ h hok => h.step hok) (trackInv_boot size) hrun
  refine ⟨hinv.safe.unique, hinv.safe.pointers, fun hcfg e hok o ho => ?_⟩
  obtain ⟨hold, hfull⟩ := (keysRet_spec hinv.safe hok).evicted o ho
  exact ⟨hfull, oldest_stamp (hinv.aged hcfg) hold hfull⟩

/-- A run that fills a pool of two, uses the first entry, and evicts the
second. -/
def fillRun : List KeyEvent :=
  [.getAddr 0 ⟨0, 1⟩, .getAddr 0 ⟨0, 2⟩, .updateUsage 0 ⟨0, 1⟩]

theorem fillRun_ok : Along (trackStep {}) (EventOk {}) (boot 2) fillRun := by
  refine ⟨⟨by decide, fun _ _ => by decide, fun _ _ h => absurd h (by decide)⟩,
    ⟨by decide, fun _ _ => by decide, fun _ _ h => absurd h (by decide)⟩,
    ⟨by decide, fun i hi hlast => absurd hlast ?_⟩, trivial⟩
  obtain rfl : 0 = i := Option.some.inj hi
  decide

theorem keys_run_fillRun :
    let t := run (trackStep {}) (boot 2) fillRun
    t.host.keyInUse 1 = false ∧
      ∀ j < t.host.pool.slots.length, t.host.keyInUse j = false → t.stamp 1 ≤ t.stamp j :=
  ((keys_run {} 2 fillRun fillRun_ok).2.2 rfl (.getAddr 0 ⟨0, 3⟩)
    ⟨by decide, fun _ _ => by decide, fun _ _ _ _ _ _ _ c hc => absurd hc List.not_mem_nil⟩ 1
    (by decide)).2

/-- Two bonds are restored, the second with the smaller counter, and the
second is used: it was the last one updated, so its counter stays. -/
def restoreRun : List KeyEvent :=
  [.keysSet 0 ⟨0, 1⟩ (.full {} 5), .keysSet 0 ⟨0, 2⟩ (.full {} 3), .updateUsage 0 ⟨0, 2⟩]

/-- **A bond just used is evicted** in favour of one not used since it was
restored. -/
theorem recent_use_evicted :
    let t := run (trackStep {}) (boot 2) restoreRun
    .evicted 1 ∈ (keysRet {} t.host (.getAddr 0 ⟨0, 3⟩)).log ∧
      t.host.keyInUse 0 = false ∧ t.stamp 0 < t.stamp 1 := by decide

end Host

end OpenBlue

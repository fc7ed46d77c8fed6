import OpenBlue.Host.Keys
/-!
# Host — the key pool under identity resolution

When the identity address of a peer becomes known, its entry and the
connections with the address on air are renamed in place. The loop over
the connections reads that address through a pointer into the connection
it also writes to, so it renames up to that connection only
(`resolveAddr_eq`). Each renaming keeps the pool well formed where the
identity address is new to the local identity (`Safe.rename`).
-/

namespace OpenBlue

namespace Host

open List HostState

variable {cfg : KeysCfg} {s s' : HostState} {i j k n id : ℕ} {addr idAddr rpa : Addr} {c d : Conn}
variable {stamp : ℕ → Stamp} {time : ℕ}

/-- No entry is new, and those left keep their age. -/
structure Kept (s s' : HostState) : Prop where
  keys : ∀ j, s'.key j ≠ none → s.key j ≠ none ∧ s'.age j = s.age j
  counter : s'.pool.agingCounter = s.pool.agingCounter

theorem kept_conns (s : HostState) (conns : List Conn) : Kept s { s with conns := conns } :=
  ⟨fun _ hj => ⟨hj, rfl⟩, rfl⟩

theorem Kept.refl (s : HostState) : Kept s s := kept_conns s s.conns

theorem Kept.trans {s₁ s₂ s₃ : HostState} (h : Kept s₁ s₂) (h' : Kept s₂ s₃) : Kept s₁ s₃ := by
  refine ⟨fun j hj => ?_, h'.counter.trans h.counter⟩
  obtain ⟨hj₂, hage⟩ := h'.keys j hj
  obtain ⟨hj₁, hage'⟩ := h.keys j hj₂
  exact ⟨hj₁, hage.trans hage'⟩

theorem Aged.kept (ha : Aged s stamp time) (h : Kept s s') : Aged s' stamp time :=
  ha.mono h.keys (by rw [h.counter]) le_rfl

theorem kept_clear (s : HostState) (i : ℕ) : Kept s (s.clear i) := by
  refine ⟨fun j hj => ?_, rfl⟩
  rw [key_clear] at hj
  split at hj
  · exact absurd rfl hj
  · exact ⟨hj, age_clear ‹_›⟩

theorem SameView.kept (h : SameView s s') : Kept s s' :=
  ⟨fun j hj => ⟨h.key j ▸ hj, h.age j⟩, h.counter⟩

theorem kept_unpair (h : s.Safe) (hk : s.key i = some (id, addr)) (hok : UnpairOk s id addr) :
    Kept s (unpair cfg id addr s) := by
  rcases Nat.lt_or_ge id cfg.idMax with hid | hid
  · obtain ⟨conns', heq, -, -⟩ := unpair_eq h hk hok hid
    rw [heq]
    exact (kept_conns s conns').trans (kept_clear { s with conns := conns' } i)
  · rw [unpair_of_le hid]
    exact .refl s

/-! ## One renaming -/

/-- Connection `n` takes the address. -/
def HostState.setDst (s : HostState) (n : ℕ) (addr : Addr) : HostState :=
  { s with conns := s.conns.modify n ({ · with dst := addr }) }

/-- The entry at `j` takes the address. -/
def HostState.setAddr (s : HostState) (j : ℕ) (addr : Addr) : HostState :=
  { s with pool := { s.pool with slots := s.pool.slots.modify j ({ · with addr := addr }) } }

theorem key_setAddr (hj : s.key j = some (id, addr)) (hany : idAddr ≠ .any) :
    (s.setAddr j idAddr).key i = if j = i then some (id, idAddr) else s.key i := by
  obtain ⟨e, he, -, hp⟩ := key_eq_some.1 hj
  rw [setAddr, key_modify]
  split
  · subst i
    rw [he]
    simp [Entry.free, hany, (Prod.mk.inj hp).1]
  · rfl

theorem age_setAddr : (s.setAddr j addr).age i = s.age i := by
  simp only [HostState.age, setAddr, getD_eq_getElem?_getD, getElem?_modify]
  cases s.pool.slots[i]? with
  | none => rfl
  | some e =>
    simp only [Option.map_eq_map, Option.map_some, Option.getD_some]
    split <;> rfl

theorem kept_rename (hj : s.key j = some (id, addr)) (hany : idAddr ≠ .any) :
    Kept s (s.setAddr j idAddr) := by
  refine ⟨fun m hm => ⟨?_, age_setAddr⟩, rfl⟩
  rw [key_setAddr hj hany] at hm
  split at hm
  · rename_i hjm
    rw [← hjm, hj]
    simp
  · exact hm

theorem get_setDst {c' : Conn} (h : (s.setDst n addr).conns[k]? = some c') :
    (k = n ∧ ∃ c, s.conns[n]? = some c ∧ c' = { c with dst := addr }) ∨
      (k ≠ n ∧ s.conns[k]? = some c') := by
  rw [setDst, getElem?_modify] at h
  obtain ⟨c, hc, rfl⟩ := Option.map_eq_some_iff.1 h
  by_cases hnk : n = k
  · subst hnk
    exact .inl ⟨rfl, c, hc, by rw [if_pos rfl]⟩
  · exact .inr ⟨Ne.symm hnk, by rw [if_neg hnk]; exact hc⟩

/-- The address is new to the local identity `id`. -/
structure Fresh (s : HostState) (id : ℕ) (addr : Addr) : Prop where
  conns : ∀ d ∈ s.conns, d.id = id → d.dst ≠ addr
  keys : ∀ j, s.key j ≠ some (id, addr)

theorem distinct_setDst (h : s.Safe) (hc : s.conns[n]? = some c)
    (hnew : ∀ d ∈ s.conns, d.id = c.id → d.dst ≠ idAddr) :
    ∀ (a b : ℕ) (d e : Conn), (s.setDst n idAddr).conns[a]? = some d →
      (s.setDst n idAddr).conns[b]? = some e → d.id = e.id → d.dst = e.dst → a = b := by
  intro a b d e hd he hid hdst
  rcases get_setDst hd with ⟨ha, d₀, hd₀, rfl⟩ | ⟨ha, hd₀⟩ <;>
    rcases get_setDst he with ⟨hb, e₀, he₀, rfl⟩ | ⟨hb, he₀⟩
  · omega
  · obtain rfl : c = d₀ := Option.mem_unique hc hd₀
    exact absurd hdst.symm (hnew e (mem_of_getElem? he₀) hid.symm)
  · obtain rfl : c = e₀ := Option.mem_unique hc he₀
    exact absurd hdst (hnew d (mem_of_getElem? hd₀) hid)
  · exact h.distinct a b d e hd₀ he₀ hid hdst

theorem HostState.Safe.setDst (h : s.Safe) (hc : s.conns[n]? = some c) (hnone : c.keys = none)
    (hnew : ∀ d ∈ s.conns, d.id = c.id → d.dst ≠ idAddr) : (s.setDst n idAddr).Safe := by
  refine ⟨h.unique, ?_, distinct_setDst h hc hnew⟩
  intro c' hc' i hi
  obtain ⟨m, hm⟩ := mem_iff_getElem?.1 hc'
  rcases get_setDst hm with ⟨-, c₀, hc₀, rfl⟩ | ⟨-, hm⟩
  · obtain rfl : c = c₀ := Option.mem_unique hc hc₀
    rw [hnone] at hi
    exact absurd hi (by simp)
  · exact h.pointers c' (mem_of_getElem? hm) i hi

/-- **A connection and the entry of its peer take the address together.** -/
theorem HostState.Safe.rename (h : s.Safe) (hc : s.conns[n]? = some c)
    (hj : s.key j = some (c.id, c.dst)) (hnew : Fresh s c.id idAddr) (hany : idAddr ≠ .any) :
    ((s.setDst n idAddr).setAddr j idAddr).Safe := by
  have hkey : ∀ i, ((s.setDst n idAddr).setAddr j idAddr).key i =
      if j = i then some (c.id, idAddr) else s.key i :=
    fun i => key_setAddr (s := s.setDst n idAddr) hj hany
  refine ⟨?_, ?_, distinct_setDst h hc hnew.conns⟩
  · intro a b p ha hb
    rw [hkey] at ha hb
    split at ha <;> split at hb
    · exact (‹j = a›).symm.trans ‹j = b›
    · exact absurd (hb.trans ha.symm) (hnew.keys b)
    · exact absurd (ha.trans hb.symm) (hnew.keys a)
    · exact h.unique a b p ha hb
  · intro c' hc' i hi
    obtain ⟨m, hm⟩ := mem_iff_getElem?.1 hc'
    rw [hkey]
    rcases get_setDst hm with ⟨-, c₀, hc₀, rfl⟩ | ⟨hmn, hm⟩
    · obtain rfl : c = c₀ := Option.mem_unique hc hc₀
      have hki := h.pointers c (mem_of_getElem? hc) i hi
      rw [if_pos (h.unique j i _ hj hki)]
    · have hki := h.pointers c' (mem_of_getElem? hm) i hi
      -- Another connection points to the entry of another peer.
      have hji : j ≠ i := by
        rintro rfl
        obtain ⟨hid, hdst⟩ := Prod.mk.inj (Option.mem_unique hki hj)
        exact hmn (h.distinct m n c' c hm hc hid hdst)
      rw [if_neg hji]
      exact hki

/-! ## The loop -/

/-- What the loop keeps until it reaches the connection `k` that pairs,
whose entry is `i`. -/
structure Resolving (k i id : ℕ) (rpa idAddr : Addr) (s₀ s : HostState) : Prop where
  safe : s.Safe
  entry : s.key i = some (id, rpa)
  conn : ∃ c, s.conns[k]? = some c ∧ c.id = id ∧ c.dst = rpa
  fresh : ∀ d ∈ s.conns, d.dst = rpa → Fresh s d.id idAddr
  kept : Kept s₀ s

theorem Resolving.refl (h : s.Safe) (hi : s.key i = some (c.id, c.dst)) (hk : s.conns[k]? = some c)
    (hnew : ∀ d ∈ s.conns, d.dst = c.dst → Fresh s d.id idAddr) :
    Resolving k i c.id c.dst idAddr s s :=
  ⟨h, hi, ⟨c, hk, rfl, rfl⟩, hnew, .refl s⟩

theorem fresh_of_rename (hother : ∀ m e, m ≠ n → s.conns[m]? = some e → e.dst = rpa → e.id ≠ d.id)
    (hn : s.conns[n]? = some d) (hne : idAddr ≠ rpa) (hconns : s'.conns = (s.setDst n idAddr).conns)
    (hkey : ∀ j, s'.key j = s.key j ∨ s'.key j = some (d.id, idAddr))
    (hnew : ∀ e ∈ s.conns, e.dst = rpa → Fresh s e.id idAddr) :
    ∀ e ∈ s'.conns, e.dst = rpa → Fresh s' e.id idAddr := by
  intro e he hrpa
  obtain ⟨m, hm⟩ := mem_iff_getElem?.1 he
  rw [hconns] at hm
  rcases get_setDst hm with ⟨-, e₀, -, rfl⟩ | ⟨hmn, hm⟩
  · exact absurd hrpa hne
  · have hfresh := hnew e (mem_of_getElem? hm) hrpa
    have hid := hother m e hmn hm hrpa
    refine ⟨fun f hf hfid => ?_, fun j hj => ?_⟩
    · obtain ⟨l, hl⟩ := mem_iff_getElem?.1 hf
      rw [hconns] at hl
      rcases get_setDst hl with ⟨-, f₀, hf₀, rfl⟩ | ⟨-, hl⟩
      · obtain rfl : d = f₀ := Option.mem_unique hn hf₀
        exact absurd hfid.symm hid
      · exact hfresh.conns f (mem_of_getElem? hl) hfid
    · rcases hkey j with hs | hs
      · exact hfresh.keys j (hs ▸ hj)
      · rw [hs, Option.some.injEq, Prod.mk.injEq] at hj
        exact hid hj.1.symm

theorem convertToIdOnMatch_eq {ck : Conn} (hk : s.conns[k]? = some ck) (hn : s.conns[n]? = some c) :
    convertToIdOnMatch k idAddr i s n = if c.dst = ck.dst then
        match c.keys with
        | some j => if j ≠ i then (s.setDst n idAddr).setAddr j idAddr else s.setDst n idAddr
        | none => s.setDst n idAddr
      else s := by
  simp only [convertToIdOnMatch, hk, hn]
  rfl

/-- **One turn before the connection that pairs is reached.** -/
theorem Resolving.turn {s₀ : HostState} (h : Resolving k i id rpa idAddr s₀ s) (hnk : n ≠ k)
    (hany : idAddr ≠ .any) (hne : idAddr ≠ rpa) :
    Resolving k i id rpa idAddr s₀ (convertToIdOnMatch k idAddr i s n) := by
  obtain ⟨ck, hck, hckid, hckdst⟩ := h.conn
  cases hn : s.conns[n]? with
  | none =>
    have heq : convertToIdOnMatch k idAddr i s n = s := by
      simp [convertToIdOnMatch, hck, hn]
    rw [heq]
    exact h
  | some d =>
    rw [convertToIdOnMatch_eq hck hn]
    by_cases hd : d.dst = ck.dst
    · rw [if_pos hd]
      have hrpa : d.dst = rpa := hd.trans hckdst
      have hnew := h.fresh d (mem_of_getElem? hn) hrpa
      have hother : ∀ m e, m ≠ n → s.conns[m]? = some e → e.dst = rpa → e.id ≠ d.id :=
        fun m e hmn hm he hid => hmn (h.safe.distinct m n e d hm hn hid (he.trans hrpa.symm))
      have hconn : ∀ s' : HostState, s'.conns = (s.setDst n idAddr).conns →
          ∃ c, s'.conns[k]? = some c ∧ c.id = id ∧ c.dst = rpa := by
        intro s' hs'
        refine ⟨ck, ?_, hckid, hckdst⟩
        rw [hs', setDst, getElem?_modify_ne _ _ hnk, hck]
      cases hkeys : d.keys with
      | none =>
        exact ⟨h.safe.setDst hn hkeys hnew.conns, h.entry, hconn _ rfl,
          fresh_of_rename hother hn hne rfl (fun _ => .inl rfl) h.fresh,
          h.kept.trans (kept_conns s _)⟩
      | some j =>
        have hkj := h.safe.pointers d (mem_of_getElem? hn) j hkeys
        -- The entry of this connection is of another local identity.
        have hji : j ≠ i := by
          rintro rfl
          obtain ⟨hid, -⟩ := Prod.mk.inj (Option.mem_unique hkj h.entry)
          exact hother k ck (Ne.symm hnk) hck hckdst (hckid.trans hid.symm)
        have hkey : ∀ m, ((s.setDst n idAddr).setAddr j idAddr).key m =
            if j = m then some (d.id, idAddr) else s.key m :=
          fun m => key_setAddr (s := s.setDst n idAddr) hkj hany
        simp only [if_pos hji]
        refine ⟨h.safe.rename hn hkj hnew hany, ?_, hconn _ rfl, ?_,
          (h.kept.trans (kept_conns s _)).trans (kept_rename (s := s.setDst n idAddr) hkj hany)⟩
        · rw [hkey, if_neg hji]
          exact h.entry
        · refine fresh_of_rename hother hn hne rfl (fun m => ?_) h.fresh
          rw [hkey]
          split
          · exact .inr rfl
          · exact .inl rfl
    · rw [if_neg hd]
      exact h

theorem Resolving.turns {s₀ : HostState} (h : Resolving k i id rpa idAddr s₀ s)
    (hany : idAddr ≠ .any) (hne : idAddr ≠ rpa) (hnk : n ≤ k) :
    Resolving k i id rpa idAddr s₀ ((List.range n).foldl (convertToIdOnMatch k idAddr i) s) := by
  induction n with
  | zero => exact h
  | succ n ih =>
    rw [range_succ, foldl_append]
    exact (ih (by omega)).turn (by omega) hany hne

theorem modify_eq_of_getElem? {α : Type*} {f : α → α} {l : List α}
    (h : ∀ a, l[n]? = some a → f a = a) : l.modify n f = l := by
  refine ext_getElem? fun m => ?_
  rw [getElem?_modify]
  cases hm : l[m]? with
  | none => rfl
  | some a =>
    simp only [Option.map_eq_map, Option.map_some, Option.some.injEq]
    split
    · rename_i hnm
      exact h a (hnm ▸ hm)
    · rfl

theorem setDst_eq_self (hn : s.conns[n]? = some c) (hdst : c.dst = addr) : s.setDst n addr = s := by
  have heq : s.conns.modify n ({ · with dst := addr }) = s.conns := by
    refine modify_eq_of_getElem? fun a ha => ?_
    obtain rfl : c = a := Option.mem_unique hn ha
    rw [← hdst]
  rw [setDst, heq]

theorem setAddr_eq_self (hj : s.key j = some (id, addr)) : s.setAddr j addr = s := by
  have heq : s.pool.slots.modify j ({ · with addr := addr }) = s.pool.slots := by
    refine modify_eq_of_getElem? fun a ha => ?_
    obtain ⟨e, he, -, hp⟩ := key_eq_some.1 hj
    obtain rfl : e = a := Option.mem_unique he ha
    rw [← (Prod.mk.inj hp).2]
  rw [setAddr, heq]

theorem convertToIdOnMatch_after (hk : ∃ c, s.conns[k]? = some c ∧ c.dst = idAddr)
    (hpointers : ∀ m c, m ≠ k → s.conns[m]? = some c → ∀ j, c.keys = some j →
      s.key j = some (c.id, c.dst)) (hnk : n ≠ k) : convertToIdOnMatch k idAddr i s n = s := by
  obtain ⟨ck, hck, hckdst⟩ := hk
  cases hn : s.conns[n]? with
  | none => simp [convertToIdOnMatch, hck, hn]
  | some d =>
    rw [convertToIdOnMatch_eq hck hn]
    split
    · have hd : d.dst = idAddr := (‹d.dst = ck.dst›).trans hckdst
      rw [setDst_eq_self hn hd]
      cases hkeys : d.keys with
      | none => rfl
      | some j =>
        have hj := hpointers n d hnk hn j hkeys
        rw [hd] at hj
        simp only [setAddr_eq_self hj, ite_self]
    · rfl

theorem foldl_convertToIdOnMatch_after (ns : List ℕ) (hns : ∀ n ∈ ns, n ≠ k)
    (hk : ∃ c, s.conns[k]? = some c ∧ c.dst = idAddr)
    (hpointers : ∀ m c, m ≠ k → s.conns[m]? = some c → ∀ j, c.keys = some j →
      s.key j = some (c.id, c.dst)) : ns.foldl (convertToIdOnMatch k idAddr i) s = s := by
  induction ns with
  | nil => rfl
  | cons n ns ih =>
    rw [foldl_cons, convertToIdOnMatch_after hk hpointers (hns n (by simp))]
    exact ih fun m hm => hns m (by simp [hm])

theorem convertToIdOnMatch_self (h : s.Safe) (hk : s.conns[k]? = some c)
    (hi : s.key i = some (c.id, c.dst)) : convertToIdOnMatch k idAddr i s k = s.setDst k idAddr := by
  rw [convertToIdOnMatch_eq hk hk, if_pos rfl]
  cases hkeys : c.keys with
  | none => rfl
  | some j =>
    have hj : j = i := h.unique j i _ (h.pointers c (mem_of_getElem? hk) j hkeys) hi
    simp [hj]

/-- **The whole loop renames up to the connection that pairs.** -/
theorem resolveAddr_eq (h : s.Safe) (hk : s.conns[k]? = some c)
    (hi : s.key i = some (c.id, c.dst)) (hany : idAddr ≠ .any) (hne : idAddr ≠ c.dst)
    (hnew : ∀ d ∈ s.conns, d.dst = c.dst → Fresh s d.id idAddr) :
    ∃ s₁, Resolving k i c.id c.dst idAddr s s₁ ∧
      resolveAddr k idAddr i s = (s₁.setDst k idAddr).setAddr i idAddr := by
  have hlt : k < s.conns.length := (List.getElem?_eq_some_iff.1 hk).1
  have hres := (Resolving.refl h hi hk hnew).turns hany hne le_rfl
  refine ⟨_, hres, ?_⟩
  generalize hs₁ : (List.range k).foldl (convertToIdOnMatch k idAddr i) s = s₁ at hres
  obtain ⟨ck, hck, hckid, hckdst⟩ := hres.conn
  have hentry : s₁.key i = some (ck.id, ck.dst) := by
    rw [hckid, hckdst]
    exact hres.entry
  have hself : (s₁.setDst k idAddr).conns[k]? = some { ck with dst := idAddr } := by
    rw [setDst, getElem?_modify_eq, hck]
    rfl
  -- The turns: those before `k`, that of `k`, and the rest.
  obtain ⟨r, hr⟩ : ∃ r, s.conns.length = k + 1 + r := ⟨s.conns.length - (k + 1), by omega⟩
  have hrange : List.range s.conns.length =
      List.range k ++ k :: (List.range r).map (k + 1 + ·) := by
    rw [hr, range_add, range_succ, append_assoc]
    rfl
  have hfold : (List.range s.conns.length).foldl (convertToIdOnMatch k idAddr i) s =
      s₁.setDst k idAddr := by
    rw [hrange, foldl_append, hs₁, foldl_cons, convertToIdOnMatch_self hres.safe hck hentry]
    refine foldl_convertToIdOnMatch_after _ ?_ ⟨_, hself, rfl⟩ ?_
    · intro n hn
      obtain ⟨m, -, rfl⟩ := mem_map.1 hn
      omega
    · intro m d hmk hm j hj
      rcases get_setDst hm with ⟨heq, -⟩ | ⟨-, hm⟩
      · exact absurd heq hmk
      · exact hres.safe.pointers d (mem_of_getElem? hm) j hj
  rw [resolveAddr, hfold]
  rfl

/-- **Resolving an address keeps the pool well formed**, and the ages. -/
theorem resolveAddr_spec (h : s.Safe) (hk : s.conns[k]? = some c)
    (hi : s.key i = some (c.id, c.dst)) (hany : idAddr ≠ .any) (hne : idAddr ≠ c.dst)
    (hnew : ∀ d ∈ s.conns, d.dst = c.dst → Fresh s d.id idAddr) :
    (resolveAddr k idAddr i s).Safe ∧ Kept s (resolveAddr k idAddr i s) := by
  obtain ⟨s₁, hres, heq⟩ := resolveAddr_eq h hk hi hany hne hnew
  obtain ⟨ck, hck, hckid, hckdst⟩ := hres.conn
  have hentry : s₁.key i = some (ck.id, ck.dst) := by
    rw [hckid, hckdst]
    exact hres.entry
  rw [heq]
  refine ⟨hres.safe.rename hck hentry (hres.fresh ck (mem_of_getElem? hck) hckdst) hany, ?_⟩
  exact (hres.kept.trans (kept_conns s₁ _)).trans
    (kept_rename (s := s₁.setDst k idAddr) hentry hany)

/-! ## The identity address arrives -/

/-- **What a call keeps**: a well-formed pool and the order of the ages;
and an entry is evicted from a full pool only, the oldest one. -/
structure CallSpec (cfg : KeysCfg) (s : HostState) (stamp : ℕ → Stamp) (time : ℕ) (r : KeyRet) :
    Prop where
  safe : r.s.Safe
  aged : cfg.overwriteOldest = true → Aged s stamp time →
    Aged r.s (stampAll time stamp r.log) (time + 1)
  evicted : ∀ o, .evicted o ∈ r.log → s.oldest = some o ∧ s.pool.firstFree = none

theorem GetSpec.call {r : KeyRet} (h : GetSpec cfg s stamp time id addr r) :
    CallSpec cfg s stamp time r := ⟨h.safe, h.aged, h.evicted⟩

theorem CallSpec.kept {ret : Option ℕ} (hsafe : s'.Safe) (hkept : Kept s s') :
    CallSpec cfg s stamp time { s := s', ret := ret } where
  safe := hsafe
  aged := fun _ ha => (ha.kept hkept).mono (fun _ hj => ⟨hj, rfl⟩) le_rfl (Nat.le_succ _)
  evicted := fun _ h => absurd h (by simp)

theorem CallSpec.andThen {r r' : KeyRet} (h : CallSpec cfg s stamp time r) (hsafe : r'.s.Safe)
    (hkept : Kept r.s r'.s) (hlog : r'.log = r.log) : CallSpec cfg s stamp time r' where
  safe := hsafe
  aged := fun hcfg ha => hlog ▸ (h.aged hcfg ha).kept hkept
  evicted := fun o ho => h.evicted o (hlog ▸ ho)

/-- **What the replacement of a conflicting bond needs.** -/
def ReplaceOk (s : HostState) (i : ℕ) : Prop :=
  ∀ o ∈ s.pool.findConflict i, ∃ p, s.key o = some p ∧ UnpairOk s p.1 p.2

theorem smpIdAddReplace_spec (trustOk added : Bool) (h : s.Safe) (hok : ReplaceOk s i) :
    (smpIdAddReplace cfg i trustOk added s).1.Safe ∧
      Kept s (smpIdAddReplace cfg i trustOk added s).1 := by
  unfold smpIdAddReplace
  cases hc : s.pool.findConflict i with
  | none =>
    have hv := sameView_idAdd s i added
    exact ⟨h.sameView hv, hv.kept⟩
  | some o =>
    simp only
    split
    · exact ⟨h, .refl s⟩
    · split
      · exact ⟨h, .refl s⟩
      · obtain ⟨⟨pid, paddr⟩, hp, hunpair⟩ := hok o hc
        obtain ⟨hid, haddr⟩ := Prod.mk.inj (getD_of_key hp).2
        simp only [hid, haddr]
        have hv := sameView_idAdd (unpair cfg pid paddr s) i added
        exact ⟨(h.unpair hp hunpair).sameView hv, (kept_unpair h hp hunpair).trans hv.kept⟩

/-- **What the identity address needs.** It is a peer's; the entry it had
is not pointed to; the lookup of the connection's entry may create; where
the connection is renamed, no other connection has the address already,
nor an entry of another local identity; and the conflicting bond can be
unpaired. -/
structure IdentOk (cfg : KeysCfg) (env : IdentEnv) (s : HostState) (k : ℕ) (idAddr : Addr) (c : Conn) :
    Prop where
  any : idAddr ≠ .any
  clear : c.dst ≠ idAddr → ∀ i ∈ s.pool.findAddr c.id idAddr, s.NotPointed i
  get : ∀ s₁ ∈ identClear env c idAddr s, GetOk cfg s₁ c.id c.dst
  conns : c.dst.isIdentity = false → ∀ d ∈ s.conns, d.dst = c.dst →
    ∀ e ∈ s.conns, e.id = d.id → e.dst ≠ idAddr
  keys : c.dst.isIdentity = false → ∀ d ∈ s.conns, d.dst = c.dst → d.id ≠ c.id →
    ∀ j, s.key j ≠ some (d.id, idAddr)
  replace : ∀ s₁ ∈ identClear env c idAddr s, ∀ i ∈ (identResolve cfg k c idAddr s₁).ret,
    ReplaceOk (identResolve cfg k c idAddr s₁).s i

theorem identClear_cases {env : IdentEnv} (h : s' ∈ identClear env c idAddr s) :
    (s' = s ∧ (c.dst = idAddr ∨ s.pool.findAddr c.id idAddr = none)) ∨
      ∃ i, c.dst ≠ idAddr ∧ s.pool.findAddr c.id idAddr = some i ∧ s' = s.clear i := by
  unfold identClear at h
  split at h
  · exact .inl ⟨by simpa using h.symm, .inl ‹_›⟩
  · rename_i hdst
    cases hf : s.pool.findAddr c.id idAddr with
    | none =>
      rw [hf] at h
      exact .inl ⟨by simpa using h.symm, .inr rfl⟩
    | some i =>
      rw [hf] at h
      simp only [Option.mem_def] at h
      split at h
      · exact .inr ⟨i, hdst, rfl, by simpa using h.symm⟩
      · exact absurd h (by simp)

theorem identClear_spec {env : IdentEnv} (h : s.Safe) (hany : idAddr ≠ .any)
    (hclear : c.dst ≠ idAddr → ∀ i ∈ s.pool.findAddr c.id idAddr, s.NotPointed i)
    (hs' : s' ∈ identClear env c idAddr s) : s'.Safe ∧ Kept s s' ∧ s'.conns = s.conns ∧
      (c.dst ≠ idAddr → ∀ j, s'.key j ≠ some (c.id, idAddr)) ∧
      (∀ j, s'.key j ≠ none → s'.key j = s.key j) ∧ (s'.pool.firstFree = none → s' = s) := by
  rcases identClear_cases hs' with ⟨rfl, hor⟩ | ⟨i, hdst, hf, rfl⟩
  · refine ⟨h, .refl _, rfl, fun hdst j => ?_, fun _ _ => rfl, fun _ => rfl⟩
    exact key_ne_of_findAddr_none (hor.resolve_left hdst)
  · have hki := key_of_findAddr hany hf
    refine ⟨h.clear (hclear hdst i hf), kept_clear s i, rfl, fun _ j hj => ?_, fun j hj => ?_,
      fun hfull => ?_⟩
    · rw [key_clear] at hj
      split at hj
      · exact absurd hj (by simp)
      · exact ‹i ≠ j› (h.unique i j _ hki hj)
    · rw [key_clear] at hj ⊢
      split at hj
      · exact absurd rfl hj
      · rw [if_neg ‹_›]
    · have hlt : i < (s.clear i).pool.slots.length := by
        rw [HostState.clear, length_modify]
        exact lt_of_key hki
      refine absurd ?_ (key_ne_none_of_firstFree hfull hlt)
      rw [key_clear, if_pos rfl]

/-- **The entry of the connection takes the identity address.** -/
theorem identResolve_spec {env : IdentEnv} {s₁ : HostState} (h : s.Safe) (hk : s.conns[k]? = some c)
    (hident : idAddr.isIdentity = true) (hok : IdentOk cfg env s k idAddr c)
    (hs₁ : s₁ ∈ identClear env c idAddr s) (stamp : ℕ → Stamp) (time : ℕ) :
    CallSpec cfg s₁ stamp time (identResolve cfg k c idAddr s₁) := by
  obtain ⟨hsafe, -, hconns, hgone, hkeys, -⟩ := identClear_spec h hok.any hok.clear hs₁
  have hget := getType_spec .irk hsafe (hok.get s₁ hs₁) stamp time
  unfold identResolve
  simp only
  generalize getType cfg .irk c.id c.dst s₁ = r at hget ⊢
  cases hret : r.ret with
  | none => exact hget.call
  | some i =>
    simp only
    split
    · rename_i hcond
      simp only [Bool.and_eq_true, Bool.not_eq_eq_eq_not, Bool.not_true] at hcond
      have hne : idAddr ≠ c.dst := by
        rintro rfl
        rw [hident] at hcond
        exact absurd hcond.2 (by simp)
      -- The lookup kept the connections' addresses.
      have hlt : k < r.s.conns.length := by
        rw [hget.conns.length, hconns]
        exact (List.getElem?_eq_some_iff.1 hk).1
      obtain ⟨c₀, hc₀, hid, hdst, -, -⟩ := hget.conns.get k _ (getElem?_eq_getElem hlt)
      obtain rfl : c = c₀ := Option.some.inj (hk.symm.trans (hconns ▸ hc₀))
      have hback : ∀ d ∈ r.s.conns, ∃ e ∈ s.conns, e.id = d.id ∧ e.dst = d.dst := by
        intro d hd
        obtain ⟨n, hn⟩ := mem_iff_getElem?.1 hd
        obtain ⟨e, he, heid, hedst, -, -⟩ := hget.conns.get n d hn
        exact ⟨e, mem_of_getElem? (hconns ▸ he), heid.symm, hedst.symm⟩
      have hnew : ∀ d ∈ r.s.conns, d.dst = c.dst → Fresh r.s d.id idAddr := by
        intro d hd hddst
        obtain ⟨d₀, hd₀, hd₀id, hd₀dst⟩ := hback d hd
        refine ⟨fun e he heid => ?_, fun j hj => ?_⟩
        · obtain ⟨e₀, he₀, he₀id, he₀dst⟩ := hback e he
          rw [← he₀dst]
          exact hok.conns hcond.2 d₀ hd₀ (hd₀dst.trans hddst) e₀ he₀
            (he₀id.trans (heid.trans hd₀id.symm))
        · by_cases hji : r.ret = some j
          · have := hget.ret j hji
            rw [hj, Option.some.injEq, Prod.mk.injEq] at this
            exact hne this.2
          · have hj₁ := (hget.other j hji (by rw [hj]; simp)).1.symm.trans hj
            have hj₀ := (hkeys j (by rw [hj₁]; simp)).symm.trans hj₁
            by_cases hdid : d.id = c.id
            · exact hgone (Ne.symm hne) j (hdid ▸ hj₁)
            · refine hok.keys hcond.2 d₀ hd₀ (hd₀dst.trans hddst) (hd₀id ▸ hdid) j ?_
              rw [hd₀id]
              exact hj₀
      have hki : r.s.key i = some (r.s.conns[k].id, r.s.conns[k].dst) := by
        rw [hid, hdst]
        exact hget.ret i hret
      have hnew' : ∀ d ∈ r.s.conns, d.dst = r.s.conns[k].dst → Fresh r.s d.id idAddr := by
        rw [hdst]
        exact hnew
      obtain ⟨hsafe', hkept'⟩ := resolveAddr_spec hget.safe (getElem?_eq_getElem hlt) hki
        hok.any (by rw [hdst]; exact hne) hnew'
      exact hget.call.andThen hsafe' hkept' rfl
    · exact hget.call

/-- **`smp_ident_addr_info` keeps the pool well formed.** -/
theorem smpIdentAddrInfo_spec {env : IdentEnv} (h : s.Safe)
    (hok : ∀ c, s.conns[k]? = some c → IdentOk cfg env s k idAddr c) (stamp : ℕ → Stamp)
    (time : ℕ) : CallSpec cfg s stamp time (smpIdentAddrInfo cfg env k idAddr s) := by
  have hsame : CallSpec cfg s stamp time { s := s } := .kept h (.refl s)
  unfold smpIdentAddrInfo
  cases hk : s.conns[k]? with
  | none => exact hsame
  | some c =>
    simp only
    split
    · exact hsame
    · rename_i hident
      simp only [Bool.not_eq_eq_eq_not, Bool.not_true, Bool.not_eq_false] at hident
      cases hs₁ : identClear env c idAddr s with
      | none => exact hsame
      | some s₁ =>
        obtain ⟨hsafe, hkept, -, -, -, hfull⟩ :=
          identClear_spec h (hok c hk).any (hok c hk).clear hs₁
        simp only
        split
        · exact .kept hsafe hkept
        · have hres := identResolve_spec h hk hident (hok c hk) hs₁ stamp time
          have hrep := (hok c hk).replace s₁ hs₁
          generalize identResolve cfg k c idAddr s₁ = r at hres hrep ⊢
          -- An entry that was cleared leaves the pool with room.
          have hcall : CallSpec cfg s stamp time r := by
            refine ⟨hres.safe, fun hcfg ha => hres.aged hcfg (ha.kept hkept), fun o ho => ?_⟩
            obtain ⟨hold, hfirst⟩ := hres.evicted o ho
            rw [← hfull hfirst]
            exact ⟨hold, hfirst⟩
          cases hret : r.ret with
          | none => exact hcall
          | some i =>
            obtain ⟨hsafe', hkept'⟩ :=
              smpIdAddReplace_spec env.trustOk env.added hres.safe (hrep i hret)
            exact hcall.andThen hsafe' hkept' rfl

end Host

end OpenBlue

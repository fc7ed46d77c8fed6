import OpenBlue.Common.Run
import OpenBlue.Gatt.Model.Ccc
/-!
# GATT — subscriptions

What a CCC keeps over a run (`CccState.Inv`): an entry is of one peer,
which is bonded or connected, and the value of the CCC is the highest of
those of connected peers. The invariant is lost where the code claims an
entry before it asks the application, and where it leaves the value as it
was or recomputes it over peers that are not connected; `Settled` is the
condition on a step that excludes these.
-/

namespace OpenBlue

namespace Gatt

open List

open Host (Addr)

namespace CccState

variable {s s' : CccState} {c : Conn} {e : CccCfg} {k : ℕ}

/-! ## One entry of a table -/

theorem getElem?_set_of {α : Type*} {l : List α} {i : ℕ} {a : α} (hi : l[i]? = some a) (b : α)
    (j : ℕ) : (l.set i b)[j]? = if j = i then some b else l[j]? := by
  have hlt : i < l.length := (List.getElem?_eq_some_iff.1 hi).1
  rw [getElem?_set]
  by_cases hj : j = i
  · simp [hj, hlt]
  · simp [hj, Ne.symm hj]

theorem mem_set_of {α : Type*} {l : List α} {i : ℕ} {a : α} (hi : l[i]? = some a) {b x : α} :
    x ∈ l.set i b ↔ x = b ∨ ∃ j, j ≠ i ∧ l[j]? = some x := by
  simp only [mem_iff_getElem?, getElem?_set_of hi]
  constructor
  · rintro ⟨j, hj⟩
    by_cases h : j = i
    · rw [if_pos h] at hj
      exact .inl (Option.some.inj hj).symm
    · rw [if_neg h] at hj
      exact .inr ⟨j, h, hj⟩
  · rintro (rfl | ⟨j, h, hj⟩)
    · exact ⟨i, if_pos rfl⟩
    · exact ⟨j, (if_neg h).trans hj⟩

theorem modify_eq_set_of {α : Type*} {l : List α} {i : ℕ} {a : α} (hi : l[i]? = some a)
    (f : α → α) : l.modify i f = l.set i (f a) := by
  refine ext_getElem? fun j => ?_
  rw [getElem?_set_of hi, getElem?_modify]
  by_cases hj : j = i
  · subst hj
    simp [hi]
  · simp [hj, Ne.symm hj]

/-! ## Connection objects -/

theorem mem_objects : c ∈ s.objects ↔ ∃ k, s.conn k = some c := by
  simp only [objects, mem_filterMap, id, conn]
  constructor
  · rintro ⟨o, ho, rfl⟩
    obtain ⟨k, hk⟩ := mem_iff_getElem?.1 ho
    exact ⟨k, by rw [hk]; rfl⟩
  · rintro ⟨k, hk⟩
    refine ⟨some c, mem_iff_getElem?.2 ⟨k, ?_⟩, rfl⟩
    cases h : s.conns[k]? with
    | none => simp [h] at hk
    | some o =>
      rw [h] at hk
      exact congrArg some hk

theorem lt_of_conn (h : s.conn k = some c) : k < s.conns.length := by
  by_contra hk
  rw [conn, getElem?_eq_none (not_lt.1 hk)] at h
  exact absurd h (by simp)

theorem conn_setConn (o : Option Conn) (j : ℕ) :
    (s.setConn k o).conn j = if j = k ∧ k < s.conns.length then o else s.conn j := by
  simp only [conn, setConn, getElem?_set]
  by_cases hj : k = j
  · subst hj
    by_cases hk : k < s.conns.length
    · simp [hk]
    · simp [hk]
  · simp [hj, Ne.symm hj]

theorem conn_setConn_ne (o : Option Conn) {j : ℕ} (h : j ≠ k) :
    (s.setConn k o).conn j = s.conn j := by
  rw [conn_setConn, if_neg fun hc => h hc.1]

theorem conn_setConn_self (h : s.conn k = some c) (o : Option Conn) :
    (s.setConn k o).conn k = o := by
  rw [conn_setConn, if_pos ⟨rfl, lt_of_conn h⟩]

/-- The peer of an entry is connected. -/
def Live (s : CccState) (e : CccCfg) : Prop := ∃ c ∈ s.objects, c.attached ∧ c.owns e

instance (s : CccState) : DecidablePred s.Live := fun _ =>
  inferInstanceAs (Decidable (∃ c ∈ s.objects, _))

theorem live_iff : s.Live e ↔ ∃ k c, s.conn k = some c ∧ c.attached ∧ c.owns e := by
  simp only [Live, mem_objects]
  constructor
  · rintro ⟨c, ⟨k, hk⟩, h⟩
    exact ⟨k, c, hk, h⟩
  · rintro ⟨k, c, hk, h⟩
    exact ⟨c, ⟨k, hk⟩, h⟩

theorem lookup_isSome : (s.lookup e).isSome ↔ ∃ c ∈ s.objects, c.owns e := by
  simp [lookup, find?_isSome]

theorem Live.lookup (h : s.Live e) : (s.lookup e).isSome := by
  obtain ⟨c, hc, -, ho⟩ := h
  exact lookup_isSome.2 ⟨c, hc, ho⟩

/-! ## The summary value -/

/-- `v` is the highest value of a connected peer, 0 where there is none. -/
def IsSummary (s : CccState) (v : ℕ) : Prop :=
  (∀ e ∈ s.cfg, s.Live e → e.value ≤ v) ∧ (v = 0 ∨ ∃ e ∈ s.cfg, s.Live e ∧ e.value = v)

/-- No entry whose peer has a connection object, but no connection, tops
the values of connected peers. -/
def NoStale (s : CccState) : Prop :=
  ∀ e ∈ s.cfg, (s.lookup e).isSome → e.value ≠ 0 → ∃ e' ∈ s.cfg, s.Live e' ∧ e.value ≤ e'.value

instance (s : CccState) : Decidable s.NoStale :=
  inferInstanceAs (Decidable (∀ e ∈ s.cfg, _))

theorem cccMax_spec (s : CccState) : (∀ e ∈ s.cfg, (s.lookup e).isSome → e.value ≤ s.cccMax) ∧
      (s.cccMax = 0 ∨ ∃ e ∈ s.cfg, (s.lookup e).isSome ∧ e.value = s.cccMax) := by
  suffices h : ∀ (l : List CccCfg) (v : ℕ), let m := l.foldl (fun value e =>
        if (s.lookup e).isSome ∧ value < e.value then e.value else value) v
      v ≤ m ∧ (∀ e ∈ l, (s.lookup e).isSome → e.value ≤ m) ∧
        (m = v ∨ ∃ e ∈ l, (s.lookup e).isSome ∧ e.value = m) by
    obtain ⟨-, h₁, h₂⟩ := h s.cfg 0
    exact ⟨h₁, h₂⟩
  intro l
  induction l with
  | nil => simp
  | cons e l ih =>
    intro v
    simp only [foldl_cons, mem_cons, forall_eq_or_imp, exists_eq_or_imp]
    obtain ⟨hv, hall, hex⟩ := ih (if (s.lookup e).isSome ∧ v < e.value then e.value else v)
    refine ⟨le_trans (by split <;> omega) hv, ⟨fun hs => le_trans ?_ hv, hall⟩, ?_⟩
    · split
      next => exact le_rfl
      next hn => exact not_lt.1 fun hlt => hn ⟨hs, hlt⟩
    · rcases hex with hex | hex
      · rw [hex]
        split
        next hc => exact .inr (.inl ⟨hc.1, rfl⟩)
        next => exact .inl rfl
      · exact .inr (.inr hex)

theorem NoStale.isSummary (h : s.NoStale) : s.IsSummary s.cccMax := by
  obtain ⟨hall, hex⟩ := cccMax_spec s
  refine ⟨fun e he hl => hall e he hl.lookup, ?_⟩
  by_cases hz : s.cccMax = 0
  · exact .inl hz
  · obtain ⟨e, he, hs, hv⟩ := hex.resolve_left hz
    obtain ⟨e', he', hl, hle⟩ := h e he hs (hv ▸ hz)
    have hle' := hall e' he' hl.lookup
    exact .inr ⟨e', he', hl, by omega⟩

/-! ## The invariant -/

/-- **What a run keeps**, up to the values in the entries of `hole`: an
entry is free or of a peer that is bonded or connected and has a value,
no two are of one peer, and the summary is that of connected peers. -/
structure InvBut (hole : ℕ → Prop) (s : CccState) : Prop where
  used : ∀ (i : ℕ) (e : CccCfg), s.cfg[i]? = some e → ¬ hole i → e = {} ∨ e.value ≠ 0 ∧ e.peer ≠ .any
  one : ∀ (i j : ℕ) (e e' : CccCfg), s.cfg[i]? = some e → s.cfg[j]? = some e' → e.peer ≠ .any →
    e.id = e'.id → e.peer = e'.peer → i = j
  owned : ∀ e ∈ s.cfg, e.peer ≠ .any → (e.id, e.peer) ∈ s.bonds ∨ s.Live e
  apart : ∀ k k' c c', s.conn k = some c → s.conn k' = some c' → c.attached → c'.attached →
    c'.isPeer c.id c.dst ∨ c'.isPeer c.id c.onAir → k = k'
  addressed : ∀ k c, s.conn k = some c → c.attached → c.dst ≠ .any ∧ c.onAir ≠ .any
  linked : ∀ k c, s.conn k = some c → c.connected → c.attached
  summary : s.IsSummary s.value

/-- The invariant of a run. -/
def Inv : CccState → Prop := InvBut fun _ => False

variable {hole : ℕ → Prop}

theorem Conn.owns_iff {c : Conn} {e : CccCfg} :
    c.owns e ↔ c.id = e.id ∧ (e.peer = c.dst ∨ e.peer = c.onAir) := by
  simp [Conn.owns, Conn.isPeer]

theorem InvBut.peer_of_owns (h : InvBut hole s) (hk : s.conn k = some c) (hc : c.attached)
    (ho : c.owns e) : e.peer ≠ .any := by
  obtain ⟨hd, ha⟩ := h.addressed k c hk hc
  rcases (Conn.owns_iff.1 ho).2 with h | h
  · exact h ▸ hd
  · exact h ▸ ha

theorem Inv.value_of_owns (h : s.Inv) (hk : s.conn k = some c) (hc : c.attached) (he : e ∈ s.cfg)
    (ho : c.owns e) : e.value ≠ 0 := by
  obtain ⟨i, hi⟩ := mem_iff_getElem?.1 he
  rcases h.used i e hi not_false with rfl | hv
  · exact absurd rfl (h.peer_of_owns hk hc ho)
  · exact hv.1

theorem live_of_owns (hk : s.conn k = some c) (hc : c.attached) (ho : c.owns e) : s.Live e :=
  live_iff.2 ⟨k, c, hk, hc, ho⟩

theorem Inv.of_conns (h : s.Inv) (hcfg : s'.cfg = s.cfg) (hvalue : s'.value = s.value)
    (hbonds : s'.bonds = s.bonds) (hconn : ∀ k c', s'.conn k = some c' → c'.attached →
      ∃ c, s.conn k = some c ∧ c.attached ∧ c.id = c'.id ∧ c.dst = c'.dst ∧ c.onAir = c'.onAir)
    (hback : ∀ k c, s.conn k = some c → c.attached →
      ∃ c', s'.conn k = some c' ∧ c'.attached ∧ c'.id = c.id ∧ c'.dst = c.dst ∧ c'.onAir = c.onAir)
    (hlinked : ∀ k c', s'.conn k = some c' → c'.connected → c'.attached) : s'.Inv := by
  have hlive : ∀ e, s'.Live e ↔ s.Live e := by
    intro e
    simp only [live_iff, Conn.owns_iff]
    constructor
    · rintro ⟨k, c', hk, hc, ho⟩
      obtain ⟨c, hk', hc', hid, hdst, hair⟩ := hconn k c' hk hc
      exact ⟨k, c, hk', hc', by rwa [hid, hdst, hair]⟩
    · rintro ⟨k, c, hk, hc, ho⟩
      obtain ⟨c', hk', hc', hid, hdst, hair⟩ := hback k c hk hc
      exact ⟨k, c', hk', hc', by rwa [hid, hdst, hair]⟩
  refine ⟨by rw [hcfg]; exact h.used, by rw [hcfg]; exact h.one, ?_, ?_, ?_, hlinked, ?_⟩
  · intro e he hp
    rw [hbonds, hlive]
    exact h.owned e (hcfg ▸ he) hp
  · intro k k' c c' hk hk' hc hc' hor
    obtain ⟨d, hd, hda, hid, hdst, hair⟩ := hconn k c hk hc
    obtain ⟨d', hd', hda', hid', hdst', hair'⟩ := hconn k' c' hk' hc'
    refine h.apart k k' d d' hd hd' hda hda' ?_
    simp only [Conn.isPeer] at hor ⊢
    rwa [hid, hdst, hair, hid', hdst', hair']
  · intro k c hk hc
    obtain ⟨d, hd, hda, -, hdst, hair⟩ := hconn k c hk hc
    rw [← hdst, ← hair]
    exact h.addressed k d hd hda
  · obtain ⟨hall, hex⟩ := h.summary
    rw [IsSummary, hvalue, hcfg]
    simp only [hlive]
    exact ⟨hall, hex⟩

/-! ## Writes -/

/-- The write reaches `cfg_write` on an entry of its own, or on a free
one it claims. -/
def Reaches (s : CccState) (c : Conn) (buf : List UInt8) (offset : ℕ) : Prop :=
  offset = 0 ∧ buf.length ≠ 0 ∧ buf.length ≤ 2 ∧
    ((s.findCccCfg c).isSome ∨ written buf ≠ 0 ∧ s.findFree.isSome)

/-- A rejected write claims no entry, and a new value is not below that
of a peer with an object but no connection. -/
def WriteSettled (s : CccState) (c : Conn) (buf : List UInt8) (offset : ℕ)
    (cfgWrite : Option ℤ) : Prop :=
  s.Reaches c buf offset →
    ((s.findCccCfg c).isNone → verdict cfgWrite = none) ∧
    (verdict cfgWrite = none → written buf ≠ s.value → ∀ e ∈ s.cfg, (s.lookup e).isSome →
      ¬ c.owns e → e.value ≠ 0 → e.value ≤ written buf ∨
        ∃ e' ∈ s.cfg, s.Live e' ∧ ¬ c.owns e' ∧ e.value ≤ e'.value)

instance (s : CccState) (c : Conn) (buf : List UInt8) (offset : ℕ) (cfgWrite : Option ℤ) :
    Decidable (s.WriteSettled c buf offset cfgWrite) :=
  inferInstanceAs (Decidable ((_ ∧ _ ∧ _ ∧ (_ ∨ _ ∧ _)) → (_ → _) ∧ (_ → _ → ∀ e ∈ s.cfg, _)))

theorem findCccCfg_some {i : ℕ} (h : s.findCccCfg c = some i) :
    ∃ e, s.cfg[i]? = some e ∧ c.owns e := by
  obtain ⟨hi, ho, -⟩ := findIdx?_eq_some_iff_getElem.1 h
  exact ⟨s.cfg[i], getElem?_eq_getElem hi, ho⟩

theorem findCccCfg_none (h : s.findCccCfg c = none) (he : e ∈ s.cfg) : ¬ c.owns e := by
  have := findIdx?_eq_none_iff.1 h e he
  simpa using this

theorem findFree_some {i : ℕ} (h : s.findFree = some i) :
    ∃ e, s.cfg[i]? = some e ∧ e.peer = .any := by
  obtain ⟨hi, ho, -⟩ := findIdx?_eq_some_iff_getElem.1 h
  exact ⟨s.cfg[i], getElem?_eq_getElem hi, by simpa using ho⟩

/-- The entries of `s'` are those of `s` with the one at `i` replaced; the
rest is the same, the summary apart. -/
structure Replaced (s s' : CccState) (i : ℕ) (b : CccCfg) : Prop where
  cfg : s'.cfg = s.cfg.set i b
  conns : s'.conns = s.conns
  bonds : s'.bonds = s.bonds

theorem Replaced.live {i : ℕ} {b : CccCfg} (h : Replaced s s' i b) : s'.Live = s.Live := by
  funext e
  simp only [Live, objects, h.conns]

theorem Replaced.conn {i : ℕ} {b : CccCfg} (h : Replaced s s' i b) (k : ℕ) :
    s'.conn k = s.conn k := by
  simp only [CccState.conn, h.conns]

theorem InvBut.replaced {i : ℕ} {a b : CccCfg} (h : InvBut hole s) (hr : Replaced s s' i b)
    (hi : s.cfg[i]? = some a) (hole' : ℕ → Prop) (hused : ∀ j, ¬ hole' j → j ≠ i → ¬ hole j)
    (hb : ¬ hole' i → b = {} ∨ b.value ≠ 0 ∧ b.peer ≠ .any)
    (hone : b.peer ≠ .any → ∀ j e, j ≠ i → s.cfg[j]? = some e → ¬ (e.id = b.id ∧ e.peer = b.peer))
    (howned : b.peer ≠ .any → s.Live b) (hsum : s'.IsSummary s'.value) : InvBut hole' s' := by
  have hget := getElem?_set_of hi b
  refine ⟨?_, ?_, ?_, ?_, ?_, ?_, hsum⟩
  · intro j e hj hn
    rw [hr.cfg, hget] at hj
    by_cases hji : j = i
    · rw [if_pos hji] at hj
      cases hj
      exact hb (hji ▸ hn)
    · rw [if_neg hji] at hj
      exact h.used j e hj (hused j hn hji)
  · intro j j' e e' hj hj' hp hid hpeer
    rw [hr.cfg, hget] at hj hj'
    by_cases hji : j = i
    · rw [if_pos hji] at hj
      cases hj
      by_cases hji' : j' = i
      · exact hji.trans hji'.symm
      · rw [if_neg hji'] at hj'
        exact absurd ⟨hid.symm, hpeer.symm⟩ (hone hp j' e' hji' hj')
    · rw [if_neg hji] at hj
      by_cases hji' : j' = i
      · rw [if_pos hji'] at hj'
        cases hj'
        exact absurd ⟨hid, hpeer⟩ (hone (hpeer ▸ hp) j e hji hj)
      · rw [if_neg hji'] at hj'
        exact h.one j j' e e' hj hj' hp hid hpeer
  · intro e he hp
    rw [hr.bonds, hr.live]
    rw [hr.cfg, mem_set_of hi] at he
    rcases he with rfl | ⟨j, -, hj⟩
    · exact .inr (howned hp)
    · exact h.owned e (mem_of_getElem? hj) hp
  · intro k k' c c' hk hk'
    rw [hr.conn] at hk hk'
    exact h.apart k k' c c' hk hk'
  · intro k c hk
    rw [hr.conn] at hk
    exact h.addressed k c hk
  · intro k c hk
    rw [hr.conn] at hk
    exact h.linked k c hk

theorem InvBut.imp {hole' : ℕ → Prop} (h : InvBut hole s) (hh : ∀ j, hole j → hole' j) :
    InvBut hole' s :=
  { h with used := fun i e hi hn => h.used i e hi fun hj => hn (hh i hj) }

theorem InvBut.isSummary_written {i : ℕ} {a b : CccCfg} (h : InvBut hole s)
    (hi : s.cfg[i]? = some a) (hr : Replaced s s' i b) (hv : s'.value = s.value)
    (hlive : s.Live b) (hsame : ∀ e : CccCfg, c.owns e → s.Live e)
    (howns : c.owns a) (hstale : b.value ≠ s.value → ∀ e ∈ s.cfg, (s.lookup e).isSome →
      ¬ c.owns e → e.value ≠ 0 → e.value ≤ b.value ∨
        ∃ e' ∈ s.cfg, s.Live e' ∧ ¬ c.owns e' ∧ e.value ≤ e'.value) :
    s'.IsSummary (if b.value ≠ s'.value then s'.cccMax else s'.value) := by
  have hmem : ∀ e, e ∈ s'.cfg ↔ e = b ∨ ∃ j, j ≠ i ∧ s.cfg[j]? = some e := by
    intro e
    rw [hr.cfg]
    exact mem_set_of hi
  rw [hv]
  split
  next hne =>
    refine NoStale.isSummary fun e he hs hz => ?_
    rw [hr.live]
    rcases (hmem e).1 he with rfl | ⟨j, hj, hje⟩
    · exact ⟨e, he, hlive, le_rfl⟩
    · by_cases ho : c.owns e
      · exact ⟨e, he, hsame e ho, le_rfl⟩
      · have hs' : (s.lookup e).isSome := by
          simpa only [CccState.lookup, objects, hr.conns] using hs
        rcases hstale hne e (mem_of_getElem? hje) hs' ho hz with hle | ⟨e', he', hl, hn, hle⟩
        · exact ⟨b, (hmem b).2 (.inl rfl), hlive, hle⟩
        · obtain ⟨j', hj'⟩ := mem_iff_getElem?.1 he'
          have hji : j' ≠ i := by
            rintro rfl
            exact hn (Option.mem_unique hi hj' ▸ howns)
          exact ⟨e', (hmem e').2 (.inr ⟨j', hji, hj'⟩), hl, hle⟩
  next heq =>
    have heq : b.value = s.value := not_not.1 heq
    refine ⟨fun e he hl => ?_, .inr ⟨b, (hmem b).2 (.inl rfl), hr.live ▸ hlive, heq⟩⟩
    rw [hr.live] at hl
    rcases (hmem e).1 he with rfl | ⟨j, -, hje⟩
    · exact heq.le
    · exact h.summary.1 e (mem_of_getElem? hje) hl

/-- **An accepted write** on an entry of a connected peer keeps the
invariant. -/
theorem InvBut.storeValue {i value len : ℕ} {a : CccCfg} {cfgWrite : Option ℤ}
    (h : InvBut (· = i) s) (hk : s.conn k = some c) (hc : c.attached)
    (hi : s.cfg[i]? = some a) (ho : c.owns a) (hacc : verdict cfgWrite = none)
    (hstale : value ≠ s.value → ∀ e ∈ s.cfg, (s.lookup e).isSome → ¬ c.owns e → e.value ≠ 0 →
      e.value ≤ value ∨ ∃ e' ∈ s.cfg, s.Live e' ∧ ¬ c.owns e' ∧ e.value ≤ e'.value) :
    (s.storeValue i value len cfgWrite).1.Inv := by
  obtain ⟨b, hb⟩ : ∃ b : CccCfg, b = { a with value := value } := ⟨_, rfl⟩
  have hbo : c.owns b := by simpa [hb, Conn.owns] using ho
  have hlive := live_of_owns hk hc hbo
  obtain ⟨s₁, hs₁⟩ : ∃ s₁, s₁ = { s with cfg := s.cfg.set i b } := ⟨_, rfl⟩
  have hr₁ : Replaced s s₁ i b := by subst hs₁; exact ⟨rfl, rfl, rfl⟩
  have hsum := h.isSummary_written hi hr₁ (by rw [hs₁]) hlive
    (fun e he => live_of_owns hk hc he) ho (by rw [hb]; exact hstale)
  obtain ⟨s₂, hs₂⟩ : ∃ s₂, s₂ = if value ≠ s₁.value then s₁.cccChanged else s₁ := ⟨_, rfl⟩
  have hcfg₂ : s₂.cfg = s₁.cfg := by rw [hs₂]; split <;> rfl
  have hconns₂ : s₂.conns = s₁.conns := by rw [hs₂]; split <;> rfl
  have hr₂ : Replaced s s₂ i b :=
    ⟨hcfg₂.trans hr₁.cfg, hconns₂.trans hr₁.conns, by rw [hs₂]; split <;> exact hr₁.bonds⟩
  have hsum₂ : s₂.IsSummary s₂.value := by
    have hval : s₂.value = if b.value ≠ s₁.value then s₁.cccMax else s₁.value := by
      rw [hs₂, hb]
      split <;> rfl
    have hlv : s₂.Live = s₁.Live := hr₂.live.trans hr₁.live.symm
    rw [hval, IsSummary, hcfg₂, hlv]
    exact hsum
  have hp : b.peer = a.peer := by rw [hb]
  have hid : b.id = a.id := by rw [hb]
  have hinv₂ : InvBut (fun j => j = i ∧ value = 0) s₂ := by
    refine h.replaced hr₂ hi _ (fun j _ hj => hj) (fun hn => .inr ⟨?_, ?_⟩) ?_ (fun _ => hlive) hsum₂
    · rw [hb]
      exact fun hz => hn ⟨rfl, hz⟩
    · exact h.peer_of_owns hk hc hbo
    · rintro hpb j e hji hje ⟨h₁, h₂⟩
      exact hji (h.one j i e a hje hi (h₂ ▸ hpb) (h₁.trans hid) (h₂.trans hp))
  have heq : s.storeValue i value len cfgWrite =
      (if value = 0 then { s₂ with cfg := s₂.cfg.set i {} } else s₂, (len : ℤ)) := by
    rw [CccState.storeValue, hacc]
    dsimp only
    rw [modify_eq_set_of hi, hs₂, hs₁, hb]
  rw [heq]
  dsimp only
  split
  next hz =>
    have hi₂ : s₂.cfg[i]? = some b := by rw [hr₂.cfg, getElem?_set_of hi, if_pos rfl]
    have hr₃ : Replaced s₂ { s₂ with cfg := s₂.cfg.set i {} } i {} := ⟨rfl, rfl, rfl⟩
    refine hinv₂.replaced hr₃ hi₂ _ (fun j _ hj hh => hj hh.1)
      (fun _ => .inl rfl) (fun hn => absurd rfl hn) (fun hn => absurd rfl hn) ?_
    obtain ⟨hall, hex⟩ := hsum₂
    have hmem := fun e => mem_set_of (x := e) (b := ({} : CccCfg)) hi₂
    refine ⟨fun e he hl => ?_, ?_⟩
    · rcases (hmem e).1 he with rfl | ⟨j, -, hj⟩
      · exact Nat.zero_le _
      · exact hall e (mem_of_getElem? hj) hl
    · rcases hex with hex | ⟨e, he, hl, hv⟩
      · exact .inl hex
      · obtain ⟨j, hj⟩ := mem_iff_getElem?.1 he
        by_cases hji : j = i
        · -- the entry that is cleared held 0
          have hbe : b = e := by
            rw [hji, hi₂] at hj
            exact Option.some.inj hj
          have hbz : b.value = 0 := by rw [hb]; exact hz
          exact .inl (hv.symm.trans (hbe ▸ hbz))
        · exact .inr ⟨e, (hmem e).2 (.inr ⟨j, hji, hj⟩), hl, hv⟩
  next hz => exact hinv₂.imp fun j hj => hz hj.2

/-- **A write that meets the condition** keeps the invariant, and leaves
the entries as they were where it is rejected. -/
theorem Inv.writeCcc {buf : List UInt8} {offset : ℕ} {cfgWrite : Option ℤ} (h : s.Inv)
    (hk : s.conn k = some c) (hc : c.attached) (hw : s.WriteSettled c buf offset cfgWrite) :
    (s.writeCcc c buf offset cfgWrite).1.Inv ∧ ((s.writeCcc c buf offset cfgWrite).2 < 0 →
        (s.writeCcc c buf offset cfgWrite).1.cfg = s.cfg) := by
  unfold CccState.writeCcc
  split
  next => exact ⟨h, fun _ => rfl⟩
  next hoff =>
  split
  next => exact ⟨h, fun _ => rfl⟩
  next hlen =>
  have hreach : ((s.findCccCfg c).isSome ∨ written buf ≠ 0 ∧ s.findFree.isSome) →
      s.Reaches c buf offset := fun hor => ⟨not_not.1 hoff, by omega, by omega, hor⟩
  -- a rejected verdict leaves the state alone
  have hreject : ∀ (s₀ : CccState) (i value len : ℕ), verdict cfgWrite ≠ none →
      s₀.storeValue i value len cfgWrite = (s₀, (verdict cfgWrite).getD 0) := by
    intro s₀ i value len hv
    obtain ⟨err, herr⟩ := Option.ne_none_iff_exists'.1 hv
    rw [storeValue, herr]
    rfl
  have haccept : ∀ (s₀ : CccState) (i value len : ℕ), verdict cfgWrite = none →
      0 ≤ (s₀.storeValue i value len cfgWrite).2 := by
    intro s₀ i value len hv
    rw [storeValue, hv]
    exact Int.natCast_nonneg _
  split
  next i hfind =>
    obtain ⟨a, hi, ho⟩ := findCccCfg_some hfind
    obtain ⟨-, hstale⟩ := hw (hreach (.inl (by rw [hfind]; rfl)))
    by_cases hv : verdict cfgWrite = none
    · exact ⟨(h.imp fun _ => False.elim).storeValue hk hc hi ho hv (hstale hv),
        fun hneg => absurd hneg (not_lt.2 (haccept _ _ _ _ hv))⟩
    · rw [hreject _ _ _ _ hv]
      exact ⟨h, fun _ => rfl⟩
  next hfind =>
    split
    next => exact ⟨h, fun _ => rfl⟩
    next hz =>
    split
    next => exact ⟨h, fun _ => rfl⟩
    next i hfree =>
    obtain ⟨hclaim, hstale⟩ := hw (hreach (.inr ⟨hz, by rw [hfree]; rfl⟩))
    have hv := hclaim (by rw [hfind]; rfl)
    obtain ⟨a, hi, hany⟩ := findFree_some hfree
    refine ⟨?_, fun hneg => absurd hneg (not_lt.2 (haccept _ _ _ _ hv))⟩
    -- the free entry, claimed for the peer, holds no value yet
    obtain ⟨b, hb⟩ : ∃ b : CccCfg, b = { a with id := c.id, peer := c.dst } := ⟨_, rfl⟩
    have hbo : c.owns b := by rw [hb]; exact Conn.owns_iff.2 ⟨rfl, .inl rfl⟩
    have ha : a = {} := by
      rcases h.used i a hi not_false with ha | ha
      · exact ha
      · exact absurd hany ha.2
    obtain ⟨s₀, hs₀⟩ : ∃ s₀, s₀ = { s with cfg := s.cfg.set i b } := ⟨_, rfl⟩
    have hr : Replaced s s₀ i b := by subst hs₀; exact ⟨rfl, rfl, rfl⟩
    have hbz : b.value = 0 := by rw [hb, ha]
    have hget := getElem?_set_of hi b
    have hmem := fun e => mem_set_of (x := e) (b := b) hi
    have hcfg : s₀.cfg = s.cfg.set i b := hr.cfg
    have hinv : InvBut (· = i) s₀ := by
      refine h.replaced hr hi _ (fun j _ _ hf => hf) (fun hn => absurd rfl hn) ?_
        (fun _ => live_of_owns hk hc hbo) ?_
      · rintro - j e - hje ⟨h₁, h₂⟩
        refine findCccCfg_none hfind (mem_of_getElem? hje) ?_
        rw [hb] at h₁ h₂
        exact Conn.owns_iff.2 ⟨h₁.symm, .inl h₂⟩
      · obtain ⟨hall, hex⟩ := h.summary
        have hval : s₀.value = s.value := by rw [hs₀]
        rw [IsSummary, hval, hr.live, hcfg]
        refine ⟨fun e he hl => ?_, hex.imp_right ?_⟩
        · rcases (hmem e).1 he with rfl | ⟨j, -, hj⟩
          · exact hbz ▸ Nat.zero_le _
          · exact hall e (mem_of_getElem? hj) hl
        · rintro ⟨e, he, hl, hev⟩
          obtain ⟨j, hj⟩ := mem_iff_getElem?.1 he
          refine ⟨e, (hmem e).2 (.inr ⟨j, ?_, hj⟩), hl, hev⟩
          rintro rfl
          obtain ⟨k', c', hk', hc', ho'⟩ := live_iff.1 hl
          exact h.peer_of_owns hk' hc' ho' (Option.mem_unique hi hj ▸ hany)
    have hi₀ : s₀.cfg[i]? = some b := by rw [hcfg, hget, if_pos rfl]
    have hconn₀ : s₀.conn k = some c := by rw [hr.conn]; exact hk
    have hset : { s with cfg := s.cfg.modify i ({ · with id := c.id, peer := c.dst }) } = s₀ := by
      rw [modify_eq_set_of hi, hs₀, hb]
    rw [hset]
    refine hinv.storeValue hconn₀ hc hi₀ hbo hv fun hne e he hs hno hez => ?_
    have hval : s₀.value = s.value := by rw [hs₀]
    rw [hcfg] at he
    rcases (hmem e).1 he with rfl | ⟨j, hj, hje⟩
    · exact absurd hbo hno
    · have hs' : (s.lookup e).isSome := by
        simpa only [CccState.lookup, objects, hr.conns] using hs
      rcases hstale hv (hval ▸ hne) e (mem_of_getElem? hje) hs' hno hez with
        hle | ⟨e', he', hl, hno', hle⟩
      · exact .inl hle
      · obtain ⟨j', hj'⟩ := mem_iff_getElem?.1 he'
        refine .inr ⟨e', ?_, by rw [hr.live]; exact hl, hno', hle⟩
        rw [hcfg]
        refine (hmem e').2 (.inr ⟨j', ?_, hj'⟩)
        rintro rfl
        obtain ⟨k', c', hk', hc', ho'⟩ := live_iff.1 hl
        exact h.peer_of_owns hk' hc' ho' (Option.mem_unique hi hj' ▸ hany)

/-! ## Connections and bonds -/

/-- The connection `update_ccc` is called for has an entry to count. -/
def Counts (s : CccState) (c : Conn) : Prop := ∃ e ∈ s.cfg, e.value ≠ 0 ∧ c.owns e

instance (s : CccState) (c : Conn) : Decidable (s.Counts c) :=
  inferInstanceAs (Decidable (∃ e ∈ s.cfg, _))

theorem InvBut.cccChanged (h : InvBut hole s') (hs : s.IsSummary s.cccMax) (hcfg : s'.cfg = s.cfg)
    (hconns : s'.conns = s.conns) (hbonds : s'.bonds = s.bonds) : InvBut hole s.cccChanged := by
  have hlive : s'.Live = s.Live := by
    funext e
    simp only [Live, objects, hconns]
  have hconn : ∀ k, s'.conn k = s.conn k := fun k => by simp only [conn, hconns]
  refine ⟨fun i e hi => h.used i e (hcfg ▸ hi), fun i j e e' hi hj => ?_, fun e he hp => ?_,
    fun k k' c c' hk hk' => ?_, fun k c hk => ?_, fun k c hk => ?_, hs⟩
  · exact h.one i j e e' (hcfg ▸ hi) (hcfg ▸ hj)
  · have ho := h.owned e (hcfg ▸ he) hp
    rw [hlive, hbonds] at ho
    exact ho
  · exact h.apart k k' c c' ((hconn k).trans hk) ((hconn k').trans hk')
  · exact h.addressed k c ((hconn k).trans hk)
  · exact h.linked k c ((hconn k).trans hk)

theorem Inv.updateCcc (h : s.Inv) (c : Conn) (allowed : Bool) (hs : s.Counts c → allowed → s.NoStale) :
    (s.updateCcc c allowed).Inv := by
  unfold CccState.updateCcc
  split
  next hc =>
    simp only [Bool.and_eq_true, any_eq_true, bne_iff_ne, ne_eq] at hc
    exact InvBut.cccChanged h (hs hc.1 hc.2).isSummary rfl rfl rfl
  next => exact h

theorem isPeer_comm {c c' : Conn} (h : c'.isPeer c.id c.dst ∨ c'.isPeer c.id c.onAir) :
    c.isPeer c'.id c'.dst ∨ c.isPeer c'.id c'.onAir := by
  simp only [Conn.isPeer, Bool.and_eq_true, Bool.or_eq_true, beq_iff_eq] at h ⊢
  rcases h with ⟨hid, h | h⟩ | ⟨hid, h | h⟩
  · exact .inl ⟨hid.symm, .inl h.symm⟩
  · exact .inr ⟨hid.symm, .inl h.symm⟩
  · exact .inl ⟨hid.symm, .inr h.symm⟩
  · exact .inr ⟨hid.symm, .inr h.symm⟩

/-- **A connection of a peer that has no other** keeps the invariant,
where its entries are counted or already covered by the summary. -/
theorem Inv.connected {c : Conn} (h : s.Inv) (c' : Conn) (allowed : Bool) (hk : s.conn k = some c)
    (hc : ¬ c.attached) (hc' : c'.attached) (hun : s.Unused c'.id c'.dst ∧ s.Unused c'.id c'.onAir)
    (hany : c'.dst ≠ .any ∧ c'.onAir ≠ .any)
    (hs : (s.setConn k (some c')).Counts c' → if allowed then (s.setConn k (some c')).NoStale
      else ∀ e ∈ s.cfg, c'.owns e → e.value ≤ s.value) :
    ((s.setConn k (some c')).updateCcc c' allowed).Inv := by
  have hconn : ∀ j d, (s.setConn k (some c')).conn j = some d →
      j = k ∧ d = c' ∨ j ≠ k ∧ s.conn j = some d := by
    intro j d hj
    by_cases hjk : j = k
    · subst hjk
      rw [conn_setConn_self hk] at hj
      exact .inl ⟨rfl, (Option.some.inj hj).symm⟩
    · rw [conn_setConn_ne _ hjk] at hj
      exact .inr ⟨hjk, hj⟩
  have hlive : ∀ e, (s.setConn k (some c')).Live e ↔ s.Live e ∨ c'.owns e := by
    intro e
    rw [live_iff, live_iff]
    constructor
    · rintro ⟨j, d, hj, hd, ho⟩
      rcases hconn j d hj with ⟨-, rfl⟩ | ⟨-, hj⟩
      · exact .inr ho
      · exact .inl ⟨j, d, hj, hd, ho⟩
    · rintro (⟨j, d, hj, hd, ho⟩ | ho)
      · refine ⟨j, d, ?_, hd, ho⟩
        rw [conn_setConn_ne _ fun hjk => ?_, hj]
        subst hjk
        rw [hk] at hj
        exact hc (Option.some.inj hj ▸ hd)
      · exact ⟨k, c', conn_setConn_self hk _, hc', ho⟩
  have happ : ∀ j d, s.conn j = some d → d.attached →
      ¬ (d.isPeer c'.id c'.dst ∨ d.isPeer c'.id c'.onAir) := by
    intro j d hj hd hor
    have hmem := mem_objects.2 ⟨j, hj⟩
    exact hor.elim (hun.1 d hmem hd) (hun.2 d hmem hd)
  have hcore : ∀ v, (s.setConn k (some c')).IsSummary v →
      Inv { s.setConn k (some c') with value := v } := by
    intro v hv
    refine ⟨h.used, h.one, fun e he hp => (h.owned e he hp).imp_right fun hl => (hlive e).2 (.inl hl),
      ?_, ?_, ?_, hv⟩
    · intro j j' d d' hj hj' hd hd' hor
      rcases hconn j d hj with ⟨rfl, rfl⟩ | ⟨-, hjo⟩ <;>
        rcases hconn j' d' hj' with ⟨rfl, rfl⟩ | ⟨-, hjo'⟩
      · rfl
      · exact absurd hor (happ j' d' hjo' hd')
      · exact absurd (isPeer_comm hor) (happ j d hjo hd)
      · exact h.apart j j' d d' hjo hjo' hd hd' hor
    · intro j d hj hd
      rcases hconn j d hj with ⟨-, rfl⟩ | ⟨-, hj⟩
      · exact hany
      · exact h.addressed j d hj hd
    · intro j d hj hd
      rcases hconn j d hj with ⟨-, rfl⟩ | ⟨-, hj⟩
      · exact hc'
      · exact h.linked j d hj hd
  unfold CccState.updateCcc
  split
  next hcount =>
    simp only [Bool.and_eq_true, any_eq_true, bne_iff_ne, ne_eq] at hcount
    have hst := hs hcount.1
    rw [if_pos hcount.2] at hst
    exact hcore _ hst.isSummary
  next hcount =>
    obtain ⟨hall, hex⟩ := h.summary
    refine hcore s.value ⟨fun e he hl => ?_, hex.imp_right ?_⟩
    · rcases (hlive e).1 hl with hl | ho
      · exact hall e he hl
      · by_cases hz : e.value = 0
        · exact hz ▸ Nat.zero_le _
        · have hst := hs ⟨e, he, hz, ho⟩
          rw [if_neg] at hst
          · exact hst e he ho
          · rintro rfl
            refine hcount ?_
            simp only [Bool.and_true, any_eq_true, Bool.and_eq_true, bne_iff_ne, ne_eq]
            exact ⟨e, he, hz, ho⟩
    · rintro ⟨e, he, hl, hv⟩
      exact ⟨e, he, (hlive e).2 (.inl hl), hv⟩

/-- The condition on a disconnection: a bonded peer has one entry, and
either no other connected peer has one, or the summary is also the value
of one of those that stay, not all of whose links are going down. -/
def LeaveSettled (s : CccState) (c : Conn) : Prop :=
  (s.bondExists c.id c.dst → s.cfg.Pairwise fun e e' => ¬ (c.owns e ∧ c.owns e')) ∧
  ((∀ e ∈ s.cfg, s.Live e → c.owns e) ∨
    (∃ e ∈ s.cfg, s.Live e ∧ ¬ c.owns e ∧ e.value = s.value) ∧
      ∃ e ∈ s.cfg, ¬ c.owns e ∧ e.value ≠ 0 ∧ (s.lookup e).any (·.connected))

instance (s : CccState) (c : Conn) : Decidable (s.LeaveSettled c) :=
  inferInstanceAs (Decidable ((_ → _) ∧ (_ ∨ _ ∧ _)))

theorem find?_objects_set {p : Conn → Bool} (c' : Conn) (hc : p c = false) (hc' : p c' = false) :
    ∀ {l : List (Option Conn)} {k : ℕ}, l[k]? = some (some c) →
      ((l.set k (some c')).filterMap id).find? p = (l.filterMap id).find? p
  | [], _, h => by simp at h
  | o :: l, 0, h => by
    have ho : o = some c := by simpa using h
    simp [ho, hc, hc']
  | o :: l, k + 1, h => by
    have ih := find?_objects_set c' hc hc' (l := l) (k := k) (by simpa using h)
    cases o with
    | none => simpa using ih
    | some d =>
      have hcons : ∀ l : List (Option Conn),
          (some d :: l).filterMap id = d :: l.filterMap id := fun _ => rfl
      rw [set_cons_succ, hcons, hcons, find?_cons, find?_cons, ih]

theorem conns_of_conn (h : s.conn k = some c) : s.conns[k]? = some (some c) := by
  rw [conn] at h
  cases hk : s.conns[k]? with
  | none => simp [hk] at h
  | some o =>
    rw [hk] at h
    exact congrArg some h

theorem Inv.live_of_lookup (h : s.Inv) (hl : (s.lookup e).any (·.connected)) : s.Live e := by
  obtain ⟨d, hd, hcon⟩ := Option.any_eq_true _ _ |>.1 hl
  have hmem : d ∈ s.objects := mem_of_find?_eq_some hd
  obtain ⟨j, hj⟩ := mem_objects.1 hmem
  exact ⟨d, hmem, h.linked j d hj hcon, find?_some (p := fun c : Conn => c.owns e) hd⟩

theorem Inv.disconnectedCfg (h : s.Inv) (hk : s.conn k = some c) (hc : c.attached)
    (hb : s'.bonds = s.bonds) (he : e ∈ s.cfg) : s'.disconnectedCfg c e =
      if c.owns e then if s.bondExists c.id c.dst then { e with peer := c.dst } else {}
      else e := by
  have hbe : s'.bondExists c.id c.dst = s.bondExists c.id c.dst := by
    rw [bondExists, bondExists, hb]
  unfold CccState.disconnectedCfg
  by_cases ho : c.owns e
  · have hz := h.value_of_owns hk hc he ho
    rw [if_neg hz, if_neg (by simp [ho]), hbe, if_pos ho]
    cases s.bondExists c.id c.dst <;> rfl
  · simp [ho]

/-- In `t` the connection of slot `k` is gone; the others are as in `s`. -/
structure Gone (s t : CccState) (k : ℕ) : Prop where
  conn : ∀ j d, t.conn j = some d → d.attached ∨ d.connected → j ≠ k ∧ s.conn j = some d
  other : ∀ j, j ≠ k → t.conn j = s.conn j
  bonds : t.bonds = s.bonds

/-- **Who stays connected is not the peer that left.** -/
theorem Gone.live {t : CccState} (hg : Gone s t k) (h : s.Inv) (hk : s.conn k = some c)
    (hc : c.attached) (e : CccCfg) : t.Live e ↔ s.Live e ∧ ¬ c.owns e := by
  rw [live_iff, live_iff]
  constructor
  · rintro ⟨j, d, hj, hd, ho⟩
    obtain ⟨hjk, hj⟩ := hg.conn j d hj (.inl hd)
    refine ⟨⟨j, d, hj, hd, ho⟩, fun hco => hjk ?_⟩
    refine h.apart j k d c hj hk hd hc ?_
    obtain ⟨hid, hp⟩ := Conn.owns_iff.1 ho
    obtain ⟨hid', hp'⟩ := Conn.owns_iff.1 hco
    simp only [Conn.isPeer, Bool.and_eq_true, Bool.or_eq_true, beq_iff_eq]
    rcases hp with hp | hp
    · exact .inl ⟨hid'.trans hid.symm, hp ▸ hp'⟩
    · exact .inr ⟨hid'.trans hid.symm, hp ▸ hp'⟩
  · rintro ⟨⟨j, d, hj, hd, ho⟩, hno⟩
    refine ⟨j, d, ?_, hd, ho⟩
    rw [hg.other j, hj]
    rintro rfl
    exact hno (Option.mem_unique hk hj ▸ ho)

theorem Gone.inv {t : CccState} (hg : Gone s t k) (h : s.Inv)
    (used : ∀ (i : ℕ) (e : CccCfg), t.cfg[i]? = some e → e = {} ∨ e.value ≠ 0 ∧ e.peer ≠ .any)
    (one : ∀ (i j : ℕ) (e e' : CccCfg), t.cfg[i]? = some e → t.cfg[j]? = some e' →
      e.peer ≠ .any → e.id = e'.id → e.peer = e'.peer → i = j)
    (owned : ∀ e ∈ t.cfg, e.peer ≠ .any → (e.id, e.peer) ∈ s.bonds ∨ t.Live e)
    (summary : t.IsSummary t.value) : t.Inv where
  used i e hi _ := used i e hi
  one := one
  owned e he hp := hg.bonds ▸ owned e he hp
  apart j j' d d' hj hj' hd hd' :=
    h.apart j j' d d' (hg.conn j d hj (.inl hd)).2 (hg.conn j' d' hj' (.inl hd')).2 hd hd'
  addressed j d hj hd := h.addressed j d (hg.conn j d hj (.inl hd)).2 hd
  linked j d hj hd := h.linked j d (hg.conn j d hj (.inr hd)).2 hd
  summary := summary

/-- `disconnected_cb`, on the way from the last state of the connection to
the one without it. -/
theorem disconnected_spec (hk : s.conn k = some c) :
    ∃ s₁ : CccState, Gone s (s.step (.disconnected k)) k ∧ s₁.bonds = s.bonds ∧
      (∀ e, ¬ c.owns e → s₁.lookup e = s.lookup e) ∧ (s.step (.disconnected k)).cfg =
        (if s.value = 0 then s.cfg else s.cfg.map (s₁.disconnectedCfg c)) ∧
      (s.step (.disconnected k)).value = if s.value = 0 then s.value
        else if (s.cfg.any fun e => e.value != 0 && !c.owns e && (s₁.lookup e).any (·.connected))
          then s.value else 0 := by
  obtain ⟨s₁, hs₁⟩ : ∃ s₁, s₁ = s.setConn k (some { c with connected := false }) := ⟨_, rfl⟩
  obtain ⟨t, ht⟩ : ∃ t, t = (s₁.disconnectedCb c).setConn k
      (some { c with connected := false, attached := false }) := ⟨_, rfl⟩
  have hstep : s.step (.disconnected k) = t := by rw [step, exec, hk, ht, hs₁]
  have hval : s₁.value = s.value := by rw [hs₁]; rfl
  have hconn : ∀ j, t.conn j = (s₁.setConn k
      (some { c with connected := false, attached := false })).conn j := by
    intro j
    rw [ht]
    unfold disconnectedCb
    split <;> rfl
  have hother : ∀ j, j ≠ k → t.conn j = s.conn j := by
    intro j hj
    rw [hconn, conn_setConn_ne _ hj, hs₁, conn_setConn_ne _ hj]
  refine ⟨s₁, ?_, by rw [hs₁]; rfl, fun e ho => ?_, ?_, ?_⟩
  · rw [hstep]
    refine ⟨fun j d hj hd => ?_, hother, ?_⟩
    · by_cases hjk : j = k
      · subst hjk
        rw [hconn, hs₁, conn_setConn_self (conn_setConn_self hk _)] at hj
        cases hj
        simp at hd
      · exact ⟨hjk, hother j hjk ▸ hj⟩
    · rw [ht]
      unfold disconnectedCb
      split <;> rw [hs₁] <;> rfl
  · have ho' : c.owns e = false := by simpa using ho
    rw [hs₁]
    exact find?_objects_set (p := fun c : Conn => c.owns e) { c with connected := false } ho' ho'
      (conns_of_conn hk)
  · rw [hstep, ht, disconnectedCb, hval]
    split <;> rw [hs₁] <;> rfl
  · rw [hstep, ht, disconnectedCb, hval]
    split
    next => exact hval
    next => rw [hs₁]; rfl

/-- **A disconnection that meets the condition** keeps the invariant. -/
theorem Inv.disconnected (h : s.Inv) (hk : s.conn k = some c) (hc : c.attached)
    (hl : s.LeaveSettled c) : (s.step (.disconnected k)).Inv := by
  obtain ⟨s₁, hg, hb, hlook, hcfg, hvalue⟩ := disconnected_spec hk
  obtain ⟨t, ht⟩ : ∃ t, t = s.step (.disconnected k) := ⟨_, rfl⟩
  rw [← ht] at hg hcfg hvalue ⊢
  have hlive := hg.live h hk hc
  obtain ⟨hall, hex⟩ := h.summary
  by_cases hz : s.value = 0
  · -- the summary is 0, so the peer has no entry
    have hno : ∀ e ∈ s.cfg, ¬ c.owns e := by
      intro e he ho
      have hle := hall e he (live_of_owns hk hc ho)
      exact h.value_of_owns hk hc he ho (by omega)
    rw [if_pos hz] at hcfg hvalue
    refine hg.inv h (fun i e hi => h.used i e (hcfg ▸ hi) not_false)
      (by rw [hcfg]; exact h.one) (fun e he hp => ?_) ⟨fun e he hlv => ?_, .inl (hvalue.trans hz)⟩
    · rw [hcfg] at he
      exact (h.owned e he hp).imp_right fun hlv => (hlive e).2 ⟨hlv, hno e he⟩
    · rw [hcfg] at he
      exact hvalue ▸ hall e he ((hlive e).1 hlv).1
  rw [if_neg hz] at hcfg hvalue
  -- each entry is left, freed, or renamed to the address of the bonded peer
  have hmem : ∀ e' ∈ t.cfg, ∃ e ∈ s.cfg, e' =
      if c.owns e then if s.bondExists c.id c.dst then { e with peer := c.dst } else {} else e := by
    intro e' he'
    rw [hcfg] at he'
    obtain ⟨e, he, rfl⟩ := mem_map.1 he'
    exact ⟨e, he, h.disconnectedCfg hk hc hb he⟩
  have hget : ∀ (i : ℕ) (e' : CccCfg), t.cfg[i]? = some e' → ∃ e, s.cfg[i]? = some e ∧ e' =
      if c.owns e then if s.bondExists c.id c.dst then { e with peer := c.dst } else {} else e := by
    intro i e' hi
    rw [hcfg, getElem?_map] at hi
    obtain ⟨e, he, rfl⟩ := Option.map_eq_some_iff.1 hi
    exact ⟨e, he, h.disconnectedCfg hk hc hb (mem_of_getElem? he)⟩
  have howned : ∀ e : CccCfg, c.owns e → c.owns { e with peer := c.dst } := fun e ho =>
    Conn.owns_iff.2 ⟨(Conn.owns_iff.1 ho).1, .inl rfl⟩
  refine hg.inv h (fun i e' hi => ?_) (fun i j a' b' hi hj hp hid hpeer => ?_) (fun e' he' hp => ?_)
    ⟨fun e' he' hlv => ?_, ?_⟩
  · obtain ⟨e, he, rfl⟩ := hget i e' hi
    split
    next ho =>
      split
      next =>
        have hv := h.value_of_owns hk hc (mem_of_getElem? he) ho
        exact .inr ⟨hv, (h.addressed k c hk hc).1⟩
      next => exact .inl rfl
    next => exact h.used i e he not_false
  · obtain ⟨a, ha, rfl⟩ := hget i a' hi
    obtain ⟨b, hb', rfl⟩ := hget j b' hj
    -- two entries of one peer after the renaming were of this peer before
    by_cases hoa : c.owns a <;> by_cases hob : c.owns b
    · rw [if_pos hoa] at hp
      split at hp
      next hbond =>
        have hpw := pairwise_iff_getElem.1 (hl.1 hbond)
        obtain ⟨hia, rfl⟩ := List.getElem?_eq_some_iff.1 ha
        obtain ⟨hjb, rfl⟩ := List.getElem?_eq_some_iff.1 hb'
        rcases Nat.lt_trichotomy i j with hlt | rfl | hlt
        · exact absurd ⟨hoa, hob⟩ (hpw i j hia hjb hlt)
        · rfl
        · exact absurd ⟨hob, hoa⟩ (hpw j i hjb hia hlt)
      next => exact absurd rfl hp
    · rw [if_pos hoa] at hp hid hpeer
      rw [if_neg hob] at hid hpeer
      split at hp
      next hbond =>
        rw [if_pos hbond] at hid hpeer
        exact absurd (Conn.owns_iff.2 ⟨(Conn.owns_iff.1 hoa).1.trans hid, .inl hpeer.symm⟩) hob
      next => exact absurd rfl hp
    · rw [if_neg hoa] at hp hid hpeer
      rw [if_pos hob] at hid hpeer
      split at hpeer
      next hbond =>
        rw [if_pos hbond] at hid
        exact absurd (Conn.owns_iff.2 ⟨(Conn.owns_iff.1 hob).1.trans hid.symm, .inl hpeer⟩) hoa
      next => exact absurd hpeer hp
    · rw [if_neg hoa] at hp hid hpeer
      rw [if_neg hob] at hid hpeer
      exact h.one i j a b ha hb' hp hid hpeer
  · obtain ⟨e, he, rfl⟩ := hmem e' he'
    split at hp
    next ho =>
      split at hp
      next hbond =>
        rw [if_pos ho, if_pos hbond]
        refine .inl ?_
        rw [bondExists, contains_iff_mem] at hbond
        exact (Conn.owns_iff.1 ho).1 ▸ hbond
      next => exact absurd rfl hp
    next ho =>
      rw [if_neg ho]
      exact (h.owned e he hp).imp_right fun hlv => (hlive e).2 ⟨hlv, ho⟩
  · obtain ⟨e, he, rfl⟩ := hmem e' he'
    obtain ⟨hlv, hno⟩ := (hlive _).1 hlv
    split at hlv
    next ho =>
      split at hlv
      next hbond =>
        rw [if_pos ho, if_pos hbond] at hno
        exact absurd (howned e ho) hno
      next =>
        obtain ⟨j, d, hj, hd, hod⟩ := live_iff.1 hlv
        exact absurd rfl (h.peer_of_owns hj hd hod)
    next ho =>
      rw [if_neg ho, hvalue]
      split
      next => exact hall e he hlv
      next hused =>
        rcases hl.2 with hl | ⟨-, e₂, he₂, hno₂, hz₂, hl₂⟩
        · exact absurd (hl e he hlv) ho
        · refine absurd ?_ hused
          simp only [any_eq_true, Bool.and_eq_true, bne_iff_ne, ne_eq, Bool.not_eq_true']
          exact ⟨e₂, he₂, ⟨hz₂, by simpa using hno₂⟩, by rw [hlook e₂ hno₂]; exact hl₂⟩
  · rw [hvalue]
    split
    next hused =>
      simp only [any_eq_true, Bool.and_eq_true, bne_iff_ne, ne_eq, Bool.not_eq_true'] at hused
      obtain ⟨e₂, he₂, ⟨-, hno₂⟩, hl₂⟩ := hused
      have hno₂ : ¬ c.owns e₂ := by simp [hno₂]
      rw [hlook e₂ hno₂] at hl₂
      rcases hl.2 with hl | ⟨⟨e, he, hlv, ho, hev⟩, -⟩
      · exact absurd (hl e₂ he₂ (h.live_of_lookup hl₂)) hno₂
      · refine .inr ⟨e, ?_, (hlive e).2 ⟨hlv, ho⟩, hev⟩
        rw [hcfg]
        refine mem_map.2 ⟨e, he, ?_⟩
        rw [h.disconnectedCfg hk hc hb he, if_neg ho]
    next => exact .inl rfl

/-- The condition on a bond removal: the summary is also the value of a
connected peer that keeps its entry, or the entry removed does not count. -/
def UnpairSettled (s : CccState) (id : ℕ) (addr : Addr) : Prop :=
  (∃ e ∈ s.cfg, e.id = id ∧ e.peer = addr ∧ s.Live e) →
    ∃ e ∈ s.cfg, ¬ (e.id = id ∧ e.peer = addr) ∧ s.Live e ∧ e.value = s.value

instance (s : CccState) (id : ℕ) (addr : Addr) : Decidable (s.UnpairSettled id addr) :=
  inferInstanceAs (Decidable ((∃ e ∈ s.cfg, _) → ∃ e ∈ s.cfg, _))

theorem conn_hangUp (s : CccState) (id : ℕ) (addr : Addr) (j : ℕ) :
    (s.hangUp id addr).conn j = s.conn j ∨
      ∃ c, s.conn j = some c ∧ (s.hangUp id addr).conn j = some { c with connected := false } := by
  unfold hangUp conn
  dsimp only
  split
  next => exact .inl rfl
  next k _ =>
    rw [getElem?_modify]
    rcases s.conns[j]? with _ | _ | c
    · exact .inl rfl
    · by_cases hk : k = j <;> exact .inl (by simp [hk])
    · by_cases hk : k = j
      · exact .inr ⟨c, rfl, by simp [hk]⟩
      · exact .inl (by simp [hk])

theorem Inv.hangUp (h : s.Inv) (id : ℕ) (addr : Addr) : (s.hangUp id addr).Inv := by
  refine h.of_conns rfl rfl rfl (fun k c' hk hc => ?_) (fun k c hk hc => ?_) (fun k c' hk hc => ?_)
  · rcases conn_hangUp s id addr k with heq | ⟨c, hkc, heq⟩
    · exact ⟨c', heq ▸ hk, hc, rfl, rfl, rfl⟩
    · rw [heq] at hk
      cases hk
      exact ⟨c, hkc, hc, rfl, rfl, rfl⟩
  · rcases conn_hangUp s id addr k with heq | ⟨c', hkc, heq⟩
    · exact ⟨c, heq.trans hk, hc, rfl, rfl, rfl⟩
    · cases hk.symm.trans hkc
      exact ⟨_, heq, hc, rfl, rfl, rfl⟩
  · rcases conn_hangUp s id addr k with heq | ⟨c, hkc, heq⟩
    · exact h.linked k c' (heq ▸ hk) hc
    · rw [heq] at hk
      cases hk
      simp at hc

theorem live_hangUp (s : CccState) (id : ℕ) (addr : Addr) (e : CccCfg) :
    (s.hangUp id addr).Live e ↔ s.Live e := by
  rw [live_iff, live_iff]
  constructor
  · rintro ⟨k, c', hk, hc, ho⟩
    rcases conn_hangUp s id addr k with heq | ⟨c, hkc, heq⟩
    · exact ⟨k, c', heq ▸ hk, hc, ho⟩
    · rw [heq] at hk
      cases hk
      exact ⟨k, c, hkc, hc, ho⟩
  · rintro ⟨k, c, hk, hc, ho⟩
    rcases conn_hangUp s id addr k with heq | ⟨c', hkc, heq⟩
    · exact ⟨k, c, heq.trans hk, hc, ho⟩
    · cases hk.symm.trans hkc
      exact ⟨k, _, heq, hc, ho⟩

/-- **A bond removal that meets the condition** keeps the invariant. -/
theorem Inv.unpair {id : ℕ} {addr : Addr} (h : s.Inv) (hany : addr ≠ .any)
    (hs : s.UnpairSettled id addr) : (s.unpair id addr).Inv := by
  obtain ⟨s₁, hs₁⟩ : ∃ s₁ : CccState, s₁ =
      { s.hangUp id addr with bonds := s.bonds.filter (· ≠ (id, addr)) } := ⟨_, rfl⟩
  have hcfg : s₁.cfg = s.cfg := by rw [hs₁]; rfl
  have hval : s₁.value = s.value := by rw [hs₁]; rfl
  have hbonds : s₁.bonds = s.bonds.filter (· ≠ (id, addr)) := by rw [hs₁]
  have hconn : ∀ j, s₁.conn j = (s.hangUp id addr).conn j := fun j => by rw [hs₁]; rfl
  have hlive : ∀ e, s₁.Live e ↔ s.Live e := fun e => by
    rw [← live_hangUp s id addr e, live_iff, live_iff]
    simp only [hconn]
  have hup := h.hangUp id addr
  have heq : s.unpair id addr = s₁.removePeer id addr := by rw [CccState.unpair, hs₁]
  have hbond : ∀ e : CccCfg, ¬ (e.id = id ∧ e.peer = addr) → (e.id, e.peer) ∈ s.bonds →
      (e.id, e.peer) ∈ s₁.bonds := by
    intro e hne hb
    rw [hbonds, mem_filter]
    exact ⟨hb, decide_eq_true fun h => hne (Prod.mk.inj h)⟩
  obtain ⟨hall, hex⟩ := h.summary
  rw [heq, removePeer]
  split
  next hnone =>
    -- no entry is of this peer, so none is orphaned
    have hne : ∀ e ∈ s.cfg, ¬ (e.id = id ∧ e.peer = addr) := by
      intro e he
      have := findIdx?_eq_none_iff.1 hnone e (hcfg ▸ he)
      simpa using this
    refine ⟨fun i e hi => h.used i e (hcfg ▸ hi), by rw [hcfg]; exact h.one, fun e he hp => ?_,
      fun k k' c c' hk hk' => hup.apart k k' c c' (hconn k ▸ hk) (hconn k' ▸ hk'),
      fun k c hk => hup.addressed k c (hconn k ▸ hk), fun k c hk => hup.linked k c (hconn k ▸ hk), ?_⟩
    · rw [hcfg] at he
      exact (h.owned e he hp).imp (hbond e (hne e he)) (hlive e).2
    · rw [IsSummary, hcfg, hval]
      simp only [hlive]
      exact ⟨hall, hex⟩
  next i hsome =>
    obtain ⟨hi, ho, -⟩ := findIdx?_eq_some_iff_getElem.1 hsome
    obtain ⟨a, ha⟩ : ∃ a, s.cfg[i]? = some a := ⟨s₁.cfg[i], by
      rw [← hcfg]; exact getElem?_eq_getElem hi⟩
    have hkey : a.id = id ∧ a.peer = addr := by
      have : s₁.cfg[i] = a := by
        have h₁ : s₁.cfg[i]? = some a := hcfg ▸ ha
        exact Option.some.inj ((getElem?_eq_getElem hi).symm.trans h₁)
      simpa [this] using ho
    have hmem : ∀ e, e ∈ s₁.cfg.set i {} ↔ e = {} ∨ ∃ j, j ≠ i ∧ s.cfg[j]? = some e := by
      intro e
      rw [hcfg]
      exact mem_set_of ha
    have hget : ∀ (j : ℕ) (e : CccCfg), (s₁.cfg.set i {})[j]? = some e →
        e = {} ∨ j ≠ i ∧ s.cfg[j]? = some e := by
      intro j e hj
      rw [hcfg, getElem?_set_of ha] at hj
      by_cases hji : j = i
      · rw [if_pos hji] at hj
        exact .inl (Option.some.inj hj).symm
      · rw [if_neg hji] at hj
        exact .inr ⟨hji, hj⟩
    have hne : ∀ j e, j ≠ i → s.cfg[j]? = some e → ¬ (e.id = id ∧ e.peer = addr) := by
      rintro j e hji hj ⟨rfl, rfl⟩
      exact hji (h.one j i e a hj ha hany hkey.1.symm hkey.2.symm)
    refine ⟨fun j e hj _ => ?_, fun j j' e e' hj hj' hp hid hpeer => ?_, fun e he hp => ?_,
      fun k k' c c' hk hk' => hup.apart k k' c c' (hconn k ▸ hk) (hconn k' ▸ hk'),
      fun k c hk => hup.addressed k c (hconn k ▸ hk), fun k c hk => hup.linked k c (hconn k ▸ hk),
      fun e he hl => ?_, ?_⟩
    · rcases hget j e hj with rfl | ⟨-, hj⟩
      · exact .inl rfl
      · exact h.used j e hj not_false
    · rcases hget j e hj with rfl | ⟨-, hj⟩
      · exact absurd rfl hp
      · rcases hget j' e' hj' with rfl | ⟨-, hj'⟩
        · exact absurd hpeer hp
        · exact h.one j j' e e' hj hj' hp hid hpeer
    · rcases (hmem e).1 he with rfl | ⟨j, hji, hj⟩
      · exact absurd rfl hp
      · exact (h.owned e (mem_of_getElem? hj) hp).imp (hbond e (hne j e hji hj)) (hlive e).2
    · rcases (hmem e).1 he with rfl | ⟨j, -, hj⟩
      · exact Nat.zero_le _
      · exact hval ▸ hall e (mem_of_getElem? hj) ((hlive e).1 hl)
    · rw [show ({ s₁ with cfg := s₁.cfg.set i {} } : CccState).value = s.value from hval]
      have hkeep : ∀ e ∈ s.cfg, ¬ (e.id = id ∧ e.peer = addr) → s.Live e → e.value = s.value →
          ∃ e ∈ s₁.cfg.set i {}, s₁.Live e ∧ e.value = s.value := by
        intro e he hek hl hv
        obtain ⟨j, hj⟩ := mem_iff_getElem?.1 he
        refine ⟨e, (hmem e).2 (.inr ⟨j, ?_, hj⟩), (hlive e).2 hl, hv⟩
        rintro rfl
        exact hek (Option.mem_unique ha hj ▸ hkey)
      refine hex.imp_right ?_
      rintro ⟨e, he, hl, hv⟩
      by_cases hek : e.id = id ∧ e.peer = addr
      · obtain ⟨e', he', hek', hl', hv'⟩ := hs ⟨e, he, hek.1, hek.2, hl⟩
        exact hkeep e' he' hek' hl' hv'
      · exact hkeep e he hek hl hv

/-! ## Runs -/

/-- **The condition on a step.** -/
def Settled (s : CccState) : CccEvent → Prop
  | .connected k dst onAir up allowed => ∀ c ∈ s.conn k,
    let c' := { c with dst, onAir, connected := up, attached := true }
    (s.setConn k (some c')).Counts c' → if allowed then (s.setConn k (some c')).NoStale
      else ∀ e ∈ s.cfg, c'.owns e → e.value ≤ s.value
  | .encryptChange k allowed => ∀ c ∈ s.conn k, s.Counts c → allowed → s.NoStale
  | .write k buf offset cfgWrite => ∀ c ∈ s.conn k, s.WriteSettled c buf offset cfgWrite
  | .disconnected k => ∀ c ∈ s.conn k, s.LeaveSettled c
  | .unpair id addr => s.UnpairSettled id addr
  | _ => True

instance (s : CccState) : DecidablePred s.Settled
  | .connected k _ _ _ allowed =>
    inferInstanceAs (Decidable (∀ c ∈ s.conn k, _ → if allowed then _ else _))
  | .encryptChange k _ | .write k .. | .disconnected k =>
    inferInstanceAs (Decidable (∀ c ∈ s.conn k, _))
  | .unpair id addr => inferInstanceAs (Decidable (s.UnpairSettled id addr))
  | .create .. | .bonded _ | .down _ | .free _ => .isTrue trivial

/-- **The consistency of a CCC**: a peer has at most one entry, an entry in
use is of a bonded or connected peer, and the summary is the highest value
of a connected peer. -/
structure Consistent (s : CccState) : Prop where
  one : ∀ (i j : ℕ) (e e' : CccCfg), s.cfg[i]? = some e → s.cfg[j]? = some e' → e.peer ≠ .any →
    e.id = e'.id → e.peer = e'.peer → i = j
  owned : ∀ e ∈ s.cfg, e.peer ≠ .any → (e.id, e.peer) ∈ s.bonds ∨ s.Live e
  summary : s.IsSummary s.value

/-- A rejected write changes no entry. -/
def RejectsCleanly (s : CccState) : CccEvent → Prop
  | .write k buf offset cfgWrite => (s.exec (.write k buf offset cfgWrite)).2 < 0 →
    (s.step (.write k buf offset cfgWrite)).cfg = s.cfg
  | _ => True

theorem Inv.consistent (h : s.Inv) : s.Consistent := ⟨h.one, h.owned, h.summary⟩

theorem inv_init (cfgs conns : ℕ) (bonds : List (ℕ × Addr)) : (init cfgs conns bonds).Inv := by
  have hcfg : ∀ (i : ℕ) (e : CccCfg), (init cfgs conns bonds).cfg[i]? = some e → e = {} := by
    intro i e hi
    exact eq_of_mem_replicate (mem_of_getElem? hi)
  have hmem : ∀ e ∈ (init cfgs conns bonds).cfg, e = {} := fun e he => eq_of_mem_replicate he
  have hconn : ∀ k c, (init cfgs conns bonds).conn k ≠ some c := by
    intro k c hk
    have := eq_of_mem_replicate (mem_of_getElem? (conns_of_conn hk))
    simp at this
  refine ⟨fun i e hi _ => .inl (hcfg i e hi), fun i j e e' hi _ hp => ?_, fun e he hp => ?_,
    fun k k' c c' hk => absurd hk (hconn k c), fun k c hk => absurd hk (hconn k c),
    fun k c hk => absurd hk (hconn k c), fun e he _ => ?_, .inl rfl⟩
  · exact absurd (hcfg i e hi ▸ rfl) hp
  · exact absurd (hmem e he ▸ rfl) hp
  · exact (hmem e he ▸ Nat.zero_le _ : e.value ≤ 0)

theorem exists_of_any {o : Option Conn} (h : o.any (·.attached)) : ∃ c, o = some c ∧ c.attached := by
  obtain ⟨c, hc, ha⟩ := Option.any_eq_true _ _ |>.1 h
  exact ⟨c, hc, ha⟩

theorem Inv.step (h : s.Inv) (ev : CccEvent) (he : s.enabled ev) (hs : s.Settled ev) :
    (s.step ev).Inv ∧ s.RejectsCleanly ev := by
  cases ev with
  | create k id dst onAir =>
    obtain ⟨hlt, hnone⟩ := he
    refine ⟨?_, trivial⟩
    have hself : (s.setConn k (some { id, dst, onAir })).conn k = some { id, dst, onAir } := by
      rw [conn_setConn, if_pos ⟨rfl, hlt⟩]
    refine h.of_conns rfl rfl rfl (fun j c' hj hc => ?_) (fun j c hj hc => ?_) (fun j c' hj hc => ?_)
    · by_cases hjk : j = k
      · subst hjk
        cases hself.symm.trans hj
        simp at hc
      · exact ⟨c', (conn_setConn_ne _ hjk).symm.trans hj, hc, rfl, rfl, rfl⟩
    · have hjk : j ≠ k := by
        rintro rfl
        cases hnone.symm.trans hj
      exact ⟨c, (conn_setConn_ne _ hjk).trans hj, hc, rfl, rfl, rfl⟩
    · by_cases hjk : j = k
      · subst hjk
        cases hself.symm.trans hj
        simp at hc
      · exact h.linked j c' ((conn_setConn_ne _ hjk).symm.trans hj) hc
  | connected k dst onAir up allowed =>
    obtain ⟨⟨c, hk, hc, hun⟩, hany⟩ := he
    refine ⟨?_, trivial⟩
    have hst := hs c hk
    have := h.connected { c with dst, onAir, connected := up, attached := true } allowed hk hc rfl
      hun hany hst
    rwa [CccState.step, exec, hk]
  | encryptChange k allowed =>
    obtain ⟨c, hk, hc⟩ := exists_of_any he
    refine ⟨?_, trivial⟩
    have := h.updateCcc c allowed (hs c hk)
    rwa [CccState.step, exec, hk]
  | bonded k =>
    obtain ⟨c, hk, hc⟩ := exists_of_any he
    refine ⟨?_, trivial⟩
    rw [CccState.step, exec, hk]
    exact ⟨h.used, h.one, fun e he hp => (h.owned e he hp).imp_left (mem_cons_of_mem _),
      h.apart, h.addressed, h.linked, h.summary⟩
  | write k buf offset cfgWrite =>
    obtain ⟨c, hk, hc⟩ := exists_of_any he
    have := h.writeCcc hk hc (hs c hk)
    rw [RejectsCleanly, CccState.step, exec, hk]
    exact this
  | down k =>
    obtain ⟨c, hk, hc⟩ := exists_of_any he
    refine ⟨?_, trivial⟩
    rw [CccState.step, exec, hk]
    refine h.of_conns rfl rfl rfl (fun j c' hj hc' => ?_) (fun j d hj hd => ?_) (fun j c' hj hc' => ?_)
    · by_cases hjk : j = k
      · subst hjk
        cases (conn_setConn_self hk _).symm.trans hj
        exact ⟨c, hk, hc, rfl, rfl, rfl⟩
      · exact ⟨c', (conn_setConn_ne _ hjk).symm.trans hj, hc', rfl, rfl, rfl⟩
    · by_cases hjk : j = k
      · subst hjk
        cases hk.symm.trans hj
        exact ⟨_, conn_setConn_self hk _, hc, rfl, rfl, rfl⟩
      · exact ⟨d, (conn_setConn_ne _ hjk).trans hj, hd, rfl, rfl, rfl⟩
    · by_cases hjk : j = k
      · subst hjk
        cases (conn_setConn_self hk _).symm.trans hj
        simp at hc'
      · exact h.linked j c' ((conn_setConn_ne _ hjk).symm.trans hj) hc'
  | disconnected k =>
    obtain ⟨c, hk, hc⟩ := exists_of_any he
    exact ⟨h.disconnected hk hc (hs c hk), trivial⟩
  | free k =>
    refine ⟨?_, trivial⟩
    have hconn : ∀ j d, (s.setConn k none).conn j = some d → s.conn j = some d := by
      intro j d hj
      rw [conn_setConn] at hj
      split at hj
      next => simp at hj
      next => exact hj
    refine h.of_conns rfl rfl rfl (fun j c' hj hc' => ⟨c', hconn j c' hj, hc', rfl, rfl, rfl⟩)
      (fun j d hj hd => ?_) (fun j c' hj hc' => h.linked j c' (hconn j c' hj) hc')
    refine ⟨d, ?_, hd, rfl, rfl, rfl⟩
    rw [CccState.step, exec, conn_setConn, if_neg]
    · exact hj
    · rintro ⟨rfl, -⟩
      rw [CccState.enabled, hj] at he
      exact he hd
  | unpair id addr => exact ⟨h.unpair he hs, trivial⟩

/-- **A CCC stays consistent** over every run whose steps meet the
condition. -/
theorem ccc_consistent (cfgs conns : ℕ) (bonds : List (ℕ × Addr)) (es : List CccEvent)
    (h : Along CccState.step (fun s e => s.enabled e ∧ s.Settled e) (init cfgs conns bonds) es) :
    (run CccState.step (init cfgs conns bonds) es).Consistent ∧
      Along CccState.step RejectsCleanly (init cfgs conns bonds) es :=
  have hstep := fun (s : CccState) (e : CccEvent) (hs : s.Inv) (he : s.enabled e ∧ s.Settled e) =>
    hs.step e he.1 he.2
  ⟨(inv_run Inv (fun s e hs he => (hstep s e hs he).1) (inv_init cfgs conns bonds) h).consistent,
    inv_along Inv hstep (inv_init cfgs conns bonds) h⟩

/-! ### A subscription refused -/

/-- Two peers subscribe, one of them bonded; it leaves and comes back, and
the other one's subscription is refused when it is taken up again. -/
theorem ccc_consistent_sample :
    let es := [.create 0 0 ⟨0, 7⟩ ⟨0, 7⟩, .connected 0 ⟨0, 7⟩ ⟨0, 7⟩ true true,
      .create 1 0 ⟨0, 9⟩ ⟨0, 9⟩, .connected 1 ⟨0, 9⟩ ⟨0, 9⟩ true true,
      .write 0 [1, 0] 0 none, .write 1 [1, 0] 0 (some 2), .bonded 0, .disconnected 0, .free 0,
      .create 0 0 ⟨0, 7⟩ ⟨0, 7⟩, .connected 0 ⟨0, 7⟩ ⟨0, 7⟩ true true, .write 1 [2, 0] 0 (some (-3))]
    (run CccState.step (init 2 2 []) es).Consistent ∧
      Along CccState.step RejectsCleanly (init 2 2 []) es :=
  ccc_consistent 2 2 [] _ (by decide)

/-- **A refused subscription keeps its entry**: the first write of a peer
claims a free entry before `cfg_write` is asked. -/
theorem rejected_write_claims :
    ¬ ∀ (cfgs conns : ℕ) (bonds : List (ℕ × Addr)) (es : List CccEvent),
      Along CccState.step CccState.enabled (init cfgs conns bonds) es →
      (run CccState.step (init cfgs conns bonds) es).Consistent ∧
        Along CccState.step RejectsCleanly (init cfgs conns bonds) es := by
  intro h
  have hc := (h 1 1 [] [.create 0 0 ⟨0, 7⟩ ⟨0, 7⟩, .connected 0 ⟨0, 7⟩ ⟨0, 7⟩ true true,
    .write 0 [1, 0] 0 (some (-3))] (by decide)).2.2.2.1 (by decide)
  revert hc
  decide

end CccState

end Gatt

end OpenBlue

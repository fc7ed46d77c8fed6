import OpenBlue.Gatt.RobustCaching
/-!
# Service Changed — every change is indicated, pending or stored

A change of the database is pending until its work runs. Then it is sent to
the subscribers that are connected, and stored for the others. `owed` reads
off the log which handles changed since a subscriber was last sent a range
with them; `Good` keeps what is owed to one subscriber inside the pending and
the stored range, and `Keeps` is the frame of a step for one subscriber.

A range is lost where the indication cannot be sent, where another object
of the connection is found first, where no entry is left for a subscriber,
where a subscriber's address changes and its entry is not found under the new
one, and where the handles of a service are not between its first and its last.
-/

namespace OpenBlue

namespace Gatt

open Host (Addr)
open Function List CccState

/-- The handle is in the range. -/
def InRange (start stop h : ℕ) : Prop := start ≤ h ∧ h ≤ stop

instance (start stop h : ℕ) : Decidable (InRange start stop h) :=
  inferInstanceAs (Decidable (_ ∧ _))

/-- The handle is in the range of an entry, where `0, 0` is no range: no
handle is 0. -/
def ScCfg.Covers (e : ScCfg) (h : ℕ) : Prop := 0 < h ∧ InRange e.start e.stop h

namespace Caching

variable {s s' t : Caching} {k i id id' : ℕ} {peer peer' : Addr} {c : Conn} {b : Option ℕ}

/-! ## What is owed -/

/-- For each subscriber, the handles that changed since it was last sent a
range with them. -/
abbrev Debt := ℕ → Addr → List ℕ

/-- The debt to one subscriber is another. -/
def Debt.set (d : Debt) (id : ℕ) (peer : Addr) (hs : List ℕ) : Debt := fun id' peer' =>
  if id' = id ∧ peer' = peer then hs else d id' peer'

/-- **What a note does to the debts.** -/
def Debt.note (d : Debt) : Note → Debt
  | .changed handles => fun id peer => d id peer ++ handles
  | .indicated id peer start stop =>
    d.set id peer ((d id peer).filter fun h => ¬ InRange start stop h)
  | .subscribed id peer => d.set id peer []
  | .renamed id peer peer' => d.set id peer' (d id peer)
  | .connected _ | .request .. | .executed _ | .outOfSync _ | .hashRead _ | .confirmed _
  | .enabled _ => d

/-- What is owed after a log. -/
def owed (log : List Note) : Debt := log.foldl Debt.note fun _ _ => []

theorem owed_append (log : List Note) (n : Note) : owed (log ++ [n]) = (owed log).note n := by
  simp [owed, foldl_append]

@[simp] theorem set_self (d : Debt) (hs : List ℕ) : d.set id peer hs id peer = hs :=
  if_pos ⟨rfl, rfl⟩

theorem set_of_ne (d : Debt) (hs : List ℕ) (h : ¬ (id' = id ∧ peer' = peer)) :
    d.set id peer hs id' peer' = d id' peer' := if_neg h

/-- The handle is in the pending range. -/
def Pending (s : Caching) (h : ℕ) : Prop := s.rangeChanged = true ∧ InRange s.start s.stop h

/-- The handle is in the range stored for a subscriber. -/
def Stored (s : Caching) (id : ℕ) (peer : Addr) (h : ℕ) : Prop :=
  ∃ i, s.findSc id peer = some i ∧ (s.sc i).Covers h

instance (s : Caching) (h : ℕ) : Decidable (Pending s h) := inferInstanceAs (Decidable (_ ∧ _))

instance (e : ScCfg) (h : ℕ) : Decidable (e.Covers h) := inferInstanceAs (Decidable (_ ∧ _))

instance (s : Caching) (id : ℕ) (peer : Addr) (h : ℕ) : Decidable (Stored s id peer h) :=
  inferInstanceAs (Decidable (∃ i, i ∈ s.findSc id peer ∧ _))

/-- **Service Changed does not under-report**: what is owed to a subscriber
is pending, or stored for it. -/
def Covered (s : Caching) : Prop :=
  ∀ e ∈ s.ccc.cfg, subscribed e = true → ∀ h ∈ owed s.log e.id e.peer,
    Pending s h ∨ Stored s e.id e.peer h

instance (s : Caching) : Decidable (Covered s) := inferInstanceAs (Decidable (∀ e ∈ s.ccc.cfg, _))

/-- A stored range is on its way to the subscriber over the connection. -/
def Restoring (s : Caching) (k : ℕ) (id : ℕ) (peer : Addr) : Prop :=
  .restore ∈ (s.att k).indications ∧
    ∃ c, s.ccc.conn k = some c ∧ attGet c = true ∧ c.id = id ∧ c.dst = peer

/-- **What a run keeps of one subscriber**: there is an entry for what is
stored, and while its range is being restored, nothing else is owed but what
is pending. -/
structure Good (s : Caching) (id : ℕ) (peer : Addr) : Prop where
  place : (s.findSc id peer).isSome
  covered : ∀ h ∈ owed s.log id peer, Pending s h ∨ Stored s id peer h
  restoring : ∀ k, Restoring s k id peer → ∀ h ∈ owed s.log id peer, Pending s h

/-- **What a run keeps.** -/
structure Told (s : Caching) : Prop where
  good : ∀ e ∈ s.ccc.cfg, subscribed e = true → e.value = 2 ∧ e.peer ≠ .any ∧ Good s e.id e.peer
  one : ∀ (i j : ℕ) (a a' : CccCfg), s.ccc.cfg[i]? = some a → s.ccc.cfg[j]? = some a' →
    a.peer ≠ .any → a.id = a'.id → a.peer = a'.peer → i = j
  positive : ∀ id peer, ∀ h ∈ owed s.log id peer, 0 < h
  addrs : ∀ k c, s.ccc.conn k = some c → c.dst ≠ .any ∧ c.onAir ≠ .any

theorem Told.all (h : Told s) : Covered s := fun e he hsub => (h.good e he hsub).2.2.covered

/-- **The frame of one subscriber**: nothing is taken from its range, and no
more is owed to it. -/
structure Keeps (s s' : Caching) (id : ℕ) (peer : Addr) : Prop where
  place : (s.findSc id peer).isSome → (s'.findSc id peer).isSome
  stored : ∀ h, Stored s id peer h → Stored s' id peer h
  pending : ∀ h, Pending s h → Pending s' h
  owed : ∀ h ∈ owed s'.log id peer, h ∈ owed s.log id peer
  restoring : ∀ k, Restoring s' k id peer → Restoring s k id peer

theorem Keeps.rfl : Keeps s s id peer :=
  ⟨fun h => h, fun _ h => h, fun _ h => h, fun _ h => h, fun _ h => h⟩

theorem Keeps.trans (h : Keeps s s' id peer) (h' : Keeps s' t id peer) : Keeps s t id peer where
  place hp := h'.place (h.place hp)
  stored n hn := h'.stored n (h.stored n hn)
  pending n hn := h'.pending n (h.pending n hn)
  owed n hn := h.owed n (h'.owed n hn)
  restoring k hk := h.restoring k (h'.restoring k hk)

theorem Keeps.good (h : Keeps s s' id peer) (hs : Good s id peer) : Good s' id peer where
  place := h.place hs.place
  covered n hn := (hs.covered n (h.owed n hn)).imp (h.pending n) (h.stored n)
  restoring k hk n hn := h.pending n (hs.restoring k (h.restoring k hk) n (h.owed n hn))

/-! ## The robust caching half leaves the ranges alone -/

/-- Nothing has changed that `Told` speaks of, though indications may have
been completed. -/
structure Still (s s' : Caching) : Prop where
  cfg : s'.cfg = s.cfg
  ccc : s'.ccc = s.ccc
  sc : s'.sc = s.sc
  indications : ∀ k, ∀ ind ∈ (s'.att k).indications, ind ∈ (s.att k).indications
  rangeChanged : s'.rangeChanged = s.rangeChanged
  start : s'.start = s.start
  stop : s'.stop = s.stop
  owed : owed s'.log = owed s.log

theorem Still.rfl : Still s s :=
  ⟨Eq.refl _, Eq.refl _, Eq.refl _, fun _ _ h => h, Eq.refl _, Eq.refl _, Eq.refl _, Eq.refl _⟩

theorem Still.trans (h : Still s s') (h' : Still s' t) : Still s t where
  cfg := h'.cfg.trans h.cfg
  ccc := h'.ccc.trans h.ccc
  sc := h'.sc.trans h.sc
  indications k ind hind := h.indications k ind (h'.indications k ind hind)
  rangeChanged := h'.rangeChanged.trans h.rangeChanged
  start := h'.start.trans h.start
  stop := h'.stop.trans h.stop
  owed := h'.owed.trans h.owed

theorem Still.findSc (h : Still s s') (id : ℕ) (peer : Addr) : s'.findSc id peer = s.findSc id peer := by
  simp only [Caching.findSc, h.cfg, h.sc]

theorem Still.keeps (h : Still s s') (id : ℕ) (peer : Addr) : Keeps s s' id peer where
  place hp := by rwa [h.findSc]
  stored n := by
    rintro ⟨i, hi, hn⟩
    exact ⟨i, (h.findSc id peer).trans hi, by rwa [h.sc]⟩
  pending n hn := by
    rw [Pending, h.rangeChanged, h.start, h.stop]
    exact hn
  owed n hn := by rwa [h.owed] at hn
  restoring k := by
    rintro ⟨hmem, c, hk, hc⟩
    rw [h.ccc] at hk
    exact ⟨h.indications k _ hmem, c, hk, hc⟩

theorem Told.of_keeps (hs : Told s) (hcfg : s'.ccc.cfg = s.ccc.cfg)
    (hkeeps : ∀ e ∈ s.ccc.cfg, subscribed e = true → e.peer ≠ .any → Keeps s s' e.id e.peer)
    (howed : ∀ id peer, ∀ h ∈ owed s'.log id peer, h ∈ owed s.log id peer)
    (haddrs : ∀ k c, s'.ccc.conn k = some c → c.dst ≠ .any ∧ c.onAir ≠ .any) : Told s' where
  good e he hsub := by
    rw [hcfg] at he
    obtain ⟨hvalue, hpeer, hgood⟩ := hs.good e he hsub
    exact ⟨hvalue, hpeer, (hkeeps e he hsub hpeer).good hgood⟩
  one := by rw [hcfg]; exact hs.one
  positive id peer h hh := hs.positive id peer h (howed id peer h hh)
  addrs := haddrs

theorem Still.told (h : Still s s') (hs : Told s) : Told s' :=
  hs.of_keeps (by rw [h.ccc]) (fun e _ _ _ => h.keeps e.id e.peer) (fun _ _ _ hh => by rwa [h.owed] at hh)
    fun k c hk => hs.addrs k c (by rwa [h.ccc] at hk)

theorem still_note {n : Note} (h : ∀ d : Debt, d.note n = d) : Still s (s.note n) :=
  ⟨rfl, rfl, rfl, fun _ _ h => h, rfl, rfl, rfl, (owed_append _ _).trans (h _)⟩

theorem still_setCf (i : ℕ) (e : CfCfg) : Still s (s.setCf i e) :=
  ⟨rfl, rfl, rfl, fun _ _ h => h, rfl, rfl, rfl, rfl⟩

theorem still_setAtt {a : AttConn} (h : ∀ ind ∈ a.indications, ind ∈ (s.att k).indications) :
    Still s (s.setAtt k a) := by
  refine ⟨rfl, rfl, rfl, fun k' => ?_, rfl, rfl, rfl, rfl⟩
  by_cases hk : k' = k
  · subst hk
    simpa [setAtt] using h
  · simp only [setAtt, update_of_ne hk]
    exact fun _ h => h

theorem still_clearOutOfSync (k : ℕ) (c : Conn) : Still s (s.clearOutOfSync k c) := by
  rw [clearOutOfSync]
  split
  · exact still_setAtt fun _ h => h
  · exact .rfl

theorem still_changeAware (k : ℕ) (c : Conn) (req : Bool) : Still s (s.changeAware k c req).2 := by
  rcases s.changeAware_cases k c req with ⟨heq, -⟩ | ⟨i, -, -, -, heq⟩ | ⟨heq, -⟩
  · rw [heq]
    exact .rfl
  · rw [heq]
    exact (still_clearOutOfSync k c).trans (still_setCf _ _)
  · rw [heq]
    exact .rfl

theorem still_noteClient (c : Conn) {n : ℕ → Note} (h : ∀ i (d : Debt), d.note (n i) = d) :
    Still s (s.noteClient c n) := by
  rw [noteClient]
  split
  · exact .rfl
  · exact still_note (h _)

theorem still_gate (k : ℕ) (c : Conn) (b : Option ℕ) (req : Bool) :
    Still s (s.gate k c b req).2 := by
  have hca := still_changeAware (s := s) k c req
  rw [gate]
  split
  next heq =>
    rw [heq] at hca
    exact hca.trans (still_noteClient c fun _ _ => rfl)
  next heq =>
    rw [heq] at hca
    split
    · exact hca
    · refine hca.trans ?_
      cases b with
      | none => exact still_setAtt fun _ h => h
      | some j => exact still_setAtt fun _ h => h

theorem still_errorRsp (k : ℕ) (b : Option ℕ) (err : Option UInt8) : Still s (s.errorRsp k b err) := by
  rw [errorRsp]
  split
  · exact still_note fun _ => rfl
  · exact .rfl

theorem still_dbHash : Still s s.dbHash := by
  rw [dbHash]
  split
  · exact .rfl
  · rw [setAllChangeUnaware]
    split
    · exact ⟨rfl, rfl, rfl, fun _ _ h => h, rfl, rfl, rfl, rfl⟩
    · exact ⟨rfl, rfl, rfl, fun _ _ h => h, rfl, rfl, rfl, rfl⟩

theorem still_dbHashRead (c : Conn) (offset : ℕ) : Still s (s.dbHashRead c offset) := by
  have hhash := still_dbHash (s := s)
  rw [dbHashRead]
  generalize s.dbHash = u at hhash ⊢
  dsimp only
  split
  · exact hhash
  next i _ =>
    refine hhash.trans ?_
    have hset : Still u (if (u.cf i).aware = true then u
        else u.setCf i { u.cf i with hashRead := true }) := by
      split
      · exact .rfl
      · exact still_setCf _ _
    split
    · exact hset.trans (still_note fun _ => rfl)
    · exact hset

theorem still_cfWrite (c : Conn) (value : List UInt8) (offset : ℕ) :
    Still s (s.cfWrite c value offset) := by
  rw [cfWrite]
  split
  · exact .rfl
  split
  · exact .rfl
  split
  · exact .rfl
  · dsimp only
    split
    · exact (still_setCf _ _).trans (still_note fun _ => rfl)
    · exact still_setCf _ _

theorem still_arrive (k : ℕ) (c : Conn) : Still s (s.arrive k c) :=
  still_noteClient c fun _ _ => rfl

theorem still_gated (k : ℕ) (c : Conn) (b : Option ℕ) {f : Caching → Caching}
    (hf : ∀ u, Still u (f u)) :
    Still s (match (s.arrive k c).gate k c b true with
      | (some err, s) => s.errorRsp k b err
      | (none, s) => f s) := by
  have hgate := (still_arrive (s := s) k c).trans (still_gate k c b true)
  split
  next heq =>
    rw [heq] at hgate
    exact hgate.trans (still_errorRsp _ _ _)
  next heq =>
    rw [heq] at hgate
    exact hgate.trans (hf _)

theorem still_attRead (k : ℕ) (c : Conn) (b : Option ℕ) (handles : List ℕ) (offset : ℕ) :
    Still s (s.attRead k c b handles offset) := by
  refine still_gated k c b fun u => ?_
  split
  · exact still_dbHashRead _ _
  · exact .rfl

theorem still_attReadType (k : ℕ) (c : Conn) (b : Option ℕ) (uuid : TypeUuid) (start stop : ℕ) :
    Still s (s.attReadType k c b uuid start stop) := by
  have hca := (still_arrive (s := s) k c).trans (still_changeAware k c true)
  have hrespond : ∀ u : Caching, Still u (if uuid = .dbHash ∧ start ≤ u.cfg.hashHandle ∧
      u.cfg.hashHandle ≤ stop then u.dbHashRead c 0 else u) := by
    intro u
    split
    · exact still_dbHashRead _ _
    · exact .rfl
  rw [attReadType]
  split
  · exact .rfl
  dsimp only
  split
  · exact hca.trans (hrespond _)
  · exact still_gated k c b hrespond

theorem still_attPrepareWriteReq (k : ℕ) (c : Conn) (b : Option ℕ) (prep : Att.Prep)
    (stored : Bool) : Still s (s.attPrepareWriteReq k c b prep stored) := by
  refine still_gated k c b fun u => ?_
  split
  · exact still_setAtt fun _ h => h
  · exact .rfl

theorem still_confirm (k : ℕ) (c : Conn) (ok : Bool) : Still s (s.confirm k c ok) := by
  rw [confirm]
  split
  · split
    · exact .rfl
    · split
      · exact (still_note fun _ => rfl).trans (still_setCf _ _)
      · exact still_setCf _ _
  · exact .rfl

theorem still_scRsp_fail (k : ℕ) (c : Conn) (ind : ScInd) : Still s (s.scRsp k c false ind) := by
  cases ind with
  | indicate =>
    have hwork : Still s { s with indicatePending := false, work := s.work || s.rangeChanged } :=
      ⟨rfl, rfl, rfl, fun _ _ h => h, rfl, rfl, rfl, rfl⟩
    exact hwork.trans (still_confirm _ _ _)
  | restore => exact still_confirm _ _ _

theorem still_removeCf (c : Conn) : Still s (s.removeCf c) := by
  rw [removeCf]
  split
  · exact .rfl
  · split
    · exact still_setCf _ _
    · exact still_setCf _ _

theorem still_dbChanged : Still s s.dbChanged := by
  have hstep : ∀ (u : Caching) i, Still u (u.cfChanged i) := by
    intro u i
    rw [cfChanged]
    split
    · exact .rfl
    · refine Still.trans ?_ (still_setCf _ _)
      rw [forgetErrors]
      split
      · exact .rfl
      · split
        · exact .rfl
        · exact still_clearOutOfSync _ _
  have hhash : Still s { s with hashValid := false } :=
    ⟨rfl, rfl, rfl, fun _ _ h => h, rfl, rfl, rfl, rfl⟩
  exact hhash.trans (foldl_rel (R := Still) (fun _ => .rfl) Still.trans hstep _ _)

/-! ## The entries of the ranges -/

theorem findSc_eq_some : s.findSc id peer = some i ↔
    i < s.cfg.scMax ∧ ((s.sc i).id = id ∧ (s.sc i).peer = peer) ∧
      ∀ j < i, ¬ ((s.sc j).id = id ∧ (s.sc j).peer = peer) := by
  rw [findSc, find?_range_eq_some]
  simp only [List.mem_range, Bool.and_eq_true, beq_iff_eq, Bool.not_eq_true', Bool.and_eq_false_iff,
    beq_eq_false_iff_ne]
  constructor
  · rintro ⟨hkey, hlt, hfirst⟩
    exact ⟨hlt, hkey, fun j hj h => (hfirst j hj).elim (fun hne => hne h.1) fun hne => hne h.2⟩
  · rintro ⟨hlt, hkey, hfirst⟩
    refine ⟨hkey, hlt, fun j hj => ?_⟩
    exact not_and_or.1 (hfirst j hj)

theorem findSc_congr (hcfg : s'.cfg = s.cfg)
    (h : ∀ j, ((s'.sc j).id = id ∧ (s'.sc j).peer = peer) ↔ ((s.sc j).id = id ∧ (s.sc j).peer = peer)) :
    s'.findSc id peer = s.findSc id peer := by
  ext i
  simp only [findSc_eq_some, hcfg, h]

theorem sc_setSc_of_ne {e : ScCfg} {j : ℕ} (h : j ≠ i) : (s.setSc i e).sc j = s.sc j :=
  update_of_ne h _ _

theorem sc_setSc_self (e : ScCfg) : (s.setSc i e).sc i = e := update_self _ _ _

theorem findSc_setSc_same {e : ScCfg} (hid : e.id = (s.sc i).id) (hpeer : e.peer = (s.sc i).peer)
    (id : ℕ) (peer : Addr) : (s.setSc i e).findSc id peer = s.findSc id peer := by
  refine findSc_congr rfl fun j => ?_
  by_cases hj : j = i
  · subst hj
    rw [sc_setSc_self, hid, hpeer]
  · rw [sc_setSc_of_ne hj]

theorem findSc_setSc_other {e : ScCfg} (hold : ¬ ((s.sc i).id = id ∧ (s.sc i).peer = peer))
    (hnew : ¬ (e.id = id ∧ e.peer = peer)) : (s.setSc i e).findSc id peer = s.findSc id peer := by
  refine findSc_congr rfl fun j => ?_
  by_cases hj : j = i
  · subst hj
    rw [sc_setSc_self]
    exact ⟨fun h => absurd h hnew, fun h => absurd h hold⟩
  · rw [sc_setSc_of_ne hj]

theorem keeps_setSc {e : ScCfg} (hfind : (s.setSc i e).findSc id peer = s.findSc id peer)
    (hcovers : ∀ j h, s.findSc id peer = some j → (s.sc j).Covers h →
      ((s.setSc i e).sc j).Covers h) : Keeps s (s.setSc i e) id peer where
  place h := by rwa [hfind]
  stored h := by
    rintro ⟨j, hj, hc⟩
    exact ⟨j, hfind.trans hj, hcovers j h hj hc⟩
  pending _ h := h
  owed _ h := h
  restoring _ h := h

theorem keeps_setSc_other {e : ScCfg} (hold : ¬ ((s.sc i).id = id ∧ (s.sc i).peer = peer))
    (hnew : ¬ (e.id = id ∧ e.peer = peer)) : Keeps s (s.setSc i e) id peer := by
  refine keeps_setSc (findSc_setSc_other hold hnew) fun j h hj hc => ?_
  have hne : j ≠ i := by
    rintro rfl
    exact hold (findSc_eq_some.1 hj).2.1
  rwa [sc_setSc_of_ne hne]

theorem keeps_setSc_same {e : ScCfg} (hid : e.id = (s.sc i).id) (hpeer : e.peer = (s.sc i).peer)
    (hcovers : ∀ h, (s.sc i).Covers h → e.Covers h) (id : ℕ) (peer : Addr) :
    Keeps s (s.setSc i e) id peer := by
  refine keeps_setSc (findSc_setSc_same hid hpeer id peer) fun j h hj hc => ?_
  by_cases hji : j = i
  · subst hji
    rw [sc_setSc_self]
    exact hcovers h hc
  · rwa [sc_setSc_of_ne hji]

/-! ### `sc_save` and `sc_clear` -/

/-- The range an entry has after `sc_save`. -/
def ranged (e : ScCfg) (start stop : ℕ) : ScCfg :=
  if e.start = 0 ∧ e.stop = 0 then { e with start, stop }
  else
    { e with
      start := (updateRange e.start e.stop start stop).2.1
      stop := (updateRange e.start e.stop start stop).2.2 }

theorem scSave_found (hi : s.findSc id peer = some i) (start stop : ℕ) :
    s.scSave id peer start stop = s.setSc i (ranged (s.sc i) start stop) := by
  rw [scSave, hi, ranged]
  dsimp only
  split
  · rfl
  · rfl

theorem scSave_claimed (hnone : s.findSc id peer = none) (hi : s.findSc 0 .any = some i)
    (start stop : ℕ) :
    s.scSave id peer start stop = s.setSc i (ranged { s.sc i with id, peer } start stop) := by
  rw [scSave, hnone, hi, ranged]
  dsimp only [Option.map_some]
  split
  · rfl
  · rfl

theorem scSave_full (hnone : s.findSc id peer = none) (hfree : s.findSc 0 .any = none)
    (start stop : ℕ) : s.scSave id peer start stop = s := by
  rw [scSave, hnone, hfree]
  rfl

@[simp] theorem ranged_id (e : ScCfg) (start stop : ℕ) : (ranged e start stop).id = e.id := by
  rw [ranged]
  split
  · rfl
  · rfl

@[simp] theorem ranged_peer (e : ScCfg) (start stop : ℕ) : (ranged e start stop).peer = e.peer := by
  rw [ranged]
  split
  · rfl
  · rfl

variable {h : ℕ}

theorem updateRange_covers (start stop start' stop' : ℕ)
    (hh : InRange start stop h ∨ InRange start' stop' h) :
    InRange (updateRange start stop start' stop').2.1 (updateRange start stop start' stop').2.2 h := by
  rw [updateRange]
  split
  next hin =>
    obtain ⟨hstart, hstop⟩ := hin
    rcases hh with ⟨hle, hge⟩ | ⟨hle, hge⟩
    · exact ⟨hle, hge⟩
    · exact ⟨le_trans hstart hle, le_trans hge hstop⟩
  · rcases hh with ⟨hle, hge⟩ | ⟨hle, hge⟩
    · exact ⟨le_trans (min_le_left _ _) hle, le_trans hge (le_max_left _ _)⟩
    · exact ⟨le_trans (min_le_right _ _) hle, le_trans hge (le_max_right _ _)⟩

theorem ranged_covers (e : ScCfg) (start stop : ℕ)
    (hh : e.Covers h ∨ (0 < h ∧ InRange start stop h)) : (ranged e start stop).Covers h := by
  have hpos : 0 < h := hh.elim And.left And.left
  refine ⟨hpos, ?_⟩
  rw [ranged]
  split
  next hzero =>
    rcases hh with ⟨-, -, hstop⟩ | ⟨-, hh⟩
    · omega
    · exact hh
  · exact updateRange_covers _ _ _ _ (hh.imp And.right And.right)

theorem keeps_scSave (id : ℕ) (peer : Addr) (start stop : ℕ) (hpeer' : peer' ≠ .any) :
    Keeps s (s.scSave id peer start stop) id' peer' := by
  cases hi : s.findSc id peer with
  | some i =>
    rw [scSave_found hi]
    exact keeps_setSc_same (ranged_id _ _ _) (ranged_peer _ _ _)
      (fun _ hc => ranged_covers _ _ _ (.inl hc)) id' peer'
  | none =>
    cases hfree : s.findSc 0 .any with
    | none =>
      rw [scSave_full hi hfree]
      exact .rfl
    | some i =>
      rw [scSave_claimed hi hfree]
      have hold : ¬ ((s.sc i).id = id' ∧ (s.sc i).peer = peer') := by
        rintro ⟨-, h⟩
        exact hpeer' (h ▸ (findSc_eq_some.1 hfree).2.1.2)
      by_cases hkey : id = id' ∧ peer = peer'
      · obtain ⟨rfl, rfl⟩ := hkey
        -- nothing was stored for it yet
        refine ⟨fun h => ?_, fun h => ?_, fun _ h => h, fun _ h => h, fun _ h => h⟩
        · simp [hi] at h
        · rintro ⟨j, hj, -⟩
          simp [hi] at hj
      · exact keeps_setSc_other hold fun h => hkey ⟨(ranged_id _ _ _).symm.trans h.1,
          (ranged_peer _ _ _).symm.trans h.2⟩

/-- There is an entry for the peer, or a free one. -/
def Room (s : Caching) (id : ℕ) (peer : Addr) : Prop :=
  (s.findSc id peer).isSome ∨ (s.findSc 0 .any).isSome

theorem findSc_scSave (h : Room s id peer) (start stop : ℕ) :
    ((s.scSave id peer start stop).findSc id peer).isSome := by
  cases hi : s.findSc id peer with
  | some i =>
    rw [scSave_found hi, findSc_setSc_same (ranged_id _ _ _) (ranged_peer _ _ _), hi]
    rfl
  | none =>
    obtain ⟨i, hfree⟩ : ∃ i, s.findSc 0 .any = some i := by
      rcases h with h | h
      · simp [hi] at h
      · exact Option.isSome_iff_exists.1 h
    rw [scSave_claimed hi hfree]
    refine Option.isSome_iff_exists.2 ⟨i, findSc_eq_some.2 ⟨(findSc_eq_some.1 hfree).1, ?_, ?_⟩⟩
    · rw [sc_setSc_self]
      exact ⟨ranged_id _ _ _, ranged_peer _ _ _⟩
    · intro j hj
      rw [sc_setSc_of_ne (Nat.ne_of_lt hj)]
      intro hkey
      -- an earlier one would have been found
      have hlt : j < s.cfg.scMax := hj.trans (findSc_eq_some.1 hfree).1
      have hnone := find?_eq_none.1 hi j (List.mem_range.2 hlt)
      simp [hkey] at hnone

variable {start stop : ℕ}

theorem stored_scSave (hi : s.findSc id peer = some i) (hpos : 0 < h)
    (hh : InRange start stop h) : Stored (s.scSave id peer start stop) id peer h := by
  rw [scSave_found hi]
  refine ⟨i, (findSc_setSc_same (ranged_id _ _ _) (ranged_peer _ _ _) id peer).trans hi, ?_⟩
  rw [sc_setSc_self]
  exact ranged_covers _ _ _ (.inr ⟨hpos, hh⟩)

theorem keeps_scClear (id : ℕ) (peer : Addr) (hpeer' : peer' ≠ .any)
    (hkey : ¬ (id' = id ∧ peer' = peer)) : Keeps s (s.scClear id peer) id' peer' := by
  rw [scClear]
  split
  · exact .rfl
  next i hi =>
    obtain ⟨-, ⟨hid, hpeer⟩, -⟩ := findSc_eq_some.1 hi
    refine keeps_setSc_other (fun h => hkey ⟨?_, ?_⟩) fun h => hpeer' h.2.symm
    · exact h.1.symm.trans hid
    · exact h.2.symm.trans hpeer

theorem Room.scClear (h : Room s id peer) : Room (s.scClear id peer) id peer := by
  rw [Caching.scClear]
  split
  · exact h
  next i hi =>
    refine .inr ?_
    have hlt := (findSc_eq_some.1 hi).1
    rw [findSc, find?_isSome]
    refine ⟨i, List.mem_range.2 hlt, ?_⟩
    rw [sc_setSc_self]
    rfl

/-! ## A change is pending -/

theorem keeps_scIndicate (start stop : ℕ) (id : ℕ) (peer : Addr) :
    Keeps s (s.scIndicate start stop) id peer := by
  rw [scIndicate]
  split
  next hnot =>
    exact ⟨fun h => h, fun _ h => h, fun h hp => absurd hp.1 hnot, fun _ h => h, fun _ h => h⟩
  next hchanged =>
    have hch : s.rangeChanged = true := not_not.1 hchanged
    split
    · exact .rfl
    next start' stop' heq =>
      have hcov : ∀ h, Pending s h → InRange start' stop' h := by
        intro h hp
        have := updateRange_covers s.start s.stop start stop (.inl hp.2)
        rwa [heq] at this
      exact ⟨fun h => h, fun _ h => h, fun h hp => ⟨hch, hcov h hp⟩, fun _ h => h, fun _ h => h⟩

theorem pending_scIndicate (hh : InRange start stop h) : Pending (s.scIndicate start stop) h := by
  rw [scIndicate]
  split
  · exact ⟨rfl, hh⟩
  next hchanged =>
    have hch : s.rangeChanged = true := not_not.1 hchanged
    have hcov := updateRange_covers s.start s.stop start stop (.inr hh)
    split
    next heq =>
      refine ⟨hch, ?_⟩
      rw [updateRange] at heq hcov
      split at heq
      · rwa [if_pos (by assumption)] at hcov
      · simp at heq
    next heq =>
      rw [heq] at hcov
      exact ⟨hch, hcov⟩

theorem frame_scIndicate (start stop : ℕ) :
    (s.scIndicate start stop).ccc = s.ccc ∧ (s.scIndicate start stop).log = s.log := by
  rw [scIndicate]
  split
  · exact ⟨rfl, rfl⟩
  · split <;> exact ⟨rfl, rfl⟩

theorem Told.scIndicate (hs : Told s) (start stop : ℕ) : Told (s.scIndicate start stop) := by
  obtain ⟨hccc, hlog⟩ := frame_scIndicate (s := s) start stop
  refine hs.of_keeps (by rw [hccc]) (fun e _ _ _ => keeps_scIndicate start stop e.id e.peer)
    (fun _ _ _ hh => by rwa [hlog] at hh) fun k c hk => hs.addrs k c ?_
  rwa [hccc] at hk

/-- The handles of a service: in the database, and between the first and the
last. -/
def Handles (handles : List ℕ) : Prop :=
  ∀ h ∈ handles, 0 < h ∧ InRange (handles.headD 0) (handles.getLastD 0) h

theorem Told.changed (hs : Told s) {handles : List ℕ} (hh : ∀ h ∈ handles, 0 < h ∧ Pending s h) :
    Told (s.note (.changed handles)) := by
  have howed : ∀ id peer, owed (s.note (.changed handles)).log id peer =
      owed s.log id peer ++ handles :=
    fun id peer => congrFun (congrFun (owed_append _ _) id) peer
  refine ⟨fun e he hsub => ?_, hs.one, fun id peer h hmem => ?_, hs.addrs⟩
  · obtain ⟨hvalue, hpeer, hgood⟩ := hs.good e he hsub
    refine ⟨hvalue, hpeer, hgood.place, fun h hmem => ?_, fun k hk h hmem => ?_⟩
    · rw [howed, mem_append] at hmem
      rcases hmem with hmem | hmem
      · exact hgood.covered h hmem
      · exact .inl (hh h hmem).2
    · rw [howed, mem_append] at hmem
      rcases hmem with hmem | hmem
      · exact hgood.restoring k hk h hmem
      · exact (hh h hmem).2
  · rw [howed, mem_append] at hmem
    rcases hmem with hmem | hmem
    · exact hs.positive id peer h hmem
    · exact (hh h hmem).1

theorem scIndicate_note (n : Note) (start stop : ℕ) :
    (s.note n).scIndicate start stop = (s.scIndicate start stop).note n := by
  rw [Caching.scIndicate, Caching.scIndicate]
  have hsame : (s.note n).rangeChanged = s.rangeChanged := rfl
  by_cases hr : s.rangeChanged = true
  · rw [if_neg (not_not.2 (hsame.trans hr)), if_neg (not_not.2 hr)]
    have hrange : updateRange (s.note n).start (s.note n).stop start stop =
        updateRange s.start s.stop start stop := rfl
    rw [hrange]
    split
    · rfl
    · rfl
  · rw [if_pos (hsame ▸ hr), if_pos hr]
    rfl

theorem Told.serviceChanged (hs : Told s) {handles : List ℕ} (hh : Handles handles) :
    Told (s.serviceChanged handles) := by
  rw [Caching.serviceChanged, scIndicate_note]
  refine still_dbChanged.told ((hs.scIndicate _ _).changed fun h hmem => ?_)
  exact ⟨(hh h hmem).1, pending_scIndicate (hh h hmem).2⟩

/-! ## The work of Service Changed -/

theorem owed_indicated (k id : ℕ) (peer : Addr) (start stop : ℕ) (ind : ScInd) :
    owed (s.indicated k id peer start stop ind).log =
      (owed s.log).note (.indicated id peer start stop) := owed_append _ _

theorem mem_owed_indicated {k : ℕ} {ind : ScInd}
    (hh : h ∈ owed (s.indicated k id peer start stop ind).log id' peer') :
    h ∈ owed s.log id' peer' ∧ (id' = id ∧ peer' = peer → ¬ InRange start stop h) := by
  rw [owed_indicated] at hh
  by_cases hkey : id' = id ∧ peer' = peer
  · obtain ⟨rfl, rfl⟩ := hkey
    simp only [Debt.note, set_self, mem_filter, decide_eq_true_eq] at hh
    exact ⟨hh.1, fun _ => hh.2⟩
  · simp only [Debt.note, set_of_ne _ _ hkey] at hh
    exact ⟨hh, fun h => absurd h hkey⟩

theorem mem_indications_indicated {k j : ℕ} {ind x : ScInd}
    (hx : x ∈ ((s.indicated k id peer start stop ind).att j).indications) :
    x ∈ (s.att j).indications ∨ (j = k ∧ x = ind) := by
  by_cases hj : j = k
  · subst hj
    simpa [indicated, note, setAtt] using hx
  · simp only [indicated, note, setAtt, update_of_ne hj] at hx
    exact .inl hx

theorem keeps_indicated (k id : ℕ) (peer : Addr) (start stop : ℕ) (id' : ℕ) (peer' : Addr) :
    Keeps s (s.indicated k id peer start stop .indicate) id' peer' where
  place h := h
  stored _ h := h
  pending _ h := h
  owed _ h := (mem_owed_indicated h).1
  restoring j := by
    rintro ⟨hmem, hconn⟩
    rcases mem_indications_indicated hmem with hmem | ⟨-, h⟩
    · exact ⟨hmem, hconn⟩
    · cases h

theorem keeps_notifyLoop (fails : ℕ → Bool) (start stop : ℕ) (is : List ℕ) (err : Bool) :
    Keeps s (notifyLoop fails start stop is err s).2 id peer :=
  notifyLoop_rel (R := fun s s' => Keeps s s' id peer) (fun _ => .rfl) Keeps.trans
    (fun _ _ _ _ _ _ => keeps_indicated ..) fails start stop is err s

theorem ccc_notifyLoop (fails : ℕ → Bool) (start stop : ℕ) (is : List ℕ) (err : Bool) :
    (notifyLoop fails start stop is err s).2.ccc = s.ccc :=
  notifyLoop_rel (R := fun s s' => s'.ccc = s.ccc) (fun _ => rfl) (fun h h' => h'.trans h)
    (fun _ _ _ _ _ _ => rfl) fails start stop is err s

theorem conn_of_lookupAddr (h : s.lookupAddr id peer = some k) :
    ∃ c, s.ccc.conn k = some c ∧ c.isPeer id peer = true := by
  obtain ⟨hlt, hany, -⟩ := findIdx?_eq_some_iff_getElem.1 h
  cases hc : s.ccc.conns[k] with
  | none => simp [hc] at hany
  | some c =>
    refine ⟨c, ?_, ?_⟩
    · rw [conn, getElem?_eq_getElem hlt, hc]
      rfl
    · simpa [hc] using hany

theorem lookupConnected_isSome : (s.lookupConnected id peer).isSome ↔
    ∃ k c, s.ccc.conn k = some c ∧ c.isPeer id peer = true ∧ c.connected = true := by
  rw [lookupConnected, findIdx?_isSome, any_eq_true]
  constructor
  · rintro ⟨o, ho, hany⟩
    cases o with
    | none => simp at hany
    | some c =>
      obtain ⟨k, hk⟩ := mem_iff_getElem?.1 ho
      simp only [Option.any_some, Bool.and_eq_true] at hany
      exact ⟨k, c, by rw [conn, hk]; rfl, hany⟩
  · rintro ⟨k, c, hk, hpeer, hconn⟩
    refine ⟨some c, mem_iff_getElem?.2 ⟨k, conns_of_conn hk⟩, ?_⟩
    simp [hpeer, hconn]

/-- **An indication reaches each subscriber that is connected**: the first
object of its addresses is connected, and there is a buffer. -/
def Reaches (s : Caching) (fails : ℕ → Bool) : Prop :=
  ∀ i < s.ccc.cfg.length, (s.ccc.cfg.getD i {}).value = 2 →
    (s.lookupConnected (s.ccc.cfg.getD i {}).id (s.ccc.cfg.getD i {}).peer).isSome = true →
      (s.lookupAddr (s.ccc.cfg.getD i {}).id (s.ccc.cfg.getD i {}).peer).any
        (fun k => (s.ccc.conn k).any (·.connected)) = true ∧ fails i = false

instance (s : Caching) (fails : ℕ → Bool) : Decidable (Reaches s fails) :=
  inferInstanceAs (Decidable (∀ i < s.ccc.cfg.length, _))

variable {e : CccCfg}

theorem getD_of_getElem? {l : List CccCfg} (h : l[i]? = some e) : l.getD i {} = e := by
  rw [getD_eq_getElem?_getD, h]
  rfl

variable {fails : ℕ → Bool}

theorem Reaches.entry (h : Reaches s fails) (he : s.ccc.cfg[i]? = some e) (hvalue : e.value = 2)
    (hc : (s.lookupConnected e.id e.peer).isSome = true) :
    (∃ k, s.lookupAddr e.id e.peer = some k ∧ (s.ccc.conn k).any (·.connected) = true) ∧
      fails i = false := by
  have hi := h i (List.getElem?_eq_some_iff.1 he).1
  rw [getD_of_getElem? he] at hi
  exact (hi hvalue hc).imp_left (Option.any_eq_true _ _).1

theorem Reaches.congr (h : Reaches s fails) (hccc : s'.ccc = s.ccc) : Reaches s' fails := by
  intro i hi hvalue hc
  rw [hccc] at hi hvalue ⊢
  rw [lookupConnected, hccc] at hc
  rw [lookupAddr, hccc]
  exact h i hi hvalue hc

theorem notifyLoop_sends (hr : Reaches s fails) (start stop : ℕ) {is : List ℕ}
    (err : Bool) (hi : i ∈ is) (he : s.ccc.cfg[i]? = some e) (hvalue : e.value = 2)
    (hc : (s.lookupConnected e.id e.peer).isSome) :
    ∀ h ∈ owed (notifyLoop fails start stop is err s).2.log e.id e.peer, ¬ InRange start stop h := by
  induction is generalizing s err with
  | nil => cases hi
  | cons j is ih =>
    rw [notifyLoop]
    rcases mem_cons.1 hi with rfl | hi'
    · -- it is this one's turn
      obtain ⟨⟨k, hk, hconn⟩, hok⟩ := hr.entry he hvalue hc
      rw [getD_of_getElem? he, if_neg (not_not.2 hvalue), hk]
      dsimp only
      rw [if_neg (not_not.2 hconn), if_neg (by simp [hok])]
      intro h hh
      exact (mem_owed_indicated ((keeps_notifyLoop _ _ _ _ _).owed h hh)).2 ⟨rfl, rfl⟩
    · split
      · exact ih hr err hi' he hc
      next hval =>
        split
        · exact ih hr err hi' he hc
        next k hk =>
          split
          · exact ih hr err hi' he hc
          next hconn =>
            have hfails : fails j = false := by
              obtain ⟨c, hck, hpeer⟩ := conn_of_lookupAddr hk
              rw [not_not, hck] at hconn
              cases ha : s.ccc.cfg[j]? with
              | none =>
                simp [getD_eq_getElem?_getD, ha] at hval
              | some a =>
                rw [getD_of_getElem? ha] at hval hpeer
                exact (hr.entry ha (not_not.1 hval)
                  (lookupConnected_isSome.2 ⟨k, c, hck, hpeer, hconn⟩)).2
            rw [if_neg (by simp [hfails])]
            exact ih (s := s.indicated k _ _ start stop .indicate) hr false hi' he hc

theorem keeps_scSaveAway (start stop : ℕ) (s : Caching) (i : ℕ) (hpeer : peer ≠ .any) :
    Keeps s (scSaveAway start stop s i) id peer := by
  rw [scSaveAway]
  split
  · exact .rfl
  · split
    · exact .rfl
    · exact keeps_scSave _ _ _ _ hpeer

theorem findSc_scSaveAway (start stop : ℕ) (s : Caching) {i : ℕ} (hi : i < s.cfg.scMax) (id : ℕ)
    (peer : Addr) : (scSaveAway start stop s i).findSc id peer = s.findSc id peer := by
  rw [scSaveAway]
  split
  · rfl
  · split
    · rfl
    · cases hj : s.findSc (s.sc i).id (s.sc i).peer with
      | none =>
        have hnone := find?_eq_none.1 hj i (List.mem_range.2 hi)
        simp at hnone
      | some j =>
        rw [scSave_found hj]
        exact findSc_setSc_same (ranged_id _ _ _) (ranged_peer _ _ _) id peer

theorem keeps_foldl_scSaveAway (start stop : ℕ) (l : List ℕ) (s : Caching) (hpeer : peer ≠ .any) :
    Keeps s (l.foldl (scSaveAway start stop) s) id peer :=
  foldl_rel (R := fun s s' => Keeps s s' id peer) (fun _ => .rfl) Keeps.trans
    (fun s i => keeps_scSaveAway start stop s i hpeer) l s

theorem stored_foldl_scSaveAway (hpos : 0 < h) (hh : InRange start stop h)
    (hpeer : peer ≠ .any) {l : List ℕ} {s : Caching} (hl : ∀ j ∈ l, j < s.cfg.scMax)
    (haway : s.lookupConnected id peer = none) (hi : s.findSc id peer = some i) (hmem : i ∈ l) :
    Stored (l.foldl (scSaveAway start stop) s) id peer h := by
  induction l generalizing s with
  | nil => cases hmem
  | cons j l ih =>
    rw [foldl_cons]
    rcases mem_cons.1 hmem with rfl | hmem'
    · refine (keeps_foldl_scSaveAway start stop l _ hpeer).stored h ?_
      obtain ⟨-, ⟨hid, hpeer'⟩, -⟩ := findSc_eq_some.1 hi
      rw [scSaveAway, hid, hpeer', if_neg hpeer, haway]
      exact stored_scSave hi hpos hh
    · refine ih (fun j' hj' => ?_) ?_ ?_ hmem'
      · rw [(onlySc_scSaveAway ..).frame.1]
        exact hl j' (mem_cons_of_mem _ hj')
      · rw [lookupConnected, (onlySc_scSaveAway ..).frame.2.1]
        exact haway
      · rw [findSc_scSaveAway start stop s (hl j mem_cons_self)]
        exact hi

theorem restoring_lookupConnected (h : Restoring s k id peer) :
    (s.lookupConnected id peer).isSome := by
  obtain ⟨-, c, hk, hget, rfl, rfl⟩ := h
  rw [attGet, Bool.and_eq_true] at hget
  refine lookupConnected_isSome.2 ⟨k, c, hk, ?_, hget.1⟩
  simp [Conn.isPeer]

/-- `sc_process` takes the range, and saves it for who is away. -/
def saved (s : Caching) : Caching :=
  (List.range s.cfg.scMax).foldl (scSaveAway s.start s.stop)
    { s with work := false, rangeChanged := false, start := 0, stop := 0 }

/-- `sc_process` down to what `notify_cb` returns. -/
def sent (s : Caching) (fails : ℕ → Bool) : Bool × Caching :=
  notifyLoop fails s.start s.stop (List.range s.ccc.cfg.length) true (saved s)

theorem onlySc_saved :
    OnlySc { s with work := false, rangeChanged := false, start := 0, stop := 0 } (saved s) :=
  foldl_rel (fun _ => OnlySc.rfl) OnlySc.trans (onlySc_scSaveAway _ _) _ _

theorem ccc_saved : (saved s).ccc = s.ccc := onlySc_saved.frame.2.1

theorem still_scProcess (fails : ℕ → Bool) : Still (sent s fails).2 (s.scProcess fails) := by
  have heq : notifyLoop fails s.start s.stop (List.range (saved s).ccc.cfg.length) true (saved s) =
      sent s fails := by rw [sent, ccc_saved]
  rw [saved] at heq
  rw [scProcess]
  dsimp only
  rw [heq]
  rcases sent s fails with ⟨err, u⟩
  cases err with
  | true => exact .rfl
  | false => exact ⟨rfl, rfl, rfl, fun _ _ h => h, rfl, rfl, rfl, rfl⟩

theorem owed_saved : owed (saved s).log = owed s.log := congrArg owed onlySc_saved.frame.2.2.1

/-- **The work hands the pending range over**: it is sent to who is
connected, and stored for who is away. -/
theorem Good.sent (hg : Good s e.id e.peer)
    (hr : Reaches s fails) (he : e ∈ s.ccc.cfg) (hvalue : e.value = 2) (hpeer : e.peer ≠ .any)
    (hpos : ∀ h ∈ owed s.log e.id e.peer, 0 < h) : Good (sent s fails).2 e.id e.peer := by
  obtain ⟨i, hi⟩ := mem_iff_getElem?.1 he
  obtain ⟨j, hj⟩ := Option.isSome_iff_exists.1 hg.place
  have hsaved : Keeps { s with work := false, rangeChanged := false, start := 0, stop := 0 } (saved s)
      e.id e.peer := keeps_foldl_scSaveAway s.start s.stop _ _ hpeer
  have hnotify : Keeps (saved s) (Caching.sent s fails).2 e.id e.peer :=
    keeps_notifyLoop fails s.start s.stop _ true
  have hk := hsaved.trans hnotify
  -- one that is connected has been sent the range, and what is pending is in it
  have hsent : (s.lookupConnected e.id e.peer).isSome →
      ∀ h ∈ owed (Caching.sent s fails).2.log e.id e.peer, ¬ Pending s h := by
    intro hc h hh hp
    refine notifyLoop_sends (i := i) (hr.congr ccc_saved) s.start s.stop true
      (List.mem_range.2 ?_) ?_ hvalue ?_ h hh hp.2
    · exact (List.getElem?_eq_some_iff.1 hi).1
    · rw [ccc_saved]
      exact hi
    · rw [lookupConnected, ccc_saved]
      exact hc
  refine ⟨hk.place hg.place, fun h hh => .inr ?_, fun k hkr h hh => ?_⟩
  · have hh' := hk.owed h hh
    rcases hg.covered h hh' with hp | hst
    · cases hc : s.lookupConnected e.id e.peer with
      | some k => exact absurd hp (hsent (by rw [hc]; rfl) h hh)
      | none =>
        refine hnotify.stored h (stored_foldl_scSaveAway (hpos h hh') hp.2 hpeer
          (fun _ => List.mem_range.1) hc hj ?_)
        exact List.mem_range.2 (findSc_eq_some.1 hj).1
    · exact hk.stored h hst
  · -- what is restored was all that was owed
    have hkr' := hk.restoring k hkr
    have hp := hg.restoring k hkr' h (hk.owed h hh)
    exact absurd hp (hsent (restoring_lookupConnected (s := s) hkr') h hh)

theorem Told.scProcess (hs : Told s) (hr : Reaches s fails) : Told (s.scProcess fails) := by
  refine (still_scProcess fails).told ?_
  have hccc : (Caching.sent s fails).2.ccc = s.ccc := (ccc_notifyLoop _ _ _ _ _).trans ccc_saved
  refine ⟨fun e he hsub => ?_, ?_, fun id peer h hh => hs.positive id peer h ?_, fun k c hk => ?_⟩
  · rw [hccc] at he
    obtain ⟨hvalue, hpeer, hgood⟩ := hs.good e he hsub
    exact ⟨hvalue, hpeer, hgood.sent hr he hvalue hpeer (hs.positive e.id e.peer)⟩
  · rw [hccc]
    exact hs.one
  · rw [← owed_saved]
    exact (keeps_notifyLoop fails s.start s.stop _ true).owed h hh
  · rw [hccc] at hk
    exact hs.addrs k c hk

/-! ## Subscribing -/

/-- The connection's entries of the CCC carry the address it has now. -/
def Own (s : Caching) (c : Conn) : Prop := ∀ e ∈ s.ccc.cfg, c.owns e = true → e.peer = c.dst

theorem owns_of_key (hid : e.id = c.id) (hpeer : e.peer = c.dst) : c.owns e = true := by
  simp [Conn.owns, Conn.isPeer, hid, hpeer]

theorem id_of_owns (h : c.owns e = true) : e.id = c.id := by
  simp only [Conn.owns, Conn.isPeer, Bool.and_eq_true, beq_iff_eq] at h
  exact h.1.symm

variable {ccc : CccState}

theorem keeps_ccc (h : ccc.conns = s.ccc.conns) (id : ℕ) (peer : Addr) :
    Keeps s { s with ccc } id peer := by
  refine ⟨fun h => h, fun _ h => h, fun _ h => h, fun _ h => h, fun k => ?_⟩
  rintro ⟨hmem, c, hk, hc⟩
  exact ⟨hmem, c, (conn_congr h k).symm.trans hk, hc⟩

theorem keeps_note {n : Note} (h : ∀ (d : Debt) h, h ∈ d.note n id peer → h ∈ d id peer) :
    Keeps s (s.note n) id peer := by
  refine ⟨fun h => h, fun _ h => h, fun _ h => h, fun x hx => h _ x ?_, fun _ h => h⟩
  rw [← owed_append]
  exact hx

theorem mem_subscribed (d : Debt) (hh : h ∈ d.note (.subscribed id peer) id' peer') :
    h ∈ d id' peer' := by
  by_cases hkey : id' = id ∧ peer' = peer
  · obtain ⟨rfl, rfl⟩ := hkey
    simp [Debt.note] at hh
  · simpa only [Debt.note, set_of_ne _ _ hkey] using hh

variable {a : CccCfg}

theorem cfg_storeValue (u : CccState) (hi : u.cfg[i]? = some a) (value len : ℕ) :
    (u.storeValue i value len (some 2)).1.cfg =
      u.cfg.set i (if value = 0 then {} else { a with value }) := by
  have hverdict : verdict (some 2) = none := by decide
  rw [storeValue, hverdict]
  dsimp only
  have hcfg : ∀ (v : CccState), (if value ≠ v.value then v.cccChanged else v).cfg = v.cfg := by
    intro v
    split
    · rfl
    · rfl
  have hmod := (hcfg { u with cfg := u.cfg.modify i ({ · with value := value }) }).trans
    (modify_eq_set_of hi _)
  split
  · exact (congrArg (·.set i {}) hmod).trans (List.set_set _)
  · exact hmod

/-- The entry of the CCC that a write changes, and what it makes of it. -/
structure Wrote (s : Caching) (c : Conn) (value : ℕ) (cfg : List CccCfg) (i : ℕ) (a : CccCfg) :
    Prop where
  entry : s.ccc.cfg[i]? = some a
  cfg : cfg = s.ccc.cfg.set i (if value = 0 then {} else ⟨c.id, c.dst, value⟩)
  mine : (s.ccc.findCccCfg c = some i ∧ a.id = c.id ∧ a.peer = c.dst) ∨
    (s.ccc.findCccCfg c = none ∧ a.peer = .any)

variable {value : List UInt8}

theorem wrote_writeCcc (hown : Own s c) (hlen : ¬ (value.length = 0 ∨ 2 < value.length))
    (hstore : ¬ (s.ccc.findCccCfg c = none ∧ (written value = 0 ∨ s.ccc.findFree = none))) :
    ∃ i a, Wrote s c (written value) (s.ccc.writeCcc c value 0 (some 2)).1.cfg i a := by
  rw [writeCcc, if_neg (not_not.2 rfl), if_neg hlen]
  cases hfind : s.ccc.findCccCfg c with
  | some i =>
    obtain ⟨a, hi, ho⟩ := findCccCfg_some hfind
    have hid := id_of_owns ho
    have hpeer := hown a (mem_of_getElem? hi) ho
    refine ⟨i, a, hi, ?_, .inl ⟨hfind, hid, hpeer⟩⟩
    rw [cfg_storeValue _ hi]
    simp only [hid, hpeer]
  | none =>
    have hvalue : written value ≠ 0 := fun h => hstore ⟨hfind, .inl h⟩
    rw [if_neg hvalue]
    cases hfree : s.ccc.findFree with
    | none => exact absurd ⟨hfind, .inr hfree⟩ hstore
    | some i =>
      obtain ⟨a, hi, hany⟩ := findFree_some hfree
      refine ⟨i, a, hi, ?_, .inr ⟨hfind, hany⟩⟩
      have hi' : (s.ccc.cfg.modify i ({ · with id := c.id, peer := c.dst }))[i]? =
          some { a with id := c.id, peer := c.dst } := by
        rw [modify_eq_set_of hi, getElem?_set_of hi, if_pos rfl]
      rw [cfg_storeValue _ hi', modify_eq_set_of hi, List.set_set]

variable {cfg : List CccCfg}

theorem Wrote.other {v : ℕ} {j : ℕ} (h : Wrote s c v cfg i a)
    (hs : Told s) (hdst : c.dst ≠ .any) (hj : s.ccc.cfg[j]? = some e) (hne : j ≠ i) :
    ¬ (e.id = c.id ∧ e.peer = c.dst) := by
  rintro ⟨hid, hpeer⟩
  rcases h.mine with ⟨-, hid', hpeer'⟩ | ⟨hnone, -⟩
  · exact hne (hs.one j i e a hj h.entry (hpeer ▸ hdst) (hid.trans hid'.symm)
      (hpeer.trans hpeer'.symm))
  · exact findCccCfg_none hnone (mem_of_getElem? hj) (owns_of_key hid hpeer)

theorem Wrote.one {v : ℕ} (h : Wrote s c v cfg i a) (hs : Told s)
    (hdst : c.dst ≠ .any) (j j' : ℕ) (e e' : CccCfg) (hj : cfg[j]? = some e)
    (hj' : cfg[j']? = some e') (hpeer : e.peer ≠ .any) (hid : e.id = e'.id)
    (hpeer' : e.peer = e'.peer) : j = j' := by
  have hnew : ∀ x, (if v = 0 then {} else ⟨c.id, c.dst, v⟩ : CccCfg) = x → x.peer ≠ .any →
      x.id = c.id ∧ x.peer = c.dst := by
    rintro x rfl hx
    split at hx
    · exact absurd rfl hx
    next hv => simp [hv]
  rw [h.cfg, getElem?_set_of h.entry] at hj hj'
  by_cases hji : j = i
  · by_cases hji' : j' = i
    · rw [hji, hji']
    · rw [if_pos hji] at hj
      rw [if_neg hji'] at hj'
      have hkey := hnew e (Option.some.inj hj) hpeer
      exact absurd ⟨hid.symm.trans hkey.1, hpeer'.symm.trans hkey.2⟩ (h.other hs hdst hj' hji')
  · by_cases hji' : j' = i
    · rw [if_neg hji] at hj
      rw [if_pos hji'] at hj'
      have hkey := hnew e' (Option.some.inj hj') (hpeer' ▸ hpeer)
      exact absurd ⟨hid.trans hkey.1, hpeer'.trans hkey.2⟩ (h.other hs hdst hj hji)
    · rw [if_neg hji] at hj
      rw [if_neg hji'] at hj'
      exact hs.one j j' e e' hj hj' hpeer hid hpeer'

theorem keeps_scCccCfgWrite (c : Conn) (v : ℕ) (hpeer : peer ≠ .any)
    (hkey : ¬ (id = c.id ∧ peer = c.dst)) : Keeps s (s.scCccCfgWrite c v) id peer := by
  rw [scCccCfgWrite]
  split
  · exact keeps_scSave _ _ _ _ hpeer
  · exact keeps_scClear _ _ hpeer hkey

/-- A write to the CCC of Service Changed that `Told` survives: the client
subscribes to indications alone, and there is an entry for it. -/
def Subscribes (s : Caching) (c : Conn) (value : List UInt8) : Prop :=
  Own s c ∧ (subscribed { value := CccState.written value } = true →
    CccState.written value = 2 ∧ Room s c.id c.dst)

/-- `cccWrite`, from `cfg_write` on. -/
theorem Told.wrote (hs : Told s) {v : ℕ}
    (hw : Wrote s c v ccc.cfg i a) (hdst : c.dst ≠ .any) (hconns : ccc.conns = s.ccc.conns)
    (hsub : subscribed { value := v } = true → v = 2 ∧ Room s c.id c.dst)
    (hnew : subscribed { value := v } = true → subscribed a = true ∨ owed s.log c.id c.dst = []) :
    Told { s.scCccCfgWrite c v with ccc } := by
  have hsc := (onlySc_scCccCfgWrite s c v).frame
  have hlog := hsc.2.2.1
  have hconns' : ccc.conns = (s.scCccCfgWrite c v).ccc.conns := by rw [hsc.2.1, hconns]
  refine ⟨fun e he hsube => ?_, hw.one hs hdst, fun id peer h hh => ?_, fun k o hk => ?_⟩
  · rcases (mem_set_of hw.entry).1 (hw.cfg ▸ he) with rfl | ⟨j, hne, hj⟩
    · -- the client's own entry
      split at hsube
      · exact absurd hsube (by decide)
      next hv =>
        rw [if_neg hv]
        obtain ⟨htwo, hroom⟩ := hsub hsube
        have hk : Keeps s { s.scCccCfgWrite c v with ccc } c.id c.dst := by
          rw [scCccCfgWrite, if_pos htwo] at hconns' ⊢
          exact (keeps_scSave _ _ _ _ hdst).trans (keeps_ccc hconns' _ _)
        refine ⟨htwo, hdst, ?_⟩
        have hplace : (({ s.scCccCfgWrite c v with ccc } : Caching).findSc c.id c.dst).isSome := by
          have := findSc_scSave hroom 0 0
          rw [scCccCfgWrite, if_pos htwo]
          exact this
        have hold : owed s.log c.id c.dst = [] ∨ Good s c.id c.dst := by
          rcases hnew hsube with ha | hnil
          · rcases hw.mine with ⟨-, hid, hpeer⟩ | ⟨-, hany⟩
            · have := (hs.good a (mem_of_getElem? hw.entry) ha).2.2
              rw [hid, hpeer] at this
              exact .inr this
            · exact absurd hany (hs.good a (mem_of_getElem? hw.entry) ha).2.1
          · exact .inl hnil
        rcases hold with hnil | hgood
        · have hnil' : ∀ h, h ∉ owed ({ s.scCccCfgWrite c v with ccc } : Caching).log c.id c.dst := by
            intro h hh
            have := hk.owed h hh
            simp [hnil] at this
          exact ⟨hplace, fun h hh => absurd hh (hnil' h), fun _ _ h hh => absurd hh (hnil' h)⟩
        · exact hk.good hgood
    · obtain ⟨hvalue, hpeer, hgood⟩ := hs.good e (mem_of_getElem? hj) hsube
      have hkey := hw.other hs hdst hj hne
      exact ⟨hvalue, hpeer, ((keeps_scCccCfgWrite c v hpeer hkey).trans
        (keeps_ccc hconns' _ _)).good hgood⟩
  · exact hs.positive id peer h (hlog ▸ hh)
  · exact hs.addrs k o ((conn_congr hconns k).symm.trans hk)

theorem Told.joins (hs : Told s) (id : ℕ) (peer : Addr) : Told (s.note (.subscribed id peer)) := by
  have hk : ∀ id' peer', Keeps s (s.note (.subscribed id peer)) id' peer' :=
    fun _ _ => keeps_note fun d _ => mem_subscribed d
  exact hs.of_keeps rfl (fun e _ _ _ => hk e.id e.peer) (fun id' peer' => (hk id' peer').owed) hs.addrs

theorem scSave_note (n : Note) (id : ℕ) (peer : Addr) (start stop : ℕ) :
    (s.note n).scSave id peer start stop = (s.scSave id peer start stop).note n := by
  have hfind : ∀ id peer, (s.note n).findSc id peer = s.findSc id peer := fun _ _ => rfl
  cases hi : s.findSc id peer with
  | some i => rw [scSave_found hi, scSave_found ((hfind _ _).trans hi)]; rfl
  | none =>
    cases hfree : s.findSc 0 .any with
    | some i =>
      rw [scSave_claimed hi hfree, scSave_claimed ((hfind _ _).trans hi) ((hfind _ _).trans hfree)]
      rfl
    | none => rw [scSave_full hi hfree, scSave_full ((hfind _ _).trans hi) ((hfind _ _).trans hfree)]

theorem scClear_note (n : Note) (id : ℕ) (peer : Addr) :
    (s.note n).scClear id peer = (s.scClear id peer).note n := by
  have hfind : (s.note n).findSc id peer = s.findSc id peer := rfl
  rw [scClear, scClear, hfind]
  split
  · rfl
  · rfl

theorem scCccCfgWrite_note (n : Note) (c : Conn) (v : ℕ) :
    (s.note n).scCccCfgWrite c v = (s.scCccCfgWrite c v).note n := by
  rw [scCccCfgWrite, scCccCfgWrite]
  split
  · exact scSave_note _ _ _ _ _
  · exact scClear_note _ _ _

theorem owed_subscribed : owed (s.note (.subscribed id peer)).log id peer = [] := by
  have := congrFun (congrFun (owed_append s.log (.subscribed id peer)) id) peer
  rw [Debt.note, set_self] at this
  exact this

theorem Wrote.mine_eq {v : ℕ} (h : Wrote s c v cfg i a) :
    (s.ccc.findCccCfg c).map (fun i => s.ccc.cfg.getD i {}) = some a ∧ a.peer = c.dst ∨
      (s.ccc.findCccCfg c).map (fun i => s.ccc.cfg.getD i {}) = none := by
  rcases h.mine with ⟨hfind, -, hpeer⟩ | ⟨hnone, -⟩
  · refine .inl ⟨?_, hpeer⟩
    rw [hfind, Option.map_some, getD_eq_getElem?_getD, h.entry]
    rfl
  · exact .inr (by rw [hnone]; rfl)

theorem Told.cccWrite (hs : Told s) (hdst : c.dst ≠ .any)
    (hsub : Subscribes s c value) (offset : ℕ) : Told (s.cccWrite c value offset) := by
  rw [Caching.cccWrite]
  split
  · exact hs
  next hearly =>
    split
    · exact hs
    next hstore =>
      obtain ⟨hoff, hlen⟩ := not_or.1 hearly
      obtain rfl : offset = 0 := not_not.1 hoff
      obtain ⟨i, a, hw⟩ := wrote_writeCcc hsub.1 hlen hstore
      have hconns := conns_writeCcc s.ccc c value 0 (some 2)
      have hmine := hw.mine_eq
      generalize (s.ccc.writeCcc c value 0 (some 2)).1 = ccc at hw hconns ⊢
      generalize (s.ccc.findCccCfg c).map (fun i => s.ccc.cfg.getD i {}) = o at hmine ⊢
      have hpeer : o.elim c.dst (·.peer) = c.dst := by
        rcases hmine with ⟨rfl, h⟩ | rfl
        · exact h
        · rfl
      dsimp only
      rw [hpeer]
      split
      · -- a new subscriber
        have hw' : Wrote (s.note (.subscribed c.id c.dst)) c (written value) ccc.cfg i a :=
          ⟨hw.entry, hw.cfg, hw.mine⟩
        have := (hs.joins c.id c.dst).wrote hw' hdst hconns hsub.2
          fun _ => .inr owed_subscribed
        rw [scCccCfgWrite_note] at this
        exact this
      next hnot =>
        refine hs.wrote hw hdst hconns hsub.2 fun hv => .inl ?_
        have ho : o.any Caching.subscribed = true := by
          by_contra h
          exact hnot ⟨h, hv⟩
        rcases hmine with ⟨rfl, -⟩ | rfl
        · exact ho
        · simp at ho

/-! ## Requests -/

theorem Own.wrote (h : Own s c) {v : ℕ} (hw : Wrote s c v cfg i a)
    (hdst : c.dst ≠ .any) (honAir : c.onAir ≠ .any) : ∀ e ∈ cfg, c.owns e = true → e.peer = c.dst := by
  intro e he ho
  rcases (mem_set_of hw.entry).1 (hw.cfg ▸ he) with rfl | ⟨j, -, hj⟩
  · split at ho
    · simp [Conn.owns, Conn.isPeer, hdst.symm, honAir.symm] at ho
    next hv => rw [if_neg hv]
  · exact h e (mem_of_getElem? hj) ho

theorem Room.scCccCfgWrite (h : Room s c.id c.dst) (v : ℕ) :
    Room (s.scCccCfgWrite c v) c.id c.dst := by
  rw [Caching.scCccCfgWrite]
  split
  · exact .inl (findSc_scSave h 0 0)
  · exact h.scClear

variable {value' : List UInt8}

theorem Subscribes.cccWrite (h : Subscribes s c value) (hown : Own s c)
    (hdst : c.dst ≠ .any) (honAir : c.onAir ≠ .any) (offset : ℕ) :
    Subscribes (s.cccWrite c value' offset) c value := by
  rw [Caching.cccWrite]
  split
  · exact h
  next hearly =>
    split
    · exact h
    next hstore =>
      obtain ⟨hoff, hlen⟩ := not_or.1 hearly
      obtain rfl : offset = 0 := not_not.1 hoff
      obtain ⟨i, a, hw⟩ := wrote_writeCcc hown hlen hstore
      have hown' := hown.wrote hw hdst honAir
      have hroom := fun hv => (h.2 hv).imp_right fun r => r.scCccCfgWrite (written value')
      dsimp only
      split
      · exact ⟨hown', hroom⟩
      · exact ⟨hown', hroom⟩

theorem Still.subscribes (h : Still s s') (hs : Subscribes s c value) : Subscribes s' c value := by
  rw [Subscribes, Own, Room, h.ccc, h.findSc, h.findSc]
  exact hs

/-- **The writes that `Told` survives.** -/
def Writes (s : Caching) (c : Conn) (handle : ℕ) (value : List UInt8) : Prop :=
  handle = s.cfg.scCccHandle → Subscribes s c value

variable {handle : ℕ}

theorem Still.writes (h : Still s s')
    (hs : Writes s c handle value) : Writes s' c handle value := by
  intro hh
  rw [h.cfg] at hh
  exact h.subscribes (hs hh)

theorem cfg_cccWrite (c : Conn) (value : List UInt8) (offset : ℕ) :
    (s.cccWrite c value offset).cfg = s.cfg := (quiet_cccWrite c value offset).cfg

theorem Told.attrWrite (hs : Told s) (hdst : c.dst ≠ .any)
    (hw : Writes s c handle value) (offset : ℕ) : Told (s.attrWrite c handle value offset) := by
  rw [Caching.attrWrite]
  split
  · exact (still_cfWrite _ _ _).told hs
  · split
    next hh => exact hs.cccWrite hdst (hw hh) offset
    · exact hs

theorem Writes.attrWrite {handle' : ℕ}
    (h : Writes s c handle value) (hw : Writes s c handle' value') (hdst : c.dst ≠ .any)
    (honAir : c.onAir ≠ .any) (offset : ℕ) :
    Writes (s.attrWrite c handle' value' offset) c handle value := by
  rw [Caching.attrWrite]
  split
  · exact (still_cfWrite _ _ _).writes h
  · split
    next hh =>
      intro hh'
      rw [cfg_cccWrite] at hh'
      exact (h hh').cccWrite (hw hh).1 hdst honAir offset
    · exact h

theorem Told.attWriteRsp (hs : Told s) (hdst : c.dst ≠ .any) (b : Option ℕ) (req : Bool)
    (hw : Writes s c handle value) (offset : ℕ) :
    Told (s.attWriteRsp k c b req handle value offset).2 := by
  have hgate := still_gate (s := s) k c b req
  rw [Caching.attWriteRsp]
  split
  next heq =>
    rw [heq] at hgate
    exact hgate.told hs
  next heq =>
    rw [heq] at hgate
    exact (hgate.told hs).attrWrite hdst (hgate.writes hw) offset

theorem Writes.attWriteRsp {handle' : ℕ}
    (h : Writes s c handle value) (hw : Writes s c handle' value') (hdst : c.dst ≠ .any)
    (honAir : c.onAir ≠ .any) (b : Option ℕ) (req : Bool) (offset : ℕ) :
    Writes (s.attWriteRsp k c b req handle' value' offset).2 c handle value := by
  have hgate := still_gate (s := s) k c b req
  rw [Caching.attWriteRsp]
  split
  next heq =>
    rw [heq] at hgate
    exact hgate.writes h
  next heq =>
    rw [heq] at hgate
    exact (hgate.writes h).attrWrite (hgate.writes hw) hdst honAir offset

theorem cfg_attrWrite (handle : ℕ) (value : List UInt8) (offset : ℕ) :
    (s.attrWrite c handle value offset).cfg = s.cfg := by
  rw [Caching.attrWrite]
  split
  · exact (still_cfWrite _ _ _).cfg
  · split
    · exact cfg_cccWrite _ _ _
    · rfl

theorem cfg_attWriteRsp (b : Option ℕ) (req : Bool) (handle : ℕ) (value : List UInt8)
    (offset : ℕ) : (s.attWriteRsp k c b req handle value offset).2.cfg = s.cfg := by
  have hgate := (still_gate (s := s) k c b req).cfg
  rw [Caching.attWriteRsp]
  split
  next heq => exact (congrArg (·.2.cfg) heq).symm.trans hgate
  next heq => exact (cfg_attrWrite _ _ _).trans ((congrArg (·.2.cfg) heq).symm.trans hgate)

theorem Told.attWriteReq (hs : Told s) (hdst : c.dst ≠ .any) (b : Option ℕ)
    (hw : Writes s c handle value) : Told (s.attWriteReq k c b handle value) := by
  have harr := still_arrive (s := s) k c
  exact (still_errorRsp k b _).told ((harr.told hs).attWriteRsp hdst b true (harr.writes hw) 0)

/-! ### Execute Write -/

/-- The writes that `att_exec_write_rsp` makes of a prepare queue, for `fuel`
rounds. -/
def execWrites (size : ℕ) : ℕ → List Att.Prep → List (ℕ × List UInt8)
  | 0, _ | _, [] => []
  | fuel + 1, buf :: queue =>
    let r := Att.Server.execWriteReassemble size buf.handle buf.offset queue buf.data
    if r.err ≠ 0 then [] else (buf.handle.toNat, r.data) :: execWrites size fuel r.list

theorem Told.execLoop (hs : Told s) (hdst : c.dst ≠ .any) (honAir : c.onAir ≠ .any) (b : Option ℕ)
    {flags : UInt8} {fuel : ℕ}
    (hw : flags = Att.flagExec → ∀ w ∈ execWrites s.cfg.reassembledSize fuel (s.att k).prepQueue,
      Writes s c w.1 w.2) : Told (execLoop k c b flags fuel s) := by
  induction fuel generalizing s with
  | zero => exact hs
  | succ fuel ih =>
    rw [Caching.execLoop]
    cases hq : (s.att k).prepQueue with
    | nil => exact hs
    | cons buf queue =>
      dsimp only
      rw [hq, execWrites] at hw
      generalize Att.Server.execWriteReassemble s.cfg.reassembledSize buf.handle buf.offset queue
        buf.data = r at hw ⊢
      have hset : Still s (s.setAtt k { s.att k with prepQueue := r.list }) :=
        still_setAtt fun _ h => h
      have hqueue : ((s.setAtt k { s.att k with prepQueue := r.list }).att k).prepQueue = r.list := by
        simp [setAtt]
      generalize s.setAtt k { s.att k with prepQueue := r.list } = u at hset hqueue ⊢
      split
      · exact hset.told hs
      next hr =>
        have hr' : r.err = 0 := not_not.1 hr
        split
        next hflags =>
          have hw' := hw hflags
          rw [if_neg (not_not.2 hr')] at hw'
          have hhead := hset.writes (hw' _ mem_cons_self)
          have hrest : ∀ w ∈ execWrites s.cfg.reassembledSize fuel r.list,
              Writes s c w.1 w.2 := fun w hmem => hw' w (mem_cons_of_mem _ hmem)
          have hnext := queue_attWriteRsp (s := u) (k := k) (c := c) (b := b) k true
            buf.handle.toNat r.data buf.offset.toNat
          have hcfg := cfg_attWriteRsp (s := u) (k := k) (c := c) b true buf.handle.toNat r.data
            buf.offset.toNat
          have hwrites : ∀ w ∈ execWrites s.cfg.reassembledSize fuel r.list,
              Writes (u.attWriteRsp k c b true buf.handle.toNat r.data buf.offset.toNat).2 c w.1 w.2 :=
            fun w hmem => (hset.writes (hrest w hmem)).attWriteRsp hhead hdst honAir b true _
          have hinv := (hset.told hs).attWriteRsp (k := k) hdst b true hhead buf.offset.toNat
          generalize u.attWriteRsp k c b true buf.handle.toNat r.data buf.offset.toNat = x
            at hnext hcfg hwrites hinv ⊢
          have herr := still_errorRsp (s := x.2) k b x.1
          refine ih (herr.told hinv) fun _ w hmem => herr.writes (hwrites w ?_)
          rwa [hnext, hqueue, herr.cfg, hcfg, hset.cfg] at hmem
        next hflags => exact ih (hset.told hs) fun h => absurd h hflags

/-! ## What is stored is restored -/

theorem Told.restored (hs : Told s) (hk : s.ccc.conn k = some c) (hi : s.findSc c.id c.dst = some i) :
    Told (s.indicated k c.id c.dst (s.sc i).start (s.sc i).stop .restore) := by
  refine ⟨fun e he hsub => ?_, hs.one, fun id peer h hh => ?_, hs.addrs⟩
  · obtain ⟨hvalue, hpeer, hgood⟩ := hs.good e he hsub
    refine ⟨hvalue, hpeer, hgood.place, fun h hh => ?_, ?_⟩
    · exact hgood.covered h (mem_owed_indicated hh).1
    · rintro j ⟨hmem, c', hj, hget, hid, hdst⟩ h hh
      obtain ⟨hold, hout⟩ := mem_owed_indicated hh
      rcases mem_indications_indicated hmem with hmem | ⟨rfl, -⟩
      · exact hgood.restoring j ⟨hmem, c', hj, hget, hid, hdst⟩ h hold
      · -- the stored range is the one that is sent
        obtain rfl : c = c' := Option.mem_unique hk hj
        rcases hgood.covered h hold with hp | ⟨i', hi', -, hin⟩
        · exact hp
        · rw [← hid, ← hdst, hi] at hi'
          obtain rfl := Option.some.inj hi'
          exact absurd hin (hout ⟨hid.symm, hdst.symm⟩)
  · exact hs.positive id peer h (mem_owed_indicated hh).1

theorem Told.scRestore (hs : Told s) (hk : s.ccc.conn k = some c) (sends : Bool) :
    Told (s.scRestore k c sends) := by
  rw [Caching.scRestore]
  split
  · exact hs
  next i hi =>
    split
    · exact hs
    split
    · exact hs.restored hk hi
    · exact hs

theorem Told.updateCcc (hs : Told s) (hk : s.ccc.conn k = some c) (allowed sends : Bool) :
    Told (s.updateCcc k c allowed sends) := by
  have hcfg : (s.ccc.updateCcc c allowed).cfg = s.ccc.cfg := by
    rw [CccState.updateCcc]
    split
    · rfl
    · rfl
  have hconns := conns_updateCcc s.ccc c allowed
  have hk' : (s.ccc.updateCcc c allowed).conn k = some c := (conn_congr hconns k).trans hk
  rw [Caching.updateCcc]
  split
  · have hccc : Told { s with ccc := s.ccc.updateCcc c allowed } :=
      hs.of_keeps hcfg (fun e _ _ _ => keeps_ccc hconns e.id e.peer) (fun _ _ _ h => h)
        fun k c hk => hs.addrs k c ((conn_congr hconns k).symm.trans hk)
    exact hccc.scRestore hk' sends
  · exact hs

theorem Told.encryptChange (hs : Told s) (hk : s.ccc.conn k = some c) (allowed sends : Bool) :
    Told (s.encryptChange k c allowed sends) := by
  rw [Caching.encryptChange]
  split
  · exact hs.updateCcc hk allowed sends
  · exact (hs.updateCcc hk allowed sends).scIndicate 1 0xffff

theorem Told.scReset (hs : Told s) (hi : s.findSc id peer = some i)
    (hrest : ∀ e ∈ s.ccc.cfg, subscribed e = true → e.id = id → e.peer = peer →
      ∀ h ∈ owed s.log id peer, Pending s h) : Told (s.scReset i) := by
  obtain ⟨-, ⟨hid, hpeer⟩, -⟩ := findSc_eq_some.1 hi
  refine ⟨fun e he hsub => ?_, hs.one, hs.positive, hs.addrs⟩
  obtain ⟨hvalue, hany, hgood⟩ := hs.good e he hsub
  refine ⟨hvalue, hany, ?_⟩
  by_cases hkey : e.id = id ∧ e.peer = peer
  · have hp : ∀ h ∈ owed s.log e.id e.peer, Pending s h := by
      have := hrest e he hsub hkey.1 hkey.2
      rwa [← hkey.1, ← hkey.2] at this
    refine ⟨?_, fun h hh => .inl (hp h hh), fun _ _ h hh => hp h hh⟩
    have hfind : (s.scReset i).findSc e.id e.peer = s.findSc e.id e.peer :=
      findSc_setSc_same (e := { s.sc i with start := 0, stop := 0 }) rfl rfl e.id e.peer
    rw [hfind]
    exact hgood.place
  · refine (keeps_setSc_other (fun h => hkey ?_) fun h => hkey ?_).good hgood
    · exact ⟨h.1.symm.trans hid, h.2.symm.trans hpeer⟩
    · exact ⟨h.1.symm.trans hid, h.2.symm.trans hpeer⟩

theorem Told.scRsp (hs : Told s) (hk : s.ccc.conn k = some c) {j : ℕ} {ind : ScInd}
    (hj : (s.att k).indications[j]? = some ind) {ok : Bool} (hup : ok = true → attGet c = true) :
    Told ((s.setAtt k { s.att k with indications := (s.att k).indications.eraseIdx j }).scRsp k c
      ok ind) := by
  have hset : Still s (s.setAtt k { s.att k with
      indications := (s.att k).indications.eraseIdx j }) :=
    still_setAtt fun _ h => mem_of_mem_eraseIdx h
  generalize s.setAtt k { s.att k with indications := (s.att k).indications.eraseIdx j } = u
    at hset ⊢
  cases ok with
  | false => exact (hset.trans (still_scRsp_fail k c ind)).told hs
  | true =>
    cases ind with
    | indicate =>
      have hwork : Still u { u with indicatePending := false, work := u.work || u.rangeChanged } :=
        ⟨rfl, rfl, rfl, fun _ _ h => h, rfl, rfl, rfl, rfl⟩
      exact (hset.trans (hwork.trans (still_confirm _ _ _))).told hs
    | restore =>
      have hall := hset.trans (still_confirm (s := u) k c true)
      have hrest : Restoring s k c.id c.dst :=
        ⟨mem_of_getElem? hj, c, hk, hup rfl, rfl, rfl⟩
      rw [Caching.scRsp]
      generalize u.confirm k c true = v at hall ⊢
      rw [if_pos rfl]
      split
      · exact hall.told hs
      next i hi =>
        refine (hall.told hs).scReset hi fun e he hsub hid hdst h hh => ?_
        rw [hall.ccc] at he
        rw [hall.owed] at hh
        have hkeeps := hall.keeps e.id e.peer
        refine hkeeps.pending h ((hs.good e he hsub).2.2.restoring k ?_ h ?_)
        · rwa [hid, hdst]
        · rwa [hid, hdst]

/-! ## Connections -/

theorem keeps_conns (h : ∀ j o', ccc.conn j = some o' → attGet o' = true →
      .restore ∈ (s.att j).indications →
        ∃ o, s.ccc.conn j = some o ∧ attGet o = true ∧ o.id = o'.id ∧ o.dst = o'.dst)
    (id : ℕ) (peer : Addr) : Keeps s { s with ccc } id peer := by
  refine ⟨fun h => h, fun _ h => h, fun _ h => h, fun _ h => h, fun j => ?_⟩
  rintro ⟨hmem, o', hj, hget, hid, hdst⟩
  obtain ⟨o, ho, hget', hid', hdst'⟩ := h j o' hj hget hmem
  exact ⟨hmem, o, ho, hget', hid'.trans hid, hdst'.trans hdst⟩

theorem Told.setConn (hs : Told s) (k : ℕ) (o : Option Conn) (haddrs : ∀ c ∈ o, c.dst ≠ .any ∧ c.onAir ≠ .any)
    (hidle : ∀ c ∈ o, attGet c = true → .restore ∉ (s.att k).indications) :
    Told { s with ccc := s.ccc.setConn k o } := by
  refine hs.of_keeps rfl (fun e _ _ _ => keeps_conns (fun j o' hj hget hmem => ?_) _ _)
    (fun _ _ _ h => h) fun j c hj => ?_
  · rw [conn_setConn] at hj
    split at hj
    next hjk => exact absurd (hjk.1 ▸ hmem) (hidle o' hj hget)
    next => exact ⟨o', hj, hget, rfl, rfl⟩
  · rw [conn_setConn] at hj
    split at hj
    · exact haddrs c hj
    · exact hs.addrs j c hj

theorem Told.connected (hs : Told s) (hk : s.ccc.conn k = some c) {dst onAir : Addr}
    (hdst : dst ≠ .any) (honAir : onAir ≠ .any) (allowed sends : Bool) :
    Told (({ s with ccc := s.ccc.setConn k (some { c with
      dst, onAir, connected := true, attached := true }) }.setAtt k {}
        |>.note (.connected k)).updateCcc k
          { c with dst, onAir, connected := true, attached := true } allowed sends) := by
  set c' : Conn := { c with dst, onAir, connected := true, attached := true }
  have hempty : Still s (s.setAtt k {}) := still_setAtt nofun
  have hconn : Told { s.setAtt k {} with ccc := (s.setAtt k {}).ccc.setConn k (some c') } := by
    refine (hempty.told hs).setConn k (some c') ?_ fun _ _ _ => ?_
    · rintro _ ⟨⟩
      exact ⟨hdst, honAir⟩
    · simp [setAtt]
  have hnote := (still_note (s := { s.setAtt k {} with ccc := s.ccc.setConn k (some c') })
    (n := .connected k) fun _ => rfl).told hconn
  exact hnote.updateCcc (conn_setConn_self hk (some c')) allowed sends

theorem still_failIndications (k : ℕ) (c : Conn) : Still s (s.failIndications k c) :=
  (still_setAtt (a := { s.att k with indications := [] }) nofun).trans
    (foldl_rel (R := Still) (fun _ => .rfl) Still.trans (fun _ _ => still_scRsp_fail _ _ _) _ _)

theorem keeps_renamed (id' : ℕ) (peer' : Addr) :
    Keeps s (s.note (.renamed id' peer' peer')) id peer := by
  refine keeps_note fun d h hh => ?_
  by_cases hkey : id = id' ∧ peer = peer'
  · obtain ⟨rfl, rfl⟩ := hkey
    simpa [Debt.note] using hh
  · simpa only [Debt.note, set_of_ne _ _ hkey] using hh

theorem Told.keeps (hs : Told s) (hccc : s'.ccc = s.ccc)
    (hk : ∀ id peer, Keeps s s' id peer) : Told s' :=
  hs.of_keeps (by rw [hccc]) (fun e _ _ _ => hk e.id e.peer) (fun id peer => (hk id peer).owed)
    fun k c hc => hs.addrs k c (by rwa [hccc] at hc)

theorem Own.disconnectedCfg (h : Own s c) (he : e ∈ s.ccc.cfg) : s.ccc.disconnectedCfg c e = e ∨
      (s.ccc.disconnectedCfg c e = {} ∧ s.ccc.bondExists c.id c.dst = false ∧ c.owns e = true) := by
  rw [CccState.disconnectedCfg]
  split
  · exact .inl rfl
  split
  · exact .inl rfl
  next ho =>
    have ho' : c.owns e = true := by simpa using ho
    split
    next hb => exact .inr ⟨rfl, by simpa using hb, ho'⟩
    next =>
      refine .inl ?_
      rw [← h e he ho']

theorem cfg_disconnectedCb (u : CccState) (c : Conn) (h : u.value ≠ 0) :
    (u.disconnectedCb c).cfg = u.cfg.map (u.disconnectedCfg c) := by
  rw [CccState.disconnectedCb, if_neg h]

theorem Told.disconnected_same (hs : Told s) (hzero : s.ccc.value ≠ 0)
    (hid : ∀ e ∈ s.ccc.cfg, s.ccc.disconnectedCfg c e = e) :
    Told { s with ccc := s.ccc.disconnectedCb c } := by
  have hconns := conns_disconnectedCb s.ccc c
  have hcfg : (s.ccc.disconnectedCb c).cfg = s.ccc.cfg := by
    rw [cfg_disconnectedCb _ _ hzero]
    exact (map_congr_left hid).trans s.ccc.cfg.map_id
  exact hs.of_keeps hcfg (fun e _ _ _ => keeps_ccc hconns e.id e.peer) (fun _ _ _ h => h)
    fun k o hk => hs.addrs k o ((conn_congr hconns k).symm.trans hk)

theorem Told.foldl_renamed (hs : Told s) {peer : Addr} {l : List CccCfg}
    (hl : ∀ e ∈ l, e.peer = peer) :
    Told (l.foldl (fun s e => s.note (.renamed e.id e.peer peer)) s) := by
  induction l generalizing s with
  | nil => exact hs
  | cons e l ih =>
    refine ih ?_ fun x hx => hl x (mem_cons_of_mem _ hx)
    dsimp only
    rw [hl e mem_cons_self]
    exact hs.keeps rfl fun _ _ => keeps_renamed _ _

theorem Told.cleared (hs : Told s) {id : ℕ} {addr : Addr}
    (hcfg : ∀ (j : ℕ) e, ccc.cfg[j]? = some e → e = {} ∨ (s.ccc.cfg[j]? = some e ∧
      (subscribed e = true → ¬ (e.id = id ∧ e.peer = addr))))
    (hkeeps : ∀ id' peer', Keeps s { s with ccc } id' peer')
    (haddrs : ∀ k o, ccc.conn k = some o → o.dst ≠ .any ∧ o.onAir ≠ .any) :
    Told ({ s with ccc }.scClear id addr) := by
  obtain ⟨-, hccc, hlog, -⟩ := (onlySc_scClear { s with ccc } id addr).frame
  have hold : ∀ (j : ℕ) e, ccc.cfg[j]? = some e → e.peer ≠ .any → s.ccc.cfg[j]? = some e := by
    intro j e hj hany
    rcases hcfg j e hj with rfl | ⟨h, -⟩
    · exact absurd rfl hany
    · exact h
  refine ⟨fun e he hsub => ?_, fun i j a a' hi hj hpeer hid hpeer' => ?_,
    fun id peer h hh => hs.positive id peer h (hlog ▸ hh), fun k o hk => haddrs k o (by rwa [hccc] at hk)⟩
  · rw [hccc] at he
    obtain ⟨j, hj⟩ := mem_iff_getElem?.1 he
    rcases hcfg j e hj with rfl | ⟨hj', hkey⟩
    · exact absurd hsub (by decide)
    · obtain ⟨hvalue, hpeer, hgood⟩ := hs.good e (mem_of_getElem? hj') hsub
      exact ⟨hvalue, hpeer, ((hkeeps _ _).trans (keeps_scClear _ _ hpeer (hkey hsub))).good hgood⟩
  · rw [hccc] at hi hj
    exact hs.one i j a a' (hold i a hi hpeer) (hold j a' hj (hpeer' ▸ hpeer)) hpeer hid hpeer'

theorem Told.disconnected_clear (hs : Told s) (hown : Own s c) (hzero : s.ccc.value ≠ 0)
    (hbond : s.ccc.bondExists c.id c.dst = false) :
    Told ({ s with ccc := s.ccc.disconnectedCb c }.scClear c.id c.dst) := by
  have hconns := conns_disconnectedCb s.ccc c
  refine hs.cleared (fun j e hj => ?_) (keeps_ccc hconns) fun k o hk => ?_
  · rw [cfg_disconnectedCb _ _ hzero, getElem?_map, Option.map_eq_some_iff] at hj
    obtain ⟨e₀, hj, rfl⟩ := hj
    rcases hown.disconnectedCfg (mem_of_getElem? hj) with heq | ⟨heq, -, -⟩
    · rw [heq]
      refine .inr ⟨hj, fun hsub => ?_⟩
      -- it would have been the connection's
      rintro ⟨hid, hpeer⟩
      have hvalue := (hs.good e₀ (mem_of_getElem? hj) hsub).1
      rw [disconnectedCfg, if_neg (by simp [hvalue]),
        if_neg (by simp [owns_of_key hid hpeer]), if_pos (by simp [hbond])] at heq
      rw [← heq] at hsub
      exact absurd hsub (by decide)
    · exact .inl heq
  · exact hs.addrs k o ((conn_congr hconns k).symm.trans hk)

theorem Told.disconnectedCb (hs : Told s) (hown : Own s c) : Told (s.disconnectedCb c) := by
  rw [Caching.disconnectedCb]
  by_cases hzero : s.ccc.value = 0
  · rw [if_pos (.inl hzero), CccState.disconnectedCb, if_pos hzero]
    exact hs
  split
  next hidle =>
    -- it has no entry with a value
    refine hs.disconnected_same hzero fun e he => ?_
    have hno := filter_eq_nil_iff.1 (hidle.resolve_left hzero) e he
    rw [disconnectedCfg]
    split
    · rfl
    next hv =>
      have ho : c.owns e = false := by simpa [hv] using hno
      simp [ho]
  split
  next hbond =>
    refine (hs.disconnected_same hzero fun e he => ?_).foldl_renamed fun e he => ?_
    · rcases hown.disconnectedCfg he with h | ⟨-, h, -⟩
      · exact h
      · exact absurd (hbond.symm.trans h) (by simp)
    · simp only [mem_filter, Bool.and_eq_true] at he
      exact hown e he.1.1 he.1.2.2
  next hbond => exact hs.disconnected_clear hown hzero (by simpa using hbond)

theorem Told.disconnected (hs : Told s) (hk : s.ccc.conn k = some c) (hown : Own s c) :
    Told (s.disconnected k c) := by
  have haddrs := hs.addrs k c hk
  rw [Caching.disconnected]
  dsimp only
  set c' : Conn := { c with connected := false }
  have hdown : Told { s with ccc := s.ccc.setConn k (some c') } := by
    refine hs.setConn k (some c') ?_ fun o ho hget => ?_
    · rintro _ ⟨⟩
      exact haddrs
    · obtain rfl := Option.some.inj ho
      simp [attGet, c'] at hget
  have hfail := still_failIndications (s := { s with ccc := s.ccc.setConn k (some c') }) k c'
  have htold := hfail.told hdown
  have hown' : Own (failIndications { s with ccc := s.ccc.setConn k (some c') } k c') c' := by
    intro e he
    rw [hfail.ccc] at he
    exact hown e he
  generalize failIndications { s with ccc := s.ccc.setConn k (some c') } k c' = u at htold hown' ⊢
  have hremoved := (still_removeCf c').told (htold.disconnectedCb hown')
  generalize (u.disconnectedCb c').removeCf c' = v at hremoved ⊢
  have hidle : Still { v with ccc := v.ccc.setConn k (some { c' with attached := false }) }
      ({ v with ccc := v.ccc.setConn k (some { c' with attached := false }) }.setAtt k {}) :=
    still_setAtt (by simp)
  refine hidle.told (hremoved.setConn k _ ?_ fun o ho hget => ?_)
  · rintro _ ⟨⟩
    exact haddrs
  · obtain rfl := Option.some.inj ho
    simp [attGet] at hget

/-- No subscriber has the private address, and over no connection of it
something is restored. -/
def Settled (s : Caching) (k : ℕ) (c : Conn) : Prop :=
  (∀ e ∈ s.ccc.cfg, e.peer ≠ c.onAir) ∧
    ∀ j ≤ k, ∀ o ∈ s.ccc.conn j, o.dst = c.dst → .restore ∉ (s.att j).indications

instance (s : Caching) (k : ℕ) (c : Conn) : Decidable (Settled s k c) :=
  inferInstanceAs (Decidable ((∀ e ∈ s.ccc.cfg, _) ∧ ∀ j ≤ k, _))

theorem Told.identityResolved (hs : Told s) (c : Conn) {addr : Addr}
    (hno : ∀ e ∈ s.ccc.cfg, e.peer ≠ c.onAir) : Told (s.identityResolved c addr) := by
  have hcfg : s.ccc.cfg.map (resolveCcc c.onAir addr) = s.ccc.cfg := by
    refine (map_congr_left fun e he => ?_).trans s.ccc.cfg.map_id
    exact if_neg (hno e he)
  have hnone : (s.ccc.cfg.filter fun e => decide (e.peer = c.onAir) && subscribed e) = [] :=
    filter_eq_nil_iff.2 fun e he => by simp [hno e he]
  rw [Caching.identityResolved]
  split
  · rw [hcfg, hnone]
    dsimp only [foldl_nil]
    split
    · exact hs
    · exact (still_setCf _ _).told hs
  · exact hs

theorem Told.resolve (hs : Told s) {addr : Addr} (haddr : addr ≠ .any) (hset : Settled s k c) :
    Told (s.resolve k c addr) := by
  rw [Caching.resolve]
  have hconv : ∀ j o', ({ s.ccc with conns := convertConns k c addr s.ccc.conns } : CccState).conn j =
      some o' → ∃ o, s.ccc.conn j = some o ∧
        o' = if j ≤ k ∧ o.dst = c.dst then { o with dst := addr } else o := by
    intro j o' hj
    simp only [conn, convertConns, getElem?_mapIdx] at hj
    rcases ho : s.ccc.conns[j]? with _ | _ | o
    · simp [ho] at hj
    · simp [ho] at hj
    · rw [ho] at hj
      refine ⟨o, by rw [conn, ho]; rfl, ?_⟩
      exact (Option.some.inj hj).symm
  refine Told.identityResolved ?_ _ hset.1
  refine hs.of_keeps rfl (fun e _ _ _ => keeps_conns (fun j o' hj hget hmem => ?_) _ _)
    (fun _ _ _ h => h) fun j o' hj => ?_
  · obtain ⟨o, ho, rfl⟩ := hconv j o' hj
    split at hget
    next hren => exact absurd hmem (hset.2 j hren.1 o ho hren.2)
    next hren =>
      rw [if_neg hren]
      exact ⟨o, ho, hget, rfl, rfl⟩
  · obtain ⟨o, ho, rfl⟩ := hconv j o' hj
    split
    · exact ⟨haddr, (hs.addrs j o ho).2⟩
    · exact hs.addrs j o ho

theorem cfg_unpair (u : CccState) (id : ℕ) (addr : Addr) :
    (u.cccFindCfg id addr = none ∧ (u.unpair id addr).cfg = u.cfg) ∨
      ∃ i a, u.cccFindCfg id addr = some i ∧ u.cfg[i]? = some a ∧ a.id = id ∧ a.peer = addr ∧
        (u.unpair id addr).cfg = u.cfg.set i {} := by
  have hfind : ({ u.hangUp id addr with bonds := u.bonds.filter (· ≠ (id, addr)) } :
      CccState).cccFindCfg id addr = u.cccFindCfg id addr := rfl
  rw [CccState.unpair, removePeer, hfind]
  cases hi : u.cccFindCfg id addr with
  | none => exact .inl ⟨rfl, rfl⟩
  | some i =>
    obtain ⟨hlt, hkey, -⟩ := findIdx?_eq_some_iff_getElem.1 hi
    simp only [Bool.and_eq_true, beq_iff_eq] at hkey
    exact .inr ⟨i, u.cfg[i], rfl, getElem?_eq_getElem hlt, hkey.1, hkey.2, rfl⟩

theorem conn_unpair (u : CccState) (id : ℕ) (addr : Addr) (j : ℕ) :
    (u.unpair id addr).conn j = (u.hangUp id addr).conn j := by
  rw [CccState.unpair, removePeer]
  split
  · rfl
  · rfl

theorem Told.unpair (hs : Told s) (id : ℕ) (addr : Addr) : Told (s.unpair id addr) := by
  have hclear : Told ({ s with ccc := s.ccc.unpair id addr }.scClear id addr) := by
    refine hs.cleared (fun j e hj => ?_) (keeps_conns fun j o' hj hget _ => ?_) fun k o hk => ?_
    · rcases cfg_unpair s.ccc id addr with ⟨hnone, hcfg⟩ | ⟨i, a, -, hi, hid, hpeer, hcfg⟩
      · rw [hcfg] at hj
        refine .inr ⟨hj, fun _ hkey => ?_⟩
        have := findIdx?_eq_none_iff.1 hnone e (mem_of_getElem? hj)
        simp [hkey] at this
      · rw [hcfg, getElem?_set_of hi] at hj
        split at hj
        · exact .inl (Option.some.inj hj).symm
        next hji =>
          refine .inr ⟨hj, fun hsub hkey => hji ?_⟩
          exact hs.one j i e a hj hi (hs.good e (mem_of_getElem? hj) hsub).2.1
            (hkey.1.trans hid.symm) (hkey.2.trans hpeer.symm)
    · rw [conn_unpair] at hj
      rcases s.ccc.conn_hangUp id addr j with hsame | ⟨o, -, hdown⟩
      · exact ⟨o', hsame.symm.trans hj, hget, rfl, rfl⟩
      · obtain rfl := Option.mem_unique hdown hj
        simp [attGet] at hget
    · rw [conn_unpair] at hk
      rcases s.ccc.conn_hangUp id addr k with hsame | ⟨o', ho', hdown⟩
      · exact hs.addrs k o (hsame.symm.trans hk)
      · obtain rfl := Option.mem_unique hdown hk
        exact hs.addrs k o' ho'
  rw [Caching.unpair]
  generalize { s with ccc := s.ccc.unpair id addr }.scClear id addr = u at hclear ⊢
  dsimp only
  split
  · exact hclear
  · exact (still_setCf _ _).told hclear

/-! ## Runs -/

/-- **The condition on a step**: who subscribes asks for indications alone and
has an entry for its range; a connection's entries of the CCC carry its
address when it writes or leaves; nobody has subscribed under the private
address that is resolved; the handles of a service are between its first and
its last; and an indication reaches each subscriber that is connected. -/
def Informs (s : Caching) : Event → Prop
  | .writeReq k _ handle value | .writeCmd k _ handle value =>
    ∀ c ∈ s.ccc.conn k, Writes s c handle value
  | .execWrite k _ flags => ∀ c ∈ s.ccc.conn k, flags = Att.flagExec →
      ∀ w ∈ execWrites s.cfg.reassembledSize (s.att k).prepQueue.length (s.att k).prepQueue,
        Writes s c w.1 w.2
  | .disconnected k => ∀ c ∈ s.ccc.conn k, Own s c
  | .resolved k _ => ∀ c ∈ s.ccc.conn k, Settled s k c
  | .serviceChanged handles => Handles handles
  | .scWork fails => Reaches s fails
  | _ => True

instance (s : Caching) (c : Conn) (value : List UInt8) : Decidable (Subscribes s c value) :=
  inferInstanceAs (Decidable ((∀ e ∈ s.ccc.cfg, _) ∧ (_ → _ = 2 ∧ (_ = true ∨ _ = true))))

instance (s : Caching) (c : Conn) (handle : ℕ) (value : List UInt8) :
    Decidable (Writes s c handle value) :=
  inferInstanceAs (Decidable (_ → Subscribes s c value))

instance (s : Caching) (c : Conn) : Decidable (Own s c) :=
  inferInstanceAs (Decidable (∀ e ∈ s.ccc.cfg, _))

instance : DecidablePred Handles := fun handles =>
  inferInstanceAs (Decidable (∀ h ∈ handles, _))

instance (s : Caching) : DecidablePred (Informs s)
  | .writeReq k _ handle value | .writeCmd k _ handle value =>
    inferInstanceAs (Decidable (∀ c ∈ s.ccc.conn k, Writes s c handle value))
  | .execWrite k _ flags => inferInstanceAs (Decidable (∀ c ∈ s.ccc.conn k, flags = Att.flagExec →
      ∀ w ∈ execWrites s.cfg.reassembledSize (s.att k).prepQueue.length (s.att k).prepQueue,
        Writes s c w.1 w.2))
  | .disconnected k => inferInstanceAs (Decidable (∀ c ∈ s.ccc.conn k, Own s c))
  | .resolved k _ => inferInstanceAs (Decidable (∀ c ∈ s.ccc.conn k, Settled s k c))
  | .serviceChanged handles => inferInstanceAs (Decidable (Handles handles))
  | .scWork fails => inferInstanceAs (Decidable (Reaches s fails))
  | .create .. | .connected .. | .encryptChange .. | .bonded .. | .down .. | .free .. | .unpair ..
  | .eattUp .. | .eattDown .. | .read .. | .readType .. | .prepareWrite .. | .hashWork
  | .scRsp .. => .isTrue trivial

theorem Told.onRequest (hs : Told s) {f : Conn → Caching}
    (hf : ∀ c, s.ccc.conn k = some c → Told (f c)) : Told (s.onRequest k b f) := by
  rw [Caching.onRequest]
  split
  · exact hs
  next c hk =>
    split
    · exact hf c hk
    · exact hs

theorem Told.onAttached (hs : Told s) {f : Conn → Caching}
    (hf : ∀ c, s.ccc.conn k = some c → c.attached = true → Told (f c)) :
    Told (s.onAttached k f) := by
  rw [Caching.onAttached]
  split
  · exact hs
  next c hk =>
    split
    next hatt => exact hf c hk hatt
    next => exact hs

/-- **One event** keeps what a run keeps, where it meets the condition. -/
theorem Told.step (hs : Told s) {e : Event} (hc : Informs s e) : Told (s.step e) := by
  cases e with
  | create k id dst onAir =>
    rw [Caching.step]
    split
    next hnew =>
      refine hs.setConn k _ ?_ fun o ho hget => ?_
      · rintro _ ⟨⟩
        exact hnew.2.2
      · obtain rfl := Option.some.inj ho
        simp [attGet] at hget
    next => exact hs
  | connected k dst onAir allowed sends =>
    rw [Caching.step]
    split
    · exact hs
    next c hk =>
      split
      · exact hs
      next hno =>
        simp only [not_or] at hno
        exact hs.connected hk hno.2.1 hno.2.2 allowed sends
  | encryptChange k allowed sends =>
    exact hs.onAttached fun c hk _ => hs.encryptChange hk allowed sends
  | bonded k =>
    refine hs.onAttached fun c _ _ => ?_
    have hbond : ∀ id peer, Keeps s
        { s with ccc := { s.ccc with bonds := (c.id, c.dst) :: s.ccc.bonds } } id peer :=
      fun _ _ => ⟨fun h => h, fun _ h => h, fun _ h => h, fun _ h => h, fun _ h => h⟩
    exact hs.of_keeps rfl (fun e _ _ _ => hbond e.id e.peer) (fun _ _ _ h => h) hs.addrs
  | resolved k addr =>
    refine hs.onAttached fun c hk _ => ?_
    split
    next hres => exact hs.resolve hres.2.2.2 (hc c hk)
    next => exact hs
  | down k =>
    refine hs.onAttached fun c hk _ => hs.setConn k _ ?_ fun o ho hget => ?_
    · rintro _ ⟨⟩
      exact hs.addrs k c hk
    · obtain rfl := Option.some.inj ho
      simp [attGet] at hget
  | disconnected k => exact hs.onAttached fun c hk _ => hs.disconnected hk (hc c hk)
  | free k =>
    rw [Caching.step]
    split
    · exact hs
    · exact hs.setConn k none (by simp) (by simp)
  | unpair id addr =>
    rw [Caching.step]
    split
    · exact hs
    · exact hs.unpair id addr
  | eattUp k =>
    refine hs.onAttached fun c _ _ => ?_
    split
    · have hup : Still s (s.setAtt k { s.att k with
          enhanced := (s.att k).enhanced ++ [false] }) := still_setAtt fun _ h => h
      exact hup.told hs
    · exact hs
  | eattDown k j =>
    refine hs.onAttached fun c _ _ => ?_
    have hdown : Still s (s.setAtt k { s.att k with
        enhanced := (s.att k).enhanced.eraseIdx j }) := still_setAtt fun _ h => h
    exact hdown.told hs
  | read k b handles offset =>
    exact hs.onRequest fun c _ => (still_attRead k c b handles offset).told hs
  | readType k b uuid start stop =>
    exact hs.onRequest fun c _ => (still_attReadType k c b uuid start stop).told hs
  | writeReq k b handle value =>
    exact hs.onRequest fun c hk => hs.attWriteReq (hs.addrs k c hk).1 b (hc c hk)
  | writeCmd k b handle value =>
    exact hs.onRequest fun c hk => hs.attWriteRsp (hs.addrs k c hk).1 b false (hc c hk) 0
  | prepareWrite k b prep stored =>
    exact hs.onRequest fun c _ => (still_attPrepareWriteReq k c b prep stored).told hs
  | execWrite k b flags =>
    refine hs.onRequest fun c hk => ?_
    have harr := still_arrive (s := s) k c
    have hatt : ((s.arrive k c).att k).prepQueue = (s.att k).prepQueue := by
      rw [arrive, att_noteClient]
    refine (harr.told hs).execLoop (hs.addrs k c hk).1 (hs.addrs k c hk).2 b fun hflags w hw => ?_
    rw [harr.cfg, hatt] at hw
    exact harr.writes (hc c hk hflags w hw)
  | serviceChanged handles =>
    rw [Caching.step]
    split
    · exact hs
    · exact hs.serviceChanged hc
  | hashWork => exact still_dbHash.told hs
  | scWork fails =>
    rw [Caching.step]
    split
    · exact hs.scProcess hc
    · exact hs
  | scRsp k j ok =>
    refine hs.onAttached fun c hk hatt => ?_
    split
    · exact hs
    next ind hj =>
      split
      · exact hs
      next hup =>
        refine hs.scRsp hk hj fun hok => ?_
        have hconn : c.connected = true := by
          by_contra h
          exact hup ⟨hok, h⟩
        rw [attGet, hconn, hatt]
        rfl

/-- Nobody is connected, and what is stored is in order: who is subscribed
has an entry for its range. -/
structure Loaded (s : Caching) : Prop where
  log : s.log = []
  conns : ∀ o ∈ s.ccc.conns, o = none
  subscribed : ∀ e ∈ s.ccc.cfg, subscribed e = true →
    e.value = 2 ∧ e.peer ≠ .any ∧ (s.findSc e.id e.peer).isSome
  one : ∀ (i j : ℕ) (a a' : CccCfg), s.ccc.cfg[i]? = some a → s.ccc.cfg[j]? = some a' →
    a.peer ≠ .any → a.id = a'.id → a.peer = a'.peer → i = j

theorem Loaded.told (h : Loaded s) : Told s := by
  have hconn : ∀ k c, s.ccc.conn k ≠ some c := by
    intro k c hk
    rw [conn] at hk
    rcases hget : s.ccc.conns[k]? with _ | o
    · simp [hget] at hk
    · rw [hget, h.conns o (mem_of_getElem? hget)] at hk
      simp at hk
  have howed : ∀ id peer n, n ∉ owed s.log id peer := by
    intro id peer n
    rw [h.log]
    exact not_mem_nil
  refine ⟨fun e he hsub => ?_, h.one, fun id peer n hn => absurd hn (howed id peer n),
    fun k c hk => absurd hk (hconn k c)⟩
  obtain ⟨hvalue, hpeer, hplace⟩ := h.subscribed e he hsub
  exact ⟨hvalue, hpeer, hplace, fun n hn => absurd hn (howed _ _ n),
    fun _ _ n hn => absurd hn (howed _ _ n)⟩

/-- **Service Changed over whole runs**: where every step meets the condition,
each handle that changed since a subscriber was last sent a range with it is
pending, or stored for that subscriber. -/
theorem service_changed_covers {s : Caching} {es : List Event} (hs : Loaded s)
    (hrun : Along step Informs s es) : Covered (run step s es) :=
  (inv_run Told (fun _ _ h hc => h.step hc) hs.told hrun).all

theorem loaded_sampleServer : Loaded sampleServer := by
  refine ⟨rfl, fun o ho => eq_of_mem_replicate ho, fun e he hsub => ?_, ?_⟩
  · obtain rfl : e = {} := eq_of_mem_replicate he
    exact absurd hsub (by decide)
  · intro i j a a' hi _ hpeer
    obtain rfl : a = {} := eq_of_mem_replicate (mem_of_getElem? hi)
    exact absurd rfl hpeer

/-- A client connects under an address, and writes the CCC of Service
Changed. -/
def subscribes (addr : Addr) (value : UInt8) : List Event :=
  [.create 0 0 addr addr, .connected 0 addr addr true true, .writeReq 0 none 4 [value, 0]]

/-- The peer leaves, and its object is freed. -/
def leaves : List Event := [.down 0, .disconnected 0, .free 0]

/-- A bonded subscriber is away for the second of three changes, and comes
back. -/
theorem service_changed_covers_sample :
    Covered (run step sampleServer (subscribes samplePeer 2 ++ [.bonded 0,
      .serviceChanged [16, 17], .scWork fun _ => false, .scRsp 0 0 true] ++ leaves ++
      [.serviceChanged [18, 19], .scWork fun _ => false, .create 0 0 samplePeer samplePeer,
        .connected 0 samplePeer samplePeer true true, .serviceChanged [20], .scRsp 0 0 true])) :=
  service_changed_covers loaded_sampleServer (by decide)

/-- A resolvable private address. -/
def samplePrivate : Addr := ⟨1, 0x400000000005⟩

/-- A change is lost: the subscriber bonded under its identity address, and
its range was to be stored under the private one; there is no buffer for the
indication; it subscribed to notifications and indications. -/
theorem change_is_lost :
    Loaded sampleServer ∧
      ¬ Covered (run step sampleServer (subscribes samplePrivate 2 ++
        [.resolved 0 samplePeer, .bonded 0] ++ leaves ++
        [.serviceChanged [16, 17], .scWork fun _ => false])) ∧
      ¬ Covered (run step sampleServer (subscribes samplePeer 2 ++
        [.serviceChanged [16, 17], .scWork fun _ => true])) ∧
      ¬ Covered (run step sampleServer (subscribes samplePeer 3 ++
        [.serviceChanged [16, 17], .scWork fun _ => false])) :=
  ⟨loaded_sampleServer, by decide, by decide, by decide⟩

end Caching

end Gatt

end OpenBlue

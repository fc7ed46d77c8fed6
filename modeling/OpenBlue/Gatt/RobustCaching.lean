import OpenBlue.Gatt.Model.Caching
import OpenBlue.Gatt.Ccc
/-!
# Robust caching — who may use which handles

After a change of the database, a client with robust caching is served again
once it has learnt of the change: it confirmed Service Changed, or asked again
after it read the Database Hash or was told Database Out Of Sync. `View` reads
off the log who has; `Inv` relates the two flags of each stored client to it.

The flags run ahead of the view in four places: a Service Changed indication
that fails counts as confirmed, a command of a change-unaware client counts as
answered with the error, the second write of one Execute Write Request counts
as the next request, and a change forgets the errors sent on the default
identity only.
-/

namespace OpenBlue

namespace Gatt

open Function List CccState Option

/-- What a change of the database makes of an entry of `cf_cfg`. -/
def CfCfg.changed (e : CfCfg) : CfCfg :=
  if e.peer = .any ∨ ¬ e.robust then e else { e with hashRead := false, aware := false }

namespace Caching

variable {s s' t : Caching} {k i : ℕ} {c : Conn} {b : Option ℕ}

/-! ## What a client has learnt -/

/-- What the log tells of each client since the last change: whether it still
has to learn of it, whether it has read the hash, and, of each connection,
whether the error was sent. -/
structure View where
  stale : ℕ → Bool
  hashRead : ℕ → Bool
  warned : ℕ → Bool

/-- **The routes** by which a client becomes change-aware. -/
def View.note (v : View) : Note → View
  | .changed _ => ⟨fun _ => true, fun _ => false, fun _ => false⟩
  | .connected k => { v with warned := update v.warned k false }
  | .request k i single =>
    if v.hashRead i ∨ (single ∧ v.warned k) then
      { v with stale := update v.stale i false }
    else v
  | .outOfSync k => { v with warned := update v.warned k true }
  | .hashRead i => { v with hashRead := update v.hashRead i true }
  | .confirmed i => { v with stale := update v.stale i false }
  | .enabled i =>
    { v with
      stale := update v.stale i false
      hashRead := update v.hashRead i false }
  | .executed _ | .indicated .. | .subscribed .. | .renamed .. => v

/-- The view after a log, from a database that has not changed. -/
def view (log : List Note) : View :=
  log.foldl View.note ⟨fun _ => false, fun _ => false, fun _ => false⟩

/-- **Nothing is carried out for a client that has yet to learn of a
change.** -/
def Safe (log : List Note) : Prop :=
  ∀ pre i post, log = pre ++ .executed i :: post → (view pre).stale i = false

theorem view_append (log : List Note) (n : Note) : view (log ++ [n]) = (view log).note n := by
  simp [view, foldl_append]

theorem safe_append {log : List Note} {n : Note} (h : Safe log)
    (hn : ∀ i, n = .executed i → (view log).stale i = false) : Safe (log ++ [n]) := by
  intro pre i post heq
  rcases post.eq_nil_or_concat with rfl | ⟨post, m, rfl⟩
  · obtain ⟨rfl, hm⟩ := append_inj' heq rfl
    exact hn i (singleton_inj.1 hm)
  · have heq' : log ++ [n] = (pre ++ .executed i :: post) ++ [m] := by
      rw [heq, concat_eq_append, append_assoc, cons_append]
    exact h pre i post (append_inj' heq' rfl).1

/-! ## The invariant -/

/-- **What the flags say is so**: an aware client has learnt of the last
change, one that has read the hash has done so since, and an error that was
sent was. -/
structure Inv (s : Caching) : Prop where
  safe : Safe s.log
  aware : ∀ i < s.cfg.cfMax, (s.cf i).robust → (s.cf i).aware → (view s.log).stale i = false
  hashRead : ∀ i < s.cfg.cfMax, (s.cf i).robust → (s.cf i).hashRead →
    (view s.log).hashRead i = true ∨ (view s.log).stale i = false
  warned : ∀ k c, s.ccc.conn k = some c → attGet c → (s.att k).outOfSync →
    (view s.log).warned k = true
  free : ∀ i < s.cfg.cfMax, (s.cf i).peer = .any → (s.cf i).robust = false
  addrs : ∀ k c, s.ccc.conn k = some c → c.dst ≠ .any

/-- Nothing has changed that the invariant speaks of. -/
structure Quiet (s s' : Caching) : Prop where
  cfg : s'.cfg = s.cfg
  cf : s'.cf = s.cf
  flags : ∀ k, (s'.att k).outOfSync = (s.att k).outOfSync
  enhanced : ∀ k, (s'.att k).enhanced = (s.att k).enhanced
  conns : s'.ccc.conns = s.ccc.conns
  view : view s'.log = view s.log
  safe : Safe s.log → Safe s'.log

theorem Quiet.rfl : Quiet s s :=
  ⟨Eq.refl _, Eq.refl _, fun _ => Eq.refl _, fun _ => Eq.refl _, Eq.refl _, Eq.refl _, id⟩

theorem Quiet.trans (h : Quiet s s') (h' : Quiet s' t) : Quiet s t where
  cfg := h'.cfg.trans h.cfg
  cf := h'.cf.trans h.cf
  flags k := (h'.flags k).trans (h.flags k)
  enhanced k := (h'.enhanced k).trans (h.enhanced k)
  conns := h'.conns.trans h.conns
  view := h'.view.trans h.view
  safe hs := h'.safe (h.safe hs)

theorem conn_congr {t t' : CccState} (h : t'.conns = t.conns) (k : ℕ) : t'.conn k = t.conn k := by
  simp only [conn, h]

theorem Quiet.conn (h : Quiet s s') (k : ℕ) : s'.ccc.conn k = s.ccc.conn k := conn_congr h.conns k

theorem Quiet.inv (h : Quiet s s') (hs : Inv s) : Inv s' where
  safe := h.safe hs.safe
  aware := by rw [h.cfg, h.cf, h.view]; exact hs.aware
  hashRead := by rw [h.cfg, h.cf, h.view]; exact hs.hashRead
  warned k c := by rw [h.conn, h.flags, h.view]; exact hs.warned k c
  free := by rw [h.cfg, h.cf]; exact hs.free
  addrs k c := by rw [h.conn]; exact hs.addrs k c

theorem Quiet.findCf (h : Quiet s s') (c : Conn) : s'.findCf c = s.findCf c := by
  simp only [Caching.findCf, h.cfg, h.cf]

theorem Quiet.client (h : Quiet s s') (c : Conn) : s'.client c = s.client c := by
  simp only [Caching.client, h.findCf, h.cf]

theorem quiet_note {n : Note} (hview : ∀ v : View, v.note n = v) (hexec : ∀ i, n ≠ .executed i) :
    Quiet s (s.note n) where
  cfg := rfl
  cf := rfl
  flags _ := rfl
  enhanced _ := rfl
  conns := rfl
  view := (view_append _ _).trans (hview _)
  safe h := safe_append h fun i hi => absurd hi (hexec i)

/-! ## The Service Changed half leaves the flags alone -/

theorem quiet_setSc (i : ℕ) (e : ScCfg) : Quiet s (s.setSc i e) :=
  ⟨rfl, rfl, fun _ => rfl, fun _ => rfl, rfl, rfl, id⟩

/-- Only the stored ranges have changed. -/
def OnlySc (s s' : Caching) : Prop := ∃ sc, s' = { s with sc }

theorem OnlySc.rfl : OnlySc s s := ⟨s.sc, Eq.refl _⟩

theorem OnlySc.trans (h : OnlySc s s') (h' : OnlySc s' t) : OnlySc s t := by
  obtain ⟨_, heq⟩ := h
  obtain ⟨sc, heq'⟩ := h'
  exact ⟨sc, by rw [heq', heq]⟩

theorem OnlySc.frame (h : OnlySc s s') :
    s'.cfg = s.cfg ∧ s'.ccc = s.ccc ∧ s'.log = s.log ∧ s'.att = s.att := by
  obtain ⟨_, heq⟩ := h
  rw [heq]
  exact ⟨Eq.refl _, Eq.refl _, Eq.refl _, Eq.refl _⟩

theorem OnlySc.quiet (h : OnlySc s s') : Quiet s s' := by
  obtain ⟨_, heq⟩ := h
  rw [heq]
  exact ⟨Eq.refl _, Eq.refl _, fun _ => Eq.refl _, fun _ => Eq.refl _, Eq.refl _, Eq.refl _, id⟩

theorem onlySc_scSave (s : Caching) (id : ℕ) (peer : Host.Addr) (start stop : ℕ) :
    OnlySc s (s.scSave id peer start stop) := by
  simp only [scSave]
  split
  · exact .rfl
  · split
    · exact ⟨_, rfl⟩
    · exact ⟨_, rfl⟩

theorem onlySc_scClear (s : Caching) (id : ℕ) (peer : Host.Addr) : OnlySc s (s.scClear id peer) := by
  rw [scClear]
  split
  · exact .rfl
  · exact ⟨_, rfl⟩

theorem onlySc_scCccCfgWrite (s : Caching) (c : Conn) (v : ℕ) : OnlySc s (s.scCccCfgWrite c v) := by
  rw [scCccCfgWrite]
  split
  · exact onlySc_scSave ..
  · exact onlySc_scClear ..

theorem onlySc_scSaveAway (start stop : ℕ) (s : Caching) (i : ℕ) :
    OnlySc s (scSaveAway start stop s i) := by
  rw [scSaveAway]
  split
  · exact .rfl
  · split
    · exact .rfl
    · exact onlySc_scSave ..

theorem quiet_scIndicate (start stop : ℕ) : Quiet s (s.scIndicate start stop) := by
  rw [scIndicate]
  split
  · exact ⟨rfl, rfl, fun _ => rfl, fun _ => rfl, rfl, rfl, id⟩
  · split
    · exact .rfl
    · exact ⟨rfl, rfl, fun _ => rfl, fun _ => rfl, rfl, rfl, id⟩

theorem quiet_setAtt {a : AttConn} (hflag : a.outOfSync = (s.att k).outOfSync)
    (henhanced : a.enhanced = (s.att k).enhanced) : Quiet s (s.setAtt k a) := by
  refine ⟨rfl, rfl, fun k' => ?_, fun k' => ?_, rfl, rfl, id⟩
  all_goals
    by_cases hk : k' = k
    · subst hk
      simp [setAtt, hflag, henhanced]
    · simp only [setAtt, update_of_ne hk]

theorem quiet_indicated (k id : ℕ) (peer : Host.Addr) (start stop : ℕ) (ind : ScInd) :
    Quiet s (s.indicated k id peer start stop ind) := by
  have hatt : Quiet s (s.setAtt k
      { s.att k with indications := (s.att k).indications ++ [ind] }) := quiet_setAtt rfl rfl
  exact hatt.trans (quiet_note (fun _ => rfl) (fun _ => nofun))

theorem notifyLoop_rel {R : Caching → Caching → Prop} (hrefl : ∀ s, R s s)
    (htrans : ∀ {s s' t}, R s s' → R s' t → R s t)
    (h : ∀ s k id peer start stop, R s (s.indicated k id peer start stop .indicate))
    (fails : ℕ → Bool) (start stop : ℕ) (is : List ℕ) (err : Bool) (s : Caching) :
    R s (notifyLoop fails start stop is err s).2 := by
  induction is generalizing s err with
  | nil => exact hrefl s
  | cons i is ih =>
    simp only [notifyLoop]
    split
    · exact ih err s
    · split
      · exact ih err s
      · split
        · exact ih err s
        split
        · exact hrefl s
        · exact htrans (h s _ _ _ _ _) (ih false _)

theorem quiet_scProcess (fails : ℕ → Bool) : Quiet s (s.scProcess fails) := by
  have hclear : Quiet s { s with work := false, rangeChanged := false, start := 0, stop := 0 } :=
    ⟨rfl, rfl, fun _ => rfl, fun _ => rfl, rfl, rfl, id⟩
  have hsaved := hclear.trans (foldl_rel (fun _ => OnlySc.rfl) OnlySc.trans
    (onlySc_scSaveAway s.start s.stop) (List.range s.cfg.scMax) _).quiet
  simp only [scProcess]
  generalize (List.range s.cfg.scMax).foldl (scSaveAway s.start s.stop)
    { s with work := false, rangeChanged := false, start := 0, stop := 0 } = u at hsaved ⊢
  have hloop : Quiet u _ := notifyLoop_rel (R := Quiet) (fun _ => .rfl) Quiet.trans
    (fun _ _ _ _ _ _ => quiet_indicated ..) fails s.start s.stop (List.range u.ccc.cfg.length)
    true u
  split
  next heq =>
    rw [heq] at hloop
    exact hsaved.trans hloop
  next heq =>
    rw [heq] at hloop
    exact (hsaved.trans hloop).trans ⟨rfl, rfl, fun _ => rfl, fun _ => rfl, rfl, rfl, id⟩

theorem quiet_scRestore (k : ℕ) (c : Conn) (sends : Bool) : Quiet s (s.scRestore k c sends) := by
  rw [scRestore]
  split
  · exact .rfl
  · split
    · exact .rfl
    split
    · exact quiet_indicated _ _ _ _ _ _
    · exact .rfl

theorem quiet_ccc {ccc : CccState} (h : ccc.conns = s.ccc.conns) : Quiet s { s with ccc } :=
  ⟨rfl, rfl, fun _ => rfl, fun _ => rfl, h, rfl, id⟩

theorem conns_updateCcc (t : CccState) (c : Conn) (allowed : Bool) :
    (t.updateCcc c allowed).conns = t.conns := by
  rw [CccState.updateCcc]
  split <;> rfl

theorem conns_disconnectedCb (t : CccState) (c : Conn) : (t.disconnectedCb c).conns = t.conns := by
  rw [CccState.disconnectedCb]
  split <;> rfl

theorem conns_storeValue (t : CccState) (i value len : ℕ) (cfgWrite : Option ℤ) :
    (t.storeValue i value len cfgWrite).1.conns = t.conns := by
  rw [storeValue]
  split
  · rfl
  · dsimp only
    split
    · split <;> rfl
    · split <;> rfl

theorem conns_writeCcc (t : CccState) (c : Conn) (buf : List UInt8) (offset : ℕ)
    (cfgWrite : Option ℤ) : (t.writeCcc c buf offset cfgWrite).1.conns = t.conns := by
  rw [writeCcc]
  split
  · rfl
  split
  · rfl
  split
  · exact conns_storeValue _ _ _ _ _
  · split
    · rfl
    · split
      · rfl
      · exact conns_storeValue _ _ _ _ _

theorem quiet_updateCcc (k : ℕ) (c : Conn) (allowed sends : Bool) :
    Quiet s (s.updateCcc k c allowed sends) := by
  rw [Caching.updateCcc]
  split
  · exact (quiet_ccc (conns_updateCcc _ _ _)).trans (quiet_scRestore _ _ _)
  · exact .rfl

theorem quiet_cccWrite (c : Conn) (value : List UInt8) (offset : ℕ) :
    Quiet s (s.cccWrite c value offset) := by
  have hsc := (onlySc_scCccCfgWrite s c (written value)).quiet
  have hboth : Quiet s { s.scCccCfgWrite c (written value) with
      ccc := (s.ccc.writeCcc c value offset (some 2)).1 } :=
    hsc.trans (quiet_ccc ((conns_writeCcc _ _ _ _ _).trans hsc.conns.symm))
  rw [cccWrite]
  split
  · exact .rfl
  split
  · exact .rfl
  · dsimp only
    split
    · exact hboth.trans (quiet_note (fun _ => rfl) (fun _ => nofun))
    · exact hboth

theorem quiet_disconnectedCb (c : Conn) : Quiet s (s.disconnectedCb c) := by
  have hccc : Quiet s { s with ccc := s.ccc.disconnectedCb c } :=
    quiet_ccc (conns_disconnectedCb _ _)
  rw [disconnectedCb]
  split
  · exact hccc
  split
  · exact hccc.trans (foldl_rel (R := Quiet) (fun _ => .rfl) Quiet.trans (fun s (e : CccCfg) =>
      quiet_note (n := .renamed e.id e.peer c.dst) (fun _ => rfl) (fun _ => nofun)) _ _)
  · exact hccc.trans (onlySc_scClear ..).quiet

/-! ## The flags of one client -/

theorem lt_of_findCf (h : s.findCf c = some i) : i < s.cfg.cfMax :=
  List.mem_range.1 (mem_of_find?_eq_some h)

theorem client_eq_some : s.client c = some i ↔ s.findCf c = some i ∧ (s.cf i).robust = true := by
  rw [client, filter_eq_some_iff]

theorem lt_of_client (h : s.client c = some i) : i < s.cfg.cfMax :=
  lt_of_findCf (client_eq_some.1 h).1

/-- The connection's client is served: it has learnt of the last change. -/
def Served (s : Caching) (c : Conn) : Prop :=
  ∀ i, s.client c = some i → (view s.log).stale i = false

/-- Where the next request makes the connection's client change-aware, it has
learnt of the last change. -/
def Due (s : Caching) (k : ℕ) (c : Conn) : Prop :=
  ∀ i, s.client c = some i →
    (s.cf i).hashRead ∨ (s.fixedChanOnly k c ∧ (s.att k).outOfSync) →
    (view s.log).stale i = false

theorem Served.due (h : Served s c) : Due s k c := fun i hi _ => h i hi

theorem Inv.setCf (h : Inv s) {e : CfCfg} (hi : i < s.cfg.cfMax)
    (haware : e.robust → e.aware → (view s.log).stale i = false) (hhash : e.robust → e.hashRead →
      (view s.log).hashRead i = true ∨ (view s.log).stale i = false)
    (hfree : e.peer = .any → e.robust = false) : Inv (s.setCf i e) := by
  refine ⟨h.safe, fun j hj => ?_, fun j hj => ?_, h.warned, fun j hj => ?_, h.addrs⟩
  all_goals
    simp only [Caching.setCf]
    by_cases hji : j = i
  · subst hji
    simpa using haware
  · simpa only [update_of_ne hji] using h.aware j hj
  · subst hji
    simpa using hhash
  · simpa only [update_of_ne hji] using h.hashRead j hj
  · subst hji
    simpa using hfree
  · simpa only [update_of_ne hji] using h.free j hj

theorem Inv.clearOutOfSync (h : Inv s) (k : ℕ) (c : Conn) : Inv (s.clearOutOfSync k c) := by
  rw [Caching.clearOutOfSync]
  split
  · refine ⟨h.safe, h.aware, h.hashRead, fun k' c' hc' hget hflag => ?_, h.free, h.addrs⟩
    by_cases hk : k' = k
    · subst hk
      simp [setAtt] at hflag
    · simp only [setAtt, update_of_ne hk] at hflag
      exact h.warned k' c' hc' hget hflag
  · exact h

theorem clearOutOfSync_eq (s : Caching) (k : ℕ) (c : Conn) :
    ∃ att, s.clearOutOfSync k c = { s with att } ∧
      ∀ k', (att k').prepQueue = (s.att k').prepQueue := by
  rw [Caching.clearOutOfSync]
  split
  · refine ⟨_, rfl, fun k' => ?_⟩
    by_cases hk : k' = k
    · rw [hk, update_self]
    · rw [update_of_ne hk]
  · exact ⟨s.att, rfl, fun _ => rfl⟩

theorem Inv.note (h : Inv s) (n : Note) (hexec : ∀ i, n = .executed i → (view s.log).stale i = false)
    (haware : ∀ i < s.cfg.cfMax, (s.cf i).robust → (s.cf i).aware → (view s.log).stale i = false →
      ((view s.log).note n).stale i = false)
    (hhash : ∀ i < s.cfg.cfMax, (s.cf i).robust → (s.cf i).hashRead →
      (view s.log).hashRead i = true ∨ (view s.log).stale i = false →
      ((view s.log).note n).hashRead i = true ∨ ((view s.log).note n).stale i = false)
    (hwarned : ∀ k, (view s.log).warned k = true → ((view s.log).note n).warned k = true) :
    Inv (s.note n) := by
  have hview : view (s.note n).log = (view s.log).note n := view_append _ _
  refine ⟨safe_append h.safe hexec, fun i hi hr ha => ?_, fun i hi hr hh => ?_,
    fun k c hk hget hflag => ?_, h.free, h.addrs⟩
  · rw [hview]
    exact haware i hi hr ha (h.aware i hi hr ha)
  · rw [hview]
    exact hhash i hi hr hh (h.hashRead i hi hr hh)
  · rw [hview]
    exact hwarned k (h.warned k c hk hget hflag)

theorem findCf_setCf {e : CfCfg} (c : Conn) (hid : e.id = (s.cf i).id)
    (hpeer : e.peer = (s.cf i).peer) : (s.setCf i e).findCf c = s.findCf c := by
  have hentry : ∀ j, c.isPeer (update s.cf i e j).id (update s.cf i e j).peer =
      c.isPeer (s.cf j).id (s.cf j).peer := by
    intro j
    by_cases hj : j = i
    · rw [hj, update_self, hid, hpeer]
    · rw [update_of_ne hj]
  simp only [findCf, Caching.setCf, hentry]

/-! ## The gate -/

/-- The client is change-unaware, and the request does not change that. -/
structure Unaware (s : Caching) (k : ℕ) (c : Conn) (req : Bool) (i : ℕ) : Prop where
  client : s.client c = some i
  aware : (s.cf i).aware = false
  route : req = true → (s.cf i).hashRead = false ∧ ¬ (s.fixedChanOnly k c ∧ (s.att k).outOfSync)

/-- **What the gate finds**: a client that is aware, one that the request
makes aware, or one that it does not. -/
theorem changeAware_cases (s : Caching) (k : ℕ) (c : Conn) (req : Bool) :
    (s.changeAware k c req = (true, s) ∧ ∀ i, s.client c = some i → (s.cf i).aware = true) ∨
      (∃ i, req = true ∧ s.client c = some i ∧
        ((s.cf i).hashRead ∨ (s.fixedChanOnly k c ∧ (s.att k).outOfSync)) ∧
        s.changeAware k c req = (true, (s.clearOutOfSync k c).setCf i
          { s.cf i with hashRead := false, aware := true })) ∨
      (s.changeAware k c req = (false, s) ∧ ∃ i, Unaware s k c req i) := by
  rw [changeAware]
  cases hfind : s.findCf c with
  | none => exact .inl ⟨rfl, fun i hi => by simp [client, hfind] at hi⟩
  | some i =>
    dsimp only
    by_cases hrobust : (s.cf i).robust = true
    case neg => exact .inl ⟨if_pos hrobust, fun j hj => by simp_all [client]⟩
    have hclient : s.client c = some i := client_eq_some.2 ⟨hfind, hrobust⟩
    rw [if_neg (not_not.2 hrobust)]
    by_cases haware : (s.cf i).aware = true
    · exact .inl ⟨if_pos haware, fun j hj =>
        mem_unique hclient hj ▸ haware⟩
    rw [if_neg haware]
    have hunaware : (s.cf i).aware = false := by simpa using haware
    cases req with
    | false => exact .inr (.inr ⟨rfl, i, hclient, hunaware, nofun⟩)
    | true =>
      rw [if_neg (by simp)]
      split
      next hroute => exact .inr (.inl ⟨i, rfl, hclient, hroute, rfl⟩)
      next hroute =>
        rw [not_or] at hroute
        exact .inr (.inr ⟨rfl, i, hclient, hunaware, fun _ => ⟨by simpa using hroute.1, hroute.2⟩⟩)

/-- **A client that passes** has learnt of the last change, where the request
came after what makes it change-aware. -/
theorem Inv.changeAware (h : Inv s) {req : Bool} (hdue : req = true → Due s k c) :
    (∃ u, s.changeAware k c req = (true, u) ∧ Inv u ∧ Served u c) ∨
      (s.changeAware k c req = (false, s) ∧ ∃ i, Unaware s k c req i) := by
  rcases s.changeAware_cases k c req with ⟨heq, haware⟩ | ⟨i, hreq, hclient, hroute, heq⟩ | hfalse
  · exact .inl ⟨s, heq, h, fun i hi =>
      h.aware i (lt_of_client hi) (client_eq_some.1 hi).2 (haware i hi)⟩
  · have hstale := hdue hreq i hclient hroute
    have hclear := h.clearOutOfSync k c
    obtain ⟨att, hatt, -⟩ := s.clearOutOfSync_eq k c
    rw [hatt] at heq hclear
    refine .inl ⟨_, heq, hclear.setCf (lt_of_client hclient) (fun _ _ => hstale)
      (fun _ hh => absurd hh (by simp)) (h.free i (lt_of_client hclient)), fun j hj => ?_⟩
    have hsame : _ = s.findCf c := findCf_setCf (s := { s with att }) (i := i)
      (e := { s.cf i with hashRead := false, aware := true }) c rfl rfl
    obtain rfl : i = j := Option.some.inj ((client_eq_some.1 hclient).1.symm.trans
      (hsame.symm.trans (client_eq_some.1 hj).1))
    exact hstale
  · exact .inr hfalse

theorem Inv.executed (h : Inv s) (hserved : Served s c) :
    Inv (s.noteClient c .executed) ∧ Served (s.noteClient c .executed) c := by
  rw [noteClient]
  split
  · exact ⟨h, hserved⟩
  next i hclient =>
    refine ⟨h.note _ (fun j hj => ?_) (fun _ _ _ _ h => h) (fun _ _ _ _ h => h) (fun _ h => h),
      fun j hj => ?_⟩
    · obtain rfl := Note.executed.inj hj
      exact hserved i hclient
    · show (view (s.log ++ [_])).stale j = false
      rw [view_append]
      exact hserved j hj

/-- **A request at the gate**: its client is served, or is told, or was told
before. -/
theorem Inv.gate (h : Inv s) {req : Bool} (hdue : req = true → Due s k c) :
    (∃ u, s.gate k c b req = (none, u) ∧ Inv u ∧ Served u c) ∨ ∃ i, Unaware s k c req i ∧
        ((s.gate k c b req = (some 0, s) ∧ s.outOfSyncSent k b = true) ∨
          (s.gate k c b req = (some Att.Err.dbOutOfSync, s.setOutOfSyncSent k b) ∧
            s.outOfSyncSent k b = false)) := by
  rw [Caching.gate]
  rcases h.changeAware hdue with ⟨u, heq, hinv, hserved⟩ | ⟨heq, i, hi⟩
  · rw [heq]
    exact .inl ⟨_, rfl, hinv.executed hserved⟩
  · rw [heq]
    refine .inr ⟨i, hi, ?_⟩
    cases hsent : s.outOfSyncSent k b with
    | true => exact .inl ⟨by simp [hsent], rfl⟩
    | false => exact .inr ⟨by simp [hsent], rfl⟩

/-! ## Requests -/

theorem Inv.warn (h : Inv s) (k : ℕ) : Inv ((s.setOutOfSyncSent k none).note (.outOfSync k)) := by
  have hview : view ((s.setOutOfSyncSent k none).note (.outOfSync k)).log =
      (view s.log).note (.outOfSync k) := view_append _ _
  refine ⟨safe_append h.safe nofun, ?_, ?_, fun k' c hc hget hflag => ?_, h.free, h.addrs⟩
  · rw [hview]
    exact h.aware
  · rw [hview]
    exact h.hashRead
  · rw [hview]
    by_cases hk : k' = k
    · subst hk
      simp [View.note]
    · simp only [View.note, update_of_ne hk]
      simp only [Caching.note, setOutOfSyncSent, setAtt, update_of_ne hk] at hflag
      exact h.warned k' c hc hget hflag

theorem Inv.setOutOfSyncSent (h : Inv s) (k j : ℕ) : Inv (s.setOutOfSyncSent k (some j)) := by
  refine ⟨h.safe, h.aware, h.hashRead, fun k' c hc hget hflag => ?_, h.free, h.addrs⟩
  by_cases hk : k' = k
  · subst hk
    simp only [Caching.setOutOfSyncSent, setAtt, update_self] at hflag
    exact h.warned k' c hc hget hflag
  · simp only [Caching.setOutOfSyncSent, setAtt, update_of_ne hk] at hflag
    exact h.warned k' c hc hget hflag

theorem enhanced_setOutOfSyncSent (k : ℕ) (b : Option ℕ) (k' : ℕ) :
    ((s.setOutOfSyncSent k b).att k').enhanced.isEmpty = (s.att k').enhanced.isEmpty := by
  by_cases hk : k' = k
  · subst hk
    cases b with
    | none => simp [setOutOfSyncSent, setAtt]
    | some j =>
      simp only [setOutOfSyncSent, setAtt, update_self]
      rcases (s.att k').enhanced with _ | ⟨x, xs⟩
      · rfl
      · cases j <;> rfl
  · cases b <;> simp only [setOutOfSyncSent, setAtt, update_of_ne hk]

/-- What a refusal leaves as it is. -/
structure Refused (s s' : Caching) : Prop where
  cfg : s'.cfg = s.cfg
  cf : s'.cf = s.cf
  enhanced : ∀ k, (s'.att k).enhanced.isEmpty = (s.att k).enhanced.isEmpty
  stale : (Caching.view s'.log).stale = (Caching.view s.log).stale

theorem Refused.client (h : Refused s s') (c : Conn) : s'.client c = s.client c := by
  simp only [Caching.client, findCf, h.cfg, h.cf]

theorem Refused.served (h : Refused s s') (hs : Served s c) : Served s' c := by
  intro i hi
  rw [h.stale]
  exact hs i ((h.client c).symm.trans hi)

theorem Refused.fixedChanOnly (h : Refused s s') (k : ℕ) (c : Conn) :
    s'.fixedChanOnly k c = s.fixedChanOnly k c := by
  simp only [Caching.fixedChanOnly, h.cfg, h.enhanced]

theorem Inv.gate_request (h : Inv s) (hdue : Due s k c) :
    (∃ u, s.gate k c b true = (none, u) ∧ Inv u ∧ Served u c) ∨
      ∃ err u i, s.gate k c b true = (some err, u) ∧ Unaware s k c true i ∧
        Inv (u.errorRsp k b (some err)) ∧ Refused s (u.errorRsp k b (some err)) := by
  rcases h.gate (b := b) (fun _ => hdue) with hpass | ⟨i, hi, ⟨heq, -⟩ | ⟨heq, -⟩⟩
  · exact Or.inl hpass
  · refine Or.inr ⟨0, s, i, heq, hi, ?_⟩
    have hnone : s.errorRsp k b (some 0) = s := by
      rw [errorRsp, if_neg (by rintro ⟨h0, -⟩; exact absurd h0 (by decide))]
    rw [hnone]
    exact ⟨h, rfl, rfl, fun _ => rfl, rfl⟩
  · refine Or.inr ⟨_, _, i, heq, hi, ?_⟩
    cases b with
    | none =>
      have hnote : (s.setOutOfSyncSent k none).errorRsp k none (some Att.Err.dbOutOfSync) =
          (s.setOutOfSyncSent k none).note (.outOfSync k) := by
        rw [errorRsp, if_pos ⟨rfl, rfl⟩]
      rw [hnote]
      refine ⟨h.warn k, rfl, rfl, enhanced_setOutOfSyncSent k none, ?_⟩
      show (view (s.log ++ [_])).stale = _
      rw [view_append]
      rfl
    | some j =>
      have hnote : (s.setOutOfSyncSent k (some j)).errorRsp k (some j)
          (some Att.Err.dbOutOfSync) = s.setOutOfSyncSent k (some j) := by
        rw [errorRsp, if_neg (by simp)]
      rw [hnote]
      exact ⟨h.setOutOfSyncSent k j, rfl, rfl, enhanced_setOutOfSyncSent k (some j), rfl⟩

/-- **A request arrives**: who was told before, or has read the hash, asks
again. -/
theorem Inv.arrive (h : Inv s) (hk : s.ccc.conn k = some c) (hget : attGet c = true) :
    Inv (s.arrive k c) ∧ Due (s.arrive k c) k c := by
  rw [Caching.arrive, noteClient]
  split
  next hnone => exact ⟨h, fun i hi => absurd (hnone.symm.trans hi) (by simp)⟩
  next i hclient =>
    set n : Note := .request k i (s.fixedChanOnly k c)
    have hkeeps : ∀ j, (view s.log).stale j = false → ((view s.log).note n).stale j = false := by
      intro j hj
      simp only [n, View.note]
      split
      · by_cases hji : j = i
        · simp [hji]
        · simpa only [update_of_ne hji] using hj
      · exact hj
    have hsame : ((view s.log).note n).hashRead = (view s.log).hashRead ∧
        ((view s.log).note n).warned = (view s.log).warned := by
      simp only [n, View.note]
      split <;> exact ⟨rfl, rfl⟩
    refine ⟨h.note n (fun _ => nofun) (fun j _ _ _ => hkeeps j) (fun j _ _ _ hj => ?_)
      (fun k' => by rw [hsame.2]; exact id), fun j hj hroute => ?_⟩
    · rw [hsame.1]
      exact hj.imp_right (hkeeps j)
    · obtain rfl := mem_unique hclient hj
      have hview : view (s.note n).log = (view s.log).note n := view_append _ _
      rw [hview]
      have hlt := lt_of_client hclient
      have hrobust := (client_eq_some.1 hclient).2
      by_cases hstale : (view s.log).stale i = false
      · exact hkeeps i hstale
      · have hasks : (view s.log).hashRead i = true ∨
            (s.fixedChanOnly k c = true ∧ (view s.log).warned k = true) := by
          rcases hroute with hread | ⟨hsingle, hflag⟩
          · exact Or.inl ((h.hashRead i hlt hrobust hread).resolve_right hstale)
          · exact Or.inr ⟨hsingle, h.warned k c hk hget hflag⟩
        simp only [n, View.note]
        rw [if_pos hasks]
        simp

/-! ## What is carried out -/

theorem Inv.dbHash (h : Inv s) : Inv s.dbHash ∧ (∀ c, s.dbHash.client c = s.client c) ∧
    s.dbHash.log = s.log ∧ s.dbHash.cfg = s.cfg := by
  rw [Caching.dbHash]
  split
  · exact ⟨h, fun _ => rfl, rfl, rfl⟩
  rw [setAllChangeUnaware]
  split
  · set cf := fun i => if i < s.cfg.cfMax ∧ (s.cf i).peer ≠ .any then
      { s.cf i with aware := false } else s.cf i with hcf
    have hfields : ∀ i, (cf i).data = (s.cf i).data ∧ (cf i).peer = (s.cf i).peer ∧
        (cf i).id = (s.cf i).id ∧ (cf i).hashRead = (s.cf i).hashRead ∧
        ((cf i).aware = true → (s.cf i).aware = true) := by
      intro i
      simp only [hcf]
      split
      · exact ⟨rfl, rfl, rfl, rfl, by simp⟩
      · exact ⟨rfl, rfl, rfl, rfl, id⟩
    have hrobust : ∀ i, (cf i).robust = (s.cf i).robust := fun i => by
      rw [CfCfg.robust, CfCfg.robust, (hfields i).1]
    refine ⟨⟨h.safe, fun i hi hr ha => ?_, fun i hi hr hh => ?_, h.warned, fun i hi hp => ?_,
      h.addrs⟩, fun c => ?_, rfl, rfl⟩
    · exact h.aware i hi ((hrobust i).symm.trans hr) ((hfields i).2.2.2.2 ha)
    · exact h.hashRead i hi ((hrobust i).symm.trans hr) ((hfields i).2.2.2.1.symm.trans hh)
    · exact (hrobust i).trans (h.free i hi ((hfields i).2.1.symm.trans hp))
    · have hpeer : ∀ i, c.isPeer (cf i).id (cf i).peer = c.isPeer (s.cf i).id (s.cf i).peer :=
        fun i => by rw [(hfields i).2.2.1, (hfields i).2.1]
      simp only [client, findCf, hpeer, hrobust]
  · exact ⟨⟨h.safe, h.aware, h.hashRead, h.warned, h.free, h.addrs⟩, fun _ => rfl, rfl, rfl⟩

/-- **The hash is read**: the client knows, or is in the know already. -/
theorem Inv.dbHashRead (h : Inv s) (c : Conn) {offset : ℕ}
    (hread : offset ≤ 16 ∨ Served s c) : Inv (s.dbHashRead c offset) := by
  obtain ⟨hinv, hclient, hlog, -⟩ := h.dbHash
  rw [Caching.dbHashRead]
  generalize s.dbHash = u at hinv hclient hlog
  dsimp only
  split
  · exact hinv
  next i hi =>
    have hlt := lt_of_client hi
    obtain ⟨-, hrobust⟩ := client_eq_some.1 hi
    have hnote : Inv (u.note (.hashRead i)) := by
      refine hinv.note _ (fun _ => nofun) (fun _ _ _ _ h => h) (fun j _ _ _ hj => ?_) (fun _ h => h)
      simp only [View.note]
      by_cases hji : j = i
      · simp [hji]
      · simpa only [update_of_ne hji] using hj
    by_cases haware : (u.cf i).aware
    · simp only [haware, if_true]
      split
      · exact hnote
      · exact hinv
    · simp only [haware]
      split
      next hoff =>
        refine hnote.setCf hlt (fun _ ha => absurd ha (by simp)) (fun _ _ => Or.inl ?_) (hnote.free i hlt)
        show (view (u.log ++ [_])).hashRead i = true
        simp [view_append, View.note]
      next hoff =>
        refine hinv.setCf hlt (fun _ ha => absurd ha (by simp)) (fun _ _ => Or.inr ?_) (hinv.free i hlt)
        rw [hlog]
        exact (hread.resolve_left hoff) i ((hclient c).symm.trans hi)

theorem findCf_eq_some : s.findCf c = some i ↔
    c.isPeer (s.cf i).id (s.cf i).peer = true ∧ i < s.cfg.cfMax ∧
      ∀ j < i, c.isPeer (s.cf j).id (s.cf j).peer = false := by
  rw [findCf, find?_range_eq_some]
  simp

theorem findCf_claim {e : CfCfg} (hi : (s.findCf c).or s.findCfFree = some i)
    (he : c.isPeer e.id e.peer = true) : (s.setCf i e).findCf c = some i := by
  have hlt : i < s.cfg.cfMax ∧ ∀ j < i, c.isPeer (s.cf j).id (s.cf j).peer = false := by
    rcases hfind : s.findCf c with _ | j
    · rw [hfind, none_or] at hi
      refine ⟨List.mem_range.1 (mem_of_find?_eq_some hi), fun j hj => ?_⟩
      have hlt : i < s.cfg.cfMax := List.mem_range.1 (mem_of_find?_eq_some hi)
      have hnone := find?_eq_none.1 hfind j (List.mem_range.2 (hj.trans hlt))
      simpa using hnone
    · rw [hfind, some_or] at hi
      obtain rfl := Option.some.inj hi
      exact (findCf_eq_some.1 hfind).2
  refine findCf_eq_some.2 ⟨?_, hlt.1, fun j hj => ?_⟩
  · simpa [Caching.setCf] using he
  · simp only [Caching.setCf, update_of_ne hj.ne]
    exact hlt.2 j hj

/-- **A client sets its features**, and is change-aware. -/
theorem Inv.cfWrite (h : Inv s) (hserved : Served s c) (hdst : c.dst ≠ .any) (value : List UInt8)
    (offset : ℕ) : Inv (s.cfWrite c value offset) ∧ Served (s.cfWrite c value offset) c := by
  rw [Caching.cfWrite]
  split
  · exact ⟨h, hserved⟩
  split
  · exact ⟨h, hserved⟩
  next i hi =>
    split
    · exact ⟨h, hserved⟩
    next data _ =>
      dsimp only
      set e : CfCfg := { s.cf i with data, peer := c.dst, id := c.id, aware := true }
      have hpeer : c.isPeer e.id e.peer = true := by simp [e, Conn.isPeer]
      have hfind : (s.setCf i e).findCf c = some i := findCf_claim hi hpeer
      have hlt : i < s.cfg.cfMax := lt_of_findCf (s := s.setCf i e) hfind
      have hself : (s.setCf i e).cf i = e := update_self ..
      split
      next hnew =>
        -- the client has robust caching from now on
        have hnoted : Inv (s.note (.enabled i)) := by
          refine h.note _ (by simp) (fun j _ _ _ hj => ?_) (fun j _ hr _ hj => ?_) (fun _ h => h)
          · by_cases hji : j = i
            · simp [View.note, hji]
            · simpa only [View.note, update_of_ne hji] using hj
          · have hji : j ≠ i := fun hji => hnew.1 (hji ▸ hr)
            simpa only [View.note, update_of_ne hji] using hj
        have hstale : (view (s.note (.enabled i)).log).stale i = false := by
          show (view (s.log ++ [_])).stale i = false
          simp [view_append, View.note]
        refine ⟨hnoted.setCf hlt (fun _ _ => hstale) (fun _ _ => Or.inr hstale)
          (fun hany => absurd hany hdst), fun j hj => ?_⟩
        have hj' := (client_eq_some.1 hj).1
        obtain rfl := mem_unique hfind hj'
        exact hstale
      next hold =>
        have hstale : e.robust = true → (view s.log).stale i = false := by
          intro hrobust
          have hwas : (s.cf i).robust = true := by
            by_contra hnot
            exact hold ⟨hnot, hrobust⟩
          rcases hown : s.findCf c with _ | j
          · rw [hown, none_or] at hi
            have hany : (s.cf i).peer = .any := by simpa using find?_some hi
            exact absurd (h.free i hlt hany) (by simp [hwas])
          · rw [hown, some_or] at hi
            obtain rfl := Option.some.inj hi
            exact hserved j (client_eq_some.2 ⟨hown, hwas⟩)
        refine ⟨h.setCf hlt (fun hr _ => hstale hr) (fun hr _ => Or.inr (hstale hr))
          (fun hany => absurd hany hdst), fun j hj => ?_⟩
        obtain ⟨hj', hr⟩ := client_eq_some.1 hj
        obtain rfl := mem_unique hfind hj'
        rw [hself] at hr
        exact hstale hr

theorem Quiet.served (h : Quiet s s') (hs : Served s c) : Served s' c := by
  intro i hi
  rw [h.view]
  exact hs i ((h.client c).symm.trans hi)

theorem Inv.attrWrite (h : Inv s) (hserved : Served s c) (hdst : c.dst ≠ .any) (handle : ℕ)
    (value : List UInt8) (offset : ℕ) :
    Inv (s.attrWrite c handle value offset) ∧ Served (s.attrWrite c handle value offset) c := by
  rw [Caching.attrWrite]
  split
  · exact h.cfWrite hserved hdst value offset
  split
  · have hquiet := quiet_cccWrite (s := s) c value offset
    exact ⟨hquiet.inv h, hquiet.served hserved⟩
  · exact ⟨h, hserved⟩

theorem Inv.attRead (h : Inv s) (hk : s.ccc.conn k = some c) (hget : attGet c = true)
    (b : Option ℕ) (handles : List ℕ) (offset : ℕ) : Inv (s.attRead k c b handles offset) := by
  obtain ⟨harrive, hdue⟩ := h.arrive hk hget
  rw [Caching.attRead]
  rcases harrive.gate_request (b := b) hdue with ⟨u, heq, hinv, hserved⟩ | ⟨err, u, i, heq, -, hinv, -⟩
  · rw [heq]
    dsimp only
    split
    · exact hinv.dbHashRead c (Or.inr hserved)
    · exact hinv
  · rw [heq]
    exact hinv

theorem Inv.attReadType (h : Inv s) (hk : s.ccc.conn k = some c) (hget : attGet c = true)
    (b : Option ℕ) (uuid : TypeUuid) (start stop : ℕ) :
    Inv (s.attReadType k c b uuid start stop) := by
  obtain ⟨harrive, hdue⟩ := h.arrive hk hget
  have hrespond : ∀ {u}, Inv u → Inv (if uuid = .dbHash ∧ start ≤ u.cfg.hashHandle ∧
      u.cfg.hashHandle ≤ stop then u.dbHashRead c 0 else u) := by
    intro u hu
    split
    · exact hu.dbHashRead c (Or.inl (by omega))
    · exact hu
  rw [Caching.attReadType]
  split
  · exact h
  dsimp only
  split
  · -- a discovery is answered whether the client is aware or not
    refine hrespond ?_
    rcases harrive.changeAware (fun _ => hdue) with ⟨u, heq, hinv, -⟩ | ⟨heq, -⟩
    · rw [heq]
      exact hinv
    · rw [heq]
      exact harrive
  · rcases harrive.gate_request (b := b) hdue with ⟨u, heq, hinv, -⟩ | ⟨err, u, i, heq, -, hinv, -⟩
    · rw [heq]
      exact hrespond hinv
    · rw [heq]
      exact hinv

theorem Inv.attWriteRsp (h : Inv s) (hdue : Due s k c) (hdst : c.dst ≠ .any) (b : Option ℕ)
    (handle : ℕ) (value : List UInt8) (offset : ℕ) :
    let r := s.attWriteRsp k c b true handle value offset
    Inv (r.2.errorRsp k b r.1) ∧ (Served (r.2.errorRsp k b r.1) c ∨
      ∃ i, Unaware s k c true i ∧ Refused s (r.2.errorRsp k b r.1)) := by
  rw [Caching.attWriteRsp]
  rcases h.gate_request (b := b) hdue with ⟨u, heq, hinv, hserved⟩ | ⟨err, u, i, heq, hi, hinv, hsame⟩
  · rw [heq]
    obtain ⟨hw, hws⟩ := hinv.attrWrite hserved hdst handle value offset
    have hnone : (u.attrWrite c handle value offset).errorRsp k b none =
        u.attrWrite c handle value offset := by
      rw [errorRsp, if_neg (by simp)]
    dsimp only
    rw [hnone]
    exact ⟨hw, Or.inl hws⟩
  · rw [heq]
    exact ⟨hinv, Or.inr ⟨i, hi, hsame⟩⟩

theorem Inv.attWriteReq (h : Inv s) (hk : s.ccc.conn k = some c) (hget : attGet c = true)
    (b : Option ℕ) (handle : ℕ) (value : List UInt8) : Inv (s.attWriteReq k c b handle value) := by
  obtain ⟨harrive, hdue⟩ := h.arrive hk hget
  exact (harrive.attWriteRsp hdue (h.addrs k c hk) b handle value 0).1

/-- **A command**, where the flag is not raised for a change-unaware client. -/
theorem Inv.attWriteCmd (h : Inv s) (hk : s.ccc.conn k = some c) (b : Option ℕ) (handle : ℕ)
    (value : List UInt8)
    (hflag : b = none → ∀ i, s.client c = some i → (s.cf i).aware ∨ (s.att k).outOfSync) :
    Inv (s.attWriteCmd k c b handle value) := by
  rw [Caching.attWriteCmd, Caching.attWriteRsp]
  rcases h.gate (b := b) (k := k) (c := c) (show false = true → Due s k c by simp) with
    ⟨u, heq, hinv, hserved⟩ | ⟨i, hi, ⟨heq, -⟩ | ⟨heq, hsent⟩⟩
  · rw [heq]
    exact (hinv.attrWrite hserved (h.addrs k c hk) handle value 0).1
  · rw [heq]
    exact h
  · rw [heq]
    cases b with
    | some j => exact h.setOutOfSyncSent k j
    | none =>
      have hcases := hflag rfl i hi.client
      rw [hi.aware] at hcases
      exact absurd (hsent.symm.trans (hcases.resolve_left (by simp))) (by simp)

theorem Inv.attPrepareWriteReq (h : Inv s) (hk : s.ccc.conn k = some c) (hget : attGet c = true)
    (b : Option ℕ) (prep : Att.Prep) (stored : Bool) :
    Inv (s.attPrepareWriteReq k c b prep stored) := by
  obtain ⟨harrive, hdue⟩ := h.arrive hk hget
  rw [Caching.attPrepareWriteReq]
  rcases harrive.gate_request (b := b) hdue with ⟨u, heq, hinv, -⟩ | ⟨err, u, i, heq, -, hinv, -⟩
  · rw [heq]
    dsimp only
    split
    · have hatt : Quiet u (u.setAtt k
          { u.att k with prepQueue := (u.att k).prepQueue ++ [prep] }) := quiet_setAtt rfl rfl
      exact hatt.inv hinv
    · exact hinv
  · rw [heq]
    exact hinv

/-! ## Execute Write -/

theorem Quiet.fixedChanOnly (h : Quiet s s') (k : ℕ) (c : Conn) :
    s'.fixedChanOnly k c = s.fixedChanOnly k c := by
  simp only [Caching.fixedChanOnly, h.cfg, h.enhanced]

theorem Quiet.due (h : Quiet s s') (hs : Due s k c) : Due s' k c := by
  intro i hi hroute
  rw [h.view]
  rw [h.cf, h.fixedChanOnly, h.flags] at hroute
  exact hs i ((h.client c).symm.trans hi) hroute

/-- No round of an Execute Write Request makes its client change-aware by
what an earlier round of it has sent. -/
def Steady (s : Caching) (k : ℕ) (c : Conn) : Prop :=
  Served s c ∨ (Due s k c ∧ s.fixedChanOnly k c = false)

theorem Steady.due (h : Steady s k c) : Due s k c := h.elim Served.due And.left

theorem Quiet.steady (h : Quiet s s') (hs : Steady s k c) : Steady s' k c :=
  hs.imp h.served fun hs => ⟨h.due hs.1, (h.fixedChanOnly k c).trans hs.2⟩

theorem Inv.execLoop (h : Inv s) (hsteady : Steady s k c) (hdst : c.dst ≠ .any) (b : Option ℕ)
    (flags : UInt8) (fuel : ℕ) : Inv (execLoop k c b flags fuel s) := by
  induction fuel generalizing s with
  | zero => exact h
  | succ fuel ih =>
    rw [Caching.execLoop]
    split
    · exact h
    next buf queue _ =>
      dsimp only
      set r := Att.Server.execWriteReassemble s.cfg.reassembledSize buf.handle buf.offset queue
        buf.data
      have hquiet : Quiet s (s.setAtt k { s.att k with prepQueue := r.list }) :=
        quiet_setAtt rfl rfl
      have hinv := hquiet.inv h
      have hst := hquiet.steady hsteady
      generalize s.setAtt k { s.att k with prepQueue := r.list } = u at hinv hst
      split
      · exact hinv
      split
      · obtain ⟨hw, hnext⟩ :=
          hinv.attWriteRsp hst.due hdst b buf.handle.toNat r.data buf.offset.toNat
        refine ih hw ?_
        rcases hnext with hserved | ⟨i, hi, hrefused⟩
        · exact Or.inl hserved
        · rcases hst with hserved | ⟨-, hmany⟩
          · exact Or.inl (hrefused.served hserved)
          · -- nothing the client could be made aware by is left
            refine Or.inr ⟨fun j hj hroute => ?_, (hrefused.fixedChanOnly k c).trans hmany⟩
            obtain rfl := Option.some.inj (hi.client.symm.trans ((hrefused.client c).symm.trans hj))
            rw [hrefused.cf, (hi.route rfl).1, hrefused.fixedChanOnly k c, hmany] at hroute
            simp at hroute
      · exact ih hinv hst

theorem queue_changeAware (k' : ℕ) (req : Bool) :
    ((s.changeAware k c req).2.att k').prepQueue = (s.att k').prepQueue := by
  rcases s.changeAware_cases k c req with ⟨heq, -⟩ | ⟨i, -, -, -, heq⟩ | ⟨heq, -⟩
  · rw [heq]
  · obtain ⟨att, hatt, hqueue⟩ := s.clearOutOfSync_eq k c
    rw [heq, hatt]
    exact hqueue k'
  · rw [heq]

theorem att_noteClient (n : ℕ → Note) : (s.noteClient c n).att = s.att := by
  rw [noteClient]
  split <;> rfl

theorem queue_setOutOfSyncSent (k' : ℕ) :
    ((s.setOutOfSyncSent k b).att k').prepQueue = (s.att k').prepQueue := by
  by_cases hk : k' = k
  · subst hk
    cases b <;> simp [setOutOfSyncSent, setAtt]
  · cases b <;> simp only [setOutOfSyncSent, setAtt, update_of_ne hk]

theorem att_attrWrite (handle : ℕ) (value : List UInt8) (offset : ℕ) :
    (s.attrWrite c handle value offset).att = s.att := by
  rw [attrWrite]
  split
  · rw [cfWrite]
    split
    · rfl
    split
    · rfl
    split
    · rfl
    · dsimp only
      split <;> rfl
  split
  · have hsc := (onlySc_scCccCfgWrite s c (written value)).frame.2.2.2
    rw [cccWrite]
    split
    · rfl
    split
    · rfl
    · dsimp only
      split
      · exact hsc
      · exact hsc
  · rfl

theorem queue_attWriteRsp (k' : ℕ) (req : Bool) (handle : ℕ) (value : List UInt8) (offset : ℕ) :
    let r := s.attWriteRsp k c b req handle value offset
    ((r.2.errorRsp k b r.1).att k').prepQueue = (s.att k').prepQueue := by
  have herr : ∀ (u : Caching) err, (u.errorRsp k b err).att = u.att := by
    intro u err
    rw [errorRsp]
    split <;> rfl
  have hca := queue_changeAware (s := s) (k := k) (c := c) k' req
  rw [attWriteRsp, gate]
  generalize s.changeAware k c req = r at hca ⊢
  obtain ⟨pass, u⟩ := r
  cases pass with
  | true =>
    simp only [herr, att_attrWrite, att_noteClient]
    exact hca
  | false =>
    by_cases hsent : u.outOfSyncSent k b = true
    · simp only [if_pos hsent, herr]
      exact hca
    · simp only [if_neg hsent, herr, queue_setOutOfSyncSent]
      exact hca

/-- The prepare queue holds one write, or one that cannot be put together. -/
def OneWrite (size : ℕ) : List Att.Prep → Prop
  | [] => True
  | buf :: queue =>
    let r := Att.Server.execWriteReassemble size buf.handle buf.offset queue buf.data
    r.err ≠ 0 ∨ r.list = []

instance (size : ℕ) : DecidablePred (OneWrite size)
  | [] => .isTrue trivial
  | buf :: queue => inferInstanceAs (Decidable
      ((Att.Server.execWriteReassemble size buf.handle buf.offset queue buf.data).err ≠ 0 ∨
        (Att.Server.execWriteReassemble size buf.handle buf.offset queue buf.data).list = []))

theorem execLoop_nil (h : (s.att k).prepQueue = []) (b : Option ℕ) (flags : UInt8) (fuel : ℕ) :
    execLoop k c b flags fuel s = s := by
  cases fuel with
  | zero => rfl
  | succ fuel => rw [execLoop, h]

theorem Inv.execLoop_one (h : Inv s) (hdue : Due s k c)
    (hone : OneWrite s.cfg.reassembledSize (s.att k).prepQueue) (hdst : c.dst ≠ .any)
    (b : Option ℕ) (flags : UInt8) (fuel : ℕ) : Inv (Caching.execLoop k c b flags fuel s) := by
  cases fuel with
  | zero => exact h
  | succ fuel =>
    rw [Caching.execLoop]
    split
    · exact h
    next buf queue hqueue =>
      rw [hqueue, OneWrite] at hone
      dsimp only at hone ⊢
      set r := Att.Server.execWriteReassemble s.cfg.reassembledSize buf.handle buf.offset queue
        buf.data
      have hquiet : Quiet s (s.setAtt k { s.att k with prepQueue := r.list }) :=
        quiet_setAtt rfl rfl
      have hinv := hquiet.inv h
      split
      · exact hinv
      next herr =>
        have hnil : ((s.setAtt k { s.att k with prepQueue := r.list }).att k).prepQueue = [] := by
          simpa [setAtt] using hone.resolve_left herr
        split
        · rw [execLoop_nil]
          · exact (hinv.attWriteRsp (hquiet.due hdue) hdst b _ _ _).1
          · exact (queue_attWriteRsp (k := k) (c := c) (b := b) k true _ _ _).trans hnil
        · rw [execLoop_nil hnil]
          exact hinv

/-- The request is one write, or its client is made aware when it arrives,
or not by what the request itself is answered. -/
def OneAnswer (s : Caching) (k : ℕ) (c : Conn) : Prop :=
  OneWrite s.cfg.reassembledSize (s.att k).prepQueue ∨ ∀ i ∈ s.client c,
    (s.cf i).aware ∨ (s.cf i).hashRead ∨ s.fixedChanOnly k c = false ∨ (s.att k).outOfSync

theorem Inv.attExecWriteReq (h : Inv s) (hk : s.ccc.conn k = some c) (hget : attGet c = true)
    (b : Option ℕ) (flags : UInt8) (hone : OneAnswer s k c) :
    Inv (s.attExecWriteReq k c b flags) := by
  obtain ⟨harrive, hdue⟩ := h.arrive hk hget
  have hsame : (s.arrive k c).att = s.att ∧ (s.arrive k c).cfg = s.cfg ∧
      (s.arrive k c).cf = s.cf := by
    rw [Caching.arrive, noteClient]
    split <;> exact ⟨rfl, rfl, rfl⟩
  obtain ⟨hatt, hcfg, hcf⟩ := hsame
  have hclient : (s.arrive k c).client c = s.client c := by
    simp only [Caching.client, findCf, hcfg, hcf]
  rw [Caching.attExecWriteReq]
  rcases hone with hone | hroute
  · refine harrive.execLoop_one hdue ?_ (h.addrs k c hk) b flags _
    rw [hatt, hcfg]
    exact hone
  · refine harrive.execLoop ?_ (h.addrs k c hk) b flags _
    have hfixed : (s.arrive k c).fixedChanOnly k c = s.fixedChanOnly k c := by
      simp only [fixedChanOnly, hcfg, hatt]
    cases hmany : s.fixedChanOnly k c with
    | false => exact Or.inr ⟨hdue, hfixed.trans hmany⟩
    | true =>
      refine Or.inl fun i hi => ?_
      have hlt := lt_of_client hi
      have hrobust := (client_eq_some.1 hi).2
      have haware := harrive.aware i hlt hrobust
      have hasks := hdue i hi
      rw [hfixed, hmany, hatt, hcf] at hasks
      rw [hcf] at haware
      rcases hroute i (hclient.symm.trans hi) with h1 | h1 | h1 | h1
      · exact haware h1
      · exact hasks (Or.inl h1)
      · exact absurd (hmany.symm.trans h1) (by simp)
      · exact hasks (Or.inr ⟨rfl, h1⟩)

/-! ## A change of the database -/

theorem forgetErrors_eq (s : Caching) (peer : Host.Addr) :
    ∃ att, s.forgetErrors peer = { s with att } := by
  rw [forgetErrors]
  split
  · exact ⟨s.att, rfl⟩
  · split
    · exact ⟨s.att, rfl⟩
    · exact (s.clearOutOfSync_eq _ _).imp fun _ => And.left

theorem cfChanged_eq (s : Caching) (i : ℕ) :
    ∃ att, s.cfChanged i = { s with cf := update s.cf i (s.cf i).changed, att } := by
  rw [cfChanged, CfCfg.changed]
  split
  · rw [update_eq_self]
    exact ⟨s.att, rfl⟩
  · obtain ⟨att, hatt⟩ := s.forgetErrors_eq (s.cf i).peer
    rw [hatt]
    exact ⟨att, rfl⟩

theorem changed_changed (e : CfCfg) : e.changed.changed = e.changed := by
  by_cases h : e.peer = .any ∨ ¬ e.robust
  · simp only [CfCfg.changed, if_pos h]
  · simp only [CfCfg.changed, if_neg h, ite_self]

theorem foldl_cfChanged_eq (l : List ℕ) (s : Caching) : ∃ att, l.foldl cfChanged s =
    { s with cf := fun j => if j ∈ l then (s.cf j).changed else s.cf j, att } := by
  induction l generalizing s with
  | nil => exact ⟨s.att, by simp⟩
  | cons i l ih =>
    obtain ⟨att, hatt⟩ := s.cfChanged_eq i
    obtain ⟨att', hatt'⟩ := ih (s.cfChanged i)
    refine ⟨att', ?_⟩
    rw [foldl_cons, hatt', hatt]
    congr 1
    funext j
    by_cases hj : j = i
    · subst hj
      simp [changed_changed]
    · simp [hj]

/-- The change finds the connection in slot `k` by the entry `i`. -/
def Found (s : Caching) (k i : ℕ) : Prop :=
  (s.cf i).peer ≠ .any ∧ (s.cf i).robust = true ∧ s.lookupAddr 0 (s.cf i).peer = some k

theorem found_cfChanged (i j : ℕ) : Found (s.cfChanged i) k j ↔ Found s k j := by
  have hfields : ∀ e : CfCfg, e.changed.peer = e.peer ∧ e.changed.robust = e.robust := by
    intro e
    rw [CfCfg.changed]
    split <;> exact ⟨rfl, rfl⟩
  obtain ⟨att, hatt⟩ := s.cfChanged_eq i
  rw [hatt]
  by_cases hj : j = i
  · subst hj
    simp only [Found, update_self, hfields, lookupAddr]
  · simp only [Found, update_of_ne hj, lookupAddr]

theorem flag_cfChanged (i : ℕ) (hk : s.ccc.conn k = some c) (hget : attGet c = true)
    (hflag : ((s.cfChanged i).att k).outOfSync = true) :
    (s.att k).outOfSync = true ∧ ¬ Found s k i := by
  rw [cfChanged] at hflag
  split at hflag
  next hskip =>
    refine ⟨hflag, fun hfound => ?_⟩
    rcases hskip with hany | hnot
    · exact hfound.1 hany
    · exact hnot hfound.2.1
  next =>
    simp only [Caching.setCf, forgetErrors] at hflag
    split at hflag
    next hnone =>
      exact ⟨hflag, fun hfound => absurd (hnone.symm.trans hfound.2.2) (by simp)⟩
    next k' hsome =>
      by_cases hkk : k' = k
      · subst hkk
        rw [hk] at hflag
        simp [Caching.clearOutOfSync, hget, setAtt] at hflag
      · have hnot : ¬ Found s k i := fun hfound =>
          hkk (mem_unique hsome hfound.2.2)
        split at hflag
        · exact ⟨hflag, hnot⟩
        · refine ⟨?_, hnot⟩
          rw [Caching.clearOutOfSync] at hflag
          split at hflag
          · simpa only [setAtt, update_of_ne (Ne.symm hkk)] using hflag
          · exact hflag

theorem flag_foldl_cfChanged (l : List ℕ) (s : Caching) (hk : s.ccc.conn k = some c)
    (hget : attGet c = true) (hflag : ((l.foldl cfChanged s).att k).outOfSync = true) :
    (s.att k).outOfSync = true ∧ ∀ i ∈ l, ¬ Found s k i := by
  induction l generalizing s with
  | nil => exact ⟨hflag, by simp⟩
  | cons i l ih =>
    obtain ⟨att, hatt⟩ := s.cfChanged_eq i
    obtain ⟨hstep, hrest⟩ := ih (s.cfChanged i) (by rw [hatt]; exact hk) hflag
    obtain ⟨hold, hnot⟩ := flag_cfChanged i hk hget hstep
    refine ⟨hold, fun j hj => ?_⟩
    rcases mem_cons.1 hj with rfl | hj
    · exact hnot
    · exact fun hfound => hrest j hj ((found_cfChanged i j).2 hfound)

/-- **After a change of the database** no client with robust caching is aware,
and no hash that was read counts. -/
theorem cf_serviceChanged (handles : List ℕ) (hi : i < s.cfg.cfMax) :
    (s.serviceChanged handles).cf i = (s.cf i).changed := by
  have hquiet : Quiet (s.note (.changed handles))
      ((s.note (.changed handles)).scIndicate (handles.headD 0) (handles.getLastD 0)) :=
    quiet_scIndicate _ _
  rw [serviceChanged, dbChanged]
  obtain ⟨att, hatt⟩ := foldl_cfChanged_eq (List.range _) _
  rw [hatt]
  dsimp only
  rw [hquiet.cfg, hquiet.cf]
  exact if_pos (List.mem_range.2 hi)

/-- **A change of the database** keeps the invariant, where it finds every
connection that was sent the error. -/
theorem Inv.serviceChanged (h : Inv s) (handles : List ℕ)
    (hfound : ∀ k c, s.ccc.conn k = some c → attGet c = true → (s.att k).outOfSync = true →
      ∃ i < s.cfg.cfMax, Found s k i) : Inv (s.serviceChanged handles) := by
  have hentry := fun i (hi : i < s.cfg.cfMax) => cf_serviceChanged (s := s) handles hi
  have hquiet : Quiet (s.note (.changed handles))
      ((s.note (.changed handles)).scIndicate (handles.headD 0) (handles.getLastD 0)) :=
    quiet_scIndicate _ _
  rw [Caching.serviceChanged, dbChanged] at hentry ⊢
  generalize (s.note (.changed handles)).scIndicate (handles.headD 0) (handles.getLastD 0) = u
    at hquiet hentry ⊢
  obtain ⟨att, hv⟩ := foldl_cfChanged_eq (List.range u.cfg.cfMax) { u with hashValid := false }
  have hview : view u.log = (view s.log).note (.changed handles) :=
    hquiet.view.trans (view_append _ _)
  have hcfgu : u.cfg = s.cfg := hquiet.cfg
  have hflags := fun k c => flag_foldl_cfChanged (k := k) (c := c) (List.range u.cfg.cfMax)
    { u with hashValid := false }
  generalize (List.range u.cfg.cfMax).foldl cfChanged { u with hashValid := false } = v
    at hv hentry hflags ⊢
  have hcfg : v.cfg = u.cfg := by rw [hv]
  have hccc : v.ccc = u.ccc := by rw [hv]
  have hlog : v.log = u.log := by rw [hv]
  have hclear : ∀ i < v.cfg.cfMax, (v.cf i).robust = true →
      (v.cf i).aware = false ∧ (v.cf i).hashRead = false := by
    intro i hi hrobust
    have hi' : i < s.cfg.cfMax := by rwa [hcfg, hcfgu] at hi
    rw [hentry i hi', CfCfg.changed] at hrobust ⊢
    split
    next hskip =>
      rw [if_pos hskip] at hrobust
      rcases hskip with hany | hnot
      · exact absurd (h.free i hi' hany) (by simp [hrobust])
      · exact absurd hrobust hnot
    next => exact ⟨rfl, rfl⟩
  refine ⟨?_, fun i hi hr ha => ?_, fun i hi hr hh => ?_, fun k c hk hget hflag => ?_,
    fun i hi hany => ?_, fun k c hk => ?_⟩
  · rw [hlog]
    exact hquiet.safe (safe_append h.safe nofun)
  · exact absurd ha (by simp [(hclear i hi hr).1])
  · exact absurd hh (by simp [(hclear i hi hr).2])
  · have hku : u.ccc.conn k = some c := by rwa [hccc] at hk
    have hks : s.ccc.conn k = some c := (hquiet.conn k).symm.trans hku
    obtain ⟨hold, hnone⟩ := hflags k c hku hget hflag
    have holds : (s.att k).outOfSync = true := (hquiet.flags k).symm.trans hold
    obtain ⟨i, hi, hf⟩ := hfound k c hks hget holds
    refine absurd ?_ (hnone i (List.mem_range.2 (by rwa [hcfgu])))
    rw [Found, lookupAddr] at hf ⊢
    dsimp only
    rw [hquiet.cf, hquiet.conns]
    exact hf
  · have hi' : i < s.cfg.cfMax := by rwa [hcfg, hcfgu] at hi
    rw [hentry i hi', CfCfg.changed] at hany ⊢
    split
    next hskip =>
      rw [if_pos hskip] at hany
      exact h.free i hi' hany
    next hskip =>
      rw [if_neg hskip] at hany
      exact absurd (Or.inl hany) hskip
  · rw [hccc, hquiet.conn] at hk
    exact h.addrs k c hk

/-! ## Indications and connections -/

theorem Inv.confirm (h : Inv s) {ok : Bool}
    (hok : ok = true ∨ (s.fixedChanOnly k c = true → ∀ i ∈ s.client c, (s.cf i).aware)) :
    Inv (s.confirm k c ok) := by
  rw [Caching.confirm]
  split
  next hfixed =>
    split
    · exact h
    next i hclient =>
      have hlt := lt_of_client hclient
      cases ok with
      | false =>
        have haware := hok.resolve_left (by simp) hfixed i hclient
        exact h.setCf hlt (fun hr _ => h.aware i hlt hr haware) (h.hashRead i hlt) (h.free i hlt)
      | true =>
        have hkeeps : ∀ j, (view s.log).stale j = false →
            ((view s.log).note (.confirmed i)).stale j = false := by
          intro j hj
          by_cases hji : j = i
          · simp [View.note, hji]
          · simpa only [View.note, update_of_ne hji] using hj
        have hnoted : Inv (s.note (.confirmed i)) :=
          h.note _ (fun _ => nofun) (fun j _ _ _ => hkeeps j)
            (fun j _ _ _ hj => hj.imp_right (hkeeps j)) (fun _ h => h)
        refine hnoted.setCf hlt (fun _ _ => ?_) (hnoted.hashRead i hlt) (hnoted.free i hlt)
        show (view (s.log ++ [_])).stale i = false
        simp [view_append, View.note]
  next => exact h

theorem quiet_pending (pending work : Bool) :
    Quiet s { s with indicatePending := pending, work } :=
  ⟨rfl, rfl, fun _ => rfl, fun _ => rfl, rfl, rfl, id⟩

theorem Inv.scRsp (h : Inv s) {ok : Bool} (ind : ScInd)
    (hok : ok = true ∨ (s.fixedChanOnly k c = true → ∀ i ∈ s.client c, (s.cf i).aware)) :
    Inv (s.scRsp k c ok ind) := by
  cases ind with
  | indicate => exact ((quiet_pending false _).inv h).confirm hok
  | restore =>
    have hconfirm := h.confirm hok
    rw [Caching.scRsp]
    split
    · split
      · exact hconfirm
      · exact (quiet_setSc _ _).inv hconfirm
    · exact hconfirm

theorem quiet_scRsp (haware : ∀ i ∈ s.client c, (s.cf i).aware) (ind : ScInd) :
    Quiet s (s.scRsp k c false ind) := by
  have hconfirm : ∀ u : Caching, Quiet s u → Quiet s (u.confirm k c false) := by
    intro u hu
    rw [confirm]
    split
    · split
      · exact hu
      next i hclient =>
        have hi : (u.cf i).aware = true := by
          rw [hu.cf]
          exact haware i ((hu.client c).symm.trans hclient)
        refine hu.trans ⟨rfl, ?_, fun _ => rfl, fun _ => rfl, rfl, rfl, id⟩
        have hsame : { u.cf i with aware := true } = u.cf i := by rw [← hi]
        simp only [Caching.setCf, Bool.false_eq_true, if_false]
        rw [hsame, update_eq_self]
    · exact hu
  cases ind with
  | indicate => exact hconfirm _ (quiet_pending false _)
  | restore => exact hconfirm s .rfl

theorem quiet_failIndications (haware : ∀ i ∈ s.client c, (s.cf i).aware) :
    Quiet s (s.failIndications k c) := by
  have hfold : ∀ (l : List ScInd) (u : Caching), Quiet s u →
      Quiet s (l.foldl (fun s ind => s.scRsp k c false ind) u) := by
    intro l
    induction l with
    | nil => exact fun _ hu => hu
    | cons ind l ih =>
      intro u hu
      refine ih _ (hu.trans (quiet_scRsp (fun i hi => ?_) ind))
      rw [hu.cf]
      exact haware i ((hu.client c).symm.trans hi)
  exact hfold _ _ (quiet_setAtt rfl rfl)

theorem Inv.of_conns (h : Inv s) (hcfg : s'.cfg = s.cfg) (hcf : s'.cf = s.cf)
    (hlog : s'.log = s.log)
    (hconn : ∀ k c', s'.ccc.conn k = some c' → c'.dst ≠ .any ∧ (attGet c' = true →
      (s'.att k).outOfSync = true →
        ∃ c, s.ccc.conn k = some c ∧ attGet c = true ∧ (s.att k).outOfSync = true)) : Inv s' where
  safe := by rw [hlog]; exact h.safe
  aware := by rw [hcfg, hcf, hlog]; exact h.aware
  hashRead := by rw [hcfg, hcf, hlog]; exact h.hashRead
  warned k c' hk hget hflag := by
    rw [hlog]
    obtain ⟨c, hkc, hc, hold⟩ := (hconn k c' hk).2 hget hflag
    exact h.warned k c hkc hc hold
  free := by rw [hcfg, hcf]; exact h.free
  addrs k c' hk := (hconn k c' hk).1

theorem Inv.setConn (h : Inv s) (k : ℕ) (o : Option Conn) (ho : ∀ c ∈ o, c.dst ≠ .any ∧
    (attGet c = true → (s.att k).outOfSync = false)) :
    Inv { s with ccc := s.ccc.setConn k o } := by
  refine h.of_conns rfl rfl rfl fun j c' hc' => ?_
  rw [conn_setConn] at hc'
  split at hc'
  next hj =>
    obtain ⟨rfl, -⟩ := hj
    obtain ⟨hdst, hflag⟩ := ho c' hc'
    exact ⟨hdst, fun hget hsent => absurd (hsent.symm.trans (hflag hget)) (by simp)⟩
  next => exact ⟨h.addrs j c' hc', fun hget hsent => ⟨c', hc', hget, hsent⟩⟩

theorem Inv.clearCf (h : Inv s) (hi : i < s.cfg.cfMax) :
    Inv (s.setCf i { s.cf i with peer := .any, data := 0, aware := false, hashRead := false }) :=
  h.setCf hi (fun _ ha => absurd ha (by simp)) (fun _ hh => absurd hh (by simp)) (fun _ => by simp [CfCfg.robust])

theorem Inv.removeCf (h : Inv s) (hdst : c.dst ≠ .any) : Inv (s.removeCf c) := by
  rw [Caching.removeCf]
  split
  · exact h
  next i hfind =>
    have hlt := lt_of_findCf hfind
    split
    · exact h.setCf hlt (h.aware i hlt) (h.hashRead i hlt) (fun hany => absurd hany hdst)
    · exact h.clearCf hlt

/-- **A client leaves**: it is aware, or owes no confirmation. -/
theorem Inv.disconnected (h : Inv s) (hk : s.ccc.conn k = some c)
    (hquiet : (s.att k).indications = [] ∨ ∀ i ∈ s.client c, (s.cf i).aware) :
    Inv (s.disconnected k c) := by
  have hdst := h.addrs k c hk
  rw [Caching.disconnected]
  dsimp only
  set c' : Conn := { c with connected := false }
  have hdown : Inv { s with ccc := s.ccc.setConn k (some c') } :=
    h.setConn k (some c') (by
      rintro _ ⟨⟩
      exact ⟨hdst, by simp [attGet, c']⟩)
  have hfail : Quiet { s with ccc := s.ccc.setConn k (some c') }
      (failIndications { s with ccc := s.ccc.setConn k (some c') } k c') := by
    rcases hquiet with hnil | haware
    · rw [failIndications]
      dsimp only
      rw [hnil]
      exact quiet_setAtt rfl rfl
    · exact quiet_failIndications haware
  have hremoved : Inv _ :=
    ((quiet_disconnectedCb c').inv (hfail.inv hdown)).removeCf (c := c') hdst
  generalize ((failIndications { s with ccc := s.ccc.setConn k (some c') } k c').disconnectedCb
    c').removeCf c' = u at hremoved ⊢
  refine hremoved.of_conns rfl rfl rfl fun j cj hj => ?_
  have hj' : (u.ccc.setConn k (some { c' with attached := false })).conn j = some cj := hj
  rw [conn_setConn] at hj'
  split at hj'
  · obtain rfl := Option.some.inj hj'
    exact ⟨hdst, fun hget => absurd hget (by simp [attGet])⟩
  next hne =>
    refine ⟨hremoved.addrs j cj hj', fun hget hsent => ⟨cj, hj', hget, ?_⟩⟩
    by_cases hjk : j = k
    · subst hjk
      simp [setAtt] at hsent
    · simpa only [setAtt, update_of_ne hjk] using hsent

theorem Inv.unpair (h : Inv s) (id : ℕ) (addr : Host.Addr) : Inv (s.unpair id addr) := by
  rw [Caching.unpair]
  dsimp only
  have hconns : Inv { s with ccc := s.ccc.unpair id addr } := by
    refine h.of_conns rfl rfl rfl fun k c' hc' => ?_
    have hremove : (s.ccc.unpair id addr).conn k = (s.ccc.hangUp id addr).conn k := by
      rw [CccState.unpair, removePeer]
      split <;> rfl
    rw [hremove] at hc'
    rcases s.ccc.conn_hangUp id addr k with hsame | ⟨c, hc, hdown⟩
    · rw [hsame] at hc'
      exact ⟨h.addrs k c' hc', fun hget hsent => ⟨c', hc', hget, hsent⟩⟩
    · obtain rfl := mem_unique hdown hc'
      exact ⟨h.addrs k c hc, fun hget => absurd hget (by simp [attGet])⟩
  have hclear := (onlySc_scClear _ id addr).quiet.inv hconns
  generalize { s with ccc := s.ccc.unpair id addr }.scClear id addr = u at hclear ⊢
  split
  · exact hclear
  next i hfind => exact hclear.clearCf (List.mem_range.1 (mem_of_find?_eq_some hfind))

theorem Inv.identityResolved (h : Inv s) (c : Conn) {addr : Host.Addr} (haddr : addr ≠ .any) :
    Inv (s.identityResolved c addr) := by
  rw [Caching.identityResolved]
  split
  · have hccc : Quiet s { s with ccc := { s.ccc with
        cfg := s.ccc.cfg.map (resolveCcc c.onAir addr) } } := quiet_ccc rfl
    have hnoted := (hccc.trans (foldl_rel (R := Quiet) (fun _ => .rfl) Quiet.trans (fun s (e : CccCfg) =>
      quiet_note (n := .renamed e.id e.peer addr) (fun _ => rfl) (fun _ => nofun))
      (s.ccc.cfg.filter fun e => decide (e.peer = c.onAir) && subscribed e) _)).inv h
    dsimp only
    generalize List.foldl _ _ _ = v at hnoted ⊢
    split
    · exact hnoted
    next i hfind =>
      have hlt : i < v.cfg.cfMax := List.mem_range.1 (mem_of_find?_eq_some hfind)
      exact hnoted.setCf hlt (hnoted.aware i hlt) (hnoted.hashRead i hlt)
        (fun hany => absurd hany haddr)
  · exact h

theorem Inv.resolve (h : Inv s) (k : ℕ) (c : Conn) {addr : Host.Addr} (haddr : addr ≠ .any) :
    Inv (s.resolve k c addr) := by
  rw [Caching.resolve]
  refine Inv.identityResolved ?_ _ haddr
  refine h.of_conns rfl rfl rfl fun j c' hc' => ?_
  simp only [conn, convertConns, getElem?_mapIdx] at hc'
  rcases hj : s.ccc.conns[j]? with _ | _ | o
  · simp [hj] at hc'
  · simp [hj] at hc'
  · have hconn : s.ccc.conn j = some o := by rw [conn, hj]; rfl
    rw [hj] at hc'
    simp only [map_some, join_some, Option.some.injEq] at hc'
    subst hc'
    split
    · exact ⟨haddr, fun hget hsent => ⟨o, hconn, hget, hsent⟩⟩
    · exact ⟨h.addrs j o hconn, fun hget hsent => ⟨o, hconn, hget, hsent⟩⟩

/-! ## Runs -/

/-- **The condition on a step**: a command of a change-unaware client raises
no flag on the fixed bearer, an Execute Write Request is answered once, a
change finds every connection that was sent the error, and no indication
fails for a change-unaware client. -/
def Careful (s : Caching) : Event → Prop
  | .writeCmd k b _ _ => b = none → ∀ c ∈ s.ccc.conn k, ∀ i ∈ s.client c,
      (s.cf i).aware ∨ (s.att k).outOfSync
  | .execWrite k _ flags => flags = Att.flagExec → ∀ c ∈ s.ccc.conn k, OneAnswer s k c
  | .serviceChanged _ => ∀ k < s.ccc.conns.length, ∀ c ∈ s.ccc.conn k, attGet c = true →
      (s.att k).outOfSync = true → ∃ i < s.cfg.cfMax, Found s k i
  | .scRsp k _ ok => ok = true ∨ ∀ c ∈ s.ccc.conn k, s.fixedChanOnly k c = true →
      ∀ i ∈ s.client c, (s.cf i).aware
  | .disconnected k => (s.att k).indications = [] ∨ ∀ c ∈ s.ccc.conn k, ∀ i ∈ s.client c,
      (s.cf i).aware
  | _ => True

instance (s : Caching) (k : ℕ) (c : Conn) : Decidable (OneAnswer s k c) :=
  inferInstanceAs (Decidable (_ ∨ _))

instance (s : Caching) (k i : ℕ) : Decidable (Found s k i) :=
  inferInstanceAs (Decidable (_ ∧ _ ∧ _))

instance (s : Caching) : DecidablePred (Careful s)
  | .writeCmd k b _ _ => inferInstanceAs (Decidable (b = none → ∀ c ∈ s.ccc.conn k, _))
  | .execWrite k _ flags => inferInstanceAs (Decidable (flags = Att.flagExec →
      ∀ c ∈ s.ccc.conn k, OneAnswer s k c))
  | .serviceChanged _ => inferInstanceAs (Decidable (∀ k < s.ccc.conns.length, _))
  | .scRsp k _ ok => inferInstanceAs (Decidable (ok = true ∨ ∀ c ∈ s.ccc.conn k, _))
  | .disconnected k => inferInstanceAs (Decidable (_ ∨ ∀ c ∈ s.ccc.conn k, _))
  | .create .. | .connected .. | .encryptChange .. | .bonded .. | .resolved .. | .down .. | .free ..
  | .unpair .. | .eattUp .. | .eattDown .. | .read .. | .readType .. | .writeReq ..
  | .prepareWrite .. | .hashWork | .scWork .. => .isTrue trivial

/-- A change of the database leaves no client with robust caching aware,
connected or not. -/
def MakesUnaware (s : Caching) : Event → Prop
  | .serviceChanged handles => handles ≠ [] → ∀ i < s.cfg.cfMax,
      ((s.step (.serviceChanged handles)).cf i).peer ≠ .any →
      ((s.step (.serviceChanged handles)).cf i).robust = true →
        ((s.step (.serviceChanged handles)).cf i).aware = false ∧
          ((s.step (.serviceChanged handles)).cf i).hashRead = false
  | _ => True

theorem makesUnaware (s : Caching) (e : Event) : MakesUnaware s e := by
  cases e with
  | serviceChanged handles =>
    intro hne i hi hpeer hrobust
    have hentry : (s.step (.serviceChanged handles)).cf i = (s.cf i).changed := by
      rw [step, if_neg hne]
      exact cf_serviceChanged handles hi
    rw [hentry, CfCfg.changed] at hpeer hrobust ⊢
    split
    next hskip =>
      rw [if_pos hskip] at hpeer hrobust
      rcases hskip with hany | hnot
      · exact absurd hany hpeer
      · exact absurd hrobust hnot
    next => exact ⟨rfl, rfl⟩
  | create | connected | encryptChange | bonded | resolved | down | disconnected | free | unpair
  | eattUp | eattDown | read | readType | writeReq | writeCmd | prepareWrite | execWrite | hashWork
  | scWork | scRsp => trivial

theorem Inv.execLoop_cancel (h : Inv s) {flags : UInt8} (hflags : flags ≠ Att.flagExec)
    (b : Option ℕ) (fuel : ℕ) : Inv (Caching.execLoop k c b flags fuel s) := by
  induction fuel generalizing s with
  | zero => exact h
  | succ fuel ih =>
    rw [Caching.execLoop]
    split
    · exact h
    · dsimp only
      have hquiet : ∀ list, Quiet s (s.setAtt k { s.att k with prepQueue := list }) :=
        fun _ => quiet_setAtt rfl rfl
      split
      · exact (hquiet _).inv h
      · exact ih ((hquiet _).inv h)

theorem Inv.onRequest (h : Inv s) {f : Conn → Caching}
    (hf : ∀ c, s.ccc.conn k = some c → attGet c = true → Inv (f c)) : Inv (s.onRequest k b f) := by
  rw [Caching.onRequest]
  split
  · exact h
  next c hk =>
    split
    next hget => exact hf c hk hget.1
    next => exact h

theorem Inv.onAttached (h : Inv s) {f : Conn → Caching}
    (hf : ∀ c, s.ccc.conn k = some c → Inv (f c)) : Inv (s.onAttached k f) := by
  rw [Caching.onAttached]
  split
  · exact h
  next c hk =>
    split
    · exact hf c hk
    · exact h

theorem Inv.connected (h : Inv s) (hk : s.ccc.conn k = some c) {dst onAir : Host.Addr}
    (hdst : dst ≠ .any) (allowed sends : Bool) :
    Inv (({ s with ccc := s.ccc.setConn k (some { c with
      dst, onAir, connected := true, attached := true }) }.setAtt k {}
        |>.note (.connected k)).updateCcc k
          { c with dst, onAir, connected := true, attached := true } allowed sends) := by
  set c' : Conn := { c with dst, onAir, connected := true, attached := true }
  refine (quiet_updateCcc k c' allowed sends).inv ?_
  have hview : view ({ s with ccc := s.ccc.setConn k (some c') }.setAtt k {}
      |>.note (.connected k)).log = (view s.log).note (.connected k) := view_append _ _
  refine ⟨safe_append h.safe nofun, ?_, ?_, fun j cj hj hget hflag => ?_, h.free, fun j cj hj => ?_⟩
  · rw [hview]
    exact h.aware
  · rw [hview]
    exact h.hashRead
  all_goals
    have hj' : (s.ccc.setConn k (some c')).conn j = some cj := hj
  · by_cases hjk : j = k
    · subst hjk
      simp [Caching.note, setAtt] at hflag
    · rw [conn_setConn_ne _ hjk] at hj'
      simp only [Caching.note, setAtt, update_of_ne hjk] at hflag
      rw [hview]
      simp only [View.note, update_of_ne hjk]
      exact h.warned j cj hj' hget hflag
  · by_cases hjk : j = k
    · subst hjk
      rw [conn_setConn_self hk] at hj'
      obtain rfl := Option.some.inj hj'
      exact hdst
    · rw [conn_setConn_ne _ hjk] at hj'
      exact h.addrs j cj hj'

/-- **One event** keeps the invariant, where it meets the condition. -/
theorem Inv.step (h : Inv s) {e : Event} (hc : Careful s e) : Inv (s.step e) := by
  cases e with
  | create k id dst onAir =>
    rw [Caching.step]
    split
    next hnew =>
      refine h.setConn k _ ?_
      rintro _ ⟨⟩
      exact ⟨hnew.2.2.1, by simp [attGet]⟩
    next => exact h
  | connected k dst onAir allowed sends =>
    rw [Caching.step]
    split
    · exact h
    next c hk =>
      split
      · exact h
      next hno => exact h.connected hk (fun hany => hno (Or.inr (Or.inl hany))) allowed sends
  | encryptChange k allowed sends =>
    refine h.onAttached fun c _ => ?_
    have hupdate := quiet_updateCcc (s := s) k c allowed sends
    rw [Caching.encryptChange]
    split
    · exact hupdate.inv h
    · exact (hupdate.trans (quiet_scIndicate _ _)).inv h
  | bonded k =>
    refine h.onAttached fun c _ => ?_
    have hbond : Quiet s { s with ccc := { s.ccc with bonds := (c.id, c.dst) :: s.ccc.bonds } } :=
      quiet_ccc rfl
    exact hbond.inv h
  | resolved k addr =>
    refine h.onAttached fun c _ => ?_
    split
    next hres => exact h.resolve k c hres.2.2.2
    next => exact h
  | down k =>
    refine h.onAttached fun c hk => h.setConn k _ ?_
    rintro _ ⟨⟩
    exact ⟨h.addrs k c hk, by simp [attGet]⟩
  | disconnected k =>
    refine h.onAttached fun c hk => h.disconnected hk ?_
    exact hc.imp_right fun hall => hall c hk
  | free k =>
    rw [Caching.step]
    split
    · exact h
    · exact h.setConn k none (by simp)
  | unpair id addr =>
    rw [Caching.step]
    split
    · exact h
    · exact h.unpair id addr
  | eattUp k =>
    refine h.onAttached fun c _ => ?_
    split
    · exact h.of_conns rfl rfl rfl fun j cj hj => by
        refine ⟨h.addrs j cj hj, fun hget hsent => ⟨cj, hj, hget, ?_⟩⟩
        by_cases hjk : j = k
        · subst hjk
          simpa [setAtt] using hsent
        · simpa only [setAtt, update_of_ne hjk] using hsent
    · exact h
  | eattDown k j =>
    refine h.onAttached fun c _ => h.of_conns rfl rfl rfl fun j' cj hj => ?_
    refine ⟨h.addrs j' cj hj, fun hget hsent => ⟨cj, hj, hget, ?_⟩⟩
    by_cases hjk : j' = k
    · subst hjk
      simpa [setAtt] using hsent
    · simpa only [setAtt, update_of_ne hjk] using hsent
  | read k b handles offset => exact h.onRequest fun c hk hget => h.attRead hk hget b handles offset
  | readType k b uuid start stop =>
    exact h.onRequest fun c hk hget => h.attReadType hk hget b uuid start stop
  | writeReq k b handle value =>
    exact h.onRequest fun c hk hget => h.attWriteReq hk hget b handle value
  | writeCmd k b handle value =>
    exact h.onRequest fun c hk _ => h.attWriteCmd hk b handle value fun hb i hi => hc hb c hk i hi
  | prepareWrite k b prep stored =>
    exact h.onRequest fun c hk hget => h.attPrepareWriteReq hk hget b prep stored
  | execWrite k b flags =>
    refine h.onRequest fun c hk hget => ?_
    by_cases hflags : flags = Att.flagExec
    · exact h.attExecWriteReq hk hget b flags (hc hflags c hk)
    · exact (h.arrive hk hget).1.execLoop_cancel hflags b _
  | serviceChanged handles =>
    rw [Caching.step]
    split
    · exact h
    · exact h.serviceChanged handles fun k c hk => hc k (lt_of_conn hk) c hk
  | hashWork => exact h.dbHash.1
  | scWork fails =>
    rw [Caching.step]
    split
    · exact (quiet_scProcess fails).inv h
    · exact h
  | scRsp k j ok =>
    refine h.onAttached fun c hk => ?_
    split
    · exact h
    next ind _ =>
      split
      · exact h
      · have hatt : Quiet s (s.setAtt k { s.att k with
            indications := (s.att k).indications.eraseIdx j }) := quiet_setAtt rfl rfl
        refine (hatt.inv h).scRsp ind (hc.imp_right fun hall hfixed i hi => ?_)
        rw [hatt.fixedChanOnly] at hfixed
        exact hall c hk hfixed i ((hatt.client c).symm.trans hi)

/-- Nobody is connected, and what is stored is in order: a free entry is
empty. -/
structure Fresh (s : Caching) : Prop where
  log : s.log = []
  conns : ∀ o ∈ s.ccc.conns, o = none
  free : ∀ i < s.cfg.cfMax, (s.cf i).peer = .any → (s.cf i).robust = false

theorem Fresh.inv (h : Fresh s) : Inv s := by
  have hconn : ∀ k c, s.ccc.conn k ≠ some c := by
    intro k c hk
    rw [conn] at hk
    rcases hget : s.ccc.conns[k]? with _ | o
    · simp [hget] at hk
    · rw [hget, h.conns o (mem_of_getElem? hget)] at hk
      simp at hk
  have hview : view s.log = ⟨fun _ => false, fun _ => false, fun _ => false⟩ := by
    rw [h.log]
    rfl
  refine ⟨?_, fun i _ _ _ => ?_, fun i _ _ _ => Or.inr ?_, fun k c hk => absurd hk (hconn k c),
    h.free, fun k c hk => absurd hk (hconn k c)⟩
  · rw [h.log]
    intro pre i post heq
    exact absurd heq (by simp)
  · rw [hview]
  · rw [hview]

/-- **Robust caching over whole runs**: where every step meets the condition,
nothing handle-based is carried out for a client that has yet to learn of the
last change; and every change makes every client with robust caching
change-unaware. -/
theorem robust_caching {s : Caching} {es : List Event} (hs : Fresh s)
    (hrun : Along step Careful s es) :
    Safe (run step s es).log ∧ Along step MakesUnaware s es :=
  ⟨(inv_run Inv (fun _ _ h hc => h.step hc) hs.inv hrun).safe, along_of_forall makesUnaware s es⟩

/-- A server that has loaded what it stored, and that was nothing. -/
def sampleServer : Caching where
  cfg := ⟨true, true, false, 2, 2, 64, 9, 7, 4⟩
  ccc := CccState.init 2 2 []
  att := fun _ => {}
  cf := fun _ => {}
  sc := fun _ => {}
  start := 0
  stop := 0
  rangeChanged := false
  indicatePending := false
  work := false
  hashValid := true
  log := []

theorem fresh_sampleServer : Fresh sampleServer := by
  refine ⟨rfl, fun o ho => ?_, fun i _ _ => ?_⟩
  · exact eq_of_mem_replicate ho
  · simp [sampleServer, CfCfg.robust]

/-- The address of the client in the runs below. -/
def samplePeer : Host.Addr := ⟨0, 5⟩

/-- A client connects on an identity, and enables robust caching. -/
def enables (id : ℕ) : List Event :=
  [.create 0 id samplePeer samplePeer, .connected 0 samplePeer samplePeer true true,
    .writeReq 0 none 7 [1]]

/-- The database changes, and the client is told before it is served. -/
theorem robust_caching_sample :
    let es := enables 0 ++ [.serviceChanged [16, 17], .read 0 none [20] 0, .read 0 none [20] 0]
    Safe (run step sampleServer es).log ∧ Along step MakesUnaware sampleServer es := by
  intro es
  exact robust_caching fresh_sampleServer (by decide)

theorem not_safe {log : List Note} (pre : List Note) (i : ℕ) (hlog : log = pre ++ [.executed i])
    (hstale : (view pre).stale i = true) : ¬ Safe log := fun h =>
  absurd ((h pre i [] hlog).symm.trans hstale) (by simp)

/-- A request is carried out for a client that has yet to learn of the change:
a Service Changed indication failed when the link was lost; a command came
before; it is the second write of an Execute Write Request; the error was sent
before the change, on another identity. -/
theorem carried_out_unaware :
    Fresh sampleServer ∧
      ¬ Safe (run step sampleServer (enables 0 ++ [.writeReq 0 none 4 [2, 0], .bonded 0,
        .serviceChanged [16, 17], .scWork fun _ => false, .down 0, .disconnected 0, .free 0,
        .create 0 0 samplePeer samplePeer, .connected 0 samplePeer samplePeer true true,
        .read 0 none [20] 0])).log ∧
      ¬ Safe (run step sampleServer (enables 0 ++ [.serviceChanged [16, 17],
        .writeCmd 0 none 20 [1], .read 0 none [20] 0])).log ∧
      ¬ Safe (run step sampleServer (enables 0 ++ [.prepareWrite 0 none ⟨20, 0, [1]⟩ true,
        .prepareWrite 0 none ⟨21, 0, [1]⟩ true, .serviceChanged [16, 17],
        .execWrite 0 none Att.flagExec])).log ∧
      ¬ Safe (run step sampleServer (enables 1 ++ [.serviceChanged [16, 17],
        .read 0 none [20] 0, .serviceChanged [18, 19], .read 0 none [20] 0])).log := by
  refine ⟨fresh_sampleServer, ?_, ?_, ?_, ?_⟩
  · exact not_safe [.connected 0, .enabled 0, .request 0 0 true, .executed 0,
      .subscribed 0 samplePeer, .changed [16, 17], .indicated 0 samplePeer 16 17,
      .renamed 0 samplePeer samplePeer, .connected 0, .request 0 0 true] 0 (by decide) (by decide)
  · exact not_safe [.connected 0, .enabled 0, .changed [16, 17], .request 0 0 true] 0 (by decide)
      (by decide)
  · exact not_safe [.connected 0, .enabled 0, .request 0 0 true, .executed 0, .request 0 0 true,
      .executed 0, .changed [16, 17], .request 0 0 true, .outOfSync 0] 0 (by decide) (by decide)
  · exact not_safe [.connected 0, .enabled 0, .changed [16, 17], .request 0 0 true, .outOfSync 0,
      .changed [18, 19], .request 0 0 true] 0 (by decide) (by decide)

end Caching

end Gatt

end OpenBlue

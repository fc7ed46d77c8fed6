import OpenBlue.Mesh.SubnetPhases
/-!
# Mesh — application keys and their subnets

An application key is bound to a used subnet, and has been updated only
while the key refresh of that subnet goes on (`AppsBound`). The calls on
the application keys see to it themselves, but for a key added under the
index that stands for no subnet. What a call on a subnet must do to the
keys bound to it is left to the handler of `app_keys.c`, which is never
run: a subnet that is deleted leaves its keys behind, and a key refresh
that ends leaves the updated ones at their old key.

A call that is refused leaves the table as it is, but for one whose import
of the key fails: the entry has been written by then.
-/

namespace OpenBlue

namespace KeyTables

open List Option

variable {cfg : KeysCfg} {t : List Subnet} {apps : List AppKey} {app : AppKey} {node : Node}
variable {i appIdx netIdx : ℕ} {raw : Bytes} {d : AppDerivation}

/-- An application key is in step with its subnet. -/
structure AppKey.Bound (t : List Subnet) (app : AppKey) : Prop where
  /-- The subnet is one that is in use. -/
  subnet : UsedIdx t app.netIdx
  /-- A key that has been updated is of a subnet in a key refresh. -/
  refresh : app.updated = true →
    phaseOf t app.netIdx = some krPhase1 ∨ phaseOf t app.netIdx = some krPhase2

/-- Every application key in use is in step with its subnet. -/
def AppsBound (node : Node) : Prop := ∀ app ∈ node.apps, app.Used → app.Bound node.subnets

/-- An application key that had been updated when the key refresh of its
subnet ended is sent with its new key. -/
def TransmitsNew (node node' : Node) : Prop :=
  ∀ app ∈ node.apps, app.Used → app.updated = true →
    phaseOf node.subnets app.netIdx ≠ some krNormal →
    phaseOf node'.subnets app.netIdx = some krNormal →
    keysResolve node'.subnets node'.apps app.appIdx = some app.new

/-- `bt_mesh_app_key_add` gets as far as to put a new key in the table. -/
def AddTakes (t : List Subnet) (apps : List AppKey) (d : AppDerivation) (appIdx netIdx : ℕ) :
    Prop :=
  subnetGet t netIdx ≠ none ∧ d.idOk = true ∧
    ∃ i, appKeyAlloc apps appIdx = some i ∧ (apps.getD i freeApp).appIdx ≠ appIdx

/-- No subnet is deleted that a key is bound to, no key refresh ends with a
key of the subnet updated, and no key is added for the index of none. -/
def AppsOk (node : Node) : Event → Prop
  | .subnet e => ∀ app ∈ node.apps, app.Used →
      ¬ e.Deletes app.netIdx ∧ (e.Ends app.netIdx → app.updated = false)
  | .app (.add appIdx netIdx _ d) =>
      netIdx = keyUnused → ¬ AddTakes node.subnets node.apps d appIdx netIdx
  | _ => True

/-! ## Calls on the subnets -/

theorem subnet_bound_iff (cfg : KeysCfg) (h : PhasesOk node.subnets) (hb : AppsBound node)
    (e : SubnetEvent) : AppsBound (node.step cfg (.subnet e)) ↔ AppsOk node (.subnet e) := by
  rw [step_subnet]
  have hmove := (subnetStep_phases cfg h e).2
  constructor
  · intro hb' app happ hused
    obtain ⟨⟨hne, hsome⟩, -⟩ := hb app happ hused
    obtain ⟨ph, hph⟩ := ne_none_iff_exists'.1 hsome
    have hb'' := hb' app happ hused
    refine ⟨fun hdel => hb''.subnet.2 ((hmove _ ph hne hph).deleted hdel), fun hends => ?_⟩
    rw [← Bool.not_eq_true]
    intro hupd
    have hnormal := (hmove _ ph hne hph).ended hends
    rcases hb''.refresh hupd with hp | hp
    · exact absurd (mem_unique hnormal hp) (by decide)
    · exact absurd (mem_unique hnormal hp) (by decide)
  · intro hok app happ hused
    obtain ⟨⟨hne, hsome⟩, hrefresh⟩ := hb app happ hused
    obtain ⟨ph, hph⟩ := ne_none_iff_exists'.1 hsome
    obtain ⟨hdel, hends⟩ := hok app happ hused
    have hm := hmove _ ph hne hph
    by_cases hend : e.Ends app.netIdx
    · -- The key refresh ends: the key has not been updated.
      have hnormal := hm.ended hend
      refine ⟨⟨hne, fun hnone => nomatch hnone.symm.trans hnormal⟩, fun hupd => ?_⟩
      exact absurd (hupd.symm.trans (hends hend)) (by decide)
    · rcases hm.kept hdel hend with hsame | ⟨hold, hnew⟩ | ⟨-, hnew⟩
      · refine ⟨⟨hne, fun hnone => nomatch hnone.symm.trans hsame⟩, fun hupd => ?_⟩
        rw [hph] at hrefresh
        exact hsame ▸ hrefresh hupd
      · exact ⟨⟨hne, fun hnone => nomatch hnone.symm.trans hnew⟩, fun _ => .inl hnew⟩
      · exact ⟨⟨hne, fun hnone => nomatch hnone.symm.trans hnew⟩, fun _ => .inr hnew⟩

/-! ## Calls on the application keys -/

theorem getElem?_of_appGet (h : appGet apps appIdx = some i) :
    apps[i]? = some (apps.getD i freeApp) ∧ (apps.getD i freeApp).appIdx = appIdx := by
  obtain ⟨app, hi, happ⟩ := slotOf_eq_some h
  have hgetD : apps.getD i freeApp = app := by
    rw [getD_eq_getElem?_getD, hi, getD_some]
  exact ⟨hgetD ▸ hi, hgetD ▸ happ⟩

theorem bound_set (hb : ∀ app ∈ apps, app.Used → app.Bound t) (i : ℕ)
    (happ : app.Used → app.Bound t) : ∀ a ∈ apps.set i app, a.Used → a.Bound t := by
  intro a ha
  rcases mem_or_eq_of_mem_set ha with ha | rfl
  · exact hb a ha
  · exact happ

/-- **A key is added** to a free entry, or nothing changes. -/
theorem appKeyAdd_cases (t : List Subnet) (d : AppDerivation) (appIdx netIdx : ℕ) (raw : Bytes)
    (apps : List AppKey) :
    (AddTakes t apps d appIdx netIdx ∧ ∃ (i : ℕ) (free app : AppKey), apps[i]? = some free ∧
        app.netIdx = netIdx ∧ app.Used ∧ app.updated = false ∧
        (appKeyAdd t d appIdx netIdx raw apps).apps = apps.set i app) ∨
      (¬ AddTakes t apps d appIdx netIdx ∧ (appKeyAdd t d appIdx netIdx raw apps).apps = apps) := by
  unfold appKeyAdd
  split
  next hnone => exact .inr ⟨fun htakes => htakes.1 hnone, rfl⟩
  next hsome =>
    split
    next hfull => exact .inr ⟨fun ⟨_, _, i, hi, _⟩ => (nomatch hfull.symm.trans hi), rfl⟩
    next i hi =>
      dsimp only
      split
      next hsame =>
        refine .inr ⟨fun ⟨_, _, j, hj, hne⟩ => hne ?_, by split <;> rfl⟩
        rw [← mem_unique hi hj]
        exact hsame
      next hne =>
        split
        next hid => exact .inr ⟨fun htakes => hid htakes.2.1, rfl⟩
        next hid =>
          obtain ⟨free, hget, hcase⟩ := slotFor_eq_some hi
          have hgetD : apps.getD i freeApp = free := by
            rw [getD_eq_getElem?_getD, hget, getD_some]
          have hfree : free.appIdx = keyUnused := (hcase.resolve_left (hgetD ▸ hne)).1
          rw [hgetD] at hne
          refine .inl ⟨⟨hsome, not_not.1 hid, i, hi, hgetD ▸ hne⟩, i, free, _, hget, rfl, ?_, rfl, rfl⟩
          show appIdx ≠ keyUnused
          rw [← hfree]
          exact Ne.symm hne

theorem add_bound_iff (hb : AppsBound node) (appIdx netIdx : ℕ) (raw : Bytes) (d : AppDerivation) :
    AppsBound (node.step cfg (.app (.add appIdx netIdx raw d))) ↔
      AppsOk node (.app (.add appIdx netIdx raw d)) := by
  show (∀ app ∈ (appKeyAdd node.subnets d appIdx netIdx raw node.apps).apps,
    app.Used → app.Bound node.subnets) ↔ _
  rcases appKeyAdd_cases node.subnets d appIdx netIdx raw node.apps with
    ⟨htakes, i, free, app, hget, hidx, hused, hupd, heq⟩ | ⟨htakes, heq⟩
  · rw [heq]
    constructor
    · intro hb' hunused
      exact absurd (hidx.trans hunused) (hb' app (mem_set_self hget) hused).subnet.1
    · intro hok
      refine bound_set hb i fun _ => ⟨⟨?_, ?_⟩, fun hu => absurd (hu.symm.trans hupd) (by decide)⟩
      · rw [hidx]
        exact fun hunused => hok hunused htakes
      · rw [hidx, phaseOf, ne_eq, map_eq_none_iff]
        exact htakes.1
  · rw [heq]
    exact iff_of_true hb fun _ => htakes

/-- **A key is updated** in phase 1 of its subnet. -/
theorem appKeyUpdate_bound (hb : ∀ app ∈ apps, app.Used → app.Bound t) :
    ∀ app ∈ (appKeyUpdate t d appIdx netIdx raw apps).apps, app.Used → app.Bound t := by
  unfold appKeyUpdate
  split
  · exact hb
  next i hi =>
    obtain ⟨hget, -⟩ := getElem?_of_appGet hi
    generalize apps.getD i freeApp = app at hget ⊢
    dsimp only
    split
    · exact hb
    split
    · exact hb
    next j hj =>
      split
      · exact hb
      next hphase =>
        split
        · exact hb
        split
        · exact hb
        refine bound_set hb i fun hused => ⟨(hb app (mem_of_getElem? hget) hused).subnet,
          fun _ => .inl ?_⟩
        show phaseOf t app.netIdx = some krPhase1
        rw [phaseOf, hj, map_some, not_not.1 hphase]

theorem appKeyDel_bound (hb : ∀ app ∈ apps, app.Used → app.Bound t) :
    ∀ app ∈ (appKeyDel t appIdx netIdx apps).apps, app.Used → app.Bound t := by
  unfold appKeyDel
  split
  · exact hb
  split
  · exact hb
  next i hi =>
    dsimp only
    split
    · exact hb
    · exact bound_set hb i fun hused => absurd rfl hused

/-! ## Runs -/

/-- **One call** keeps the application keys in step with the subnets exactly
where it meets the condition. -/
theorem step_bound_iff (cfg : KeysCfg) (h : PhasesOk node.subnets) (hb : AppsBound node)
    (e : Event) : AppsBound (node.step cfg e) ↔ AppsOk node e := by
  cases e with
  | subnet e => exact subnet_bound_iff cfg h hb e
  | app e =>
    cases e with
    | add appIdx netIdx raw d => exact add_bound_iff hb appIdx netIdx raw d
    | update appIdx netIdx raw d => exact iff_of_true (appKeyUpdate_bound hb) trivial
    | del appIdx netIdx => exact iff_of_true (appKeyDel_bound hb) trivial
  | brg e => exact iff_of_true hb trivial

theorem step_transmitsNew (cfg : KeysCfg) (h : PhasesOk node.subnets) (hb : AppsBound node)
    {e : Event} (hok : AppsOk node e) : TransmitsNew node (node.step cfg e) := by
  intro app happ hused hupd hold hnew
  have hb' : AppsBound (node.step cfg e) := (step_bound_iff cfg h hb e).2 hok
  cases e with
  | subnet e =>
    rw [step_subnet] at hb' hnew
    rcases (hb' app happ hused).refresh hupd with hp | hp
    · exact absurd (mem_unique hnew hp) (by decide)
    · exact absurd (mem_unique hnew hp) (by decide)
  | app e => exact absurd hnew hold
  | brg e => exact absurd hnew hold

/-- **Application keys and their subnets.** Every application key is bound
to a used subnet, and updated only in a key refresh of it, in every state of
a run, and each that was updated is sent with its new key once the key
refresh has ended, exactly if no call of the run deletes a subnet that a
key is bound to, ends a key refresh with a key of the subnet updated, or
adds a key for the index of none. -/
theorem apps_bound_iff (cfg : KeysCfg) (subnetCount appKeyCount itemsMax : ℕ)
    (es : List Event) :
    ((∀ es', es' <+: es →
        AppsBound (run (Node.step cfg) (nodeInit subnetCount appKeyCount itemsMax) es')) ∧
      Along (Node.step cfg) (fun node e => TransmitsNew node (node.step cfg e))
        (nodeInit subnetCount appKeyCount itemsMax) es) ↔
    Along (Node.step cfg) AppsOk (nodeInit subnetCount appKeyCount itemsMax) es := by
  have hinit : PhasesOk (nodeInit subnetCount appKeyCount itemsMax).subnets :=
    subnetsInit_phasesOk subnetCount
  have hbound : AppsBound (nodeInit subnetCount appKeyCount itemsMax) := by
    intro app happ hused
    rw [List.eq_of_mem_replicate happ] at hused
    exact absurd rfl hused
  refine prefix_along_iff (fun node : Node => PhasesOk node.subnets) AppsBound
    (fun node e => TransmitsNew node (node.step cfg e)) (fun node e h => step_phasesOk cfg h e)
    (fun node e h hb => ?_) hinit hbound es
  rw [step_bound_iff cfg h hb e]
  exact and_iff_left_of_imp (step_transmitsNew cfg h hb)

/-- **A subnet is deleted** and the key bound to it stays. **A key refresh
ends** with a key updated: it is still marked so, and sent with the old key. -/
theorem keys_left_behind :
    ¬ AppsBound (run (Node.step plainCfg) (nodeInit 1 1 0)
        [.subnet (.add 3 [1] ends), .app (.add 0 3 [5] ⟨true, 9, true⟩), .subnet (.del 3)]) ∧
    ∃ node, node = run (Node.step plainCfg) (nodeInit 1 1 0)
        [.subnet (.add 3 [1] ends), .app (.add 0 3 [5] ⟨true, 9, true⟩),
          .subnet (.update 3 [2] ends), .app (.update 0 3 [6] ⟨true, 8, true⟩)] ∧
      ¬ AppsBound (node.step plainCfg (.subnet (.krPhaseSet 3 3))) ∧
      ¬ TransmitsNew node (node.step plainCfg (.subnet (.krPhaseSet 3 3))) := by
  refine ⟨fun hb => ?_, _, rfl, fun hb => ?_, fun htx => ?_⟩
  · exact absurd (hb _ List.mem_cons_self (by decide)).subnet.2 (by decide)
  · exact absurd ((hb _ List.mem_cons_self (by decide)).refresh (by decide)) (by decide)
  · exact absurd (htx _ List.mem_cons_self (by decide) (by decide) (by decide) (by decide)) (by decide)

/-! ## Calls that fail -/

/-- What is to be seen of an entry: all of it while it is in use. -/
def AppKey.shown (app : AppKey) : Option AppKey := if app.Used then some app else none

/-- The entries in use are the same, each with its subnet, its keys and its
updated flag. -/
def AppsSame (apps apps' : List AppKey) : Prop := apps.map AppKey.shown = apps'.map AppKey.shown

/-- `bt_mesh_app_key_update` gets as far as to put a new key in an entry in
use. -/
def UpdateTakes (t : List Subnet) (apps : List AppKey) (d : AppDerivation) (appIdx netIdx : ℕ) :
    Prop :=
  appIdx ≠ keyUnused ∧ d.idOk = true ∧ ∃ i, appGet apps appIdx = some i ∧
    (netIdx = keyUnused ∨ (apps.getD i freeApp).netIdx = netIdx) ∧
    phaseOf t (apps.getD i freeApp).netIdx = some krPhase1 ∧
    (apps.getD i freeApp).updated = false

/-- The import of the key succeeds, where a call gets to it. -/
def AppEvent.Imports (t : List Subnet) (apps : List AppKey) : AppEvent → Prop
  | .add appIdx netIdx _ d => AddTakes t apps d appIdx netIdx → d.importOk = true
  | .update appIdx netIdx _ d => UpdateTakes t apps d appIdx netIdx → d.importOk = true
  | .del _ _ => True

theorem AppKey.shown_of_used (h : app.Used) : app.shown = some app := if_pos h

theorem AppKey.shown_of_free (h : ¬ app.Used) : app.shown = none := if_neg h

theorem AppsSame.refl (apps : List AppKey) : AppsSame apps apps := rfl

theorem appsSame_set_iff {app' : AppKey} (hget : apps[i]? = some app) :
    AppsSame apps (apps.set i app') ↔ app'.shown = app.shown := by
  have hold : (apps.map AppKey.shown)[i]? = some app.shown := by
    rw [getElem?_map, hget]
    rfl
  rw [AppsSame, map_set]
  constructor
  · intro h
    have hnew : ((apps.map AppKey.shown).set i app'.shown)[i]? = some app'.shown :=
      getElem?_set_self (List.getElem?_eq_some_iff.mp hold).1
    rw [← h] at hnew
    exact mem_unique hnew hold
  · intro h
    obtain ⟨hlt, hat⟩ := List.getElem?_eq_some_iff.mp hold
    rw [h, ← hat, set_getElem_self hlt]

theorem appKeyAdd_of_takes (h : AddTakes t apps d appIdx netIdx) :
    ∃ (i : ℕ) (free app : AppKey), apps[i]? = some free ∧ ¬ free.Used ∧ app.Used ∧
      (appKeyAdd t d appIdx netIdx raw apps).apps = apps.set i app ∧
      (appKeyAdd t d appIdx netIdx raw apps).status =
        if d.importOk then .success else .cannotSet := by
  obtain ⟨hsub, hid, i, hi, hne⟩ := h
  obtain ⟨free, hget, hcase⟩ := slotFor_eq_some hi
  have hgetD : apps.getD i freeApp = free := by
    rw [getD_eq_getElem?_getD, hget, getD_some]
  have hfree : free.appIdx = keyUnused := (hcase.resolve_left (hgetD ▸ hne)).1
  have hused : appIdx ≠ keyUnused := by
    rw [← hfree, ← hgetD]
    exact Ne.symm hne
  have hcall : appKeyAdd t d appIdx netIdx raw apps =
      { apps := apps.set i { free with
          netIdx := netIdx, appIdx := appIdx, updated := false, old := d.cred raw }
        status := if d.importOk then .success else .cannotSet } := by
    unfold appKeyAdd
    rw [if_neg hsub, hi]
    dsimp only
    rw [if_neg hne, if_neg (not_not.mpr hid), hgetD]
  rw [hcall]
  refine ⟨i, free, _, hget, not_not.mpr hfree, ?_, rfl, rfl⟩
  exact hused

/-- **A key is updated** in the entry of its index, or nothing changes. -/
theorem appKeyUpdate_cases (t : List Subnet) (d : AppDerivation) (appIdx netIdx : ℕ) (raw : Bytes)
    (apps : List AppKey) :
    (∃ (i : ℕ) (app : AppKey), apps[i]? = some app ∧ app.appIdx = appIdx ∧ app.updated = false ∧
        (UpdateTakes t apps d appIdx netIdx ↔ appIdx ≠ keyUnused) ∧
        (appKeyUpdate t d appIdx netIdx raw apps).apps =
          apps.set i { app with updated := true, new := d.cred raw } ∧
        (appKeyUpdate t d appIdx netIdx raw apps).status =
          if d.importOk then .success else .cannotUpdate) ∨
      (¬ UpdateTakes t apps d appIdx netIdx ∧
        (appKeyUpdate t d appIdx netIdx raw apps).apps = apps) := by
  unfold appKeyUpdate
  split
  next hnone =>
    refine .inr ⟨?_, rfl⟩
    rintro ⟨-, -, i, hi, -⟩
    cases hnone.symm.trans hi
  next i hi =>
    obtain ⟨hget, hidx⟩ := getElem?_of_appGet hi
    have hof (h : UpdateTakes t apps d appIdx netIdx) :
        (netIdx = keyUnused ∨ (apps.getD i freeApp).netIdx = netIdx) ∧
          phaseOf t (apps.getD i freeApp).netIdx = some krPhase1 ∧
          (apps.getD i freeApp).updated = false := by
      obtain ⟨-, -, j, hj, htakes⟩ := h
      obtain rfl := mem_unique hi hj
      exact htakes
    have hintro (h : d.idOk = true ∧ (netIdx = keyUnused ∨ (apps.getD i freeApp).netIdx = netIdx) ∧
          phaseOf t (apps.getD i freeApp).netIdx = some krPhase1 ∧
          (apps.getD i freeApp).updated = false) (hused : appIdx ≠ keyUnused) :
        UpdateTakes t apps d appIdx netIdx := ⟨hused, h.1, i, hi, h.2⟩
    generalize apps.getD i freeApp = app at hget hidx hof hintro ⊢
    dsimp only
    split
    next hbind =>
      refine .inr ⟨fun h => ?_, rfl⟩
      rcases (hof h).1 with hunused | hsame
      · exact hbind.1 hunused
      · exact hbind.2 hsame
    next hbind =>
    split
    next hsub =>
      refine .inr ⟨fun h => ?_, rfl⟩
      have hphase := (hof h).2.1
      rw [phaseOf, hsub] at hphase
      cases hphase
    next j hj =>
    have hphaseOf : phaseOf t app.netIdx = some (t.getD j freeSubnet).krPhase := by
      rw [phaseOf, hj, map_some]
    split
    next hphase =>
      exact .inr ⟨fun h => hphase (Option.some.inj (hphaseOf.symm.trans (hof h).2.1)), rfl⟩
    next hphase =>
    split
    next hupd =>
      exact .inr ⟨fun h => absurd (hupd.symm.trans (hof h).2.2) (by decide), rfl⟩
    next hupd =>
    split
    next hid => exact .inr ⟨fun h => hid h.2.1, rfl⟩
    next hid =>
      have hbound : netIdx = keyUnused ∨ app.netIdx = netIdx := by
        by_contra hno
        obtain ⟨hne, hne'⟩ := not_or.mp hno
        exact hbind ⟨hne, hne'⟩
      have hfresh : app.updated = false := Bool.not_eq_true _ ▸ hupd
      have htakes := hintro ⟨not_not.mp hid, hbound, hphaseOf.trans (congrArg _ (not_not.mp hphase)),
        hfresh⟩
      exact .inl ⟨i, app, hget, hidx, hfresh, ⟨fun h => h.1, htakes⟩, rfl, rfl⟩

/-- **A call that fails leaves the table as it is, exactly if the import of
the key does not fail.** -/
theorem failed_call_same_iff (t : List Subnet) (apps : List AppKey) (e : AppEvent) :
    ((appCall t apps e).status ≠ .success → AppsSame apps (appCall t apps e).apps) ↔
      e.Imports t apps := by
  cases e with
  | add appIdx netIdx raw d =>
    dsimp only [appCall, AppEvent.Imports]
    by_cases htakes : AddTakes t apps d appIdx netIdx
    · obtain ⟨i, free, app, hget, hfree, hused, happs, hstatus⟩ := appKeyAdd_of_takes htakes
      have hchanged : app.shown ≠ free.shown := by
        rw [AppKey.shown_of_used hused, AppKey.shown_of_free hfree]
        exact Option.some_ne_none app
      rw [happs, hstatus, appsSame_set_iff hget]
      cases d.importOk <;> simp [htakes, hchanged]
    · rcases appKeyAdd_cases t d appIdx netIdx raw apps with ⟨htakes', -⟩ | ⟨-, heq⟩
      · exact absurd htakes' htakes
      · rw [heq]
        exact iff_of_true (fun _ => .refl apps) fun h => absurd h htakes
  | update appIdx netIdx raw d =>
    dsimp only [appCall, AppEvent.Imports]
    rcases appKeyUpdate_cases t d appIdx netIdx raw apps with
      ⟨i, app, hget, hidx, hupd, htakes, happs, hstatus⟩ | ⟨htakes, heq⟩
    · rw [happs, hstatus, appsSame_set_iff hget, htakes]
      set app' : AppKey := { app with updated := true, new := d.cred raw }
      have hupd' : app'.updated = true := rfl
      have hsame : app'.Used ↔ app.Used := Iff.rfl
      have hshown : app'.shown = app.shown ↔ ¬ appIdx ≠ keyUnused := by
        by_cases hused : app.Used
        · refine iff_of_false (fun h => ?_) (not_not.mpr (hidx ▸ hused))
          rw [AppKey.shown_of_used (hsame.mpr hused), AppKey.shown_of_used hused] at h
          have hflag := congrArg AppKey.updated (Option.some.inj h)
          rw [hupd', hupd] at hflag
          exact Bool.false_ne_true hflag.symm
        · refine iff_of_true ?_ (hidx ▸ hused)
          rw [AppKey.shown_of_free hused, AppKey.shown_of_free (mt hsame.mp hused)]
      rw [hshown]
      cases d.importOk <;> simp
    · rw [heq]
      exact iff_of_true (fun _ => .refl apps) fun h => absurd h htakes
  | del appIdx netIdx =>
    refine iff_of_true (fun hstatus => ?_) trivial
    dsimp only [appCall] at hstatus ⊢
    unfold appKeyDel at hstatus ⊢
    split
    · exact .refl apps
    next hsub =>
    split
    · exact .refl apps
    next i hi =>
    dsimp only
    split
    · exact .refl apps
    next hbind =>
      rw [if_neg hsub, hi] at hstatus
      dsimp only at hstatus
      rw [if_neg hbind] at hstatus
      exact absurd rfl hstatus

/-- **The import of a key fails**: `bt_mesh_app_key_add` leaves an entry in
use that has no key, and `bt_mesh_app_key_update` one marked as updated. -/
theorem failed_import_kept :
    let t : List Subnet := [{ freeSubnet with netIdx := 3, krPhase := krPhase1 }]
    let app : AppKey := { netIdx := 3, appIdx := 0, old := ⟨9, some [5]⟩ }
    ((appCall t [freeApp] (.add 0 3 [5] ⟨true, 9, false⟩)).status = .cannotSet ∧
      ¬ AppsSame [freeApp] (appCall t [freeApp] (.add 0 3 [5] ⟨true, 9, false⟩)).apps) ∧
    ((appCall t [app] (.update 0 3 [6] ⟨true, 8, false⟩)).status = .cannotUpdate ∧
      ¬ AppsSame [app] (appCall t [app] (.update 0 3 [6] ⟨true, 8, false⟩)).apps) := by
  unfold AppsSame
  decide

end KeyTables

end OpenBlue

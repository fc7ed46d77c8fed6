import OpenBlue.Base.Model.Poll
/-!
# Base — polling: what a call leaves behind

An entry is registered only while the call is still polling, so the
registered entries are the first `events_registered` of the array: the
ones the call clears before it returns. A linked entry is one of them
(`State.Inv`), and nothing of a call is left when it returns
(`returned_clean`).
-/

namespace OpenBlue

namespace Base

namespace Poll

open Function List Poll.State

variable {s s' : State} {t : ℕ} {e : ℕ × ℕ} {o : Obj}

/-! ## The operations, field by field -/

section Fields

variable (s : State) (t : ℕ) (e : ℕ × ℕ)

@[simp] theorem setCall_calls (c : Call) : (s.setCall t c).calls = update s.calls t c := rfl

@[simp] theorem setCall_events (c : Call) : (s.setCall t c).events = s.events := rfl

@[simp] theorem setCall_lists (c : Call) : (s.setCall t c).lists = s.lists := rfl

@[simp] theorem setCall_signals (c : Call) : (s.setCall t c).signals = s.signals := rfl

@[simp] theorem setCall_lock (c : Call) : (s.setCall t c).lock = s.lock := rfl

variable (state : BitVec 32)

@[simp] theorem setEventReady_calls : (s.setEventReady e state).calls = s.calls := by
  unfold setEventReady
  split <;> rfl

@[simp] theorem setEventReady_lists : (s.setEventReady e state).lists = s.lists := by
  unfold setEventReady
  split <;> rfl

@[simp] theorem setEventReady_lock : (s.setEventReady e state).lock = s.lock := by
  unfold setEventReady
  split <;> rfl

@[simp] theorem setEventReady_events :
    (s.setEventReady e state).events = update s.events e { s.events e with
      poller := none, state := (s.events e).state ||| state.setWidth 7 } := by
  unfold setEventReady
  split <;> rfl

theorem setEventReady_signals (sig : ℕ) : ((s.setEventReady e state).signals sig).signaled =
      ((s.signals sig).signaled && decide ((s.events e).kind ≠ .signal sig)) := by
  unfold setEventReady
  split
  · next sig' hkind =>
    by_cases heq : sig = sig'
    · subst heq
      simp [setSignal, hkind]
    · have hne : sig' ≠ sig := fun h => heq h.symm
      simp [setSignal, setEvent, hkind, heq, hne]
  · next hkind =>
    have hne : (s.events e).kind ≠ .signal sig := hkind sig
    simp [setEvent, hne]

theorem registerEvent_calls : (s.registerEvent e t).calls = s.calls := by
  unfold registerEvent
  split <;> rfl

theorem registerEvent_lock : (s.registerEvent e t).lock = s.lock := by
  unfold registerEvent
  split <;> rfl

theorem registerEvent_signals : (s.registerEvent e t).signals = s.signals := by
  unfold registerEvent
  split <;> rfl

theorem registerEvent_events : (s.registerEvent e t).events =
    update s.events e { s.events e with poller := some t } := by
  unfold registerEvent
  split <;> rfl

theorem registerEvent_lists (o : Obj) : (s.registerEvent e t).lists o =
    if (s.events e).kind.obj = some o then s.lists o ++ [e] else s.lists o := by
  unfold registerEvent
  split
  · next o' ho' =>
    by_cases heq : o = o'
    · subst heq
      simp [setEvent, setList, ho']
    · have hne : o' ≠ o := fun h => heq h.symm
      simp [setEvent, setList, ho', heq, hne]
  · next hnone => simp [setEvent, hnone]

end Fields

/-! ## Clearing -/

theorem clearEventRegistration_events (s : State) (e e' : ℕ × ℕ) :
    (s.clearEventRegistration e).events e' =
      if e' = e then { s.events e' with poller := none } else s.events e' := by
  have h : (s.clearEventRegistration e).events =
      update s.events e { s.events e with poller := none } := by
    unfold clearEventRegistration
    split <;> rfl
  rw [h, update_apply]
  split
  · next heq => rw [heq]
  · rfl

theorem clearEventRegistration_lists (s : State) (e : ℕ × ℕ) (o : Obj) :
    (s.clearEventRegistration e).lists o =
      if (s.events e).kind.obj = some o then (s.lists o).erase e else s.lists o := by
  unfold clearEventRegistration
  split
  · next o' ho' =>
    by_cases heq : o = o'
    · subst heq
      simp [setList, ho']
    · have hne : o' ≠ o := fun h => heq h.symm
      simp [setList, setEvent, ho', heq, hne]
  · next hnone => simp [setEvent, hnone]

theorem clearEventRegistrations_frame (s : State) (t n : ℕ) :
    (s.clearEventRegistrations t n).calls = s.calls ∧
      (s.clearEventRegistrations t n).signals = s.signals ∧
      (s.clearEventRegistrations t n).lock = s.lock := by
  induction n generalizing s with
  | zero => exact ⟨rfl, rfl, rfl⟩
  | succ n ih =>
    have hone : (s.clearEventRegistration (t, n)).calls = s.calls ∧
        (s.clearEventRegistration (t, n)).signals = s.signals ∧
        (s.clearEventRegistration (t, n)).lock = s.lock := by
      unfold clearEventRegistration
      split <;> exact ⟨rfl, rfl, rfl⟩
    obtain ⟨hcalls, hsignals, hlock⟩ := ih (s.clearEventRegistration (t, n))
    exact ⟨hcalls.trans hone.1, hsignals.trans hone.2.1, hlock.trans hone.2.2⟩

@[simp] theorem clearEventRegistrations_calls (s : State) (t n : ℕ) :
    (s.clearEventRegistrations t n).calls = s.calls := (clearEventRegistrations_frame s t n).1

@[simp] theorem clearEventRegistrations_signals (s : State) (t n : ℕ) :
    (s.clearEventRegistrations t n).signals = s.signals :=
  (clearEventRegistrations_frame s t n).2.1

@[simp] theorem clearEventRegistrations_lock (s : State) (t n : ℕ) :
    (s.clearEventRegistrations t n).lock = s.lock := (clearEventRegistrations_frame s t n).2.2

/-- **The first `n` entries lose their poller**, and nothing else of an
event changes. -/
theorem clearEventRegistrations_events (s : State) (t n : ℕ) (e : ℕ × ℕ) :
    (s.clearEventRegistrations t n).events e =
      if e.1 = t ∧ e.2 < n then { s.events e with poller := none } else s.events e := by
  induction n generalizing s with
  | zero => simp [clearEventRegistrations]
  | succ n ih =>
    rw [clearEventRegistrations, ih, clearEventRegistration_events]
    by_cases hlast : e = (t, n)
    · subst hlast
      simp
    · have hne : ¬ (e.1 = t ∧ e.2 = n) := fun h => hlast (Prod.ext h.1 h.2)
      rw [if_neg hlast]
      by_cases hin : e.1 = t ∧ e.2 < n
      · rw [if_pos hin, if_pos ⟨hin.1, by omega⟩]
      · rw [if_neg hin, if_neg fun h => ?_]
        rcases Nat.lt_succ_iff_lt_or_eq.mp h.2 with hlt | heq
        · exact hin ⟨h.1, hlt⟩
        · exact hne ⟨h.1, heq⟩

theorem clearEventRegistration_sublist (s : State) (e : ℕ × ℕ) (o : Obj) :
    ((s.clearEventRegistration e).lists o).Sublist (s.lists o) := by
  rw [clearEventRegistration_lists]
  split
  · exact erase_sublist
  · exact List.Sublist.refl _

theorem clearEventRegistrations_sublist (s : State) (t n : ℕ) (o : Obj) :
    ((s.clearEventRegistrations t n).lists o).Sublist (s.lists o) := by
  induction n generalizing s with
  | zero => exact List.Sublist.refl _
  | succ n ih => exact (ih _).trans (clearEventRegistration_sublist s (t, n) o)

/-- **The first `n` entries are linked nowhere they could be.** -/
theorem not_mem_clearEventRegistrations (s : State) (t n : ℕ) (hn : (s.lists o).Nodup)
    (he : e.1 = t ∧ e.2 < n) (ho : (s.events e).kind.obj = some o) :
    e ∉ (s.clearEventRegistrations t n).lists o := by
  induction n generalizing s with
  | zero => exact absurd he.2 (Nat.not_lt_zero _)
  | succ n ih =>
    rw [clearEventRegistrations]
    have hsub := clearEventRegistration_sublist s (t, n) o
    rcases Nat.lt_succ_iff_lt_or_eq.mp he.2 with hlt | heq
    · refine ih _ (hsub.nodup hn) ⟨he.1, hlt⟩ ?_
      rw [clearEventRegistration_events]
      split <;> exact ho
    · have hlast : e = (t, n) := Prod.ext he.1 heq
      intro hmem
      have hfirst := (clearEventRegistrations_sublist _ t n o).subset hmem
      rw [clearEventRegistration_lists, if_pos (hlast ▸ ho), ← hlast] at hfirst
      exact (hn.mem_erase_iff.mp hfirst).1 rfl

/-! ## What a step does -/

/-- What a step has done and shown, with what it has found. -/
inductive Acted (s : State) : Event → State → List Out → Prop
  | idle (e : Event) : Acted s e s []
  | init {t : ℕ} (i : ℕ) (kind : Kind) (hidle : (s.calls t).pc = .idle) :
    Acted s (.init t i kind) (s.setEvent (t, i) { s.events (t, i) with kind, state := 0 }) []
  | poll {t : ℕ} (numEvents : ℕ) (timeout : Timeout) (hidle : (s.calls t).pc = .idle) :
    Acted s (.poll t numEvents timeout)
      (s.setCall t { pc := .registering, numEvents, timeout, isPolling := true }) [.called t]
  | met {t : ℕ} {state : BitVec 32} (hl : s.lock = none) (hpc : (s.calls t).pc = .registering)
    (hii : (s.calls t).ii < (s.calls t).numEvents)
    (hmet : s.isConditionMet (t, (s.calls t).ii) = some state) :
    Acted s (.register t) ((s.setEventReady (t, (s.calls t).ii) state).setCall t
      { s.calls t with ii := (s.calls t).ii + 1, isPolling := false }) []
  | registered {t : ℕ} (hl : s.lock = none) (hpc : (s.calls t).pc = .registering)
    (hii : (s.calls t).ii < (s.calls t).numEvents)
    (hmet : s.isConditionMet (t, (s.calls t).ii) = none)
    (hgo : (s.calls t).timeout ≠ .noWait ∧ (s.calls t).isPolling = true) :
    Acted s (.register t) ((s.registerEvent (t, (s.calls t).ii) t).setCall t { s.calls t with
      ii := (s.calls t).ii + 1, eventsRegistered := (s.calls t).eventsRegistered + 1 })
      [.registered t (s.calls t).ii]
  | passed {t : ℕ} (hl : s.lock = none) (hpc : (s.calls t).pc = .registering)
    (hii : (s.calls t).ii < (s.calls t).numEvents)
    (hstop : ¬ ((s.calls t).timeout ≠ .noWait ∧ (s.calls t).isPolling = true)) :
    Acted s (.register t) (s.setCall t { s.calls t with ii := (s.calls t).ii + 1 }) []
  | ready {t : ℕ} (hl : s.lock = none) (hpc : (s.calls t).pc = .registering)
    (hii : (s.calls t).numEvents ≤ (s.calls t).ii) (hpolling : (s.calls t).isPolling = false) :
    Acted s (.check t) (s.clear t .zero).1 (s.clear t .zero).2
  | noWait {t : ℕ} {s' : State} (hl : s.lock = none) (hpc : (s.calls t).pc = .registering)
    (hpolling : (s.calls t).isPolling = true) (hwait : (s.calls t).timeout = .noWait)
    (hs' : s' = s.setCall t { s.calls t with isPolling := false }) :
    Acted s (.check t) (s'.ret t .zero).1 (s'.ret t .zero).2
  | wait {t : ℕ} (hl : s.lock = none) (hpc : (s.calls t).pc = .registering)
    (hii : (s.calls t).numEvents ≤ (s.calls t).ii) (hpolling : (s.calls t).isPolling = true)
    (hwait : (s.calls t).timeout ≠ .noWait) :
    Acted s (.check t)
      { s.setCall t { s.calls t with isPolling := false, pc := .taking } with lock := some t } []
  | left {e : Event} {t : ℕ} (ret : Ret) (hpc : (s.calls t).pc = .taking)
    (he : e = .taken t ∧ 0 < (s.calls t).sem ∨ e = .expired t) : Acted s e (s.leave t ret) []
  | cleared {t : ℕ} {ret : Ret} (hl : s.lock = none) (hpc : (s.calls t).pc = .clearing ret) :
    Acted s (.clear t) (s.clear t ret).1 (s.clear t ret).2
  | raised {sig : ℕ} (result : ℤ) (hl : s.lock = none) :
    Acted s (.raise sig result) (s.signalRaise sig result) [.raised sig]
  | handled {o : Obj} {state : BitVec 32} (hl : s.lock = none) :
    Acted s (.handle o state) (s.handleObjEvents o state) []
  | queue (q : ℕ) (empty : Bool) :
    Acted s (.queue q empty) { s with empty := update s.empty q empty } []

/-- **What a step does.** -/
theorem acted (s : State) (e : Event) : Acted s e (s.step e) (s.emit e) := by
  unfold State.step emit State.act
  cases e with
  | init t i kind =>
    dsimp only
    split
    · next hidle => exact .init i kind hidle
    · exact .idle _
  | poll t numEvents timeout =>
    dsimp only
    split
    · next hidle => exact .poll numEvents timeout hidle
    · exact .idle _
  | register t =>
    dsimp only
    split
    · next hgo =>
      obtain ⟨hl, hpc, hii⟩ := hgo
      unfold registerEvents
      dsimp only
      split
      · next hmet => exact .met hl hpc hii hmet
      · next hmet =>
        split
        · next hgo => exact .registered hl hpc hii hmet hgo
        · next hstop => exact .passed hl hpc hii hstop
    · exact .idle _
  | check t =>
    dsimp only
    split
    · next hgo =>
      obtain ⟨hl, hpc, hii⟩ := hgo
      unfold State.check
      dsimp only
      split
      · next hpolling => exact .ready hl hpc hii (by simpa using hpolling)
      · next hpolling =>
        have hpolling : (s.calls t).isPolling = true := by simpa using hpolling
        split
        · next hwait => exact .noWait hl hpc hpolling hwait rfl
        · next hwait => exact .wait hl hpc hii hpolling hwait
    · exact .idle _
  | taken t =>
    dsimp only
    split
    · next hgo => exact .left .zero hgo.1 (.inl ⟨rfl, hgo.2⟩)
    · exact .idle _
  | expired t =>
    dsimp only
    split
    · next hgo => exact .left .timedout hgo.1 (.inr rfl)
    · exact .idle _
  | clear t =>
    dsimp only
    split
    · next ret hpc =>
      split
      · next hl => exact .cleared hl hpc
      · exact .idle _
    · exact .idle _
  | raise sig result =>
    dsimp only
    split
    · next hl => exact .raised result hl
    · exact .idle _
  | handle o state =>
    dsimp only
    split
    · next hl => exact .handled hl
    · exact .idle _
  | queue q empty => exact .queue q empty

/-! ## The invariant -/

/-- The entry is one of those its call has registered. -/
def State.Registered (s : State) (e : ℕ × ℕ) : Prop :=
  (s.calls e.1).pc ≠ .idle ∧ e.2 < (s.calls e.1).eventsRegistered

/-- What holds of a call of the thread `t`. -/
structure CallOk (lock : Option ℕ) (t : ℕ) (c : Call) : Prop where
  loop : c.pc ≠ .idle → c.eventsRegistered ≤ c.ii ∧ c.ii ≤ c.numEvents
  polling : c.pc = .registering → c.isPolling = true →
    c.sem = 0 ∧ (c.timeout ≠ .noWait → c.eventsRegistered = c.ii)
  noWait : c.pc ≠ .idle → c.timeout = .noWait → c.eventsRegistered = 0
  taking : c.pc = .taking → lock = some t ∧ c.sem = 0

/-- What holds in every state: an entry that is linked, or that points to
a poller, is registered by the call of that poller. -/
structure State.Inv (s : State) : Prop where
  linked : ∀ o e, e ∈ s.lists o → s.Registered e ∧ (s.events e).kind.obj = some o ∧
    (s.events e).poller = some e.1
  poller : ∀ e t, (s.events e).poller = some t → t = e.1 ∧ s.Registered e
  nodup : ∀ o, (s.lists o).Nodup
  signaled : ∀ sig, (s.signals sig).signaled = true → s.lists (.signal sig) = []
  call : ∀ t, CallOk s.lock t (s.calls t)

theorem inv_start : start.Inv where
  linked o e he := by cases he
  poller e t he := by cases he
  nodup o := nodup_nil
  signaled sig h := rfl
  call t := by
    constructor <;> intro h
    · exact absurd rfl h
    · cases h
    · exact absurd rfl h
    · cases h

theorem State.Inv.call_update (h : s.Inv) {lock : Option ℕ} {c : Call} (hc : CallOk lock t c)
    (hlock : ∀ t', t' ≠ t → s.lock = some t' → lock = some t') :
    ∀ t', CallOk lock t' (update s.calls t c t') := by
  intro t'
  by_cases heq : t' = t
  · subst heq
    rwa [update_self]
  · rw [update_of_ne heq]
    obtain ⟨hloop, hpolling, hnoWait, htaking⟩ := h.call t'
    exact ⟨hloop, hpolling, hnoWait, fun hpc =>
      ⟨hlock t' heq (htaking hpc).1, (htaking hpc).2⟩⟩

theorem State.Inv.not_taking (h : s.Inv) (hl : s.lock = none) : (s.calls t).pc ≠ .taking := by
  intro hpc
  have := ((h.call t).taking hpc).1
  simp [hl] at this

theorem State.Inv.move (h : s.Inv)
    (hlists : ∀ o e, e ∈ s'.lists o → e ∈ s.lists o ∧ s'.Registered e ∧
      (s'.events e).kind = (s.events e).kind ∧ (s'.events e).poller = (s.events e).poller)
    (hpoller : ∀ e t, (s'.events e).poller = some t →
      (s.events e).poller = some t ∧ s'.Registered e) (hnodup : ∀ o, (s'.lists o).Nodup)
    (hsignaled : ∀ sig, (s'.signals sig).signaled = true → s'.lists (.signal sig) = [])
    (hcall : ∀ t, CallOk s'.lock t (s'.calls t)) : s'.Inv where
  linked o e he := by
    obtain ⟨hold, hreg, hkind, hsame⟩ := hlists o e he
    obtain ⟨-, hobj, hown⟩ := h.linked o e hold
    exact ⟨hreg, hkind ▸ hobj, hsame ▸ hown⟩
  poller e t he := ⟨(h.poller e t (hpoller e t he).1).1, (hpoller e t he).2⟩
  nodup := hnodup
  signaled := hsignaled
  call := hcall

theorem State.Inv.setCall (h : s.Inv) {lock : Option ℕ} {c : Call}
    (hreg : ∀ i, (s.calls t).pc ≠ .idle ∧ i < (s.calls t).eventsRegistered →
      c.pc ≠ .idle ∧ i < c.eventsRegistered)
    (hc : CallOk lock t c) (hlock : ∀ t', t' ≠ t → s.lock = some t' → lock = some t') :
    ({ s.setCall t c with lock } : State).Inv := by
  have hkeep : ∀ e, s.Registered e → ({ s.setCall t c with lock } : State).Registered e := by
    intro e he
    unfold State.Registered at he ⊢
    by_cases heq : e.1 = t
    · rw [heq] at he
      simpa [heq] using hreg e.2 he
    · simpa [update_of_ne heq] using he
  exact h.move (fun o e he => ⟨he, hkeep e (h.linked o e he).1, rfl, rfl⟩)
    (fun e t' he => ⟨he, hkeep e (h.poller e t' he).2⟩) h.nodup h.signaled
    (h.call_update hc hlock)

/-! ## The loop of `register_events` -/

theorem State.Inv.not_linked (h : s.Inv) (hpc : (s.calls t).pc ≠ .idle)
    (he : e ∈ s.lists o) : e ≠ (t, (s.calls t).ii) := by
  rintro rfl
  have hlt := (h.linked o _ he).1.2
  have hle := ((h.call t).loop hpc).1
  simp only at hlt
  omega

theorem State.Inv.met (h : s.Inv) (hpc : (s.calls t).pc = .registering)
    (hii : (s.calls t).ii < (s.calls t).numEvents) (state : BitVec 32) :
    ((s.setEventReady (t, (s.calls t).ii) state).setCall t { s.calls t with
      ii := (s.calls t).ii + 1, isPolling := false }).Inv := by
  have hne : (s.calls t).pc ≠ .idle := by simp [hpc]
  obtain ⟨s', hs'⟩ : ∃ s', s' = (s.setEventReady (t, (s.calls t).ii) state).setCall t
      { s.calls t with ii := (s.calls t).ii + 1, isPolling := false } := ⟨_, rfl⟩
  have hcalls : s'.calls = update s.calls t
      { s.calls t with ii := (s.calls t).ii + 1, isPolling := false } := by
    rw [hs', setCall_calls, setEventReady_calls]
  have hlists : s'.lists = s.lists := by rw [hs', setCall_lists, setEventReady_lists]
  have hevents : ∀ e, e ≠ (t, (s.calls t).ii) → s'.events e = s.events e := by
    intro e hother
    rw [hs', setCall_events, setEventReady_events, update_of_ne hother]
  have hreg : ∀ e, s.Registered e → s'.Registered e := by
    intro e he
    unfold State.Registered at he ⊢
    rw [hcalls]
    by_cases heq : e.1 = t
    · rw [heq] at he ⊢
      simpa using he
    · simpa [update_of_ne heq] using he
  rw [← hs']
  refine h.move ?_ ?_ ?_ ?_ ?_
  · intro o e he
    rw [hlists] at he
    rw [hevents e (h.not_linked hne he)]
    exact ⟨he, hreg e (h.linked o e he).1, rfl, rfl⟩
  · intro e t' he
    by_cases heq : e = (t, (s.calls t).ii)
    · subst heq
      simp [hs'] at he
    · rw [hevents e heq] at he
      exact ⟨he, hreg e (h.poller e t' he).2⟩
  · rw [hlists]
    exact h.nodup
  · intro sig hsig
    rw [hs', setCall_signals, setEventReady_signals, Bool.and_eq_true] at hsig
    rw [hlists]
    exact h.signaled sig hsig.1
  · obtain ⟨hloop, -, hnoWait, -⟩ := h.call t
    have hlock : s'.lock = s.lock := by rw [hs', setCall_lock, setEventReady_lock]
    rw [hcalls, hlock]
    refine h.call_update ⟨fun _ => ?_, fun _ hp => ?_, hnoWait, fun hp => ?_⟩ (fun t' _ hl => hl)
    · have := hloop hne
      simp only
      omega
    · cases hp
    · simp [hpc] at hp

/-- **An entry is registered at the end of the prefix**, and is the only
one whose registration changes. -/
theorem State.Inv.register (h : s.Inv) (hpc : (s.calls t).pc = .registering)
    (hii : (s.calls t).ii < (s.calls t).numEvents)
    (hmet : s.isConditionMet (t, (s.calls t).ii) = none)
    (hgo : (s.calls t).timeout ≠ .noWait ∧ (s.calls t).isPolling = true) :
    ((s.registerEvent (t, (s.calls t).ii) t).setCall t { s.calls t with
      ii := (s.calls t).ii + 1, eventsRegistered := (s.calls t).eventsRegistered + 1 }).Inv := by
  have hne : (s.calls t).pc ≠ .idle := by simp [hpc]
  obtain ⟨hsem, hprefix⟩ := (h.call t).polling hpc hgo.2
  have hprefix := hprefix hgo.1
  obtain ⟨s', hs'⟩ : ∃ s', s' = (s.registerEvent (t, (s.calls t).ii) t).setCall t { s.calls t with
      ii := (s.calls t).ii + 1, eventsRegistered := (s.calls t).eventsRegistered + 1 } := ⟨_, rfl⟩
  have hcalls : s'.calls = update s.calls t { s.calls t with
      ii := (s.calls t).ii + 1, eventsRegistered := (s.calls t).eventsRegistered + 1 } := by
    rw [hs', setCall_calls, registerEvent_calls]
  have hevents : s'.events = update s.events (t, (s.calls t).ii)
      { s.events (t, (s.calls t).ii) with poller := some t } := by
    rw [hs', setCall_events, registerEvent_events]
  have hlists : ∀ o, s'.lists o = if (s.events (t, (s.calls t).ii)).kind.obj = some o then
        s.lists o ++ [(t, (s.calls t).ii)] else s.lists o := by
    intro o
    rw [hs', setCall_lists, registerEvent_lists]
  have hreg : ∀ e, s'.Registered e ↔ s.Registered e ∨ e = (t, (s.calls t).ii) := by
    rintro ⟨u, i⟩
    unfold State.Registered
    rw [hcalls]
    by_cases heq : u = t
    · subst heq
      simp only [update_self, Prod.mk.injEq, true_and]
      constructor
      · rintro ⟨-, hi⟩
        rcases Nat.lt_succ_iff_lt_or_eq.mp hi with hlt | hlast
        · exact Or.inl ⟨hne, hlt⟩
        · exact Or.inr (hlast.trans hprefix)
      · rintro (⟨-, hi⟩ | hi)
        · exact ⟨hne, by omega⟩
        · exact ⟨hne, by omega⟩
    · simp [heq]
  rw [← hs']
  refine ⟨?_, ?_, ?_, ?_, ?_⟩
  · intro o e he
    rw [hlists] at he
    rw [hreg, hevents]
    have hcase : e ∈ s.lists o ∨
        e = (t, (s.calls t).ii) ∧ (s.events (t, (s.calls t).ii)).kind.obj = some o := by
      split at he
      · next ho =>
        rcases mem_append.mp he with hold | hnew
        · exact Or.inl hold
        · exact Or.inr ⟨mem_singleton.mp hnew, ho⟩
      · exact Or.inl he
    rcases hcase with hold | ⟨rfl, ho⟩
    · have hother := h.not_linked hne hold
      obtain ⟨hr, hobj, hown⟩ := h.linked o e hold
      rw [update_of_ne hother]
      exact ⟨Or.inl hr, hobj, hown⟩
    · rw [update_self]
      exact ⟨Or.inr rfl, ho, rfl⟩
  · intro e t' he
    rw [hevents] at he
    rw [hreg]
    by_cases heq : e = (t, (s.calls t).ii)
    · subst heq
      rw [update_self] at he
      exact ⟨(Option.some.inj he).symm, Or.inr rfl⟩
    · rw [update_of_ne heq] at he
      exact ⟨(h.poller e t' he).1, Or.inl (h.poller e t' he).2⟩
  · intro o
    rw [hlists]
    split
    · refine nodup_append.mpr ⟨h.nodup o, by simp, ?_⟩
      rintro e he e' he' rfl
      exact h.not_linked hne he (mem_singleton.mp he')
    · exact h.nodup o
  · intro sig hsig
    rw [hs', setCall_signals, registerEvent_signals] at hsig
    rw [hlists, if_neg]
    · exact h.signaled sig hsig
    · -- A signal that is set would have met the condition.
      intro hobj
      have hkind : (s.events (t, (s.calls t).ii)).kind = .signal sig := by
        cases hk : (s.events (t, (s.calls t).ii)).kind <;> rw [hk] at hobj <;> cases hobj
        rfl
      simp [State.isConditionMet, hkind, hsig] at hmet
  · obtain ⟨hloop, -, hnoWait, -⟩ := h.call t
    have hlock : s'.lock = s.lock := by rw [hs', setCall_lock, registerEvent_lock]
    rw [hcalls, hlock]
    refine h.call_update ⟨fun _ => ?_, fun _ _ => ⟨hsem, fun _ => ?_⟩, fun _ hno => ?_, fun hp => ?_⟩
      (fun t' _ hl => hl)
    · have := hloop hne
      simp only
      omega
    · simp only
      omega
    · exact absurd hno hgo.1
    · simp [hpc] at hp

/-! ## Returning -/

theorem State.Inv.cleared (h : s.Inv) (t : ℕ) (r : Ret) :
    ((s.clearEventRegistrations t (s.calls t).eventsRegistered).ret t r).1.Inv := by
  obtain ⟨s', hs'⟩ : ∃ s', s' = s.clearEventRegistrations t (s.calls t).eventsRegistered :=
    ⟨_, rfl⟩
  have hcalls : s'.calls = s.calls := by rw [hs', clearEventRegistrations_calls]
  have hevents : ∀ e, s'.events e = if e.1 = t ∧ e.2 < (s.calls t).eventsRegistered then
      { s.events e with poller := none } else s.events e := by
    intro e
    rw [hs', clearEventRegistrations_events]
  -- What is left is of other threads.
  have hreg : ∀ e, s.Registered e → e.1 ≠ t → (s'.ret t r).1.Registered e := by
    intro e he hne
    unfold State.Registered State.ret at *
    simpa [update_of_ne hne, hcalls] using he
  rw [← hs']
  refine h.move ?_ ?_ ?_ ?_ ?_
  · intro o e he
    have hold : e ∈ s.lists o := by
      rw [hs'] at he
      exact (clearEventRegistrations_sublist s t _ o).subset he
    obtain ⟨hr, hobj, -⟩ := h.linked o e hold
    have hne : e.1 ≠ t := by
      intro heq
      refine not_mem_clearEventRegistrations s t _ (h.nodup o) ⟨heq, heq ▸ hr.2⟩ hobj ?_
      rwa [hs'] at he
    have hsame : s'.events e = s.events e := by rw [hevents, if_neg fun hin => hne hin.1]
    exact ⟨hold, hreg e hr hne, congrArg PollEvent.kind hsame, congrArg PollEvent.poller hsame⟩
  · intro e t' he
    change (s'.events e).poller = some t' at he
    rw [hevents] at he
    split at he
    · cases he
    · next hout =>
      obtain ⟨-, hr⟩ := h.poller e t' he
      exact ⟨he, hreg e hr fun heq => hout ⟨heq, heq ▸ hr.2⟩⟩
  · intro o
    rw [hs']
    exact (clearEventRegistrations_sublist s t _ o).nodup (h.nodup o)
  · intro sig hsig
    change (s'.signals sig).signaled = true at hsig
    rw [hs', clearEventRegistrations_signals] at hsig
    have hnil := h.signaled sig hsig
    have hsub := clearEventRegistrations_sublist s t (s.calls t).eventsRegistered (.signal sig)
    rw [hnil] at hsub
    show s'.lists (.signal sig) = []
    rw [hs']
    exact sublist_nil.mp hsub
  · show ∀ t', CallOk s'.lock t' (update s'.calls t _ t')
    rw [hcalls, hs', clearEventRegistrations_lock]
    refine h.call_update ⟨?_, ?_, ?_, ?_⟩ (fun t' _ hl => hl) <;> intro hp
    · exact absurd rfl hp
    · cases hp
    · exact absurd rfl hp
    · cases hp

/-! ## Handing an event over -/

theorem Kind.eq_signal {k : Kind} {sig : ℕ} (h : k.obj = some (.signal sig)) : k = .signal sig := by
  cases k <;> cases h
  rfl

theorem signalPollEvent_of_poller (h : (s.events e).poller = some t) (state : BitVec 32) :
    s.signalPollEvent e state = if state = stateCancelled ∨ eventMatch (s.events e).kind state then
        (s.setEventReady e state).setCall t { s.calls t with
          sem := semGive (s.calls t).sem, isPolling := false }
      else s.setCall t { s.calls t with isPolling := false } := by
  unfold signalPollEvent signalPoller
  rw [h]
  dsimp only
  split
  · simp [setCall]
  · rfl

/-- The first entry of a list is taken off, and its call polls no more. -/
theorem State.Inv.hand (h : s.Inv) (hl : s.lock = none) {rest : List (ℕ × ℕ)}
    (ho : s.lists o = e :: rest) (sem : ℕ)
    (hlists : s'.lists = update s.lists o rest)
    (hevents : ∀ e', (s'.events e').kind = (s.events e').kind ∧
      ((s'.events e').poller = (s.events e').poller ∨ e' = e ∧ (s'.events e').poller = none))
    (hcalls : s'.calls = update s.calls e.1
      { s.calls e.1 with sem, isPolling := false })
    (hlock : s'.lock = s.lock)
    (hsignaled : ∀ sig, (s'.signals sig).signaled = true → s'.lists (.signal sig) = []) :
    s'.Inv := by
  have hnodup := h.nodup o
  rw [ho, nodup_cons] at hnodup
  have hreg : ∀ e', s.Registered e' → s'.Registered e' := by
    intro e' he'
    unfold State.Registered at he' ⊢
    rw [hcalls]
    by_cases heq : e'.1 = e.1
    · rw [heq] at he' ⊢
      simpa using he'
    · simpa [update_of_ne heq] using he'
  refine h.move ?_ ?_ ?_ hsignaled ?_
  · intro o' e' he'
    have hold : e' ∈ s.lists o' ∧ e' ≠ e := by
      rw [hlists] at he'
      by_cases heq : o' = o
      · subst heq
        rw [update_self] at he'
        rw [ho]
        exact ⟨mem_cons_of_mem _ he', fun h => hnodup.1 (h ▸ he')⟩
      · rw [update_of_ne heq] at he'
        -- An entry is linked at one object only.
        refine ⟨he', fun h' => heq ?_⟩
        have h1 := (h.linked o' e' he').2.1
        have h2 := (h.linked o e (by rw [ho]; exact mem_cons_self)).2.1
        rw [h', h2] at h1
        exact (Option.some.inj h1).symm
    obtain ⟨hkind, hsame | ⟨rfl, -⟩⟩ := hevents e'
    · exact ⟨hold.1, hreg e' (h.linked o' e' hold.1).1, hkind, hsame⟩
    · exact absurd rfl hold.2
  · intro e' t' he'
    obtain ⟨-, hsame | ⟨rfl, hnone⟩⟩ := hevents e'
    · rw [hsame] at he'
      exact ⟨he', hreg e' (h.poller e' t' he').2⟩
    · rw [hnone] at he'
      cases he'
  · intro o'
    rw [hlists]
    by_cases heq : o' = o
    · subst heq
      rw [update_self]
      exact hnodup.2
    · rw [update_of_ne heq]
      exact h.nodup o'
  · obtain ⟨hloop, -, hnoWait, -⟩ := h.call e.1
    rw [hcalls, hlock]
    refine h.call_update ⟨hloop, fun _ hp => ?_, hnoWait, fun hp => ?_⟩ (fun t' _ hl => hl)
    · cases hp
    · exact absurd hp (h.not_taking hl)

theorem State.Inv.handle (h : s.Inv) (hl : s.lock = none) (o : Obj) (state : BitVec 32) :
    (s.handleObjEvents o state).Inv := by
  unfold State.handleObjEvents
  split
  · exact h
  · next e rest ho =>
    have hown := (h.linked o e (by rw [ho]; exact mem_cons_self)).2.2
    have hsignaled : ∀ sig, (s.signals sig).signaled = true →
        (s.setList o rest).lists (.signal sig) = [] := by
      intro sig hsig
      have hnil := h.signaled sig hsig
      have hne : Obj.signal sig ≠ o := by
        rintro rfl
        rw [hnil] at ho
        cases ho
      show update s.lists o rest _ = []
      rwa [update_of_ne hne]
    rw [signalPollEvent_of_poller (s := s.setList o rest) hown]
    split
    · refine h.hand hl ho (semGive (s.calls e.1).sem) ?_ (fun e' => ?_) ?_ ?_ fun sig hsig => ?_
      · rw [setCall_lists, setEventReady_lists]
        rfl
      · rw [setCall_events, setEventReady_events]
        by_cases heq : e' = e
        · subst heq
          simp [State.setList]
        · simp [update_of_ne heq, State.setList]
      · rw [setCall_calls, setEventReady_calls]
        rfl
      · rw [setCall_lock, setEventReady_lock]
        rfl
      · rw [setCall_signals, setEventReady_signals, Bool.and_eq_true] at hsig
        rw [setCall_lists, setEventReady_lists]
        exact hsignaled sig hsig.1
    · exact h.hand hl ho (s.calls e.1).sem rfl (fun e' => ⟨rfl, Or.inl rfl⟩) rfl rfl hsignaled

/-- **A raise stays at its signal, or goes to the first entry that waits
there.** -/
theorem signalRaise_cases (h : s.Inv) (sig : ℕ) (result : ℤ) : (s.lists (.signal sig) = [] ∧
      s.signalRaise sig result = s.setSignal sig { signaled := true, result }) ∨
    ∃ e rest, s.lists (.signal sig) = e :: rest ∧ (s.events e).kind = .signal sig ∧
      s.signalRaise sig result =
        (((s.setSignal sig { signaled := true, result }).setList (.signal sig) rest).setEventReady e
          stateSignaled).setCall e.1 { s.calls e.1 with
            sem := semGive (s.calls e.1).sem, isPolling := false } := by
  cases hlist : s.lists (.signal sig) with
  | nil =>
    left
    refine ⟨rfl, ?_⟩
    unfold signalRaise handleObjEvents
    rw [show (s.setSignal sig { signaled := true, result }).lists (.signal sig) = [] from hlist]
  | cons e rest =>
    right
    obtain ⟨-, hobj, hown⟩ := h.linked _ e (by rw [hlist]; exact mem_cons_self)
    have hkind := Kind.eq_signal hobj
    refine ⟨e, rest, rfl, hkind, ?_⟩
    unfold signalRaise handleObjEvents
    rw [show (s.setSignal sig { signaled := true, result }).lists (.signal sig) = e :: rest
      from hlist]
    dsimp only
    rw [signalPollEvent_of_poller
      (s := (s.setSignal sig { signaled := true, result }).setList (.signal sig) rest) hown, if_pos]
    · rfl
    · right
      show eventMatch (s.events e).kind stateSignaled = true
      rw [hkind]
      rfl

theorem State.Inv.raise (h : s.Inv) (hl : s.lock = none) (sig : ℕ) (result : ℤ) :
    (s.signalRaise sig result).Inv := by
  rcases signalRaise_cases h sig result with ⟨hnil, hs⟩ | ⟨e, rest, hlist, hkind, hs⟩
  · rw [hs]
    refine h.move (fun o e he => ⟨he, (h.linked o e he).1, rfl, rfl⟩)
      (fun e t he => ⟨he, (h.poller e t he).2⟩) h.nodup (fun sig' hsig => ?_) h.call
    by_cases heq : sig' = sig
    · subst heq
      exact hnil
    · refine h.signaled sig' ?_
      simpa [State.setSignal, heq] using hsig
  · rw [hs]
    refine h.hand hl hlist (semGive (s.calls e.1).sem) ?_ (fun e' => ?_) ?_ ?_ fun sig' hsig => ?_
    · rw [setCall_lists, setEventReady_lists]
      rfl
    · rw [setCall_events, setEventReady_events]
      by_cases heq : e' = e
      · subst heq
        simp [State.setList, State.setSignal]
      · simp [update_of_ne heq, State.setList, State.setSignal]
    · rw [setCall_calls, setEventReady_calls]
      rfl
    · rw [setCall_lock, setEventReady_lock]
      rfl
    · rw [setCall_signals, setEventReady_signals, Bool.and_eq_true] at hsig
      have hne : sig' ≠ sig := by
        rintro rfl
        exact of_decide_eq_true hsig.2 hkind
      have hold : (s.signals sig').signaled = true := by
        simpa [State.setSignal, State.setList, hne] using hsig.1
      rw [setCall_lists, setEventReady_lists]
      show update s.lists (.signal sig) rest (.signal sig') = []
      rw [update_of_ne (by simpa using hne)]
      exact h.signaled sig' hold

/-! ## The step -/

theorem State.Inv.setPc_idle (h : s.Inv) (hreg : (s.calls t).eventsRegistered = 0) (c : Call)
    (hc : c.pc = .idle) : (s.setCall t c).Inv := by
  refine h.setCall (fun i hi => ?_) ?_ fun t' _ hl => hl
  · have := hi.2
    omega
  · constructor <;> intro hp
    · exact absurd hc hp
    · rw [hc] at hp; cases hp
    · exact absurd hc hp
    · rw [hc] at hp; cases hp

theorem State.Inv.waits (h : s.Inv) (hl : s.lock = none) (hpc : (s.calls t).pc = .registering)
    (hpolling : (s.calls t).isPolling = true) :
    State.Inv { s.setCall t { s.calls t with isPolling := false, pc := .taking } with
      lock := some t } := by
  have hne : (s.calls t).pc ≠ .idle := by simp [hpc]
  obtain ⟨hloop, hpoll, hnoWait, -⟩ := h.call t
  refine h.setCall (fun i hi => ⟨by simp, hi.2⟩) ⟨fun _ => hloop hne, fun _ hp => ?_,
    fun _ => hnoWait hne, fun _ => ⟨rfl, (hpoll hpc hpolling).1⟩⟩ fun t' _ hl' => ?_
  · cases hp
  · rw [hl] at hl'
    cases hl'

theorem State.Inv.passed (h : s.Inv) (hpc : (s.calls t).pc = .registering)
    (hii : (s.calls t).ii < (s.calls t).numEvents)
    (hstop : ¬ ((s.calls t).timeout ≠ .noWait ∧ (s.calls t).isPolling = true)) :
    (s.setCall t { s.calls t with ii := (s.calls t).ii + 1 }).Inv := by
  obtain ⟨hloop, hpoll, hnoWait, -⟩ := h.call t
  have hne : (s.calls t).pc ≠ .idle := by simp [hpc]
  refine h.setCall (fun i hi => hi) ⟨fun _ => ?_, fun _ hp => ⟨(hpoll hpc hp).1,
    fun hwait => absurd ⟨hwait, hp⟩ hstop⟩, hnoWait, fun hp => ?_⟩ fun t' _ hl => hl
  · have := hloop hne
    simp only
    omega
  · simp [hpc] at hp

theorem inv_leave (h : s.Inv) (hpc : (s.calls t).pc = .taking) (r : Ret) : (s.leave t r).Inv := by
  have hne : (s.calls t).pc ≠ .idle := by simp [hpc]
  obtain ⟨hloop, -, hnoWait, htaking⟩ := h.call t
  refine h.setCall (fun i hi => ⟨by simp, hi.2⟩) ⟨fun _ => hloop hne, fun hp => ?_,
    fun _ => hnoWait hne, fun hp => ?_⟩ fun t' hother hl => ?_
  · cases hp
  · cases hp
  · rw [(htaking hpc).1] at hl
    exact absurd (Option.some.inj hl).symm hother

theorem State.Inv.init (h : s.Inv) (hidle : (s.calls t).pc = .idle) (i : ℕ) (kind : Kind) :
    (s.setEvent (t, i) { s.events (t, i) with kind, state := 0 }).Inv := by
  have hpoller : ∀ e, ((s.setEvent (t, i) { s.events (t, i) with kind, state := 0 }).events
      e).poller = (s.events e).poller := by
    intro e
    by_cases heq : e = (t, i)
    · subst heq
      simp [State.setEvent]
    · simp [State.setEvent, heq]
  refine h.move (fun o e he => ?_) (fun e t' he => ?_) h.nodup h.signaled h.call
  · have hr := (h.linked o e he).1
    have hne : e ≠ (t, i) := by
      rintro rfl
      exact hr.1 hidle
    exact ⟨he, hr, by simp [State.setEvent, hne], hpoller e⟩
  · rw [hpoller] at he
    exact ⟨he, (h.poller e t' he).2⟩

theorem inv_step (s : State) (e : Event) (h : s.Inv) : (s.step e).Inv := by
  have hacted := acted s e
  generalize s.step e = s', s.emit e = l at hacted ⊢
  cases hacted with
  | idle => exact h
  | init i kind hidle => exact h.init hidle i kind
  | poll numEvents timeout hidle =>
    refine h.setCall (fun i hi => absurd hidle hi.1) ⟨fun _ => ⟨le_rfl, Nat.zero_le _⟩,
      fun _ _ => ⟨rfl, fun _ => rfl⟩, fun _ _ => rfl, fun hp => ?_⟩ fun t' _ hl => hl
    cases hp
  | met _ hpc hii => exact h.met hpc hii _
  | registered _ hpc hii hmet hgo => exact h.register hpc hii hmet hgo
  | passed _ hpc hii hstop => exact h.passed hpc hii hstop
  | ready => exact h.cleared _ .zero
  | @noWait t _ _ hpc _ hwait hs' =>
    have hnone := (h.call t).noWait (by simp [hpc]) hwait
    rw [hs']
    show ((s.setCall t _).setCall t _).Inv
    rw [show ∀ c c', (s.setCall t c).setCall t c' = s.setCall t c' from
      fun c c' => by simp [setCall]]
    exact h.setPc_idle hnone _ rfl
  | wait hl hpc _ hpolling => exact h.waits hl hpc hpolling
  | left ret hpc => exact inv_leave h hpc ret
  | cleared => exact h.cleared _ _
  | raised result hl => exact h.raise hl _ result
  | handled hl => exact h.handle hl _ _
  | queue q empty =>
    exact h.move (fun o e he => ⟨he, (h.linked o e he).1, rfl, rfl⟩)
      (fun e t he => ⟨he, (h.poller e t he).2⟩) h.nodup h.signaled h.call

theorem inv_run (es : List Event) : (run State.step start es).Inv :=
  inv_run_of_forall State.Inv inv_step inv_start es

/-! ## What is registered, and what is left -/

/-- The entries the thread has registered since it called `bt_poll` last. -/
def registeredBy (t : ℕ) (log : List Out) : List ℕ :=
  log.foldl (fun l o =>
    match o with
    | .called t' => if t' = t then [] else l
    | .registered t' i => if t' = t then l ++ [i] else l
    | _ => l) []

theorem handleObjEvents_call (s : State) (o : Obj) (state : BitVec 32) (t : ℕ) :
    ((s.handleObjEvents o state).calls t).eventsRegistered = (s.calls t).eventsRegistered ∧
      ((s.handleObjEvents o state).calls t).pc = (s.calls t).pc := by
  have hset : ∀ (s' : State) t' sem b, s'.calls = s.calls →
      ((s'.setCall t' { s.calls t' with sem, isPolling := b }).calls t).eventsRegistered =
          (s.calls t).eventsRegistered ∧
        ((s'.setCall t' { s.calls t' with sem, isPolling := b }).calls t).pc = (s.calls t).pc := by
    intro s' t' sem b hs'
    by_cases heq : t = t'
    · subst heq
      simp
    · simp [update_of_ne heq, hs']
  unfold handleObjEvents
  split
  · exact ⟨rfl, rfl⟩
  · next e rest ho =>
    cases hp : (s.events e).poller with
    | none =>
      rw [signalPollEvent, show ((s.setList o rest).events e).poller = none from hp]
      exact ⟨rfl, rfl⟩
    | some t' =>
      rw [signalPollEvent_of_poller (s := s.setList o rest) hp]
      split
      · exact hset _ t' _ false (setEventReady_calls _ e state)
      · exact hset _ t' (s.calls t').sem false rfl

theorem signalRaise_call (s : State) (sig : ℕ) (result : ℤ) (t : ℕ) :
    ((s.signalRaise sig result).calls t).eventsRegistered = (s.calls t).eventsRegistered ∧
      ((s.signalRaise sig result).calls t).pc = (s.calls t).pc :=
  handleObjEvents_call (s.setSignal sig { signaled := true, result }) (.signal sig) _ t

theorem ret_calls (s : State) (t : ℕ) (r : Ret) :
    (s.ret t r).1.calls = update s.calls t { s.calls t with pc := .idle } := rfl

/-- How many entries the call of a thread has registered. -/
def State.count (s : State) (t : ℕ) : ℕ := (s.calls t).eventsRegistered

theorem count_of_calls {u : ℕ} {c : Call} (hs : s'.calls = update s.calls u c)
    (hc : c.eventsRegistered = s.count u) (t : ℕ) : s'.count t = s.count t := by
  unfold State.count at hc ⊢
  rw [hs]
  by_cases heq : t = u
  · subst heq
    rwa [update_self]
  · rw [update_of_ne heq]

theorem ret_count (hs : ∀ u, s'.count u = s.count u) (u : ℕ) (r : Ret) (t : ℕ) :
    (s'.ret u r).1.count t = s.count t :=
  (count_of_calls (ret_calls s' u r) rfl t).trans (hs t)

theorem count_cases (h : s.Inv) (e : Event) : ((∀ t, (s.step e).count t = s.count t) ∧
      ∀ o ∈ s.emit e, ∀ u, o ≠ .called u ∧ ∀ i, o ≠ .registered u i) ∨
    (∃ u, s.emit e = [.called u] ∧ ∀ t, (s.step e).count t = if t = u then 0 else s.count t) ∨
    ∃ u, s.emit e = [.registered u (s.count u)] ∧
      ∀ t, (s.step e).count t = if t = u then s.count u + 1 else s.count t := by
  have hacted := acted s e
  generalize s.step e = s', s.emit e = l at hacted ⊢
  cases hacted with
  | @poll u =>
    right; left
    refine ⟨u, rfl, fun t => ?_⟩
    by_cases heq : t = u <;> simp [State.count, heq]
  | @registered u _ hpc _ _ hgo =>
    right; right
    have hprefix := ((h.call u).polling hpc hgo.2).2 hgo.1
    refine ⟨u, by rw [State.count, hprefix], fun t => ?_⟩
    unfold State.count
    rw [setCall_calls, registerEvent_calls]
    by_cases heq : t = u <;> simp [heq]
  | idle | init | queue => exact Or.inl ⟨fun t => rfl, by simp⟩
  | @met u =>
    refine Or.inl ⟨count_of_calls (u := u) (c := { s.calls u with
      ii := (s.calls u).ii + 1, isPolling := false }) ?_ rfl, by simp⟩
    rw [setCall_calls, setEventReady_calls]
  | @passed u | @wait u | @left _ u => exact Or.inl ⟨count_of_calls (u := u) rfl rfl, by simp⟩
  | @ready u | @cleared u =>
    refine Or.inl ⟨ret_count (fun t => ?_) u _, by simp [State.clear, State.ret]⟩
    rw [State.count, clearEventRegistrations_calls, State.count]
  | @noWait u _ _ _ _ _ hs' =>
    rw [hs']
    have hset := count_of_calls (setCall_calls s u { s.calls u with isPolling := false }) rfl
    exact Or.inl ⟨ret_count hset u .zero, by simp [State.ret]⟩
  | @raised sig result => exact Or.inl ⟨fun t => (signalRaise_call s sig result t).1, by simp⟩
  | handled => exact Or.inl ⟨fun t => (handleObjEvents_call _ _ _ t).1, by simp⟩

theorem registeredBy_append (t : ℕ) (log l : List Out)
    (hl : ∀ o ∈ l, ∀ u, o ≠ .called u ∧ ∀ i, o ≠ .registered u i) :
    registeredBy t (log ++ l) = registeredBy t log := by
  rw [registeredBy, foldl_append, ← registeredBy]
  induction l with
  | nil => rfl
  | cons o l ih =>
    have ho := hl o mem_cons_self
    have hrest := ih fun o' ho' => hl o' (mem_cons_of_mem _ ho')
    cases o with
    | called u => exact absurd rfl (ho u).1
    | registered u i => exact absurd rfl ((ho u).2 i)
    | returned u r evs => exact hrest
    | raised sig => exact hrest

/-- **The registered entries are the ones below the count.** -/
theorem registeredBy_step (h : s.Inv) (e : Event) (t : ℕ) (log : List Out)
    (hlog : registeredBy t log = List.range (s.count t)) :
    registeredBy t (log ++ s.emit e) = List.range ((s.step e).count t) := by
  rcases count_cases h e with ⟨hcount, hquiet⟩ | ⟨u, hemit, hcount⟩ | ⟨u, hemit, hcount⟩
  · rw [registeredBy_append t log _ hquiet, hcount, hlog]
  · rw [hemit, hcount, registeredBy, foldl_append, ← registeredBy, hlog]
    by_cases heq : t = u
    · simp [heq]
    · have hne : u ≠ t := fun h => heq h.symm
      simp [heq, hne]
  · rw [hemit, hcount, registeredBy, foldl_append, ← registeredBy, hlog]
    by_cases heq : t = u
    · simp [heq, range_succ]
    · have hne : u ≠ t := fun h => heq h.symm
      simp [heq, hne]

theorem idle_of_returned {e : Event} {r : Ret} {evs : List PollEvent}
    (h : .returned t r evs ∈ s.emit e) : ((s.step e).calls t).pc = .idle := by
  have hret : ∀ (s' : State) (u : ℕ) (r' : Ret), .returned t r evs ∈ (s'.ret u r').2 →
      ((s'.ret u r').1.calls t).pc = .idle := by
    intro s' u r' hmem
    cases mem_singleton.mp hmem
    rw [ret_calls, update_self]
  have hacted := acted s e
  generalize s.step e = s', s.emit e = l at hacted h ⊢
  cases hacted with
  | ready | noWait | cleared => exact hret _ _ _ h
  | poll | registered | raised => cases mem_singleton.mp h
  | _ => cases h

/-- **A call leaves no registration behind**: `register_events` registers
the entries below `events_registered`, each once and in order, and when
`bt_poll` returns no entry of its array is linked anywhere, and none
points to its poller. -/
theorem returned_clean (es : List Event) (t : ℕ) :
    registeredBy t (emitted State.step State.emit start es) =
      List.range ((run State.step start es).calls t).eventsRegistered ∧
    ∀ e r evs, .returned t r evs ∈ (run State.step start es).emit e → ∀ i,
      (∀ o, (t, i) ∉ ((run State.step start es).step e).lists o) ∧
        (((run State.step start es).step e).events (t, i)).poller ≠ some t := by
  constructor
  · have hlog : (run State.step start es).Inv ∧
        registeredBy t ([] ++ emitted State.step State.emit start es) =
          List.range ((run State.step start es).count t) := log_run State.emit
      (fun s log => s.Inv ∧ registeredBy t log = List.range (s.count t))
      (fun s e log h _ => ⟨inv_step s e h.1, registeredBy_step h.1 e t log h.2⟩)
      ⟨inv_start, rfl⟩ (along_of_forall (fun _ _ => (trivial : True)) start es)
    rw [List.nil_append] at hlog
    exact hlog.2
  · intro e r evs hret i
    have hidle := idle_of_returned hret
    have hinv := inv_step _ e (inv_run es)
    refine ⟨fun o hmem => ?_, fun hown => ?_⟩
    · exact (hinv.linked o _ hmem).1.1 hidle
    · exact (hinv.poller _ t hown).2.1 hidle

/-- A raise in the middle of the loop: the second entry is not registered,
and the call returns with nothing left. -/
theorem returned_clean_of_raise :
    let s := run State.step start [.init 0 0 (.signal 0), .init 0 1 (.signal 1),
      .poll 0 2 .forever, .register 0, .raise 0 5, .register 0]
    .returned 0 .zero [{ kind := .signal 0, state := 1 }, { kind := .signal 1 }] ∈
        s.emit (.check 0) ∧
      ∀ i, (∀ o, (0, i) ∉ (s.step (.check 0)).lists o) ∧
        ((s.step (.check 0)).events (0, i)).poller ≠ some 0 := by
  have hret : Out.returned 0 .zero [{ kind := .signal 0, state := 1 }, { kind := .signal 1 }] ∈
      (run State.step start [.init 0 0 (.signal 0), .init 0 1 (.signal 1), .poll 0 2 .forever,
        .register 0, .raise 0 5, .register 0]).emit (.check 0) := by decide
  exact ⟨hret, (returned_clean _ 0).2 (.check 0) .zero _ hret⟩

end Poll

end Base

end OpenBlue

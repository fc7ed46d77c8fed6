import OpenBlue.Base.Poll
/-!
# Base — polling: where a raise goes

A raise stays at its signal until a call finds it, or goes to the entry
that waits there longest. Either way it reaches a call that polls, and
that call returns 0. The one way out is an entry of a call whose wait has
timed out: it stays registered until the call has the mutex again, and the
raise it takes meanwhile is returned with an error (`raise_kept_iff`).
-/

namespace OpenBlue

namespace Base

namespace Poll

open Function List Poll.State

variable {s s' : State} {t sig : ℕ} {e : Event}

/-- An event of the signal, with `BT_POLL_STATE_SIGNALED` in its state. -/
def PollEvent.Shows (sig : ℕ) (v : PollEvent) : Prop :=
  v.kind = .signal sig ∧ v.state &&& stateSignaled.setWidth 7 ≠ 0

/-- A call returns 0, and an event of the signal in its array is signaled. -/
def Out.Reports (sig : ℕ) : Out → Prop
  | .returned _ .zero events => ∃ v ∈ events, v.Shows sig
  | _ => False

/-- The signal has been raised, and no call has reported it since. -/
def Owed (sig : ℕ) (log : List Out) : Prop :=
  ∃ before after, log = before ++ .raised sig :: after ∧ ∀ o ∈ after, ¬ o.Reports sig

/-- A call polls no more, is to return 0 (`check_pending`), and has the
signal in its array. -/
def State.Pending (s : State) (sig : ℕ) : Prop :=
  ∃ t i, (s.calls t).pc = .registering ∧ (s.calls t).isPolling = false ∧
    i < (s.calls t).numEvents ∧ (s.events (t, i)).Shows sig

/-- A raise of the signal is at hand. -/
def State.Held (s : State) (sig : ℕ) : Prop :=
  (s.signals sig).signaled = true ∨ s.Pending sig

/-- The step raises a signal at which an entry of a call that has timed out
waits first, while no other call is to report the signal. -/
def State.LosesRaise (s : State) : Event → Prop
  | .raise sig _ => s.lock = none ∧ ¬ s.Pending sig ∧ ∃ e rest ret,
      s.lists (.signal sig) = e :: rest ∧ (s.calls e.1).pc = .clearing ret
  | _ => False

/-! ## The log -/

theorem owed_append {log l : List Out} :
    Owed sig (log ++ l) ↔ Owed sig l ∨ Owed sig log ∧ ∀ o ∈ l, ¬ o.Reports sig := by
  constructor
  · rintro ⟨before, after, heq, hafter⟩
    rcases append_eq_append_iff.mp heq with ⟨m, hb, hl⟩ | ⟨m, hlog, hm⟩
    · exact Or.inl ⟨m, after, hl, hafter⟩
    · cases m with
      | nil =>
        exact Or.inl ⟨[], after, by simpa using hm.symm, hafter⟩
      | cons o m =>
        rw [cons_append, List.cons.injEq] at hm
        obtain ⟨rfl, rfl⟩ := hm
        exact Or.inr ⟨⟨before, m, hlog, fun o ho => hafter o (mem_append_left _ ho)⟩,
          fun o ho => hafter o (mem_append_right _ ho)⟩
  · rintro (⟨before, after, rfl, hafter⟩ | ⟨⟨before, after, rfl, hafter⟩, hl⟩)
    · exact ⟨log ++ before, after, by simp, hafter⟩
    · refine ⟨before, after ++ l, by simp, fun o ho => ?_⟩
      rcases mem_append.mp ho with h | h
      · exact hafter o h
      · exact hl o h

theorem raised_mem_emit (h : .raised sig ∈ s.emit e) :
    ∃ result, e = .raise sig result ∧ s.lock = none := by
  have hacted := acted s e
  generalize s.step e = s', s.emit e = l at hacted h
  cases hacted with
  | raised result hl =>
    cases mem_singleton.mp h
    exact ⟨result, rfl, hl⟩
  | poll | registered | ready | noWait | cleared => cases mem_singleton.mp h
  | _ => cases h

/-! ## What keeps a raise at hand -/

theorem shows_of_or {v : PollEvent} (h : v.Shows sig) (state : BitVec 7) (poller : Option ℕ) :
    ({ v with poller, state := v.state ||| state } : PollEvent).Shows sig := by
  refine ⟨h.1, fun hzero => h.2 ?_⟩
  simp only at hzero
  ext i hi
  have := congrArg (fun x : BitVec 7 => x[i]) hzero
  simp at this ⊢
  tauto

/-- Calls that are to return 0 stay so, with what their arrays show. -/
structure State.Keeps (s s' : State) : Prop where
  calls : ∀ t, (s.calls t).pc = .registering → (s.calls t).isPolling = false →
    (s'.calls t).pc = .registering ∧ (s'.calls t).isPolling = false ∧
      (s'.calls t).numEvents = (s.calls t).numEvents
  events : ∀ t i sig, (s.calls t).pc = .registering → (s.events (t, i)).Shows sig →
    (s'.events (t, i)).Shows sig

theorem State.Keeps.pending (h : s.Keeps s') (hp : s.Pending sig) : s'.Pending sig := by
  obtain ⟨t, i, hpc, hpolling, hi, hshows⟩ := hp
  obtain ⟨hpc', hpolling', hnum⟩ := h.calls t hpc hpolling
  exact ⟨t, i, hpc', hpolling', hnum ▸ hi, h.events t i sig hpc hshows⟩

theorem State.Keeps.of_call {u : ℕ} {c : Call} (hcalls : s'.calls = update s.calls u c)
    (hc : (s.calls u).pc = .registering → (s.calls u).isPolling = false →
      c.pc = .registering ∧ c.isPolling = false ∧ c.numEvents = (s.calls u).numEvents)
    (hevents : ∀ t i sig, (s.calls t).pc = .registering → (s.events (t, i)).Shows sig →
      (s'.events (t, i)).Shows sig) : s.Keeps s' := by
  refine ⟨fun t hpc hpolling => ?_, hevents⟩
  rw [hcalls]
  by_cases heq : t = u
  · subst heq
    rw [update_self]
    exact hc hpc hpolling
  · rw [update_of_ne heq]
    exact ⟨hpc, hpolling, rfl⟩

theorem shows_setEventReady (s : State) (e e' : ℕ × ℕ) (state : BitVec 32)
    (h : (s.events e').Shows sig) : ((s.setEventReady e state).events e').Shows sig := by
  rw [setEventReady_events]
  by_cases heq : e' = e
  · subst heq
    rw [update_self]
    exact shows_of_or h _ none
  · rwa [update_of_ne heq]

theorem keeps_handle (s : State) (o : Obj) (state : BitVec 32) :
    s.Keeps (s.handleObjEvents o state) := by
  unfold handleObjEvents
  split
  · exact ⟨fun t hpc hpolling => ⟨hpc, hpolling, rfl⟩, fun t i sig _ h => h⟩
  · next e rest ho =>
    cases hp : (s.events e).poller with
    | none =>
      rw [signalPollEvent, show ((s.setList o rest).events e).poller = none from hp]
      exact ⟨fun t hpc hpolling => ⟨hpc, hpolling, rfl⟩, fun t i sig _ h => h⟩
    | some u =>
      rw [signalPollEvent_of_poller (s := s.setList o rest) hp]
      split
      · refine State.Keeps.of_call (u := u) (c := { s.calls u with
          sem := semGive (s.calls u).sem, isPolling := false }) ?_
          (fun hpc _ => ⟨hpc, rfl, rfl⟩) fun t i sig _ h => ?_
        · rw [setCall_calls, setEventReady_calls]
          rfl
        · rw [setCall_events]
          exact shows_setEventReady _ _ _ _ h
      · exact State.Keeps.of_call (u := u) (c := { s.calls u with isPolling := false }) rfl
          (fun hpc _ => ⟨hpc, rfl, rfl⟩) fun t i sig _ h => h

theorem shows_clearEventRegistrations (s : State) (t n : ℕ) (e : ℕ × ℕ)
    (h : (s.events e).Shows sig) : ((s.clearEventRegistrations t n).events e).Shows sig := by
  rw [clearEventRegistrations_events]
  split <;> exact h

/-- **A step keeps the calls that are to return 0**, but for the one that
returns. -/
theorem keeps_step (s : State) (e : Event) :
    s.Keeps (s.step e) ∨ ∃ t, e = .check t ∧ s.lock = none ∧ (s.calls t).pc = .registering ∧
      (s.calls t).numEvents ≤ (s.calls t).ii ∧ (s.calls t).isPolling = false := by
  have hacted := acted s e
  generalize s.step e = s', s.emit e = l at hacted ⊢
  cases hacted with
  | idle | queue => exact .inl ⟨fun t hpc hpolling => ⟨hpc, hpolling, rfl⟩, fun t i sig _ h => h⟩
  | ready hl hpc hii hpolling => exact .inr ⟨_, rfl, hl, hpc, hii, hpolling⟩
  | @init u i kind hidle =>
    refine .inl ⟨fun t hpc hpolling => ⟨hpc, hpolling, rfl⟩, fun t j sig hpc h => ?_⟩
    have hne : (t, j) ≠ (u, i) := by
      intro heq
      cases heq
      simp [hidle] at hpc
    show (update s.events (u, i) _ (t, j)).Shows sig
    rwa [update_of_ne hne]
  | poll _ _ hidle =>
    refine .inl (State.Keeps.of_call rfl (fun hpc => ?_) fun t i sig _ h => h)
    simp [hidle] at hpc
  | @met u =>
    refine .inl (State.Keeps.of_call (u := u) (c := { s.calls u with
      ii := (s.calls u).ii + 1, isPolling := false }) ?_ (fun hpc _ => ⟨hpc, rfl, rfl⟩)
      fun t i sig _ h => ?_)
    · rw [setCall_calls, setEventReady_calls]
    · rw [setCall_events]
      exact shows_setEventReady _ _ _ _ h
  | @registered u =>
    refine .inl (State.Keeps.of_call (u := u) (c := { s.calls u with
      ii := (s.calls u).ii + 1, eventsRegistered := (s.calls u).eventsRegistered + 1 }) ?_
      (fun hpc hpolling => ⟨hpc, hpolling, rfl⟩) fun t i sig _ h => ?_)
    · rw [setCall_calls, registerEvent_calls]
    · rw [setCall_events, registerEvent_events]
      by_cases heq : (t, i) = (u, (s.calls u).ii)
      · rw [heq] at h ⊢
        rw [update_self]
        exact h
      · rwa [update_of_ne heq]
  | @passed u =>
    exact .inl (State.Keeps.of_call (u := u) (c := { s.calls u with ii := (s.calls u).ii + 1 }) rfl
      (fun hpc hpolling => ⟨hpc, hpolling, rfl⟩) fun t i sig _ h => h)
  | @noWait u _ _ _ hpolling _ hs' =>
    refine .inl (State.Keeps.of_call (u := u) (c := { s.calls u with
      isPolling := false, pc := .idle }) ?_ (fun _ h => ?_) fun t i sig _ h => ?_)
    · rw [hs', ret_calls, setCall_calls, update_idem, update_self]
    · rw [hpolling] at h
      cases h
    · rw [hs']
      exact h
  | @wait u _ _ _ hpolling =>
    refine .inl (State.Keeps.of_call (u := u) (c := { s.calls u with
      isPolling := false, pc := .taking }) rfl (fun _ h => ?_) fun t i sig _ h => h)
    rw [hpolling] at h
    cases h
  | left _ htaking =>
    refine .inl (State.Keeps.of_call rfl (fun hpc => ?_) fun t i sig _ h => h)
    simp [htaking] at hpc
  | @cleared u _ _ hclearing =>
    refine .inl (State.Keeps.of_call (u := u) (c := { s.calls u with pc := .idle }) ?_
      (fun hpc => ?_) fun t i sig _ h => ?_)
    · rw [clear, ret_calls, clearEventRegistrations_calls]
    · simp [hclearing] at hpc
    · exact shows_clearEventRegistrations s u _ _ h
  | @raised sig result =>
    have hkeep := keeps_handle (s.setSignal sig { signaled := true, result }) (.signal sig)
      stateSignaled
    exact .inl ⟨hkeep.calls, hkeep.events⟩
  | handled => exact .inl (keeps_handle ..)

theorem shows_ready {e : ℕ × ℕ} (hkind : (s.events e).kind = .signal sig) :
    ((s.setEventReady e stateSignaled).events e).Shows sig := by
  rw [setEventReady_events, update_self]
  refine ⟨hkind, fun hzero => ?_⟩
  have hbit := congrArg (fun x : BitVec 7 => x[0]) hzero
  simp [stateSignaled] at hbit

/-- A signal that is set stays so, or has just been found. -/
theorem signaled_step (h : s.Inv) (e : Event) (hs : (s.signals sig).signaled = true) :
    ((s.step e).signals sig).signaled = true ∨ (s.step e).Pending sig := by
  have hempty := h.signaled sig hs
  -- No entry waits at the signal, so none that is handed over is of it.
  have hother : ∀ o e' rest, s.lists o = e' :: rest → (s.events e').kind ≠ .signal sig := by
    intro o e' rest ho hkind
    have hobj := (h.linked o e' (by rw [ho]; exact mem_cons_self)).2.1
    rw [hkind] at hobj
    cases hobj
    rw [hempty] at ho
    cases ho
  have hacted := acted s e
  generalize s.step e = s', s.emit e = l at hacted ⊢
  cases hacted with
  | idle | init | poll | passed | wait | left | queue => exact .inl hs
  | noWait _ _ _ _ hs' =>
    rw [hs']
    exact .inl hs
  | @met u state _ hpc hii hmet =>
    by_cases hkind : (s.events (u, (s.calls u).ii)).kind = .signal sig
    · simp only [isConditionMet, hkind, hs, if_true] at hmet
      cases hmet
      refine .inr ⟨u, (s.calls u).ii, ?_, ?_, ?_, ?_⟩
      · simpa using hpc
      · simp
      · simpa using hii
      · rw [setCall_events]
        exact shows_ready hkind
    · left
      rw [setCall_signals, setEventReady_signals, hs]
      simpa using hkind
  | registered =>
    left
    rw [setCall_signals, registerEvent_signals]
    exact hs
  | @ready u | @cleared u =>
    left
    show ((s.clearEventRegistrations u _).signals sig).signaled = true
    rwa [clearEventRegistrations_signals]
  | @raised sig' result =>
    left
    rcases signalRaise_cases h sig' result with ⟨-, hraise⟩ | ⟨e', rest, ho, hkind, hraise⟩
    · rw [hraise]
      by_cases heq : sig = sig'
      · subst heq
        simp [setSignal]
      · simpa [setSignal, heq] using hs
    · have hne : sig ≠ sig' := fun heq => hother _ e' rest ho (heq ▸ hkind)
      rw [hraise, setCall_signals, setEventReady_signals, Bool.and_eq_true]
      refine ⟨?_, decide_eq_true (hother _ e' rest ho)⟩
      simpa [setSignal, setList, hne] using hs
  | @handled o state =>
    left
    unfold handleObjEvents
    split
    · exact hs
    · next e' rest ho =>
      cases hp : (s.events e').poller with
      | none =>
        rw [signalPollEvent, show ((s.setList o rest).events e').poller = none from hp]
        exact hs
      | some t =>
        rw [signalPollEvent_of_poller (s := s.setList o rest) hp]
        split
        · rw [setCall_signals, setEventReady_signals, Bool.and_eq_true]
          exact ⟨hs, decide_eq_true (hother o e' rest ho)⟩
        · exact hs

/-- **A call that is to return 0 reports what its array shows.** -/
theorem check_pending {i : ℕ} (hl : s.lock = none) (hpc : (s.calls t).pc = .registering)
    (hii : (s.calls t).numEvents ≤ (s.calls t).ii) (hpolling : (s.calls t).isPolling = false)
    (hi : i < (s.calls t).numEvents) (hshows : (s.events (t, i)).Shows sig) :
    ∃ o ∈ s.emit (.check t), o.Reports sig := by
  refine ⟨_, ?_, (?_ : Out.Reports sig (.returned t .zero
    ((s.clearEventRegistrations t (s.calls t).eventsRegistered).array t)))⟩
  · unfold emit State.act check
    simp [hl, hpc, hii, hpolling, State.ret]
  · refine ⟨(s.clearEventRegistrations t (s.calls t).eventsRegistered).events (t, i), ?_,
      shows_clearEventRegistrations s t _ _ hshows⟩
    refine mem_map.mpr ⟨i, List.mem_range.mpr ?_, rfl⟩
    rwa [clearEventRegistrations_calls]

/-- **A raise at hand stays so until it is reported.** -/
theorem held_step (h : s.Inv) (e : Event) (hheld : s.Held sig) :
    (∃ o ∈ s.emit e, o.Reports sig) ∨ (s.step e).Held sig := by
  rcases hheld with hs | hpending
  · exact Or.inr (signaled_step h e hs)
  · rcases keeps_step s e with hkeep | ⟨u, rfl, hl, hpc, hii, hpolling⟩
    · exact Or.inr (Or.inr (hkeep.pending hpending))
    · obtain ⟨t, i, hpc', hpolling', hi, hshows⟩ := hpending
      by_cases heq : t = u
      · subst heq
        exact Or.inl (check_pending hl hpc hii hpolling hi hshows)
      · -- The call of another thread returns.
        refine Or.inr (Or.inr ⟨t, i, ?_⟩)
        unfold State.step State.act check State.ret
        simp only [hl, hpc, hii, hpolling, Bool.not_false, and_self, if_true, setCall_calls,
          setCall_events, clearEventRegistrations_calls, update_of_ne heq]
        exact ⟨hpc', hpolling', hi, shows_clearEventRegistrations s u _ _ hshows⟩

/-- **A raise is at hand, unless it is lost.** -/
theorem held_raise_iff (h : s.Inv) (hl : s.lock = none) (result : ℤ) :
    (s.signalRaise sig result).Held sig ↔ ¬ s.LosesRaise (.raise sig result) := by
  have hkeep : s.Keeps (s.signalRaise sig result) := by
    have := keeps_handle (s.setSignal sig { signaled := true, result }) (.signal sig)
      stateSignaled
    exact ⟨this.calls, this.events⟩
  rcases signalRaise_cases h sig result with ⟨hnil, hraise⟩ | ⟨e, rest, ho, hkind, hraise⟩
  · refine iff_of_true (Or.inl ?_) ?_
    · rw [hraise]
      simp [setSignal]
    · rintro ⟨-, -, e, rest, ret, ho, -⟩
      rw [hnil] at ho
      cases ho
  · have hreg := (h.linked _ e (by rw [ho]; exact mem_cons_self)).1
    constructor
    · rintro hheld ⟨-, hnot, e', rest', ret, ho', hclearing⟩
      rw [ho] at ho'
      cases ho'
      rcases hheld with hs | ⟨t, i, hpc, hpolling, hi, hshows⟩
      · rw [hraise, setCall_signals, setEventReady_signals, Bool.and_eq_true] at hs
        exact of_decide_eq_true hs.2 hkind
      · -- A call that is to report the signal was to do so before.
        have hne : t ≠ e.1 := by
          rintro rfl
          rw [hraise, setCall_calls, update_self] at hpc
          simp [hclearing] at hpc
        rw [hraise, setCall_calls, update_of_ne hne, setEventReady_calls] at hpc hpolling hi
        rw [hraise, setCall_events, setEventReady_events,
          update_of_ne fun heq => hne (congrArg Prod.fst heq)] at hshows
        exact hnot ⟨t, i, hpc, hpolling, hi, hshows⟩
    · intro hkept
      right
      by_cases hpending : s.Pending sig
      · exact hkeep.pending hpending
      · cases hpc : (s.calls e.1).pc with
        | idle => exact absurd hpc hreg.1
        | taking => exact absurd hpc (h.not_taking hl)
        | clearing ret => exact absurd ⟨hl, hpending, e, rest, ret, ho, hpc⟩ hkept
        | registering =>
          have hloop := (h.call e.1).loop hreg.1
          have hlt := hreg.2
          refine ⟨e.1, e.2, ?_, ?_, ?_, ?_⟩
          · rw [hraise, setCall_calls, update_self]
            exact hpc
          · rw [hraise, setCall_calls, update_self]
          · rw [hraise, setCall_calls, update_self]
            show e.2 < (s.calls e.1).numEvents
            omega
          · rw [hraise, setCall_events]
            exact shows_ready hkind

/-- What has been raised, and not been reported since, is at hand. -/
def Kept (s : State) (log : List Out) : Prop := ∀ sig, Owed sig log → s.Held sig

theorem emit_raise (hl : s.lock = none) (result : ℤ) : s.emit (.raise sig result) = [.raised sig] ∧
      s.step (.raise sig result) = s.signalRaise sig result := by
  unfold emit State.step State.act
  simp [hl]

theorem kept_step (s : State) (e : Event) (log : List Out) (h : s.Inv) (hk : Kept s log) :
    Kept (s.step e) (log ++ s.emit e) ↔ ¬ s.LosesRaise e := by
  constructor
  · intro hnext hlost
    cases e with
    | raise sig result =>
      obtain ⟨hemit, hstep⟩ := emit_raise hlost.1 result
      have howed : Owed sig (log ++ s.emit (.raise sig result)) := by
        rw [hemit]
        exact ⟨log, [], rfl, by simp⟩
      have hheld := hnext sig howed
      rw [hstep] at hheld
      exact (held_raise_iff h hlost.1 result).mp hheld hlost
    | _ => exact hlost
  · intro hkept sig howed
    rcases owed_append.mp howed with ⟨before, after, hemit, -⟩ | ⟨hold, hquiet⟩
    · have hmem : .raised sig ∈ s.emit e := by
        rw [hemit]
        simp
      obtain ⟨result, rfl, hl⟩ := raised_mem_emit hmem
      rw [(emit_raise hl result).2]
      exact (held_raise_iff h hl result).mpr hkept
    · rcases held_step h e (hk sig hold) with ⟨o, ho, hreport⟩ | hheld
      · exact absurd hreport (hquiet o ho)
      · exact hheld

/-- **A raise is kept exactly in the runs where no raise meets a call that
has timed out**: after each raise of a signal a call returns 0 and reports
it, or the signal is still set, or a call that is to return 0 has it. -/
theorem raise_kept_iff (es : List Event) :
    (∀ es', es' <+: es → ∀ sig, Owed sig (emitted State.step State.emit start es') →
      (run State.step start es').Held sig) ↔
      Along State.step (fun s e => ¬ s.LosesRaise e) start es := by
  have hstart : Kept start [] := by
    rintro sig ⟨before, after, heq, -⟩
    simp at heq
  exact log_prefix_iff_along State.emit State.Inv Kept inv_step kept_step inv_start hstart es

/-- **A raise is lost**: the wait of a call times out, the signal is raised
before the call has the mutex again, and the call returns an error. -/
theorem raise_lost :
    let es : List Event := [.init 0 0 (.signal 0), .poll 0 1 .ms, .register 0, .check 0,
      .expired 0, .raise 0 5, .clear 0]
    emitted State.step State.emit start es = [.called 0, .registered 0 0, .raised 0,
      .returned 0 .timedout [{ kind := .signal 0, state := 1 }]] ∧
      ((run State.step start es).signals 0).signaled = false ∧
      ((run State.step start es).calls 0).pc = .idle := by
  decide

end Poll

end Base

end OpenBlue

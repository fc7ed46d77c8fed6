import OpenBlue.Base.Changes
/-!
# Base — timers and their callbacks

The timer of a delayable item fires on a thread of its own: the callback
is dispatched when the timer expires, and gets the lock some time later.
Stopping or arming the timer in between does not recall it, and only the
DELAYED flag keeps it from submitting the item. Cancelling clears the
flag. Arming sets it again, so a callback of an earlier arming would take
the flag for its own.
-/

namespace OpenBlue

namespace Base

open Function State

variable {s s' : State} {w : WorkId} {n : ℕ} {k : Kind}

/-! ## What sets DELAYED -/

/-- No item becomes delayed. -/
structure Undelays (s s' : State) : Prop where
  delayed : ∀ n, (s'.works (.item n)).delayed = true → (s.works (.item n)).delayed = true

theorem Undelays.rfl : Undelays s s := ⟨fun _ => id⟩

theorem Undelays.trans {s'' : State} (h : Undelays s s') (h' : Undelays s' s'') : Undelays s s'' :=
  ⟨fun n hn => h.delayed n (h'.delayed n hn)⟩

theorem undelays_of_eq (h : s'.works = s.works) : Undelays s s' :=
  ⟨fun n hn => by rwa [h] at hn⟩

theorem undelays_setQueue {q : ℕ} {Q : Queue} : Undelays s (s.setQueue q Q) := ⟨fun _ => id⟩

theorem undelays_setWork {v : Work} (h : v.delayed = true → (s.works w).delayed = true) :
    Undelays s (s.setWork w v) := by
  refine ⟨fun n hn => ?_⟩
  rw [works_setWork] at hn
  split at hn
  next hw => exact hw ▸ h hn
  next => exact hn

theorem undelays_finish (s : State) (q : ℕ) : Undelays s (s.finish q) := by
  cases hpc : (s.queues q).pc with
  | off | boot | loop | waiting =>
    rw [State.finish, hpc]
    exact .rfl
  | handler w =>
    obtain ⟨t, hworks, -, heq⟩ := finish_eq hpc
    rw [heq]
    refine (undelays_setWork (v := (s.works w).finished) id).trans ?_
    exact undelays_of_eq hworks

/-- The item whose timer a call arms. -/
def State.arms (s : State) : Event → Option ℕ
  | .schedule _ _ n noWait =>
    if noWait = false ∧ ({ s.works (.item n) with running := false }).busyGet = 0 then some n
    else none
  | .reschedule _ _ n noWait _ => if noWait = false then some n else none
  | _ => none

theorem Change.undelays (h : Change s k s') (hk : decide (k ≠ .arm) = true) : Undelays s s' := by
  cases h with
  | work _ _ hdelayed => exact undelays_setWork hdelayed
  | init => exact undelays_setWork nofun
  | less | go | drained | thread => exact undelays_setQueue
  | notified | drain => exact undelays_setQueue.trans undelays_setQueue
  | finish => exact undelays_finish ..
  | flusher | canceller | sem => exact ⟨fun _ => id⟩
  | arm => cases hk

theorem Made.undelays {K : List Kind} (h : Made K s s')
    (hK : K.all (fun k => decide (k ≠ .arm)) = true) : Undelays s s' :=
  h.rule hK .rfl .trans Change.undelays

/-- **Only arming sets DELAYED.** -/
theorem undelays_step (s : State) {e : Event} (he : s.arms e = none) : Undelays s (s.step e) := by
  cases e with
  | schedule self q n noWait =>
    cases noWait with
    | true => exact (step_made s _).undelays rfl
    | false =>
      rw [step, State.schedule]
      split
      next hidle =>
        rw [arms, if_pos ⟨rfl, hidle⟩] at he
        cases he
      · exact .rfl
  | reschedule self q n noWait stopped =>
    cases noWait with
    | true => exact (step_made s _).undelays rfl
    | false => cases he
  | _ => exact (step_made s _).undelays rfl

/-! ## Callbacks -/

/-- The items and queues, with the timer of each item: how often it has
been armed, whether it runs, whether the item has been cancelled since, and
the callbacks that were dispatched and have not got the lock yet, each with
the arming that it is of. -/
structure Timers where
  state : State := {}
  arming : ℕ → ℕ := fun _ => 0
  armed : ℕ → Bool := fun _ => false
  cancelled : ℕ → Bool := fun _ => false
  dispatched : List (ℕ × ℕ) := []

inductive TimerEvent
  /-- A function of the module other than `work_timeout`. -/
  | call (e : Event)
  /-- The timer of an item expires, and the callback is dispatched. -/
  | expire (n : ℕ)
  /-- The callback of an arming gets the lock. -/
  | callback (self n k : ℕ)
  deriving DecidableEq, Repr

/-- The item whose timer a call stops, where `unschedule_locked` finds
DELAYED set. -/
def State.stops (s : State) : Event → Option ℕ
  | .reschedule _ _ n _ _ | .cancelDelayable n _ | .cancelDelayableSync n _ _ |
    .flushDelayable _ n _ _ => if (s.works (.item n)).delayed then some n else none
  | _ => none

/-- The item that a call cancels. -/
def Event.cancels : Event → Option ℕ
  | .cancelDelayable n _ | .cancelDelayableSync n _ _ => some n
  | _ => none

/-- `os_timer_stop`. -/
def Timers.stopTimer (t : Timers) : Option ℕ → Timers
  | some n => { t with armed := update t.armed n false }
  | none => t

/-- The item is cancelled. -/
def Timers.cancel (t : Timers) : Option ℕ → Timers
  | some n => { t with cancelled := update t.cancelled n true }
  | none => t

/-- `os_timer_start`. -/
def Timers.startTimer (t : Timers) : Option ℕ → Timers
  | some n =>
    { t with
      armed := update t.armed n true
      arming := update t.arming n (t.arming n + 1)
      cancelled := update t.cancelled n false }
  | none => t

/-- One step. -/
def Timers.step (t : Timers) : TimerEvent → Timers
  | .call e =>
    { ((t.stopTimer (t.state.stops e)).cancel e.cancels).startTimer (t.state.arms e) with
      state := t.state.step e }
  | .expire n =>
    if t.armed n then
      { t with armed := update t.armed n false
               dispatched := t.dispatched ++ [(n, t.arming n)] }
    else t
  | .callback self n k =>
    if (n, k) ∈ t.dispatched then
      { t with state := t.state.step (.workTimeout self n), dispatched := t.dispatched.erase (n, k) }
    else t

/-- What the callers promise: an item is initialised only while it is idle,
with its timer stopped and no callback of it on the way. -/
def Timers.Proper (t : Timers) : TimerEvent → Prop
  | .call (.workTimeout ..) => False
  | .call (.init n) | .call (.initDelayable n) => (t.state.works (.item n)).busyGet = 0 ∧
      t.armed n = false ∧ ∀ p ∈ t.dispatched, p.1 ≠ n
  | .call e => t.state.Proper e
  | _ => True

/-- **No timer is armed while a callback of it is on the way.** -/
def Timers.Settled (t : Timers) : TimerEvent → Prop
  | .call e => ∀ n ∈ t.state.arms e, ∀ p ∈ t.dispatched, p.1 ≠ n
  | _ => True

/-- A callback that submits the item is that of its last arming, and the
item has not been cancelled since. -/
def Timers.Current (t : Timers) : TimerEvent → Prop
  | .callback _ n k => (n, k) ∈ t.dispatched → (t.state.works (.item n)).delayed = true →
      k = t.arming n ∧ t.cancelled n = false
  | _ => True

/-- DELAYED is that of the last arming. -/
def Timers.Fresh (t : Timers) : Prop :=
  ∀ n, (t.state.works (.item n)).delayed = true →
    t.cancelled n = false ∧ ∀ p ∈ t.dispatched, p.1 = n → p.2 = t.arming n

variable {t : Timers}

theorem Timers.Fresh.current (h : t.Fresh) (e : TimerEvent) : t.Current e := by
  cases e with
  | callback self n k =>
    intro hmem hdelayed
    obtain ⟨hcancelled, hall⟩ := h n hdelayed
    exact ⟨hall (n, k) hmem rfl, hcancelled⟩
  | _ => trivial

theorem cancels_delayed (s : State) {e : Event} (he : e.cancels = some n) :
    ((s.step e).works (.item n)).delayed = false := by
  have hun : ∀ stopped, ((s.unschedule (.item n) stopped).2.works (.item n)).delayed = false :=
    unschedule_delayed s (.item n)
  have hcancel : ∀ stopped, ((s.cancelDelayable (.item n) stopped).2.works (.item n)).delayed =
      false := by
    intro stopped
    rw [← Bool.not_eq_true]
    intro hno
    have := ((made_cancelAsync _ (.item n)).undelays rfl).delayed n hno
    rw [hun] at this
    exact Bool.false_ne_true this
  cases e with
  | cancelDelayable m stopped =>
    obtain rfl := Option.some.inj he
    exact hcancel stopped
  | cancelDelayableSync m sync stopped =>
    obtain rfl := Option.some.inj he
    rw [step, State.cancelDelayableSync]
    split
    · rw [← Bool.not_eq_true]
      intro hno
      have := ((made_cancelSyncLocked _ (.item m) sync).undelays rfl).delayed m hno
      rw [hcancel] at this
      exact Bool.false_ne_true this
    next hidle =>
      rw [ne_eq, not_not] at hidle
      simp only [Work.busyGet] at hidle
      cases hd : (s.works (.item m)).delayed with
      | false => rfl
      | true =>
        rw [hd, Bool.toNat_true] at hidle
        omega
  | _ => cases he

theorem arms_delayed (s : State) {e : Event} (he : s.arms e = some n) {m : ℕ} (hm : m ≠ n)
    (hdelayed : ((s.step e).works (.item m)).delayed = true) :
    (s.works (.item m)).delayed = true := by
  have hne : WorkId.item m ≠ WorkId.item n := fun heq => hm (WorkId.item.inj heq)
  cases e with
  | schedule self q k noWait =>
    rw [arms] at he
    split at he
    next harms =>
      obtain rfl := Option.some.inj he
      rwa [step, State.schedule, if_pos harms.2, scheduleForQueue, harms.1,
        if_neg Bool.false_ne_true, works_setWork, if_neg hne] at hdelayed
    next => cases he
  | reschedule self q k noWait stopped =>
    rw [arms] at he
    split at he
    next harms =>
      obtain rfl := Option.some.inj he
      rwa [step, State.reschedule, scheduleForQueue, harms, if_neg Bool.false_ne_true,
        works_setWork, if_neg hne, works_unschedule_of_ne s stopped hne] at hdelayed
    next => cases he
  | _ => cases he

theorem arms_cancels (s : State) {e : Event} (he : s.arms e = some n) : e.cancels = none := by
  cases e with
  | schedule | reschedule => rfl
  | _ => cases he

theorem stopTimer_eq (t : Timers) (o : Option ℕ) :
    (t.stopTimer o).arming = t.arming ∧ (t.stopTimer o).cancelled = t.cancelled ∧
      (t.stopTimer o).dispatched = t.dispatched := by
  cases o with
  | none => exact ⟨rfl, rfl, rfl⟩
  | some n => exact ⟨rfl, rfl, rfl⟩

theorem Timers.Fresh.call (h : t.Fresh) {e : Event} (hsettled : t.Settled (.call e)) :
    (t.step (.call e)).Fresh := by
  obtain ⟨harming, hcancelled, hdispatched⟩ := stopTimer_eq t (t.state.stops e)
  intro m hdelayed
  change ((t.state.step e).works (.item m)).delayed = true at hdelayed
  rw [Timers.step]
  generalize t.stopTimer (t.state.stops e) = u at harming hcancelled hdispatched
  cases harms : t.state.arms e with
  | none =>
    obtain ⟨hlive, hall⟩ := h m ((undelays_step t.state harms).delayed m hdelayed)
    cases hcancels : e.cancels with
    | none =>
      change u.cancelled m = false ∧ ∀ p ∈ u.dispatched, p.1 = m → p.2 = u.arming m
      rw [hcancelled, hdispatched, harming]
      exact ⟨hlive, hall⟩
    | some n =>
      have hmn : m ≠ n := by
        rintro rfl
        rw [cancels_delayed t.state hcancels] at hdelayed
        cases hdelayed
      change update u.cancelled n true m = false ∧ ∀ p ∈ u.dispatched, p.1 = m → p.2 = u.arming m
      rw [update_of_ne hmn, hcancelled, hdispatched, harming]
      exact ⟨hlive, hall⟩
  | some n =>
    rw [arms_cancels t.state harms]
    change update u.cancelled n false m = false ∧
      ∀ p ∈ u.dispatched, p.1 = m → p.2 = update u.arming n (u.arming n + 1) m
    rw [hcancelled, hdispatched, harming]
    by_cases hmn : m = n
    · subst hmn
      exact ⟨update_self .., fun p hp hpm => absurd hpm (hsettled m harms p hp)⟩
    · rw [update_of_ne hmn, update_of_ne hmn]
      exact h m (arms_delayed t.state harms hmn hdelayed)

theorem Timers.Fresh.step (h : t.Fresh) {e : TimerEvent} (hsettled : t.Settled e) :
    (t.step e).Fresh := by
  cases e with
  | call e => exact h.call hsettled
  | expire n =>
    rw [Timers.step]
    split
    · intro m hdelayed
      obtain ⟨hlive, hall⟩ := h m hdelayed
      refine ⟨hlive, fun p hp hpm => ?_⟩
      obtain hp | hp := List.mem_append.mp hp
      · exact hall p hp hpm
      · obtain rfl := List.mem_singleton.mp hp
        exact congrArg t.arming hpm
    · exact h
  | callback self n k =>
    rw [Timers.step]
    split
    · intro m hdelayed
      have hundelays := undelays_step t.state (e := .workTimeout self n) rfl
      obtain ⟨hlive, hall⟩ := h m (hundelays.delayed m hdelayed)
      exact ⟨hlive, fun p hp hpm => hall p (List.mem_of_mem_erase hp) hpm⟩
    · exact h

/-- **Callbacks of an earlier arming are harmless** in a run where no timer
is armed while a callback of it is on the way: an item is submitted only
by the callback of its last arming, and not once it has been cancelled. -/
theorem stale_callbacks_harmless {es : List TimerEvent}
    (hrun : Along Timers.step (fun t e => t.Proper e ∧ t.Settled e) {} es) :
    Along Timers.step Timers.Current {} es := by
  have hstart : Timers.Fresh {} := fun n hn => absurd hn Bool.false_ne_true
  exact inv_along Timers.Fresh (fun t e h he => ⟨h.step he.2, h.current e⟩) hstart hrun

instance (t : Timers) : (e : TimerEvent) → Decidable (t.Settled e)
  | .call e => inferInstanceAs (Decidable (∀ n ∈ t.state.arms e, ∀ p ∈ t.dispatched, p.1 ≠ n))
  | .expire _ | .callback .. => .isTrue trivial

/-- Item 3 is armed, and its timer expires. -/
def expireOnce : List TimerEvent :=
  [.call (.initDelayable 3), .call (.start 0 false), .call (.schedule 1 0 3 false), .expire 3]

theorem stale_callbacks_harmless_sample :
    let es := expireOnce ++ [.callback 7 3 1, .call (.reschedule 1 0 3 false true), .expire 3,
      .callback 7 3 2]
    (run Timers.step {} es).arming 3 = 2 ∧ Along Timers.step Timers.Current {} es := by
  refine ⟨by decide, stale_callbacks_harmless ⟨⟨⟨rfl, rfl, nofun⟩, by decide⟩,
    ⟨trivial, by decide⟩, ⟨rfl, by decide⟩, ⟨trivial, by decide⟩, ⟨trivial, by decide⟩,
    ⟨rfl, by decide⟩, ⟨trivial, by decide⟩, ⟨trivial, by decide⟩, trivial⟩⟩

/-- **A callback of an earlier arming submits the item**: the timer has
expired when the item is rescheduled with a delay, and the callback takes
the DELAYED flag of the new arming. -/
theorem stale_callback_submits :
    let t := run Timers.step {} (expireOnce ++ [.call (.reschedule 1 0 3 false true)])
    ¬ t.Current (.callback 7 3 1) ∧ t.armed 3 = true ∧
      ((t.step (.callback 7 3 1)).state.works (.item 3)).queued = true := by
  refine ⟨fun hcurrent => ?_, by decide, by decide⟩
  have hlast := (hcurrent (by decide) (by decide)).1
  exact absurd hlast (by decide)

end Base

end OpenBlue

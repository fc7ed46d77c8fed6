import OpenBlue.Base.Changes
import Mathlib.Data.List.Sublists
/-!
# Base — what a flush waits for

Every submission of an item is an instance of its own, which is queued,
then run, and ends where its handler returns or a cancel removes it. A
flusher goes behind the queued instance of its item, or to the head of the
list of the thread that runs it. Whatever is submitted, cancelled or
rescheduled in between, it keeps to its place behind the instances that
were there when it came, so none of them is left when it has run.
-/

namespace OpenBlue

namespace Base

open Function List

/-! ## Instances -/

/-- The instances of the items, each a number for its item: how many there
were, which one runs, how they ended, and those that were queued or running
when a flusher came. -/
structure History where
  submitted : ℕ → ℕ := fun _ => 0
  runningAs : ℕ → ℕ := fun _ => 0
  finished : List (ℕ × ℕ) := []
  removed : List (ℕ × ℕ) := []
  awaits : ℕ → List (ℕ × ℕ) := fun _ => []

/-- The instance is queued or running. -/
def History.Live (h : History) (s : State) (n k : ℕ) : Prop :=
  (s.works (.item n)).queued = true ∧ k = h.submitted n ∨
    (s.works (.item n)).running = true ∧ k = h.runningAs n

/-- A submission is a new instance, a removal the end of the queued one. -/
def History.track (h : History) (s s' : State) (n : ℕ) : History :=
  if (s.works (.item n)).queued = false ∧ (s'.works (.item n)).queued = true then
    { h with submitted := update h.submitted n (h.submitted n + 1) }
  else if (s.works (.item n)).queued = true ∧ (s'.works (.item n)).queued = false then
    { h with removed := (n, h.submitted n) :: h.removed }
  else h

/-- A flusher comes. -/
def History.await (h : History) (s : State) (n sync : ℕ) : History :=
  { h with
    awaits := update h.awaits sync
      ((if (s.works (.item n)).queued then [(n, h.submitted n)] else []) ++
        if (s.works (.item n)).running then [(n, h.runningAs n)] else []) }

/-- What a step does to the instances. -/
def History.step (h : History) (s : State) : Event → History
  | .submit self queue n => h.track s (s.step (.submit self queue n)) n
  | .cancel n => h.track s (s.step (.cancel n)) n
  | .cancelSync n sync => h.track s (s.step (.cancelSync n sync)) n
  | .schedule self q n noWait => h.track s (s.step (.schedule self q n noWait)) n
  | .reschedule self q n noWait stopped =>
    h.track s (s.step (.reschedule self q n noWait stopped)) n
  | .cancelDelayable n stopped => h.track s (s.step (.cancelDelayable n stopped)) n
  | .cancelDelayableSync n sync stopped =>
    h.track s (s.step (.cancelDelayableSync n sync stopped)) n
  | .workTimeout self n => h.track s (s.step (.workTimeout self n)) n
  | .flush n sync =>
    if (s.flush (.item n) sync).1 then h.await (s.step (.flush n sync)) n sync else h
  | .flushDelayable self n sync stopped =>
    let s' := s.step (.flushDelayable self n sync stopped)
    let h' := h.track s s' n
    if (s.flushDelayable self (.item n) sync stopped).1 then h'.await s' n sync else h'
  | .fetch q =>
    match (s.queues q).pc, (s.queues q).pending with
    | .loop, .item n :: _ =>
      { h with runningAs := update h.runningAs n (h.submitted n) }
    | _, _ => h
  | .finish q =>
    match (s.queues q).pc with
    | .handler (.item n) => { h with finished := (n, h.runningAs n) :: h.finished }
    | _ => h
  | _ => h

/-- The items and queues, with the instances. -/
structure Flushes where
  state : State := {}
  history : History := {}

/-- One step. -/
def Flushes.step (f : Flushes) (e : Event) : Flushes where
  state := f.state.step e
  history := f.history.step f.state e

variable {s s' : State} {h : History} {w : WorkId} {q n k sync : ℕ}

/-! ## The order of a list -/

theorem sublist_insertAfter (w u : WorkId) (l : List WorkId) : l.Sublist (insertAfter w u l) := by
  induction l with
  | nil => exact .refl []
  | cons x l ih =>
    rw [insertAfter]
    split
    · exact (sublist_cons_self u l).cons_cons x
    · exact ih.cons_cons x

theorem pair_insertAfter {w u : WorkId} {l : List WorkId} (hmem : w ∈ l) :
    [w, u].Sublist (insertAfter w u l) := by
  induction l with
  | nil => nomatch hmem
  | cons x l ih =>
    rw [insertAfter]
    split
    next hx =>
      rw [hx]
      exact (singleton_sublist.mpr mem_cons_self).cons_cons w
    next hx => exact (ih ((mem_cons.mp hmem).resolve_left (Ne.symm hx))).cons x

theorem pair_cons {a b x : WorkId} {l : List WorkId} (hp : [a, b].Sublist (x :: l)) :
    a = x ∧ b ∈ l ∨ [a, b].Sublist l := by
  cases hp with
  | cons _ hp => exact .inr hp
  | cons_cons _ hp => exact .inl ⟨rfl, singleton_sublist.mp hp⟩

/-! ## The invariant -/

/-- The flusher is behind the queued instance of the item. -/
def Behind (s : State) (sync n : ℕ) : Prop :=
  ∃ q, (s.works (.item n)).queue = some q ∧
    [.item n, .flusher sync].Sublist (s.queues q).pending

/-- The flusher is in the list of the thread that runs the item. -/
def Under (s : State) (sync n : ℕ) : Prop :=
  ∃ q, (s.works (.item n)).queue = some q ∧ .flusher sync ∈ (s.queues q).pending

/-- **The invariant of flushers**: a flusher that has come is still behind
all that it waits for, unless that has ended. -/
structure FlushInv (s : State) (h : History) : Prop where
  running : ∀ n, (s.works (.item n)).running = true →
    h.runningAs n ≤ h.submitted n ∧
      ((s.works (.item n)).queued = true → h.runningAs n < h.submitted n)
  pos : ∀ n, ((s.works (.item n)).queued = true → 1 ≤ h.submitted n) ∧
    ((s.works (.item n)).running = true → 1 ≤ h.runningAs n)
  bound : ∀ sync, ∀ i ∈ h.awaits sync, 1 ≤ i.2 ∧ i.2 ≤ h.submitted i.1
  queued : ∀ sync, ∀ i ∈ h.awaits sync, (s.works (.item i.1)).queued = true →
    i.2 = h.submitted i.1 → Behind s sync i.1
  ran : ∀ sync, ∀ i ∈ h.awaits sync, (s.works (.item i.1)).running = true →
    i.2 = h.runningAs i.1 → Under s sync i.1
  fate : ∀ n k, 1 ≤ k → k ≤ h.submitted n →
    h.Live s n k ∨ (n, k) ∈ h.finished ∨ (n, k) ∈ h.removed

/-- Neither lists nor what the items are change. -/
structure Quiet (s s' : State) : Prop where
  queued : ∀ n, (s'.works (.item n)).queued = (s.works (.item n)).queued
  running : ∀ n, (s'.works (.item n)).running = (s.works (.item n)).running
  queue : ∀ n, (s.works (.item n)).queued = true ∨ (s.works (.item n)).running = true →
    (s'.works (.item n)).queue = (s.works (.item n)).queue
  pending : ∀ q, (s'.queues q).pending = (s.queues q).pending

theorem FlushInv.quiet (hf : FlushInv s h) (hq : Quiet s s') : FlushInv s' h := by
  refine ⟨fun n => ?_, fun n => ?_, hf.bound, fun sync i hi hqueued hk => ?_,
    fun sync i hi hrun hk => ?_, fun n k h1 hk => ?_⟩
  · rw [hq.running, hq.queued]
    exact hf.running n
  · rw [hq.running, hq.queued]
    exact hf.pos n
  · rw [hq.queued] at hqueued
    obtain ⟨q, hqueue, hpair⟩ := hf.queued sync i hi hqueued hk
    exact ⟨q, (hq.queue i.1 (.inl hqueued)).trans hqueue, by rwa [hq.pending]⟩
  · rw [hq.running] at hrun
    obtain ⟨q, hqueue, hmem⟩ := hf.ran sync i hi hrun hk
    exact ⟨q, (hq.queue i.1 (.inr hrun)).trans hqueue, by rwa [hq.pending]⟩
  · rw [History.Live, hq.queued, hq.running]
    exact hf.fate n k h1 hk

theorem Quiet.rfl : Quiet s s := ⟨fun _ => .refl _, fun _ => .refl _, fun _ _ => .refl _,
  fun _ => .refl _⟩

theorem quiet_setWork {v : Work} (hqueued : v.queued = (s.works w).queued)
    (hrunning : v.running = (s.works w).running) (hqueue : v.queue = (s.works w).queue) :
    Quiet s (s.setWork w v) := by
  refine ⟨fun n => ?_, fun n => ?_, fun n _ => ?_, fun _ => .refl _⟩
  all_goals
    rw [works_setWork]
    split
    next hw => rw [hw]; assumption
    next => rfl

theorem quiet_setQueue {Q : Queue} (hp : Q.pending = (s.queues q).pending) :
    Quiet s (s.setQueue q Q) := by
  refine ⟨fun _ => .refl _, fun _ => .refl _, fun _ _ => .refl _, fun q' => ?_⟩
  rw [queues_setQueue]
  split
  next hq => rw [hp, hq]
  next => rfl

theorem quiet_notify (s : State) (q : ℕ) : Quiet s (s.notify q) := quiet_setQueue rfl

theorem track_self (h : History) (s : State) (n : ℕ) : h.track s s n = h := by
  rw [History.track]
  cases (s.works (.item n)).queued <;> rfl

theorem track_quiet {s₁ s₂ : State} (h : History) (hq : Quiet s s₁) (hq' : Quiet s₂ s') (n : ℕ) :
    h.track s s' n = h.track s₁ s₂ n := by
  rw [History.track, History.track, hq.queued, hq'.queued]

/-! ## Submitting and removing -/

/-- An item is appended to a list. -/
structure Submitted (s s' : State) (n q : ℕ) : Prop where
  fresh : (s.works (.item n)).queued = false
  running : (s.works (.item n)).running = true → (s.works (.item n)).queue = some q
  self : s'.works (.item n) = { s.works (.item n) with queued := true, queue := some q }
  others : ∀ m, m ≠ n → s'.works (.item m) = s.works (.item m)
  pending : ∀ q', (s'.queues q').pending =
    if q' = q then (s.queues q').pending ++ [.item n] else (s.queues q').pending

theorem submitToQueue_cases (s : State) (self n : ℕ) (queue : Option ℕ) :
    (s.submitToQueue self (.item n) queue).2 = s ∨
      ∃ q, Submitted s (s.submitToQueue self (.item n) queue).2 n q := by
  rw [State.submitToQueue]
  split
  · exact .inl rfl
  split
  swap
  · exact .inl rfl
  next hqueued =>
  dsimp only
  generalize hq : (if (s.works (.item n)).running = true then (s.works (.item n)).queue
    else if queue = none then (s.works (.item n)).queue else queue) = target
  split
  · exact .inl rfl
  next s' hsub =>
  obtain ⟨q, rfl, -, rfl⟩ := queueSubmit_ok hsub
  refine .inr ⟨q, by simpa using hqueued, fun hr => ?_, works_setWork_self .., fun m hm => ?_,
    fun q' => ?_⟩
  · rwa [if_pos hr] at hq
  · rw [works_setWork, if_neg fun heq => hm (WorkId.item.inj heq)]
    rfl
  · rw [queues_setWork, (quiet_notify _ q).pending, queues_setQueue]
    split
    next hq' => rw [hq']
    next => rfl

/-- An item is taken out of its list. -/
structure Removed (s s' : State) (n : ℕ) : Prop where
  queued : (s.works (.item n)).queued = true
  self : s'.works (.item n) = { s.works (.item n) with queued := false }
  others : ∀ m, m ≠ n → s'.works (.item m) = s.works (.item m)
  pending : ∀ q, (s'.queues q).pending = (s.queues q).pending ∨
    (s'.queues q).pending = (s.queues q).pending.erase (.item n)

theorem queueRemove_cases (s : State) (n : ℕ) (queue : Option ℕ) :
    s.queueRemove queue (.item n) = s ∨ Removed s (s.queueRemove queue (.item n)) n := by
  rw [State.queueRemove]
  split
  swap
  · exact .inl rfl
  next hqueued =>
  have hothers : ∀ m, m ≠ n → (s.setWork (.item n) { s.works (.item n) with
      queued := false }).works (.item m) = s.works (.item m) := by
    intro m hm
    rw [works_setWork, if_neg fun heq => hm (WorkId.item.inj heq)]
  cases queue with
  | none => exact .inr ⟨hqueued, works_setWork_self .., hothers, fun q => .inl rfl⟩
  | some q =>
    refine .inr ⟨hqueued, works_setWork_self .., hothers, fun q' => ?_⟩
    dsimp only
    rw [queues_setQueue]
    split
    next hq =>
      rw [hq]
      exact .inr rfl
    next => exact .inl rfl

variable {m : ℕ}

/-- **A submission** is an instance that nobody waits for yet. -/
theorem FlushInv.submitted (hf : FlushInv s h) (hs : Submitted s s' n q) :
    FlushInv s' { h with submitted := update h.submitted n (h.submitted n + 1) } := by
  have hsub : ∀ q', (s.queues q').pending.Sublist (s'.queues q').pending := by
    intro q'
    rw [hs.pending]
    split
    · exact sublist_append_left ..
    · exact .refl _
  have hle : ∀ m, h.submitted m ≤ update h.submitted n (h.submitted n + 1) m := by
    intro m
    rw [update_apply]
    split
    next hm => rw [hm]; omega
    next => exact le_rfl
  have hrunning : ∀ m, (s'.works (.item m)).running = (s.works (.item m)).running := by
    intro m
    by_cases hm : m = n
    · rw [hm, hs.self]
    · rw [hs.others m hm]
  refine ⟨fun m hrun => ?_, fun m => ⟨fun hqueued => ?_, fun hrun => ?_⟩, fun sync i hi => ?_,
    fun sync i hi hqueued hk => ?_, fun sync i hi hrun hk => ?_, fun m k h1 hk => ?_⟩
  · rw [hrunning] at hrun
    obtain ⟨hle', hlt⟩ := hf.running m hrun
    refine ⟨hle'.trans (hle m), fun hqueued => ?_⟩
    by_cases hm : m = n
    · rw [hm] at hle' ⊢
      dsimp only
      rw [update_self]
      exact Nat.lt_succ_of_le hle'
    · rw [hs.others m hm] at hqueued
      exact lt_of_lt_of_le (hlt hqueued) (hle m)
  · by_cases hm : m = n
    · rw [hm]
      dsimp only
      rw [update_self]
      exact Nat.le_add_left 1 _
    · rw [hs.others m hm] at hqueued
      exact ((hf.pos m).1 hqueued).trans (hle m)
  · rw [hrunning] at hrun
    exact (hf.pos m).2 hrun
  · exact ⟨(hf.bound sync i hi).1, (hf.bound sync i hi).2.trans (hle i.1)⟩
  · by_cases hm : i.1 = n
    · have hbound := (hf.bound sync i hi).2
      rw [hm] at hbound hk
      dsimp only at hk
      rw [update_self] at hk
      omega
    · dsimp only at hk
      rw [update_of_ne hm] at hk
      rw [hs.others _ hm] at hqueued
      obtain ⟨q', hqueue, hpair⟩ := hf.queued sync i hi hqueued hk
      exact ⟨q', by rwa [hs.others _ hm], hpair.trans (hsub q')⟩
  · rw [hrunning] at hrun
    obtain ⟨q', hqueue, hmem⟩ := hf.ran sync i hi hrun hk
    refine ⟨q', ?_, (hsub q').subset hmem⟩
    by_cases hm : i.1 = n
    · rw [hm] at hrun hqueue ⊢
      rw [hs.self]
      exact (hs.running hrun).symm.trans hqueue
    · rwa [hs.others _ hm]
  · by_cases hm : m = n
    · subst hm
      dsimp only at hk
      rw [update_self] at hk
      rw [History.Live, hs.self]
      dsimp only
      rw [update_self]
      by_cases hlast : k = h.submitted m + 1
      · exact .inl (.inl ⟨rfl, hlast⟩)
      · obtain hlive | hended := hf.fate m k h1 (by omega)
        · obtain hqueued | hrun := hlive
          · exact absurd (hs.fresh.symm.trans hqueued.1) Bool.false_ne_true
          · exact .inl (.inr hrun)
        · exact .inr hended
    · dsimp only at hk
      rw [update_of_ne hm] at hk
      rw [History.Live, hs.others m hm]
      dsimp only
      rw [update_of_ne hm]
      exact hf.fate m k h1 hk

/-- **A removal** is the end of the queued instance. -/
theorem FlushInv.removed (hf : FlushInv s h) (hs : Removed s s' n) :
    FlushInv s' { h with removed := (n, h.submitted n) :: h.removed } := by
  have hrunning : ∀ m, (s'.works (.item m)).running = (s.works (.item m)).running := by
    intro m
    by_cases hm : m = n
    · rw [hm, hs.self]
    · rw [hs.others m hm]
  have hqueue : ∀ m, (s'.works (.item m)).queue = (s.works (.item m)).queue := by
    intro m
    by_cases hm : m = n
    · rw [hm, hs.self]
    · rw [hs.others m hm]
  have hqueued : ∀ m, (s'.works (.item m)).queued = true →
      m ≠ n ∧ (s.works (.item m)).queued = true := by
    intro m hm
    have hne : m ≠ n := by
      rintro rfl
      rw [hs.self] at hm
      cases hm
    exact ⟨hne, by rwa [hs.others m hne] at hm⟩
  refine ⟨fun m hrun => ?_, fun m => ⟨fun hq => (hf.pos m).1 (hqueued m hq).2, fun hrun => ?_⟩,
    hf.bound, fun sync i hi hq hk => ?_, fun sync i hi hrun hk => ?_, fun m k h1 hk => ?_⟩
  · rw [hrunning] at hrun
    obtain ⟨hle, hlt⟩ := hf.running m hrun
    exact ⟨hle, fun hq => hlt (hqueued m hq).2⟩
  · rw [hrunning] at hrun
    exact (hf.pos m).2 hrun
  · obtain ⟨hne, hq⟩ := hqueued i.1 hq
    obtain ⟨q', hqueue', hpair⟩ := hf.queued sync i hi hq hk
    refine ⟨q', (hqueue i.1).trans hqueue', ?_⟩
    obtain hsame | herase := hs.pending q'
    · rwa [hsame]
    · have hpair' := hpair.erase (.item n)
      rw [erase_cons_tail (by simpa using hne), erase_cons_tail (by simp), erase_nil] at hpair'
      rwa [herase]
  · rw [hrunning] at hrun
    obtain ⟨q', hqueue', hmem⟩ := hf.ran sync i hi hrun hk
    refine ⟨q', (hqueue i.1).trans hqueue', ?_⟩
    obtain hsame | herase := hs.pending q'
    · rwa [hsame]
    · rw [herase]
      exact (mem_erase_of_ne (by simp)).mpr hmem
  · obtain hlive | hfinished | hremoved := hf.fate m k h1 hk
    · obtain ⟨hq, hk'⟩ | ⟨hrun, hk'⟩ := hlive
      · by_cases hm : m = n
        · subst hm
          exact .inr (.inr (by rw [hk']; exact mem_cons_self))
        · refine .inl (.inl ⟨?_, hk'⟩)
          rwa [hs.others m hm]
      · exact .inl (.inr ⟨(hrunning m).trans hrun, hk'⟩)
    · exact .inr (.inl hfinished)
    · exact .inr (.inr (mem_cons_of_mem _ hremoved))

theorem FlushInv.submitToQueue (hf : FlushInv s h) (self n : ℕ) (queue : Option ℕ) :
    FlushInv (s.submitToQueue self (.item n) queue).2
      (h.track s (s.submitToQueue self (.item n) queue).2 n) := by
  obtain hsame | ⟨q, hs⟩ := submitToQueue_cases s self n queue
  · rwa [hsame, track_self]
  · rw [History.track, if_pos ⟨hs.fresh, by rw [hs.self]⟩]
    exact hf.submitted hs

theorem FlushInv.queueRemove (hf : FlushInv s h) (n : ℕ) (queue : Option ℕ) :
    FlushInv (s.queueRemove queue (.item n)) (h.track s (s.queueRemove queue (.item n)) n) := by
  obtain hsame | hs := queueRemove_cases s n queue
  · rwa [hsame, track_self]
  · rw [History.track, if_neg (by simp [hs.queued]), if_pos ⟨hs.queued, by rw [hs.self]⟩]
    exact hf.removed hs

theorem FlushInv.cancelAsync (hf : FlushInv s h) (n : ℕ) :
    FlushInv (s.cancelAsync (.item n)).2 (h.track s (s.cancelAsync (.item n)).2 n) := by
  rw [State.cancelAsync]
  dsimp only
  have hremove : FlushInv
      (if !(s.works (.item n)).canceling then
        s.queueRemove (s.works (.item n)).queue (.item n) else s)
      (h.track s (if !(s.works (.item n)).canceling then
        s.queueRemove (s.works (.item n)).queue (.item n) else s) n) := by
    split
    · exact hf.queueRemove ..
    · rwa [track_self]
  generalize (if !(s.works (.item n)).canceling then
    s.queueRemove (s.works (.item n)).queue (.item n) else s) = t at hremove ⊢
  split
  · have hquiet : Quiet t (t.setWork (.item n) { t.works (.item n) with canceling := true }) :=
      quiet_setWork rfl rfl rfl
    rw [track_quiet h .rfl hquiet]
    exact hremove.quiet hquiet
  · exact hremove

/-! ## A flusher comes -/

theorem Inv.mem_pending (hinv : Inv s) (hqueued : (s.works (.item n)).queued = true)
    (hqueue : (s.works (.item n)).queue = some q) : .item n ∈ (s.queues q).pending := by
  have hone := (hinv.item n).places q
  rw [if_pos ⟨hqueued, hqueue⟩, State.places] at hone
  exact count_pos_iff.mp (by omega)

/-- **The flusher waits for what is there**, and gets behind it. -/
theorem FlushInv.workFlush (hf : FlushInv s h) (hinv : Inv s) (n sync : ℕ) :
    FlushInv (s.workFlush (.item n) sync).2 (if (s.workFlush (.item n) sync).1 then
      h.await (s.workFlush (.item n) sync).2 n sync else h) := by
  rw [State.workFlush]
  split
  swap
  · exact hf
  next hbusy =>
  have hbusy' : (s.works (.item n)).queued = true ∨ (s.works (.item n)).running = true := by
    simpa using hbusy
  obtain ⟨q, hqueue⟩ := (hinv.item n).queue hbusy'
  rw [hqueue]
  dsimp only
  rw [if_pos rfl]
  generalize hs' : (s.queueFlusher q (.item n) sync).notify q = s'
  have hworks : ∀ m, s'.works (.item m) = s.works (.item m) := by
    intro m
    rw [← hs']
    rfl
  have hpending : ∀ q', (s'.queues q').pending = if q' = q then
      (if (s.works (.item n)).queued then insertAfter (.item n) (.flusher sync) (s.queues q').pending
        else .flusher sync :: (s.queues q').pending) else (s.queues q').pending := by
    intro q'
    rw [← hs', (quiet_notify _ q).pending, State.queueFlusher, queues_setQueue]
    split
    next hq' => rw [hq']
    next => rfl
  have hsub : ∀ q', (s.queues q').pending.Sublist (s'.queues q').pending := by
    intro q'
    rw [hpending]
    split
    · split
      · exact sublist_insertAfter ..
      · exact sublist_cons_self ..
    · exact .refl _
  have hpair : (s.works (.item n)).queued = true →
      [.item n, .flusher sync].Sublist (s'.queues q).pending := by
    intro hqueued
    rw [hpending, if_pos rfl, if_pos hqueued]
    exact pair_insertAfter (hinv.mem_pending hqueued hqueue)
  have hmem : .flusher sync ∈ (s'.queues q).pending := by
    by_cases hqueued : (s.works (.item n)).queued = true
    · exact (hpair hqueued).subset (by simp)
    · rw [hpending, if_pos rfl, if_neg hqueued]
      exact mem_cons_self
  have hawaits : ∀ sync' i, i ∈ (h.await s' n sync).awaits sync' →
      sync' ≠ sync ∧ i ∈ h.awaits sync' ∨ sync' = sync ∧ i.1 = n ∧
        ((s.works (.item n)).queued = true ∧ i.2 = h.submitted n ∨
          (s.works (.item n)).running = true ∧ i.2 = h.runningAs n) := by
    intro sync' i hi
    rw [History.await] at hi
    dsimp only at hi
    rw [update_apply] at hi
    split at hi
    next hsync =>
      refine .inr ⟨hsync, ?_⟩
      rw [hworks] at hi
      obtain hi | hi := mem_append.mp hi
      · split at hi
        next hqueued =>
          obtain rfl := mem_singleton.mp hi
          exact ⟨rfl, .inl ⟨hqueued, rfl⟩⟩
        next => cases hi
      · split at hi
        next hrun =>
          obtain rfl := mem_singleton.mp hi
          exact ⟨rfl, .inr ⟨hrun, rfl⟩⟩
        next => cases hi
    next hsync => exact .inl ⟨hsync, hi⟩
  refine ⟨fun m => ?_, fun m => ?_, fun sync' i hi => ?_, fun sync' i hi hqueued hk => ?_,
    fun sync' i hi hrun hk => ?_, fun m k h1 hk => ?_⟩
  · rw [hworks]
    exact hf.running m
  · rw [hworks]
    exact hf.pos m
  · obtain ⟨-, hi⟩ | ⟨-, hn, ⟨hqueued, hk⟩ | ⟨hrun, hk⟩⟩ := hawaits sync' i hi
    · exact hf.bound sync' i hi
    · rw [hk, hn]
      exact ⟨(hf.pos n).1 hqueued, le_rfl⟩
    · rw [hk, hn]
      exact ⟨(hf.pos n).2 hrun, (hf.running n hrun).1⟩
  · rw [hworks] at hqueued
    obtain ⟨-, hi⟩ | ⟨rfl, hn, -⟩ := hawaits sync' i hi
    · obtain ⟨q', hqueue', hpair'⟩ := hf.queued sync' i hi hqueued hk
      exact ⟨q', by rwa [hworks], hpair'.trans (hsub q')⟩
    · rw [hn] at hqueued ⊢
      exact ⟨q, by rwa [hworks], hpair hqueued⟩
  · rw [hworks] at hrun
    obtain ⟨-, hi⟩ | ⟨rfl, hn, -⟩ := hawaits sync' i hi
    · obtain ⟨q', hqueue', hmem'⟩ := hf.ran sync' i hi hrun hk
      exact ⟨q', by rwa [hworks], (hsub q').subset hmem'⟩
    · rw [hn]
      exact ⟨q, by rwa [hworks], hmem⟩
  · rw [History.Live, hworks]
    exact hf.fate m k h1 hk

/-! ## The thread of a queue -/

theorem Inv.queued_of_mem (hinv : Inv s) (hmem : .item n ∈ (s.queues q).pending) :
    (s.works (.item n)).queued = true ∧ (s.works (.item n)).queue = some q := by
  have hcount : s.places (.item n) q ≠ 0 := Nat.ne_of_gt (count_pos_iff.mpr hmem)
  rw [(hinv.item n).places] at hcount
  by_contra hno
  rw [if_neg hno] at hcount
  exact hcount rfl

theorem Inv.not_running (hinv : Inv s) (hpc : (s.queues q).pc = .loop)
    (hqueue : (s.works (.item n)).queue = some q) : (s.works (.item n)).running = false := by
  by_contra hno
  have hruns := ((hinv.item n).runs q).mpr ⟨by simpa using hno, hqueue⟩
  rw [State.runs, hpc] at hruns
  cases hruns

theorem FlushInv.fetch (hf : FlushInv s h) (hinv : Inv s) (q : ℕ) :
    FlushInv (s.fetch q) (h.step s (.fetch q)) := by
  rw [State.fetch, History.step]
  cases hpc : (s.queues q).pc with
  | off | boot | waiting | handler w =>
    rw [if_pos (by simp)]
    exact hf
  | loop =>
  rw [if_neg (by simp)]
  cases hpending : (s.queues q).pending with
  | nil =>
    dsimp only
    refine hf.quiet ?_
    split
    · exact quiet_setQueue rfl
    split
    · exact quiet_setQueue rfl
    · exact quiet_setQueue rfl
  | cons w rest =>
    dsimp only
    -- a running item of another queue is not affected
    have hothers : ∀ m q', (s.works (.item m)).running = true →
        (s.works (.item m)).queue = some q' → q' ≠ q := by
      rintro m q' hrun hqueue rfl
      rw [hinv.not_running hpc hqueue] at hrun
      cases hrun
    have hafter : ∀ q', ((s.setQueue q { s.queues q with
        pending := rest, busy := true, pc := .handler w }).queues q').pending =
        if q' = q then rest else (s.queues q').pending := by
      intro q'
      rw [queues_setQueue]
      split
      · rfl
      · rfl
    cases w with
    | flusher f =>
      dsimp only
      refine ⟨hf.running, hf.pos, hf.bound, fun sync i hi hqueued hk => ?_,
        fun sync i hi hrun hk => ?_, hf.fate⟩
      · obtain ⟨q', hqueue, hpair⟩ := hf.queued sync i hi hqueued hk
        refine ⟨q', hqueue, ?_⟩
        rw [queues_setWork, hafter]
        split
        next hq' =>
          rw [hq', hpending] at hpair
          exact (pair_cons hpair).resolve_left fun hno => WorkId.noConfusion hno.1
        next => exact hpair
      · obtain ⟨q', hqueue, hmem⟩ := hf.ran sync i hi hrun hk
        refine ⟨q', hqueue, ?_⟩
        rw [queues_setWork, hafter, if_neg (hothers _ _ hrun hqueue)]
        exact hmem
    | item n =>
      dsimp only
      obtain ⟨hnq, hqueue⟩ := hinv.queued_of_mem (hpending ▸ mem_cons_self)
      have hidle := hinv.not_running hpc hqueue
      generalize hs' : (s.setQueue q { s.queues q with
        pending := rest, busy := true, pc := .handler (.item n) }).setWork (.item n)
          { s.works (.item n) with running := true, queued := false } = s'
      have hself : s'.works (.item n) =
          { s.works (.item n) with running := true, queued := false } := by
        rw [← hs', works_setWork_self]
      have hsame : ∀ m, m ≠ n → s'.works (.item m) = s.works (.item m) := by
        intro m hm
        rw [← hs', works_setWork, if_neg fun heq => hm (WorkId.item.inj heq)]
        rfl
      have hafter' : ∀ q', (s'.queues q').pending =
          if q' = q then rest else (s.queues q').pending := by
        intro q'
        rw [← hs', queues_setWork, hafter]
      refine ⟨fun m hrun => ?_, fun m => ⟨fun hqueued => ?_, fun hrun => ?_⟩, hf.bound,
        fun sync i hi hqueued hk => ?_, fun sync i hi hrun hk => ?_, fun m k h1 hk => ?_⟩
      · by_cases hm : m = n
        · subst hm
          dsimp only
          rw [update_self, hself]
          exact ⟨le_rfl, fun h => Bool.noConfusion h⟩
        · dsimp only
          rw [update_of_ne hm, hsame m hm]
          exact hf.running m (hsame m hm ▸ hrun)
      · by_cases hm : m = n
        · rw [hm, hself] at hqueued
          cases hqueued
        · exact (hf.pos m).1 (hsame m hm ▸ hqueued)
      · by_cases hm : m = n
        · subst hm
          dsimp only
          rw [update_self]
          exact (hf.pos m).1 hnq
        · dsimp only
          rw [update_of_ne hm]
          exact (hf.pos m).2 (hsame m hm ▸ hrun)
      · have hm : i.1 ≠ n := by
          intro hm
          rw [hm, hself] at hqueued
          cases hqueued
        rw [hsame _ hm] at hqueued
        obtain ⟨q', hqueue', hpair⟩ := hf.queued sync i hi hqueued hk
        refine ⟨q', by rwa [hsame _ hm], ?_⟩
        rw [hafter']
        split
        next hq' =>
          rw [hq', hpending] at hpair
          exact (pair_cons hpair).resolve_left fun hno => hm (WorkId.item.inj hno.1)
        next => exact hpair
      · by_cases hm : i.1 = n
        · -- what was queued runs now
          rw [hm] at hk ⊢
          dsimp only at hk
          rw [update_self] at hk
          obtain ⟨q', hqueue', hpair⟩ := hf.queued sync i hi (hm ▸ hnq) (hm ▸ hk)
          rw [hm] at hqueue' hpair
          obtain rfl : q = q' := Option.mem_unique hqueue hqueue'
          refine ⟨q, by rwa [hself], ?_⟩
          rw [hafter', if_pos rfl]
          rw [hpending] at hpair
          obtain ⟨-, hmem⟩ | hpair := pair_cons hpair
          · exact hmem
          · exact hpair.subset (by simp)
        · rw [hsame _ hm] at hrun
          dsimp only at hk
          rw [update_of_ne hm] at hk
          obtain ⟨q', hqueue', hmem⟩ := hf.ran sync i hi hrun hk
          refine ⟨q', by rwa [hsame _ hm], ?_⟩
          rw [hafter', if_neg (hothers _ _ hrun hqueue')]
          exact hmem
      · obtain hlive | hended := hf.fate m k h1 hk
        · refine .inl ?_
          by_cases hm : m = n
          · subst hm
            obtain hqueued | hrun := hlive
            · refine .inr ⟨by rw [hself], ?_⟩
              dsimp only
              rw [update_self]
              exact hqueued.2
            · rw [hidle] at hrun
              exact absurd hrun.1 Bool.false_ne_true
          · rw [History.Live, hsame m hm]
            dsimp only
            rwa [update_of_ne hm]
        · exact .inr hended

theorem FlushInv.finish (hf : FlushInv s h) (q : ℕ) :
    FlushInv (s.finish q) (h.step s (.finish q)) := by
  cases hpc : (s.queues q).pc with
  | off | boot | loop | waiting =>
    rw [State.finish, History.step, hpc]
    exact hf
  | handler w =>
    obtain ⟨t, hworks, hqueues, heq⟩ := finish_eq hpc
    have hpending : ∀ q', ((s.finish q).queues q').pending = (s.queues q').pending := by
      intro q'
      rw [heq, queues_setQueue, hqueues]
      split
      next hq' => rw [hq']
      next => rfl
    have hwork : ∀ m, (s.finish q).works (.item m) =
        (s.setWork w (s.works w).finished).works (.item m) := by
      intro m
      rw [heq, works_setQueue, hworks]
    rw [History.step, hpc]
    cases w with
    | flusher f =>
      refine hf.quiet ⟨fun m => ?_, fun m => ?_, fun m _ => ?_, hpending⟩
      all_goals
        rw [hwork, works_setWork, if_neg WorkId.noConfusion]
    | item n =>
      dsimp only
      have hself : (s.finish q).works (.item n) = (s.works (.item n)).finished := by
        rw [hwork, works_setWork_self]
      have hsame : ∀ m, m ≠ n → (s.finish q).works (.item m) = s.works (.item m) := by
        intro m hm
        rw [hwork, works_setWork, if_neg fun heq => hm (WorkId.item.inj heq)]
      have hqueued : ∀ m, ((s.finish q).works (.item m)).queued = (s.works (.item m)).queued := by
        intro m
        by_cases hm : m = n
        · rw [hm, hself]
          rfl
        · rw [hsame m hm]
      have hqueue : ∀ m, ((s.finish q).works (.item m)).queue = (s.works (.item m)).queue := by
        intro m
        by_cases hm : m = n
        · rw [hm, hself]
          rfl
        · rw [hsame m hm]
      have hrun : ∀ m, ((s.finish q).works (.item m)).running = true →
          m ≠ n ∧ (s.works (.item m)).running = true := by
        intro m hrun
        have hm : m ≠ n := by
          rintro rfl
          rw [hself] at hrun
          cases hrun
        exact ⟨hm, hsame m hm ▸ hrun⟩
      refine ⟨fun m hr => ?_, fun m => ⟨fun hq => ?_, fun hr => (hf.pos m).2 (hrun m hr).2⟩,
        hf.bound, fun sync i hi hq hk => ?_, fun sync i hi hr hk => ?_, fun m k h1 hk => ?_⟩
      · rw [hqueued]
        exact hf.running m (hrun m hr).2
      · rw [hqueued] at hq
        exact (hf.pos m).1 hq
      · rw [hqueued] at hq
        obtain ⟨q', hqueue', hpair⟩ := hf.queued sync i hi hq hk
        exact ⟨q', (hqueue _).trans hqueue', by rwa [hpending]⟩
      · obtain ⟨q', hqueue', hmem⟩ := hf.ran sync i hi (hrun i.1 hr).2 hk
        exact ⟨q', (hqueue _).trans hqueue', by rwa [hpending]⟩
      · obtain hlive | hfinished | hremoved := hf.fate m k h1 hk
        · obtain ⟨hq, hk'⟩ | ⟨hr, hk'⟩ := hlive
          · exact .inl (.inl ⟨(hqueued m).trans hq, hk'⟩)
          · by_cases hm : m = n
            · subst hm
              exact .inr (.inl (by rw [hk']; exact mem_cons_self))
            · refine .inl (.inr ⟨?_, hk'⟩)
              rwa [hsame m hm]
        · exact .inr (.inl (mem_cons_of_mem _ hfinished))
        · exact .inr (.inr hremoved)

/-! ## Every step -/

theorem quiet_unschedule (s : State) (n : ℕ) (stopped : Bool) :
    Quiet s (s.unschedule (.item n) stopped).2 := by
  rw [State.unschedule]
  split
  · exact quiet_setWork rfl rfl rfl
  · exact .rfl

theorem quiet_cancelSyncLocked (s : State) (n sync : ℕ) :
    Quiet s (s.cancelSyncLocked (.item n) sync).2 := by
  rw [State.cancelSyncLocked]
  split
  · exact ⟨fun _ => rfl, fun _ => rfl, fun _ _ => rfl, fun _ => rfl⟩
  · exact .rfl

theorem quiet_init (hidle : (s.works (.item n)).busyGet = 0) (delayable : Bool) :
    Quiet s (s.setWork (.item n) { delayable }) := by
  have hflags : (s.works (.item n)).queued = false ∧ (s.works (.item n)).running = false := by
    simp only [Work.busyGet] at hidle
    cases hqueued : (s.works (.item n)).queued <;> cases hrun : (s.works (.item n)).running <;>
      simp_all
  refine ⟨fun m => ?_, fun m => ?_, fun m hbusy => ?_, fun _ => rfl⟩
  all_goals
    rw [works_setWork]
    split
  · next hm => rw [hm, hflags.1]
  · rfl
  · next hm => rw [hm, hflags.2]
  · rfl
  · next hm =>
    rw [hm, hflags.1, hflags.2] at hbusy
    simp at hbusy
  · rfl

theorem quiet_boot (hinv : Inv s) (hoff : (s.queues q).started = false) {Q : Queue}
    (hpending : Q.pending = []) : Quiet s (s.setQueue q Q) :=
  quiet_setQueue (hpending.trans (hinv.off q hoff).2.symm)

theorem FlushInv.scheduleForQueue (hf : FlushInv s h) (self n q : ℕ) (noWait : Bool) :
    FlushInv (s.scheduleForQueue self (.item n) q noWait).2
      (h.track s (s.scheduleForQueue self (.item n) q noWait).2 n) := by
  rw [State.scheduleForQueue]
  split
  · exact hf.submitToQueue ..
  · have hquiet : Quiet s (s.setWork (.item n) { s.works (.item n) with
        delayed := true, delayQueue := some q }) := quiet_setWork rfl rfl rfl
    rw [track_quiet h .rfl hquiet, track_self]
    exact hf.quiet hquiet

theorem FlushInv.flushDelayable (hf : FlushInv s h) (hinv : Inv s) (self n sync : ℕ)
    (stopped : Bool) : FlushInv (s.step (.flushDelayable self n sync stopped))
      (h.step s (.flushDelayable self n sync stopped)) := by
  rw [History.step, State.step, State.flushDelayable]
  split
  · rw [track_self]
    exact hf
  have hun := quiet_unschedule s n stopped
  have hinv' := hinv.unschedule n stopped
  split
  next t heq =>
    rw [heq] at hun hinv'
    have hsub := (hf.quiet hun).submitToQueue self n (t.works (.item n)).delayQueue
    have hinv'' := hinv'.submitToQueue self n (t.works (.item n)).delayQueue
    generalize (t.submitToQueue self (.item n) (t.works (.item n)).delayQueue).2 = u at hsub hinv''
    have hflush := hsub.workFlush hinv'' n sync
    have hqueued : ((u.workFlush (.item n) sync).2.works (.item n)).queued =
        (u.works (.item n)).queued := by
      rw [State.workFlush]
      split
      · split
        · rfl
        · rfl
      · rfl
    have htrack : h.track s (u.workFlush (.item n) sync).2 n = h.track t u n := by
      rw [History.track, History.track, hun.queued, hqueued]
    rw [htrack]
    exact hflush
  next t heq =>
    rw [heq] at hun hinv'
    have hflush := (hf.quiet hun).workFlush hinv' n sync
    have hqueued : ((t.workFlush (.item n) sync).2.works (.item n)).queued =
        (s.works (.item n)).queued := by
      rw [State.workFlush, ← hun.queued]
      split
      · split
        · rfl
        · rfl
      · rfl
    have htrack : h.track s (t.workFlush (.item n) sync).2 n = h := by
      rw [History.track, hqueued]
      cases (s.works (.item n)).queued <;> rfl
    rw [htrack]
    exact hflush

theorem FlushInv.step (hf : FlushInv s h) (hinv : Inv s) {e : Event} (hproper : s.Proper e) :
    FlushInv (s.step e) (h.step s e) := by
  cases e with
  | init n => exact hf.quiet (quiet_init hproper false)
  | initDelayable n => exact hf.quiet (quiet_init hproper true)
  | submit self queue n => exact hf.submitToQueue ..
  | flush n sync =>
    rw [History.step, State.step, State.flush]
    split
    · exact hf
    · exact hf.workFlush hinv n sync
  | cancel n =>
    rw [History.step, State.step, State.cancel]
    split
    · rwa [track_self]
    · exact hf.cancelAsync n
  | cancelSync n sync =>
    rw [History.step, State.step, State.cancelSync]
    split
    · rwa [track_self]
    split
    · have hquiet := quiet_cancelSyncLocked (s.cancelAsync (.item n)).2 n sync
      rw [track_quiet h .rfl hquiet]
      exact (hf.cancelAsync n).quiet hquiet
    · rwa [track_self]
  | schedule self q n noWait =>
    rw [History.step, State.step, State.schedule]
    split
    · exact hf.scheduleForQueue ..
    · rwa [track_self]
  | reschedule self q n noWait stopped =>
    have hun := quiet_unschedule s n stopped
    rw [History.step, State.step, State.reschedule, track_quiet h hun .rfl]
    exact (hf.quiet hun).scheduleForQueue ..
  | cancelDelayable n stopped =>
    have hun := quiet_unschedule s n stopped
    rw [History.step, State.step, State.cancelDelayable, track_quiet h hun .rfl]
    exact (hf.quiet hun).cancelAsync n
  | cancelDelayableSync n sync stopped =>
    have hun := quiet_unschedule s n stopped
    rw [History.step, State.step, State.cancelDelayableSync]
    split
    · have hquiet := quiet_cancelSyncLocked (s.cancelDelayable (.item n) stopped).2 n sync
      rw [track_quiet h hun hquiet]
      exact ((hf.quiet hun).cancelAsync n).quiet hquiet
    · rwa [track_self]
  | flushDelayable self n sync stopped => exact hf.flushDelayable hinv ..
  | workTimeout self n =>
    rw [History.step, State.step, State.workTimeout]
    split
    · have hquiet : Quiet s (s.setWork (.item n) { s.works (.item n) with delayed := false }) :=
        quiet_setWork rfl rfl rfl
      rw [track_quiet h hquiet .rfl]
      exact (hf.quiet hquiet).submitToQueue ..
    · rwa [track_self]
  | start q noYield =>
    change FlushInv (s.queueStart q noYield) h
    rw [State.queueStart]
    split
    · exact hf
    next hoff => exact hf.quiet (quiet_boot hinv (by simpa using hoff) rfl)
  | run self q noYield =>
    change FlushInv (s.queueRun self q noYield) h
    rw [State.queueRun]
    split
    · exact hf
    next hoff => exact hf.quiet (quiet_boot hinv (by simpa using hoff) rfl)
  | drain q plug =>
    change FlushInv ((s.queueDrain q plug).2) h
    rw [State.queueDrain]
    split
    · refine FlushInv.quiet ?_ (quiet_notify _ q)
      exact hf.quiet (quiet_setQueue rfl)
    · exact hf
  | drained q => exact hf.quiet (quiet_setQueue rfl)
  | unplug q => exact hf.quiet (quiet_setQueue rfl)
  | stop q =>
    change FlushInv ((s.queueStop q).2) h
    rw [State.queueStop]
    split
    · exact hf
    split
    · exact hf
    · refine FlushInv.quiet ?_ (quiet_notify _ q)
      exact hf.quiet (quiet_setQueue rfl)
  | stopTimedOut q => exact hf.quiet (quiet_setQueue rfl)
  | enter self q =>
    change FlushInv (s.enter self q) h
    rw [State.enter]
    split
    · exact hf.quiet (quiet_setQueue rfl)
    · exact hf
  | fetch q => exact hf.fetch hinv q
  | take q =>
    change FlushInv (s.take q) h
    rw [State.take]
    split
    · exact hf.quiet (quiet_setQueue rfl)
    · exact hf
  | finish q => exact hf.finish q
  | synced sync => exact hf.quiet ⟨fun _ => rfl, fun _ => rfl, fun _ _ => rfl, fun _ => rfl⟩

/-! ## The semaphore of a flusher -/

/-- What has to do with the callers' `struct bt_work_sync` is left alone. -/
structure KeepsSyncs (s s' : State) : Prop where
  sems : s'.sems = s.sems
  pending : s'.pendingCancels = s.pendingCancels
  flushing : ∀ f, (s'.works (.flusher f)).flushing = (s.works (.flusher f)).flushing

theorem KeepsSyncs.rfl : KeepsSyncs s s := ⟨.refl _, .refl _, fun _ => .refl _⟩

theorem KeepsSyncs.trans {s'' : State} (hk : KeepsSyncs s s') (hk' : KeepsSyncs s' s'') :
    KeepsSyncs s s'' :=
  ⟨hk'.sems.trans hk.sems, hk'.pending.trans hk.pending,
    fun f => (hk'.flushing f).trans (hk.flushing f)⟩

theorem keepsSyncs_setItem {v : Work} : KeepsSyncs s (s.setWork (.item n) v) :=
  ⟨.refl _, .refl _, fun _ => .refl _⟩

theorem keepsSyncs_setQueue {Q : Queue} : KeepsSyncs s (s.setQueue q Q) :=
  ⟨.refl _, .refl _, fun _ => .refl _⟩

/-- The changes that leave it alone. -/
def Kind.keepsSyncs : Kind → Bool
  | .flusher | .canceller | .sem | .finish => false
  | _ => true

theorem Change.keepsSyncs {c : Kind} (hc : Change s c s') (h : c.keepsSyncs = true) :
    KeepsSyncs s s' := by
  cases hc with
  | work hflushing =>
    refine ⟨rfl, rfl, fun f => ?_⟩
    rw [works_setWork]
    split
    next hw => rw [hw, hflushing]
    next => rfl
  | arm | init => exact keepsSyncs_setItem
  | less | go | drained | thread => exact keepsSyncs_setQueue
  | notified | drain => exact keepsSyncs_setQueue.trans keepsSyncs_setQueue
  | flusher | canceller | sem | finish => cases h

theorem Made.keepsSyncs {K : List Kind} (h : Made K s s')
    (hK : K.all Kind.keepsSyncs = true) : KeepsSyncs s s' :=
  h.rule hK .rfl .trans Change.keepsSyncs

/-- A flusher that has not run has no count, and no canceller of the same
`struct bt_work_sync` waits. -/
def Shut (s : State) : Prop :=
  ∀ sync, (s.works (.flusher sync)).flushing = true →
    s.sems sync = 0 ∧ ∀ p ∈ s.pendingCancels, p.1 ≠ sync

theorem Shut.keeps (hs : Shut s) (hk : KeepsSyncs s s') : Shut s' := by
  intro sync hflushing
  rw [hk.flushing] at hflushing
  rw [hk.sems, hk.pending]
  exact hs sync hflushing

theorem Shut.workFlush (hs : Shut s) (hfree : s.SyncFree sync) :
    Shut (s.workFlush (.item n) sync).2 := by
  rw [State.workFlush]
  split
  swap
  · exact hs
  split
  · exact hs
  next q hq =>
  intro sync' hflushing
  change update s.sems sync 0 sync' = 0 ∧ ∀ p ∈ s.pendingCancels, p.1 ≠ sync'
  by_cases hsync : sync' = sync
  · rw [hsync, update_self]
    exact ⟨rfl, hfree.2⟩
  · rw [update_of_ne hsync]
    refine hs sync' ?_
    change ((s.setWork (.flusher sync) { flushing := true }).works (.flusher sync')).flushing =
      true at hflushing
    rwa [works_setWork, if_neg fun heq => hsync (WorkId.flusher.inj heq)] at hflushing

theorem Shut.cancelSyncLocked (hs : Shut s) (hfree : (s.works (.flusher sync)).flushing = false)
    (n : ℕ) : Shut (s.cancelSyncLocked (.item n) sync).2 := by
  rw [State.cancelSyncLocked]
  split
  swap
  · exact hs
  intro sync' hflushing
  have hsync : sync' ≠ sync := by
    rintro rfl
    rw [hfree] at hflushing
    cases hflushing
  obtain ⟨hsems, hpending⟩ := hs sync' hflushing
  refine ⟨(update_of_ne hsync ..).trans hsems, fun p hp => ?_⟩
  obtain hp | hp := mem_append.mp hp
  · exact hpending p hp
  · obtain rfl := mem_singleton.mp hp
    exact hsync.symm

theorem Shut.giveSync (hs : Shut s) (hfree : (s.works (.flusher sync)).flushing = false) :
    Shut (s.giveSync sync) := by
  intro sync' hflushing
  have hsync : sync' ≠ sync := by
    rintro rfl
    exact absurd (hfree.symm.trans hflushing) Bool.false_ne_true
  obtain ⟨hsems, hpending⟩ := hs sync' hflushing
  exact ⟨(update_of_ne hsync ..).trans hsems, hpending⟩

theorem Shut.setWork (hs : Shut s) {v : Work}
    (hv : v.flushing = true → (s.works w).flushing = true) : Shut (s.setWork w v) := by
  intro sync hflushing
  rw [works_setWork] at hflushing
  split at hflushing
  next hw => exact hs sync (hw ▸ hv hflushing)
  next => exact hs sync hflushing

theorem Shut.finish (hs : Shut s) (q : ℕ) : Shut (s.finish q) := by
  cases hpc : (s.queues q).pc with
  | off | boot | loop | waiting => rwa [State.finish, hpc]
  | handler w =>
    rw [State.finish, hpc]
    dsimp only
    have hrun : Shut (s.setWork w { s.works w with running := false }) := hs.setWork id
    generalize s.setWork w { s.works w with running := false } = t at hrun ⊢
    suffices hend : Shut (if (t.works w).flushing then t.finalizeFlush w
        else if (t.works w).canceling then t.finalizeCancel w else t) from
      hend.keeps keepsSyncs_setQueue
    split
    · have hclear : Shut (t.setWork w { t.works w with flushing := false }) :=
        hrun.setWork fun h => Bool.noConfusion h
      cases w with
      | item n => exact hclear
      | flusher f => exact hclear.giveSync (by rw [works_setWork_self])
    split
    · have hclear : Shut (t.setWork w { t.works w with canceling := false }) := hrun.setWork id
      rw [State.finalizeCancel]
      dsimp only
      generalize t.setWork w { t.works w with canceling := false } = u at hclear ⊢
      split
      next sync v hfind =>
        have hmem := mem_of_find?_eq_some hfind
        have hnot : (u.works (.flusher sync)).flushing = false := by
          by_contra hno
          exact (hclear sync (by simpa using hno)).2 _ hmem rfl
        refine Shut.giveSync (fun sync' hflushing => ?_) hnot
        obtain ⟨hsems, hpending⟩ := hclear sync' hflushing
        exact ⟨hsems, fun p hp => hpending p (mem_of_mem_erase hp)⟩
      · exact hclear
    · exact hrun

theorem Shut.step (hs : Shut s) {e : Event} (hproper : s.Proper e) : Shut (s.step e) := by
  cases e with
  | flush n sync =>
    rw [State.step, State.flush]
    split
    · exact hs
    · exact hs.workFlush hproper
  | cancelSync n sync =>
    rw [State.step, State.cancelSync]
    split
    · exact hs
    split
    · have hk := (made_cancelAsync s (.item n)).keepsSyncs rfl
      refine (hs.keeps hk).cancelSyncLocked ?_ n
      rw [hk.flushing]
      exact hproper.1
    · exact hs
  | cancelDelayableSync n sync stopped =>
    rw [State.step, State.cancelDelayableSync]
    split
    · have hk := (made_cancelDelayable s (.item n) stopped).keepsSyncs rfl
      refine Shut.cancelSyncLocked (hs.keeps hk) ?_ n
      rw [hk.flushing]
      exact hproper.2.1
    · exact hs
  | flushDelayable self n sync stopped =>
    rw [State.step, State.flushDelayable]
    split
    · exact hs
    have hun := (made_unschedule s (.item n) stopped).keepsSyncs rfl
    split
    next t heq =>
      rw [heq] at hun
      have hsub := made_submitToQueue t self (.item n) (t.works (.item n)).delayQueue
      have hk := hun.trans (hsub.keepsSyncs rfl)
      refine (hs.keeps hk).workFlush ⟨(hk.flushing sync).trans hproper.2.1, ?_⟩
      rw [hk.pending]
      exact hproper.2.2
    next t heq =>
      rw [heq] at hun
      refine (hs.keeps hun).workFlush ⟨(hun.flushing sync).trans hproper.2.1, ?_⟩
      rw [hun.pending]
      exact hproper.2.2
  | finish q => exact hs.finish q
  | synced sync =>
    intro sync' hflushing
    obtain ⟨hsems, hpending⟩ := hs sync' hflushing
    refine ⟨?_, hpending⟩
    change update s.sems sync (s.sems sync - 1) sync' = 0
    rw [update_apply]
    split
    next hsync => rw [← hsync, hsems]
    next => exact hsems
  | schedule self q n noWait | reschedule self q n noWait =>
    refine hs.keeps ((step_made s _).keepsSyncs ?_)
    cases noWait <;> rfl
  | _ => exact hs.keeps ((step_made s _).keepsSyncs rfl)

/-! ## Runs -/

/-- What holds of every run. -/
structure Flushes.Good (f : Flushes) : Prop where
  inv : Inv f.state
  flush : FlushInv f.state f.history
  shut : Shut f.state

theorem Flushes.Good.step {f : Flushes} (hf : f.Good) {e : Event} (hproper : f.state.Proper e) :
    (f.step e).Good :=
  ⟨hf.inv.step e hproper, hf.flush.step hf.inv hproper, hf.shut.step hproper⟩

theorem Flushes.Good.not_live {f : Flushes} (hf : f.Good) {sync : ℕ}
    (hdone : (f.state.works (.flusher sync)).flushing = false) {i : ℕ × ℕ}
    (hi : i ∈ f.history.awaits sync) : ¬ f.history.Live f.state i.1 i.2 := by
  obtain ⟨home, hhome⟩ := (hf.inv.flusher sync).home
  have hnot : ∀ q, .flusher sync ∉ (f.state.queues q).pending := by
    intro q hmem
    have hcount := count_pos_iff.mpr hmem
    have hzero := hhome q
    rw [if_neg (by simp [hdone]), State.places] at hzero
    omega
  rintro (⟨hqueued, hk⟩ | ⟨hrun, hk⟩)
  · obtain ⟨q, -, hpair⟩ := hf.flush.queued sync i hi hqueued hk
    exact hnot q (hpair.subset (by simp))
  · obtain ⟨q, -, hmem⟩ := hf.flush.ran sync i hi hrun hk
    exact hnot q hmem

/-- **A flush waits for all that was there.** Once the flusher's semaphore
has a count, so that the flush can return, or its FLUSHING flag is clear,
every instance of its item that was queued or running when the flusher came
is neither any more: it has finished, or a cancel has removed it. -/
theorem flush_waits {es : List Event}
    (hrun : Along Flushes.step (fun f e => f.state.Proper e) {} es) (sync : ℕ) :
    let f := run Flushes.step {} es
    0 < f.state.sems sync ∨ (f.state.works (.flusher sync)).flushing = false →
      ∀ i ∈ f.history.awaits sync, ¬ f.history.Live f.state i.1 i.2 ∧
        (i ∈ f.history.finished ∨ i ∈ f.history.removed) := by
  have hstart : Flushes.Good {} :=
    ⟨inv_initial, ⟨nofun, fun _ => ⟨nofun, nofun⟩, nofun, nofun, nofun,
      fun n k h1 hk => absurd h1 (Nat.not_le.mpr (Nat.lt_succ_of_le hk))⟩, nofun⟩
  have hgood : (run Flushes.step {} es).Good :=
    inv_run Flushes.Good (fun f e hf he => hf.step he) hstart hrun
  intro f hdone i hi
  have hclear : (f.state.works (.flusher sync)).flushing = false := by
    obtain hcount | hclear := hdone
    · by_contra hno
      have hzero := (hgood.shut sync (by simpa using hno)).1
      exact absurd hzero (Nat.ne_of_gt hcount)
    · exact hclear
  have hdead := hgood.not_live hclear hi
  obtain ⟨h1, hle⟩ := hgood.flush.bound sync i hi
  exact ⟨hdead, (hgood.flush.fate i.1 i.2 h1 hle).resolve_left hdead⟩

/-- Item 3 runs, and is queued again, when a flush comes. -/
theorem flush_waits_sample :
    let f := run Flushes.step {} [.start 0 false, .enter 7 0, .submit 1 (some 0) 3, .fetch 0,
      .submit 1 (some 0) 3, .flush 3 5, .finish 0, .fetch 0, .finish 0, .fetch 0, .finish 0]
    f.state.sems 5 = 1 ∧ f.history.awaits 5 = [(3, 2), (3, 1)] ∧
      ∀ i ∈ f.history.awaits 5, ¬ f.history.Live f.state i.1 i.2 ∧
        (i ∈ f.history.finished ∨ i ∈ f.history.removed) := by
  refine ⟨by decide, by decide, flush_waits ?_ 5 (.inl (by decide))⟩
  decide

end Base

end OpenBlue

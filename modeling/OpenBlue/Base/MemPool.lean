import OpenBlue.Base.Model.MemPool
/-!
# Base — memory pools: the wait for a block

A thread that waits for a block holds the mutex, so no block is put back
while it waits: its pool stays empty, and the semaphore keeps the count it
was entered with. A token that the count has then was left by an earlier
`bt_mem_pool_free`, whose block is gone, and the thread fails its
assertion (`taken_block_iff`); without one it blocks every thread that
could give it one.
-/

namespace OpenBlue

namespace Base

namespace MemPool

open Function

variable {s : State} {t p : ℕ} {timeout : Timeout}

/-! ## What a step does -/

theorem Pool.pop_eq_none {m : Pool} : m.pop = none ↔ m.freeList = none := Option.map_eq_none_iff

theorem wait_push_le (m : Pool) (mem : ℕ) (h : m.wait ≤ 1) : (m.push mem).wait ≤ 1 := by
  simp only [Pool.push, semGive]
  split <;> omega

theorem wait_pop {m m' : Pool} {b : ℕ} (h : m.pop = some (b, m')) : m'.wait = m.wait := by
  obtain ⟨_, _, hb⟩ := Option.map_eq_some_iff.mp h
  cases hb
  rfl

/-- Whoever is in `os_sem_take` holds the mutex, and its pool is empty; no
count is above the limit. -/
structure State.Inv (s : State) : Prop where
  lock : ∀ t p timeout, s.pcs t = .taking p timeout → s.lock = some t
  empty : ∀ t p timeout, s.pcs t = .taking p timeout → (s.pools p).freeList = none
  wait : ∀ p, (s.pools p).wait ≤ 1

theorem wait_createLoop (n : ℕ) (m : Pool) : (createLoop n m).wait = m.wait := by
  induction n generalizing m with
  | zero => rfl
  | succ n ih => exact ih _

theorem inv_start (numBlocks : ℕ → ℕ) : (start numBlocks).Inv where
  lock := by intro t p timeout h; cases h
  empty := by intro t p timeout h; cases h
  wait := by
    intro p
    show (createLoop (numBlocks p) _).wait ≤ 1
    rw [wait_createLoop]
    exact Nat.zero_le 1

theorem State.Inv.alone (h : s.Inv) {t' p' : ℕ} {timeout' : Timeout}
    (ht : s.pcs t = .taking p timeout) (ht' : s.pcs t' = .taking p' timeout') : t' = t :=
  Option.some.inj ((h.lock t' p' timeout' ht').symm.trans (h.lock t p timeout ht))

theorem State.Inv.not_taking (h : s.Inv) (hl : s.lock = none) : s.pcs t ≠ .taking p timeout := by
  intro ht
  have := h.lock t p timeout ht
  simp [hl] at this

theorem alloc_cases (s : State) (t p : ℕ) (timeout : Timeout) :
    (∃ b m, (s.pools p).pop = some (b, m) ∧ (s.alloc t p timeout).2 = s.setPool p m) ∨
    ((s.pools p).freeList = none ∧ timeout = .noWait ∧ (s.alloc t p timeout).2 = s) ∨
    ((s.pools p).freeList = none ∧ timeout ≠ .noWait ∧
      (s.alloc t p timeout).2 = { s.setPc t (.taking p timeout) with lock := some t }) := by
  rw [State.alloc]
  cases hp : (s.pools p).pop with
  | some bm => exact Or.inl ⟨bm.1, bm.2, rfl, rfl⟩
  | none =>
    have hempty := Pool.pop_eq_none.mp hp
    by_cases htimeout : timeout = .noWait
    · exact Or.inr (Or.inl ⟨hempty, htimeout, by simp [htimeout]⟩)
    · exact Or.inr (Or.inr ⟨hempty, htimeout, by simp [htimeout]⟩)

/-- **A thread that gets a token while its pool is empty fails.** -/
theorem taken_of_empty (h : (s.pools p).freeList = none) :
    (s.taken t p).2 =
      (s.setPool p { s.pools p with wait := (s.pools p).wait - 1 }).setPc t (.failed p) := by
  have hpop : ({ s.pools p with wait := (s.pools p).wait - 1 } : Pool).pop = none :=
    Pool.pop_eq_none.mpr h
  rw [State.taken, hpop]

/-! ## The invariant -/

theorem State.Inv.setPool (h : s.Inv) (hl : s.lock = none) {m : Pool} (hm : m.wait ≤ 1) :
    (s.setPool p m).Inv where
  lock t' p' timeout' ht := absurd ht (h.not_taking hl)
  empty t' p' timeout' ht := absurd ht (h.not_taking hl)
  wait q := by
    by_cases hq : q = p
    · subst hq; simpa [State.setPool] using hm
    · simpa [State.setPool, hq] using h.wait q

theorem State.Inv.setPc (h : s.Inv) (ht : s.pcs t = .taking p timeout) {pools : ℕ → Pool}
    {lock : Option ℕ} {pc : Pc} (hpc : ∀ q timeout', pc ≠ .taking q timeout')
    (hw : ∀ q, (pools q).wait ≤ 1) : ({ lock, pools, pcs := update s.pcs t pc } : State).Inv := by
  have hnone : ∀ t' q timeout', update s.pcs t pc t' ≠ .taking q timeout' := by
    intro t' q timeout' ht'
    by_cases heq : t' = t
    · subst heq
      rw [update_self] at ht'
      exact hpc q timeout' ht'
    · rw [update_of_ne heq] at ht'
      exact heq (h.alone ht ht')
  exact ⟨fun t' q timeout' ht' => absurd ht' (hnone t' q timeout'),
    fun t' q timeout' ht' => absurd ht' (hnone t' q timeout'), hw⟩

/-- The step is a call that goes into `os_sem_take` with `n` tokens. -/
def State.WaitsAt (s : State) (n : ℕ) : Event → Prop
  | .alloc t p timeout => s.lock = none ∧ s.pcs t = .ready ∧ timeout ≠ .noWait ∧
      (s.pools p).freeList = none ∧ (s.pools p).wait = n
  | _ => False

/-- **What a step does**: it changes a pool while the mutex is free, a call
goes into `os_sem_take`, or the thread that is in it goes on. -/
theorem step_cases (h : s.Inv) (e : Event) :
    s.step e = s ∨
    (s.lock = none ∧ ∃ p m, m.wait ≤ 1 ∧ s.step e = s.setPool p m) ∨
    (∃ t p timeout, e = .alloc t p timeout ∧ s.WaitsAt (s.pools p).wait e ∧
      s.step e = { s.setPc t (.taking p timeout) with lock := some t }) ∨
    ∃ t p timeout, s.pcs t = .taking p timeout ∧ (0 < (s.pools p).wait ∧ s.step e = (s.setPool p
          { s.pools p with wait := (s.pools p).wait - 1 }).setPc t (.failed p) ∨
        s.step e = s.unlock t) := by
  cases e with
  | alloc t p timeout =>
    rw [State.step]
    split
    · next hgo =>
      rcases alloc_cases s t p timeout with ⟨b, m, hpop, hs⟩ | ⟨-, -, hs⟩ | ⟨hempty, hwait, hs⟩
      · exact .inr (.inl ⟨hgo.1, p, m, wait_pop hpop ▸ h.wait p, hs⟩)
      · exact .inl hs
      · exact .inr (.inr (.inl ⟨t, p, timeout, rfl, ⟨hgo.1, hgo.2, hwait, hempty, rfl⟩, hs⟩))
    · exact .inl rfl
  | taken t =>
    rw [State.step]
    split
    · next p timeout ht =>
      split
      · next htoken =>
        have hs := taken_of_empty (t := t) (h.empty t p timeout ht)
        exact .inr (.inr (.inr ⟨t, p, timeout, ht, .inl ⟨htoken, hs⟩⟩))
      · exact .inl rfl
    · exact .inl rfl
  | expired t =>
    rw [State.step]
    split
    · next p ht =>
      split
      · exact .inr (.inr (.inr ⟨t, p, .ms, ht, .inr rfl⟩))
      · exact .inl rfl
    · exact .inl rfl
  | free p mem =>
    rw [State.step]
    split
    · next hl => exact .inr (.inl ⟨hl, p, _, wait_push_le _ mem (h.wait p), rfl⟩)
    · exact .inl rfl

theorem inv_step (s : State) (e : Event) (h : s.Inv) : (s.step e).Inv := by
  rcases step_cases h e with hs | ⟨hl, p, m, hm, hs⟩ | ⟨t, p, timeout, rfl, hw, hs⟩ |
    ⟨t, p, timeout, ht, ⟨-, hs⟩ | hs⟩ <;> rw [hs]
  · exact h
  · exact h.setPool hl hm
  · obtain ⟨hl, -, -, hempty, -⟩ := hw
    have honly : ∀ t' q timeout', update s.pcs t (.taking p timeout) t' =
        .taking q timeout' → t' = t ∧ q = p := by
      intro t' q timeout' ht'
      by_cases heq : t' = t
      · subst heq
        rw [update_self] at ht'
        cases ht'
        exact ⟨rfl, rfl⟩
      · rw [update_of_ne heq] at ht'
        exact absurd ht' (h.not_taking hl)
    exact {
      lock := fun t' q timeout' ht' => congrArg some (honly t' q timeout' ht').1.symm
      empty := fun t' q timeout' ht' => by rw [(honly t' q timeout' ht').2]; exact hempty
      wait := h.wait }
  · refine h.setPc ht (fun _ _ => Pc.noConfusion) fun q => ?_
    by_cases hq : q = p
    · subst hq
      have := h.wait q
      simp only [State.setPool, update_self]
      omega
    · simpa [State.setPool, hq] using h.wait q
  · exact h.setPc ht (fun _ _ => Pc.noConfusion) h.wait

/-! ## Who is in `os_sem_take` -/

theorem step_alloc_of_waits {n : ℕ} (h : s.WaitsAt n (.alloc t p timeout)) :
    s.step (.alloc t p timeout) = { s.setPc t (.taking p timeout) with lock := some t } := by
  obtain ⟨hl, hpc, htimeout, hempty, -⟩ := h
  rw [State.step, if_pos ⟨hl, hpc⟩]
  rcases alloc_cases s t p timeout with ⟨b, m, hpop, -⟩ | ⟨-, hno, -⟩ | ⟨-, -, hs⟩
  · rw [Pool.pop_eq_none.mpr hempty] at hpop
    cases hpop
  · exact absurd hno htimeout
  · exact hs

/-- **A thread in `os_sem_take` has just gone into it, or nothing has
happened.** -/
theorem step_taking (h : s.Inv) {e : Event} (ht : (s.step e).pcs t = .taking p timeout) :
    s.step e = s ∨ ∃ n, e = .alloc t p timeout ∧ s.WaitsAt n e ∧ (s.step e).pools = s.pools := by
  rcases step_cases h e with hs | ⟨hl, p', m, -, hs⟩ | ⟨t', p', timeout', rfl, hw, hs⟩ |
    ⟨t', p', timeout', ht', hs⟩
  · exact .inl hs
  · rw [hs] at ht
    exact absurd ht (h.not_taking hl)
  · rw [hs] at ht
    obtain rfl : t = t' := by
      by_contra hne
      exact h.not_taking hw.1 ((update_of_ne hne _ _).symm.trans ht)
    cases (update_self t _ _).symm.trans ht
    exact .inr ⟨_, rfl, hw, by rw [hs]; rfl⟩
  · -- the thread that was in it has gone on, and there is no other
    rcases hs with ⟨-, hs⟩ | hs
    all_goals
      rw [hs] at ht
      by_cases heq : t = t'
      · subst heq
        cases (update_self t _ _).symm.trans ht
      · exact absurd (h.alone ht' ((update_of_ne heq _ _).symm.trans ht)) heq

theorem step_failed (h : s.Inv) {e : Event} (ht : (s.step e).pcs t = .failed p) :
    s.pcs t = .failed p ∨ ∃ timeout, s.pcs t = .taking p timeout ∧ 0 < (s.pools p).wait := by
  rcases step_cases h e with hs | ⟨-, p', m, -, hs⟩ | ⟨t', p', timeout', rfl, -, hs⟩ |
    ⟨t', p', timeout', ht', ⟨htoken, hs⟩ | hs⟩ <;> rw [hs] at ht
  · exact .inl ht
  · exact .inl ht
  all_goals
    by_cases heq : t = t'
    · subst heq
      cases (update_self t _ _).symm.trans ht
      try exact .inr ⟨timeout', ht', htoken⟩
    · exact .inl ((update_of_ne heq _ _).symm.trans ht)

/-! ## The token of an earlier block -/

/-- Every success of `os_sem_take` comes with a block, and no thread has
failed its assertion. -/
structure State.FindsBlock (s : State) : Prop where
  taking : ∀ t p timeout, s.pcs t = .taking p timeout → 0 < (s.pools p).wait →
    (s.pools p).freeList ≠ none
  failed : ∀ t p, s.pcs t ≠ .failed p

theorem findsBlock_step (h : s.Inv) (hs : s.FindsBlock) (e : Event) :
    (s.step e).FindsBlock ↔ ¬ s.WaitsAt 1 e := by
  constructor
  · intro hnext hwait
    cases e with
    | alloc t p timeout =>
      have hstep := step_alloc_of_waits hwait
      obtain ⟨-, -, -, hempty, htoken⟩ := hwait
      refine hnext.taking t p timeout ?_ ?_ ?_
      · rw [hstep]
        exact update_self t _ _
      · rw [hstep]
        show 0 < (s.pools p).wait
        omega
      · rw [hstep]
        exact hempty
    | _ => exact hwait
  · intro hwait
    refine ⟨fun t p timeout ht htoken => ?_, fun t p hfail => ?_⟩
    · rcases step_taking h ht with hsame | ⟨n, rfl, hn, hpools⟩
      · rw [hsame] at ht htoken ⊢
        exact hs.taking t p timeout ht htoken
      · rw [hpools] at htoken
        obtain ⟨hl, hpc, htimeout, hempty, -⟩ := hn
        have hle := h.wait p
        exact absurd ⟨hl, hpc, htimeout, hempty, by omega⟩ hwait
    · rcases step_failed h hfail with hold | ⟨timeout, ht, htoken⟩
      · exact hs.failed t p hold
      · exact hs.taking t p timeout ht htoken (h.empty t p timeout ht)

/-- **A token always comes with a block exactly in the runs where no thread
goes into `os_sem_take` with a token left over.** -/
theorem taken_block_iff (numBlocks : ℕ → ℕ) (es : List Event) :
    (∀ es', es' <+: es → (run State.step (start numBlocks) es').FindsBlock) ↔
      Along State.step (fun s e => ¬ s.WaitsAt 1 e) (start numBlocks) es :=
  prefix_iff_along State.Inv State.FindsBlock inv_step (fun _ e h hs => findsBlock_step h hs e)
    (inv_start numBlocks) ⟨fun _ _ _ ht => (nomatch ht), fun _ _ ht => (nomatch ht)⟩ es

/-- **A token without a block**: the one block is taken, put back and taken
again, and the next thread that waits for it gets the token of the time
between. -/
theorem taken_no_block :
    let s := run State.step (start fun _ => 1)
      [.alloc 0 0 .noWait, .free 0 0, .alloc 0 0 .noWait, .alloc 1 0 .forever]
    (s.pcs 1 = .taking 0 .forever ∧ (s.pools 0).wait = 1 ∧ (s.pools 0).freeList = none) ∧
      (s.step (.taken 1)).pcs 1 = .failed 0 := by
  decide

/-! ## The wait itself -/

/-- The thread is in `os_sem_take` without a token, and holds the mutex. -/
def State.Deadlocked (s : State) (t p : ℕ) : Prop :=
  (∃ timeout, s.pcs t = .taking p timeout) ∧ (s.pools p).wait = 0 ∧ s.lock = some t

theorem deadlocked_step (h : s.Inv) (hs : ∀ t p, ¬ s.Deadlocked t p) (e : Event) :
    (∀ t p, ¬ (s.step e).Deadlocked t p) ↔ ¬ s.WaitsAt 0 e := by
  constructor
  · intro hnext hwait
    cases e with
    | alloc t p timeout =>
      have hstep := step_alloc_of_waits hwait
      refine hnext t p ⟨⟨timeout, ?_⟩, ?_, ?_⟩
      · rw [hstep]
        exact update_self t _ _
      · rw [hstep]
        exact hwait.2.2.2.2
      · rw [hstep]
    | _ => exact hwait
  · rintro hwait t p ⟨⟨timeout, ht⟩, htoken, hl⟩
    rcases step_taking h ht with hsame | ⟨n, rfl, hn, hpools⟩
    · rw [hsame] at ht htoken hl
      exact hs t p ⟨⟨timeout, ht⟩, htoken, hl⟩
    · rw [hpools] at htoken
      obtain ⟨hfree, hpc, htimeout, hempty, -⟩ := hn
      exact hwait ⟨hfree, hpc, htimeout, hempty, htoken⟩

theorem no_deadlock_iff (numBlocks : ℕ → ℕ) (es : List Event) :
    (∀ es', es' <+: es → ∀ t p, ¬ (run State.step (start numBlocks) es').Deadlocked t p) ↔
      Along State.step (fun s e => ¬ s.WaitsAt 0 e) (start numBlocks) es :=
  prefix_iff_along State.Inv (fun s => ∀ t p, ¬ s.Deadlocked t p) inv_step
    (fun _ e h hs => deadlocked_step h hs e) (inv_start numBlocks)
    (fun _ _ hd => nomatch hd.2.2) es

end MemPool

end Base

end OpenBlue

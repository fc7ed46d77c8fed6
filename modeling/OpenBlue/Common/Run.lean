import Mathlib.Algebra.Order.Ring.Int
import Mathlib.Data.List.Basic
import Mathlib.Data.List.Pairwise
import Mathlib.Data.Prod.Lex
/-!
# Runs of a state machine

A run takes a list of events, one `step` at a time. This file holds what
every component's argument over whole runs rests on: a guard met at each
step of a run (`Along`), the invariant rule (`inv_run`), the outputs a
run emits (`emitted`), and the stamp rule (`emitted_pairwise`): outputs
that never run behind a clock, and move it on, come in increasing order.
-/

namespace OpenBlue

open List

variable {σ ε κ ω : Type*}

/-- The state a run ends in. -/
def run (step : σ → ε → σ) (s : σ) (es : List ε) : σ := es.foldl step s

/-- Every event of the run meets the guard in the state it is taken in. -/
def Along (step : σ → ε → σ) (Ok : σ → ε → Prop) : σ → List ε → Prop
  | _, [] => True
  | s, e :: es => Ok s e ∧ Along step Ok (step s e) es

/-- What the steps of a run put out, in order. -/
def emitted (step : σ → ε → σ) (emit : σ → ε → List ω) : σ → List ε → List ω
  | _, [] => []
  | s, e :: es => emit s e ++ emitted step emit (step s e) es

theorem foldl_rel {R : σ → σ → Prop} {f : σ → κ → σ} (hrefl : ∀ s, R s s)
    (htrans : ∀ {s s' t}, R s s' → R s' t → R s t) (h : ∀ s a, R s (f s a)) (l : List κ) (s : σ) :
    R s (l.foldl f s) := by
  induction l generalizing s with
  | nil => exact hrefl s
  | cons a l ih => exact htrans (h s a) (ih _)

variable {step : σ → ε → σ} {Ok : σ → ε → Prop} {s : σ} {es : List ε}

@[simp] theorem run_nil : run step s [] = s := rfl

@[simp] theorem run_cons (e : ε) : run step s (e :: es) = run step (step s e) es := rfl

theorem run_append (es₁ es₂ : List ε) :
    run step s (es₁ ++ es₂) = run step (run step s es₁) es₂ := by
  simp [run]

@[simp] theorem along_nil : Along step Ok s [] := trivial

@[simp] theorem along_cons (e : ε) :
    Along step Ok s (e :: es) ↔ Ok s e ∧ Along step Ok (step s e) es := Iff.rfl

instance Along.decidable [∀ s e, Decidable (Ok s e)] :
    ∀ (s : σ) (es : List ε), Decidable (Along step Ok s es)
  | _, [] => .isTrue trivial
  | s, e :: es => @instDecidableAnd _ _ _ (Along.decidable (step s e) es)

@[simp] theorem emitted_nil (emit : σ → ε → List ω) : emitted step emit s [] = [] := rfl

@[simp] theorem emitted_cons (emit : σ → ε → List ω) (e : ε) :
    emitted step emit s (e :: es) = emit s e ++ emitted step emit (step s e) es := rfl

theorem emitted_append (emit : σ → ε → List ω) (es₁ es₂ : List ε) :
    emitted step emit s (es₁ ++ es₂) =
      emitted step emit s es₁ ++ emitted step emit (run step s es₁) es₂ := by
  induction es₁ generalizing s with
  | nil => rfl
  | cons e es₁ ih => simp [ih]

theorem along_mono {Ok' : σ → ε → Prop} (h : ∀ s e, Ok s e → Ok' s e)
    (hrun : Along step Ok s es) : Along step Ok' s es := by
  induction es generalizing s with
  | nil => trivial
  | cons e es ih => exact ⟨h s e hrun.1, ih hrun.2⟩

theorem along_and {Ok' : σ → ε → Prop} : Along step (fun s e => Ok s e ∧ Ok' s e) s es ↔
      Along step Ok s es ∧ Along step Ok' s es := by
  induction es generalizing s with
  | nil => simp
  | cons e es ih =>
    simp only [along_cons, ih]
    exact and_and_and_comm

theorem along_of_forall (h : ∀ s e, Ok s e) (s : σ) (es : List ε) : Along step Ok s es := by
  induction es generalizing s with
  | nil => trivial
  | cons e es ih => exact ⟨h s e, ih _⟩

/-- **The invariant rule.** What a guarded step preserves holds at the
end of every guarded run. -/
theorem inv_run (Inv : σ → Prop) (hstep : ∀ s e, Inv s → Ok s e → Inv (step s e))
    (hs : Inv s) (hrun : Along step Ok s es) : Inv (run step s es) := by
  induction es generalizing s with
  | nil => exact hs
  | cons e es ih => exact ih (hstep s e hs hrun.1) hrun.2

theorem inv_along (Inv : σ → Prop) {P : σ → ε → Prop}
    (hstep : ∀ s e, Inv s → Ok s e → Inv (step s e) ∧ P s e)
    (hs : Inv s) (hrun : Along step Ok s es) : Along step P s es := by
  induction es generalizing s with
  | nil => trivial
  | cons e es ih =>
    obtain ⟨hinv, hp⟩ := hstep s e hs hrun.1
    exact ⟨hp, ih hinv hrun.2⟩

theorem inv_run_of_forall (Inv : σ → Prop) (hstep : ∀ s e, Inv s → Inv (step s e))
    (hs : Inv s) (es : List ε) : Inv (run step s es) :=
  inv_run Inv (fun s e h _ => hstep s e h) hs (along_of_forall (fun _ _ => trivial) s es)

/-- **The log rule.** What every guarded step preserves of the state and
the outputs so far holds of the whole run and what it emits. -/
theorem log_run (emit : σ → ε → List ω) (Inv : σ → List ω → Prop)
    (hstep : ∀ s e log, Inv s log → Ok s e → Inv (step s e) (log ++ emit s e)) {log : List ω}
    (hs : Inv s log) (hrun : Along step Ok s es) :
    Inv (run step s es) (log ++ emitted step emit s es) := by
  induction es generalizing s log with
  | nil => simpa using hs
  | cons e es ih =>
    rw [emitted_cons, ← append_assoc]
    exact ih (hstep s e log hs hrun.1) hrun.2

/-- **The guarantee rule.** What each guarded step does, given what the
run has kept of the state and the outputs so far, it does along the run. -/
theorem log_along (emit : σ → ε → List ω) (Inv : σ → List ω → Prop) {P : σ → ε → Prop}
    (hstep : ∀ s e log, Inv s log → Ok s e → Inv (step s e) (log ++ emit s e) ∧ P s e)
    {log : List ω} (hs : Inv s log) (hrun : Along step Ok s es) : Along step P s es := by
  induction es generalizing s log with
  | nil => trivial
  | cons e es ih =>
    obtain ⟨hinv, hp⟩ := hstep s e log hs hrun.1
    exact ⟨hp, ih hinv hrun.2⟩

/-- **The simulation rule.** Two machines that take related states to
related states under the guard of the second, and put out the same on the
way, put out the same along guarded runs. -/
theorem emitted_eq_of_sim {τ : Type*} {step' : τ → ε → τ} {emit : σ → ε → List ω}
    {emit' : τ → ε → List ω} {Ok' : τ → ε → Prop} (R : σ → τ → Prop)
    (hstep : ∀ s t e, R s t → Ok' t e → emit s e = emit' t e ∧ R (step s e) (step' t e))
    {t : τ} (hst : R s t) (hrun : Along step' Ok' t es) :
    emitted step emit s es = emitted step' emit' t es ∧ R (run step s es) (run step' t es) := by
  induction es generalizing s t with
  | nil => exact ⟨rfl, hst⟩
  | cons e es ih =>
    obtain ⟨hemit, hnext⟩ := hstep s t e hst hrun.1
    obtain ⟨hrest, hend⟩ := ih hnext hrun.2
    exact ⟨by rw [emitted_cons, emitted_cons, hemit, hrest], hend⟩

theorem emitted_events (s : σ) (es : List ε) : emitted step (fun _ e => [e]) s es = es := by
  induction es generalizing s with
  | nil => rfl
  | cons e es ih => rw [emitted_cons, ih, singleton_append]

theorem forall_mem_emitted {emit : σ → ε → List ω} {P : ω → Prop}
    (h : ∀ s e, ∀ o ∈ emit s e, P o) (s : σ) (es : List ε) : ∀ o ∈ emitted step emit s es, P o := by
  induction es generalizing s with
  | nil => exact fun o ho => absurd ho not_mem_nil
  | cons e es ih =>
    intro o ho
    rcases mem_append.1 ho with ho | ho
    · exact h s e o ho
    · exact ih _ o ho

/-- **The history rule.** What every step preserves of the state and the
events so far holds at the end of every run. -/
theorem history_run (Inv : σ → List ε → Prop)
    (hstep : ∀ s e history, Inv s history → Inv (step s e) (history ++ [e])) (hs : Inv s [])
    (es : List ε) : Inv (run step s es) es := by
  have h := log_run (fun _ e => [e]) Inv (fun s e log h _ => hstep s e log h) hs
    (along_of_forall (fun _ _ => (trivial : True)) s es)
  rwa [nil_append, emitted_events] at h

theorem along_of_mem {P : ε → Prop} (h : ∀ e ∈ es, P e) (s : σ) :
    Along step (fun _ e => P e) s es := by
  induction es generalizing s with
  | nil => trivial
  | cons e es ih => exact ⟨h e (by simp), ih (fun e' he' => h e' (by simp [he'])) _⟩

/-- **The prefix rule.** Where a step keeps a property, and does what it
should, exactly when it meets the guard, the property holds throughout a run
whose steps do what they should exactly when the guard is met along it. -/
theorem prefix_along_iff (Inv P : σ → Prop) (Q : σ → ε → Prop)
    (hinv : ∀ s e, Inv s → Inv (step s e))
    (hstep : ∀ s e, Inv s → P s → (P (step s e) ∧ Q s e ↔ Ok s e)) (hs : Inv s) (hp : P s)
    (es : List ε) :
    (∀ es', es' <+: es → P (run step s es')) ∧ Along step Q s es ↔ Along step Ok s es := by
  induction es generalizing s with
  | nil =>
    refine iff_of_true ⟨fun es' hes' => ?_, trivial⟩ trivial
    rwa [prefix_nil.1 hes']
  | cons e es ih =>
    rw [along_cons, along_cons, ← hstep s e hs hp]
    constructor
    · rintro ⟨h, hq, hqs⟩
      have hnext : P (step s e) := h [e] (prefix_append [e] es)
      refine ⟨⟨hnext, hq⟩, (ih (hinv s e hs) hnext).1 ⟨fun es' hes' => ?_, hqs⟩⟩
      exact h (e :: es') (cons_prefix_cons.2 ⟨rfl, hes'⟩)
    · rintro ⟨⟨hnext, hq⟩, hrest⟩
      obtain ⟨htail, hqs⟩ := (ih (hinv s e hs) hnext).2 hrest
      refine ⟨fun es' hes' => ?_, hq, hqs⟩
      cases es' with
      | nil => exact hp
      | cons e' es' =>
        obtain ⟨rfl, hes''⟩ := cons_prefix_cons.1 hes'
        exact htail es' hes''

theorem prefix_iff_along (Inv P : σ → Prop) (hinv : ∀ s e, Inv s → Inv (step s e))
    (hstep : ∀ s e, Inv s → P s → (P (step s e) ↔ Ok s e)) (hs : Inv s) (hp : P s)
    (es : List ε) : (∀ es', es' <+: es → P (run step s es')) ↔ Along step Ok s es := by
  rw [← prefix_along_iff Inv P (fun _ _ => True) hinv
    (fun s e hs hp => by rw [and_true]; exact hstep s e hs hp) hs hp es]
  exact (and_iff_left (along_of_forall (fun _ _ => trivial) s es)).symm

theorem log_prefix_iff_along (emit : σ → ε → List ω) (Inv : σ → Prop) (P : σ → List ω → Prop)
    (hinv : ∀ s e, Inv s → Inv (step s e))
    (hstep : ∀ s e log, Inv s → P s log → (P (step s e) (log ++ emit s e) ↔ Ok s e))
    {log : List ω} (hs : Inv s) (hp : P s log) (es : List ε) :
    (∀ es', es' <+: es → P (run step s es') (log ++ emitted step emit s es')) ↔
      Along step Ok s es := by
  induction es generalizing s log with
  | nil =>
    refine iff_of_true (fun es' hes' => ?_) trivial
    rw [prefix_nil.1 hes']
    simpa using hp
  | cons e es ih =>
    rw [along_cons]
    constructor
    · intro h
      have hnext : P (step s e) (log ++ emit s e) := by
        simpa using h [e] (prefix_append [e] es)
      refine ⟨(hstep s e log hs hp).1 hnext, (ih (hinv s e hs) hnext).1 fun es' hes' => ?_⟩
      have hlonger := h (e :: es') (cons_prefix_cons.2 ⟨rfl, hes'⟩)
      rwa [run_cons, emitted_cons, ← append_assoc] at hlonger
    · rintro ⟨hok, hrest⟩ es' hes'
      cases es' with
      | nil => simpa using hp
      | cons e' es' =>
        obtain ⟨rfl, hes''⟩ := cons_prefix_cons.1 hes'
        rw [run_cons, emitted_cons, ← append_assoc]
        exact (ih (hinv s e' hs) ((hstep s e' log hs hp).2 hok)).2 hrest es' hes''

section Stamps

variable [Preorder κ] (Inv : σ → Prop) (clock : σ → κ) {emit : σ → ε → List ω} (stamp : ω → κ)

theorem clock_le_run (hstep : ∀ s e, Inv s → Ok s e → Inv (step s e))
    (hmono : ∀ s e, Inv s → Ok s e → clock s ≤ clock (step s e))
    (hs : Inv s) (hrun : Along step Ok s es) : clock s ≤ clock (run step s es) := by
  induction es generalizing s with
  | nil => exact le_rfl
  | cons e es ih =>
    exact le_trans (hmono s e hs hrun.1) (ih (hstep s e hs hrun.1) hrun.2)

theorem clock_le_run_of_forall (hmono : ∀ s e, clock s ≤ clock (step s e)) (s : σ)
    (es : List ε) : clock s ≤ clock (run step s es) :=
  clock_le_run (fun _ => True) clock (fun _ _ _ _ => trivial) (fun s e _ _ => hmono s e) trivial
    (along_of_forall (fun _ _ => trivial) s es)

theorem clock_le_of_mem_emitted (hstep : ∀ s e, Inv s → Ok s e → Inv (step s e))
    (hmono : ∀ s e, Inv s → Ok s e → clock s ≤ clock (step s e))
    (hemit : ∀ s e, Inv s → Ok s e → ∀ o ∈ emit s e, clock s ≤ stamp o)
    (hs : Inv s) (hrun : Along step Ok s es) {o : ω} (ho : o ∈ emitted step emit s es) :
    clock s ≤ stamp o := by
  induction es generalizing s with
  | nil => simp at ho
  | cons e es ih =>
    rw [emitted_cons, mem_append] at ho
    rcases ho with ho | ho
    · exact hemit s e hs hrun.1 o ho
    · exact le_trans (hmono s e hs hrun.1) (ih (hstep s e hs hrun.1) hrun.2 ho)

/-- **The stamp rule.** Where each step's outputs are stamped in
increasing order, from the clock on and below the clock it leaves, the
outputs of the whole run are. -/
theorem emitted_pairwise (hstep : ∀ s e, Inv s → Ok s e → Inv (step s e))
    (hmono : ∀ s e, Inv s → Ok s e → clock s ≤ clock (step s e)) (hemit : ∀ s e, Inv s → Ok s e →
      ∀ o ∈ emit s e, clock s ≤ stamp o ∧ stamp o < clock (step s e))
    (hpair : ∀ s e, Inv s → Ok s e → (emit s e).Pairwise (stamp · < stamp ·))
    (hs : Inv s) (hrun : Along step Ok s es) :
    (emitted step emit s es).Pairwise (stamp · < stamp ·) := by
  induction es generalizing s with
  | nil => exact List.Pairwise.nil
  | cons e es ih =>
    have hs' : Inv (step s e) := hstep s e hs hrun.1
    rw [emitted_cons, pairwise_append]
    refine ⟨hpair s e hs hrun.1, ih hs' hrun.2, fun a ha b hb => ?_⟩
    exact lt_of_lt_of_le (hemit s e hs hrun.1 a ha).2
      (clock_le_of_mem_emitted Inv clock stamp hstep hmono
        (fun s e hs h o ho => (hemit s e hs h o ho).1) hs' hrun.2 hb)

end Stamps

end OpenBlue

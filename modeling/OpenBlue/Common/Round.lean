import Mathlib.Algebra.Order.Ring.Int
import Mathlib.Data.List.Chain
import Mathlib.Data.List.Nodup
/-!
# Circular lists

Where every element has a successor, following successors may come back to
where it began. This file has such rounds and what exchanging the successors
of two elements does to them: two rounds become one (`Round.join`), and where
one is the successor of the other's round it is cut off (`Round.cut`). A
structure whose rounds are the classes of a relation keeps this when a pair is
added and the two are joined, or were together already.
-/

namespace OpenBlue

open List

open Relation (EqvGen)

variable {α : Type*} {succ succ' : α → α} {x y a b : α} {l la lb before after : List α}
  {r : α → α → Prop}

/-- From `x` the successors are those of `l`, each once, and then `x`
again. -/
structure Round (succ : α → α) (x : α) (l : List α) : Prop where
  chain : List.IsChain (fun y z => succ y = z) ((x :: l) ++ [x])
  nodup : (x :: l).Nodup

theorem isChain_succ_congr (h : List.IsChain (fun y z => succ y = z) (l ++ [y]))
    (heq : ∀ z ∈ l, succ' z = succ z) : List.IsChain (fun y z => succ' y = z) (l ++ [y]) := by
  induction l with
  | nil => exact isChain_singleton y
  | cons z l ih =>
    rw [cons_append, isChain_cons] at h ⊢
    refine ⟨fun w hw => ?_, ih h.2 fun w hw => heq w (mem_cons_of_mem z hw)⟩
    rw [heq z mem_cons_self]
    exact h.1 w hw

theorem Round.congr (h : Round succ x l) (heq : ∀ y ∈ x :: l, succ' y = succ y) : Round succ' x l :=
  ⟨isChain_succ_congr h.chain heq, h.nodup⟩

/-- **A round begins anywhere.** -/
theorem Round.rotate (h : Round succ x (before ++ y :: after)) :
    Round succ y (after ++ x :: before) := by
  have hchain := h.chain
  have hnodup := h.nodup
  constructor
  · have hassoc : (x :: (before ++ y :: after)) ++ [x] = (x :: before) ++ y :: (after ++ [x]) := by
      simp
    have hgoal : (y :: (after ++ x :: before)) ++ [y] = (y :: after) ++ x :: (before ++ [y]) := by
      simp
    rw [hassoc, isChain_split] at hchain
    rw [hgoal, isChain_split]
    exact ⟨hchain.2, hchain.1⟩
  · have hperm : ((x :: before) ++ y :: after).Perm ((y :: after) ++ x :: before) :=
      perm_append_comm
    exact hperm.nodup_iff.1 hnodup

theorem Round.exists_of_mem (h : Round succ x l) (hy : y ∈ x :: l) :
    ∃ l', Round succ y l' ∧ ∀ z, z ∈ y :: l' ↔ z ∈ x :: l := by
  rcases mem_cons.1 hy with rfl | hy
  · exact ⟨l, h, fun z => Iff.rfl⟩
  · obtain ⟨before, after, rfl⟩ := append_of_mem hy
    refine ⟨after ++ x :: before, h.rotate, fun z => ?_⟩
    simp only [mem_cons, mem_append]
    tauto

theorem Round.succ_last (h : Round succ a (l ++ [b])) : succ b = a := by
  have hassoc : (a :: (l ++ [b])) ++ [a] = (a :: l) ++ b :: [a] := by simp
  have hchain := h.chain
  rw [hassoc, isChain_split] at hchain
  exact (isChain_cons_cons.1 hchain.2).1

theorem Round.succ_mem (h : Round succ x l) : succ x ∈ x :: l := by
  cases l with
  | nil =>
    have hself : succ x = x := (isChain_cons_cons.1 h.chain).1
    rw [hself]
    exact mem_cons_self
  | cons y l =>
    have hfirst : succ x = y := (isChain_cons_cons.1 h.chain).1
    rw [hfirst]
    exact mem_cons_of_mem x mem_cons_self

theorem Round.succ_ne (h : Round succ a la) (hb : b ∈ (a :: la).dropLast) : succ b ≠ a := by
  obtain ⟨before, rest, hsplit⟩ := append_of_mem hb
  have hall : a :: la = before ++ b :: (rest ++ [(a :: la).getLast (cons_ne_nil a la)]) := by
    have hlast := dropLast_append_getLast (cons_ne_nil a la)
    rw [hsplit, append_assoc, cons_append] at hlast
    exact hlast.symm
  obtain ⟨c, after, hc⟩ : ∃ c after,
      rest ++ [(a :: la).getLast (cons_ne_nil a la)] = c :: after := by
    cases rest with
    | nil => exact ⟨_, [], rfl⟩
    | cons c rest => exact ⟨c, _, rfl⟩
  rw [hc] at hall
  have hchain := h.chain
  rw [hall, append_assoc, cons_append, cons_append, isChain_append_cons_cons] at hchain
  have hcla : c ∈ la := by
    cases before with
    | nil =>
      rw [(List.cons.inj hall).2]
      exact mem_cons_self
    | cons p before =>
      rw [(List.cons.inj hall).2]
      simp
  rw [hchain.2.1]
  exact fun heq => (nodup_cons.1 h.nodup).1 (heq ▸ hcla)

theorem Round.eq_nil (h : Round succ x l) (hself : succ x = x) : l = [] := by
  cases l with
  | nil => rfl
  | cons y l =>
    have hfirst : succ x = y := (isChain_cons_cons.1 h.chain).1
    have hnotin := (nodup_cons.1 h.nodup).1
    rw [← hfirst, hself] at hnotin
    exact absurd mem_cons_self hnotin

/-! ## Exchanging two successors -/

/-- The successors of `a` and `b` are exchanged, the others left. -/
structure Exchanged (succ succ' : α → α) (a b : α) : Prop where
  left : succ' a = succ b
  right : succ' b = succ a
  other : ∀ x, x ≠ a → x ≠ b → succ' x = succ x

theorem Exchanged.isChain (h : Exchanged succ succ' a b)
    (hchain : List.IsChain (fun y z => succ y = z) ((b :: l) ++ [y])) (ha : a ∉ l) (hb : b ∉ l) :
    List.IsChain (fun y z => succ' y = z) ((a :: l) ++ [y]) := by
  rw [cons_append, isChain_cons] at hchain ⊢
  refine ⟨fun w hw => h.left.trans (hchain.1 w hw), isChain_succ_congr hchain.2 fun z hz => ?_⟩
  exact h.other z (ne_of_mem_of_not_mem hz ha) (ne_of_mem_of_not_mem hz hb)

theorem Exchanged.symm (h : Exchanged succ succ' a b) : Exchanged succ succ' b a :=
  ⟨h.right, h.left, fun x hb ha => h.other x ha hb⟩

/-- **Two rounds become one.** -/
theorem Round.join (ha : Round succ a la) (hb : Round succ b lb)
    (hdisj : ∀ x ∈ a :: la, x ∉ b :: lb) (h : Exchanged succ succ' a b) :
    Round succ' a (lb ++ b :: la) := by
  obtain ⟨hala, hnla⟩ := nodup_cons.1 ha.nodup
  obtain ⟨hblb, hnlb⟩ := nodup_cons.1 hb.nodup
  have halb : a ∉ lb := fun hin => hdisj a mem_cons_self (mem_cons_of_mem b hin)
  have hbla : b ∉ la := fun hin => hdisj b (mem_cons_of_mem a hin) mem_cons_self
  constructor
  · have hassoc : (a :: (lb ++ b :: la)) ++ [a] = (a :: lb) ++ b :: (la ++ [a]) := by simp
    rw [hassoc, isChain_split]
    exact ⟨h.isChain hb.chain halb hblb, h.symm.isChain ha.chain hbla hala⟩
  · have hcons : (a :: (lb ++ b :: la)) = (a :: lb) ++ (b :: la) := rfl
    rw [hcons, nodup_append]
    refine ⟨nodup_cons.2 ⟨halb, hnlb⟩, nodup_cons.2 ⟨hbla, hnla⟩, ?_⟩
    rintro x hx y hy rfl
    rcases mem_cons.1 hx with rfl | hx
    · rcases mem_cons.1 hy with rfl | hy
      · exact hdisj x mem_cons_self mem_cons_self
      · exact hala hy
    · rcases mem_cons.1 hy with rfl | hy
      · exact hblb hx
      · exact hdisj x (mem_cons_of_mem a hy) (mem_cons_of_mem b hx)

/-- **A round is taken apart** where the last of it exchanges with the
first: the first is alone. -/
theorem Round.cut (h : Round succ a (l ++ [b])) (hex : Exchanged succ succ' a b)
    (h' : Round succ' a la) : la = [] :=
  h'.eq_nil (hex.left.trans h.succ_last)

/-! ## Rounds and classes -/

/-- The round of each element is its class. -/
def RoundsAre (succ : α → α) (r : α → α → Prop) : Prop :=
  ∀ x, ∃ l, Round succ x l ∧ ∀ y, y ∈ x :: l ↔ EqvGen r x y

theorem eqvGen_insert {r' : α → α → Prop} (hr : ∀ x y, r' x y ↔ r x y ∨ (x = a ∧ y = b)) :
    EqvGen r' x y ↔
      EqvGen r x y ∨ (EqvGen r x a ∧ EqvGen r b y) ∨ (EqvGen r x b ∧ EqvGen r a y) := by
  have hmono : ∀ {x y}, EqvGen r x y → EqvGen r' x y :=
    fun h => EqvGen.mono (fun x y hxy => (hr x y).2 (.inl hxy)) _ _ h
  have hab : EqvGen r' a b := .rel a b ((hr a b).2 (.inr ⟨rfl, rfl⟩))
  constructor
  · intro h
    induction h with
    | rel x y hxy =>
      rcases (hr x y).1 hxy with hxy | ⟨rfl, rfl⟩
      · exact .inl (.rel x y hxy)
      · exact .inr (.inl ⟨.refl x, .refl y⟩)
    | refl x => exact .inl (.refl x)
    | symm x y _ ih =>
      rcases ih with h | ⟨h₁, h₂⟩ | ⟨h₁, h₂⟩
      · exact .inl (.symm _ _ h)
      · exact .inr (.inr ⟨.symm _ _ h₂, .symm _ _ h₁⟩)
      · exact .inr (.inl ⟨.symm _ _ h₂, .symm _ _ h₁⟩)
    | trans x y z _ _ ih₁ ih₂ =>
      rcases ih₁ with h | ⟨h₁, h₂⟩ | ⟨h₁, h₂⟩ <;> rcases ih₂ with k | ⟨k₁, k₂⟩ | ⟨k₁, k₂⟩
      · exact .inl (.trans _ _ _ h k)
      · exact .inr (.inl ⟨.trans _ _ _ h k₁, k₂⟩)
      · exact .inr (.inr ⟨.trans _ _ _ h k₁, k₂⟩)
      · exact .inr (.inl ⟨h₁, .trans _ _ _ h₂ k⟩)
      · exact .inr (.inl ⟨h₁, k₂⟩)
      · exact .inl (.trans _ _ _ h₁ k₂)
      · exact .inr (.inr ⟨h₁, .trans _ _ _ h₂ k⟩)
      · exact .inl (.trans _ _ _ h₁ k₂)
      · exact .inr (.inr ⟨h₁, k₂⟩)
  · rintro (h | ⟨h₁, h₂⟩ | ⟨h₁, h₂⟩)
    · exact hmono h
    · exact .trans _ _ _ (hmono h₁) (.trans _ _ _ hab (hmono h₂))
    · exact .trans _ _ _ (hmono h₁) (.trans _ _ _ (.symm _ _ hab) (hmono h₂))

variable {r' : α → α → Prop}

theorem RoundsAre.insert (h : RoundsAre succ r) (hab : EqvGen r a b)
    (hr : ∀ x y, r' x y ↔ r x y ∨ (x = a ∧ y = b)) : RoundsAre succ r' := by
  intro x
  obtain ⟨l, hl, hmem⟩ := h x
  refine ⟨l, hl, fun y => (hmem y).trans ?_⟩
  rw [eqvGen_insert hr]
  refine ⟨.inl, ?_⟩
  rintro (h | ⟨h₁, h₂⟩ | ⟨h₁, h₂⟩)
  · exact h
  · exact .trans _ _ _ h₁ (.trans _ _ _ hab h₂)
  · exact .trans _ _ _ h₁ (.trans _ _ _ (.symm _ _ hab) h₂)

/-- **Exchanging the successors of two classes joins them.** -/
theorem RoundsAre.join (h : RoundsAre succ r) (hab : ¬ EqvGen r a b)
    (hex : Exchanged succ succ' a b) (hr : ∀ x y, r' x y ↔ r x y ∨ (x = a ∧ y = b)) :
    RoundsAre succ' r' := by
  obtain ⟨la, ha, hmema⟩ := h a
  obtain ⟨lb, hb, hmemb⟩ := h b
  have hjoin : Round succ' a (lb ++ b :: la) := by
    refine ha.join hb (fun x hxa hxb => hab ?_) hex
    exact .trans _ _ _ ((hmema x).1 hxa) (.symm _ _ ((hmemb x).1 hxb))
  have hmem : ∀ x, x ∈ a :: (lb ++ b :: la) ↔ EqvGen r a x ∨ EqvGen r b x := by
    intro x
    rw [← hmema, ← hmemb]
    simp only [mem_cons, mem_append]
    tauto
  intro x
  by_cases hx : EqvGen r a x ∨ EqvGen r b x
  · obtain ⟨l, hl, hsame⟩ := hjoin.exists_of_mem ((hmem x).2 hx)
    refine ⟨l, hl, fun y => ?_⟩
    rw [hsame, hmem, eqvGen_insert hr]
    constructor
    · rintro (hy | hy) <;> rcases hx with hx | hx
      · exact .inl (.trans _ _ _ (.symm _ _ hx) hy)
      · exact .inr (.inr ⟨.symm _ _ hx, hy⟩)
      · exact .inr (.inl ⟨.symm _ _ hx, hy⟩)
      · exact .inl (.trans _ _ _ (.symm _ _ hx) hy)
    · rintro (hy | ⟨-, hy⟩ | ⟨-, hy⟩)
      · exact hx.imp (fun hx => .trans _ _ _ hx hy) (fun hx => .trans _ _ _ hx hy)
      · exact .inr hy
      · exact .inl hy
  · obtain ⟨l, hl, hmemx⟩ := h x
    have haway : ∀ y ∈ x :: l, y ≠ a ∧ y ≠ b := by
      intro y hy
      have hxy := (hmemx y).1 hy
      constructor
      · rintro rfl
        exact hx (.inl (.symm _ _ hxy))
      · rintro rfl
        exact hx (.inr (.symm _ _ hxy))
    refine ⟨l, hl.congr fun y hy => hex.other y (haway y hy).1 (haway y hy).2, fun y => ?_⟩
    rw [hmemx, eqvGen_insert hr]
    refine ⟨.inl, ?_⟩
    rintro (hy | ⟨hxa, -⟩ | ⟨hxb, -⟩)
    · exact hy
    · exact absurd (.inl (.symm _ _ hxa)) hx
    · exact absurd (.inr (.symm _ _ hxb)) hx

end OpenBlue

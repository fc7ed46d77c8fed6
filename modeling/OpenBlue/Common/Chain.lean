import Mathlib.Algebra.BigOperators.Group.Finset.Piecewise
import Mathlib.Algebra.Order.Ring.Int
import Mathlib.Data.Finset.Card
/-!
# Chains of links

A link takes an element to the next one, or nowhere. Where links never
lead back, every element starts a chain that ends; this file has the
chains, what cutting a link and tying a loose end do to them, and how many
links lead to an element.
-/

namespace OpenBlue

open Function List

variable {α : Type*} {next next' : α → Option α} {a b c : α} {o : Option α} {l l' : List α}

/-- `l` is the whole chain from `o` on. -/
inductive Follows (next : α → Option α) : Option α → List α → Prop
  | nil : Follows next none []
  | cons {a : α} {l : List α} : Follows next (next a) l → Follows next (some a) (a :: l)

/-- Following links from `a` comes to `b`. -/
def Reaches (next : α → Option α) (a b : α) : Prop :=
  Relation.ReflTransGen (fun x y => next x = some y) a b

/-- Links never lead back: a rank falls along them. -/
def Ranked (next : α → Option α) : Prop :=
  ∃ rank : α → ℕ, ∀ a b, next a = some b → rank b < rank a

/-! ## Chains -/

/-- **Every chain ends.** -/
theorem Ranked.exists_follows (h : Ranked next) (o : Option α) : ∃ l, Follows next o l := by
  obtain ⟨rank, hrank⟩ := h
  have hsome : ∀ n a, rank a < n → ∃ l, Follows next (some a) l := by
    intro n
    induction n with
    | zero => exact fun a h => absurd h (Nat.not_lt_zero _)
    | succ n ih =>
      intro a hlt
      cases hnext : next a with
      | none => exact ⟨[a], .cons (hnext ▸ .nil)⟩
      | some b =>
        obtain ⟨l, hl⟩ := ih b ((hrank a b hnext).trans_le (Nat.lt_succ_iff.1 hlt))
        exact ⟨a :: l, .cons (hnext ▸ hl)⟩
  cases o with
  | none => exact ⟨[], .nil⟩
  | some a => exact hsome (rank a + 1) a (Nat.lt_succ_self _)

theorem Follows.mem_iff (h : Follows next (some a) l) : b ∈ l ↔ Reaches next a b := by
  generalize ho : some a = o at h
  induction h generalizing a with
  | nil => exact absurd ho nofun
  | @cons a' l hl ih =>
    obtain rfl := Option.some.inj ho
    rw [mem_cons, Reaches, Relation.ReflTransGen.cases_head_iff]
    constructor
    · rintro (rfl | hb)
      · exact .inl rfl
      · cases hnext : next a with
        | none =>
          rw [hnext] at hl
          cases hl
          exact absurd hb not_mem_nil
        | some c => exact .inr ⟨c, hnext ▸ rfl, (ih hnext.symm).1 hb⟩
    · rintro (rfl | ⟨c, hc, hcb⟩)
      · exact .inl rfl
      · exact .inr ((ih hc.symm).2 hcb)

theorem Follows.rank_lt {rank : α → ℕ} (hrank : ∀ a b, next a = some b → rank b < rank a)
    (h : Follows next (some a) l) (hb : b ∈ l) : rank b ≤ rank a := by
  have hreach : Reaches next a b := h.mem_iff.1 hb
  induction hreach with
  | refl => exact le_rfl
  | tail hab hbc ih => exact ((hrank _ _ hbc).le).trans (ih (h.mem_iff.2 hab))

/-- **A chain passes each element once.** -/
theorem Follows.nodup (hr : Ranked next) (h : Follows next o l) : l.Nodup := by
  obtain ⟨rank, hrank⟩ := hr
  induction h with
  | nil => exact nodup_nil
  | @cons a l hl ih =>
    refine nodup_cons.2 ⟨fun hin => ?_, ih⟩
    cases hnext : next a with
    | none =>
      rw [hnext] at hl
      cases hl
      exact absurd hin not_mem_nil
    | some b =>
      rw [hnext] at hl
      exact absurd (hl.rank_lt hrank hin) (Nat.not_le.2 (hrank a b hnext))

theorem Follows.length_le [DecidableEq α] {S : Finset α} (hr : Ranked next)
    (h : Follows next (some a) l) (hS : ∀ a b, next a = some b → b ∈ S) (ha : a ∈ S) :
    l.length ≤ S.card := by
  have hsub : ∀ b ∈ l, b ∈ S := fun b hb => by
    have hreach : Reaches next a b := h.mem_iff.1 hb
    cases hreach with
    | refl => exact ha
    | tail _ hstep => exact hS _ _ hstep
  rw [← toFinset_card_of_nodup (h.nodup hr)]
  exact Finset.card_le_card fun b hb => hsub b (mem_toFinset.1 hb)

theorem Follows.congr (h : Follows next o l) (heq : ∀ a ∈ l, next' a = next a) :
    Follows next' o l := by
  induction h with
  | nil => exact .nil
  | @cons a l hl ih =>
    refine .cons ?_
    rw [heq a mem_cons_self]
    exact ih fun b hb => heq b (mem_cons_of_mem a hb)

/-- **Chains that meet end alike.** -/
theorem Follows.getLast?_of_reaches (h : Follows next (some a) l) (h' : Follows next (some b) l')
    (hab : Reaches next a b) : l.getLast? = l'.getLast? := by
  induction hab using Relation.ReflTransGen.head_induction_on generalizing l with
  | refl =>
    have hsame : ∀ {o : Option α} {l l' : List α}, Follows next o l → Follows next o l' →
        l = l' := by
      intro o l l' h h'
      induction h generalizing l' with
      | nil =>
        cases h'
        rfl
      | cons _ ih =>
        cases h' with
        | cons hl' => rw [ih hl']
    rw [hsame h h']
  | @head x y hxy _ ih =>
    cases h with
    | @cons _ l hl =>
      rw [hxy] at hl
      have hne : l ≠ [] := by
        rintro rfl
        cases hl
      rw [← ih hl, getLast?_cons, getLast?_eq_some_getLast hne]
      rfl

theorem Follows.next_getLast (h : Follows next o l) (hlast : l.getLast? = some a) :
    next a = none := by
  induction h with
  | nil => exact absurd hlast nofun
  | @cons b l hl ih =>
    cases hnext : next b with
    | none =>
      rw [hnext] at hl
      cases hl
      obtain rfl := Option.some.inj hlast
      exact hnext
    | some c =>
      rw [hnext] at hl
      cases hl with
      | @cons _ l hl =>
        rw [getLast?_cons_cons] at hlast
        exact ih hlast

/-! ## Cutting and tying -/

theorem Reaches.mono (h : Reaches next' a b)
    (hle : ∀ x y, next' x = some y → next x = some y) : Reaches next a b :=
  Relation.ReflTransGen.mono hle a b h

theorem Ranked.mono (h : Ranked next) (hle : ∀ a b, next' a = some b → next a = some b) :
    Ranked next' := by
  obtain ⟨rank, hrank⟩ := h
  exact ⟨rank, fun a b hab => hrank a b (hle a b hab)⟩

theorem Ranked.not_reaches (h : Ranked next) (hab : next a = some b) : ¬ Reaches next b a := by
  obtain ⟨l, hl⟩ := h.exists_follows (some a)
  have hnodup := hl.nodup h
  cases hl with
  | @cons _ l hl =>
    rw [hab] at hl
    exact fun hback => (nodup_cons.1 hnodup).1 (hl.mem_iff.2 hback)

section Update

variable [DecidableEq α]

theorem update_none_le (next : α → Option α) (a : α) :
    ∀ x y, update next a none x = some y → next x = some y := by
  intro x y h
  by_cases hx : x = a
  · rw [hx, update_self] at h
    exact absurd h nofun
  · rwa [update_of_ne hx] at h

theorem Reaches.of_update (h : Reaches (update next a o) b c)
    (hne : ¬ Reaches next b a) : Reaches next b c := by
  induction h with
  | refl => exact .refl
  | @tail x y _ hxy ih =>
    have hx : x ≠ a := fun hx => hne (hx ▸ ih)
    rw [update_of_ne hx] at hxy
    exact .tail ih hxy

/-- **A loose end may be tied** to what does not lead to it. -/
theorem Ranked.tie (h : Ranked next) (hba : ¬ Reaches next b a) :
    Ranked (update next a (some b)) := by
  classical
  obtain ⟨rank, hrank⟩ := h
  -- What leads to `a` is raised above `b`.
  refine ⟨fun x => rank x + if Reaches next x a then rank b + 1 else 0, fun x y hxy => ?_⟩
  by_cases hx : x = a
  · subst hx
    rw [update_self] at hxy
    obtain rfl := Option.some.inj hxy
    simp only [if_neg hba, if_pos (show Reaches next x x from .refl)]
    omega
  · rw [update_of_ne hx] at hxy
    have hlt := hrank x y hxy
    have hiff : Reaches next x a ↔ Reaches next y a := by
      constructor
      · intro hxa
        obtain rfl | ⟨z, hz, hza⟩ := Relation.ReflTransGen.cases_head hxa
        · exact absurd rfl hx
        · rw [hxy] at hz
          exact Option.some.inj hz ▸ hza
      · exact fun hya => .head hxy hya
    by_cases hy : Reaches next y a
    · simp only [if_pos hy, if_pos (hiff.2 hy)]
      omega
    · simp only [if_neg hy, if_neg (fun h => hy (hiff.1 h))]
      omega

/-- **A chain grows at its end** by an element that leads nowhere. -/
theorem Follows.snoc (h : Follows next o l) (hn : l.Nodup) (hlast : l.getLast? = some a)
    (hb : b ∉ l) (hend : next b = none) : Follows (update next a (some b)) o (l ++ [b]) := by
  induction h with
  | nil => exact absurd hlast nofun
  | @cons c l hl ih =>
    obtain ⟨hc, hn⟩ := nodup_cons.1 hn
    have hbl : b ∉ l := fun h => hb (mem_cons_of_mem c h)
    refine .cons ?_
    cases hnext : next c with
    | none =>
      -- The chain ends here.
      rw [hnext] at hl
      cases hl
      have hac : a = c := (Option.some.inj hlast).symm
      subst hac
      rw [update_self]
      have hne : b ≠ a := fun h => hb (h ▸ mem_cons_self)
      exact .cons (by rw [update_of_ne hne, hend]; exact .nil)
    | some d =>
      rw [hnext] at hl
      cases hl with
      | @cons _ l hl =>
        rw [getLast?_cons_cons] at hlast
        have hne : c ≠ a := fun h => hc (h ▸ mem_of_getLast? hlast)
        rw [update_of_ne hne]
        exact ih hn hlast hbl

/-! ## Links to an element -/

/-- How many of the links from `S` lead to `b`. -/
def inDegree (S : Finset α) (next : α → Option α) (b : α) : ℕ :=
  (S.filter fun a => next a = some b).card

theorem inDegree_update {S : Finset α} (ha : a ∈ S) (next : α → Option α) (o : Option α) (b : α) :
    inDegree S (update next a o) b + (if next a = some b then 1 else 0) =
      inDegree S next b + (if o = some b then 1 else 0) := by
  have hnew := Finset.add_sum_erase S
    (fun x => if update next a o x = some b then 1 else 0) ha
  have hold := Finset.add_sum_erase S (fun x => if next x = some b then 1 else 0) ha
  have hother : ∑ x ∈ S.erase a, (if update next a o x = some b then 1 else 0) =
      ∑ x ∈ S.erase a, (if next x = some b then 1 else 0) :=
    Finset.sum_congr rfl fun x hx => by rw [update_of_ne (Finset.ne_of_mem_erase hx)]
  rw [hother, update_self] at hnew
  rw [inDegree, inDegree, Finset.card_filter, Finset.card_filter]
  omega

theorem inDegree_pos {S : Finset α} (ha : a ∈ S) (hab : next a = some b) : 0 < inDegree S next b :=
  Finset.card_pos.2 ⟨a, Finset.mem_filter.2 ⟨ha, hab⟩⟩

end Update

end OpenBlue

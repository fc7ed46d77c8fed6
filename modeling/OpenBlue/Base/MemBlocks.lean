import OpenBlue.Base.Model.MemPool
import OpenBlue.Common.Chain
/-!
# Base — memory pools: the blocks

The free list of a pool runs through the blocks themselves: the first word
of a free block leads to the next one. As long as a block is used only by
whom it was handed to, the list and the blocks in use are all the blocks of
the pool, each of them once (`blocks_conserved`).
-/

namespace OpenBlue

namespace Base

namespace MemPool

open Function List

variable {m m' : Pool} {b n : ℕ} {held l : List ℕ}

/-! ## One pool -/

/-- The blocks of the free list and those that are held are all `n` blocks
of the pool. -/
structure Pool.Keeps (m : Pool) (n : ℕ) (held : List ℕ) : Prop where
  blocks : ∃ l, Follows m.next m.freeList l ∧ (l ++ held).Perm (range n)
  used : m.numUsed = UInt32.ofNat held.length

theorem createLoop_keeps (k : ℕ) (hl : Follows m.next m.freeList l) (hk : ∀ x ∈ l, k ≤ x) :
    Follows (createLoop k m).next (createLoop k m).freeList (range k ++ l) ∧
      (createLoop k m).numUsed = m.numUsed := by
  induction k generalizing m l with
  | zero => exact ⟨hl, rfl⟩
  | succ k ih =>
    have hnew : k ∉ l := fun hmem => Nat.not_succ_le_self k (hk k hmem)
    have hcons : Follows (update m.next k m.freeList) (some k) (k :: l) := by
      refine .cons ?_
      rw [update_self]
      exact hl.congr fun x hx => update_of_ne (ne_of_mem_of_not_mem hx hnew) ..
    rw [createLoop, range_succ, append_assoc, singleton_append]
    refine ih (m := { m with next := _, freeList := _ }) hcons fun x hx => ?_
    rcases mem_cons.1 hx with rfl | hx
    · exact le_rfl
    · exact Nat.le_of_succ_le (hk x hx)

theorem keeps_createMemPoolList (n : ℕ) : (createMemPoolList n {}).Keeps n [] := by
  obtain ⟨hl, hused⟩ := @createLoop_keeps { wait := 0, freeList := none } [] n .nil (by simp)
  exact ⟨⟨_, hl, by simp⟩, hused⟩

theorem Pool.Keeps.write (h : m.Keeps n held) (hb : b ∈ held) (word : Option ℕ) :
    { m with next := update m.next b word }.Keeps n held := by
  obtain ⟨l, hl, hperm⟩ := h.blocks
  have hnot : b ∉ l := fun hmem =>
    (nodup_append.1 (hperm.nodup_iff.2 nodup_range)).2.2 b hmem b hb rfl
  exact ⟨⟨l, hl.congr fun x hx => update_of_ne (ne_of_mem_of_not_mem hx hnot) .., hperm⟩, h.used⟩

/-- **A block is taken** off the free list. -/
theorem Pool.Keeps.pop (h : m.Keeps n held) (hpop : m.pop = some (b, m')) :
    m'.Keeps n (b :: held) := by
  obtain ⟨l, hl, hperm⟩ := h.blocks
  obtain ⟨b', hfree, heq⟩ := Option.map_eq_some_iff.1 hpop
  obtain ⟨rfl, rfl⟩ := Prod.mk.inj heq
  rw [hfree] at hl
  cases hl with
  | @cons _ l hl =>
    refine ⟨⟨l, hl, perm_middle.trans hperm⟩, ?_⟩
    simp [h.used, UInt32.ofNat_add]

/-- **A block is put back** in front of the free list. -/
theorem Pool.Keeps.push (h : m.Keeps n held) (hb : b ∈ held) :
    (m.push b).Keeps n (held.erase b) := by
  obtain ⟨l, hl, hperm⟩ := (h.write hb m.freeList).blocks
  refine ⟨⟨b :: l, .cons ?_, ?_⟩, ?_⟩
  · simpa [Pool.push] using hl
  · exact perm_middle.symm.trans (((perm_cons_erase hb).symm.append_left l).trans hperm)
  · simp [Pool.push, h.used, ← length_erase_add_one hb, UInt32.ofNat_add]

theorem Pool.Keeps.freeList_eq_none (h : m.Keeps n held) : m.freeList = none ↔ held.length = n := by
  obtain ⟨l, hl, hperm⟩ := h.blocks
  have hlen := hperm.length_eq
  rw [length_append, length_range] at hlen
  generalize m.freeList = o at hl
  cases hl with
  | nil => simpa using hlen
  | cons => simp at hlen ⊢; omega

/-! ## Runs -/

/-- The pools, and the blocks of each that were handed out and not put back. -/
structure Owned where
  state : State
  held : ℕ → List ℕ

/-- A step of a thread, or the use of a block: its first word is written. -/
inductive Use
  | call (e : Event)
  | write (p b : ℕ) (word : Option ℕ)
  deriving DecidableEq

/-- What `bt_mem_pool_alloc` returns of a pool is held. -/
def hand (held : ℕ → List ℕ) (p : ℕ) : Option (Except Err ℕ) → ℕ → List ℕ
  | some (.ok b) => update held p (b :: held p)
  | _ => held

/-- What a step hands out, and what it takes back. -/
def Owned.hands (o : Owned) : Event → ℕ → List ℕ
  | .alloc t p timeout =>
    if o.state.lock = none ∧ o.state.pcs t = .ready then
      hand o.held p (o.state.alloc t p timeout).1
    else o.held
  | .taken t =>
    match o.state.pcs t with
    | .taking p _ =>
      if 0 < (o.state.pools p).wait then hand o.held p (o.state.taken t p).1 else o.held
    | _ => o.held
  | .expired _ => o.held
  | .free p mem =>
    if o.state.lock = none then update o.held p ((o.held p).erase mem) else o.held

def Owned.step (o : Owned) : Use → Owned
  | .call e => ⟨o.state.step e, o.hands e⟩
  | .write p b word =>
    let m := o.state.pools p
    ⟨o.state.setPool p { m with next := update m.next b word }, o.held⟩

/-- Blocks are written and put back only by whom they were handed to. -/
def Owned.Allowed (o : Owned) : Use → Prop
  | .call (.free p mem) => mem ∈ o.held p
  | .call _ => True
  | .write p b _ => b ∈ o.held p

def Owned.Kept (numBlocks : ℕ → ℕ) (o : Owned) : Prop :=
  ∀ p, (o.state.pools p).Keeps (numBlocks p) (o.held p)

variable {numBlocks : ℕ → ℕ} {o : Owned} {s : State} {t p : ℕ}

theorem Owned.Kept.update {m : Pool} (h : o.Kept numBlocks) (hm : m.Keeps (numBlocks p) held)
    (hs : s.pools = Function.update o.state.pools p m) :
    (Owned.mk s (Function.update o.held p held)).Kept numBlocks := by
  intro q
  dsimp only
  rw [hs]
  by_cases hq : q = p
  · subst hq
    rwa [update_self, update_self]
  · rw [update_of_ne hq, update_of_ne hq]
    exact h q

theorem kept_step (h : o.Kept numBlocks) (u : Use) (hu : o.Allowed u) :
    (o.step u).Kept numBlocks := by
  cases u with
  | write p b word =>
    have hkept := h.update (s := o.state.setPool p _) ((h p).write hu word) rfl
    rwa [update_eq_self] at hkept
  | call e =>
    cases e with
    | alloc t p timeout =>
      rw [Owned.step, State.step, Owned.hands, State.alloc]
      split
      · cases hpop : (o.state.pools p).pop with
        | some r => exact h.update ((h p).pop hpop) rfl
        | none =>
          dsimp only
          split
          · exact h
          · exact h
      · exact h
    | taken t =>
      rw [Owned.step, State.step, Owned.hands]
      cases o.state.pcs t with
      | ready | failed => exact h
      | taking p timeout =>
        dsimp only
        split
        · rw [State.taken]
          have hm : { o.state.pools p with wait := (o.state.pools p).wait - 1 }.Keeps (numBlocks p)
            (o.held p) := ⟨(h p).blocks, (h p).used⟩
          dsimp only
          split
          next hpop => exact h.update (hm.pop hpop) rfl
          next =>
            have hkept := h.update (s := o.state.setPool p _) hm rfl
            rwa [update_eq_self] at hkept
        · exact h
    | expired t =>
      rw [Owned.step, State.step]
      split
      · split
        · exact h
        · exact h
      · exact h
    | free p mem =>
      rw [Owned.step, State.step, Owned.hands]
      split
      · exact h.update ((h p).push hu) rfl
      · exact h

/-- **No block is lost, and none is handed out twice.** As long as blocks are
written and put back only by whom they were handed to, the free list of a pool
and the blocks that are held are all its blocks, each once; `num_used` counts
those that are held, and a call finds no block only where all of them are. -/
theorem blocks_conserved {us : List Use}
    (hus : Along Owned.step Owned.Allowed ⟨start numBlocks, fun _ => []⟩ us) (p : ℕ) :
    let o := run Owned.step ⟨start numBlocks, fun _ => []⟩ us
    (∃ l, Follows (o.state.pools p).next (o.state.pools p).freeList l ∧
        (l ++ o.held p).Perm (range (numBlocks p))) ∧
      (o.state.pools p).numUsed = UInt32.ofNat (o.held p).length ∧
      ((o.state.pools p).freeList = none ↔ (o.held p).length = numBlocks p) := by
  have hkept := inv_run (Owned.Kept numBlocks) (fun o u h => kept_step h u)
    (fun p => keeps_createMemPoolList (numBlocks p)) hus p
  exact ⟨hkept.blocks, hkept.used, hkept.freeList_eq_none⟩

/-- Two blocks are taken, one of them is used, and it is put back. -/
theorem blocks_conserved_two :
    let us := [.call (.alloc 0 0 .noWait), .call (.alloc 1 0 .forever), .write 0 0 (some 7),
      .call (.free 0 0)]
    let o := run Owned.step ⟨start fun _ => 2, fun _ => []⟩ us
    o.held 0 = [1] ∧ (o.state.pools 0).freeList = some 0 ∧
      ((o.state.pools 0).freeList = none ↔ (o.held 0).length = 2) := by
  refine ⟨by decide, by decide, (@blocks_conserved (fun _ => 2) _ ?_ 0).2.2⟩
  exact ⟨trivial, trivial, (by decide : 0 ∈ [1, 0]), (by decide : 0 ∈ [1, 0]), trivial⟩

end MemPool

end Base

end OpenBlue

import Mathlib.Data.Finset.Range
import Mathlib.Order.Interval.Finset.Nat
import OpenBlue.Base.Model.Buf
import OpenBlue.Common.Chain
/-!
# Base — buffers are conserved

A buffer of a pool was never used, or waits in the free queue, or is in
use; and one in use has as many references as its users and the links of
fragments hold. Every function is a sequence of a few moves that keep this
invariant: a link is cut, its reference going to a user; a loose end is
tied, taking a reference from a user; a reference is added or dropped; a
buffer is taken from the pool or goes back.
-/

namespace OpenBlue

namespace Base

open Function Pool Nat Finset

variable {p p' : Pool} {u : Users} {buf : Buf} {held : ℕ → ℕ}
variable {a b c x parent frag rest : ℕ} {o : Option ℕ} {l : List ℕ}

/-! ## The users' references -/

theorem gain_apply (held : ℕ → ℕ) (b x : ℕ) : gain held b x = held x + if x = b then 1 else 0 := by
  rw [gain, update_apply]
  split
  next h => rw [h]
  next => rfl

theorem lose_apply (held : ℕ → ℕ) (b x : ℕ) : lose held b x = held x - if x = b then 1 else 0 := by
  rw [lose, update_apply]
  split
  next h => rw [h]
  next => rfl

theorem lose_gain (held : ℕ → ℕ) (b : ℕ) : lose (gain held b) b = held := by
  funext x
  rw [lose_apply, gain_apply]
  omega

theorem lose_lose_gain (held : ℕ → ℕ) (a b : ℕ) : lose (lose (gain held a) b) a = lose held b := by
  funext x
  rw [lose_apply, lose_apply, gain_apply, lose_apply]
  by_cases ha : x = a
  · rw [if_pos ha]
    omega
  · rw [if_neg ha]
    omega

/-! ## Writing a buffer -/

theorem Pool.set_set (p : Pool) (b : ℕ) (buf buf' : Buf) : (p.set b buf).set b buf' = p.set b buf' := by
  rw [Pool.set, Pool.set, Pool.set]
  simp only [update_idem]

theorem Pool.bufs_set_self (p : Pool) (b : ℕ) (buf : Buf) : (p.set b buf).bufs b = buf :=
  update_self _ _ _

theorem Pool.bufs_set_of_ne (buf : Buf) (h : x ≠ b) : (p.set b buf).bufs x = p.bufs x :=
  update_of_ne h _ _

theorem Pool.setFrags_setFrags (p : Pool) (b : ℕ) (o o' : Option ℕ) :
    (p.setFrags b o).setFrags b o' = p.setFrags b o' := by
  rw [Pool.setFrags, Pool.setFrags, Pool.set_set, Pool.bufs_set_self, Pool.setFrags]

theorem Pool.setFrags_comm (h : a ≠ b) (p : Pool) (o o' : Option ℕ) :
    (p.setFrags a o).setFrags b o' = (p.setFrags b o').setFrags a o := by
  simp only [Pool.setFrags, Pool.bufs_set_of_ne _ h, Pool.bufs_set_of_ne _ h.symm]
  simp only [Pool.set, update_comm h]

theorem Pool.setFrags_self (h : (p.bufs b).frags = o) : p.setFrags b o = p := by
  subst h
  exact congrArg (fun bufs => { p with bufs := bufs }) (update_eq_self b p.bufs)

theorem Pool.live_of_link (h : p.link a = some b) : p.Live a ∧ (p.bufs a).frags = some b := by
  rw [Pool.link] at h
  by_cases hlive : p.Live a
  · exact ⟨hlive, (if_pos hlive).symm.trans h⟩
  · rw [if_neg hlive] at h
    exact absurd h nofun

theorem Pool.link_of_live (h : p.Live a) : p.link a = (p.bufs a).frags := if_pos h

theorem Pool.link_set (h : p.Live b) (buf : Buf) :
    (p.set b buf).link = update p.link b buf.frags := by
  funext x
  by_cases hx : x = b
  · rw [hx, update_self]
    exact (Pool.link_of_live (p := p.set b buf) h).trans (by rw [Pool.bufs_set_self])
  · rw [update_of_ne hx, Pool.link, Pool.link, Pool.bufs_set_of_ne _ hx]
    rfl

theorem Pool.link_setFrags (h : p.Live b) (o : Option ℕ) :
    (p.setFrags b o).link = update p.link b o := Pool.link_set h _

/-! ## The invariant -/

/-- The references to a buffer: those of the users and those of links. -/
def Users.refs (u : Users) (b : ℕ) : ℕ :=
  u.held b + inDegree (Finset.range u.pool.bufCount) u.pool.link b

/-- The counter of a pool and its free queue. -/
structure Pool.Kept (p : Pool) : Prop where
  uninit_le : p.uninitCount ≤ p.bufCount
  nodup : p.free.Nodup
  free_lt : ∀ b ∈ p.free, b < p.bufCount - p.uninitCount

/-- Where the data of a buffer in use is: its own share of the pool's, or
what the caller gave. -/
def Pool.Stored (p : Pool) (b : ℕ) (buf : Buf) : Prop :=
  (buf.external = true ∧ ∃ addr, buf.store = some (.given addr)) ∨
    (buf.external = false ∧ (buf.store = none ∨
      (buf.store = some (.pool (p.maxAllocSize * b)) ∧ buf.size ≤ p.maxAllocSize)))

/-- **The invariant of a pool and its users.** -/
structure Users.Inv (u : Users) : Prop where
  kept : u.pool.Kept
  ref_eq : ∀ b, u.pool.Live b → (u.pool.bufs b).ref = u.refs b
  ref_pos : ∀ b, u.pool.Live b → 0 < (u.pool.bufs b).ref
  ref_le : ∀ b, u.pool.Live b → (u.pool.bufs b).ref ≤ 255
  held_live : ∀ b, 0 < u.held b → u.pool.Live b
  link_live : ∀ a b, u.pool.link a = some b → u.pool.Live b
  ranked : Ranked u.pool.link
  stored : ∀ b, u.pool.Live b → u.pool.Stored b (u.pool.bufs b)

theorem Pool.Live.lt (h : p.Live b) : b < p.bufCount := h.1.trans_le (sub_le _ _)

theorem Pool.Live.mem_range (h : p.Live b) : b ∈ range p.bufCount :=
  Finset.mem_range.2 h.lt

/-! ## Moves on references and links -/

theorem Users.Inv.relink (h : u.Inv) (ha : u.pool.Live a) (hrank : Ranked (update u.pool.link a o))
    (hlink : ∀ b, o = some b → u.pool.Live b) (hheld : ∀ b, 0 < held b → u.pool.Live b)
    (hbal : ∀ x, held x + (if o = some x then 1 else 0) =
      u.held x + (if u.pool.link a = some x then 1 else 0)) :
    Users.Inv ⟨u.pool.setFrags a o, held⟩ := by
  have hsame : ∀ x, ((u.pool.setFrags a o).bufs x).ref = (u.pool.bufs x).ref ∧
      (u.pool.Stored x (u.pool.bufs x) → u.pool.Stored x ((u.pool.setFrags a o).bufs x)) := by
    intro x
    by_cases hx : x = a
    · rw [hx, setFrags, bufs_set_self]
      exact ⟨rfl, id⟩
    · rw [setFrags, bufs_set_of_ne _ hx]
      exact ⟨rfl, id⟩
  refine ⟨⟨h.kept.uninit_le, h.kept.nodup, h.kept.free_lt⟩, fun x hx => ?_, fun x hx => ?_,
    fun x hx => ?_, hheld, fun x y hxy => ?_, ?_, fun x hx => (hsame x).2 (h.stored x hx)⟩
  · have hdeg := inDegree_update ha.mem_range u.pool.link o x
    have href := h.ref_eq x hx
    have hx' := hbal x
    rw [(hsame x).1, href, Users.refs, Users.refs]
    change _ = held x + inDegree (range u.pool.bufCount) (u.pool.setFrags a o).link x
    rw [link_setFrags ha]
    omega
  · exact (hsame x).1 ▸ h.ref_pos x hx
  · exact (hsame x).1 ▸ h.ref_le x hx
  · change (u.pool.setFrags a o).link x = some y at hxy
    rw [link_setFrags ha] at hxy
    by_cases hx : x = a
    · rw [hx, update_self] at hxy
      exact hlink y hxy
    · rw [update_of_ne hx] at hxy
      exact h.link_live x y hxy
  · change Ranked (u.pool.setFrags a o).link
    rw [link_setFrags ha]
    exact hrank

/-- **A link is cut**: its reference goes to a user. -/
theorem Users.Inv.cut (h : u.Inv) (hab : u.pool.link a = some b) :
    Users.Inv ⟨u.pool.setFrags a none, gain u.held b⟩ := by
  have ha := (live_of_link hab).1
  refine h.relink ha (h.ranked.mono (update_none_le _ _)) nofun (fun x hx => ?_) fun x => ?_
  · rw [gain_apply] at hx
    by_cases hxb : x = b
    · exact hxb ▸ h.link_live a b hab
    · rw [if_neg hxb] at hx
      exact h.held_live x hx
  · have hnone : (none : Option ℕ) ≠ some x := nofun
    rw [gain_apply, hab, if_neg hnone, Nat.add_zero]
    simp only [Option.some.injEq, eq_comm]

/-- **A loose end is tied**: the link takes a reference from a user. -/
theorem Users.Inv.tie (h : u.Inv) (ha : u.pool.Live a) (hnone : u.pool.link a = none)
    (hb : 0 < u.held b) (hba : ¬ Reaches u.pool.link b a) :
    Users.Inv ⟨u.pool.setFrags a (some b), lose u.held b⟩ := by
  refine h.relink ha (h.ranked.tie hba) (fun c hc => ?_) (fun x hx => ?_) fun x => ?_
  · exact Option.some.inj hc ▸ h.held_live b hb
  · rw [lose_apply] at hx
    exact h.held_live x (by omega)
  · have hne : (none : Option ℕ) ≠ some x := nofun
    rw [lose_apply, hnone, if_neg hne, Nat.add_zero]
    simp only [Option.some.injEq]
    by_cases hx : x = b
    · subst hx
      rw [if_pos rfl]
      omega
    · rw [if_neg hx, if_neg (Ne.symm hx)]
      omega

theorem Users.Inv.recount (h : u.Inv) (hb : u.pool.Live b)
    (hfrags : buf.frags = (u.pool.bufs b).frags)
    (hstored : u.pool.Stored b buf) (hpos : 0 < buf.ref) (hle : buf.ref ≤ 255)
    (hbal : buf.ref + u.held b = (u.pool.bufs b).ref + held b)
    (hheld : ∀ x, x ≠ b → held x = u.held x) : Users.Inv ⟨u.pool.set b buf, held⟩ := by
  have hlink : (u.pool.set b buf).link = u.pool.link := by
    rw [link_set hb, hfrags, ← link_of_live hb, update_eq_self]
  have hself : ((u.pool.set b buf).bufs b) = buf := bufs_set_self _ _ _
  have hother : ∀ x, x ≠ b → (u.pool.set b buf).bufs x = u.pool.bufs x :=
    fun x hx => bufs_set_of_ne buf hx
  refine ⟨⟨h.kept.uninit_le, h.kept.nodup, h.kept.free_lt⟩, fun x hx => ?_, fun x hx => ?_,
    fun x hx => ?_, fun x hx => ?_, fun x y hxy => ?_, ?_, fun x hx => ?_⟩
  · have href := h.ref_eq x hx
    rw [Users.refs] at href ⊢
    change _ = held x + inDegree (range u.pool.bufCount) (u.pool.set b buf).link x
    rw [hlink]
    by_cases hxb : x = b
    · subst hxb
      change ((u.pool.set x buf).bufs x).ref = _
      rw [hself]
      omega
    · change ((u.pool.set b buf).bufs x).ref = _
      rw [hother x hxb, hheld x hxb, href]
  · by_cases hxb : x = b
    · subst hxb
      exact (congrArg Buf.ref hself).symm ▸ hpos
    · exact (congrArg Buf.ref (hother x hxb)).symm ▸ h.ref_pos x hx
  · by_cases hxb : x = b
    · subst hxb
      exact (congrArg Buf.ref hself).symm ▸ hle
    · exact (congrArg Buf.ref (hother x hxb)).symm ▸ h.ref_le x hx
  · by_cases hxb : x = b
    · exact hxb ▸ hb
    · exact h.held_live x (hheld x hxb ▸ hx)
  · exact h.link_live x y (congrFun hlink x ▸ hxy)
  · exact (show Ranked (u.pool.set b buf).link from hlink.symm ▸ h.ranked)
  · by_cases hxb : x = b
    · subst hxb
      exact (show u.pool.Stored x ((u.pool.set x buf).bufs x) by rw [hself]; exact hstored)
    · exact (show u.pool.Stored x ((u.pool.set b buf).bufs x) by
        rw [hother x hxb]; exact h.stored x hx)

/-- **A reference is dropped** that is not the last. -/
theorem Users.Inv.drop (h : u.Inv) (hb : 0 < u.held b) (hlt : 1 < (u.pool.bufs b).ref) :
    Users.Inv ⟨u.pool.set b { u.pool.bufs b with ref := (u.pool.bufs b).ref - 1 },
      lose u.held b⟩ := by
  have hlive := h.held_live b hb
  have hle := h.ref_le b hlive
  refine h.recount hlive rfl (h.stored b hlive) (by dsimp only; omega) (by dsimp only; omega)
    ?_ fun x hx => ?_
  · rw [lose_apply, if_pos rfl]
    dsimp only
    omega
  · rw [lose_apply, if_neg hx, Nat.sub_zero]

/-- **A reference is added**, the counter not wrapping. -/
theorem Users.Inv.ref (h : u.Inv) (hlive : u.pool.Live b) (hlt : (u.pool.bufs b).ref < 255) :
    Users.Inv ⟨u.pool.ref b, gain u.held b⟩ := by
  have hmod : ((u.pool.bufs b).ref + 1) % 2 ^ 8 = (u.pool.bufs b).ref + 1 :=
    mod_eq_of_lt (by omega)
  rw [Pool.ref, hmod]
  refine h.recount hlive rfl (h.stored b hlive) (succ_pos _) hlt ?_ fun x hx => ?_
  · rw [gain_apply, if_pos rfl]
    dsimp only
    omega
  · rw [gain_apply, if_neg hx, Nat.add_zero]

/-! ## Moves between the pool and its users -/

theorem Users.Inv.transfer (h : u.Inv) (hkept : p'.Kept) (hcount : p'.bufCount = u.pool.bufCount)
    (hmax : p'.maxAllocSize = u.pool.maxAllocSize) (hlink : p'.link = u.pool.link)
    (hlive : ∀ x, p'.Live x → x ≠ b → u.pool.Live x ∧ p'.bufs x = u.pool.bufs x ∧ held x = u.held x)
    (hself : p'.Live b → (p'.bufs b).ref = Users.refs ⟨u.pool, held⟩ b ∧ 0 < (p'.bufs b).ref ∧
      (p'.bufs b).ref ≤ 255 ∧ u.pool.Stored b (p'.bufs b)) (hheld : ∀ x, 0 < held x → p'.Live x)
    (hlinked : ∀ x y, u.pool.link x = some y → p'.Live y) : Users.Inv ⟨p', held⟩ := by
  have hrefs : ∀ x, Users.refs ⟨p', held⟩ x = Users.refs ⟨u.pool, held⟩ x := fun x => by
    rw [Users.refs, Users.refs, hcount, hlink]
  have hstored : ∀ x buf, p'.Stored x buf ↔ u.pool.Stored x buf := fun x buf => by
    rw [Pool.Stored, Pool.Stored, hmax]
  refine ⟨hkept, fun x hx => ?_, fun x hx => ?_, fun x hx => ?_, hheld, fun x y hxy => ?_, ?_,
    fun x hx => ?_⟩
  · rw [hrefs]
    by_cases hxb : x = b
    · subst hxb
      exact (hself hx).1
    · obtain ⟨hold, hbuf, hsame⟩ := hlive x hx hxb
      have href := h.ref_eq x hold
      rw [Users.refs] at href ⊢
      exact (congrArg Buf.ref hbuf).trans (href.trans (by dsimp only; rw [hsame]))
  · by_cases hxb : x = b
    · subst hxb
      exact (hself hx).2.1
    · obtain ⟨hold, hbuf, -⟩ := hlive x hx hxb
      exact (congrArg Buf.ref hbuf).symm ▸ h.ref_pos x hold
  · by_cases hxb : x = b
    · subst hxb
      exact (hself hx).2.2.1
    · obtain ⟨hold, hbuf, -⟩ := hlive x hx hxb
      exact (congrArg Buf.ref hbuf).symm ▸ h.ref_le x hold
  · exact hlinked x y (congrFun hlink x ▸ hxy)
  · exact (show Ranked p'.link from hlink.symm ▸ h.ranked)
  · refine (hstored x _).2 ?_
    by_cases hxb : x = b
    · subst hxb
      exact (hself hx).2.2.2
    · obtain ⟨hold, hbuf, -⟩ := hlive x hx hxb
      exact (show u.pool.Stored x (p'.bufs x) from hbuf.symm ▸ h.stored x hold)

theorem Users.Inv.refs_eq_zero (h : u.Inv) (hb : ¬ u.pool.Live b) : u.refs b = 0 := by
  have hheld : u.held b = 0 := Nat.eq_zero_of_not_pos fun hpos => hb (h.held_live b hpos)
  have hdeg : inDegree (range u.pool.bufCount) u.pool.link b = 0 := by
    rw [inDegree, Finset.card_eq_zero, filter_eq_empty_iff]
    exact fun a _ hab => hb (h.link_live a b hab)
  rw [Users.refs, hheld, hdeg]

theorem Pool.live_destroy : (p.destroy b).Live x ↔ p.Live x ∧ x ≠ b := by
  rw [Pool.Live, Pool.Live]
  change x < p.bufCount - p.uninitCount ∧ x ∉ b :: p.free ↔ _
  rw [List.mem_cons, not_or]
  tauto

theorem Pool.Kept.destroy (h : p.Kept) (hb : p.Live b) : (p.destroy b).Kept where
  uninit_le := h.uninit_le
  nodup := List.nodup_cons.2 ⟨hb.2, h.nodup⟩
  free_lt x hx := by
    obtain rfl | hx := List.mem_cons.1 hx
    · exact hb.1
    · exact h.free_lt x hx

theorem Pool.link_destroy (hnone : p.link b = none) : (p.destroy b).link = p.link := by
  funext x
  by_cases hx : x = b
  · rw [hx, hnone, Pool.link, if_neg fun hlive => (Pool.live_destroy.1 hlive).2 rfl]
  · have hbuf : (p.destroy b).bufs x = p.bufs x := Pool.bufs_set_of_ne _ hx
    by_cases hlive : p.Live x
    · rw [Pool.link_of_live hlive, Pool.link_of_live (Pool.live_destroy.2 ⟨hlive, hx⟩), hbuf]
    · rw [Pool.link, if_neg fun h => hlive (Pool.live_destroy.1 h).1, Pool.link, if_neg hlive]

/-- The last reference to a buffer is dropped (`bt_buf_unref`): its fields
are cleared and it goes back. -/
def Pool.release (p : Pool) (b : ℕ) : Pool :=
  (p.set b { p.bufs b with ref := 0, frags := none }).destroy b

/-- **A buffer goes back** when its last reference is dropped, with no
fragments behind it. -/
theorem Users.Inv.release (h : u.Inv) (hb : 0 < u.held b) (hone : (u.pool.bufs b).ref = 1)
    (hnone : u.pool.link b = none) : Users.Inv ⟨u.pool.release b, lose u.held b⟩ := by
  have hlive := h.held_live b hb
  have href := h.ref_eq b hlive
  rw [Users.refs, hone] at href
  have hlink : (u.pool.release b).link = u.pool.link := by
    have hset : (u.pool.set b { u.pool.bufs b with ref := 0, frags := none }).link =
        u.pool.link := by
      rw [link_set hlive, ← hnone, update_eq_self]
    rw [Pool.release, link_destroy (by rw [hset, hnone]), hset]
  refine h.transfer (b := b)
    (Pool.Kept.destroy ⟨h.kept.uninit_le, h.kept.nodup, h.kept.free_lt⟩ hlive) rfl rfl hlink
    (fun x hx hxb => ⟨(live_destroy.1 hx).1, ?_, ?_⟩)
    (fun hx => absurd rfl (live_destroy.1 hx).2) (fun x hx => ?_) fun x y hxy => ?_
  · exact (bufs_set_of_ne _ hxb).trans (bufs_set_of_ne _ hxb)
  · rw [lose_apply, if_neg hxb, Nat.sub_zero]
  · rw [lose_apply] at hx
    refine live_destroy.2 ⟨h.held_live x (by omega), ?_⟩
    rintro rfl
    rw [if_pos rfl] at hx
    omega
  · refine live_destroy.2 ⟨h.link_live x y hxy, ?_⟩
    rintro rfl
    have hpos := inDegree_pos (live_of_link hxy).1.mem_range hxy
    omega

theorem Pool.getBuf_cases (h : p.getBuf = some (b, p')) :
    (∃ rest, p.free = b :: rest ∧ p' = { p with free := rest }) ∨
      (0 < p.uninitCount ∧ b = p.bufCount - p.uninitCount ∧
        p' = { p with uninitCount := p.uninitCount - 1 }) := by
  rw [Pool.getBuf] at h
  by_cases huninit : 0 < p.uninitCount
  · rw [if_pos huninit] at h
    by_cases hlt : p.uninitCount < p.bufCount
    · rw [if_pos hlt] at h
      cases hfree : p.free with
      | nil =>
        simp only [hfree] at h
        obtain ⟨rfl, rfl⟩ := Prod.mk.inj (Option.some.inj h)
        exact .inr ⟨huninit, rfl, by rw [← hfree]⟩
      | cons c rest =>
        simp only [hfree] at h
        obtain ⟨rfl, rfl⟩ := Prod.mk.inj (Option.some.inj h)
        exact .inl ⟨rest, rfl, rfl⟩
    · rw [if_neg hlt] at h
      obtain ⟨rfl, rfl⟩ := Prod.mk.inj (Option.some.inj h)
      exact .inr ⟨huninit, rfl, rfl⟩
  · rw [if_neg huninit] at h
    cases hfree : p.free with
    | nil =>
      simp only [hfree] at h
      exact absurd h nofun
    | cons c rest =>
      simp only [hfree] at h
      obtain ⟨rfl, rfl⟩ := Prod.mk.inj (Option.some.inj h)
      exact .inl ⟨rest, rfl, rfl⟩

/-- **The buffer taken was not in use**, and it alone comes to be. -/
theorem Pool.Kept.getBuf (h : p.Kept) (hget : p.getBuf = some (b, p')) :
    p'.Kept ∧ ¬ p.Live b ∧ (∀ x, p'.Live x ↔ p.Live x ∨ x = b) ∧ p'.bufs = p.bufs ∧
      p'.bufCount = p.bufCount ∧ p'.maxAllocSize = p.maxAllocSize := by
  have hle := h.uninit_le
  obtain ⟨rest, hfree, rfl⟩ | ⟨hpos, rfl, rfl⟩ := Pool.getBuf_cases hget
  · have hnodup := h.nodup
    have hlt := h.free_lt
    rw [hfree] at hnodup hlt
    have hb := hlt b List.mem_cons_self
    refine ⟨⟨hle, (List.nodup_cons.1 hnodup).2, fun x hx => hlt x (List.mem_cons_of_mem b hx)⟩,
      fun hlive => hlive.2 (hfree ▸ List.mem_cons_self), fun x => ?_, rfl, rfl, rfl⟩
    rw [Pool.Live, Pool.Live, hfree, List.mem_cons, not_or]
    constructor
    · rintro ⟨hxlt, hx⟩
      by_cases hxb : x = b
      · exact .inr hxb
      · exact .inl ⟨hxlt, hxb, hx⟩
    · rintro (⟨hxlt, -, hx⟩ | rfl)
      · exact ⟨hxlt, hx⟩
      · exact ⟨hb, (List.nodup_cons.1 hnodup).1⟩
  · refine ⟨⟨by dsimp only; omega, h.nodup, fun x hx => ?_⟩,
      fun hlive => absurd hlive.1 (Nat.lt_irrefl _), fun x => ?_, rfl, rfl, rfl⟩
    · have := h.free_lt x hx
      dsimp only
      omega
    · rw [Pool.Live, Pool.Live]
      dsimp only
      constructor
      · rintro ⟨hxlt, hx⟩
        by_cases hxb : x = p.bufCount - p.uninitCount
        · exact .inr hxb
        · exact .inl ⟨by omega, hx⟩
      · rintro (⟨hxlt, hx⟩ | rfl)
        · exact ⟨by omega, hx⟩
        · exact ⟨by omega, fun hx => absurd (h.free_lt _ hx) (Nat.lt_irrefl _)⟩

/-- **A buffer taken and filled in** belongs to the user that asked. -/
theorem Users.Inv.fresh (h : u.Inv) (hget : u.pool.getBuf = some (b, p'))
    (hone : buf.ref = 1) (hfrags : buf.frags = none) (hstored : u.pool.Stored b buf) :
    Users.Inv ⟨p'.set b buf, gain u.held b⟩ := by
  obtain ⟨hkept, hnot, hlive, hbufs, hcount, hmax⟩ := h.kept.getBuf hget
  have hzero := h.refs_eq_zero hnot
  rw [Users.refs] at hzero
  have hb : p'.Live b := (hlive b).2 (.inr rfl)
  have hlink : (p'.set b buf).link = u.pool.link := by
    rw [link_set hb, hfrags]
    funext x
    by_cases hx : x = b
    · rw [hx, update_self, link, if_neg hnot]
    · rw [update_of_ne hx, link, link, hbufs]
      exact if_congr ((hlive x).trans (or_iff_left hx)) rfl rfl
  refine h.transfer (b := b) ⟨hkept.uninit_le, hkept.nodup, hkept.free_lt⟩ hcount hmax hlink
    (fun x hx hxb => ⟨((hlive x).1 hx).resolve_right hxb, ?_, ?_⟩) (fun _ => ?_)
    (fun x hx => ?_) fun x y hxy => (hlive y).2 (.inl (h.link_live x y hxy))
  · rw [bufs_set_of_ne _ hxb, hbufs]
  · rw [gain_apply, if_neg hxb, Nat.add_zero]
  · rw [bufs_set_self, hone, Users.refs]
    dsimp only
    rw [gain_apply, if_pos rfl]
    exact ⟨by omega, Nat.one_pos, by decide, hstored⟩
  · rw [gain_apply] at hx
    by_cases hxb : x = b
    · exact (hlive x).2 (.inr hxb)
    · rw [if_neg hxb] at hx
      exact (hlive x).2 (.inl (h.held_live x hx))

/-- **A buffer taken and given back** leaves the users what they hold. -/
theorem Users.Inv.putBack (h : u.Inv) (hget : u.pool.getBuf = some (b, p'))
    (hfrags : buf.frags = none) : Users.Inv ⟨(p'.set b buf).destroy b, u.held⟩ := by
  obtain ⟨hkept, hnot, hlive, hbufs, hcount, hmax⟩ := h.kept.getBuf hget
  have hb : p'.Live b := (hlive b).2 (.inr rfl)
  have hnone : (p'.set b buf).link b = none := by
    rw [link_set hb, update_self, hfrags]
  have hold : ∀ x, ((p'.set b buf).destroy b).Live x ↔ u.pool.Live x := fun x => by
    rw [live_destroy]
    constructor
    · exact fun ⟨hx, hxb⟩ => ((hlive x).1 hx).resolve_right hxb
    · exact fun hx => ⟨(hlive x).2 (.inl hx), fun hxb => hnot (hxb ▸ hx)⟩
  have hlink : ((p'.set b buf).destroy b).link = u.pool.link := by
    rw [link_destroy hnone, link_set hb, hfrags]
    funext x
    by_cases hx : x = b
    · rw [hx, update_self, link, if_neg hnot]
    · rw [update_of_ne hx, link, link, hbufs]
      exact if_congr ((hlive x).trans (or_iff_left hx)) rfl rfl
  refine h.transfer (b := b)
    (Pool.Kept.destroy ⟨hkept.uninit_le, hkept.nodup, hkept.free_lt⟩ hb) hcount hmax hlink
    (fun x hx hxb => ⟨(hold x).1 hx, ?_, rfl⟩)
    (fun hx => absurd rfl (live_destroy.1 hx).2)
    (fun x hx => (hold x).2 (h.held_live x hx))
    fun x y hxy => (hold y).2 (h.link_live x y hxy)
  exact (bufs_set_of_ne _ hxb).trans
    ((bufs_set_of_ne _ hxb).trans (congrFun hbufs x))

/-! ## Allocation -/

theorem Pool.allocLen_of_none (h : p.getBuf = none) (size : ℕ) : p.allocLen size = (p, none) := by
  rw [Pool.allocLen, h]

theorem Pool.allocLen_of_some (h : p.getBuf = some (b, p')) (size : ℕ) :
    ∃ buf, p.allocLen size = (p'.set b buf, some b) ∧ buf.ref = 1 ∧ buf.frags = none ∧
      buf.external = false ∧ p'.Stored b buf := by
  by_cases hsize : size = 0
  · refine ⟨{ ref := 1, userData := List.replicate p'.userDataSize 0 }, ?_, rfl, rfl, rfl,
      .inr ⟨rfl, .inl rfl⟩⟩
    rw [Pool.allocLen, h]
    simp only [Pool.dataAlloc, hsize, ne_eq, not_true_eq_false, if_false, zero_mod]
  · refine ⟨{ ref := 1, store := some (.pool (p'.maxAllocSize * b)),
              size := p'.maxAllocSize % 2 ^ 16,
              userData := List.replicate p'.userDataSize 0 }, ?_, rfl, rfl, rfl,
      .inr ⟨rfl, .inr ⟨rfl, mod_le _ _⟩⟩⟩
    rw [Pool.allocLen, h]
    simp only [Pool.dataAlloc, hsize, ne_eq, not_false_eq_true, if_true, Pool.fixedDataAlloc,
      Option.map_some]

/-- A pool that gives a buffer gives one that was not in use, and its
references are then one, the caller's. -/
structure Gives (u : Users) (r : Pool × Option ℕ) : Prop where
  inv : Users.Inv ⟨r.1, gainOpt u.held r.2⟩
  fresh : ∀ b, r.2 = some b → u.refs b = 0
  live : ∀ b, r.2 = some b → r.1.Live b

theorem Users.Inv.gives (h : u.Inv) (hget : u.pool.getBuf = some (b, p')) (hone : buf.ref = 1)
    (hfrags : buf.frags = none) (hstored : p'.Stored b buf) : Gives u (p'.set b buf, some b) := by
  obtain ⟨-, hnot, hlive, -, -, hmax⟩ := h.kept.getBuf hget
  have hstored' : u.pool.Stored b buf := by
    rw [Pool.Stored, ← hmax]
    exact hstored
  refine ⟨h.fresh hget hone hfrags hstored', fun c hc => ?_, fun c hc => ?_⟩
  · exact Option.some.inj hc ▸ h.refs_eq_zero hnot
  · exact Option.some.inj hc ▸ (hlive b).2 (.inr rfl)

theorem Users.Inv.gives_none (h : Users.Inv ⟨p, u.held⟩) : Gives u (p, none) :=
  ⟨h, nofun, nofun⟩

theorem Users.Inv.allocLen (h : u.Inv) (size : ℕ) : Gives u (u.pool.allocLen size) := by
  cases hget : u.pool.getBuf with
  | none =>
    rw [allocLen_of_none hget]
    exact Users.Inv.gives_none h
  | some r =>
    obtain ⟨buf, halloc, hone, hfrags, -, hstored⟩ := allocLen_of_some hget size
    rw [halloc]
    exact h.gives hget hone hfrags hstored

theorem Users.Inv.allocWithData (h : u.Inv) (addr : ℕ) (data : List UInt8) :
    Gives u (u.pool.allocWithData addr data) := by
  cases hget : u.pool.getBuf with
  | none =>
    rw [Pool.allocWithData, allocLen_of_none hget]
    exact Users.Inv.gives_none h
  | some r =>
    obtain ⟨buf, halloc, hone, hfrags, -, -⟩ := allocLen_of_some hget 0
    rw [Pool.allocWithData, halloc]
    simp only [set_set, bufs_set_self]
    exact h.gives hget hone hfrags (.inl ⟨rfl, addr, rfl⟩)

theorem Users.Inv.clone (h : u.Inv) (b : ℕ) : Gives u (u.pool.clone b) := by
  cases hget : u.pool.getBuf with
  | none =>
    rw [Pool.clone, allocLen_of_none hget]
    exact Users.Inv.gives_none h
  | some r =>
    obtain ⟨c, p'⟩ := r
    obtain ⟨buf, halloc, hone, hfrags, hext, -⟩ := allocLen_of_some hget 0
    rw [Pool.clone, halloc]
    simp only [fixedDataAlloc, set_set, bufs_set_self]
    split
    · exact Users.Inv.gives_none (h.putBack hget hfrags)
    · exact h.gives hget hone hfrags (.inr ⟨hext, .inr ⟨rfl, mod_le _ _⟩⟩)

/-! ## Dropping a reference -/

theorem takeWhile_congr {α : Type*} {f g : α → Bool} {l : List α} (h : ∀ a ∈ l, f a = g a) :
    l.takeWhile f = l.takeWhile g ∧ l.dropWhile f = l.dropWhile g := by
  induction l with
  | nil => exact ⟨rfl, rfl⟩
  | cons a l ih =>
    obtain ⟨htake, hdrop⟩ := ih fun b hb => h b (List.mem_cons_of_mem a hb)
    rw [List.takeWhile_cons, List.takeWhile_cons, List.dropWhile_cons, List.dropWhile_cons,
      h a List.mem_cons_self, htake, hdrop]
    exact ⟨rfl, rfl⟩

/-- What dropping a reference to the head of the chain `l` does: the
longest prefix of buffers with one reference goes back to the queue, the
buffer behind it loses one, and nothing else changes. -/
structure Released (p : Pool) (l : List ℕ) (p' : Pool) : Prop where
  free : p'.free = (l.takeWhile fun x => (p.bufs x).ref == 1).reverse ++ p.free
  next : ∀ x, (l.dropWhile fun x => (p.bufs x).ref == 1).head? = some x →
    p'.bufs x = { p.bufs x with ref := (p.bufs x).ref - 1 }
  rest : ∀ x, (x ∉ l.takeWhile fun x => (p.bufs x).ref == 1) →
    (l.dropWhile fun x => (p.bufs x).ref == 1).head? ≠ some x → p'.bufs x = p.bufs x
  bufCount : p'.bufCount = p.bufCount
  uninitCount : p'.uninitCount = p.uninitCount

theorem Pool.unrefLoop_none (fuel : ℕ) (p : Pool) : Pool.unrefLoop fuel p none = p := by
  cases fuel <;> rfl

theorem Released.cons {p₁ p' : Pool} (hone : (p.bufs b).ref = 1) (hb : b ∉ l)
    (hfree : p₁.free = b :: p.free) (hbufs : ∀ x, x ≠ b → p₁.bufs x = p.bufs x)
    (hcount : p₁.bufCount = p.bufCount) (huninit : p₁.uninitCount = p.uninitCount)
    (h : Released p₁ l p') : Released p (b :: l) p' := by
  have hsame : ∀ x ∈ l, ((p₁.bufs x).ref == 1) = ((p.bufs x).ref == 1) := fun x hx => by
    rw [hbufs x fun hxb => hb (hxb ▸ hx)]
  obtain ⟨htake, hdrop⟩ := takeWhile_congr hsame
  have hhead : ((p.bufs b).ref == 1) = true := beq_iff_eq.2 hone
  have hdropCons : (b :: l).dropWhile (fun x => (p.bufs x).ref == 1) =
      l.dropWhile fun x => (p₁.bufs x).ref == 1 := by
    rw [List.dropWhile_cons, if_pos hhead, hdrop]
  have htakeCons : (b :: l).takeWhile (fun x => (p.bufs x).ref == 1) =
      b :: l.takeWhile fun x => (p₁.bufs x).ref == 1 := by
    rw [List.takeWhile_cons, if_pos hhead, htake]
  refine ⟨?_, fun x hx => ?_, fun x hx hne => ?_, h.bufCount.trans hcount,
    h.uninitCount.trans huninit⟩
  · rw [h.free, hfree, htakeCons, List.reverse_cons, List.append_assoc]
    rfl
  · rw [hdropCons] at hx
    have hmem : x ∈ l := (List.dropWhile_sublist _).subset (List.mem_of_mem_head? hx)
    have hxb : x ≠ b := fun hxb => hb (hxb ▸ hmem)
    rw [h.next x hx, hbufs x hxb]
  · rw [htakeCons, List.mem_cons, not_or] at hx
    rw [hdropCons] at hne
    rw [h.rest x hx.2 hne, hbufs x hx.1]

theorem Pool.release_bufs (h : x ≠ b) : (p.release b).bufs x = p.bufs x :=
  (Pool.bufs_set_of_ne _ h).trans (Pool.bufs_set_of_ne _ h)

/-- **Dropping a reference** keeps the invariant and goes down the chain
as far as counts reach zero. -/
theorem Users.Inv.unrefLoop {fuel : ℕ} (h : u.Inv) (hb : 0 < u.held b)
    (hl : Follows u.pool.link (some b) l) (hfuel : l.length ≤ fuel) :
    Users.Inv ⟨Pool.unrefLoop fuel u.pool (some b), lose u.held b⟩ ∧
      Released u.pool l (Pool.unrefLoop fuel u.pool (some b)) := by
  induction l generalizing u b fuel with
  | nil => nomatch hl
  | cons a l ih =>
    have hnodup := hl.nodup h.ranked
    obtain ⟨rfl, htail⟩ : b = a ∧ Follows u.pool.link (u.pool.link b) l := by
      cases hl with
      | cons hl => exact ⟨rfl, hl⟩
    obtain ⟨fuel, rfl⟩ : ∃ n, fuel = n + 1 :=
      exists_eq_add_one_of_ne_zero fun h0 => by rw [h0] at hfuel; exact absurd hfuel nofun
    have hlive := h.held_live b hb
    have hpos := h.ref_pos b hlive
    rw [Pool.unrefLoop, if_neg (Nat.pos_iff_ne_zero.1 hpos)]
    by_cases hlt : 1 < (u.pool.bufs b).ref
    · have hne : ((u.pool.bufs b).ref == 1) ≠ true := fun h1 => by
        rw [beq_iff_eq.1 h1] at hlt
        exact Nat.lt_irrefl 1 hlt
      rw [if_pos hlt]
      refine ⟨h.drop hb hlt, ?_, fun x hx => ?_, fun x _ hx => ?_, rfl, rfl⟩
      · rw [List.takeWhile_cons, if_neg hne]
        rfl
      · rw [List.dropWhile_cons, if_neg hne] at hx
        obtain rfl := Option.some.inj hx
        exact bufs_set_self _ _ _
      · rw [List.dropWhile_cons, if_neg hne] at hx
        exact bufs_set_of_ne _ fun hxb => hx (hxb ▸ rfl)
    · have hone : (u.pool.bufs b).ref = 1 := by omega
      rw [if_neg hlt]
      change Users.Inv ⟨Pool.unrefLoop fuel (u.pool.release b) (u.pool.bufs b).frags, _⟩ ∧
        Released _ _ (Pool.unrefLoop fuel (u.pool.release b) (u.pool.bufs b).frags)
      rw [← link_of_live hlive]
      cases hnext : u.pool.link b with
      | none =>
        rw [hnext] at htail
        cases htail
        rw [unrefLoop_none]
        refine ⟨h.release hb hone hnext, Released.cons hone List.not_mem_nil rfl
          (fun x hx => release_bufs hx) rfl rfl ?_⟩
        exact ⟨rfl, nofun, fun _ _ _ => rfl, rfl, rfl⟩
      | some c =>
        rw [hnext] at htail
        have hbl : b ∉ l := (List.nodup_cons.1 hnodup).1
        have hcl : c ∈ l := by
          cases htail with
          | cons _ => exact List.mem_cons_self
        have hcb : c ≠ b := fun hcb => hbl (hcb ▸ hcl)
        -- The link is cut, then the buffer goes back alone.
        have hcut := h.cut hnext
        have hpool : (u.pool.setFrags b none).release b = u.pool.release b := by
          rw [Pool.release, setFrags, set_set, bufs_set_self, Pool.release]
        have hlinkCut : (u.pool.setFrags b none).link = update u.pool.link b none :=
          link_setFrags hlive none
        have hrel := hcut.release (b := b)
          (by dsimp only; rw [gain_apply, if_neg hcb.symm]; exact hb)
          (by rw [setFrags, bufs_set_self]; exact hone)
          (by rw [hlinkCut, update_self])
        rw [hpool] at hrel
        have hheld : 0 < lose (gain u.held c) b c := by
          rw [lose_apply, if_neg hcb, gain_apply, if_pos rfl]
          omega
        have hlink : (u.pool.release b).link = update u.pool.link b none := by
          rw [← hpool, Pool.release, link_destroy]
          · rw [link_set (p := u.pool.setFrags b none) hlive, hlinkCut, update_idem]
          · rw [link_set (p := u.pool.setFrags b none) hlive, update_self]
        have hl' : Follows (u.pool.release b).link (some c) l := htail.congr fun x hx => by
          have hxb : x ≠ b := fun hxb => hbl (hxb ▸ hx)
          rw [hlink, update_of_ne hxb]
        obtain ⟨hinv, hreleased⟩ := ih hrel hheld hl' (le_of_succ_le_succ hfuel)
        refine ⟨?_, Released.cons hone hbl rfl (fun x hx => release_bufs hx) rfl rfl
          hreleased⟩
        rw [lose_lose_gain] at hinv
        exact hinv

theorem Users.Inv.chain (h : u.Inv) (hb : u.pool.Live b) :
    ∃ l, Follows u.pool.link (some b) l ∧ l.length ≤ u.pool.bufCount := by
  obtain ⟨l, hl⟩ := h.ranked.exists_follows (some b)
  refine ⟨l, hl, ?_⟩
  have hle := hl.length_le h.ranked (fun x y hxy => (h.link_live x y hxy).mem_range) hb.mem_range
  rwa [card_range] at hle

theorem Users.Inv.unref (h : u.Inv) (hb : 0 < u.held b) :
    Users.Inv ⟨u.pool.unref b, lose u.held b⟩ ∧
      ∃ l, Follows u.pool.link (some b) l ∧ Released u.pool l (u.pool.unref b) := by
  obtain ⟨l, hl, hle⟩ := h.chain (h.held_live b hb)
  obtain ⟨hinv, hreleased⟩ := h.unrefLoop hb hl (hle.trans (le_succ _))
  exact ⟨hinv, l, hl, hreleased⟩

/-! ## Chains of fragments -/

theorem Pool.fragLastLoop_of_follows {p : Pool} {fuel : ℕ}
    (h : Follows (fun b => (p.bufs b).frags) (some b) l) (hfuel : l.length ≤ fuel + 1) :
    l.getLast? = some (p.fragLastLoop fuel b) := by
  induction fuel generalizing b l with
  | zero =>
    cases h with
    | cons htail =>
      rw [List.length_cons] at hfuel
      rw [List.length_eq_zero_iff.1 (le_zero.1 (le_of_succ_le_succ hfuel))]
      rfl
  | succ fuel ih =>
    cases h with
    | @cons _ l htail =>
      rw [Pool.fragLastLoop]
      cases hnext : (p.bufs b).frags with
      | none =>
        rw [hnext] at htail
        cases htail
        rfl
      | some c =>
        rw [hnext] at htail
        have hlast := ih htail (le_of_succ_le_succ hfuel)
        rw [List.getLast?_cons, hlast]
        rfl

theorem Users.Inv.live_of_reaches (h : u.Inv) (ha : u.pool.Live a)
    (hab : Reaches u.pool.link a b) : u.pool.Live b := by
  cases hab with
  | refl => exact ha
  | tail _ hstep => exact h.link_live _ _ hstep

/-- **`bt_buf_frag_last` finds the end** of the chain. -/
theorem Users.Inv.fragLast (h : u.Inv) (hb : u.pool.Live b) :
    ∃ l, Follows u.pool.link (some b) l ∧ l.getLast? = some (u.pool.fragLast b) := by
  obtain ⟨l, hl, hle⟩ := h.chain hb
  have hfrags : Follows (fun b => (u.pool.bufs b).frags) (some b) l := hl.congr fun a ha =>
    (link_of_live (h.live_of_reaches hb (hl.mem_iff.1 ha))).symm
  exact ⟨l, hl, fragLastLoop_of_follows hfrags (hle.trans (le_succ _))⟩

theorem Users.Inv.reaches_fragLast (h : u.Inv) (hb : u.pool.Live b) :
    Reaches u.pool.link b (u.pool.fragLast b) ∧ u.pool.link (u.pool.fragLast b) = none := by
  obtain ⟨l, hl, hlast⟩ := h.fragLast hb
  exact ⟨hl.mem_iff.1 (List.mem_of_getLast? hlast), hl.next_getLast hlast⟩

theorem Users.Inv.fragLast_eq (h : u.Inv) (ha : u.pool.Live a)
    (hab : Reaches u.pool.link a b) : u.pool.fragLast a = u.pool.fragLast b := by
  obtain ⟨l, hl, hlast⟩ := h.fragLast ha
  obtain ⟨l', hl', hlast'⟩ := h.fragLast (h.live_of_reaches ha hab)
  rw [hl.getLast?_of_reaches hl' hab, hlast'] at hlast
  exact (Option.some.inj hlast).symm

/-- **A fragment goes into a chain**: the link of its parent is cut, then
the parent is tied to the fragment and the fragment's end to the rest. -/
theorem Users.Inv.fragInsert (h : u.Inv) (hp : u.pool.Live parent) (hf : 0 < u.held frag)
    (hne : u.pool.fragLast parent ≠ u.pool.fragLast frag) :
    Users.Inv ⟨u.pool.fragInsert parent frag, lose u.held frag⟩ := by
  have hfrag := h.held_live frag hf
  have hapart : ¬ Reaches u.pool.link frag parent := fun hreach =>
    hne (h.fragLast_eq hfrag hreach).symm
  rw [Pool.fragInsert]
  cases hnext : (u.pool.bufs parent).frags with
  | none => exact h.tie hp ((link_of_live hp).trans hnext) hf hapart
  | some rest =>
    have hlink : u.pool.link parent = some rest := (link_of_live hp).trans hnext
    obtain ⟨hreach, hend⟩ := h.reaches_fragLast hfrag
    set last := u.pool.fragLast frag
    have hlast : u.pool.Live last := h.live_of_reaches hfrag hreach
    have hlastParent : last ≠ parent := fun heq => hapart (heq ▸ hreach)
    have hlink₁ : (u.pool.setFrags parent none).link = update u.pool.link parent none :=
      link_setFrags hp none
    have hlink₂ : ((u.pool.setFrags parent none).setFrags parent (some frag)).link =
        update u.pool.link parent (some frag) := by
      rw [setFrags_setFrags, link_setFrags hp]
    have h₁ := h.cut hlink
    have h₂ := h₁.tie (a := parent) (b := frag) hp (by rw [hlink₁, update_self])
      (by dsimp only; rw [gain_apply]; omega)
      (by rw [hlink₁]; exact fun hr => hapart (hr.mono (update_none_le _ _)))
    -- The rest does not lead to the parent, so it does not see the new link.
    have hrest : ¬ Reaches (update u.pool.link parent (some frag)) rest last := by
      intro hr
      have hold : Reaches u.pool.link rest last := hr.of_update (h.ranked.not_reaches hlink)
      exact hne (((h.fragLast_eq hp (.head hlink hold))).trans (h.fragLast_eq hfrag hreach).symm)
    have h₃ := h₂.tie (a := last) (b := rest) hlast
      (by rw [hlink₂, update_of_ne hlastParent]; exact hend)
      (by
        have hrf : frag ≠ rest := fun heq => hne
          ((h.fragLast_eq hp (.single hlink)).trans (heq ▸ rfl))
        dsimp only
        rw [lose_apply, gain_apply, if_pos rfl, if_neg hrf.symm]
        omega)
      (by rw [hlink₂]; exact hrest)
    dsimp only at h₃
    rw [setFrags_setFrags, lose_lose_gain, setFrags_comm hlastParent.symm] at h₃
    exact h₃

theorem Users.Inv.fragAdd {head : ℕ} (h : u.Inv) (hhead : u.pool.Live head)
    (hf : 0 < u.held frag) (hne : u.pool.fragLast head ≠ u.pool.fragLast frag) :
    Users.Inv ⟨(u.pool.fragAdd (some head) frag).1, lose u.held frag⟩ := by
  have hreach := (h.reaches_fragLast hhead).1
  refine h.fragInsert (h.live_of_reaches hhead hreach) hf ?_
  rw [← h.fragLast_eq hhead hreach]
  exact hne

theorem Users.Inv.fragDel_none (h : u.Inv) (hf : 0 < u.held frag) :
    Users.Inv ⟨(u.pool.fragDel none frag).1,
      lose (gainOpt u.held (u.pool.fragDel none frag).2) frag⟩ := by
  have hlive := h.held_live frag hf
  rw [Pool.fragDel]
  dsimp only
  cases hnext : (u.pool.bufs frag).frags with
  | none =>
    rw [setFrags_self hnext]
    exact (h.unref hf).1
  | some next =>
    have hcut := h.cut ((link_of_live hlive).trans hnext)
    exact (hcut.unref (b := frag) (by dsimp only; rw [gain_apply]; omega)).1

/-- **A fragment comes out of a chain**: the links to it and from it are
cut, and its parent is tied to the rest. -/
theorem Users.Inv.fragDel_some (h : u.Inv) (hp : u.pool.Live parent)
    (hpf : (u.pool.bufs parent).frags = some frag) :
    Users.Inv ⟨(u.pool.fragDel (some parent) frag).1, u.held⟩ := by
  have hlink : u.pool.link parent = some frag := (link_of_live hp).trans hpf
  have hfrag : u.pool.Live frag := h.link_live parent frag hlink
  have hne : frag ≠ parent := fun heq =>
    h.ranked.not_reaches hlink (by rw [heq]; exact .refl)
  have h₁ := h.cut hlink
  have hlink₁ : (u.pool.setFrags parent none).link = update u.pool.link parent none :=
    link_setFrags hp none
  have hsame : ((u.pool.setFrags parent (u.pool.bufs frag).frags).bufs frag).frags =
      (u.pool.bufs frag).frags := by
    rw [setFrags, bufs_set_of_ne _ hne]
  rw [Pool.fragDel]
  dsimp only
  cases hnext : (u.pool.bufs frag).frags with
  | none =>
    rw [hnext] at hsame
    rw [setFrags_self hsame]
    have hunref := (h₁.unref (b := frag) (by dsimp only; rw [gain_apply, if_pos rfl]; omega)).1
    dsimp only at hunref
    rw [lose_gain] at hunref
    exact hunref
  | some next =>
    have hlinkFrag : u.pool.link frag = some next := (link_of_live hfrag).trans hnext
    have h₂ := h₁.cut (a := frag) (b := next)
      (by rw [hlink₁, update_of_ne hne]; exact hlinkFrag)
    have hlink₂ : ((u.pool.setFrags parent none).setFrags frag none).link =
        update (update u.pool.link parent none) frag none := by
      rw [link_setFrags (p := u.pool.setFrags parent none) hfrag, hlink₁]
    have hback : ¬ Reaches u.pool.link next parent := fun hr =>
      h.ranked.not_reaches hlink (.head hlinkFrag hr)
    have h₃ := h₂.tie (a := parent) (b := next) hp
      (by rw [hlink₂, update_of_ne hne.symm, update_self])
      (by dsimp only; rw [gain_apply, if_pos rfl]; omega)
      (by
        rw [hlink₂]
        exact fun hr => hback ((hr.mono (update_none_le _ _)).mono (update_none_le _ _)))
    dsimp only at h₃
    rw [lose_gain, setFrags_comm hne, setFrags_setFrags] at h₃
    have hunref := (h₃.unref (b := frag) (by dsimp only; rw [gain_apply, if_pos rfl]; omega)).1
    dsimp only at hunref
    rw [lose_gain] at hunref
    exact hunref

/-! ## Runs -/

/-- **Every call the documentation allows keeps the invariant.** -/
theorem Users.Inv.step {op : BufOp} (h : u.Inv) (hop : u.Permits op) : (u.step op).Inv := by
  cases op with
  | allocLen size => exact (h.allocLen size).inv
  | allocWithData addr data => exact (h.allocWithData addr data).inv
  | clone b => exact (h.clone b).inv
  | ref b => exact h.ref hop.1 hop.2
  | unref b => exact (h.unref hop).1
  | fragInsert parent frag => exact h.fragInsert hop.1 hop.2.1 hop.2.2
  | fragAdd head frag =>
    cases head with
    | none => exact h.ref hop.1 hop.2
    | some head => exact h.fragAdd hop.1 hop.2.1 hop.2.2
  | fragDel parent frag =>
    cases parent with
    | none => exact h.fragDel_none hop
    | some parent => exact h.fragDel_some hop.1 hop.2

theorem Users.Inv.run {ops : List BufOp} (h : u.Inv) (hops : u.Allowed ops) : (u.run ops).Inv := by
  induction ops generalizing u with
  | nil => exact h
  | cons op ops ih => exact ih (h.step hops.1) hops.2

theorem inv_init (bufCount dataSize userDataSize : ℕ) (memory : ℕ → Buf) :
    (usersInit (poolInit bufCount dataSize userDataSize memory)).Inv := by
  have hlive : ∀ b, ¬ (poolInit bufCount dataSize userDataSize memory).Live b := fun b hb => by
    have := hb.1
    rw [poolInit] at this
    dsimp only at this
    omega
  have hlink : ∀ a, (poolInit bufCount dataSize userDataSize memory).link a = none := fun a =>
    if_neg (hlive a)
  refine ⟨⟨le_rfl, List.nodup_nil, nofun⟩, fun b hb => absurd hb (hlive b),
    fun b hb => absurd hb (hlive b), fun b hb => absurd hb (hlive b),
    fun b hb => absurd hb (Nat.lt_irrefl 0), fun a b hab => ?_,
    ⟨fun _ => 0, fun a b hab => ?_⟩, fun b hb => absurd hb (hlive b)⟩
  · exact nomatch (hlink a).symm.trans hab
  · exact nomatch (hlink a).symm.trans hab

/-! ## Conservation -/

/-- A buffer that was never used. -/
def Users.Never (u : Users) (b : ℕ) : Prop :=
  u.pool.Uninit b ∧ u.pool.free.count b = 0 ∧ u.refs b = 0

/-- A buffer in the free queue, once. -/
def Users.Queued (u : Users) (b : ℕ) : Prop :=
  ¬ u.pool.Uninit b ∧ u.pool.free.count b = 1 ∧ u.refs b = 0

/-- A buffer that is allocated: its count is at least 1, and that of the
references to it. -/
def Users.Allocated (u : Users) (b : ℕ) : Prop :=
  ¬ u.pool.Uninit b ∧ u.pool.free.count b = 0 ∧ (u.pool.bufs b).ref = u.refs b ∧ 1 ≤ u.refs b

/-- The three states of a buffer. -/
inductive BufState
  | never
  | queued
  | allocated
  deriving DecidableEq, Repr

def Users.Is (u : Users) (b : ℕ) : BufState → Prop
  | .never => u.Never b
  | .queued => u.Queued b
  | .allocated => u.Allocated b

/-- The buffer a call allocates. -/
def Users.returned (u : Users) : BufOp → Option ℕ
  | .allocLen size => (u.pool.allocLen size).2
  | .allocWithData addr data => (u.pool.allocWithData addr data).2
  | .clone b => (u.pool.clone b).2
  | _ => none

/-- The bytes of the pool's data that a buffer has. -/
def Pool.storage (p : Pool) (b : ℕ) : Finset ℕ :=
  match (p.bufs b).store with
  | some (.pool offset) => Finset.Ico offset (offset + (p.bufs b).size)
  | _ => ∅

theorem Users.Inv.allocated (h : u.Inv) (hb : u.pool.Live b) : u.Allocated b := by
  have href := h.ref_eq b hb
  have hpos := h.ref_pos b hb
  refine ⟨fun hun => absurd hb.1 (Nat.not_lt.2 hun.1), List.count_eq_zero.2 hb.2, href, ?_⟩
  omega

theorem Users.Inv.live (h : u.Inv) (hb : u.Allocated b) : u.pool.Live b :=
  not_not.1 fun hnot => by
    have hzero := h.refs_eq_zero hnot
    have := hb.2.2.2
    omega

theorem Users.Is.unique {s t : BufState} (hs : u.Is b s) (ht : u.Is b t) : s = t := by
  cases s <;> cases t
  case never.never | queued.queued | allocated.allocated => rfl
  case never.queued | never.allocated => exact absurd hs.1 ht.1
  case queued.never | allocated.never => exact absurd ht.1 hs.1
  case queued.allocated => exact absurd (hs.2.1.symm.trans ht.2.1) (by decide)
  case allocated.queued => exact absurd (ht.2.1.symm.trans hs.2.1) (by decide)

/-- **A buffer is in exactly one of the three states.** -/
theorem Users.Inv.partition (h : u.Inv) (hb : b < u.pool.bufCount) : ∃! s, u.Is b s := by
  have hexists : ∃ s, u.Is b s := by
    by_cases hun : u.pool.Uninit b
    · have hnot : ¬ u.pool.Live b := fun hlive => absurd hlive.1 (Nat.not_lt.2 hun.1)
      refine ⟨.never, hun, List.count_eq_zero.2 fun hin => ?_, h.refs_eq_zero hnot⟩
      exact absurd (h.kept.free_lt b hin) (Nat.not_lt.2 hun.1)
    · have hlt : b < u.pool.bufCount - u.pool.uninitCount :=
        not_le.1 fun hle => hun ⟨hle, hb⟩
      by_cases hin : b ∈ u.pool.free
      · refine ⟨.queued, hun, List.count_eq_one_of_mem h.kept.nodup hin, ?_⟩
        exact h.refs_eq_zero fun hlive => hlive.2 hin
      · exact ⟨.allocated, h.allocated ⟨hlt, hin⟩⟩
  obtain ⟨s, hs⟩ := hexists
  exact ⟨s, hs, fun t ht => Users.Is.unique ht hs⟩

theorem Users.Inv.storage_subset (h : u.Inv) (hb : u.pool.Live b) :
    u.pool.storage b ⊆ Finset.Ico (u.pool.maxAllocSize * b) (u.pool.maxAllocSize * (b + 1)) := by
  rw [storage]
  obtain ⟨-, addr, hstore⟩ | ⟨-, hstore | ⟨hstore, hle⟩⟩ := h.stored b hb
  · rw [hstore]
    exact empty_subset _
  · rw [hstore]
    exact empty_subset _
  · rw [hstore, mul_succ]
    exact Finset.Ico_subset_Ico le_rfl (Nat.add_le_add_left hle _)

/-- **Two buffers in use share no data** of the pool. -/
theorem Users.Inv.disjoint_storage (h : u.Inv) (ha : u.pool.Live a) (hb : u.pool.Live b)
    (hne : a ≠ b) : Disjoint (u.pool.storage a) (u.pool.storage b) := by
  rw [disjoint_left]
  intro x hxa hxb
  obtain ⟨hale, halt⟩ := mem_Ico.1 (h.storage_subset ha hxa)
  obtain ⟨hble, hblt⟩ := mem_Ico.1 (h.storage_subset hb hxb)
  have hab : a < b + 1 := Nat.lt_of_mul_lt_mul_left (hale.trans_lt hblt)
  have hba : b < a + 1 := Nat.lt_of_mul_lt_mul_left (hble.trans_lt halt)
  omega

/-- **A buffer allocated was not**, and its reference is the caller's. -/
theorem Users.Inv.returned {op : BufOp} (h : u.Inv) (hret : u.returned op = some b) :
    ¬ u.Allocated b ∧ (u.step op).Allocated b := by
  have hgives : ∀ r, Gives u r → r.2 = some b →
      ¬ u.Allocated b ∧ Users.Allocated ⟨r.1, gainOpt u.held r.2⟩ b := fun r hr hb => by
    refine ⟨fun hal => ?_, hr.inv.allocated (hr.live b hb)⟩
    have hzero := hr.fresh b hb
    have := hal.2.2.2
    omega
  cases op with
  | allocLen size => exact hgives _ (h.allocLen size) hret
  | allocWithData addr data => exact hgives _ (h.allocWithData addr data) hret
  | clone c => exact hgives _ (h.clone c) hret
  | ref | unref | fragInsert | fragAdd | fragDel => exact nomatch hret

/-- **The buffers of a pool are conserved**, in every state that allowed
calls lead to: each is in exactly one of the three states; what an
allocation returns was not allocated, and two allocated buffers share no
data of the pool; and dropping a reference to the head of a chain gives
back the longest prefix whose counts reach zero, and takes one from the
buffer behind it. -/
theorem buffers_conserved (bufCount dataSize userDataSize : ℕ) (memory : ℕ → Buf)
    {ops : List BufOp}
    (hops : (usersInit (poolInit bufCount dataSize userDataSize memory)).Allowed ops) :
    let u := (usersInit (poolInit bufCount dataSize userDataSize memory)).run ops
    (∀ b < u.pool.bufCount, ∃! s, u.Is b s) ∧
    (∀ op b, u.returned op = some b → ¬ u.Allocated b ∧ (u.step op).Allocated b) ∧
    (∀ a b, u.Allocated a → u.Allocated b → a ≠ b →
      Disjoint (u.pool.storage a) (u.pool.storage b)) ∧
    ∀ b, 0 < u.held b →
      ∃ l, Follows u.pool.link (some b) l ∧ Released u.pool l (u.pool.unref b) := by
  have h := (inv_init bufCount dataSize userDataSize memory).run hops
  exact ⟨fun b hb => h.partition hb, fun op b hret => h.returned hret,
    fun a b ha hb hne => h.disjoint_storage (h.live ha) (h.live hb) hne,
    fun b hb => (h.unref hb).2⟩

/-- Two buffers chained, the second referenced apart, a clone that finds
the data of the pool too small, a fragment deleted and the chain dropped. -/
def sampleCalls : List BufOp :=
  [.allocLen 16, .allocWithData 0 (List.replicate 17 0), .ref 1, .fragAdd (some 0) 1, .clone 1,
    .allocLen 16, .fragInsert 0 2, .fragDel (some 0) 2, .unref 0, .allocLen 16]

/-- The calls on a pool of three buffers of 16 bytes, whose memory holds
links of its own. -/
theorem buffers_conserved_sample :
    let u := (usersInit (poolInit 3 16 4 fun b => { frags := some b, ref := 7 })).run sampleCalls
    (∀ b < u.pool.bufCount, ∃! s, u.Is b s) ∧
    (∀ op b, u.returned op = some b → ¬ u.Allocated b ∧ (u.step op).Allocated b) ∧
    (∀ a b, u.Allocated a → u.Allocated b → a ≠ b →
      Disjoint (u.pool.storage a) (u.pool.storage b)) ∧
    ∀ b, 0 < u.held b →
      ∃ l, Follows u.pool.link (some b) l ∧ Released u.pool l (u.pool.unref b) :=
  buffers_conserved 3 16 4 (fun b => { frags := some b, ref := 7 }) (by decide +kernel)

end Base

end OpenBlue

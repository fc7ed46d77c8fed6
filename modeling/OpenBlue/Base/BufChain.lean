import OpenBlue.Base.Model.BufChain
import OpenBlue.Base.Buf
import Mathlib.Order.Bounds.Basic
/-!
# Base — chains of fragments as byte strings

A chain stands for the concatenation of its fragments (`Pool.contents`).
The loops that seek, copy and compare are `drop`, `take` and the longest
common prefix of that one string, wherever its fragments begin and end; and
`bt_buf_append_bytes` adds a prefix of its data to the end of it, all of it
unless an allocation fails (`chain_bytes`).
-/

namespace OpenBlue

namespace Base

open Function List Pool

variable {p : Pool} {b : ℕ} {o : Option ℕ} {l : List ℕ}

/-- The chain from `o` on has the fragments `l`: buffers in use, none
twice. -/
structure Pool.IsChain (p : Pool) (o : Option ℕ) (l : List ℕ) : Prop where
  follows : Follows (fun b => (p.bufs b).frags) o l
  nodup : l.Nodup
  live : ∀ f ∈ l, p.Live f
  fits : ∀ f ∈ l, (p.bufs f).Fits

/-- The bytes of a chain. -/
def Pool.contents (p : Pool) (l : List ℕ) : List UInt8 := l.flatMap fun f => (p.bufs f).bytes

@[simp] theorem Pool.contents_nil : p.contents [] = [] := rfl

@[simp] theorem Pool.contents_cons (f : ℕ) (l : List ℕ) :
    p.contents (f :: l) = (p.bufs f).bytes ++ p.contents l := flatMap_cons

theorem Pool.contents_append (l l' : List ℕ) :
    p.contents (l ++ l') = p.contents l ++ p.contents l' := flatMap_append

theorem Pool.contents_congr {p' : Pool} (h : ∀ f ∈ l, (p'.bufs f).bytes = (p.bufs f).bytes) :
    p'.contents l = p.contents l := by
  induction l with
  | nil => rfl
  | cons f l ih =>
    rw [Pool.contents_cons, Pool.contents_cons, h f mem_cons_self,
      ih fun g hg => h g (mem_cons_of_mem f hg)]

theorem Pool.IsChain.length_le (h : p.IsChain o l) : l.length ≤ p.bufCount := by
  have hsub : l ⊆ List.range p.bufCount := fun f hf => List.mem_range.2 (h.live f hf).lt
  have hle := (List.Nodup.subperm h.nodup hsub).length_le
  rwa [length_range] at hle

/-! ## Reading -/

theorem Pool.fragsLenLoop_eq {fuel : ℕ} (h : Follows (fun b => (p.bufs b).frags) o l)
    (hfuel : l.length ≤ fuel) : p.fragsLenLoop fuel o = (p.contents l).length := by
  induction h generalizing fuel with
  | nil => cases fuel <;> rfl
  | @cons a l hl ih =>
    cases fuel with
    | zero => simp at hfuel
    | succ fuel =>
      rw [Pool.fragsLenLoop, ih (Nat.le_of_succ_le_succ hfuel), Pool.contents_cons, length_append]

/-- **The seek drops the bytes before the offset**, and stops inside a
fragment or at the end. -/
theorem Pool.seekLoop_spec {fuel : ℕ} (h : Follows (fun b => (p.bufs b).frags) o l)
    (hfuel : l.length ≤ fuel) (offset : ℕ) :
    ∃ l', Follows (fun b => (p.bufs b).frags) (p.seekLoop fuel o offset).1 l' ∧
      l'.length ≤ l.length ∧
      (p.contents l').drop (p.seekLoop fuel o offset).2 = (p.contents l).drop offset ∧
      ∀ f, (p.seekLoop fuel o offset).1 = some f →
        (p.seekLoop fuel o offset).2 < (p.bufs f).bytes.length := by
  induction h generalizing fuel offset with
  | nil =>
    have hstop : p.seekLoop fuel none offset = (none, offset) := by cases fuel <;> rfl
    rw [hstop]
    exact ⟨[], .nil, le_rfl, by simp, by simp⟩
  | @cons a l hl ih =>
    cases fuel with
    | zero => simp at hfuel
    | succ fuel =>
      rw [Pool.seekLoop]
      by_cases hpast : (p.bufs a).bytes.length ≤ offset
      · rw [if_pos hpast]
        obtain ⟨l', hl', hle, hdrop, hin⟩ :=
          ih (Nat.le_of_succ_le_succ hfuel) (offset - (p.bufs a).bytes.length)
        refine ⟨l', hl', hle.trans (Nat.le_succ _), hdrop.trans ?_, hin⟩
        rw [Pool.contents_cons, drop_append, drop_eq_nil_of_le hpast, nil_append]
      · rw [if_neg hpast]
        refine ⟨a :: l, .cons hl, le_rfl, rfl, fun f hf => ?_⟩
        obtain rfl := Option.some.inj hf
        omega

/-- **The copy takes the bytes from the offset on.** -/
theorem Pool.copyLoop_eq {fuel : ℕ} (h : Follows (fun b => (p.bufs b).frags) o l)
    (hfuel : l.length ≤ fuel) {offset : ℕ} (len : ℕ)
    (hin : ∀ f, o = some f → offset ≤ (p.bufs f).bytes.length) :
    p.copyLoop fuel o offset len = ((p.contents l).drop offset).take len := by
  induction h generalizing fuel offset len with
  | nil =>
    cases fuel <;> simp [Pool.copyLoop]
  | @cons a l hl ih =>
    cases fuel with
    | zero => simp at hfuel
    | succ fuel =>
      rw [Pool.copyLoop]
      have hle := hin a rfl
      by_cases hlen : 0 < len
      · rw [if_pos hlen]
        dsimp only
        rw [ih (Nat.le_of_succ_le_succ hfuel) _ fun _ _ => Nat.zero_le _,
          drop_zero, Pool.contents_cons, drop_append_of_le_length hle, take_append,
          length_drop]
        congr 1
        · rw [take_eq_take_iff, length_drop]
          omega
        · congr 1
          omega
      · have hzero : len = 0 := by omega
        rw [if_neg hlen, hzero, take_zero]

/-! ## Comparing -/

/-- **The comparison finds the longest common prefix.** -/
theorem compareLoop_isGreatest (d s : List UInt8) :
    IsGreatest {n | n ≤ d.length ∧ n ≤ s.length ∧ d.take n = s.take n}
      (compareLoop (min d.length s.length) d s) := by
  induction d generalizing s with
  | nil =>
    constructor
    · simp [compareLoop]
    · rintro n ⟨hn, -, -⟩
      exact hn.trans (Nat.zero_le _)
  | cons x d ih =>
    cases s with
    | nil =>
      constructor
      · simp [compareLoop]
      · rintro n ⟨-, hn, -⟩
        exact hn.trans (Nat.zero_le _)
    | cons y s =>
      obtain ⟨⟨hd, hs, htake⟩, hmax⟩ := ih s
      rw [length_cons, length_cons, Nat.succ_min_succ, compareLoop]
      by_cases hxy : x = y
      · subst hxy
        rw [if_neg (by simp)]
        refine ⟨⟨Nat.succ_le_succ hd, Nat.succ_le_succ hs, ?_⟩, ?_⟩
        · rw [take_succ_cons, take_succ_cons, htake]
        · rintro n ⟨hn, hn', heq⟩
          cases n with
          | zero => exact Nat.zero_le _
          | succ n =>
            rw [take_succ_cons, take_succ_cons, List.cons.injEq] at heq
            exact Nat.succ_le_succ (hmax ⟨Nat.le_of_succ_le_succ hn, Nat.le_of_succ_le_succ hn',
              heq.2⟩)
      · rw [if_pos hxy]
        refine ⟨⟨Nat.zero_le _, Nat.zero_le _, rfl⟩, ?_⟩
        rintro n ⟨-, -, heq⟩
        cases n with
        | zero => exact le_rfl
        | succ n =>
          rw [take_succ_cons, take_succ_cons, List.cons.injEq] at heq
          exact absurd heq.1 hxy

/-- **A comparison goes fragment by fragment**: past the first only where
all of it agrees. -/
theorem compareLoop_append (d s s' : List UInt8) :
    compareLoop (min d.length (s ++ s').length) d (s ++ s') =
      if compareLoop (min d.length s.length) d s < min d.length s.length then
        compareLoop (min d.length s.length) d s else compareLoop (min d.length s.length) d s +
        compareLoop (min (d.drop s.length).length s'.length) (d.drop s.length) s' := by
  induction s generalizing d with
  | nil => simp [compareLoop]
  | cons y s ih =>
    cases d with
    | nil => simp [compareLoop]
    | cons x d =>
      rw [cons_append, length_cons, length_cons, length_cons,
        Nat.succ_min_succ, Nat.succ_min_succ, compareLoop, compareLoop, drop_succ_cons]
      by_cases hxy : x = y
      · have hsame : ¬ x ≠ y := fun h => h hxy
        rw [if_neg hsame, if_neg hsame, ih d]
        by_cases hlt : compareLoop (min d.length s.length) d s < min d.length s.length
        · rw [if_pos hlt, if_pos (Nat.succ_lt_succ hlt)]
        · rw [if_neg hlt, if_neg (fun h => hlt (Nat.lt_of_succ_lt_succ h))]
          omega
      · have hne : x ≠ y := hxy
        rw [if_pos hne, if_pos hne, if_pos (Nat.succ_pos _)]

/-- **The loop compares with the bytes from the offset on.** -/
theorem Pool.matchLoop_eq {fuel : ℕ} (h : Follows (fun b => (p.bufs b).frags) o l)
    (hfuel : l.length ≤ fuel) {offset : ℕ} (data : List UInt8)
    (hin : ∀ f, o = some f → offset ≤ (p.bufs f).bytes.length) : p.matchLoop fuel o offset data =
      compareLoop (min data.length ((p.contents l).drop offset).length) data
        ((p.contents l).drop offset) := by
  induction h generalizing fuel offset data with
  | nil => cases fuel <;> simp [Pool.matchLoop, compareLoop]
  | @cons a l hl ih =>
    cases fuel with
    | zero => simp at hfuel
    | succ fuel =>
      rw [Pool.matchLoop]
      have hle := hin a rfl
      by_cases hdata : 0 < data.length
      · rw [if_pos hdata]
        dsimp only
        have hdrop : data.drop (min data.length ((p.bufs a).bytes.drop offset).length) =
            data.drop ((p.bufs a).bytes.drop offset).length := by
          rcases Nat.le_total data.length ((p.bufs a).bytes.drop offset).length with hshort | hlong
          · rw [min_eq_left hshort, drop_length, drop_eq_nil_of_le hshort]
          · rw [min_eq_right hlong]
        rw [← length_drop (i := offset) (l := (p.bufs a).bytes), hdrop,
          ih (Nat.le_of_succ_le_succ hfuel) _ fun _ _ => Nat.zero_le _, drop_zero,
          Pool.contents_cons, drop_append_of_le_length hle, compareLoop_append]
      · have hzero : data.length = 0 := by omega
        rw [if_neg hdata, hzero, Nat.zero_min]
        simp [compareLoop]

theorem Pool.IsChain.linearize (h : p.IsChain o l) (dstLen offset len : ℕ) :
    p.linearize dstLen o offset len = ((p.contents l).drop offset).take (min len dstLen) := by
  obtain ⟨l', hl', hle, hdrop, hin⟩ := Pool.seekLoop_spec h.follows h.length_le offset
  rw [Pool.linearize]
  rcases hseek : p.seekLoop p.bufCount o offset with ⟨frag, start⟩
  rw [hseek] at hl' hdrop hin
  dsimp only at hl' hdrop hin ⊢
  rw [Pool.copyLoop_eq hl' (hle.trans h.length_le) _ fun f hf => (hin f hf).le, hdrop]

theorem Pool.IsChain.dataMatch (h : p.IsChain o l) (offset : ℕ) (data : List UInt8) :
    p.dataMatch o offset (some data) =
      compareLoop (min data.length ((p.contents l).drop offset).length) data
        ((p.contents l).drop offset) := by
  obtain ⟨l', hl', hle, hdrop, hin⟩ := Pool.seekLoop_spec h.follows h.length_le offset
  rw [Pool.dataMatch]
  rcases hseek : p.seekLoop p.bufCount o offset with ⟨frag, start⟩
  rw [hseek] at hl' hdrop hin
  dsimp only at hl' hdrop hin ⊢
  rw [Pool.matchLoop_eq hl' (hle.trans h.length_le) _ fun f hf => (hin f hf).le, hdrop]

theorem Pool.IsChain.fragsLen (h : p.IsChain o l) : p.fragsLen o = (p.contents l).length :=
  Pool.fragsLenLoop_eq h.follows h.length_le

/-! ## Appending -/

/-- What an allocator does to a pool: it leaves the buffers in use, and the
buffer it returns, if any, was not in use and is empty. -/
structure Allocated (p : Pool) (r : Pool × Option ℕ) : Prop where
  kept : r.1.Kept
  bufCount : r.1.bufCount = p.bufCount
  live : ∀ x, p.Live x → r.1.Live x
  bufs : ∀ x, p.Live x → r.1.bufs x = p.bufs x
  fresh : ∀ f, r.2 = some f → ¬ p.Live f ∧ r.1.Live f
  empty : ∀ f, r.2 = some f → (r.1.bufs f).bytes = [] ∧ (r.1.bufs f).frags = none
  fits : ∀ f, r.2 = some f → (r.1.bufs f).Fits

/-- An allocator that does so in every pool. -/
def Allocates (cb : Pool → Pool × Option ℕ) : Prop := ∀ p, p.Kept → Allocated p (cb p)

/-- **`bt_buf_alloc_len` is one.** -/
theorem allocates_allocLen (size : Pool → ℕ) : Allocates fun p => p.allocLen (size p) := by
  intro p hkept
  show Allocated p (p.allocLen (size p))
  cases hget : p.getBuf with
  | none =>
    rw [allocLen_of_none hget]
    exact ⟨hkept, rfl, fun _ h => h, fun _ _ => rfl, nofun, nofun, nofun⟩
  | some bp =>
    obtain ⟨b, p'⟩ := bp
    obtain ⟨hkept', hnot, hlive, hbufs, hcount, -⟩ := hkept.getBuf hget
    obtain ⟨buf, hbuf, hempty, hfrags, hfits⟩ : ∃ buf,
        p.allocLen (size p) = (p'.set b buf, some b) ∧ buf.bytes = [] ∧ buf.frags = none ∧
          buf.Fits := by
      rw [allocLen, hget]
      by_cases hsize : size p = 0
      · refine ⟨_, by simp only [dataAlloc, hsize, ne_eq, not_true_eq_false, if_false]; rfl,
          rfl, rfl, ?_⟩
        exact ⟨le_rfl, Nat.two_pow_pos 16⟩
      · refine ⟨_, by
          simp only [dataAlloc, hsize, ne_eq, not_false_eq_true, if_true, fixedDataAlloc,
            Option.map_some]; rfl, rfl, rfl, ?_⟩
        exact ⟨Nat.zero_le _, Nat.mod_lt _ (by decide)⟩
    rw [hbuf]
    have hself : (p'.set b buf).bufs b = buf := bufs_set_self p' b buf
    refine ⟨⟨hkept'.uninit_le, hkept'.nodup, hkept'.free_lt⟩, hcount,
      fun x hx => (hlive x).2 (.inl hx), fun x hx => ?_, ?_, ?_, ?_⟩
    · have hne : x ≠ b := fun heq => hnot (heq ▸ hx)
      rw [bufs_set_of_ne buf hne, hbufs]
    all_goals
      intro f hf
      obtain rfl := Option.some.inj hf
    · exact ⟨hnot, (hlive b).2 (.inr rfl)⟩
    · rw [hself]
      exact ⟨hempty, hfrags⟩
    · rw [hself]
      exact hfits

theorem allocates_appendAlloc {cb : Option (Pool → Pool × Option ℕ)}
    (hcb : ∀ f, cb = some f → Allocates f) (len : ℕ) : Allocates fun p => p.appendAlloc cb len := by
  cases cb with
  | some f => exact hcb f rfl
  | none =>
    exact allocates_allocLen fun p => if p.maxAllocSize ≠ 0 then min len p.maxAllocSize else len

theorem Pool.IsChain.allocated {r : Pool × Option ℕ} (h : p.IsChain o l) (hr : Allocated p r) :
    r.1.IsChain o l ∧ r.1.contents l = p.contents l := by
  have hsame : ∀ f ∈ l, r.1.bufs f = p.bufs f := fun f hf => hr.bufs f (h.live f hf)
  refine ⟨⟨h.follows.congr fun f hf => congrArg Buf.frags (hsame f hf), h.nodup,
    fun f hf => hr.live f (h.live f hf), fun f hf => ?_⟩,
    Pool.contents_congr fun f hf => congrArg Buf.bytes (hsame f hf)⟩
  rw [hsame f hf]
  exact h.fits f hf

/-- **Bytes that fit go to the end of the chain.** -/
theorem Pool.IsChain.addMem {f : ℕ} {mem : List UInt8} (h : p.IsChain o l)
    (hlast : l.getLast? = some f) (hmem : mem.length ≤ (p.bufs f).tailroom) :
    (p.addMem f mem).IsChain o l ∧ (p.addMem f mem).contents l = p.contents l ++ mem := by
  have hin := mem_of_getLast? hlast
  have hself : (p.addMem f mem).bufs f =
      { p.bufs f with bytes := (p.bufs f).bytes ++ mem } := Pool.bufs_set_self p f _
  have hother : ∀ x, x ≠ f → (p.addMem f mem).bufs x = p.bufs x :=
    fun x hx => Pool.bufs_set_of_ne _ hx
  refine ⟨⟨h.follows.congr fun x _ => ?_, h.nodup, h.live, fun x hx => ?_⟩, ?_⟩
  · by_cases heq : x = f
    · rw [heq, hself]
    · rw [hother x heq]
  · by_cases heq : x = f
    · subst heq
      obtain ⟨hfit, hsize⟩ := h.fits x hx
      rw [hself]
      refine ⟨?_, hsize⟩
      unfold Buf.tailroom at hmem
      rw [length_append]
      dsimp only
      omega
    · rw [hother x heq]
      exact h.fits x hx
  · obtain ⟨front, rfl⟩ := getLast?_eq_some_iff.mp hlast
    have hfront : ∀ x ∈ front, x ≠ f := by
      rintro x hx rfl
      exact (nodup_append.mp h.nodup).2.2 x hx x mem_cons_self rfl
    rw [Pool.contents_append, Pool.contents_append,
      Pool.contents_congr fun x hx => congrArg Buf.bytes (hother x (hfront x hx))]
    simp [hself]

theorem Pool.IsChain.fragLast (h : p.IsChain (some b) l) : l.getLast? = some (p.fragLast b) :=
  Pool.fragLastLoop_of_follows h.follows (h.length_le.trans (Nat.le_succ _))

/-- **An empty buffer goes to the end of the chain.** -/
theorem Pool.IsChain.fragAdd {f : ℕ} (h : p.IsChain (some b) l) (hf : p.Live f) (hnew : f ∉ l)
    (hempty : (p.bufs f).bytes = [] ∧ (p.bufs f).frags = none) (hfits : (p.bufs f).Fits) :
    (p.fragAdd (some b) f).1.IsChain (some b) (l ++ [f]) ∧
      (p.fragAdd (some b) f).1.contents (l ++ [f]) = p.contents l := by
  have hlast := h.fragLast
  obtain ⟨last, hp⟩ : ∃ last, p.fragLast b = last := ⟨_, rfl⟩
  rw [hp] at hlast
  have hend : (p.bufs last).frags = none := h.follows.next_getLast hlast
  have hadd : (p.fragAdd (some b) f).1 = p.setFrags last (some f) := by
    rw [Pool.fragAdd]
    dsimp only
    rw [hp, Pool.fragInsert, hend]
  rw [hadd]
  have hself : (p.setFrags last (some f)).bufs last = { p.bufs last with frags := some f } :=
    Pool.bufs_set_self p last _
  have hother : ∀ x, x ≠ last → (p.setFrags last (some f)).bufs x = p.bufs x :=
    fun x hx => Pool.bufs_set_of_ne _ hx
  have hbytes : ∀ x, ((p.setFrags last (some f)).bufs x).bytes = (p.bufs x).bytes ∧
      (((p.setFrags last (some f)).bufs x).Fits ↔ (p.bufs x).Fits) := by
    intro x
    by_cases heq : x = last
    · rw [heq, hself]
      exact ⟨rfl, Iff.rfl⟩
    · rw [hother x heq]
      exact ⟨rfl, Iff.rfl⟩
  have hlinks : (fun x => ((p.setFrags last (some f)).bufs x).frags) =
      update (fun x => (p.bufs x).frags) last (some f) := by
    funext x
    by_cases heq : x = last
    · rw [heq, hself, update_self]
    · rw [hother x heq, update_of_ne heq]
  refine ⟨⟨?_, ?_, ?_, ?_⟩, ?_⟩
  · rw [hlinks]
    exact h.follows.snoc h.nodup hlast hnew hempty.2
  · refine nodup_append.mpr ⟨h.nodup, by simp, ?_⟩
    rintro x hx y hy rfl
    exact hnew (mem_singleton.mp hy ▸ hx)
  · intro x hx
    rcases mem_append.mp hx with hx | hx
    · exact h.live x hx
    · rw [mem_singleton.mp hx]
      exact hf
  · intro x hx
    rw [(hbytes x).2]
    rcases mem_append.mp hx with hx | hx
    · exact h.fits x hx
    · rw [mem_singleton.mp hx]
      exact hfits
  · rw [Pool.contents_congr fun x _ => (hbytes x).1, Pool.contents_append]
    simp [hempty.1]

/-- **The loop appends what it adds**, and stops short only where an
allocation has failed. The chain grows in each round, so the pool bounds
the rounds. -/
theorem Pool.IsChain.appendLoop {cb : Option (Pool → Pool × Option ℕ)}
    (hcb : ∀ f, cb = some f → Allocates f) {fuel frag : ℕ} {value : List UInt8} (added : ℕ)
    (hkept : p.Kept) (h : p.IsChain (some b) l) (hlast : l.getLast? = some frag)
    (hfuel : p.bufCount + 1 ≤ fuel + l.length) :
    ∃ l' n, (Pool.appendLoop b cb fuel p frag value added).2 = added + n ∧ n ≤ value.length ∧
      (Pool.appendLoop b cb fuel p frag value added).1.IsChain (some b) l' ∧
      (Pool.appendLoop b cb fuel p frag value added).1.contents l' = p.contents l ++ value.take n ∧
      (n < value.length → ∃ (q : Pool) (len : ℕ),
        q.appendAlloc cb len = ((Pool.appendLoop b cb fuel p frag value added).1, none)) := by
  induction fuel generalizing p l frag value added with
  | zero =>
    have := h.length_le
    omega
  | succ fuel ih =>
    obtain ⟨hfit, hsize⟩ := h.fits frag (mem_of_getLast? hlast)
    have htail : (p.bufs frag).tailroom < 2 ^ 16 := by
      unfold Buf.tailroom
      omega
    -- The count has 16 bits, as the tailroom has.
    obtain ⟨count, hcount⟩ : ∃ count, count = min value.length (p.bufs frag).tailroom := ⟨_, rfl⟩
    have hmod : min value.length (p.bufs frag).tailroom % 2 ^ 16 = count := by
      rw [Nat.mod_eq_of_lt (lt_of_le_of_lt (min_le_right _ _) htail), hcount]
    have hle : count ≤ value.length := hcount ▸ min_le_left _ _
    have hroom : (value.take count).length ≤ (p.bufs frag).tailroom := by
      rw [length_take, min_eq_left hle, hcount]
      exact min_le_right _ _
    obtain ⟨hchain, hcontents⟩ := h.addMem hlast hroom
    have hkept₁ : (p.addMem frag (value.take count)).Kept :=
      ⟨hkept.uninit_le, hkept.nodup, hkept.free_lt⟩
    rw [Pool.appendLoop, hmod]
    by_cases hdone : (value.drop count).length = 0
    · rw [if_pos hdone]
      rw [length_drop] at hdone
      refine ⟨l, count, rfl, hle, hchain, hcontents, fun hlt => ?_⟩
      omega
    · rw [if_neg hdone]
      have halloc := allocates_appendAlloc hcb (value.drop count).length _ hkept₁
      dsimp only at halloc
      obtain ⟨hchain₂, hcontents₂⟩ := hchain.allocated halloc
      rcases hr : (p.addMem frag (value.take count)).appendAlloc cb (value.drop count).length with
        ⟨q, _ | f⟩
      · rw [hr] at hchain₂ hcontents₂
        exact ⟨l, count, rfl, hle, hchain₂, hcontents₂.trans hcontents, fun _ => ⟨_, _, hr⟩⟩
      · rw [hr] at hchain₂ hcontents₂ halloc
        dsimp only at hchain₂ hcontents₂
        obtain ⟨hnot, hlive⟩ := halloc.fresh f rfl
        have hnew : f ∉ l := fun hf => hnot (hchain.live f hf)
        obtain ⟨hchain₃, hcontents₃⟩ :=
          hchain₂.fragAdd hlive hnew (halloc.empty f rfl) (halloc.fits f rfl)
        have hkept₃ : (q.fragAdd (some b) f).1.Kept ∧
            (q.fragAdd (some b) f).1.bufCount = p.bufCount := by
          have hq : q.bufCount = p.bufCount := halloc.bufCount
          rw [Pool.fragAdd]
          dsimp only
          unfold Pool.fragInsert
          split <;> exact ⟨⟨halloc.kept.uninit_le, halloc.kept.nodup, halloc.kept.free_lt⟩, hq⟩
        dsimp only
        have hend : (l ++ [f]).getLast? = some f := by simp
        obtain ⟨l', n, hn, hnle, hchain', hcontents', hfail⟩ :=
          ih (added + count) hkept₃.1 hchain₃ hend (by
            rw [hkept₃.2, length_append, length_singleton]
            omega)
        rw [length_drop] at hnle hfail
        refine ⟨l', count + n, by rw [hn, Nat.add_assoc], by omega, hchain', ?_,
          fun hlt => hfail (by omega)⟩
        rw [hcontents', hcontents₃, hcontents₂, hcontents, append_assoc, ← take_add]

/-- **A chain is read and extended as one byte string.** Of the bytes `S`
of a chain, `bt_buf_linearize` copies those from the offset on, as many as
are asked for, fit and are there; `bt_buf_data_match` finds the longest
common prefix; and `bt_buf_append_bytes` adds a prefix of its data, of the
length it returns, and all of it unless an allocation fails. -/
theorem chain_bytes (hkept : p.Kept) (h : p.IsChain (some b) l) :
    (∀ dstLen offset len,
      p.linearize dstLen (some b) offset len =
        ((p.contents l).drop offset).take (min len dstLen) ∧
      (p.linearize dstLen (some b) offset len).length =
        min (min len dstLen) ((p.contents l).length - offset)) ∧
    (∀ offset data, IsGreatest {n | n ≤ data.length ∧ n ≤ ((p.contents l).drop offset).length ∧
        data.take n = ((p.contents l).drop offset).take n}
      (p.dataMatch (some b) offset (some data))) ∧
    ∀ value cb, (∀ f, cb = some f → Allocates f) →
      ∃ l', (p.appendBytes b value cb).1.IsChain (some b) l' ∧
        (p.appendBytes b value cb).1.contents l' =
          p.contents l ++ value.take (p.appendBytes b value cb).2 ∧
        (p.appendBytes b value cb).2 ≤ value.length ∧
        (p.appendBytes b value cb).1.fragsLen (some b) =
          p.fragsLen (some b) + (p.appendBytes b value cb).2 ∧
        ((p.appendBytes b value cb).2 < value.length →
          ∃ (q : Pool) (len : ℕ), q.appendAlloc cb len = ((p.appendBytes b value cb).1, none)) := by
  refine ⟨fun dstLen offset len => ?_, fun offset data => ?_, fun value cb hcb => ?_⟩
  · have hlinear := h.linearize dstLen offset len
    refine ⟨hlinear, ?_⟩
    rw [hlinear, List.length_take, List.length_drop]
  · rw [h.dataMatch]
    exact compareLoop_isGreatest data _
  · obtain ⟨l', n, hn, hle, hchain, hcontents, hfail⟩ :=
      h.appendLoop hcb 0 hkept h.fragLast (Nat.le_add_right _ _)
    rw [Nat.zero_add] at hn
    have hret : (p.appendBytes b value cb).2 = n := hn
    rw [hret]
    refine ⟨l', hchain, hcontents, hle, ?_, hfail⟩
    have hlen := hchain.fragsLen
    rw [hcontents, List.length_append, List.length_take, min_eq_left hle, ← h.fragsLen] at hlen
    exact hlen

/-- Two of three buffers of four bytes, the second still empty. -/
def sampleChain : Pool :=
  ((((((poolInit 3 4 0 fun _ => {}).allocLen 4).1.allocLen 4).1).addMem 0 [1, 2, 3]).fragAdd
    (some 0) 1).1

theorem chain_bytes_sample :
    (sampleChain.linearize 2 (some 0) 1 5 = [2, 3] ∧
      (sampleChain.linearize 2 (some 0) 1 5).length = min (min 5 2) (3 - 1)) ∧
    ∃ l', (sampleChain.appendBytes 0 [4, 5, 6, 7, 8] none).1.contents l' =
      [1, 2, 3] ++ [4, 5, 6, 7, 8].take (sampleChain.appendBytes 0 [4, 5, 6, 7, 8] none).2 := by
  have hkept : sampleChain.Kept := ⟨by decide, by decide, by decide⟩
  have hchain : sampleChain.IsChain (some 0) [0, 1] :=
    ⟨.cons (.cons .nil), by decide, by decide, by decide⟩
  obtain ⟨hread, -, happend⟩ := chain_bytes hkept hchain
  obtain ⟨l', -, hcontents, -⟩ := happend [4, 5, 6, 7, 8] none nofun
  exact ⟨hread 2 1 5, l', hcontents⟩

end Base

end OpenBlue

import Mathlib.Data.Finset.Lattice.Lemmas
import Mathlib.Data.Finset.Range
import OpenBlue.Common.Pack
import OpenBlue.Mesh.SegRx
/-!
# Mesh — segmentation and reassembly

A message cut by `send_seg` and put on air by `seg_tx_buf_build` is put
together by `trans_seg`. The receiver is followed through the phases of
one message: no context yet, a context that holds the segments received
so far, a context that is done. Segments of other sources and the timers
come in between; they leave the context of the message alone.
-/

namespace OpenBlue

namespace Mesh

open List Nat SegRx

/-! ## The header -/

theorem seqZero_eq (auth : ℕ) : seqZero auth = auth % 2 ^ 13 :=
  and_two_pow_sub_one_eq_mod auth 13

theorem segParse_cons (b₀ b₁ b₂ b₃ : UInt8) (data : Bytes) :
    segParse (b₀ :: b₁ :: b₂ :: b₃ :: data) =
      { hdr := b₀.toNat
        aszmic := b₁.toNat / 2 ^ 7 == 1
        seqZero := (b₁.toNat * 2 ^ 8 + b₂.toNat) / 2 ^ 2 % 2 ^ 13
        segO := b₂.toNat % 2 ^ 2 * 2 ^ 3 + b₃.toNat / 2 ^ 5
        segN := b₃.toNat % 2 ^ 5
        data := data } := by
  have h₁ := b₁.toNat_lt
  have h₂ := b₂.toNat_lt
  have h₃ := b₃.toNat_lt
  have hmask1 : ∀ a : ℕ, a &&& 1 = a % 2 ^ 1 := (and_two_pow_sub_one_eq_mod · 1)
  have hmask2 : ∀ a : ℕ, a &&& 0x03 = a % 2 ^ 2 := (and_two_pow_sub_one_eq_mod · 2)
  have hmask5 : ∀ a : ℕ, a &&& 0x1f = a % 2 ^ 5 := (and_two_pow_sub_one_eq_mod · 5)
  have hmask13 : ∀ a : ℕ, a &&& 0x1fff = a % 2 ^ 13 := (and_two_pow_sub_one_eq_mod · 13)
  have hbe : b₁.toNat <<< 8 ||| b₂.toNat = b₁.toNat * 2 ^ 8 + b₂.toNat :=
    shiftLeft_or_eq (by omega)
  have hsegO : ((b₁.toNat * 2 ^ 8 + b₂.toNat) &&& 0x03) <<< 3 ||| b₃.toNat >>> 5 =
      b₂.toNat % 2 ^ 2 * 2 ^ 3 + b₃.toNat / 2 ^ 5 := by
    rw [shiftRight_eq_div_pow, shiftLeft_or_eq (by omega), hmask2]
    omega
  have hasz : (b₁.toNat >>> 7) &&& 1 = b₁.toNat / 2 ^ 7 := by
    rw [shiftRight_eq_div_pow, hmask1]
    omega
  have hsz : ((b₁.toNat * 2 ^ 8 + b₂.toNat) >>> 2) &&& 0x1fff =
      (b₁.toNat * 2 ^ 8 + b₂.toNat) / 2 ^ 2 % 2 ^ 13 := by
    rw [shiftRight_eq_div_pow, hmask13]
  have hsegN : b₃.toNat &&& 0x1f = b₃.toNat % 2 ^ 5 := hmask5 _
  simp only [segParse, byteAt, getD_cons_succ, getD_cons_zero, drop_succ_cons,
    drop_zero, hbe, hsegO, hasz, hsz, hsegN]

/-- **The two bit packings agree.** What `trans_seg` reads is what
`seg_tx_buf_build` wrote. -/
theorem segParse_segTxBufBuild {t : SegTx} {o : ℕ} (ho : o < 32) (hn : t.segN < 32) :
    segParse (segTxBufBuild t o) =
      { hdr := t.hdr % 2 ^ 8, aszmic := t.aszmic, seqZero := seqZero t.seqAuth, segO := o
        segN := t.segN
        data := ((t.seg.getD o none).getD []).take
          (min (segLen t.ctl) (t.len - segLen t.ctl * o)) } := by
  have hz : seqZero t.seqAuth < 2 ^ 13 := seqZero_eq _ ▸ mod_lt _ (by decide)
  have h₁ : (if t.aszmic then 0x80 else 0) ||| seqZero t.seqAuth >>> 6 =
      t.aszmic.toNat * 2 ^ 7 + seqZero t.seqAuth / 2 ^ 6 := by
    rw [← shiftLeft_or_eq (by omega), shiftRight_eq_div_pow]
    cases t.aszmic <;> rfl
  have h₂ : (seqZero t.seqAuth &&& 0x3f) <<< 2 ||| o >>> 3 =
      seqZero t.seqAuth % 2 ^ 6 * 2 ^ 2 + o / 2 ^ 3 := by
    rw [shiftRight_eq_div_pow, shiftLeft_or_eq (by omega)]
    rw [show seqZero t.seqAuth &&& 0x3f = _ from and_two_pow_sub_one_eq_mod _ 6]
  have h₃ : (o &&& 0x07) <<< 5 ||| t.segN = o % 2 ^ 3 * 2 ^ 5 + t.segN := by
    rw [shiftLeft_or_eq (by omega), show o &&& 0x07 = _ from and_two_pow_sub_one_eq_mod _ 3]
  have hbool : t.aszmic.toNat < 2 := t.aszmic.toNat_lt
  simp only [segTxBufBuild, h₁, h₂, h₃, cons_append, nil_append, segParse_cons,
    UInt8.toNat_ofNat', SegHdr.mk.injEq, and_true, true_and]
  refine ⟨?_, by omega, by omega, by omega⟩
  rw [show (t.aszmic.toNat * 2 ^ 7 + seqZero t.seqAuth / 2 ^ 6) % 2 ^ 8 / 2 ^ 7 =
    t.aszmic.toNat by omega]
  cases t.aszmic <;> rfl

/-- **The receiver works out the first SEQ**, from the 13 bits of it in
the header and a SEQ at most 2^13 - 1 ahead. -/
theorem rxSeqAuth_eq {iv seq₀ seq : ℕ} (hle : seq₀ ≤ seq) (hlt : seq < seq₀ + 2 ^ 13)
    (hseq : seq < 2 ^ 24) : rxSeqAuth iv seq (seqZero (seqAuth iv seq₀)) = seqAuth iv seq₀ := by
  have hz : seqZero (seqAuth iv seq₀) = seq₀ % 2 ^ 13 := by
    rw [seqZero_eq, seqAuth, shiftLeft_or_eq (by omega)]
    omega
  have hdelta :
      (((seq &&& 0x3fff) + 2 ^ 32 - seq₀ % 2 ^ 13) % 2 ^ 32) &&& 0x1fff = seq - seq₀ := by
    rw [show seq &&& 0x3fff = _ from and_two_pow_sub_one_eq_mod _ 14]
    refine (and_two_pow_sub_one_eq_mod _ 13).trans ?_
    omega
  simp only [rxSeqAuth, hz, hdelta]
  congr 1
  omega

/-! ## The sender -/

section Sender

variable {cfg : TransCfg} {env : SendEnv} {tx : NetTx} {sdu : Bytes}

theorem cutSegs_getD {ctl : Bool} (hfriend : ∀ o, friendOnly cfg env tx o = false) :
    ∀ (fuel o : ℕ) (sdu : Bytes) (segs : List (Option Bytes)), sdu.length ≤ fuel →
      (∀ j, segLen ctl * j < sdu.length → o + j < segs.length) →
      (cutSegs cfg env tx ctl fuel o sdu segs).2 = true → ∀ j, segLen ctl * j < sdu.length →
        (cutSegs cfg env tx ctl fuel o sdu segs).1.getD (o + j) none =
          some (piece (segLen ctl) sdu j) := by
  intro fuel
  induction fuel with
  | zero =>
    intro o sdu segs hlen _ _ j hj
    omega
  | succ fuel ih =>
    intro o sdu segs hlen hroom halloc j hj
    have hne : sdu ≠ [] := ne_nil_of_length_pos (by omega)
    have hpos := segLen_pos ctl
    simp only [cutSegs, List.isEmpty_iff, hne, if_false, hfriend, Bool.false_eq_true] at halloc ⊢
    split at halloc
    · exact absurd halloc (by simp)
    · rename_i hseg
      rw [if_neg hseg]
      cases j with
      | zero =>
        rw [cutSegs_getD_of_lt ctl (by omega), piece_zero]
        have := hroom 0 (by omega)
        simp only [Nat.add_zero] at this ⊢
        simp [this]
      | succ j =>
        rw [mul_succ] at hj
        rw [piece_succ, show o + (j + 1) = o + 1 + j by omega]
        refine ih (o + 1) _ _ ?_ ?_ halloc j ?_
        · rw [length_drop]; omega
        · intro k hk
          rw [length_drop] at hk
          rw [length_set]
          have := hroom (k + 1) (by rw [mul_succ]; omega)
          omega
        · rw [length_drop]; omega

end Sender

/-! ## A message -/

/-- A segmented message, as its segments describe it. -/
structure SarMsg where
  src : ℕ
  dst : ℕ
  ctl : Bool
  aszmic : Bool
  hdr : ℕ
  ivIndex : ℕ
  seq₀ : ℕ
  sdu : Bytes

namespace SarMsg

variable (m : SarMsg)

/-- The number of the last segment. -/
def segN : ℕ := (m.sdu.length - 1) / segLen m.ctl

/-- The SeqAuth of the message. -/
def auth : ℕ := seqAuth m.ivIndex m.seq₀

/-- What segment `o` carries. -/
def seg (o : ℕ) : Bytes := piece (segLen m.ctl) m.sdu o

/-- The header of segment `o`, and the segment. -/
def segHdr (o : ℕ) : SegHdr where
  hdr := m.hdr
  aszmic := m.aszmic
  seqZero := seqZero m.auth
  segO := o
  segN := m.segN
  data := m.seg o

variable {m}

theorem length_seg_of_lt {o : ℕ} (ho : o < m.segN) : (m.seg o).length = segLen m.ctl := by
  have hpos := segLen_pos m.ctl
  have h : segLen m.ctl * (o + 1) ≤ m.sdu.length - 1 := by
    rw [Nat.mul_comm]
    exact (Nat.le_div_iff_mul_le hpos).1 ho
  rw [mul_succ] at h
  rw [seg, length_piece]
  omega

theorem length_last (hsdu : m.sdu ≠ []) :
    m.segN * segLen m.ctl + (m.seg m.segN).length = m.sdu.length := by
  have hpos := segLen_pos m.ctl
  have hlt := (mul_lt_length_iff hpos hsdu).2 (le_refl m.segN)
  have hle : m.sdu.length ≤ segLen m.ctl * (m.segN + 1) := length_le_of_last hpos
  rw [mul_succ] at hle
  rw [seg, length_piece, Nat.mul_comm m.segN]
  omega

theorem flatMap_seg : (List.range (m.segN + 1)).flatMap (fun i =>
    (m.seg i).take (min (segLen m.ctl) (m.sdu.length - i * segLen m.ctl))) = m.sdu := by
  have htake : ∀ i, (m.seg i).take (min (segLen m.ctl) (m.sdu.length - i * segLen m.ctl)) =
      piece (segLen m.ctl) m.sdu i := by
    intro i
    refine take_of_length_le ?_
    rw [seg, length_piece, Nat.mul_comm]
  simp only [htake]
  exact flatMap_piece_of_le (length_le_of_last (segLen_pos m.ctl))

end SarMsg

/-! ## The phases of a message -/

section Phases

variable {m : SarMsg} {D : Finset ℕ} {cfg : TransCfg} {env : RecvEnv} {rx : NetRx}
variable {s : Receiver} {chk : RplCheck} {i o : ℕ} {l : List SegRx} {c : SegRx}

/-- All segments of the message. -/
def SarMsg.all (m : SarMsg) : Finset ℕ := Finset.range (m.segN + 1)

/-- A context of the peer that neither holds the message nor is in use. -/
def Idle (m : SarMsg) (c : SegRx) : Prop :=
  c.src = m.src → c.dst = m.dst → c.inUse = false ∧ c.seqAuth < m.auth

/-- Before the first segment, the contexts of the peer are older. -/
def Fresh (m : SarMsg) (l : List SegRx) : Prop :=
  ∀ c ∈ l, c.src = m.src → c.dst = m.dst → c.seqAuth < m.auth

/-- The context that has received the segments `D`. -/
structure Collecting (m : SarMsg) (D : Finset ℕ) (c : SegRx) : Prop where
  src : c.src = m.src
  dst : c.dst = m.dst
  seqAuth : c.seqAuth = m.auth
  ctl : c.ctl = m.ctl
  hdr : c.hdr = m.hdr
  segN : c.segN = m.segN
  inUse : c.inUse = true
  block : ∀ o, c.block.testBit o = true ↔ o ∈ D
  seg : ∀ o ∈ D, c.seg.getD o none = some (m.seg o)
  len : m.segN ∈ D → c.len = m.sdu.length

/-- The context the message was completed in. -/
structure Finished (m : SarMsg) (c : SegRx) : Prop where
  src : c.src = m.src
  dst : c.dst = m.dst
  seqAuth : c.seqAuth = m.auth
  inUse : c.inUse = false

instance (m : SarMsg) (c : SegRx) : Decidable (Finished m c) :=
  decidable_of_iff (c.src = m.src ∧ c.dst = m.dst ∧ c.seqAuth = m.auth ∧ c.inUse = false)
    ⟨fun h => ⟨h.1, h.2.1, h.2.2.1, h.2.2.2⟩, fun h => ⟨h.src, h.dst, h.seqAuth, h.inUse⟩⟩

/-- The contexts when the segments `D` of the message have come in. -/
inductive Phase (m : SarMsg) (l : List SegRx) : Finset ℕ → Prop
  | fresh (h : Fresh m l) : Phase m l ∅
  | collecting {D : Finset ℕ} {i : ℕ} {c : SegRx} (hi : l[i]? = some c) (hne : D ≠ ∅)
      (hall : D ⊂ m.all) (hc : Collecting m D c)
      (hidle : ∀ (j : ℕ) d, l[j]? = some d → j ≠ i → Idle m d) : Phase m l D
  | finished {i : ℕ} {c : SegRx} (hi : l[i]? = some c) (hc : Finished m c)
      (hidle : ∀ (j : ℕ) d, l[j]? = some d → j ≠ i → Idle m d) : Phase m l m.all

theorem block_eq_complete_iff {B : ℕ} (hB : ∀ o, B.testBit o = true ↔ o ∈ D)
    (hD : D ⊆ m.all) (hn : m.segN < 32) : B = blockComplete m.segN ↔ D = m.all := by
  have hbit : ∀ o, (blockComplete m.segN).testBit o = true ↔ o ∈ m.all := by
    intro o
    rw [blockComplete, one_shiftLeft, testBit_mod_two_pow, testBit_two_pow_sub_one,
      SarMsg.all, Finset.mem_range]
    simp only [Bool.and_eq_true, decide_eq_true_eq]
    omega
  constructor
  · rintro rfl
    ext o
    rw [← hB, hbit]
  · rintro rfl
    refine eq_of_testBit_eq fun o => ?_
    rw [Bool.eq_iff_iff, hB, hbit]

theorem Collecting.bytes_eq (h : Collecting m m.all c) : c.bytes = m.sdu := by
  have hlen : c.len = m.sdu.length := h.len (by simp [SarMsg.all])
  rw [bytes, h.ctl, hlen, h.segN]
  refine Eq.trans (flatMap_congr fun i hi => ?_) m.flatMap_seg
  rw [h.seg i (by simpa [SarMsg.all] using hi)]
  rfl

theorem Collecting.store (hc : Collecting m D c) (ho : o < c.seg.length) (hsdu : m.sdu ≠ []) :
    Collecting m (insert o D) ((c.expect cfg env (m.segHdr o)).store (m.segHdr o)) := by
  refine ⟨hc.src, hc.dst, hc.seqAuth, hc.ctl, hc.hdr, hc.segN, hc.inUse, ?_, ?_, ?_⟩
  · intro k
    show (c.block ||| 1 <<< o).testBit k = true ↔ k ∈ insert o D
    rw [testBit_or, one_shiftLeft, testBit_two_pow, Bool.or_eq_true, hc.block k,
      Finset.mem_insert, decide_eq_true_eq]
    tauto
  · intro k hk
    show (c.seg.set o (some (m.seg o))).getD k none = _
    rw [getD_eq_getElem?_getD]
    by_cases hko : o = k
    · subst hko
      rw [getElem?_set_self ho]
      rfl
    · rw [getElem?_set_ne hko, ← getD_eq_getElem?_getD]
      exact hc.seg k (Finset.mem_of_mem_insert_of_ne hk (Ne.symm hko))
  · intro hk
    show (if o = m.segN then m.segN * segLen c.ctl + (m.seg o).length else c.len) = _
    split
    · subst o
      rw [hc.ctl]
      exact SarMsg.length_last hsdu
    · rename_i hne
      exact hc.len (Finset.mem_of_mem_insert_of_ne hk (Ne.symm hne))

/-- What a receiver must be able to hold. -/
structure SarMsg.Fits (m : SarMsg) (cfg : TransCfg) : Prop where
  ne_nil : m.sdu ≠ []
  lt_32 : m.segN < 32
  lt_max : m.segN < cfg.rxSegMax
  /-- An access message is longer than its MIC. -/
  mic : m.ctl = true ∨ appMicLen m.aszmic < m.sdu.length

theorem SarMsg.Fits.length_le (h : m.Fits cfg) : m.sdu.length ≤ sduMax cfg.rxSegMax := by
  have h₁ : m.sdu.length ≤ segLen m.ctl * (m.segN + 1) := length_le_of_last (segLen_pos _)
  have h₂ : segLen m.ctl * (m.segN + 1) ≤ segLen false * cfg.rxSegMax :=
    Nat.mul_le_mul (by cases m.ctl <;> decide) h.lt_max
  rw [sduMax, Nat.mul_comm]
  omega

/-- The result of a segment at the context of its message: the context
collects on, or the message is complete. -/
structure SegResult (m : SarMsg) (D : Finset ℕ) (l : List SegRx) (i : ℕ) (r : RxRet) : Prop where
  auth : r.auth = some m.auth
  collecting : D ≠ m.all → r.complete = none ∧ ∃ c, r.s.segRx = l.set i c ∧ Collecting m D c
  finished : D = m.all → r.complete = some m.sdu ∧ ∃ c, r.s.segRx = l.set i c ∧ Finished m c

/-- **One segment of the message, at its context.** -/
theorem segFound_own (hi : s.segRx[i]? = some c) (hc : Collecting m D c) (hD : D ⊂ m.all)
    (ho : o ∈ m.all) (hctl : rx.ctl = m.ctl) (halloc : env.segAlloc = true)
    (hlen : c.seg.length = cfg.rxSegMax) (hm : m.Fits cfg) :
    SegResult m (insert o D) s.segRx i (segFound cfg env rx chk (m.segHdr o) m.auth i s) := by
  have hlt : i < s.segRx.length := (List.getElem?_eq_some_iff.1 hi).1
  have hgetD : s.segRx.getD i default = c := by rw [getD_eq_getElem?_getD, hi]; rfl
  have hoN : o ≤ m.segN := by simpa [SarMsg.all, Nat.lt_succ_iff] using ho
  by_cases hoD : o ∈ D
  · -- A duplicate: the bit is set, and nothing changes.
    rw [Finset.insert_eq_of_mem hoD]
    have hbit : c.block.testBit (m.segHdr o).segO = true := (hc.block o).2 hoD
    simp only [segFound, hgetD, hbit, if_true]
    refine ⟨rfl, fun _ => ⟨rfl, c, ?_, hc⟩, fun h => absurd h hD.ne⟩
    rw [← hgetD, set_getD_self hlt]
  · have hbit : ¬c.block.testBit (m.segHdr o).segO = true := fun hb => hoD ((hc.block o).1 hb)
    have hlast : ¬((m.segHdr o).segO = (m.segHdr o).segN ∧
        sduMax cfg.rxSegMax < c.target (m.segHdr o)) := by
      rintro ⟨rfl : o = m.segN, hmax⟩
      have := SarMsg.length_last hm.ne_nil
      rw [← hc.ctl] at this
      have := hm.length_le
      simp only [target, SarMsg.segHdr] at hmax
      omega
    have hsize : ¬((m.segHdr o).segO ≠ (m.segHdr o).segN ∧
        (m.segHdr o).data.length ≠ segLen c.ctl) := by
      rintro ⟨hne, hsize⟩
      rw [hc.ctl] at hsize
      exact hsize (SarMsg.length_seg_of_lt (lt_of_le_of_ne hoN hne))
    have hstore : Collecting m (insert o D) ((c.expect cfg env (m.segHdr o)).store (m.segHdr o)) :=
      hc.store (by have := hm.lt_max; omega) hm.ne_nil
    have hfull : ((c.expect cfg env (m.segHdr o)).store (m.segHdr o)).block =
        blockComplete (m.segHdr o).segN ↔ insert o D = m.all :=
      block_eq_complete_iff hstore.block (Finset.insert_subset ho hD.subset) hm.lt_32
    simp only [segFound, hgetD, if_neg hbit, if_neg hlast, if_neg hsize, halloc, Bool.not_true,
      Bool.false_eq_true, if_false]
    by_cases hall : insert o D = m.all
    · rw [if_neg (not_not.2 (hfull.2 hall))]
      refine ⟨rfl, fun h => absurd hall h, fun _ => ⟨?_, ?_⟩⟩
      · rw [hall] at hstore
        have hshort : (!rx.ctl && decide (((c.expect cfg env (m.segHdr o)).store
            (m.segHdr o)).len < 1 + appMicLen (m.segHdr o).aszmic)) = false := by
          rw [hctl, hstore.len (by simp [SarMsg.all])]
          rcases hm.mic with h | h
          · simp [h]
          · have hlong : ¬m.sdu.length < 1 + appMicLen m.aszmic := by omega
            simp [SarMsg.segHdr, hlong]
        simp only [segComplete, hshort, Bool.false_eq_true, if_false]
        rw [hstore.bytes_eq]
      · refine ⟨((c.expect cfg env (m.segHdr o)).store (m.segHdr o)).reset false, ?_, ?_⟩
        · exact segComplete_segRx
        · exact ⟨hc.src, hc.dst, hc.seqAuth, rfl⟩
    · rw [if_pos (fun h => hall (hfull.1 h))]
      exact ⟨rfl, fun _ => ⟨rfl, _, rfl, hstore⟩, fun h => absurd h hall⟩

theorem SegResult.phase {r : RxRet} (h : SegResult m D l i r) (hi : i < l.length) (hne : D ≠ ∅)
    (hD : D ⊆ m.all) (hidle : ∀ j d, l[j]? = some d → j ≠ i → Idle m d) :
    Phase m r.s.segRx D ∧ r.complete = if D = m.all then some m.sdu else none := by
  have hidle' : ∀ c j d, (l.set i c)[j]? = some d → j ≠ i → Idle m d := fun c j d hj hji =>
    hidle j d (by rwa [getElem?_set_ne (Ne.symm hji)] at hj) hji
  have hget : ∀ c, (l.set i c)[i]? = some c := fun c => by simp [hi]
  by_cases hall : D = m.all
  · obtain ⟨hcomp, c, hset, hc⟩ := h.finished hall
    rw [hset, hcomp, if_pos hall, hall]
    exact ⟨.finished (hget c) hc (hidle' c), rfl⟩
  · obtain ⟨hcomp, c, hset, hc⟩ := h.collecting hall
    rw [hset, hcomp, if_neg hall]
    exact ⟨.collecting (hget c) hne (Finset.ssubset_iff_subset_ne.2 ⟨hD, hall⟩) hc (hidle' c), rfl⟩

theorem segRxFind_fresh (h : Fresh m l) (hone : OnePerPeer l) (hsrc : m.src ≠ 0) :
    (segRxFind m.src m.dst m.auth l).2 = none ∧
      ∀ c ∈ (segRxFind m.src m.dst m.auth l).1, Idle m c := by
  have hnone : (segRxFind m.src m.dst m.auth l).2 = none := by
    rcases segRxFind_cases m.src m.dst m.auth l with
      ⟨hfind, -⟩ | ⟨i, -, hi, hidx, hle⟩ | ⟨i, hfind, -⟩
    · rw [hfind]
    · obtain ⟨hcs, hcd⟩ := src_of_stops (stops_of_findIdx? hidx).2
      have := h _ (mem_of_getElem? (getElem?_eq_getD hi)) hcs hcd
      omega
    · rw [hfind]
  refine ⟨hnone, fun c hc hcs hcd => ⟨segRxFind_idle hone hnone c hc hcs hcd, ?_⟩⟩
  rcases mem_segRxFind hc with hc | ⟨d, -, rfl⟩
  · exact h c hc hcs hcd
  · exact absurd hcs.symm (by simpa [reset] using hsrc)

theorem segRxFind_at (hi : l[i]? = some c) (hsrc : c.src = m.src) (hdst : c.dst = m.dst)
    (hauth : c.seqAuth = m.auth) (hidle : ∀ j d, l[j]? = some d → j ≠ i → Idle m d) :
    segRxFind m.src m.dst m.auth l = (l, some i) := by
  obtain ⟨hlt, hci⟩ := List.getElem?_eq_some_iff.1 hi
  have hidx : l.findIdx? (·.stops m.src m.dst m.auth) = some i := by
    refine findIdx?_eq_some_iff_getElem.2 ⟨hlt, ?_, ?_⟩
    · simp [stops, hci, hsrc, hdst, hauth]
    · intro j hj hstop
      have hjl : j < l.length := by omega
      obtain ⟨hcs, hcd⟩ := src_of_stops hstop
      obtain ⟨huse, hlt'⟩ := hidle j _ (getElem?_eq_getElem hjl) (by omega) hcs hcd
      simp only [stops, huse, Bool.and_eq_true, Bool.or_eq_true, decide_eq_true_eq,
        Bool.false_eq_true, or_false] at hstop
      omega
  simp only [segRxFind, hidx]
  rw [if_pos (by rw [getD_eq_getElem?_getD, hi]; exact hauth.ge)]

/-- A segment of the message arrives. -/
structure Delivers (m : SarMsg) (o : ℕ) (rx : NetRx) (pdu : Bytes) : Prop where
  src : rx.addr = m.src
  dst : rx.recvDst = m.dst
  ctl : rx.ctl = m.ctl
  le : m.seq₀ ≤ rx.seq
  lt : rx.seq < m.seq₀ + 2 ^ 13
  seg : o ∈ m.all
  length : 5 ≤ pdu.length
  parse : segParse pdu = m.segHdr o

/-- **What the receiver needs for a segment.** The IV index is the
sender's. Until the message is complete, the replay list lets the segment
through and there is a buffer for it. For the first segment, the list has
no newer segmented message, the Friend queue has space, and a context and
a buffer are free. -/
structure Takes (cfg : TransCfg) (m : SarMsg) (env : RecvEnv) (rx : NetRx) (s : Receiver) :
    Prop where
  iv : (s.net.iviRx rx.oldIv).toNat = m.ivIndex
  open_ : (∀ c ∈ s.segRx, ¬Finished m c) →
    rplCheck s.net.rpl rx false ≠ .replay ∧ env.segAlloc = true
  first : (∀ c ∈ s.segRx, c.src = m.src → c.dst = m.dst → c.seqAuth ≠ m.auth) →
    segSurpassed s.net.rpl (rplCheck s.net.rpl rx false) rx (m.auth % 2 ^ 24) = false ∧
    (cfg.friend && rx.friendMatch && !rx.localMatch && !env.friendSpace) = false ∧
    env.segFree = true ∧ ∃ c ∈ s.segRx, c.inUse = false

instance (cfg : TransCfg) (m : SarMsg) (env : RecvEnv) (rx : NetRx) (s : Receiver) :
    Decidable (Takes cfg m env rx s) :=
  decidable_of_iff (_ ∧ _ ∧ _)
    ⟨fun h => ⟨h.1, h.2.1, h.2.2⟩, fun h => ⟨h.iv, h.open_, h.first⟩⟩

theorem transSeg_eq {pdu : Bytes} (hd : Delivers m o rx pdu)
    (hiv : (s.net.iviRx rx.oldIv).toNat = m.ivIndex)
    (hrpl : rplCheck s.net.rpl rx false ≠ .replay) :
    transSeg cfg env rx pdu s = match (segRxFind m.src m.dst m.auth s.segRx).2 with
      | some i => segKnown cfg env rx (rplCheck s.net.rpl rx false) (m.segHdr o) m.auth i
          { s with segRx := (segRxFind m.src m.dst m.auth s.segRx).1 }
      | none => segNew cfg env rx (rplCheck s.net.rpl rx false) (m.segHdr o) m.auth
          { s with segRx := (segRxFind m.src m.dst m.auth s.segRx).1 } := by
  have hlen := hd.length
  have ho : ¬(m.segHdr o).segN < (m.segHdr o).segO := by
    have := hd.seg
    simp only [SarMsg.all, Finset.mem_range] at this
    simp only [SarMsg.segHdr]
    omega
  have hauth : rxSeqAuth m.ivIndex rx.seq (m.segHdr o).seqZero = m.auth :=
    rxSeqAuth_eq hd.le hd.lt rx.seq_lt
  rw [transSeg, if_neg (by omega), if_neg hrpl]
  rcases hfind : segRxFind m.src m.dst m.auth s.segRx with ⟨l, _ | i⟩
  all_goals simp only [hd.parse, if_neg ho, hiv, hauth, hd.src, hd.dst, hfind]

theorem segNew_own {pdu : Bytes} (hd : Delivers m o rx pdu)
    (hlen : ∀ c ∈ s.segRx, c.seg.length = cfg.rxSegMax) (hm : m.Fits cfg)
    (halloc : env.segAlloc = true) (hseg : segSurpassed s.net.rpl chk rx (m.auth % 2 ^ 24) = false)
    (hfriend : (cfg.friend && rx.friendMatch && !rx.localMatch && !env.friendSpace) = false)
    (hfree : env.segFree = true) (hctx : ∃ c ∈ s.segRx, c.inUse = false) :
    ∃ i c, i < s.segRx.length ∧
      SegResult m {o} (s.segRx.set i c) i (segNew cfg env rx chk (m.segHdr o) m.auth s) := by
  have hlt := hm.lt_max
  have hsome : (segRxFree s.segRx).isSome := by
    obtain ⟨c, hc, huse⟩ := hctx
    rw [segRxFree, findIdx?_isSome, any_eq_true]
    exact ⟨c, hc, by simp [huse]⟩
  obtain ⟨i, hi⟩ := Option.isSome_iff_exists.1 hsome
  have hil : i < s.segRx.length := (findIdx?_eq_some_iff_findIdx_eq.1 hi).1
  have hseglen : ((s.segRx.getD i default).open rx (m.segHdr o) m.auth).seg.length =
      cfg.rxSegMax := hlen (s.segRx.getD i default) (mem_of_getElem? (getElem?_eq_getD hil))
  refine ⟨i, (s.segRx.getD i default).open rx (m.segHdr o) m.auth, hil, ?_⟩
  have hopen : Collecting m ∅ ((s.segRx.getD i default).open rx (m.segHdr o) m.auth) :=
    ⟨hd.src, hd.dst, rfl, hd.ctl, rfl, rfl, rfl, by simp [SegRx.open], by simp, by simp⟩
  have hempty : (∅ : Finset ℕ) ⊂ m.all :=
    Finset.ssubset_iff_subset_ne.2 ⟨Finset.empty_subset _, (Finset.ne_empty_of_mem hd.seg).symm⟩
  rw [segNew, if_neg (by simp only [SarMsg.segHdr]; omega), hfriend, hseg, hfree, hi]
  refine segFound_own (s := s.put i _) ?_ hopen hempty hd.seg hd.ctl halloc hseglen hm
  simp [Receiver.put, hil]

theorem segKnown_finished {h : SegHdr} {auth : ℕ}
    (hi : s.segRx.getD i default = c) (huse : c.inUse = false) :
    (segKnown cfg env rx chk h auth i s).s.segRx = s.segRx ∧
      (segKnown cfg env rx chk h auth i s).complete = none := by
  simp only [segKnown, hi, huse, Bool.false_eq_true, if_false]
  split_ifs <;> simp

theorem segKnown_collecting (hi : s.segRx.getD i default = c) (hc : Collecting m D c)
    {pdu : Bytes} (hd : Delivers m o rx pdu) : segKnown cfg env rx chk (m.segHdr o) m.auth i s =
      segFound cfg env rx chk (m.segHdr o) m.auth i s := by
  have hvalid : c.isValid rx (m.segHdr o) = true := by
    simp [isValid, SarMsg.segHdr, hc.hdr, hc.segN, hc.src, hc.dst, hc.ctl, hd.src, hd.dst,
      hd.ctl]
  simp only [segKnown, hi]
  rw [if_neg (by rw [hc.seqAuth]; omega), hvalid, hc.inUse]
  rfl

/-- **A segment of the message moves it one phase on**, and the last one
that was missing completes it. -/
theorem transSeg_own {pdu : Bytes} (hph : Phase m s.segRx D) (hwf : s.Wf cfg) (hm : m.Fits cfg)
    (hd : Delivers m o rx pdu) (ht : Takes cfg m env rx s) :
    Phase m (transSeg cfg env rx pdu s).s.segRx (insert o D) ∧
      (transSeg cfg env rx pdu s).complete =
        if D ≠ m.all ∧ insert o D = m.all then some m.sdu else none := by
  have hsrc : m.src ≠ 0 := by
    have := rx.addr_pos
    rw [hd.src] at this
    omega
  cases hph with
  | fresh hfresh =>
    have hnone : ∀ c ∈ s.segRx, c.src = m.src → c.dst = m.dst → c.seqAuth ≠ m.auth :=
      fun c hc hcs hcd => (hfresh c hc hcs hcd).ne
    obtain ⟨hrpl, halloc⟩ := ht.open_ fun c hc hfin => hnone c hc hfin.src hfin.dst hfin.seqAuth
    obtain ⟨hseg, hfriend, hfree, hctx⟩ := ht.first hnone
    obtain ⟨hfind, hidle⟩ := segRxFind_fresh hfresh hwf.once hsrc
    have hempty : ∅ ≠ m.all := (Finset.ne_empty_of_mem hd.seg).symm
    rw [transSeg_eq hd ht.iv hrpl, hfind]
    obtain ⟨i, c, hi, hres⟩ := segNew_own (s := { s with segRx := _ }) hd
      (length_segRxFind hwf.length) hm halloc hseg hfriend hfree (segRxFind_free hctx)
    obtain ⟨hph, hcomp⟩ := hres.phase (by simpa using hi) (Finset.singleton_ne_empty o)
      (Finset.singleton_subset_iff.2 hd.seg) (fun j d hj hji => by
        rw [getElem?_set_ne (Ne.symm hji)] at hj
        exact hidle d (mem_of_getElem? hj))
    exact ⟨hph, by simpa [hempty] using hcomp⟩
  | @collecting D i c hi hne hall hc hidle =>
    have hnofin : ∀ d ∈ s.segRx, ¬Finished m d := by
      intro d hd' hfin
      obtain ⟨j, hj⟩ := mem_iff_getElem?.1 hd'
      by_cases hji : j = i
      · subst hji
        obtain rfl : c = d := by simpa [hi] using hj
        exact absurd hfin.inUse (by simp [hc.inUse])
      · exact absurd hfin.seqAuth (hidle j d hj hji hfin.src hfin.dst).2.ne
    obtain ⟨hrpl, halloc⟩ := ht.open_ hnofin
    have hil : i < s.segRx.length := (List.getElem?_eq_some_iff.1 hi).1
    have hgetD : s.segRx.getD i default = c := by rw [getD_eq_getElem?_getD, hi]; rfl
    rw [transSeg_eq hd ht.iv hrpl, segRxFind_at hi hc.src hc.dst hc.seqAuth hidle]
    simp only
    rw [segKnown_collecting hgetD hc hd]
    have hres : SegResult m (insert o D) s.segRx i
        (segFound cfg env rx (rplCheck s.net.rpl rx false) (m.segHdr o) m.auth i s) :=
      segFound_own hi hc hall hd.seg hd.ctl halloc (hwf.length c (mem_of_getElem? hi)) hm
    obtain ⟨hph, hcomp⟩ := hres.phase hil (Finset.insert_ne_empty o D)
      (Finset.insert_subset hd.seg hall.subset) hidle
    exact ⟨hph, by simpa [hall.ne] using hcomp⟩
  | @finished i c hi hc hidle =>
    rw [Finset.insert_eq_of_mem hd.seg]
    suffices hsuff : (transSeg cfg env rx pdu s).s.segRx = s.segRx ∧
        (transSeg cfg env rx pdu s).complete = none by
      rw [hsuff.1, hsuff.2]
      exact ⟨.finished hi hc hidle, by simp⟩
    have hgetD : s.segRx.getD i default = c := by rw [getD_eq_getElem?_getD, hi]; rfl
    by_cases hrpl : rplCheck s.net.rpl rx false = .replay
    · have hlen5 := hd.length
      rw [transSeg, if_neg (by omega), if_pos hrpl]
      exact ⟨rfl, rfl⟩
    · rw [transSeg_eq hd ht.iv hrpl, segRxFind_at hi hc.src hc.dst hc.seqAuth hidle]
      exact segKnown_finished hgetD hc.inUse

end Phases

/-! ## Everything else leaves the message alone -/

section Spares

variable {m : SarMsg} {D : Finset ℕ} {cfg : TransCfg} {addr : ℕ} {l l' : List SegRx}

/-- A step that leaves the message alone: the contexts of its peer are
the old ones, none is taken into use, and its own context stays. -/
structure Spares (m : SarMsg) (l l' : List SegRx) : Prop where
  peer : ∀ (j : ℕ) (c' : SegRx), l'[j]? = some c' → c'.src = m.src → c'.dst = m.dst →
    ∃ c, l[j]? = some c ∧ c.src = m.src ∧ c.dst = m.dst ∧ c'.seqAuth = c.seqAuth ∧
      (c'.inUse = true → c.inUse = true)
  collecting : ∀ (j : ℕ) (c : SegRx) (D : Finset ℕ), l[j]? = some c → Collecting m D c →
    ∃ c', l'[j]? = some c' ∧ Collecting m D c'
  finished : ∀ (j : ℕ) (c : SegRx), l[j]? = some c → Finished m c →
    ∃ c', l'[j]? = some c' ∧ Finished m c'

theorem Spares.idle (h : Spares m l l') {i : ℕ} (hidle : ∀ j d, l[j]? = some d → j ≠ i → Idle m d) :
    ∀ j d, l'[j]? = some d → j ≠ i → Idle m d := by
  intro j d hj hji hds hdd
  obtain ⟨c, hc, hcs, hcd, hauth, huse⟩ := h.peer j d hj hds hdd
  obtain ⟨hcu, hlt⟩ := hidle j c hc hji hcs hcd
  refine ⟨?_, hauth ▸ hlt⟩
  by_contra hdu
  simp [hcu] at huse
  simp [huse] at hdu

theorem Phase.spares (hph : Phase m l D) (h : Spares m l l') : Phase m l' D := by
  cases hph with
  | fresh hfresh =>
    refine .fresh fun c' hc' hcs hcd => ?_
    obtain ⟨j, hj⟩ := mem_iff_getElem?.1 hc'
    obtain ⟨c, hc, hs, hd, hauth, -⟩ := h.peer j c' hj hcs hcd
    rw [hauth]
    exact hfresh c (mem_of_getElem? hc) hs hd
  | collecting hi hne hall hc hidle =>
    obtain ⟨c', hi', hc'⟩ := h.collecting _ _ _ hi hc
    exact .collecting hi' hne hall hc' (h.idle hidle)
  | finished hi hc hidle =>
    obtain ⟨c', hi', hc'⟩ := h.finished _ _ hi hc
    exact .finished hi' hc' (h.idle hidle)

theorem CtxMoves.spares (hmv : CtxMoves addr l l') (hsrc : m.src ≠ 0) (haddr : addr ≠ m.src)
    (hkeep : ∀ j c, segRxFree l = some j → l[j]? = some c → ¬Finished m c) : Spares m l l' := by
  -- A context of the source that stays of the source is not touched.
  have hstay : ∀ j c, l[j]? = some c → c.src = m.src → (segRxFree l = some j → False) →
      l'[j]? = some c := by
    intro j c hc hcs hfree
    rcases hmv j with heq | ⟨d, d', hd, -, -, -, hold⟩
    · rw [heq, hc]
    · obtain rfl : c = d := by simpa [hc] using hd
      rcases hold with hold | hold
      · exact absurd (hold.symm.trans hcs) haddr
      · exact (hfree hold).elim
  refine ⟨?_, ?_, ?_⟩
  · intro j c' hj hcs hcd
    rcases hmv j with heq | ⟨d, d', -, hd', -, hnew, -⟩
    · exact ⟨c', heq ▸ hj, hcs, hcd, rfl, id⟩
    · obtain rfl : c' = d' := by simpa [hj] using hd'
      rcases hnew with hnew | hnew
      · exact absurd (hnew.symm.trans hcs) haddr
      · exact absurd (hcs.symm.trans hnew) hsrc
  · intro j c D hj hc
    refine ⟨c, hstay j c hj hc.src fun hfree => ?_, hc⟩
    obtain ⟨hlt, huse, -⟩ := findIdx?_eq_some_iff_getElem.1 hfree
    rw [getElem?_eq_getElem hlt, Option.some.injEq] at hj
    rw [hj, hc.inUse] at huse
    exact absurd huse (by simp)
  · intro j c hj hc
    exact ⟨c, hstay j c hj hc.src fun hfree => hkeep j c hfree hj hc, hc⟩

theorem spares_modify (i : ℕ) {f : SegRx → SegRx}
    (hf : ∀ c, (f c).src = c.src ∧ (f c).dst = c.dst ∧ (f c).seqAuth = c.seqAuth ∧
      ((f c).inUse = true → c.inUse = true))
    (hcoll : ∀ c D, l[i]? = some c → Collecting m D c → Collecting m D (f c)) :
    Spares m l (l.modify i f) := by
  have hfin : ∀ c, Finished m c → Finished m (f c) := by
    intro c hc
    obtain ⟨hs, hd, ha, hu⟩ := hf c
    refine ⟨hs.trans hc.src, hd.trans hc.dst, ha.trans hc.seqAuth, ?_⟩
    by_contra h
    have := hu (by simpa using h)
    rw [hc.inUse] at this
    exact absurd this (by simp)
  refine ⟨?_, ?_, ?_⟩
  · intro j c' hj hcs hcd
    rw [getElem?_modify] at hj
    obtain ⟨c, hc, rfl⟩ := Option.map_eq_some_iff.1 hj
    by_cases hij : i = j
    · rw [if_pos hij] at hcs hcd ⊢
      obtain ⟨hs, hd, ha, hu⟩ := hf c
      exact ⟨c, hc, hs.symm.trans hcs, hd.symm.trans hcd, ha, hu⟩
    · rw [if_neg hij] at hcs hcd ⊢
      exact ⟨c, hc, hcs, hcd, rfl, id⟩
  · intro j c D hj hc
    by_cases hij : i = j
    · subst hij
      exact ⟨f c, by rw [getElem?_modify_eq, hj]; rfl, hcoll c D hj hc⟩
    · exact ⟨c, by rw [getElem?_modify_ne _ _ hij, hj], hc⟩
  · intro j c hj hc
    by_cases hij : i = j
    · subst hij
      exact ⟨f c, by rw [getElem?_modify_eq, hj]; rfl, hfin c hc⟩
    · exact ⟨c, by rw [getElem?_modify_ne _ _ hij, hj], hc⟩

theorem spares_ackTimer (i : ℕ) : Spares m l (l.modify i (SegRx.ackTimer cfg)) := by
  refine spares_modify i ?_ ?_
  · intro c
    obtain ⟨a, n, h⟩ := ackTimer_eq cfg c
    rw [h]
    exact ⟨rfl, rfl, rfl, id⟩
  · intro c D _ hc
    obtain ⟨a, n, h⟩ := ackTimer_eq cfg c
    rw [h]
    exact ⟨hc.src, hc.dst, hc.seqAuth, hc.ctl, hc.hdr, hc.segN, hc.inUse, hc.block, hc.seg, hc.len⟩

end Spares

/-! ## Runs -/

section Runs

variable {m : SarMsg} {D : Finset ℕ} {cfg : TransCfg} {s : Receiver} {e : SegEvent}

/-- **What the receiver needs along a run.** Its own segments are taken
(`Takes`); a segment of another source does not take over the context
the message was completed in; the discard timer does not fire on the
context that collects. -/
def Receives (cfg : TransCfg) (m : SarMsg) (s : Receiver) : SegEvent → Prop
  | .recv env rx _ =>
    if rx.addr = m.src then Takes cfg m env rx s
    else ∀ c ∈ (segRxFree s.segRx).bind fun j => s.segRx[j]?, ¬Finished m c
  | .ackTimer _ => True
  | .discardTimer i => ∀ c ∈ s.segRx[i]?, c.src = m.src → c.dst = m.dst →
      c.seqAuth = m.auth → c.inUse = false

instance (cfg : TransCfg) (m : SarMsg) (s : Receiver) : DecidablePred (Receives cfg m s)
  | .recv .. => inferInstanceAs (Decidable (if _ = _ then Takes cfg m _ _ s else ∀ c ∈ Option.bind _ _, _))
  | .ackTimer _ => .isTrue trivial
  | .discardTimer i => inferInstanceAs (Decidable (∀ c ∈ s.segRx[i]?, _))

/-- The segments of the message among the events: no other message comes
from its source. -/
def OnlySegmentsOf (m : SarMsg) (es : List SegEvent) : Prop :=
  ∀ env rx pdu, .recv env rx pdu ∈ es → rx.addr = m.src → ∃ o, Delivers m o rx pdu

/-- The numbers of the segments that come from the source. -/
def delivered (m : SarMsg) : List SegEvent → Finset ℕ
  | [] => ∅
  | .recv _ rx pdu :: es =>
    if rx.addr = m.src then insert (segParse pdu).segO (delivered m es) else delivered m es
  | _ :: es => delivered m es

theorem Phase.subset_all {l : List SegRx} (h : Phase m l D) : D ⊆ m.all := by
  cases h with
  | fresh _ => exact Finset.empty_subset _
  | collecting _ _ hall _ _ => exact hall.subset
  | finished _ _ _ => exact Finset.Subset.refl _

theorem Phase.segStep_other (hph : Phase m s.segRx D) (hsrc : m.src ≠ 0)
    (hrec : Receives cfg m s e) (hother : ∀ env rx pdu, e = .recv env rx pdu → rx.addr ≠ m.src) :
    Phase m (segStep cfg s e).segRx D := by
  cases e with
  | recv env rx pdu =>
    have haddr := hother env rx pdu rfl
    rw [Receives, if_neg haddr] at hrec
    refine hph.spares ((transSeg_moves cfg env rx pdu s).spares hsrc haddr fun j c hj hc => ?_)
    exact hrec c (by rw [hj]; exact hc)
  | ackTimer i => exact hph.spares (spares_ackTimer i)
  | discardTimer i =>
    refine hph.spares (spares_modify i ?_ ?_)
    · exact fun c => ⟨rfl, rfl, rfl, fun h => absurd h (by simp [reset])⟩
    · intro c D hi hc
      have := hrec c hi hc.src hc.dst hc.seqAuth
      rw [hc.inUse] at this
      exact absurd this (by simp)

theorem complete_append {α : Type*} (x : α) {D T R A : Finset ℕ} (hDT : D ⊆ T) (hTA : T ⊆ A)
    (hRA : R ⊆ A) (hTR : T ⊆ R) :
    (if D ≠ A ∧ T = A then [x] else []) ++ (if T ≠ A ∧ R = A then [x] else []) =
      if D ≠ A ∧ R = A then [x] else [] := by
  by_cases hT : T = A
  · have hR : R = A := hRA.antisymm (hT ▸ hTR)
    simp [hT, hR]
  · have hD : D ≠ A := fun h => hT (hTA.antisymm (h ▸ hDT))
    simp [hT, hD]

/-- **The phase of the message along a run**, and what the run completes. -/
theorem segRun_phase (hm : m.Fits cfg) (hsrc : m.src ≠ 0) :
    ∀ (es : List SegEvent) (s : Receiver) (D : Finset ℕ), Phase m s.segRx D → s.Wf cfg →
      OnlySegmentsOf m es → Along (segStep cfg) (Receives cfg m) s es →
      Phase m (run (segStep cfg) s es).segRx (D ∪ delivered m es) ∧
      emitted (segStep cfg) (segCompleted cfg m.src) s es =
        if D ≠ m.all ∧ D ∪ delivered m es = m.all then [m.sdu] else [] := by
  intro es
  induction es with
  | nil =>
    intro s D hph _ _ _
    simp only [run_nil, delivered, Finset.union_empty, emitted_nil]
    refine ⟨hph, ?_⟩
    rw [if_neg fun h => h.1 h.2]
  | cons e es ih =>
    intro s D hph hwf honly halong
    rw [along_cons] at halong
    rw [run_cons, emitted_cons]
    have hwf' := hwf.segStep e
    have honly' : OnlySegmentsOf m es := fun env rx pdu he => honly env rx pdu (.tail _ he)
    by_cases hown : ∃ env rx pdu, e = .recv env rx pdu ∧ rx.addr = m.src
    · -- A segment of the message.
      obtain ⟨env, rx, pdu, rfl, haddr⟩ := hown
      obtain ⟨o, hd⟩ := honly env rx pdu (.head _) haddr
      have hrec := halong.1
      rw [Receives, if_pos haddr] at hrec
      obtain ⟨hph', hcomp⟩ := transSeg_own hph hwf hm hd hrec
      obtain ⟨hrun, hemit⟩ := ih _ _ hph' hwf' honly' halong.2
      have hset : D ∪ delivered m (.recv env rx pdu :: es) = insert o D ∪ delivered m es := by
        rw [delivered, if_pos haddr, hd.parse, Finset.union_insert, Finset.insert_union]
        rfl
      rw [hset]
      refine ⟨hrun, ?_⟩
      have hhead : segCompleted cfg m.src s (.recv env rx pdu) =
          if D ≠ m.all ∧ insert o D = m.all then [m.sdu] else [] := by
        rw [segCompleted, if_pos haddr, hcomp]
        split <;> rfl
      rw [hhead]
      refine Eq.trans (congrArg _ hemit) ?_
      exact complete_append m.sdu (Finset.subset_insert o D) hph'.subset_all hrun.subset_all
        Finset.subset_union_left
    · -- Anything else: neither the phase nor the output moves.
      have hother : ∀ env rx pdu, e = .recv env rx pdu → rx.addr ≠ m.src :=
        fun env rx pdu he ha => hown ⟨env, rx, pdu, he, ha⟩
      have hdel : delivered m (e :: es) = delivered m es := by
        cases e with
        | recv env rx pdu => rw [delivered, if_neg (hother env rx pdu rfl)]
        | ackTimer i => rfl
        | discardTimer i => rfl
      have hhead : segCompleted cfg m.src s e = [] := by
        cases e with
        | recv env rx pdu => rw [segCompleted, if_neg (hother env rx pdu rfl)]
        | ackTimer i => rfl
        | discardTimer i => rfl
      rw [hdel, hhead, nil_append]
      exact ih _ _ (hph.segStep_other hsrc halong.1 hother) hwf' honly' halong.2

end Runs

/-! ## From one node to the other -/

section Lossless

variable {cfgT cfgR : TransCfg} {env : SendEnv} {tx : NetTx} {sdu : Bytes} {ctlOp : Option ℕ}
variable {blocked : Bool} {net : Net} {t₀ : SegTx} {s : Receiver} {es : List SegEvent}

/-- The context `send_seg` sends a message from, once it is cut. -/
def sentFrom (cfg : TransCfg) (env : SendEnv) (tx : NetTx) (sdu : Bytes) (ctlOp : Option ℕ)
    (blocked : Bool) (net : Net) (t₀ : SegTx) : SegTx × Bool :=
  (segTxSetup cfg tx sdu ctlOp blocked net t₀).cut cfg env tx sdu

/-- The message, as its sender means it. -/
def sentMsg (tx : NetTx) (sdu : Bytes) (ctlOp : Option ℕ) (net : Net) : SarMsg where
  src := tx.src
  dst := tx.addr
  ctl := ctlOp.isSome
  aszmic := tx.aszmic
  hdr := tx.segHdr ctlOp % 2 ^ 8
  ivIndex := net.iviTx.toNat
  seq₀ := net.seq.toNat
  sdu := sdu

/-- **The sender is able to send it**: the segments fit the array, every
one of them got a buffer, and the Friend queue keeps none to itself. -/
structure SentWhole (cfg : TransCfg) (env : SendEnv) (tx : NetTx) (sdu : Bytes)
    (ctlOp : Option ℕ) (blocked : Bool) (net : Net) (t₀ : SegTx) : Prop where
  fits : SegFits cfg ctlOp.isSome sdu
  /-- `BT_MESH_TX_SEG_MAX` is at most 32. -/
  max : cfg.txSegMax ≤ 32
  length : t₀.seg.length = cfg.txSegMax
  buffers : (sentFrom cfg env tx sdu ctlOp blocked net t₀).2 = true
  friend : ∀ o, friendOnly cfg env tx o = false

theorem SentWhole.seg_eq (h : SentWhole cfgT env tx sdu ctlOp blocked net t₀) {o : ℕ}
    (ho : o ≤ (sentMsg tx sdu ctlOp net).segN) :
    (sentFrom cfgT env tx sdu ctlOp blocked net t₀).1.seg.getD o none =
      some ((sentMsg tx sdu ctlOp net).seg o) := by
  have hpos := segLen_pos ctlOp.isSome
  have hroom : ∀ j, segLen ctlOp.isSome * j < sdu.length → 0 + j < t₀.seg.length := by
    intro j hj
    have hj' : j ≤ (sdu.length - 1) / segLen ctlOp.isSome :=
      (mul_lt_length_iff hpos h.fits.1).1 hj
    have := h.fits.2
    have := h.length
    omega
  have := cutSegs_getD h.friend sdu.length 0 sdu t₀.seg le_rfl hroom h.buffers o
    ((mul_lt_length_iff hpos h.fits.1).2 ho)
  rwa [Nat.zero_add] at this

/-- **What `seg_tx_buf_build` puts on air, `trans_seg` reads back.** -/
theorem SentWhole.parse (h : SentWhole cfgT env tx sdu ctlOp blocked net t₀) {o : ℕ}
    (ho : o ≤ (sentMsg tx sdu ctlOp net).segN) :
    segParse (segTxBufBuild (sentFrom cfgT env tx sdu ctlOp blocked net t₀).1 o) =
      (sentMsg tx sdu ctlOp net).segHdr o := by
  have hN : (sentMsg tx sdu ctlOp net).segN < 32 := lt_of_lt_of_le h.fits.2 h.max
  rw [segParse_segTxBufBuild (lt_of_le_of_lt ho hN) hN, h.seg_eq ho]
  simp only [SarMsg.segHdr, SegHdr.mk.injEq]
  refine ⟨rfl, rfl, rfl, trivial, rfl, ?_⟩
  refine take_of_length_le ?_
  rw [Option.getD_some, SarMsg.seg, length_piece]
  rfl

theorem SentWhole.length_pdu (h : SentWhole cfgT env tx sdu ctlOp blocked net t₀) {o : ℕ}
    (ho : o ≤ (sentMsg tx sdu ctlOp net).segN) :
    5 ≤ (segTxBufBuild (sentFrom cfgT env tx sdu ctlOp blocked net t₀).1 o).length := by
  have hdata := congrArg (fun h => h.data.length) (h.parse ho)
  have hlt := (mul_lt_length_iff (segLen_pos ctlOp.isSome) h.fits.1).2 ho
  have hpos := segLen_pos ctlOp.isSome
  simp only [segParse, length_drop, SarMsg.segHdr, SarMsg.seg, length_piece, sentMsg] at hdata
  omega

/-- The deliveries of a run: whatever comes from the sender is a segment
of the message, with a SEQ at most 2^13 - 1 ahead of its first one, and
every segment comes at least once. -/
structure Deliveries (t : SegTx) (seq₀ : ℕ) (es : List SegEvent) : Prop where
  only : ∀ env rx pdu, .recv env rx pdu ∈ es → rx.addr = t.src →
    (∃ o ≤ t.segN, pdu = segTxBufBuild t o) ∧ rx.recvDst = t.dst ∧ rx.ctl = t.ctl ∧
      seq₀ ≤ rx.seq ∧ rx.seq < seq₀ + 2 ^ 13
  all : ∀ o ≤ t.segN, ∃ env rx, .recv env rx (segTxBufBuild t o) ∈ es ∧ rx.addr = t.src

theorem mem_delivered {m : SarMsg} {o : ℕ} {env : RecvEnv} {rx : NetRx} {pdu : Bytes}
    (haddr : rx.addr = m.src) (ho : (segParse pdu).segO = o) :
    ∀ es, .recv env rx pdu ∈ es → o ∈ delivered m es := by
  intro es hes
  induction es with
  | nil => exact absurd hes (by simp)
  | cons e es ih =>
    rcases mem_cons.1 hes with rfl | htl
    · rw [delivered, if_pos haddr, ho]
      exact Finset.mem_insert_self _ _
    · cases e with
      | recv env' rx' pdu' =>
        rw [delivered]
        split
        · exact Finset.mem_insert_of_mem (ih htl)
        · exact ih htl
      | ackTimer i => exact ih htl
      | discardTimer i => exact ih htl

theorem Deliveries.delivers (hsent : SentWhole cfgT env tx sdu ctlOp blocked net t₀)
    (h : Deliveries (sentFrom cfgT env tx sdu ctlOp blocked net t₀).1 net.seq.toNat es) :
    OnlySegmentsOf (sentMsg tx sdu ctlOp net) es := by
  intro env' rx pdu hmem haddr
  obtain ⟨⟨o, ho, rfl⟩, hdst, hctl, hle, hlt⟩ := h.only env' rx pdu hmem haddr
  refine ⟨o, haddr, hdst, hctl, hle, hlt, ?_, hsent.length_pdu ho, hsent.parse ho⟩
  exact Finset.mem_range.2 (lt_succ_of_le ho)

theorem Deliveries.subset_delivered (hsent : SentWhole cfgT env tx sdu ctlOp blocked net t₀)
    (h : Deliveries (sentFrom cfgT env tx sdu ctlOp blocked net t₀).1 net.seq.toNat es) :
    (sentMsg tx sdu ctlOp net).all ⊆ delivered (sentMsg tx sdu ctlOp net) es := by
  intro o ho
  have ho' : o ≤ (sentMsg tx sdu ctlOp net).segN := Nat.lt_succ_iff.1 (Finset.mem_range.1 ho)
  obtain ⟨env', rx, hmem, haddr⟩ := h.all o ho'
  exact mem_delivered haddr (by rw [hsent.parse ho']; rfl) es hmem

/-- **Segmentation and reassembly lose nothing.** A message that is sent
whole, delivered in any order, with any duplicates and with segments of
other sources and timers in between, to a node that can hold it: every
segment gives the SeqAuth of the message, and the node assembles exactly
one message from the source, byte for byte the one sent. -/
theorem sar_lossless (hsent : SentWhole cfgT env tx sdu ctlOp blocked net t₀)
    (hmax : (sdu.length - 1) / segLen ctlOp.isSome < cfgR.rxSegMax)
    (hmic : ctlOp.isSome = true ∨ appMicLen tx.aszmic < sdu.length)
    (hwf : s.Wf cfgR) (hfresh : Fresh (sentMsg tx sdu ctlOp net) s.segRx)
    (hdel : Deliveries (sentFrom cfgT env tx sdu ctlOp blocked net t₀).1 net.seq.toNat es)
    (hrecv : Along (segStep cfgR) (Receives cfgR (sentMsg tx sdu ctlOp net)) s es) :
    (∀ env' rx pdu, .recv env' rx pdu ∈ es → rx.addr = tx.src →
      rxSeqAuth net.iviTx.toNat rx.seq (segParse pdu).seqZero =
        seqAuth net.iviTx.toNat net.seq.toNat) ∧
    emitted (segStep cfgR) (segCompleted cfgR tx.src) s es = [sdu] := by
  have honly := hdel.delivers hsent
  refine ⟨fun env' rx pdu hmem haddr => ?_, ?_⟩
  · obtain ⟨o, hd⟩ := honly env' rx pdu hmem haddr
    rw [hd.parse]
    exact rxSeqAuth_eq hd.le hd.lt rx.seq_lt
  · have hfits : (sentMsg tx sdu ctlOp net).Fits cfgR :=
      ⟨hsent.fits.1, lt_of_lt_of_le hsent.fits.2 hsent.max, hmax, hmic⟩
    have hzero : 0 ∈ (sentMsg tx sdu ctlOp net).all := Finset.mem_range.2 (Nat.succ_pos _)
    have hsrc : (sentMsg tx sdu ctlOp net).src ≠ 0 := by
      obtain ⟨env', rx, hmem, haddr⟩ := hdel.all 0 (Nat.zero_le _)
      have hpos := rx.addr_pos
      rw [haddr] at hpos
      exact Nat.pos_iff_ne_zero.1 hpos
    obtain ⟨hph, hemit⟩ := segRun_phase hfits hsrc es s ∅ (.fresh hfresh) hwf honly hrecv
    have hall : ∅ ∪ delivered (sentMsg tx sdu ctlOp net) es = (sentMsg tx sdu ctlOp net).all := by
      refine hph.subset_all.antisymm ?_
      rw [Finset.empty_union]
      exact hdel.subset_delivered hsent
    rw [if_pos ⟨(Finset.ne_empty_of_mem hzero).symm, hall⟩] at hemit
    exact hemit

end Lossless

/-! ## A run, and a message that is too large -/

/-- A message of two segments, for node 2. -/
def sdu14 : Bytes := List.replicate 12 7 ++ [8, 9]

/-- The context of `sender5` it is sent from. -/
def sent14 : SegTx :=
  (sentFrom {} plainEnv { src := 1, addr := 2 } sdu14 none false sender5.net
    { seg := List.replicate 3 none }).1

/-- Both segments, the last one first and both of them twice, and one of
another source. -/
def deliveries14 : List SegEvent :=
  [.recv {} { addr := 1, recvDst := 2, seq := 1 } (segTxBufBuild sent14 1),
   .recv {} { addr := 9, recvDst := 2, seq := 70 } (segTxBufBuild sent14 0),
   .recv {} { addr := 1, recvDst := 2, seq := 1 } (segTxBufBuild sent14 1),
   .recv {} { addr := 1, recvDst := 2, seq := 2 } (segTxBufBuild sent14 0),
   .recv {} { addr := 1, recvDst := 2, seq := 3 } (segTxBufBuild sent14 0)]

/-- The node they are delivered to. -/
def receiver5 : Receiver := receiverInit {} (provision 3 false 5 true) 2

theorem sar_lossless_example :
    emitted (segStep {}) (segCompleted {} 1) receiver5 deliveries14 = [sdu14] := by
  have hsent : SentWhole {} plainEnv { src := 1, addr := 2 } sdu14 none false sender5.net
      { seg := List.replicate 3 none } :=
    ⟨⟨by decide, by decide⟩, by decide, rfl, by decide, fun _ => rfl⟩
  have hdel : Deliveries sent14 sender5.net.seq.toNat deliveries14 := by
    refine ⟨fun env rx pdu hmem haddr => ?_, fun o ho => ?_⟩
    · simp only [deliveries14, List.mem_cons, SegEvent.recv.injEq, List.not_mem_nil, or_false]
        at hmem
      rcases hmem with ⟨-, rfl, rfl⟩ | ⟨-, rfl, rfl⟩ | ⟨-, rfl, rfl⟩ | ⟨-, rfl, rfl⟩ | ⟨-, rfl, rfl⟩
      · exact ⟨⟨1, by decide, rfl⟩, rfl, rfl, by decide, by decide⟩
      · exact absurd haddr (by decide)
      · exact ⟨⟨1, by decide, rfl⟩, rfl, rfl, by decide, by decide⟩
      · exact ⟨⟨0, by decide, rfl⟩, rfl, rfl, by decide, by decide⟩
      · exact ⟨⟨0, by decide, rfl⟩, rfl, rfl, by decide, by decide⟩
    · have ho' : o ≤ 1 := ho
      obtain rfl | rfl : o = 0 ∨ o = 1 := by omega
      · exact ⟨{}, { addr := 1, recvDst := 2, seq := 2 }, by simp [deliveries14], rfl⟩
      · exact ⟨{}, { addr := 1, recvDst := 2, seq := 1 }, by simp [deliveries14], rfl⟩
  exact (sar_lossless hsent (by decide) (.inr (by decide)) (receiverInit_wf _ _ _)
    (by unfold Fresh; decide) hdel (by decide)).2

/-- A message of four segments, within `BT_MESH_TX_SDU_MAX` of a sender
with four. -/
def sdu40 : Bytes := List.replicate 40 7

def sent40 : SegTx :=
  (sentFrom { txSegMax := 4 } plainEnv { src := 1, addr := 2 } sdu40 none false sender5.net
    { seg := List.replicate 4 none }).1

/-- **A message the receiver has no room for is never complete.** It
arrives whole and in order, with contexts and buffers free, and every
segment is answered with an empty ack. -/
theorem sar_fails_beyond_rxSegMax :
    sdu40.length ≤ sduMax 4 ∧
    SentWhole { txSegMax := 4 } plainEnv { src := 1, addr := 2 } sdu40 none false sender5.net
      { seg := List.replicate 4 none } ∧
    emitted (segStep {}) (segCompleted {} 1) receiver5
      [.recv {} { addr := 1, recvDst := 2, seq := 0 } (segTxBufBuild sent40 0),
       .recv {} { addr := 1, recvDst := 2, seq := 1 } (segTxBufBuild sent40 1),
       .recv {} { addr := 1, recvDst := 2, seq := 2 } (segTxBufBuild sent40 2),
       .recv {} { addr := 1, recvDst := 2, seq := 3 } (segTxBufBuild sent40 3)] = [] ∧
    (transSeg {} {} { addr := 1, recvDst := 2, seq := 0 } (segTxBufBuild sent40 0)
      receiver5).err = some .msgsize := by
  refine ⟨by decide, ⟨⟨by decide, by decide⟩, by decide, rfl, by decide, fun _ => rfl⟩, ?_, ?_⟩
  · decide
  · decide

end Mesh

end OpenBlue

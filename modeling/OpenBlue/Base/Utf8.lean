import Mathlib.Data.List.GetD
import OpenBlue.Base.Model.Utf8
import OpenBlue.Common.Words
/-!
# Base — what the UTF-8 helpers keep

A sequence is a starting byte and as many continuations as this one says. The
sequences are a prefix-free code (`prefixFree_isSeq`), and where a text of them
is cut, going back over the continuations leads to the sequence that was cut,
so `utf8_trunc` leaves the longest text (`utf8Trunc_cut`). `utf8_count_chars`
counts the sequences, and refuses what is not made of them.
-/

namespace OpenBlue

namespace Utf8

open List Option

/-! ## Sequences -/

/-- How many bytes a starting byte says its sequence has; 0 of any other
byte. -/
def seqLen (a : UInt8) : ℕ :=
  if a < 0x80 then 1
  else if a < 0xc0 then 0
  else if a < 0xe0 then 2
  else if a < 0xf0 then 3
  else if a < 0xf8 then 4
  else 0

/-- A continuation. -/
def Cont (b : UInt8) : Prop := 0x80 ≤ b ∧ b < 0xc0

instance : DecidablePred Cont := fun _ => inferInstanceAs (Decidable (_ ∧ _))

/-- A sequence: a starting byte, and as many continuations as it says. -/
def IsSeq (c : Bytes) : Prop :=
  ∃ a tail, c = a :: tail ∧ a ≠ 0 ∧ seqLen a = tail.length + 1 ∧ ∀ b ∈ tail, Cont b

/-- A character of UTF-8; NUL ends a string. -/
def IsChar (c : Bytes) : Prop := ∃ ch : Char, ch.val ≠ 0 ∧ c = String.utf8EncodeChar ch

variable {a b : UInt8} {c s t p conts rest mem dst : Bytes} {words full left : List Bytes}
  {part : Bytes} {n k : ℕ}

theorem seqLen_le (a : UInt8) : seqLen a ≤ 4 := by
  unfold seqLen
  repeat' split
  all_goals decide

theorem IsSeq.zero_notMem (h : IsSeq c) : 0 ∉ c := by
  obtain ⟨a, tail, rfl, hne, -, htail⟩ := h
  intro hmem
  rcases mem_cons.1 hmem with h0 | h0
  · exact hne h0.symm
  · exact absurd (htail 0 h0) (by decide)

/-- **No sequence begins another one.** -/
theorem prefixFree_isSeq : PrefixFree IsSeq where
  ne_nil c hc := by
    obtain ⟨a, tail, rfl, -⟩ := hc
    exact cons_ne_nil a tail
  eq_of_prefix c d hc hd hcd := by
    obtain ⟨a, tail, rfl, -, hlen, -⟩ := hc
    obtain ⟨a', tail', rfl, -, hlen', -⟩ := hd
    obtain ⟨rfl, htail⟩ := cons_prefix_cons.1 hcd
    rw [htail.eq_of_length (by omega)]

theorem zero_notMem_flatten (h : ∀ c ∈ words, IsSeq c) : 0 ∉ words.flatten := by
  intro hmem
  obtain ⟨c, hc, h0⟩ := mem_flatten.1 hmem
  exact (h c hc).zero_notMem h0

/-! ## Bytes -/

theorem masks (b : UInt8) : (b &&& asciiChar = b ↔ b < 0x80) ∧
      (b &&& sequenceFirstMask = sequenceFirstMask ↔ 0xc0 ≤ b) ∧ (continues b = true ↔ Cont b) := by
  have hall : ∀ n : Fin 256, (UInt8.ofFin n &&& asciiChar = UInt8.ofFin n ↔ UInt8.ofFin n < 0x80) ∧
      (UInt8.ofFin n &&& sequenceFirstMask = sequenceFirstMask ↔ 0xc0 ≤ UInt8.ofFin n) ∧
      (continues (UInt8.ofFin n) = true ↔ Cont (UInt8.ofFin n)) := by
    decide +kernel
  exact hall b.toFin

theorem and_asciiChar (b : UInt8) : b &&& asciiChar = b ↔ b < 0x80 := (masks b).1

theorem and_sequenceFirstMask (b : UInt8) :
    b &&& sequenceFirstMask = sequenceFirstMask ↔ 0xc0 ≤ b := (masks b).2.1

theorem continues_iff (b : UInt8) : continues b = true ↔ Cont b := (masks b).2.2

theorem seqLen_eq (b : UInt8) : seqLen b = if b &&& msbSet = 0 then 1
    else if b &&& sequenceLen3Byte = sequenceFirstMask then 2
    else if b &&& sequenceLen4Byte = sequenceLen3Byte then 3
    else if b &&& 0xf8 = sequenceLen4Byte then 4 else 0 := by
  have hall : ∀ n : Fin 256, seqLen (UInt8.ofFin n) = if UInt8.ofFin n &&& msbSet = 0 then 1
      else if UInt8.ofFin n &&& sequenceLen3Byte = sequenceFirstMask then 2
      else if UInt8.ofFin n &&& sequenceLen4Byte = sequenceLen3Byte then 3
      else if UInt8.ofFin n &&& 0xf8 = sequenceLen4Byte then 4
      else 0 := by
    decide +kernel
  exact hall b.toFin

theorem lastComplete_iff (ha : 2 ≤ seqLen a) (hk : k ≤ 4) :
    lastComplete a (UInt8.ofNat k) = true ↔ k = seqLen a := by
  have hall : ∀ (n : Fin 256) (k : Fin 5), 2 ≤ seqLen (UInt8.ofFin n) →
      (lastComplete (UInt8.ofFin n) (UInt8.ofNat k) = true ↔ k.val = seqLen (UInt8.ofFin n)) := by
    decide +kernel
  exact hall a.toFin ⟨k, by omega⟩ ha

theorem le_of_two_le_seqLen (ha : 2 ≤ seqLen a) : 0xc0 ≤ a := by
  have hall : ∀ n : Fin 256, 2 ≤ seqLen (UInt8.ofFin n) → 0xc0 ≤ UInt8.ofFin n := by
    decide +kernel
  exact hall a.toFin ha

theorem lt_of_seqLen_eq_one (ha : seqLen a = 1) : a < 0x80 := by
  have hall : ∀ n : Fin 256, seqLen (UInt8.ofFin n) = 1 → UInt8.ofFin n < 0x80 := by
    decide +kernel
  exact hall a.toFin ha

/-! ## Truncating -/

theorem strlen_append (h : 0 ∉ s) (mem : Bytes) : strlen (s ++ 0 :: mem) = some s.length := by
  rw [strlen, findIdx?_append]
  have hnone : s.findIdx? (· = 0) = none := by
    rw [findIdx?_eq_none_iff]
    intro b hb
    exact decide_eq_false fun h0 => h (h0 ▸ hb)
  rw [hnone, findIdx?_cons]
  simp

/-- **The search goes back to the starting byte.** -/
theorem findStart_eq (t mem : Bytes) (ha : 0xc0 ≤ a) (hconts : ∀ b ∈ conts, Cont b) {j : ℕ}
    (hj : j ≤ conts.length) (truncated : UInt8) :
    findStart (t ++ a :: (conts ++ mem)) (t.length + j) truncated =
      (t.length, truncated + UInt8.ofNat j) := by
  induction j generalizing truncated with
  | zero =>
    have hstop : (t ++ a :: (conts ++ mem)).getD t.length 0 &&& sequenceFirstMask =
        sequenceFirstMask := by
      rw [getD_append_right _ _ _ _ (Nat.le_refl _), Nat.sub_self]
      exact (and_sequenceFirstMask a).2 ha
    cases hlen : t.length with
    | zero => simp [findStart]
    | succ i =>
      rw [hlen] at hstop
      rw [Nat.add_zero, findStart, if_neg (not_not.2 hstop)]
      simp
  | succ j ih =>
    have hcont : Cont ((t ++ a :: (conts ++ mem)).getD (t.length + j + 1) 0) := by
      rw [getD_append_right _ _ _ _ (by omega)]
      have hidx : t.length + j + 1 - t.length = j + 1 := by omega
      rw [hidx, getD_cons_succ, getD_append _ _ _ _ (by omega), getD_eq_getElem _ _ (by omega)]
      exact hconts _ (getElem_mem _)
    have hgo : ¬ (t ++ a :: (conts ++ mem)).getD (t.length + j + 1) 0 &&& sequenceFirstMask =
        sequenceFirstMask := by
      rw [and_sequenceFirstMask]
      exact UInt8.not_le.2 hcont.2
    rw [← Nat.add_assoc, findStart, if_pos hgo, ih (by omega)]
    simp [UInt8.add_assoc, UInt8.add_comm]

theorem utf8Trunc_ascii (h : 0 ∉ t ++ [a]) (ha : a < 0x80) :
    utf8Trunc (t ++ a :: 0 :: mem) = some (t ++ a :: 0 :: mem) := by
  have hlen : strlen (t ++ a :: 0 :: mem) = some (t.length + 1) := by
    have hstr := strlen_append h mem
    rwa [append_assoc, length_append] at hstr
  simp [utf8Trunc, hlen, (and_asciiChar a).2 ha]

theorem utf8Trunc_seq (h : 0 ∉ t ++ a :: conts) (ha : 2 ≤ seqLen a)
    (hconts : ∀ b ∈ conts, Cont b) (hlt : conts.length ≤ 3) :
    utf8Trunc (t ++ a :: (conts ++ 0 :: mem)) =
      if conts.length + 1 = seqLen a then some (t ++ a :: (conts ++ 0 :: mem))
      else some (t ++ 0 :: (conts ++ 0 :: mem)) := by
  have hlead := le_of_two_le_seqLen ha
  have hlen : strlen (t ++ a :: (conts ++ 0 :: mem)) = some (t.length + conts.length + 1) := by
    have hstr := strlen_append h mem
    rwa [append_assoc, length_append, cons_append] at hstr
  have hlast : ¬ (t ++ a :: (conts ++ 0 :: mem)).getD (t.length + conts.length) 0 < 0x80 := by
    rw [getD_append_right _ _ _ _ (by omega), Nat.add_sub_cancel_left]
    rcases Nat.eq_zero_or_pos conts.length with hnil | hpos
    · rw [hnil, getD_cons_zero, UInt8.not_lt]
      exact UInt8.le_trans (by decide : (0x80 : UInt8) ≤ 0xc0) hlead
    · obtain ⟨j, hj⟩ := Nat.exists_eq_succ_of_ne_zero hpos.ne'
      rw [hj, getD_cons_succ, getD_append _ _ _ _ (by omega),
        getD_eq_getElem _ _ (by omega), UInt8.not_lt]
      exact (hconts _ (getElem_mem _)).1
  have hstart := findStart_eq t (0 :: mem) hlead hconts (Nat.le_refl _) 0
  have hbyte : (t ++ a :: (conts ++ 0 :: mem)).getD t.length 0 = a := by
    rw [getD_append_right _ _ _ _ (Nat.le_refl _), Nat.sub_self, getD_cons_zero]
  have hcomplete := lastComplete_iff ha (k := conts.length + 1) (by omega)
  have hcount : (0 : UInt8) + UInt8.ofNat conts.length + 1 = UInt8.ofNat (conts.length + 1) := by
    rw [UInt8.zero_add, UInt8.ofNat_add]
    rfl
  rw [utf8Trunc, hlen, bind_eq_bind, bind_some, if_neg (Nat.succ_ne_zero _),
    Nat.add_sub_cancel]
  dsimp only
  rw [if_neg (mt (and_asciiChar _).1 hlast), hstart]
  dsimp only
  rw [hbyte, hcount]
  by_cases heq : conts.length + 1 = seqLen a
  · rw [if_pos (hcomplete.2 heq), if_pos heq]
    rfl
  · rw [if_neg (mt hcomplete.1 heq), if_neg heq]
    simp

/-- **Where a text is cut, its sequences that are whole stay.** -/
theorem utf8Trunc_cut (hwords : ∀ c ∈ words, IsSeq c) (hcut : CutAt words p full left part)
    (mem : Bytes) : ∃ str, utf8Trunc (p ++ 0 :: mem) = some str ∧ full.flatten ++ [0] <+: str ∧
      str.length = (p ++ 0 :: mem).length ∧ str.drop (p.length + 1) = mem := by
  have hfull : ∀ c ∈ full, IsSeq c := fun c hc => hwords c (by
    rw [hcut.words]
    exact mem_append_left _ hc)
  have hbehind : ∀ t : Bytes, (t ++ 0 :: mem).drop (t.length + 1) = mem := by simp
  have hnone := zero_notMem_flatten hfull
  cases part with
  | nil =>
    obtain rfl : p = full.flatten := by rw [hcut.cut, append_nil]
    refine ⟨full.flatten ++ 0 :: mem, ?_, ⟨mem, ?_⟩, rfl, hbehind _⟩
    · rcases eq_nil_or_concat full with rfl | ⟨init, c, rfl⟩
      · rfl
      · obtain ⟨a, tail, rfl, -, hlen, htail⟩ := hfull c (by simp)
        rw [concat_eq_append, flatten_append, flatten_singleton] at hnone ⊢
        rw [append_assoc, cons_append]
        cases tail with
        | nil => exact utf8Trunc_ascii hnone (lt_of_seqLen_eq_one hlen)
        | cons b tail =>
          have hle := seqLen_le a
          rw [length_cons] at hlen
          rw [utf8Trunc_seq hnone (by omega) htail (by rw [length_cons]; omega),
            if_pos (by rw [length_cons]; omega)]
    · rw [append_assoc, singleton_append]
  | cons a conts =>
    obtain ⟨d, rest', hd, ⟨more, rfl⟩, hne⟩ := hcut.next.resolve_left (cons_ne_nil a conts)
    have hd := hwords _ (by
      rw [hcut.words, hd]
      exact mem_append_right _ mem_cons_self)
    have hzero : 0 ∉ full.flatten ++ a :: conts := by
      rw [mem_append, not_or]
      exact ⟨hnone, fun hmem => hd.zero_notMem (mem_append_left _ hmem)⟩
    obtain ⟨a', tail, hseq, -, hlen, htail⟩ := hd
    obtain ⟨rfl, rfl⟩ := List.cons.inj hseq
    have hmore : 0 < more.length := length_pos_iff.2 fun hnil => hne (by
      rw [hnil, append_nil])
    have hle := seqLen_le a
    have hsum : (conts.append more).length = conts.length + more.length := length_append
    have hstr : p ++ 0 :: mem = full.flatten ++ a :: (conts ++ 0 :: mem) := by
      rw [hcut.cut, append_assoc, cons_append]
    refine ⟨full.flatten ++ 0 :: (conts ++ 0 :: mem), ?_, ⟨conts ++ 0 :: mem, ?_⟩, ?_, ?_⟩
    · rw [hstr, utf8Trunc_seq hzero (by omega)
        (fun b hb => htail b (mem_append_left _ hb)) (by omega), if_neg (by omega)]
    · rw [append_assoc, singleton_append]
    · rw [hstr]
      simp
    · rw [hcut.cut, length_append, length_cons, Nat.add_assoc, ← drop_drop, drop_left]
      simp

/-! ## Copying -/

theorem strncpy_eq (h : 0 ∉ s) (hk : k ≤ dst.length) (mem : Bytes) : strncpy dst (s ++ 0 :: mem) k =
      some (s.take k ++ List.replicate (k - s.length) 0 ++ dst.drop k) := by
  induction k generalizing dst s mem with
  | zero => simp [strncpy]
  | succ k ih =>
    obtain ⟨d, dst, rfl⟩ := exists_cons_of_length_pos (Nat.lt_of_lt_of_le (Nat.succ_pos k) hk)
    have hle : k ≤ dst.length := Nat.le_of_succ_le_succ hk
    cases s with
    | nil =>
      have hrest := ih (s := []) not_mem_nil hle []
      rw [nil_append] at hrest
      rw [nil_append, strncpy, if_pos rfl, hrest]
      simp [replicate_succ]
    | cons b s =>
      rw [mem_cons, not_or] at h
      rw [cons_append, strncpy, if_neg (Ne.symm h.1), ih h.2 hle]
      simp

/-- **What is copied of a text is the longest text that fits.** -/
theorem utf8Lcpy_eq {C : Bytes → Prop} (hC : ∀ c, C c → IsSeq c) (hs : IsText C s) (hn : 1 ≤ n)
    (hdst : n ≤ dst.length) (mem : Bytes) :
    ∃ t str, LongestText C s n t ∧ utf8Lcpy dst (s ++ 0 :: mem) n = some str ∧
      t ++ [0] <+: str ∧ str.length = dst.length ∧ str.drop n = dst.drop n := by
  obtain ⟨words, hwords, rfl⟩ := hs
  have hseq : ∀ c ∈ words, IsSeq c := fun c hc => hC c (hwords c hc)
  obtain ⟨k, rfl⟩ := Nat.exists_eq_succ_of_ne_zero (Nat.one_le_iff_ne_zero.1 hn)
  obtain ⟨full, left, part, hcut⟩ := exists_cutAt ( take_prefix k words.flatten)
  have hlongest := (prefixFree_isSeq.mono hC).longest_of_cut hwords hcut
  have hfits : LongestText C words.flatten (k + 1) full.flatten := by
    rcases Nat.lt_or_ge k words.flatten.length with hlt | hge
    · rwa [length_take, Nat.min_eq_left hlt.le] at hlongest
    · rw [length_take, Nat.min_eq_right hge] at hlongest
      exact hlongest.of_length_lt (Nat.lt_succ_of_le hge)
  -- Behind what is copied there is a NUL byte, be it that of the string or the last one.
  have hx : (words.flatten.take k ++ List.replicate (k - words.flatten.length) 0).length = k := by
    rw [length_append, length_take, length_replicate]
    omega
  obtain ⟨mem', hmem⟩ : ∃ mem', words.flatten.take k ++
      List.replicate (k - words.flatten.length) 0 ++ 0 :: dst.drop (k + 1) =
        words.flatten.take k ++ 0 :: mem' := by
    rcases Nat.lt_or_ge words.flatten.length k with hlt | hge
    · obtain ⟨j, hj⟩ := Nat.exists_eq_add_of_lt hlt
      refine ⟨List.replicate j 0 ++ 0 :: dst.drop (k + 1), ?_⟩
      rw [hj, Nat.add_assoc, Nat.add_sub_cancel_left, replicate_succ, append_assoc, cons_append]
    · rw [Nat.sub_eq_zero_of_le hge, replicate_zero, append_nil]
      exact ⟨_, rfl⟩
  have hlen : (words.flatten.take k ++ 0 :: mem').length = dst.length := by
    rw [← hmem, length_append, hx, length_cons, length_drop]
    omega
  have hdrop : (words.flatten.take k ++ 0 :: mem').drop (k + 1) = dst.drop (k + 1) := by
    rw [← hmem, ← drop_drop, drop_left' hx]
    rfl
  have hcopy : utf8Lcpy dst (words.flatten ++ 0 :: mem) (k + 1) =
      if k + 1 ≠ 1 then utf8Trunc (words.flatten.take k ++ 0 :: mem')
      else some (words.flatten.take k ++ 0 :: mem') := by
    have hstore : store (words.flatten.take k ++
        List.replicate (k - words.flatten.length) 0 ++ dst.drop k) k 0 =
        some (words.flatten.take k ++ 0 :: mem') := by
      rw [store, if_pos (by rw [length_append, hx, length_drop]; omega), ← hmem,
        set_append_right _ _ hx.le, hx, Nat.sub_self, drop_eq_getElem_cons (by omega),
        set_cons_zero]
    rw [utf8Lcpy, if_pos (Nat.succ_pos k), Nat.add_sub_cancel,
      strncpy_eq (zero_notMem_flatten hseq) (by omega)]
    simp only [bind_eq_bind, bind_some, hstore]
    rfl
  cases k with
  | zero =>
    refine ⟨full.flatten, 0 :: mem', hfits, hcopy, ?_, hlen, hdrop⟩
    have hnil : full.flatten = [] := length_eq_zero_iff.1 (Nat.lt_one_iff.1 hfits.lt)
    rw [hnil]
    exact cons_prefix_cons.2 ⟨rfl, nil_prefix⟩
  | succ k =>
    obtain ⟨str, htrunc, hbegins, hstr, hmem'⟩ := utf8Trunc_cut hseq hcut mem'
    refine ⟨full.flatten, str, hfits, hcopy.trans htrunc, hbegins, hstr.trans hlen, ?_⟩
    have hle : (words.flatten.take (k + 1)).length ≤ k + 1 := length_take_le _ _
    have hsplit : k + 1 + 1 = (words.flatten.take (k + 1)).length + 1 +
        (k + 1 - (words.flatten.take (k + 1)).length) := by omega
    have hstr' : str.drop (k + 1 + 1) =
        mem'.drop (k + 1 - (words.flatten.take (k + 1)).length) := by
      conv_lhs => rw [hsplit, ← drop_drop, hmem']
    have hdst' : (words.flatten.take (k + 1) ++ 0 :: mem').drop (k + 1 + 1) =
        mem'.drop (k + 1 - (words.flatten.take (k + 1)).length) := by
      conv_lhs => rw [hsplit, Nat.add_assoc, ← drop_drop, drop_left, Nat.add_comm 1]
      rfl
    exact hstr'.trans (hdst'.symm.trans hdrop)

/-! ## Counting -/

/-- So many continuations are skipped; `some none` where there is another byte. -/
def skip : ℕ → Bytes → Option (Option Bytes)
  | 0, p => some (some p)
  | _ + 1, [] => none
  | k + 1, b :: p => if Cont b then skip k p else some none

/-- **The loop skips what the starting byte announces.** -/
theorem countLoop_cons (count : Int32) (b : UInt8) (p : Bytes) :
    countLoop count (b :: p) = if b = 0 then some count
      else if seqLen b = 0 then some einval
      else (skip (seqLen b - 1) p).bind fun rest =>
        match rest with
        | none => some einval
        | some rest => countLoop (count + 1) rest := by
  rw [countLoop.eq_def, seqLen_eq]
  dsimp only
  simp only [continues_iff]
  split
  · rfl
  split
  · rfl
  split
  · cases p with
    | nil => rfl
    | cons b₁ p => by_cases h₁ : Cont b₁ <;> simp [skip, h₁]
  split
  · cases p with
    | nil => rfl
    | cons b₁ p =>
      by_cases h₁ : Cont b₁
      · cases p with
        | nil => simp [skip, h₁]
        | cons b₂ p => by_cases h₂ : Cont b₂ <;> simp [skip, h₁, h₂]
      · simp [skip, h₁]
  split
  · cases p with
    | nil => rfl
    | cons b₁ p =>
      by_cases h₁ : Cont b₁
      · cases p with
        | nil => simp [skip, h₁]
        | cons b₂ p =>
          by_cases h₂ : Cont b₂
          · cases p with
            | nil => simp [skip, h₁, h₂]
            | cons b₃ p => by_cases h₃ : Cont b₃ <;> simp [skip, h₁, h₂, h₃]
          · simp [skip, h₁, h₂]
      · simp [skip, h₁]
  · rfl

theorem skip_append (k : ℕ) (hs : 0 ∉ s) :
    (∃ conts rest, s = conts ++ rest ∧ conts.length = k ∧ (∀ b ∈ conts, Cont b) ∧
        skip k (s ++ [0]) = some (some (rest ++ [0]))) ∨
      ((¬ ∃ conts rest, s = conts ++ rest ∧ conts.length = k ∧ ∀ b ∈ conts, Cont b) ∧
        skip k (s ++ [0]) = some none) := by
  induction k generalizing s with
  | zero => exact .inl ⟨[], s, rfl, rfl, fun b hb => absurd hb not_mem_nil, rfl⟩
  | succ k ih =>
    cases s with
    | nil =>
      refine .inr ⟨?_, rfl⟩
      rintro ⟨conts, rest, happ, hlen, -⟩
      rw [(append_eq_nil_iff.1 happ.symm).1] at hlen
      exact nomatch hlen
    | cons b s =>
      rw [mem_cons, not_or] at hs
      have hskip : skip (k + 1) (b :: s ++ [0]) = if Cont b then skip k (s ++ [0]) else some none :=
        rfl
      by_cases hb : Cont b
      · rw [hskip, if_pos hb]
        rcases ih hs.2 with ⟨conts, rest, rfl, hlen, hconts, hrest⟩ | ⟨hno, hrest⟩
        · refine .inl ⟨b :: conts, rest, rfl, by rw [length_cons, hlen], ?_, hrest⟩
          intro b' hb'
          rcases mem_cons.1 hb' with rfl | hb'
          · exact hb
          · exact hconts b' hb'
        · refine .inr ⟨?_, hrest⟩
          rintro ⟨conts, rest, happ, hlen, hconts⟩
          cases conts with
          | nil => exact nomatch hlen
          | cons b' conts =>
            obtain ⟨-, rfl⟩ := List.cons.inj happ
            exact hno ⟨conts, rest, rfl, Nat.succ.inj hlen, fun b'' hb'' =>
              hconts b'' (mem_cons_of_mem b' hb'')⟩
      · rw [hskip, if_neg hb]
        refine .inr ⟨?_, rfl⟩
        rintro ⟨conts, rest, happ, hlen, hconts⟩
        cases conts with
        | nil => exact nomatch hlen
        | cons b' conts =>
          obtain ⟨rfl, -⟩ := List.cons.inj happ
          exact hb (hconts b mem_cons_self)

theorem exists_tail (hwords : ∀ c ∈ words, IsSeq c) (h : words.flatten = b :: s) :
    ∃ (tail : Bytes) (rest : List Bytes), s = tail ++ rest.flatten ∧ seqLen b = tail.length + 1 ∧ (∀ b ∈ tail, Cont b) ∧
      ∀ c ∈ rest, IsSeq c := by
  cases words with
  | nil => exact nomatch h
  | cons c words =>
    obtain ⟨a, tail, rfl, -, hlen, htail⟩ := hwords c mem_cons_self
    rw [flatten_cons, cons_append] at h
    obtain ⟨rfl, rfl⟩ := List.cons.inj h
    exact ⟨tail, words, rfl, hlen, htail, fun c' hc' => hwords c' (mem_cons_of_mem _ hc')⟩

/-- **Sequences are counted, and anything else is refused**, without a look
behind the NUL byte. -/
theorem countLoop_append (hs : 0 ∉ s) (count : Int32) :
    (∃ words : List Bytes, (∀ c ∈ words, IsSeq c) ∧ words.flatten = s ∧
        countLoop count (s ++ [0]) = some (count + Int32.ofNat words.length)) ∨
      (¬ IsText IsSeq s ∧ countLoop count (s ++ [0]) = some einval) := by
  induction hn : s.length using Nat.strong_induction_on generalizing s count with
  | _ n ih =>
    cases s with
    | nil =>
      refine .inl ⟨[], fun c hc => absurd hc not_mem_nil, rfl, ?_⟩
      rw [nil_append, countLoop_cons, if_pos rfl]
      simp
    | cons b s =>
      rw [mem_cons, not_or] at hs
      rw [cons_append, countLoop_cons, if_neg (Ne.symm hs.1)]
      by_cases hlen : seqLen b = 0
      · rw [if_pos hlen]
        refine .inr ⟨?_, rfl⟩
        rintro ⟨words, hwords, hflat⟩
        obtain ⟨tail, rest, -, htail, -, -⟩ := exists_tail hwords hflat
        omega
      · rw [if_neg hlen]
        rcases skip_append (seqLen b - 1) hs.2 with
          ⟨conts, rest, rfl, hconts, hall, hskip⟩ | ⟨hno, hskip⟩
        · rw [hskip, bind_some]
          dsimp only
          have hrest : 0 ∉ rest := fun h => hs.2 (mem_append_right _ h)
          have hlt : rest.length < n := by
            rw [← hn, length_cons, length_append]
            omega
          have hseq : IsSeq (b :: conts) := ⟨b, conts, rfl, Ne.symm hs.1, by omega, hall⟩
          rcases ih rest.length hlt hrest (count + 1) rfl with
            ⟨words, hwords, hflat, hcount⟩ | ⟨hno, hcount⟩
          · refine .inl ⟨(b :: conts) :: words, ?_, ?_, ?_⟩
            · exact forall_mem_cons.2 ⟨hseq, hwords⟩
            · rw [flatten_cons, hflat, cons_append]
            · rw [hcount, length_cons, Nat.add_comm, Int32.ofNat_add, Int32.add_assoc]
              rfl
          · refine .inr ⟨?_, hcount⟩
            rintro ⟨words, hwords, hflat⟩
            obtain ⟨tail, rest', hs', htail, -, hrest'⟩ := exists_tail hwords hflat
            obtain ⟨-, rfl⟩ := append_inj hs' (by omega)
            exact hno ⟨rest', hrest', rfl⟩
        · rw [hskip, bind_some]
          refine .inr ⟨?_, rfl⟩
          rintro ⟨words, hwords, hflat⟩
          obtain ⟨tail, rest, hs', htail, hall, -⟩ := exists_tail hwords hflat
          exact hno ⟨tail, rest.flatten, hs', by omega, hall⟩

/-! ## Characters -/

/-- **The encoding of a character is a sequence.** -/
theorem IsChar.isSeq (h : IsChar c) : IsSeq c := by
  obtain ⟨ch, hne, rfl⟩ := h
  have hcont : ∀ v, Cont (UInt8.ofNat (v % 64 + 0x80)) := by
    intro v
    have hall : ∀ n : Fin 64, Cont (UInt8.ofNat (n.val + 0x80)) := by decide
    exact hall ⟨v % 64, Nat.mod_lt _ (by decide)⟩
  have hlead₂ : ∀ v, UInt8.ofNat (v % 32 + 0xc0) ≠ 0 ∧ seqLen (UInt8.ofNat (v % 32 + 0xc0)) = 2 := by
    intro v
    have hall : ∀ n : Fin 32, UInt8.ofNat (n.val + 0xc0) ≠ 0 ∧
        seqLen (UInt8.ofNat (n.val + 0xc0)) = 2 := by decide
    exact hall ⟨v % 32, Nat.mod_lt _ (by decide)⟩
  have hlead₃ : ∀ v, UInt8.ofNat (v % 16 + 0xe0) ≠ 0 ∧ seqLen (UInt8.ofNat (v % 16 + 0xe0)) = 3 := by
    intro v
    have hall : ∀ n : Fin 16, UInt8.ofNat (n.val + 0xe0) ≠ 0 ∧
        seqLen (UInt8.ofNat (n.val + 0xe0)) = 3 := by decide
    exact hall ⟨v % 16, Nat.mod_lt _ (by decide)⟩
  have hlead₄ : ∀ v, UInt8.ofNat (v % 8 + 0xf0) ≠ 0 ∧ seqLen (UInt8.ofNat (v % 8 + 0xf0)) = 4 := by
    intro v
    have hall : ∀ n : Fin 8, UInt8.ofNat (n.val + 0xf0) ≠ 0 ∧
        seqLen (UInt8.ofNat (n.val + 0xf0)) = 4 := by decide
    exact hall ⟨v % 8, Nat.mod_lt _ (by decide)⟩
  unfold String.utf8EncodeChar
  dsimp only
  split
  next hle =>
    have hone : ∀ n : Fin 128, n.val ≠ 0 → UInt8.ofNat n.val ≠ 0 ∧ seqLen (UInt8.ofNat n.val) = 1 := by
      decide
    obtain ⟨hnz, hlen⟩ := hone ⟨ch.val.toNat, Nat.lt_succ_of_le hle⟩ fun h0 =>
      hne (UInt32.toNat_inj.1 h0)
    exact ⟨_, [], rfl, hnz, hlen, fun b hb => absurd hb not_mem_nil⟩
  split
  · refine ⟨_, _, rfl, (hlead₂ _).1, (hlead₂ _).2, ?_⟩
    exact forall_mem_singleton.2 (hcont _)
  split
  · refine ⟨_, _, rfl, (hlead₃ _).1, (hlead₃ _).2, ?_⟩
    exact forall_mem_cons.2 ⟨hcont _, forall_mem_singleton.2 (hcont _)⟩
  · refine ⟨_, _, rfl, (hlead₄ _).1, (hlead₄ _).2, ?_⟩
    exact forall_mem_cons.2 ⟨hcont _, forall_mem_cons.2 ⟨hcont _, forall_mem_singleton.2 (hcont _)⟩⟩

/-- **The helpers keep text, and count it.** Of a string of UTF-8 characters,
`utf8_lcpy` leaves the longest one of these that has room, with a NUL byte
behind it and nothing written behind the buffer it was given; `utf8_trunc` does
the same to any string that a valid one begins with. `utf8_count_chars` counts the
sequences of a string that is made of them and answers `-EINVAL` to any other
one, and reads nothing behind the NUL byte. -/
theorem utf8_kept :
    (∀ s dst mem n, IsText IsChar s → 1 ≤ n → n ≤ dst.length →
      ∃ t str, LongestText IsChar s n t ∧ utf8Lcpy dst (s ++ 0 :: mem) n = some str ∧
        t ++ [0] <+: str ∧ str.length = dst.length ∧ str.drop n = dst.drop n) ∧
    (∀ s p mem, IsText IsChar s → p <+: s →
      ∃ t str, LongestText IsChar s (p.length + 1) t ∧ utf8Trunc (p ++ 0 :: mem) = some str ∧
        t ++ [0] <+: str ∧ str.length = (p ++ 0 :: mem).length ∧
        str.drop (p.length + 1) = mem) ∧
    (∀ words : List Bytes, (∀ c ∈ words, IsSeq c) →
      utf8CountChars (words.flatten ++ [0]) = some (Int32.ofNat words.length)) ∧
    ∀ s, 0 ∉ s → ¬ IsText IsSeq s → utf8CountChars (s ++ [0]) = some einval := by
  refine ⟨fun s dst mem n hs hn hdst => utf8Lcpy_eq (fun c hc => hc.isSeq) hs hn hdst mem, ?_, ?_, ?_⟩
  · rintro s p mem ⟨words, hwords, rfl⟩ hp
    obtain ⟨full, left, part, hcut⟩ := exists_cutAt hp
    obtain ⟨str, htrunc, hbegins, hlen, hdrop⟩ :=
      utf8Trunc_cut (fun c hc => (hwords c hc).isSeq) hcut mem
    exact ⟨full.flatten, str, (prefixFree_isSeq.mono fun c hc => hc.isSeq).longest_of_cut hwords
      hcut, htrunc, hbegins, hlen, hdrop⟩
  · intro words hwords
    rcases countLoop_append (zero_notMem_flatten hwords) 0 with
      ⟨words', hwords', hflat, hcount⟩ | ⟨hno, -⟩
    · -- A text is made of its sequences in one way.
      have hle := prefixFree_isSeq.words_prefix hwords' hwords (hflat ▸ List.prefix_refl _)
      have hge := prefixFree_isSeq.words_prefix hwords hwords' (hflat ▸ List.prefix_refl _)
      have hlen : words'.length = words.length := Nat.le_antisymm hle.length_le hge.length_le
      rw [utf8CountChars, hcount, hlen, Int32.zero_add]
    · exact absurd ⟨words, hwords, rfl⟩ hno
  · intro s hs hno
    rcases countLoop_append hs 0 with ⟨words, hwords, hflat, -⟩ | ⟨-, hcount⟩
    · exact absurd ⟨words, hwords, hflat⟩ hno
    · exact hcount

/-- Three characters, of which two have room. -/
theorem utf8_kept_sample :
    ∃ t str, LongestText IsChar [0x41, 0xc2, 0xa9, 0xe2, 0x82, 0xac] 6 t ∧
      utf8Lcpy [1, 1, 1, 1, 1, 1, 1] ([0x41, 0xc2, 0xa9, 0xe2, 0x82, 0xac] ++ 0 :: []) 6 =
        some str ∧ t ++ [0] <+: str ∧ str.length = 7 ∧
      str.drop 6 = [1] := by
  refine utf8_kept.1 _ [1, 1, 1, 1, 1, 1, 1] [] 6
    ⟨[[0x41], [0xc2, 0xa9], [0xe2, 0x82, 0xac]], ?_, rfl⟩ (by decide) (by decide)
  intro c hc
  simp only [List.mem_cons, List.not_mem_nil, or_false] at hc
  rcases hc with rfl | rfl | rfl
  · exact ⟨'A', by decide, by decide⟩
  · exact ⟨'©', by decide, by decide⟩
  · exact ⟨'€', by decide, by decide⟩

end Utf8

end OpenBlue

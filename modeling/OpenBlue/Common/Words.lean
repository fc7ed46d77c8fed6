import Mathlib.Algebra.Order.Ring.Int
import Mathlib.Data.List.Basic
import Mathlib.Data.List.Infix
/-!
# Words of a prefix-free code

A text is words of a code, one after the other. Where no word begins another
one, a text that begins another text begins it word by word
(`PrefixFree.words_prefix`), so where any beginning of a text is cut, the
longest text in it is the words that are whole (`PrefixFree.longest_of_cut`).
-/

namespace OpenBlue

open List

variable {α : Type*} {C : List α → Prop} {s p part : List α} {words words' full rest : List (List α)}

/-- Words of a code, one after the other. -/
def IsText (C : List α → Prop) (s : List α) : Prop :=
  ∃ words : List (List α), (∀ c ∈ words, C c) ∧ words.flatten = s

/-- A word has letters, and begins no other word. -/
structure PrefixFree (C : List α → Prop) : Prop where
  ne_nil : ∀ c, C c → c ≠ []
  eq_of_prefix : ∀ c d, C c → C d → c <+: d → c = d

/-- The longest text among the beginnings of `s` that are shorter than `n`. -/
structure LongestText (C : List α → Prop) (s : List α) (n : ℕ) (t : List α) : Prop where
  text : IsText C t
  isPrefix : t <+: s
  lt : t.length < n
  longest : ∀ p, p <+: s → IsText C p → p.length < n → p <+: t

theorem LongestText.of_length_lt {n : ℕ} {t : List α} (h : LongestText C s (s.length + 1) t)
    (hn : s.length < n) : LongestText C s n t :=
  ⟨h.text, h.isPrefix, Nat.lt_of_le_of_lt h.isPrefix.length_le hn, fun p hp htext _ =>
    h.longest p hp htext (Nat.lt_succ_of_le hp.length_le)⟩

theorem PrefixFree.mono {C' : List α → Prop} (h : PrefixFree C') (hC : ∀ c, C c → C' c) :
    PrefixFree C :=
  ⟨fun c hc => h.ne_nil c (hC c hc), fun c d hc hd => h.eq_of_prefix c d (hC c hc) (hC d hd)⟩

/-- **A text that begins another begins it word by word.** -/
theorem PrefixFree.words_prefix (h : PrefixFree C) (hwords' : ∀ c ∈ words', C c)
    (hwords : ∀ c ∈ words, C c) (hstart : words'.flatten <+: words.flatten) : words' <+: words := by
  induction words' generalizing words with
  | nil => exact nil_prefix
  | cons c words' ih =>
    have hc := hwords' c mem_cons_self
    rw [flatten_cons] at hstart
    have hbegins : c <+: words.flatten := (prefix_append c _).trans hstart
    cases words with
    | nil =>
      rw [flatten_nil, prefix_nil] at hbegins
      exact absurd hbegins (h.ne_nil c hc)
    | cons d words =>
      have hd := hwords d mem_cons_self
      rw [flatten_cons] at hstart hbegins
      obtain rfl : c = d := by
        rcases prefix_or_prefix_of_prefix hbegins (prefix_append d _) with hcd | hdc
        · exact h.eq_of_prefix c d hc hd hcd
        · exact (h.eq_of_prefix d c hd hc hdc).symm
      refine cons_prefix_cons.2 ⟨rfl, ih (fun c' hc' => hwords' c' (mem_cons_of_mem c hc'))
        (fun c' hc' => hwords c' (mem_cons_of_mem c hc')) ?_⟩
      exact (prefix_append_right_inj c).1 hstart

/-- A beginning of a text: words that are whole, and what it holds of the next
one. -/
structure CutAt (words : List (List α)) (p : List α) (full rest : List (List α))
    (part : List α) : Prop where
  words : words = full ++ rest
  cut : p = full.flatten ++ part
  next : part = [] ∨ ∃ d rest', rest = d :: rest' ∧ part <+: d ∧ part ≠ d

theorem exists_cutAt (hp : p <+: words.flatten) : ∃ full rest part, CutAt words p full rest part := by
  induction words generalizing p with
  | nil => exact ⟨[], [], [], rfl, prefix_nil.1 hp, .inl rfl⟩
  | cons d words ih =>
    rw [flatten_cons] at hp
    rcases Nat.lt_or_ge p.length d.length with hlt | hge
    · refine ⟨[], d :: words, p, rfl, rfl, .inr ⟨d, words, rfl, ?_, ?_⟩⟩
      · exact prefix_of_prefix_length_le hp (prefix_append d _) hlt.le
      · rintro rfl
        exact absurd hlt (Nat.lt_irrefl _)
    · obtain ⟨q, rfl⟩ := prefix_of_prefix_length_le (prefix_append d _) hp hge
      obtain ⟨full, rest, part, hcut⟩ := ih ((prefix_append_right_inj d).1 hp)
      refine ⟨d :: full, rest, part, by rw [hcut.words, cons_append], ?_, hcut.next⟩
      rw [flatten_cons, append_assoc, ← hcut.cut]

/-- **Where a text is cut, the words that are whole are the longest text.** -/
theorem PrefixFree.longest_of_cut (h : PrefixFree C) (hwords : ∀ c ∈ words, C c)
    (hcut : CutAt words p full rest part) :
    LongestText C words.flatten (p.length + 1) full.flatten := by
  have hfull : ∀ c ∈ full, C c := fun c hc => hwords c (by
    rw [hcut.words]
    exact mem_append_left _ hc)
  have hlen : p.length = full.flatten.length + part.length := by rw [hcut.cut, length_append]
  refine ⟨⟨full, hfull, rfl⟩, ?_, by omega, ?_⟩
  · rw [hcut.words, flatten_append]
    exact prefix_append _ _
  · rintro q hq ⟨words', hwords', rfl⟩ hlt
    have hbegins := h.words_prefix hwords' hwords hq
    rw [hcut.words] at hbegins
    rcases Nat.lt_or_ge full.length words'.length with hmore | hless
    · -- A word more than the whole ones would end behind the cut.
      obtain ⟨more, rfl⟩ := prefix_of_prefix_length_le (prefix_append full rest) hbegins
        hmore.le
      have hrest := (prefix_append_right_inj full).1 hbegins
      rw [flatten_append, length_append] at hlt
      rw [length_append] at hmore
      cases more with
      | nil =>
        rw [length_nil] at hmore
        omega
      | cons d' more =>
        rcases hcut.next with hnil | ⟨d, rest', hd, hpart, hne⟩
        · have hpos := length_pos_of_ne_nil
            (h.ne_nil d' (hwords' d' (mem_append_right _ mem_cons_self)))
          rw [hnil, length_nil] at hlen
          rw [flatten_cons, length_append] at hlt
          omega
        · rw [hd] at hrest
          obtain ⟨rfl, -⟩ := cons_prefix_cons.1 hrest
          have hshort : part.length < d'.length :=
            lt_of_le_of_ne hpart.length_le fun heq => hne (hpart.eq_of_length heq)
          rw [flatten_cons, length_append] at hlt
          omega
    · obtain ⟨more, rfl⟩ := prefix_of_prefix_length_le hbegins (prefix_append full rest)
        hless
      rw [flatten_append]
      exact prefix_append _ _

end OpenBlue

import Mathlib.Data.List.Nodup
import Mathlib.Data.Prod.Lex
import OpenBlue.Mesh.Model.Rpl
/-!
# Mesh — the replay list as a map

Between operations the array is a list of entries for different sources,
`occ`, with empty slots behind it (`Occupied`). In that shape the scan of
`bt_mesh_rpl_check` is a lookup, `bt_mesh_rpl_update` an insertion at the
slot the scan found, and the in-place compaction of `bt_mesh_rpl_reset`
ages the entries: those already old go, the others turn old.
-/

namespace OpenBlue

namespace Mesh

open Function List

variable {slots occ : List RplEntry} {rx : NetRx} {a b i : ℕ}

/-- The array holds the entries `occ` from its first slot on, one per
source, and nothing behind them. -/
structure Occupied (slots occ : List RplEntry) : Prop where
  eq_append : slots = occ ++ List.replicate (slots.length - occ.length) ({} : RplEntry)
  src_ne : ∀ e ∈ occ, e.src ≠ 0
  nodup : (occ.map (·.src)).Nodup

/-- The entry of a source. -/
def entryOf (occ : List RplEntry) (a : ℕ) : Option RplEntry := occ.find? (·.src == a)

/-! ## Compaction -/

/-- The entries an IV update leaves. -/
def aged (occ : List RplEntry) : List RplEntry :=
  (occ.filter (!·.oldIv)).map ({ · with oldIv := true })

theorem zeroSlots_append (A G Z : List RplEntry) :
    zeroSlots (A ++ G ++ Z) A.length G.length = A ++ List.replicate G.length ({} : RplEntry) ++ Z := by
  apply ext_getElem
  · simp [zeroSlots]
  · intro n h₁ h₂
    simp only [zeroSlots, getElem_mapIdx, getElem_append, length_append,
      length_replicate, getElem_replicate]
    split_ifs <;> first | rfl | omega

@[simp] theorem zeroSlots_zero (start : ℕ) : zeroSlots slots start 0 = slots := by
  apply ext_getElem
  · simp [zeroSlots]
  · intro n h₁ h₂
    simp only [zeroSlots, getElem_mapIdx]
    rw [if_neg (by omega)]

theorem rplResetTurn_old {P G T : List RplEntry} {e : RplEntry} {last : ℕ}
    (hsrc : e.src ≠ 0) (hold : e.oldIv = true) :
    rplResetTurn { slots := P ++ G ++ e :: T, shift := G.length, last := last }
        (P.length + G.length) =
      { slots := P ++ (G ++ [{}]) ++ T
        shift := (G ++ [({} : RplEntry)]).length
        last := P.length + G.length } := by
  have hget : (P ++ G ++ e :: T).getD (P.length + G.length) {} = e := by
    simp [List.getD]
  simp only [rplResetTurn, hget]
  rw [if_pos hsrc, if_pos hold]
  simp

theorem rplResetTurn_kept (P G T : List RplEntry) (last : ℕ) {e : RplEntry}
    (hsrc : e.src ≠ 0) (hold : e.oldIv = false) : ∃ G' : List RplEntry, G'.length = G.length ∧
      rplResetTurn { slots := P ++ G ++ e :: T, shift := G.length, last := last }
          (P.length + G.length) =
        { slots := P ++ [{ e with oldIv := true }] ++ G' ++ T
          shift := G'.length
          last := P.length + G.length } := by
  have hget : (P ++ G ++ e :: T).getD (P.length + G.length) {} = e := by
    simp [List.getD]
  cases G with
  | nil =>
    refine ⟨[], rfl, ?_⟩
    simp only [length_nil, Nat.add_zero, append_nil] at hget ⊢
    simp only [rplResetTurn, hget]
    rw [if_pos hsrc, if_neg (by simp [hold])]
    simp
  | cons g G =>
    refine ⟨G ++ [{ e with oldIv := true }], by simp, ?_⟩
    simp only [rplResetTurn, hget]
    rw [if_pos hsrc, if_neg (by simp [hold])]
    simp

/-- The loop over the occupied slots `R`, the slots before them being
already `P` kept ones and the gap `G`. -/
theorem foldl_rplResetTurn {R Z : List RplEntry} (hR : ∀ e ∈ R, e.src ≠ 0) :
    ∀ (P G : List RplEntry) (last : ℕ), ∃ G' : List RplEntry,
      (aged R).length + G'.length = G.length + R.length ∧
      (range' (P.length + G.length) R.length).foldl rplResetTurn
          { slots := P ++ G ++ (R ++ Z), shift := G.length, last := last } =
        { slots := P ++ aged R ++ G' ++ Z
          shift := G'.length
          last := if R = [] then last else P.length + G.length + R.length - 1 } := by
  induction R with
  | nil => intro P G last; exact ⟨G, by simp [aged], by simp [aged]⟩
  | cons e R ih =>
    intro P G last
    have hsrc := hR e (by simp)
    have ih := ih fun e' he' => hR e' (by simp [he'])
    rw [length_cons, range'_succ, foldl_cons, cons_append]
    cases hold : e.oldIv with
    | true =>
      obtain ⟨G', hlen, hfold⟩ := ih P (G ++ [({} : RplEntry)]) (P.length + G.length)
      refine ⟨G', by simp [aged, hold] at hlen ⊢; omega, ?_⟩
      rw [rplResetTurn_old hsrc hold]
      simp only [length_append, length_singleton, ← Nat.add_assoc] at hfold ⊢
      rw [hfold]
      simp only [aged, filter_cons, hold, Compaction.mk.injEq, true_and, reduceCtorEq, if_false]
      exact ⟨by simp, by split <;> simp_all⟩
    | false =>
      obtain ⟨G₁, hG₁, hturn⟩ := rplResetTurn_kept P G (R ++ Z) last hsrc hold
      obtain ⟨G', hlen, hfold⟩ := ih (P ++ [{ e with oldIv := true }]) G₁ (P.length + G.length)
      refine ⟨G', by simp [aged, hold] at hlen ⊢; omega, ?_⟩
      rw [hturn]
      have hidx : P.length + G.length + 1 =
          (P ++ [{ e with oldIv := true }]).length + G₁.length := by
        simp [hG₁]; omega
      rw [hidx, hfold]
      simp only [aged, filter_cons, hold, Compaction.mk.injEq, true_and, reduceCtorEq, if_false]
      refine ⟨by simp, ?_⟩
      split
      · simp_all
      · simp only [length_append, length_singleton, hG₁]
        omega

theorem foldl_rplResetTurn_empty (A : List RplEntry) (k shift last : ℕ) : ∀ n m, m + n ≤ k →
      (range' (A.length + m) n).foldl rplResetTurn
        { slots := A ++ List.replicate k ({} : RplEntry), shift := shift, last := last } =
      { slots := A ++ List.replicate k ({} : RplEntry), shift := shift, last := last } := by
  intro n
  induction n with
  | zero => intros; rfl
  | succ n ih =>
    intro m hm
    rw [range'_succ, foldl_cons]
    have hget : (A ++ List.replicate k ({} : RplEntry)).getD (A.length + m) {} = {} := by
      have hm' : m < k := by omega
      simp [List.getD, hm']
    have hturn : rplResetTurn
        { slots := A ++ List.replicate k ({} : RplEntry), shift := shift, last := last }
          (A.length + m) =
        { slots := A ++ List.replicate k ({} : RplEntry), shift := shift, last := last } := by
      simp only [rplResetTurn, hget]
      rfl
    rw [hturn, Nat.add_assoc]
    exact ih (m + 1) (by omega)

/-- **Compaction ages the list.** In place, with one pass and a trailing
`memset`, it leaves the entries that stay, in order, and zeroes the rest. -/
theorem rplCompact_append (hsrc : ∀ e ∈ occ, e.src ≠ 0) (k : ℕ) :
    rplCompact (occ ++ List.replicate k ({} : RplEntry)) =
      aged occ ++ List.replicate (occ.length - (aged occ).length + k) ({} : RplEntry) := by
  obtain ⟨G, hlen, hfold⟩ :=
    foldl_rplResetTurn (Z := List.replicate k ({} : RplEntry)) hsrc [] [] 0
  simp only [length_nil, Nat.zero_add, nil_append] at hlen hfold
  have htail := foldl_rplResetTurn_empty (aged occ ++ G) k G.length
    (if occ = [] then 0 else occ.length - 1) k 0 (by omega)
  rw [length_append, Nat.add_zero, hlen] at htail
  have hrange : List.range (occ ++ List.replicate k ({} : RplEntry)).length =
      range' 0 occ.length ++ range' occ.length k := by
    rw [range_eq_range', length_append, length_replicate, ← range'_append_1, Nat.zero_add]
  have hstart : (if occ = [] then 0 else occ.length - 1) + 1 - G.length = (aged occ).length ∨
      G = [] := by
    rcases G with - | ⟨g, G⟩
    · exact .inr rfl
    · refine .inl ?_
      split
      · simp_all
      · have : 0 < occ.length := length_pos_iff.2 ‹_›
        omega
  unfold rplCompact
  rw [hrange, foldl_append, hfold]
  simp only [htail]
  rcases hstart with hstart | rfl
  · rw [hstart, zeroSlots_append]
    simp only [append_assoc, append_cancel_left_eq, replicate_append_replicate]
    congr 1
    omega
  · have h0 : occ.length - (aged occ).length = 0 := by simp at hlen; omega
    simp [h0]

theorem length_aged_le (occ : List RplEntry) : (aged occ).length ≤ occ.length := by
  simp only [aged, length_map]
  exact length_filter_le _ _

theorem map_src_aged (occ : List RplEntry) :
    (aged occ).map (·.src) = (occ.filter (!·.oldIv)).map (·.src) := by
  simp [aged, comp_def]

/-- **A reset keeps the shape**, over the aged entries. -/
theorem Occupied.compact (h : Occupied slots occ) : Occupied (rplCompact slots) (aged occ) := by
  have hle := length_aged_le occ
  have hcompact := rplCompact_append h.src_ne (slots.length - occ.length)
  rw [← h.eq_append] at hcompact
  refine ⟨?_, ?_, ?_⟩
  · rw [hcompact]
    simp
  · intro e he
    simp only [aged, mem_map, mem_filter] at he
    obtain ⟨e', ⟨he', -⟩, rfl⟩ := he
    exact h.src_ne e' he'
  · rw [map_src_aged]
    exact h.nodup.sublist (filter_sublist.map _)

theorem Occupied.length_rplCompact (h : Occupied slots occ) :
    (rplCompact slots).length = slots.length := by
  have hle := length_aged_le occ
  have hlen := congrArg List.length h.eq_append
  rw [h.eq_append, rplCompact_append h.src_ne]
  simp only [length_append, length_replicate] at hlen ⊢
  omega

theorem Occupied.length_le (h : Occupied slots occ) : occ.length ≤ slots.length := by
  have := congrArg List.length h.eq_append
  simp only [length_append, length_replicate] at this
  omega

@[simp] theorem entryOf_cons (e : RplEntry) :
    entryOf (e :: occ) a = if e.src = a then some e else entryOf occ a := by
  simp only [entryOf, find?_cons]
  split <;> simp_all

theorem entryOf_eq_none : entryOf occ a = none ↔ a ∉ occ.map (·.src) := by
  simp [entryOf, find?_eq_none]

theorem entryOf_aged (h : (occ.map (·.src)).Nodup) :
    entryOf (aged occ) a =
      (entryOf occ a).bind fun e => if e.oldIv then none else some { e with oldIv := true } := by
  induction occ with
  | nil => rfl
  | cons e occ ih =>
    rw [map_cons, nodup_cons] at h
    have ih := ih h.2
    cases hold : e.oldIv with
    | true =>
      have haged : aged (e :: occ) = aged occ := by simp [aged, hold]
      rw [haged, ih, entryOf_cons]
      split
      · rename_i hsrc
        rw [entryOf_eq_none.2 (hsrc ▸ h.1)]
        simp [hold]
      · rfl
    | false =>
      have haged : aged (e :: occ) = { e with oldIv := true } :: aged occ := by
        simp [aged, hold]
      rw [haged, entryOf_cons, entryOf_cons, ih]
      split <;> simp [hold]

/-! ## The scan and the update -/

/-- Slot `i` is where a message from `a` belongs: the source's own slot,
or the first empty one. -/
def SlotFor (slots occ : List RplEntry) (i a : ℕ) : Prop :=
  (∃ e, occ[i]? = some e ∧ e.src = a) ∨ (i = occ.length ∧ i < slots.length ∧ a ∉ occ.map (·.src))

/-- A message from `rx.addr` is not behind its entry. -/
def Newer (occ : List RplEntry) (rx : NetRx) : Prop :=
  ∀ e, entryOf occ rx.addr = some e →
    (rx.oldIv = true → e.oldIv = true) ∧ (e.oldIv = rx.oldIv → e.seq < rx.seq)

/-- The loop from slot `j` on, over the entries `occ` and empty slots. -/
theorem rplFind_append {rpl : Rpl} (hpend : rpl.pendingReset = false)
    (hsrc : ∀ e ∈ occ, e.src ≠ 0) (k j : ℕ) :
    rplFind rpl rx j (occ ++ List.replicate k ({} : RplEntry)) = .slot i → Newer occ rx ∧ j ≤ i ∧
        ((∃ e, occ[i - j]? = some e ∧ e.src = rx.addr) ∨
          (i = j + occ.length ∧ 0 < k ∧ rx.addr ∉ occ.map (·.src))) := by
  induction occ generalizing j with
  | nil =>
    cases k with
    | zero => simp [rplFind]
    | succ k =>
      simp only [nil_append, replicate_succ, rplFind, if_true, RplCheck.slot.injEq]
      rintro rfl
      exact ⟨by simp [Newer, entryOf], le_rfl, .inr ⟨rfl, by omega, by simp⟩⟩
  | cons e occ ih =>
    have hne := hsrc e (by simp)
    intro hfind
    simp only [cons_append, rplFind, hne, if_false] at hfind
    by_cases haddr : e.src = rx.addr
    · simp only [haddr, if_true, hpend, Bool.and_false, Bool.false_and, Bool.false_eq_true,
        if_false] at hfind
      split_ifs at hfind with h1 h2
      obtain rfl : j = i := by simpa using hfind
      refine ⟨?_, le_rfl, .inl ⟨e, by simp, haddr⟩⟩
      intro e' he'
      rw [entryOf_cons, if_pos haddr, Option.some.injEq] at he'
      subst he'
      cases hr : rx.oldIv <;> cases ho : e.oldIv <;> simp_all
    · rw [if_neg haddr] at hfind
      obtain ⟨hnew, hle, hslot⟩ := ih (fun e' he' => hsrc e' (by simp [he'])) (j + 1) hfind
      have hidx : i - j = (i - (j + 1)) + 1 := by omega
      refine ⟨?_, by omega, ?_⟩
      · intro e' he'
        rw [entryOf_cons, if_neg haddr] at he'
        exact hnew e' he'
      · rw [hidx, getElem?_cons_succ]
        rcases hslot with hslot | ⟨rfl, hk, hnot⟩
        · exact .inl hslot
        · refine .inr ⟨by simp; omega, hk, ?_⟩
          simp only [map_cons, mem_cons, not_or]
          exact ⟨fun h => haddr h.symm, hnot⟩

/-- **The scan is a lookup.** A slot is answered only for a message that
is not behind its source's entry, and it is the slot for that source. -/
theorem Occupied.of_rplCheck {rpl : Rpl} {bridge : Bool} (h : Occupied rpl.slots occ)
    (hpend : rpl.pendingReset = false) (hcheck : rplCheck rpl rx bridge = .slot i) :
    Newer occ rx ∧ SlotFor rpl.slots occ i rx.addr := by
  unfold rplCheck at hcheck
  split_ifs at hcheck
  have hfind := hcheck
  rw [h.eq_append] at hfind
  obtain ⟨hnew, -, hslot⟩ := rplFind_append hpend h.src_ne _ _ hfind
  refine ⟨hnew, ?_⟩
  rcases hslot with ⟨e, he, hsrc⟩ | ⟨hi, hk, hnot⟩
  · exact .inl ⟨e, by simpa using he, hsrc⟩
  · exact .inr ⟨by omega, by omega, hnot⟩

@[simp] theorem RplEntry.update_src (e : RplEntry) : (e.update rx).src = rx.addr :=
  Nat.mod_eq_of_lt rx.addr_lt

@[simp] theorem RplEntry.update_seq (e : RplEntry) : (e.update rx).seq = rx.seq :=
  Nat.mod_eq_of_lt rx.seq_lt

@[simp] theorem RplEntry.update_oldIv (e : RplEntry) : (e.update rx).oldIv = rx.oldIv := rfl

theorem modify_length_append {α : Type*} (f : α → α) (P : List α) (x : α) (T : List α) :
    (P ++ x :: T).modify P.length f = P ++ f x :: T := by
  induction P with
  | nil => rfl
  | cons p P ih => simpa using ih

theorem exists_split_of_getElem? {α : Type*} {l : List α} {x : α} {i : ℕ}
    (h : l[i]? = some x) : ∃ P Q, l = P ++ x :: Q ∧ P.length = i := by
  obtain ⟨hi, rfl⟩ := List.getElem?_eq_some_iff.1 h
  exact ⟨l.take i, l.drop (i + 1), by simp, by simp; omega⟩

theorem entryOf_append (P Q : List RplEntry) :
    entryOf (P ++ Q) a = (entryOf P a).or (entryOf Q a) := find?_append

/-- **An update is an insertion.** Entered in its slot, a message becomes
its source's entry and no other source's entry changes. -/
theorem Occupied.update (h : Occupied slots occ) (hslot : SlotFor slots occ i rx.addr) :
    ∃ occ', Occupied (slots.modify i (·.update rx)) occ' ∧
      (∃ e, entryOf occ' rx.addr = some e ∧ e.seq = rx.seq ∧ e.oldIv = rx.oldIv) ∧
      ∀ b, b ≠ rx.addr → entryOf occ' b = entryOf occ b := by
  have haddr : rx.addr ≠ 0 := rx.addr_pos.ne'
  have hslots := h.eq_append
  rcases hslot with ⟨e, he, hsrc⟩ | ⟨hi, hlt, hnot⟩
  · -- The source's own slot: `occ` is split around it.
    obtain ⟨P, Q, rfl, rfl⟩ := exists_split_of_getElem? he
    have hnodup := h.nodup
    simp only [map_append, map_cons, nodup_middle, nodup_cons] at hnodup
    refine ⟨P ++ e.update rx :: Q, ⟨?_, ?_, ?_⟩, ⟨e.update rx, ?_, by simp, by simp⟩, ?_⟩
    · rw [append_assoc, cons_append] at hslots
      rw [hslots, modify_length_append]
      simp
      omega
    · intro e' he'
      simp only [mem_append, mem_cons] at he'
      rcases he' with he' | rfl | he'
      · exact h.src_ne e' (by simp [he'])
      · simpa using haddr
      · exact h.src_ne e' (by simp [he'])
    · simp only [map_append, map_cons, nodup_middle, nodup_cons, RplEntry.update_src, ← hsrc]
      exact hnodup
    · have hP : entryOf P rx.addr = none := by
        rw [entryOf_eq_none, ← hsrc]
        exact fun hmem => hnodup.1 (mem_append_left _ hmem)
      rw [entryOf_append, hP]
      simp
    · intro b hb
      simp [entryOf_append, hsrc, Ne.symm hb]
  · -- The first empty slot, right behind `occ`.
    obtain ⟨k, hk⟩ : ∃ k, slots.length - occ.length = k + 1 :=
      ⟨slots.length - occ.length - 1, by omega⟩
    rw [hk, replicate_succ] at hslots
    refine ⟨occ ++ [({} : RplEntry).update rx], ⟨?_, ?_, ?_⟩,
      ⟨({} : RplEntry).update rx, ?_, by simp, by simp⟩, ?_⟩
    · rw [hslots, hi, modify_length_append]
      simp
      omega
    · intro e' he'
      rw [mem_append, mem_singleton] at he'
      rcases he' with he' | rfl
      · exact h.src_ne e' he'
      · simpa using haddr
    · rw [map_append, map_singleton, nodup_append]
      exact ⟨h.nodup, by simp, by simpa using fun e he heq => hnot (mem_map.2 ⟨e, he, heq⟩)⟩
    · rw [entryOf_append, entryOf_eq_none.2 hnot]
      simp
    · intro b hb
      rw [entryOf_append]
      simp [Ne.symm hb, entryOf]

/-! ## A reset between the check and the update -/

/-- A reset leaves slot `i` where it is for its message: no entry before
it goes, and if its own entry goes, none moves into its place. -/
def SlotKept (slots : List RplEntry) (i : ℕ) : Prop :=
  (∀ j e, j < i → slots[j]? = some e → e.src ≠ 0 → e.oldIv = false) ∧
    ∀ e, slots[i]? = some e → e.src ≠ 0 → e.oldIv = true →
      ∀ j e', i < j → slots[j]? = some e' → e'.src = 0

theorem aged_of_forall_new {P : List RplEntry} (h : ∀ e ∈ P, e.oldIv = false) :
    aged P = P.map ({ · with oldIv := true }) := by
  rw [aged, filter_eq_self.2 (by simpa using h)]

theorem aged_append (P Q : List RplEntry) : aged (P ++ Q) = aged P ++ aged Q := by
  simp [aged]

theorem SlotFor.compact (hslot : SlotFor slots occ i a) (h : Occupied slots occ)
    (hkept : SlotKept slots i) : SlotFor (rplCompact slots) (aged occ) i a := by
  have hget : ∀ (j : ℕ) (e : RplEntry), occ[j]? = some e → slots[j]? = some e := by
    intro j e he
    rw [h.eq_append, getElem?_append_left (List.getElem?_eq_some_iff.1 he).1]
    exact he
  have hnew : ∀ P Q : List RplEntry, occ = P ++ Q → P.length ≤ i → ∀ e ∈ P, e.oldIv = false := by
    rintro P Q rfl hP e he
    obtain ⟨j, hj, rfl⟩ := getElem_of_mem he
    have hocc : (P ++ Q)[j]? = some P[j] := by
      rw [getElem?_append_left hj, getElem?_eq_getElem hj]
    exact hkept.1 j _ (by omega) (hget j _ hocc) (h.src_ne _ (by simp))
  rcases hslot with ⟨e, he, hsrc⟩ | ⟨hi, hlt, hnot⟩
  · obtain ⟨P, Q, rfl, rfl⟩ := exists_split_of_getElem? he
    have hP := aged_of_forall_new (hnew P _ rfl le_rfl)
    cases hold : e.oldIv with
    | false =>
      refine .inl ⟨{ e with oldIv := true }, ?_, hsrc⟩
      rw [aged_append, hP]
      simp [aged, hold]
    | true =>
      -- The entry goes, and being the last one it leaves its slot empty.
      have hQ : Q = [] := by
        cases Q with
        | nil => rfl
        | cons q Q =>
          have hq := hkept.2 e (hget _ e he) (h.src_ne e (by simp)) hold (P.length + 1) q
            (by omega) (hget _ q (by simp))
          exact absurd hq (h.src_ne q (by simp))
      subst hQ
      have haged : aged (P ++ [e]) = P.map ({ · with oldIv := true }) := by
        rw [aged_append, hP]
        simp [aged, hold]
      have hnodup := h.nodup
      rw [map_append, map_cons, nodup_middle, nodup_cons] at hnodup
      have hlen := h.length_le
      rw [SlotFor, haged, h.length_rplCompact]
      refine .inr ⟨by simp, by simp at hlen; omega, ?_⟩
      simpa [comp_def, hsrc] using hnodup.1
  · rw [SlotFor, aged_of_forall_new (hnew occ [] (by simp) hi.ge), h.length_rplCompact]
    exact .inr ⟨by simpa using hi, hlt, by simpa [comp_def] using hnot⟩

end Mesh

end OpenBlue
